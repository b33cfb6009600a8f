import Patchbay.Proofs.Compiler.Normalization
import Patchbay.Proofs.Graph.Loading
import Patchbay.Proofs.Primitive.Pass
import Patchbay.Proofs.Sequencing.Widgets

/-!
The snapshot of a compile stands in for the document: compiling it once more gives the same result. Each
stage leaves alone what the earlier compile has made of the document.
-/
set_option autoImplicit false

namespace Patchbay

namespace Compiler

/-- A document whose snapshot says all there is to say: nothing is merged, renamed twice or left out.
Stored sequencing links may share ids and compete for slots. -/
structure Snapshots (c : Compiler) (doc : Document) : Prop where
  nodeIds : doc.nodeIds.Nodup
  linkIds : (doc.links.map (·.id)).Nodup
  dataOnly : doc.DataOnly
  form : doc.hasCompactFlow = true ∨ doc.supportsFlow = false
  room : ∀ p, c.normalize doc = .ok p → ∀ id ∈ p.runtime.usedIds, id < Word.top
  types : ∀ node ∈ doc.nodes, c.registry.Settles node.type
  memberTypes : ∀ config ∈ doc.extra.groups.values, ∀ node ∈ config.nodes, c.registry.Settles node.type
  known : (doc.renamed c.registry).unknownTypes (doc.definitions c.registry) = []
  apart : Graph.Apart (doc.definitions c.registry)

theorem Snapshots.understands {c : Compiler} {doc : Document} (snapshots : c.Snapshots doc) : c.Understands doc :=
  ⟨snapshots.dataOnly, snapshots.form, snapshots.types, snapshots.memberTypes, snapshots.known⟩

theorem draft_congr {a b : Prepared} (definitions : a.definitions = b.definitions) (missing : a.missing = b.missing)
    (resolved : resolvePrimitives (.ofDocument a.runtime) a.definitions =
      resolvePrimitives (.ofDocument b.runtime) b.definitions)
    (written : (resolvePrimitives (.ofDocument a.runtime) a.definitions).toDocument a.runtime =
      (resolvePrimitives (.ofDocument b.runtime) b.definitions).toDocument b.runtime) : draft a = draft b := by
  simp only [draft, written]
  rw [resolved, definitions, missing]

/-! ### The snapshot -/

section Snapshot

variable {c : Compiler} {doc runtime : Document} (snapshots : c.Snapshots doc)
  (normal : c.normalize doc = .ok ⟨doc.definitions c.registry, runtime, []⟩)
  (made : (doc.renamed c.registry).RuntimeOf runtime)

include snapshots made in
theorem runtime_nodeIds : (runtime.nodes.map (·.id)).Nodup := by
  have ids := congrArg (List.map Prod.fst) made.outline
  simp only [List.map_map, Document.renamed] at ids
  have same : runtime.nodes.map (·.id) = doc.nodeIds := ids
  rw [same]
  exact snapshots.nodeIds

include snapshots normal made in
theorem ofDocument_runtime :
    Graph.ofDocument runtime = ⟨runtime.nodes, runtime.links, runtime.nextLinkId⟩ := by
  apply Graph.ofDocument_of_distinct _ (runtime_nodeIds snapshots made)
  exact made.distinct snapshots.linkIds (snapshots.room _ normal)

include snapshots normal made in
theorem toDocument_runtime (writes : List WidgetWrite) :
    ((Graph.ofDocument runtime).store writes).toDocument runtime = runtime.mapWidgets (storeAll writes) := by
  have last : (if 0 < runtime.nextLinkId then some (runtime.nextLinkId.lower 1) else runtime.lastLinkId) =
      runtime.lastLinkId := by
    by_cases pos : 0 < runtime.nextLinkId
    · rw [if_pos pos, made.lastLinkId (snapshots.room _ normal) pos]
    · rw [if_neg pos]
  have parts : (Graph.store writes ⟨runtime.nodes, runtime.links, runtime.nextLinkId⟩).toDocument runtime =
      { runtime.mapWidgets (storeAll writes) with
        lastLinkId := if 0 < runtime.nextLinkId then some (runtime.nextLinkId.lower 1)
          else runtime.lastLinkId } := rfl
  rw [ofDocument_runtime snapshots normal made, parts, last]
  rfl

include snapshots normal made in
theorem ofDocument_rewritten (writes : List WidgetWrite) :
    Graph.ofDocument (runtime.mapWidgets (storeAll writes)) = (Graph.ofDocument runtime).store writes := by
  have ids : ((runtime.mapWidgets (storeAll writes)).nodes.map (·.id)).Nodup := by
    simp only [Document.mapWidgets, List.map_map]
    exact runtime_nodeIds snapshots made
  rw [ofDocument_runtime snapshots normal made, Graph.ofDocument_of_distinct _ ids
    (made.distinct snapshots.linkIds (snapshots.room _ normal))]
  rfl

include snapshots made in
theorem normalize_stripped (change : WidgetChange) :
    c.normalize (runtime.stripped.mapWidgets change) =
      .ok ⟨doc.definitions c.registry, runtime.mapWidgets change, []⟩ := by
  refine normalize_of_types snapshots.understands _ _ ?_ made.extra ?_
  · intro node member
    obtain ⟨stored, inside, rfl⟩ := List.mem_map.1 member
    obtain ⟨old, known, same⟩ := type_of_stripped made inside
    exact ⟨old, known, same⟩
  · rw [Document.expand_of_supportsFlow _ _ rfl]
    exact Document.materialize_mapWidgets change _ _ rfl made.again

end Snapshot

theorem compile_snapshot (c : Compiler) (noExtensions : c.extensions = []) (doc : Document)
    (snapshots : c.Snapshots doc) (compiled : CompiledPrompt) (done : (c.compile doc).result = .ok compiled) :
    (c.compile compiled.workflow).result = .ok compiled := by
  rw [compile_eq_ok_iff noExtensions] at done ⊢
  obtain ⟨p, d, normal, drafted, finished⟩ := done
  obtain ⟨runtime, rfl, made⟩ := normalize_eq_ok snapshots.understands p normal
  -- What the primitives write is known from the graph before they write.
  have distinct : (Graph.ofDocument runtime).nodeIds.Nodup := by
    rw [ofDocument_runtime snapshots normal made]
    exact runtime_nodeIds snapshots made
  have resolved := resolvePrimitives_eq (.ofDocument runtime) _ snapshots.apart distinct
  have again := resolvePrimitives_again (.ofDocument runtime) _ snapshots.apart distinct
  generalize (Graph.ofDocument runtime).writes (doc.definitions c.registry)
    (Graph.ofDocument runtime).executionOrder = writes at resolved
  have rewritten := ofDocument_rewritten snapshots normal made writes
  have workflow : d.workflow = runtime.stripped.mapWidgets (storeAll writes) := by
    have compact := runtime.compact_mapWidgets (storeAll writes) made.notCompact made.lead
    simp only [draft, resolved, toDocument_runtime snapshots normal made, compact] at drafted
    cases drafted
    rfl
  have same : draft ⟨doc.definitions c.registry, runtime.mapWidgets (storeAll writes), []⟩ = .ok d := by
    rw [← drafted]
    refine draft_congr ?_ ?_ ?_ ?_
    · rfl
    · rfl
    · rw [rewritten, ← resolved, again]
    · rw [rewritten, ← resolved, again]
      rfl
  have snapshot : compiled.workflow = d.workflow := by
    rw [← finished, finish_eq noExtensions]
  refine ⟨⟨doc.definitions c.registry, runtime.mapWidgets (storeAll writes), []⟩, d, ?_, same, ?_⟩
  · rw [snapshot, workflow]
    exact normalize_stripped snapshots made (storeAll writes)
  · rw [← finished, finish_eq noExtensions, finish_eq noExtensions]

-- A primitive sets the steps of a sampler, which feeds a group of two more. The stored sequencing link
-- has the id of a data link.
def primed : Document :=
  let sampler (id : Int64) (type : String) : Node :=
    { Node.plain (.number id) type with
      inputs := [.plain "latent" "LATENT"]
      outputs := [{ OutputSlot.plain "LATENT" "LATENT" with index := some 0 }]
      widgets := some [.ofNat 5] }
  let pair : GroupConfig := ⟨[sampler 7 "OldSampler", sampler 8 "Sampler"], [⟨some 0, 0, 1, 0, []⟩], []⟩
  { Document.empty with
    lastLinkId := some 4
    nodes := [
      { Node.plain (.number 1) "PrimitiveNode" with
        outputs := [{ OutputSlot.plain "INT" "INT" with links := some [1], index := some 0 }]
        widgets := some [.ofNat 20]
        flowOutputs := some [] },
      { sampler 2 "OldSampler" with
        inputs := [.plain "latent" "LATENT",
          { InputSlot.plain "steps" "INT" with link := some 1, widget := some ⟨"steps", []⟩ }]
        outputs := [{ OutputSlot.plain "LATENT" "LATENT" with links := some [3], index := some 0 }]
        flowInputs := some [.plain "FROM"]
        flowOutputs := some [.plain "TO"] },
      { Node.plain (.number 3) "workflow/pair" with
        inputs := [{ InputSlot.plain "0:latent" "LATENT" with link := some 3 }]
        outputs := [{ OutputSlot.plain "LATENT" "LATENT" with index := some 0 }]
        flowInputs := some [.plain "FROM"]
        flowOutputs := some [.plain "TO"] }]
    links := [⟨1, .number 1, 0, .number 2, 1, "INT"⟩, ⟨3, .number 2, 0, .number 3, 0, "LATENT"⟩]
    flowLinks := some [⟨3, .number 2, 0, .number 3, 0, []⟩]
    extra := ⟨.ofList [("pair", pair)], []⟩ }

theorem compile_snapshot_primed :
    studio.extensions = [] ∧ studio.Snapshots primed ∧
      ∃ compiled, (studio.compile primed).result = .ok compiled ∧
        compiled.output.keys = ["2", "3:0", "3:1"] ∧
          (studio.compile compiled.workflow).result = .ok compiled := by
  have room : (match studio.normalize primed with
      | .ok p => p.runtime.usedIds.all (· < Word.top)
      | .error _ => false) = true := by decide +kernel
  have kinds : ∀ e ∈ (primed.definitions studio.registry).registry.virtualNodes.entries, e.2 = .primitive →
      (primed.definitions studio.registry).operation? e.1 = none := by decide +kernel
  have snapshots : studio.Snapshots primed := {
    nodeIds := by decide
    linkIds := by decide
    dataOnly := ⟨by decide, by decide⟩
    form := .inl rfl
    room := by
      intro p normal
      rw [normal] at room
      simpa using room
    types := by decide +kernel
    memberTypes := by decide +kernel
    known := by decide +kernel
    apart := fun type primitive => kinds (type, .primitive) (Table.mem_of_find primitive) rfl }
  have keys : (match (studio.compile primed).result with
      | .ok compiled => decide (compiled.output.keys = ["2", "3:0", "3:1"])
      | .error _ => false) = true := by decide +kernel
  refine ⟨rfl, snapshots, ?_⟩
  cases done : (studio.compile primed).result with
  | error failure =>
    rw [done] at keys
    cases keys
  | ok compiled =>
    rw [done] at keys
    exact ⟨compiled, rfl, of_decide_eq_true keys, compile_snapshot studio rfl primed snapshots compiled done⟩

end Compiler
end Patchbay
