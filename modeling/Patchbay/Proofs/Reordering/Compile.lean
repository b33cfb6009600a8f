import Patchbay.Proofs.Reordering.Runtime

/-!
The instructions that a document is compiled to do not depend on the order in which its nodes and links are stored.
Main statement: `Compiler.compile_reordered`.
-/
set_option autoImplicit false

namespace Patchbay

/-! ### Types -/

namespace Document

def retyped (doc : Document) (rename : String → String) : Document :=
  { doc with nodes := doc.nodes.map fun node => { node with type := rename node.type } }

section Retyped

variable (rename : String → String)

theorem nodeIds_retyped (doc : Document) : (doc.retyped rename).nodeIds = doc.nodeIds := by
  rw [nodeIds, retyped, List.map_map]
  rfl

theorem Reordered.retyped {a b : Document} (reordered : a.Reordered b) :
    (a.retyped rename).Reordered (b.retyped rename) where
  nodes := reordered.nodes.map _
  links := reordered.links
  rest := by
    rw [Document.retyped, Document.retyped, reordered.rest]

theorem Tidy.retyped {doc : Document} (tidy : doc.Tidy) : (doc.retyped rename).Tidy := by
  have untyped : ∀ node ∈ (doc.retyped rename).nodes, ∃ old ∈ doc.nodes, { old with type := rename old.type } = node :=
    fun node member => List.mem_map.1 member
  constructor
  · rw [nodeIds_retyped]
    exact tidy.displays
  · exact tidy.linkIds
  · refine ⟨fun node member => ?_, tidy.dataOnly.links⟩
    obtain ⟨old, inside, rfl⟩ := untyped node member
    exact tidy.dataOnly.slots old inside
  · constructor
    · intro node member
      obtain ⟨old, inside, rfl⟩ := untyped node member
      exact tidy.agrees.inputs old inside
    · intro node member
      obtain ⟨old, inside, rfl⟩ := untyped node member
      exact tidy.agrees.outputs old inside
  · intro node member
    obtain ⟨old, inside, rfl⟩ := untyped node member
    exact tidy.widgets old inside
  · intro node member
    obtain ⟨old, inside, rfl⟩ := untyped node member
    exact tidy.slots old inside
  · have length : (doc.retyped rename).nodes.length = doc.nodes.length := List.length_map _
    rw [length]
    exact tidy.room

end Retyped

end Document

theorem Definitions.withGroups_empty (r : Registry) : Definitions.withGroups r .empty = .ofRegistry r := by
  unfold withGroups addAll
  rfl

/-- The name by which a type is compiled in a document without groups. -/
def Registry.compiledName (r : Registry) (type : String) : String :=
  let current := r.currentName type
  if (Definitions.ofRegistry r).isKnown current then current else sanitizeType current

namespace Compiler

section WithoutGroups

theorem normalize_without_groups (c : Compiler) (doc : Document) (noGroups : doc.extra.groups = .empty) :
    c.normalize doc = match (doc.retyped c.registry.compiledName).expand c.registry with
    | .ok runtime => .ok ⟨.ofRegistry c.registry, runtime,
        (doc.renamed c.registry).unknownTypes (.ofRegistry c.registry)⟩
    | .error cause => .error (.invalidDocument cause c.extensions.hint?) := by
  have groups : (doc.renamed c.registry).extra = doc.extra := by
    have none : (Table.empty : Table GroupConfig).map (fun _ config => config.renamed c.registry) = .empty := rfl
    rw [Document.renamed, noGroups, none, ← noGroups]
  have types : (doc.renamed c.registry).sanitized (.ofRegistry c.registry) = doc.retyped c.registry.compiledName := by
    have each : ∀ node : Node, ({ node with type := c.registry.compiledName node.type } : Node) =
        if (Definitions.ofRegistry c.registry).isKnown (node.renamed c.registry).type then node.renamed c.registry
        else { node.renamed c.registry with type := sanitizeType (node.renamed c.registry).type } :=
      fun node => apply_ite (fun type => ({ node with type := type } : Node)) _ _ _
    rw [Document.sanitized, Document.retyped, groups, funext each]
    simp only [Document.renamed, List.map_map, Function.comp_def]
  cases expanded : (doc.retyped c.registry.compiledName).expand c.registry <;>
    simp only [normalize, groups, noGroups, Definitions.withGroups_empty, types, expanded]

theorem expandGroups_without_groups (g : Graph) (defs : Definitions) (noGroups : defs.groups = .empty)
    (missing : List String) : g.expandGroups defs missing = ⟨g, missing, 0⟩ := by
  have none : g.nodeIds.filter (defs.isInstance g) = [] := by
    rw [List.filter_eq_nil_iff]
    intro id _
    have unknown : ∀ type, defs.group? type = .none := by
      intro type
      rw [Definitions.group?, noGroups, Table.get?_empty]
    cases found : g.node? id <;> simp [Definitions.isInstance, found, unknown]
  rw [Graph.expandGroups, none, List.map_nil, expandQueue]

theorem draft_without_groups (p : Prepared) (noGroups : p.definitions.groups = .empty)
    (clear : p.runtime.Unambiguous) :
    ∃ d, draft p = .ok d ∧ d.expansion.graph = resolvePrimitives p.runtime.graph p.definitions := by
  obtain ⟨workflow, compact⟩ := compact_resolved p.runtime p.definitions clear.flowLinks clear.compactable
  rw [draft, compact]
  refine ⟨_, rfl, ?_⟩
  simp only [expandGroups_without_groups _ _ noGroups, Nat.lt_irrefl, if_false, clear.graph_eq]

end WithoutGroups

/-- The instructions of a graph, once its primitives have written their values. -/
def promptOf (g : Graph) (defs : Definitions) : Prompt :=
  (resolvePrimitives g defs).serialize defs (resolvePrimitives g defs).executionOrder

theorem promptOf_congr {g h : Graph} (same : g.SameData h) (displaysG : (g.nodeIds.map NodeId.display).Nodup)
    (displaysH : (h.nodeIds.map NodeId.display).Nodup) {defs : Definitions} (apart : Graph.Apart defs)
    (fedOnce : g.FedOnce) (widgets : ∀ node ∈ g.nodes, node.WidgetsDiffer) : promptOf g defs = promptOf h defs := by
  have distinctG := displaysG.of_map _
  have distinctH := displaysH.of_map _
  have ids : ∀ k : Graph, k.nodeIds.Nodup → (resolvePrimitives k defs).nodeIds = k.nodeIds := by
    intro k distinct
    rw [resolvePrimitives_eq k defs apart distinct, Graph.nodeIds_store]
  have visits : ∀ k : Graph, k.nodeIds.Nodup → ∀ id ∈ k.nodeIds, id ∈ k.executionOrder :=
    fun k distinct id => ((k.executionOrder_placing distinct).perm distinct).mem_iff.2
  apply (same.resolvePrimitives distinctG distinctH defs apart fedOnce widgets).serialize
  · rw [ids g distinctG]
    exact displaysG
  · rw [ids h distinctH]
    exact displaysH
  · exact visits _ (by rwa [ids g distinctG])
  · exact visits _ (by rwa [ids h distinctH])

section Reordered

variable {c : Compiler} (noExtensions : c.extensions = []) {doc : Document} (tidy : doc.Tidy)
  (noGroups : doc.extra.groups = .empty)

include noExtensions tidy noGroups in
theorem compile_output_iff (output : Prompt) :
    (∃ compiled, (c.compile doc).result = .ok compiled ∧ compiled.output = output) ↔
      ∃ runtime, (doc.retyped c.registry.compiledName).expand c.registry = .ok runtime ∧
        promptOf runtime.graph (.ofRegistry c.registry) = output := by
  simp only [compile_eq_ok_iff noExtensions, normalize_without_groups c doc noGroups]
  cases expanded : (doc.retyped c.registry.compiledName).expand c.registry with
  | error cause => simp
  | ok runtime =>
    have clear := (tidy.retyped c.registry.compiledName).unambiguous expanded
    obtain ⟨d, drafted, graph⟩ := draft_without_groups ⟨.ofRegistry c.registry, runtime,
      (doc.renamed c.registry).unknownTypes (.ofRegistry c.registry)⟩ rfl clear
    constructor
    · rintro ⟨compiled, ⟨p, other, normal, draftedToo, rfl⟩, rfl⟩
      cases normal
      rw [drafted] at draftedToo
      cases draftedToo
      exact ⟨runtime, rfl, by rw [finish_eq noExtensions, graph, promptOf]⟩
    · rintro ⟨_, same, rfl⟩
      cases same
      exact ⟨_, ⟨_, d, rfl, drafted, rfl⟩, by rw [finish_eq noExtensions, graph, promptOf]⟩

variable (apart : Graph.Apart (.ofRegistry c.registry)) {a b : Document} (reordered : a.Reordered b)

include apart reordered in
theorem promptOf_reordered (tidy : a.Tidy) {runtime : Document} (expanded : a.expand c.registry = .ok runtime) :
    ∃ other, b.expand c.registry = .ok other ∧
      promptOf runtime.graph (.ofRegistry c.registry) = promptOf other.graph (.ofRegistry c.registry) := by
  obtain ⟨other, expandedToo, same⟩ := Document.expand_reordered reordered tidy expanded
  have clear := tidy.unambiguous expanded
  have clearToo := (tidy.reordered reordered).unambiguous expandedToo
  exact ⟨other, expandedToo, promptOf_congr same clear.displays clearToo.displays apart clear.fedOnce clear.widgets⟩

end Reordered

/-- Documents that differ in the order of nodes and links are compiled to the same instructions, or neither is. -/
theorem compile_reordered (c : Compiler) (noExtensions : c.extensions = [])
    (apart : Graph.Apart (.ofRegistry c.registry)) {a b : Document} (reordered : a.Reordered b) (tidy : a.Tidy)
    (noGroups : a.extra.groups = .empty) :
    ((∃ compiled, (c.compile a).result = .ok compiled) ↔ ∃ compiled, (c.compile b).result = .ok compiled) ∧
      ∀ x y, (c.compile a).result = .ok x → (c.compile b).result = .ok y → x.output = y.output := by
  have noGroupsToo : b.extra.groups = .empty := reordered.extra ▸ noGroups
  have both : ∀ output, (∃ compiled, (c.compile a).result = .ok compiled ∧ compiled.output = output) ↔
      ∃ compiled, (c.compile b).result = .ok compiled ∧ compiled.output = output := by
    intro output
    rw [compile_output_iff noExtensions tidy noGroups,
      compile_output_iff noExtensions (tidy.reordered reordered) noGroupsToo]
    have types := reordered.retyped c.registry.compiledName
    have tidyTypes := tidy.retyped c.registry.compiledName
    constructor
    · rintro ⟨runtime, expanded, rfl⟩
      obtain ⟨other, expandedToo, same⟩ := promptOf_reordered apart types tidyTypes expanded
      exact ⟨other, expandedToo, same.symm⟩
    · rintro ⟨runtime, expanded, rfl⟩
      obtain ⟨other, expandedToo, same⟩ := promptOf_reordered apart types.symm (tidyTypes.reordered types) expanded
      exact ⟨other, expandedToo, same.symm⟩
  refine ⟨⟨?_, ?_⟩, ?_⟩
  · rintro ⟨x, done⟩
    obtain ⟨y, doneToo, _⟩ := (both x.output).1 ⟨x, done, rfl⟩
    exact ⟨y, doneToo⟩
  · rintro ⟨y, done⟩
    obtain ⟨x, doneToo, _⟩ := (both y.output).2 ⟨y, done, rfl⟩
    exact ⟨x, doneToo⟩
  · intro x y done doneToo
    obtain ⟨other, again, same⟩ := (both x.output).1 ⟨x, done, rfl⟩
    rw [doneToo] at again
    cases again
    exact same.symm

-- A primitive sets the steps of the first of two samplers, and the stored sequencing link has the id of a data link.
def steered : Document :=
  let sampler (id : Int64) (inputs : List InputSlot) (links : Option (List LinkId)) : Node :=
    { Node.plain (.number id) "OldSampler" with
      inputs := inputs
      outputs := [{ OutputSlot.plain "LATENT" "LATENT" with links := links, index := some 0 }]
      widgets := some [.ofNat 5]
      flowInputs := some [.plain "FROM"]
      flowOutputs := some [.plain "TO"] }
  { Document.empty with
    nodes := [
      { Node.plain (.number 1) "PrimitiveNode" with
        outputs := [{ OutputSlot.plain "INT" "INT" with links := some [1], index := some 0 }]
        widgets := some [.ofNat 20]
        flowOutputs := some [] },
      sampler 2 [.plain "latent" "LATENT",
        { InputSlot.plain "steps" "INT" with link := some 1, widget := some ⟨"steps", []⟩ }] (some [3]),
      sampler 3 [{ InputSlot.plain "latent" "LATENT" with link := some 3 }] none]
    links := [⟨1, .number 1, 0, .number 2, 1, "INT"⟩, ⟨3, .number 2, 0, .number 3, 0, "LATENT"⟩]
    flowLinks := some [⟨3, .number 2, 0, .number 3, 0, []⟩] }

def turned : Document := { steered with nodes := steered.nodes.reverse, links := steered.links.reverse }

theorem compile_reordered_steered :
    studio.extensions = [] ∧ Graph.Apart (.ofRegistry studio.registry) ∧ steered.Reordered turned ∧ steered.Tidy ∧
      steered.extra.groups = .empty ∧ turned.nodes ≠ steered.nodes ∧
        ∃ x y, (studio.compile steered).result = .ok x ∧ (studio.compile turned).result = .ok y ∧
          x.output.keys = ["2", "3"] ∧ x.output = y.output := by
  have reordered : steered.Reordered turned :=
    ⟨steered.nodes.reverse_perm.symm, steered.links.reverse_perm.symm, rfl⟩
  have kinds : ∀ e ∈ studio.registry.virtualNodes.entries, e.2 = .primitive →
      (Definitions.ofRegistry studio.registry).operation? e.1 = none := by decide +kernel
  have apart : Graph.Apart (.ofRegistry studio.registry) := fun type primitive =>
    kinds (type, .primitive) (Table.mem_of_find primitive) rfl
  have wired : steered.graph.Wired := by decide +kernel
  have tidy : steered.Tidy := {
    displays := by decide +kernel
    linkIds := by decide
    dataOnly := ⟨by decide, by decide⟩
    agrees := .of_wired wired
    widgets := by decide
    slots := by decide +kernel
    room := by decide +kernel }
  have keys : (match (studio.compile steered).result with
      | .ok x => decide (x.output.keys = ["2", "3"])
      | .error _ => false) = true := by decide +kernel
  obtain ⟨both, same⟩ := compile_reordered studio rfl apart reordered tidy rfl
  cases done : (studio.compile steered).result with
  | error failure =>
    rw [done] at keys
    cases keys
  | ok x =>
    rw [done] at keys
    obtain ⟨y, doneToo⟩ := both.1 ⟨x, done⟩
    refine ⟨rfl, apart, reordered, tidy, rfl, by decide, x, y, rfl, doneToo, of_decide_eq_true keys, ?_⟩
    exact same x y done doneToo

end Compiler
end Patchbay
