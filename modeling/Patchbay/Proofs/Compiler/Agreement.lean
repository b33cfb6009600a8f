import Patchbay.Proofs.Compiler.Normalization
import Patchbay.Proofs.Graph.Loading
import Patchbay.Proofs.Primitive.Pass

/-!
A document, what loading makes of it and what is stored of that are the same thing to a compile. A compile
fails where loading fails and nowhere else.
-/
set_option autoImplicit false

namespace Patchbay

-- The node can be brought into compact form and has not been yet.
structure Node.Compactable (node : Node) : Prop where
  inputs : node.flowInputs = none
  outputs : node.flowOutputs = none
  lead : node.flowSlotsLead = true

namespace Document

theorem compact_of_compactable (doc : Document) (flowLinks : doc.flowLinks = none)
    (nodes : ∀ node ∈ doc.nodes, node.Compactable) : doc.compact = .ok doc.stripped := by
  have notCompact : doc.hasCompactFlow = false := by
    simp only [hasCompactFlow, flowLinks, Option.isSome_none, Bool.false_or, List.any_eq_false]
    intro node member
    simp [(nodes node member).inputs, (nodes node member).outputs]
  rw [compact_of_not_compact doc notCompact, strip_eq_ok doc fun node member => (nodes node member).lead]

theorem RuntimeOf.compactable {doc runtime : Document} (made : doc.RuntimeOf runtime) :
    runtime.flowLinks = none ∧ ∀ node ∈ runtime.nodes, node.Compactable := by
  have none := made.notCompact
  simp only [hasCompactFlow, Bool.or_eq_false_iff, Option.isSome_eq_false_iff, Option.isNone_iff_eq_none,
    List.any_eq_false, Bool.not_eq_true] at none
  refine ⟨none.1, fun node member => ?_⟩
  exact ⟨(none.2 node member).1, (none.2 node member).2, made.lead node member⟩

end Document

namespace Compiler

/-- Primitives write to widgets only, so what they leave of a runtime document can be stored. -/
theorem compact_resolved (runtime : Document) (defs : Definitions) (flowLinks : runtime.flowLinks = none)
    (nodes : ∀ node ∈ runtime.nodes, node.Compactable) :
    ∃ workflow, ((resolvePrimitives (.ofDocument runtime) defs).toDocument runtime).compact = .ok workflow := by
  have loaded : ∀ node ∈ (Graph.ofDocument runtime).nodes, node.Compactable :=
    fun node member => nodes node (Graph.mem_of_mem_ofDocument runtime member)
  have blind : ∀ (node : Node) (widgets : Option (List Json)),
      node.Compactable → Node.Compactable { node with widgets := widgets } :=
    fun _ _ compactable => ⟨compactable.inputs, compactable.outputs, compactable.lead⟩
  have resolved := Graph.applyPrimitives_forall blind (.ofDocument runtime) defs
    (Graph.ofDocument runtime).executionOrder loaded
  exact ⟨_, Document.compact_of_compactable
    ((resolvePrimitives (.ofDocument runtime) defs).toDocument runtime) flowLinks resolved⟩

theorem draft_ok {doc : Document} (p : Prepared) (made : doc.RuntimeOf p.runtime) : ∃ d, draft p = .ok d := by
  obtain ⟨flowLinks, nodes⟩ := made.compactable
  obtain ⟨workflow, compact⟩ := compact_resolved p.runtime p.definitions flowLinks nodes
  rw [draft, compact]
  exact ⟨_, rfl⟩

section Agreement

variable {c : Compiler} {doc : Document} (noExtensions : c.extensions = []) (understood : c.Understands doc)

include noExtensions understood in
theorem compile_error_iff (failure : Failure) :
    (c.compile doc).result = .error failure ↔ c.normalize doc = .error failure := by
  rw [compile, prepare_eq noExtensions]
  cases normal : c.normalize doc with
  | error cause => simp
  | ok p =>
    obtain ⟨runtime, rfl, made⟩ := normalize_eq_ok understood p normal
    obtain ⟨d, drafted⟩ := draft_ok ⟨doc.definitions c.registry, runtime, []⟩ made
    simp [drafted]

include understood in
theorem normalize_loaded (p : Prepared) (normal : c.normalize doc = .ok p) :
    c.normalize p.runtime = .ok p ∧ p.runtime.compact = .ok p.runtime.stripped ∧
      c.normalize p.runtime.stripped = .ok p := by
  obtain ⟨runtime, rfl, made⟩ := normalize_eq_ok understood p normal
  refine ⟨?_, made.compact_eq, ?_⟩
  · exact normalize_of_types understood runtime runtime (fun _ => type_of_runtime made) made.extra
      (made.expand_self c.registry)
  · exact normalize_of_types understood runtime.stripped runtime (fun _ => type_of_stripped made) made.extra
      (made.expand_stripped c.registry)

end Agreement

-- Nodes and links share ids, two nodes feed each other, one link ends nowhere, and both sequencing links
-- leave the same output.
def tangled : Document :=
  let sampler (id : Int64) (type : String) : Node :=
    { Node.plain (.number id) type with
      inputs := [{ InputSlot.plain "latent" "LATENT" with link := some 2 }]
      outputs := [{ OutputSlot.plain "LATENT" "LATENT" with links := some [1, 2], index := some 0 }]
      widgets := some [.ofNat 5]
      flowInputs := some [.plain "FROM"]
      flowOutputs := some [.plain "TO"] }
  { Document.empty with
    nodes := [sampler 1 "OldSampler", sampler 2 "Sampler", sampler 2 "OldSampler"]
    links := [⟨1, .number 1, 0, .number 2, 0, "LATENT"⟩, ⟨2, .number 2, 0, .number 1, 0, "LATENT"⟩,
      ⟨2, .number 2, 0, .number 9, 0, "LATENT"⟩]
    flowLinks := some [⟨3, .number 1, 0, .number 2, 0, []⟩, ⟨4, .number 1, 0, .number 1, 0, []⟩] }

end Compiler
end Patchbay
