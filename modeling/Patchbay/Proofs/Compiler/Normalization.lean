import Patchbay.Compiler
import Patchbay.Proofs.Sequencing.Runtime

/-!
What a compiler makes of the types of a document. Once they have their current names and are known, a
document is told to the later stages by its definitions and its runtime form alone.
-/
set_option autoImplicit false

namespace Patchbay

/-! ### Types that have their current name -/

theorem Node.renamed_of_current (r : Registry) (node : Node) (current : r.currentName node.type = node.type) :
    node.renamed r = node := by
  rw [Node.renamed, current]

theorem GroupConfig.renamed_of_current (r : Registry) (config : GroupConfig)
    (current : ∀ node ∈ config.nodes, r.currentName node.type = node.type) : config.renamed r = config := by
  have nodes : config.nodes.map (·.renamed r) = config.nodes := by
    refine (List.map_congr_left fun node member => ?_).trans (List.map_id config.nodes)
    exact node.renamed_of_current r (current node member)
  rw [GroupConfig.renamed, nodes]

-- Renaming a type a second time changes nothing.
def Registry.Settles (r : Registry) (type : String) : Prop :=
  r.currentName (r.currentName type) = r.currentName type

instance (r : Registry) (type : String) : Decidable (r.Settles type) := inferInstanceAs (Decidable (_ = _))

namespace Document

theorem renamed_of_current (r : Registry) (doc : Document)
    (nodes : ∀ node ∈ doc.nodes, r.currentName node.type = node.type)
    (groups : doc.extra.groups.map (fun _ config => config.renamed r) = doc.extra.groups) :
    doc.renamed r = doc := by
  have same : doc.nodes.map (·.renamed r) = doc.nodes := by
    refine (List.map_congr_left fun node member => ?_).trans (List.map_id doc.nodes)
    exact node.renamed_of_current r (nodes node member)
  rw [renamed, same, groups]

theorem groups_renamed_again (r : Registry) (doc : Document)
    (settled : ∀ config ∈ doc.extra.groups.values, ∀ node ∈ config.nodes, r.Settles node.type) :
    (doc.renamed r).extra.groups.map (fun _ config => config.renamed r) = (doc.renamed r).extra.groups := by
  apply Table.ext_get?
  intro key
  rw [renamed, Table.get?_map, Table.get?_map, Option.map_map]
  cases found : doc.extra.groups.get? key with
  | none => rfl
  | some config =>
    have inside : config ∈ doc.extra.groups.values := List.mem_map.2 ⟨(key, config), Table.mem_of_find found, rfl⟩
    rw [Option.map_some, Option.map_some, Function.comp, GroupConfig.renamed_of_current]
    intro node member
    obtain ⟨old, oldMember, rfl⟩ := List.mem_map.1 member
    exact settled config inside old oldMember

theorem renamed_dataOnly (r : Registry) (doc : Document) (dataOnly : doc.DataOnly) : (doc.renamed r).DataOnly := by
  refine ⟨?_, dataOnly.links⟩
  intro node member
  obtain ⟨old, inside, rfl⟩ := List.mem_map.1 member
  exact dataOnly.slots old inside

theorem hasCompactFlow_renamed (r : Registry) (doc : Document) :
    (doc.renamed r).hasCompactFlow = doc.hasCompactFlow := by
  simp only [hasCompactFlow, renamed, List.any_map]
  rfl

theorem isKnown_of_unknownTypes (doc : Document) (defs : Definitions) (known : doc.unknownTypes defs = [])
    {node : Node} (member : node ∈ doc.nodes) : defs.isKnown node.type = true := by
  rw [unknownTypes, List.map_eq_nil_iff, List.filter_eq_nil_iff] at known
  simpa using known node member

theorem sanitized_of_known (doc : Document) (defs : Definitions) (known : doc.unknownTypes defs = []) :
    doc.sanitized defs = doc := by
  have nodes : (doc.nodes.map fun node =>
      if defs.isKnown node.type then node else { node with type := sanitizeType node.type }) = doc.nodes := by
    refine (List.map_congr_left fun node member => ?_).trans (List.map_id doc.nodes)
    exact if_pos (doc.isKnown_of_unknownTypes defs known member)
  rw [sanitized, nodes]

/-- The definitions by which a document is compiled. -/
def definitions (doc : Document) (r : Registry) : Definitions :=
  .withGroups r (doc.renamed r).extra.groups

end Document

namespace Compiler

/-- Legacy or stored data whose types are all known, by their own names or by older ones. -/
structure Understands (c : Compiler) (doc : Document) : Prop where
  dataOnly : doc.DataOnly
  form : doc.hasCompactFlow = true ∨ doc.supportsFlow = false
  types : ∀ node ∈ doc.nodes, c.registry.Settles node.type
  memberTypes : ∀ config ∈ doc.extra.groups.values, ∀ node ∈ config.nodes, c.registry.Settles node.type
  known : (doc.renamed c.registry).unknownTypes (doc.definitions c.registry) = []

/-! ### Without extensions -/

section Hookless

variable {c : Compiler} (noExtensions : c.extensions = [])

include noExtensions in
theorem runHooks_eq (phase : HookPhase) (doc : Document) (missing : List String) :
    c.runHooks phase doc missing = (doc, []) := by
  simp only [runHooks, ExtensionSet.invoke, noExtensions, List.map_nil, HookState.takeTurns]

include noExtensions in
theorem prepare_eq (doc : Document) : c.prepare doc = ⟨c.normalize doc, []⟩ := by
  rw [prepare, runHooks_eq noExtensions]

include noExtensions in
theorem finish_eq (p : Prepared) (d : Draft) :
    c.finish p d =
      (⟨d.expansion.graph.serialize p.definitions d.expansion.graph.executionOrder, .ofDocument d.workflow,
        d.workflow, d.expansion.missing.eraseDups⟩, []) := by
  simp only [finish, noExtensions, List.isEmpty_nil, if_true]

include noExtensions in
theorem compile_eq_ok_iff (doc : Document) (compiled : CompiledPrompt) :
    (c.compile doc).result = .ok compiled ↔
      ∃ p d, c.normalize doc = .ok p ∧ draft p = .ok d ∧ (c.finish p d).1 = compiled := by
  rw [compile, prepare_eq noExtensions]
  cases normal : c.normalize doc with
  | error failure => simp
  | ok p =>
    cases drafted : draft p with
    | error failure => simp [drafted]
    | ok d => simp [drafted]

include noExtensions in
theorem load_eq (doc : Document) :
    (c.load doc).result = (c.normalize doc).map fun p =>
      ⟨p.runtime, p.missing.eraseDups, p.definitions.groups.values⟩ := by
  rw [load, prepare_eq noExtensions]
  cases c.normalize doc with
  | error failure => rfl
  | ok p =>
    simp only [runHooks_eq noExtensions]
    rfl

include noExtensions in
/-- Nothing else about a document matters to a compile than what it is normalized to. -/
theorem compile_congr {a b : Document} (same : c.normalize a = c.normalize b) : c.compile a = c.compile b := by
  rw [compile, compile, prepare_eq noExtensions, prepare_eq noExtensions, same]

end Hookless

section Normal

variable {c : Compiler} {doc runtime : Document} (understood : c.Understands doc)

include understood in
theorem normalize_eq : c.normalize doc =
    match (doc.renamed c.registry).expand c.registry with
    | .ok runtime => .ok ⟨doc.definitions c.registry, runtime, []⟩
    | .error cause => .error (.invalidDocument cause c.extensions.hint?) := by
  have known := understood.known
  have clean := (doc.renamed c.registry).sanitized_of_known (doc.definitions c.registry) known
  rw [Document.definitions] at known clean
  simp only [normalize, clean, known]
  rfl

include understood in
theorem normalize_eq_ok (p : Prepared) (done : c.normalize doc = .ok p) :
    ∃ runtime, p = ⟨doc.definitions c.registry, runtime, []⟩ ∧
      (doc.renamed c.registry).RuntimeOf runtime := by
  rw [normalize_eq understood] at done
  cases expanded : (doc.renamed c.registry).expand c.registry with
  | error cause =>
    rw [expanded] at done
    cases done
  | ok runtime =>
    rw [expanded] at done
    cases done
    refine ⟨runtime, rfl, Document.runtimeOf_expand c.registry _ runtime ?_ ?_ expanded⟩
    · exact doc.renamed_dataOnly c.registry understood.dataOnly
    · rw [doc.hasCompactFlow_renamed c.registry]
      exact understood.form

include understood in
/-- A document with the types and groups of another one, brought up to date, is normalized by expanding it. -/
theorem normalize_of_types (other result : Document)
    (types : ∀ node ∈ other.nodes, ∃ old ∈ (doc.renamed c.registry).nodes, old.type = node.type)
    (extra : other.extra = (doc.renamed c.registry).extra) (expanded : other.expand c.registry = .ok result) :
    c.normalize other = .ok ⟨doc.definitions c.registry, result, []⟩ := by
  have renamed : other.renamed c.registry = other := by
    apply Document.renamed_of_current
    · intro node member
      obtain ⟨old, inside, same⟩ := types node member
      obtain ⟨first, firstInside, rfl⟩ := List.mem_map.1 inside
      rw [← same]
      exact understood.types first firstInside
    · rw [extra]
      exact doc.groups_renamed_again c.registry understood.memberTypes
  have known : other.unknownTypes (doc.definitions c.registry) = [] := by
    rw [Document.unknownTypes, List.map_eq_nil_iff, List.filter_eq_nil_iff]
    intro node member
    obtain ⟨old, inside, same⟩ := types node member
    rw [← same, Document.isKnown_of_unknownTypes _ _ understood.known inside]
    decide
  have defs : Definitions.withGroups c.registry other.extra.groups = doc.definitions c.registry := by
    rw [extra]
    rfl
  simp only [normalize, renamed, defs, known, Document.sanitized_of_known _ _ known, expanded]

variable (made : (doc.renamed c.registry).RuntimeOf runtime)

include made in
theorem type_of_runtime {node : Node} (member : node ∈ runtime.nodes) :
    ∃ old ∈ (doc.renamed c.registry).nodes, old.type = node.type := by
  have outline : node.outline ∈ (doc.renamed c.registry).nodes.map (·.outline) := by
    rw [← made.outline]
    exact List.mem_map_of_mem member
  obtain ⟨old, inside, same⟩ := List.mem_map.1 outline
  exact ⟨old, inside, congrArg Prod.snd same⟩

include made in
theorem type_of_stripped {node : Node} (member : node ∈ runtime.stripped.nodes) :
    ∃ old ∈ (doc.renamed c.registry).nodes, old.type = node.type := by
  obtain ⟨live, inside, rfl⟩ := List.mem_map.1 member
  obtain ⟨old, known, same⟩ := type_of_runtime made inside
  exact ⟨old, known, same⟩

end Normal

-- One operation, known under an older name as well.
def studio : Compiler :=
  let sampler := ((Operation.named "Sampler").addRequired "latent" (.text "LATENT")).addRequired "steps" (.text "INT")
  ⟨(Registry.standard.insert (sampler.addOutput "LATENT" "latent")).addRename "OldSampler" "Sampler", .standard, []⟩

end Compiler
end Patchbay
