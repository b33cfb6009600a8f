import Patchbay.Proofs.Compiler.MissingTypes
import Patchbay.Proofs.Stored.Conversion

/-!
Unknown types lose their unsafe characters, and every later stage looks a node up by what is left. That may be the name
of something else: a plain name stands for all the names that come to it.
-/
set_option autoImplicit false

namespace Patchbay

/-! ### Names without unsafe characters -/

theorem toList_sanitizeType (name : String) :
    (sanitizeType name).toList = name.toList.filter fun c => !isUnsafeInType c :=
  String.toList_ofList

theorem sanitizeType_eq_self_iff (name : String) :
    sanitizeType name = name ↔ ∀ c ∈ name.toList, isUnsafeInType c = false := by
  rw [← String.toList_inj, toList_sanitizeType, List.filter_eq_self]
  simp only [Bool.not_eq_true']

theorem isUnsafeInType_of_mem_sanitizeType {name : String} {c : Char} (inside : c ∈ (sanitizeType name).toList) :
    isUnsafeInType c = false := by
  rw [toList_sanitizeType, List.mem_filter, Bool.not_eq_true'] at inside
  exact inside.2

def mark (name : String) (count : Nat) : String := name ++ String.ofList (List.replicate count '<')

theorem length_mark (name : String) (count : Nat) : (mark name count).length = name.length + count := by
  rw [mark, String.length_append, String.length_ofList, List.length_replicate]

theorem sanitizeType_mark (name : String) (count : Nat) : sanitizeType (mark name count) = sanitizeType name := by
  have unsafeMark : isUnsafeInType '<' = true := rfl
  rw [← String.toList_inj, toList_sanitizeType, toList_sanitizeType, mark, String.toList_append, String.toList_ofList,
    List.filter_append, List.filter_replicate, unsafeMark]
  exact List.append_nil _

theorem exists_length_bound (names : List String) : ∃ bound, ∀ name ∈ names, name.length ≤ bound := by
  induction names with
  | nil => exact ⟨0, nofun⟩
  | cons name rest ih =>
    obtain ⟨bound, below⟩ := ih
    refine ⟨max name.length bound, List.forall_mem_cons.2 ⟨Nat.le_max_left .., fun other inside => ?_⟩⟩
    exact (below other inside).trans (Nat.le_max_right ..)

/-! ### Types after normalization -/

theorem Node.outline_unlinked (node : Node) : node.unlinked.outline = node.outline := rfl

namespace Document

theorem outline_materialize {doc runtime : Document} (done : doc.materialize = .ok runtime) :
    runtime.nodes.map (·.outline) = doc.nodes.map (·.outline) := by
  cases compact : doc.hasCompactFlow with
  | false =>
    rw [materialize_of_not_compact doc compact] at done
    cases done
    rfl
  | true =>
    have views := congrArg (List.map (·.outline)) (unlinked_materialize done compact)
    simp only [List.map_map] at views
    exact views

theorem outline_expand {doc runtime : Document} {r : Registry} (done : doc.expand r = .ok runtime) :
    runtime.nodes.map (·.outline) = doc.nodes.map (·.outline) := by
  unfold expand at done
  split at done
  · exact (outline_materialize done).trans (doc.addChain_outline r)
  · exact outline_materialize done

variable (doc : Document) (r : Registry)

/-- The type that a top-level node has after normalization. -/
def finalType (type : String) : String :=
  if (doc.definitions r).isKnown (r.currentName type) then r.currentName type
  else sanitizeType (r.currentName type)

theorem finalType_of_defines {type : String} (defined : doc.Defines r (r.currentName type)) :
    doc.finalType r type = r.currentName type :=
  if_pos ((doc.isKnown_definitions_iff r _).2 defined)

theorem finalType_of_not_defines {type : String} (undefined : ¬ doc.Defines r (r.currentName type)) :
    doc.finalType r type = sanitizeType (r.currentName type) :=
  if_neg fun known => undefined ((doc.isKnown_definitions_iff r _).1 known)

theorem nodes_normalized : ((doc.renamed r).sanitized (doc.definitions r)).nodes =
    doc.nodes.map fun node => { node with type := doc.finalType r node.type } := by
  rw [sanitized, renamed, List.map_map]
  apply List.map_congr_left
  intro node _
  rw [Function.comp, finalType, Node.renamed]
  split <;> rfl

theorem defines_finalType_iff (type : String) : doc.Defines r (doc.finalType r type) ↔
    doc.Defines r (r.currentName type) ∨ doc.Defines r (sanitizeType (r.currentName type)) := by
  by_cases defined : doc.Defines r (r.currentName type)
  · rw [doc.finalType_of_defines r defined]
    exact iff_of_true defined (.inl defined)
  · rw [doc.finalType_of_not_defines r defined]
    exact (or_iff_right defined).symm

theorem not_defines_iff (type : String) : ¬ doc.Defines r type ↔ (doc.definitions r).operation? type = none ∧
    r.virtualKind? type = none ∧ (doc.definitions r).group? type = none := by
  rw [← isKnown_definitions_iff, Bool.not_eq_true, Definitions.isKnown, Registry.isKnown, definitions,
    Definitions.registry_withGroups, Definitions.operation?, Definitions.registry_withGroups, Option.or_eq_none_iff,
    Option.map_eq_none_iff, Bool.or_eq_false_iff, Bool.or_eq_false_iff]
  simp only [Table.contains, Option.isSome_eq_false_iff, Option.isNone_iff_eq_none]
  constructor
  · rintro ⟨⟨operation, kind⟩, group⟩
    exact ⟨⟨operation, group⟩, kind, group⟩
  · rintro ⟨⟨operation, _⟩, kind, group⟩
    exact ⟨⟨operation, kind⟩, group⟩

-- The tables are finite: a name that is longer than all of theirs is neither defined nor renamed.
theorem exists_not_defines_mark (name : String) (least : Nat) :
    ∃ count, least ≤ count ∧ r.currentName (mark name count) = mark name count ∧
      ¬ doc.Defines r (mark name count) := by
  obtain ⟨bound, below⟩ := exists_length_bound
    (r.operations.keys ++ r.virtualNodes.keys ++ doc.extra.groups.keys.map groupType ++ r.renames.keys)
  simp only [List.mem_append, List.mem_map, Table.mem_keys_iff] at below
  have absent : ∀ other : String, bound < other.length → ¬ (((r.operations.contains other ∨
      r.virtualNodes.contains other) ∨ ∃ group, doc.extra.groups.contains group ∧ groupType group = other) ∨
        r.renames.contains other) := by
    intro other long held
    exact Nat.not_lt_of_le (below other held) long
  have long : bound < (mark name (least + bound + 1)).length := by
    rw [length_mark]
    omega
  refine ⟨least + bound + 1, by omega, ?_, ?_⟩
  · cases renamed : r.renames.get? (mark name (least + bound + 1)) with
    | none => rw [Registry.currentName, Registry.rename?, renamed, Option.getD_none]
    | some current => exact absurd (.inr (Option.isSome_of_eq_some renamed)) (absent _ long)
  · rintro (operation | kind | ⟨group, configured, same⟩)
    · exact absent _ long (.inl (.inl (.inl operation)))
    · exact absent _ long (.inl (.inl (.inr kind)))
    · exact absent _ long (.inl (.inr ⟨group, configured, same.symm⟩))

end Document

namespace Compiler

/-- What sanitizing does to the types of a document, and when it leaves unknown types unknown. -/
structure Sanitizes (c : Compiler) (doc : Document) : Prop where
  nodes : ((doc.renamed c.registry).sanitized (doc.definitions c.registry)).nodes =
    doc.nodes.map fun node => { node with type := doc.finalType c.registry node.type }
  defined_iff : ∀ type, doc.Defines c.registry (doc.finalType c.registry type) ↔
    doc.Defines c.registry (c.registry.currentName type) ∨
      doc.Defines c.registry (sanitizeType (c.registry.currentName type))
  keeps_iff : (∀ node ∈ doc.nodes, doc.Defines c.registry (doc.finalType c.registry node.type) ↔
      doc.Defines c.registry (c.registry.currentName node.type)) ↔
    ∀ type ∈ (doc.renamed c.registry).unknownTypes (doc.definitions c.registry),
      (doc.definitions c.registry).operation? (sanitizeType type) = none ∧
        c.registry.virtualKind? (sanitizeType type) = none ∧
          (doc.definitions c.registry).group? (sanitizeType type) = none
  taken_iff : ∀ known, doc.Defines c.registry known →
    ((∃ type, ¬ doc.Defines c.registry (c.registry.currentName type) ∧ doc.finalType c.registry type = known) ↔
      ∀ c ∈ known.toList, isUnsafeInType c = false)
  often : ∀ known, doc.Defines c.registry known → (∀ c ∈ known.toList, isUnsafeInType c = false) → ∀ least,
    ∃ type, least ≤ type.length ∧ ¬ doc.Defines c.registry (c.registry.currentName type) ∧
      doc.finalType c.registry type = known
  prepared : ∀ p, c.normalize doc = .ok p → p.definitions = doc.definitions c.registry ∧
    p.missing = (doc.renamed c.registry).unknownTypes (doc.definitions c.registry) ∧
      p.runtime.nodes.map (·.outline) = doc.nodes.map fun node => (node.id, doc.finalType c.registry node.type)

variable (c : Compiler) (doc : Document)

theorem exists_taking (known : String) (plain : ∀ c ∈ known.toList, isUnsafeInType c = false) (least : Nat) :
    ∃ type, least ≤ type.length ∧ ¬ doc.Defines c.registry (c.registry.currentName type) ∧
      doc.finalType c.registry type = known := by
  obtain ⟨count, enough, current, undefined⟩ := doc.exists_not_defines_mark c.registry known least
  rw [← current] at undefined
  refine ⟨mark known count, ?_, undefined, ?_⟩
  · rw [length_mark]
    omega
  · rw [doc.finalType_of_not_defines c.registry undefined, current, sanitizeType_mark]
    exact (sanitizeType_eq_self_iff known).2 plain

/-- An unknown type stays unknown exactly if what sanitizing leaves of it is not defined either. Each defined type
whose name has no unsafe character is what endlessly many unknown types come to. -/
theorem normalize_sanitizes : c.Sanitizes doc where
  nodes := doc.nodes_normalized c.registry
  defined_iff := doc.defines_finalType_iff c.registry
  keeps_iff := by
    simp only [← Document.not_defines_iff, Document.mem_unknownTypes_iff]
    constructor
    · rintro keeps type ⟨undefined, node, inside, rfl⟩ taken
      rw [← doc.finalType_of_not_defines c.registry undefined] at taken
      exact undefined ((keeps node inside).1 taken)
    · intro free node inside
      rw [doc.defines_finalType_iff c.registry]
      refine or_iff_left_of_imp fun taken => ?_
      by_contra undefined
      exact free _ ⟨undefined, node, inside, rfl⟩ taken
  taken_iff := by
    intro known _
    constructor
    · rintro ⟨type, undefined, rfl⟩ c inside
      rw [doc.finalType_of_not_defines _ undefined] at inside
      exact isUnsafeInType_of_mem_sanitizeType inside
    · intro plain
      obtain ⟨type, _, taking⟩ := c.exists_taking doc known plain 0
      exact ⟨type, taking⟩
  often := fun known _ plain => c.exists_taking doc known plain
  prepared := by
    intro p done
    obtain ⟨definitions, missing⟩ := eq_of_normalize done
    refine ⟨definitions, missing, ?_⟩
    simp only [normalize] at done
    split at done
    · next runtime expanded =>
      cases done
      have nodes := congrArg (List.map (·.outline)) (doc.nodes_normalized c.registry)
      rw [List.map_map] at nodes
      exact (Document.outline_expand expanded).trans nodes
    · cases done

-- Unknown types that come to the names of an operation, of the reroute and of a group of the document.
def masked : Document :=
  let member : Node := { Node.plain (.number 7) "Blur" with widgets := some [.ofNat 5] }
  { Document.empty with
    nodes := [
      { Node.plain (.number 1) "Blu<r" with widgets := some [.ofNat 3] }, .plain (.number 2) "Re&route",
      .plain (.number 3) "workflow/<pair"]
    flowLinks := some []
    extra := ⟨.ofList [("pair", ⟨[member], [], []⟩)], []⟩ }

def darkroom : Compiler :=
  ⟨Registry.standard.insert ((Operation.named "Blur").addRequired "radius" (.text "INT")), .standard, []⟩

/-- They are reported as missing, and yet compiled as the operation, forwarded through and expanded. -/
theorem normalize_masked :
    ¬ (∀ node ∈ masked.nodes, masked.Defines darkroom.registry (masked.finalType darkroom.registry node.type) ↔
        masked.Defines darkroom.registry (darkroom.registry.currentName node.type)) ∧
      ((masked.renamed darkroom.registry).sanitized (masked.definitions darkroom.registry)).nodes.map (·.type) =
        ["Blur", "Reroute", "workflow/pair"] ∧
      (darkroom.compile masked).result.toOption.map (·.missing) = some ["Blu<r", "Re&route", "workflow/<pair"] ∧
      (darkroom.compile masked).result.toOption.map (·.output.entries.map fun entry =>
          (entry.1, entry.2.classType, entry.2.inputs.entries)) =
        some [("1", "Blur", [("radius", .literal (.ofNat 3))]),
          ("3:0", "Blur", [("radius", .literal (.ofNat 5))])] := by
  have known : (masked.definitions darkroom.registry).isKnown "Blu<r" = false ∧
      masked.finalType darkroom.registry "Blu<r" = "Blur" ∧
        darkroom.registry.currentName "Blu<r" = "Blu<r" := by decide +kernel
  have operation : (darkroom.registry.operation? "Blur").isSome := by decide +kernel
  refine ⟨?_, by decide +kernel, by decide +kernel, by decide +kernel⟩
  intro keeps
  have same := keeps _ List.mem_cons_self
  change masked.Defines _ (masked.finalType _ "Blu<r") ↔
    masked.Defines _ (darkroom.registry.currentName "Blu<r") at same
  rw [known.2.1, known.2.2, ← Document.isKnown_definitions_iff _ _ "Blu<r", known.1] at same
  exact Bool.false_ne_true (same.1 (.inl operation))

end Compiler
end Patchbay
