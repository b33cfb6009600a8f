import Patchbay.Proofs.Compiler.Normalization
import Patchbay.Proofs.Group.Handover

/-!
The types that a compile reports as missing: those of top-level nodes first, then those of members of the instances
that were expanded.
-/
set_option autoImplicit false

namespace Patchbay

theorem nodup_eraseDups (types : List String) : types.eraseDups.Nodup := by
  cases types with
  | nil => exact .nil
  | cons type rest =>
    rw [List.eraseDups_cons, List.nodup_cons]
    refine ⟨?_, nodup_eraseDups _⟩
    rw [List.mem_eraseDups]
    simp
termination_by types.length
decreasing_by exact Nat.lt_succ_of_le (List.length_filter_le ..)

theorem eraseDups_prefix_append (front back : List String) : front.eraseDups <+: (front ++ back).eraseDups := by
  rw [List.eraseDups_append]
  exact List.prefix_append ..

/-! ### What is defined -/

namespace Document

/-- A type that is an operation, exists in the editor only, or is a group of the document. -/
def Defines (doc : Document) (r : Registry) (type : String) : Prop :=
  (r.operation? type).isSome ∨ (r.virtualKind? type).isSome ∨
    ∃ name, doc.extra.groups.contains name ∧ type = groupType name

variable (doc : Document) (r : Registry)

theorem get?_renamed_groups (name : String) :
    (doc.renamed r).extra.groups.get? name = (doc.extra.groups.get? name).map (·.renamed r) :=
  Table.get?_map ..

theorem isKnown_definitions_iff (type : String) : (doc.definitions r).isKnown type ↔ doc.Defines r type := by
  have group : ((doc.definitions r).group? type).isSome ↔
      ∃ name, doc.extra.groups.contains name ∧ type = groupType name := by
    rw [definitions, Definitions.isSome_group?_withGroups]
    simp only [Table.contains, get?_renamed_groups, Option.isSome_map]
  rw [Defines, ← group, Definitions.isKnown, Registry.isKnown, definitions, Definitions.registry_withGroups,
    Bool.or_eq_true, Bool.or_eq_true, or_assoc]
  rfl

-- Nodes of a document and members of a group alike: all that is done to them changes their types by the renames.
theorem mem_undefined_iff (nodes : List Node) {change : Node → Node}
    (renames : ∀ node, (change node).type = r.currentName node.type) (type : String) :
    type ∈ ((nodes.map change).filter fun node => !(doc.definitions r).isKnown node.type).map (·.type) ↔
      ¬ doc.Defines r type ∧ ∃ node ∈ nodes, r.currentName node.type = type := by
  simp only [List.mem_map, List.mem_filter, Bool.not_eq_true', ← isKnown_definitions_iff, Bool.not_eq_true]
  constructor
  · rintro ⟨_, ⟨⟨node, inside, rfl⟩, unknown⟩, rfl⟩
    exact ⟨unknown, node, inside, (renames node).symm⟩
  · rintro ⟨undefined, node, inside, rfl⟩
    rw [← renames] at undefined ⊢
    exact ⟨change node, ⟨⟨node, inside, rfl⟩, undefined⟩, rfl⟩

theorem mem_unknownTypes_iff (type : String) :
    type ∈ (doc.renamed r).unknownTypes (doc.definitions r) ↔
      ¬ doc.Defines r type ∧ ∃ node ∈ doc.nodes, r.currentName node.type = type :=
  doc.mem_undefined_iff r doc.nodes (fun _ => rfl) type

theorem mem_unknownTypes_config_iff (config : GroupConfig) (type : String) :
    type ∈ (doc.definitions r).unknownTypes (config.renamed r).withoutFlow ↔
      ¬ doc.Defines r type ∧ ∃ member ∈ config.nodes, r.currentName member.type = type := by
  rw [Definitions.unknownTypes, GroupConfig.withoutFlow, GroupConfig.renamed, List.map_map]
  exact doc.mem_undefined_iff r config.nodes (fun _ => rfl) type

theorem config_of_group? {type : String} {group : GroupDef} (found : (doc.definitions r).group? type = some group) :
    ∃ config, doc.extra.groups.get? group.name = some config ∧
      group.config = (config.renamed r).withoutFlow := by
  obtain ⟨name, configured, rfl⟩ := (Definitions.isSome_group?_withGroups ..).1 (Option.isSome_of_eq_some found)
  obtain ⟨current, stored⟩ := Option.isSome_iff_exists.1 configured
  obtain ⟨earlier, described, _⟩ := Definitions.withGroups_sees stored
  rw [definitions, described, Option.some_inj] at found
  rw [get?_renamed_groups, Option.map_eq_some_iff] at stored
  obtain ⟨config, there, rfl⟩ := stored
  rw [← found]
  exact ⟨config, there, rfl⟩

end Document

/-! ### The queue -/

namespace Definitions

variable {defs : Definitions} {start after : ExpansionState × List PendingInstance}

/-- An instance that waits from the start, or a member that is an instance itself and was placed by a turn. -/
inductive Queued (defs : Definitions) (start : ExpansionState × List PendingInstance) : PendingInstance → Prop where
  | first (entry : PendingInstance) (waits : entry ∈ start.2) : Queued defs start entry
  | nested (turn : defs.Turn start) (entry : PendingInstance)
      (placed : entry ∈ defs.nestedInstances turn.graph turn.entry turn.group) : Queued defs start entry

theorem expandable?_eq_some_iff {g : Graph} {entry : PendingInstance} {place : Node} {group : GroupDef} :
    defs.expandable? g entry = some (place, group) ↔ g.node? entry.id = some place ∧
      defs.group? place.type = some group ∧ defs.registry.participation place = .normal ∧
        group.name ∉ entry.lineage := by
  refine ⟨expandable?_eq_some, ?_⟩
  rintro ⟨there, described, active, fresh⟩
  simp only [expandable?, there, described]
  exact if_pos ⟨active, fresh⟩

theorem queued_of_reaches (reached : defs.Reaches start after) : ∀ entry ∈ after.2, defs.Queued start entry := by
  induction reached with
  | refl => exact .first
  | tail earlier step ih =>
    intro entry waits
    cases step with
    | pass _ head queue _ => exact ih entry (List.mem_cons_of_mem _ waits)
    | replace state head queue place group found =>
      rcases List.mem_append.1 waits with old | new
      · exact ih entry (List.mem_cons_of_mem _ old)
      · exact .nested ⟨state, head, queue, place, group, earlier, found⟩ entry new

-- The instances in front of an entry are taken from the queue one after another; new ones join behind it.
theorem exists_front {state : ExpansionState} {front back : List PendingInstance} {entry : PendingInstance}
    (reached : defs.Reaches start (state, front ++ entry :: back)) :
    ∃ state rest, defs.Reaches start (state, entry :: rest) := by
  induction front generalizing state back with
  | nil => exact ⟨state, back, reached⟩
  | cons head front ih =>
    cases found : defs.expandable? state.graph head with
    | none => exact ih (reached.tail (.pass state head (front ++ entry :: back) found))
    | some pair =>
      have step := ExpansionStep.replace state head (front ++ entry :: back) pair.1 pair.2 found
      rw [List.append_assoc, List.cons_append] at step
      exact ih (reached.tail step)

theorem exists_front_iff (entry : PendingInstance) :
    (∃ state rest, defs.Reaches start (state, entry :: rest)) ↔ defs.Queued start entry := by
  constructor
  · rintro ⟨state, rest, reached⟩
    exact queued_of_reaches reached entry List.mem_cons_self
  · rintro (⟨_, waits⟩ | ⟨turn, _, placed⟩)
    · obtain ⟨front, back, queue⟩ := List.append_of_mem waits
      have reached : defs.Reaches start (start.1, front ++ entry :: back) := queue ▸ .refl
      exact exists_front reached
    · have waits : entry ∈ turn.next.2 := List.mem_append_right _ placed
      obtain ⟨front, back, queue⟩ := List.append_of_mem waits
      have reached : defs.Reaches start (turn.next.1, front ++ entry :: back) := queue ▸ turn.reached_next
      exact exists_front reached

/-! ### What turns report -/

theorem missing_extends (reached : defs.Reaches start after) : start.1.missing <+: after.1.missing := by
  induction reached with
  | refl => exact List.prefix_rfl
  | tail _ step ih =>
    cases step with
    | pass => exact ih
    | replace => exact ih.trans (List.prefix_append ..)

theorem reported_of_reaches (reached : defs.Reaches start after) {type : String} (listed : type ∈ after.1.missing) :
    type ∈ start.1.missing ∨ ∃ turn : defs.Turn start, type ∈ defs.unknownTypes turn.group.config := by
  induction reached with
  | refl => exact .inl listed
  | tail earlier step ih =>
    cases step with
    | pass => exact ih listed
    | replace state entry queue place group found =>
      rcases List.mem_append.1 listed with old | new
      · exact ih old
      · exact .inr ⟨⟨state, entry, queue, place, group, earlier, found⟩, new⟩

/-- A whole run reports what it began with, and the unknown types of each group that a turn expands. -/
theorem mem_missing_expandQueue_iff (type : String) :
    type ∈ (expandQueue defs start.1 start.2).missing ↔
      type ∈ start.1.missing ∨ ∃ turn : defs.Turn start, type ∈ defs.unknownTypes turn.group.config := by
  constructor
  · exact reported_of_reaches (defs.reaches_expandQueue start.1 start.2)
  · rintro (old | ⟨turn, unknown⟩)
    · exact (missing_extends (defs.reaches_expandQueue start.1 start.2)).subset old
    · rw [expandQueue_of_reaches turn.reached_next]
      apply (missing_extends (defs.reaches_expandQueue turn.next.1 turn.next.2)).subset
      exact List.mem_append_right _ unknown

end Definitions

/-! ### Reports -/

def Prepared.expansionStart (p : Prepared) : ExpansionState × List PendingInstance :=
  (Compiler.resolvePrimitives (.ofDocument p.runtime) p.definitions).expansionStart p.definitions p.missing

namespace Compiler

/-- The types that a compile of `doc`, prepared as `p`, reports as missing. Those of top-level nodes come first. An
instance is expanded if it is there when it comes to the front of the queue, takes part in the run and did not come
out of its own group. -/
structure Reports (c : Compiler) (doc : Document) (p : Prepared) (missing : List String) : Prop where
  distinct : missing.Nodup
  topLevel : ((doc.nodes.map fun node => c.registry.currentName node.type).filter
    fun type => !p.definitions.isKnown type).eraseDups <+: missing
  known : ∀ type, p.definitions.isKnown type ↔ doc.Defines c.registry type
  mem_iff : ∀ type, type ∈ missing ↔ ¬ doc.Defines c.registry type ∧
    ((∃ node ∈ doc.nodes, c.registry.currentName node.type = type) ∨
      ∃ (turn : p.definitions.Turn p.expansionStart) (config : GroupConfig),
        doc.extra.groups.get? turn.group.name = some config ∧
          ∃ member ∈ config.nodes, c.registry.currentName member.type = type)
  fronts : ∀ entry, (∃ state rest, p.definitions.Reaches p.expansionStart (state, entry :: rest)) ↔
    p.definitions.Queued p.expansionStart entry
  turns : ∀ state entry rest, p.definitions.Reaches p.expansionStart (state, entry :: rest) → ∀ place group,
    (∃ turn : p.definitions.Turn p.expansionStart, turn.state = state ∧ turn.entry = entry ∧
        turn.queue = rest ∧ turn.place = place ∧ turn.group = group) ↔
      state.graph.node? entry.id = some place ∧ p.definitions.group? place.type = some group ∧
        c.registry.participation place = .normal ∧ group.name ∉ entry.lineage

variable {c : Compiler} {doc : Document} {p : Prepared}

theorem eq_of_normalize (done : c.normalize doc = .ok p) :
    p.definitions = doc.definitions c.registry ∧
      p.missing = (doc.renamed c.registry).unknownTypes (doc.definitions c.registry) := by
  simp only [normalize] at done
  split at done
  · cases done
    exact ⟨rfl, rfl⟩
  · cases done

theorem missing_of_draft {d : Draft} (drafted : draft p = .ok d) :
    d.expansion.missing = (expandQueue p.definitions p.expansionStart.1 p.expansionStart.2).missing := by
  simp only [draft] at drafted
  split at drafted
  · cases drafted
  · cases drafted
    rfl

theorem unknownTypes_renamed (r : Registry) (defs : Definitions) : (doc.renamed r).unknownTypes defs =
    (doc.nodes.map fun node => r.currentName node.type).filter fun type => !defs.isKnown type := by
  rw [Document.unknownTypes, Document.renamed, List.filter_map, List.filter_map, List.map_map]
  rfl

/-- Without extensions, what a compile reports as missing are the types of top-level nodes and of members of expanded
instances that nothing defines, each once, in the order in which they were met. -/
theorem compile_reports (noExtensions : c.extensions = []) {compiled : CompiledPrompt}
    (done : (c.compile doc).result = .ok compiled) :
    ∃ p, c.normalize doc = .ok p ∧ c.Reports doc p compiled.missing := by
  obtain ⟨p, d, normal, drafted, finished⟩ := (compile_eq_ok_iff noExtensions doc compiled).1 done
  obtain ⟨definitions, top⟩ := eq_of_normalize normal
  have missing : compiled.missing =
      (expandQueue p.definitions p.expansionStart.1 p.expansionStart.2).missing.eraseDups := by
    rw [← finished, finish_eq noExtensions, missing_of_draft drafted]
  refine ⟨p, normal, ?_⟩
  rw [missing]
  exact {
    distinct := nodup_eraseDups _
    topLevel := by
      have began := Definitions.missing_extends
        (p.definitions.reaches_expandQueue p.expansionStart.1 p.expansionStart.2)
      obtain ⟨later, grown⟩ := began
      rw [← unknownTypes_renamed, definitions, ← top, ← definitions, ← grown]
      exact eraseDups_prefix_append ..
    known := definitions ▸ doc.isKnown_definitions_iff c.registry
    mem_iff := by
      intro type
      rw [List.mem_eraseDups, Definitions.mem_missing_expandQueue_iff,
        show p.expansionStart.1.missing = p.missing from rfl, top, doc.mem_unknownTypes_iff, and_or_left]
      refine or_congr_right ?_
      rw [← exists_and_left]
      refine exists_congr fun turn => ?_
      have described : (doc.definitions c.registry).group? turn.place.type = some turn.group :=
        definitions ▸ (Definitions.expandable?_eq_some turn.found).2.1
      obtain ⟨config, stored, expanded⟩ := doc.config_of_group? c.registry described
      have unknown : type ∈ p.definitions.unknownTypes turn.group.config ↔ ¬ doc.Defines c.registry type ∧
          ∃ member ∈ config.nodes, c.registry.currentName member.type = type := by
        rw [expanded, show p.definitions.unknownTypes = (doc.definitions c.registry).unknownTypes by rw [definitions]]
        exact doc.mem_unknownTypes_config_iff c.registry config type
      simp only [unknown, stored, Option.some_inj, exists_eq_left']
    fronts := Definitions.exists_front_iff
    turns := by
      intro state entry rest reached place group
      have registry : p.definitions.registry = c.registry := by
        rw [definitions]
        exact Definitions.registry_withGroups ..
      rw [← registry, ← Definitions.expandable?_eq_some_iff]
      constructor
      · rintro ⟨turn, rfl, rfl, rfl, rfl, rfl⟩
        exact turn.found
      · intro found
        exact ⟨⟨state, entry, rest, place, group, reached, found⟩, rfl, rfl, rfl, rfl, rfl⟩ }

-- A document with an unknown type on top, twice. An instance in it holds another one with an unknown member, which
-- is known under an older name, and an instance of a group that it came out of; a muted instance has one as well.
def scattered : Document :=
  let ghost : GroupConfig := ⟨[.plain (.number 0) "OldGhost", .plain (.number 1) "workflow/outer"], [], []⟩
  let outer : GroupConfig := ⟨[.plain (.number 0) "Reroute", .plain (.number 1) "workflow/inner"], [], []⟩
  let silent : GroupConfig := ⟨[.plain (.number 0) "Silent"], [], []⟩
  { Document.empty with
    nodes := [
      .plain (.number 1) "workflow/outer", .plain (.number 2) "Mystery", .plain (.number 3) "Sampler",
      { Node.plain (.number 4) "workflow/silent" with mode := .muted }, .plain (.number 5) "Mystery"]
    flowLinks := some []
    extra := ⟨.ofList [("inner", ghost), ("outer", outer), ("silent", silent)], []⟩ }

def haunted : Compiler := { studio with registry := studio.registry.addRename "OldGhost" "Ghost" }

theorem compile_reports_scattered :
    haunted.extensions = [] ∧ ∃ compiled, (haunted.compile scattered).result = .ok compiled ∧
      compiled.missing = ["Mystery", "Ghost"] ∧
        ∃ p, haunted.normalize scattered = .ok p ∧ haunted.Reports scattered p compiled.missing := by
  have missing : (haunted.compile scattered).result.toOption.map (·.missing) = some ["Mystery", "Ghost"] := by
    decide +kernel
  cases done : (haunted.compile scattered).result with
  | error failure =>
    rw [done] at missing
    cases missing
  | ok compiled =>
    rw [done] at missing
    exact ⟨rfl, compiled, rfl, Option.some.inj missing, compile_reports rfl done⟩

end Compiler
end Patchbay
