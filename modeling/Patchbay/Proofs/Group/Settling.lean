import Patchbay.Proofs.Group.Sketch
import Patchbay.Proofs.Ordering.Placing

/-!
Which definitions a group is described with. A group settles once all groups that it holds have, and is then
described with the definitions that there are in the end. The others are described last, one after the other by
name, and do not see those of them that come later.
-/
set_option autoImplicit false

namespace Patchbay

/-! ### Tables and types -/

theorem Table.get?_of_mem {α : Type} {t : Table α} {key : String} {value : α} (member : (key, value) ∈ t.entries) :
    t.get? key = some value := by
  obtain ⟨entries, sorted⟩ := t
  change (key, value) ∈ entries at member
  change find key entries = some value
  induction entries with
  | nil => cases member
  | cons head rest ih =>
    obtain ⟨above, tail⟩ := List.pairwise_cons.1 sorted
    rcases List.mem_cons.1 member with rfl | later
    · simp [find]
    · have other : key ≠ head.1 := fun same => String.lt_irrefl key (same ▸ above (key, value) later)
      simp only [find, if_neg other]
      exact ih tail later

theorem Table.mem_keys_iff {α : Type} {t : Table α} {key : String} : key ∈ t.keys ↔ t.contains key := by
  rw [contains, Option.isSome_iff_exists]
  constructor
  · intro inside
    obtain ⟨entry, member, rfl⟩ := List.mem_map.1 inside
    exact ⟨entry.2, get?_of_mem member⟩
  · rintro ⟨value, found⟩
    exact List.mem_map.2 ⟨(key, value), mem_of_find found, rfl⟩

theorem groupType_injective {a b : String} (same : groupType a = groupType b) : a = b := by
  have lists := congrArg String.toList same
  rw [groupType, groupType, String.toList_append, String.toList_append] at lists
  exact String.toList_inj.1 (List.append_cancel_left lists)

theorem isGroupType_iff (type : String) : isGroupType type ↔ ∃ name, type = groupType name := by
  rw [isGroupType, List.isPrefixOf_iff_prefix]
  constructor
  · rintro ⟨rest, split⟩
    refine ⟨String.ofList rest, String.toList_inj.1 ?_⟩
    rw [← split, groupType, String.toList_append, String.toList_ofList]
  · rintro ⟨name, rfl⟩
    rw [groupType, String.toList_append]
    exact List.prefix_append _ _

/-! ### Groups that settle -/

/-- A member is an instance of the group of this name. -/
def GroupConfig.Holds (config : GroupConfig) (name : String) : Prop := ∃ node ∈ config.nodes, node.type = groupType name

namespace Definitions

section Settling

variable (r : Registry) (configs : Table GroupConfig)

/-- The outer group holds the inner one, whose type is no operation of the registry. -/
def Nests (outer inner : String) : Prop :=
  configs.contains inner ∧ r.operation? (groupType inner) = none ∧
    ∃ config, configs.get? outer = some config ∧ config.Holds inner

/-- All members of the group that are groups are operations of the registry or groups that settle. -/
inductive Settles : String → Prop
  | intro (name : String) (config : GroupConfig) (found : configs.get? name = some config)
      (members : ∀ inner, config.Holds inner → r.operation? (groupType inner) = none → Settles inner) : Settles name

/-- The group is described as if nothing was known of this type: that of a group which does not settle and is
not described before. -/
def Hides (name type : String) : Prop :=
  r.operation? type = none ∧ ∃ inner, type = groupType inner ∧ ¬ Settles r configs inner ∧ ¬ inner < name

variable {r configs}

theorem Settles.configured {name : String} (settles : Settles r configs name) : configs.contains name := by
  cases settles with
  | intro _ config found => rw [Table.contains, found, Option.isSome_some]

variable (r configs) in
/-- The group holds, at some depth, one that is defined nowhere. -/
def Dangles (name : String) : Prop :=
  ∃ outer config inner, Relation.ReflTransGen (Nests r configs) name outer ∧ configs.get? outer = some config ∧
    config.Holds inner ∧ r.operation? (groupType inner) = none ∧ ¬ configs.contains inner

theorem Settles.not_dangles {name : String} (settles : Settles r configs name) : ¬ Dangles r configs name := by
  induction settles with
  | intro name config found members ih =>
    rintro ⟨outer, last, inner, leads, there, holds, single, absent⟩
    rcases leads.cases_head with rfl | ⟨next, ⟨_, own, known, stored, held⟩, rest⟩
    · rw [found, Option.some.injEq] at there
      exact absent (members inner (there ▸ holds) single).configured
    · rw [found, Option.some.injEq] at stored
      exact ih next (stored ▸ held) own ⟨outer, last, inner, rest, there, holds, single, absent⟩

-- A group that does not settle nests another one that does not, and without a circle there is a last one.
theorem settles_iff_of_acyclic (acyclic : Acyclic (Nests r configs)) {name : String}
    (configured : configs.contains name) : Settles r configs name ↔ ¬ Dangles r configs name := by
  classical
  refine ⟨Settles.not_dangles, fun bound => ?_⟩
  let left : List String := configs.keys.filter fun name => ¬ Settles r configs name ∧ ¬ Dangles r configs name
  have reversed : Acyclic (Function.swap (Nests r configs)) := by
    intro name circle
    rw [Relation.transGen_swap] at circle
    exact acyclic name circle
  have none : left = [] := by
    refine eq_nil_of_fed reversed fun outer inside => ?_
    obtain ⟨listed, kept⟩ := List.mem_filter.1 inside
    obtain ⟨unsettled, bound⟩ := of_decide_eq_true kept
    obtain ⟨config, found⟩ := Option.isSome_iff_exists.1 (Table.mem_keys_iff.1 listed)
    obtain ⟨inner, holds, single, waits⟩ : ∃ inner, config.Holds inner ∧ r.operation? (groupType inner) = none ∧
        ¬ Settles r configs inner := by
      by_contra settled
      push Not at settled
      exact unsettled (.intro outer config found settled)
    have known : configs.contains inner := by
      by_contra absent
      exact bound ⟨outer, config, inner, .refl, found, holds, single, absent⟩
    have nests : Nests r configs outer inner := ⟨known, single, config, found, holds⟩
    refine ⟨inner, List.mem_filter.2 ⟨Table.mem_keys_iff.2 known, decide_eq_true ⟨waits, ?_⟩⟩, nests⟩
    rintro ⟨last, stored, below, leads, dangling⟩
    exact bound ⟨last, stored, below, leads.head nests, dangling⟩
  by_contra unsettled
  have inside : name ∈ left :=
    List.mem_filter.2 ⟨Table.mem_keys_iff.2 configured, decide_eq_true ⟨unsettled, bound⟩⟩
  rw [none] at inside
  cases inside

end Settling

/-! ### Adding groups one after another -/

/-- The later definitions have all groups that the earlier ones have. -/
structure Extends (defs later : Definitions) : Prop where
  registry : defs.registry = later.registry
  groups : ∀ type group, defs.group? type = some group → later.group? type = some group

section Adding

variable {defs later : Definitions}

theorem Extends.trans {final : Definitions} (first : Extends defs later) (second : Extends later final) :
    Extends defs final where
  registry := first.registry.trans second.registry
  groups type group found := second.groups type group (first.groups type group found)

theorem Extends.operation?_eq (grown : Extends defs later) {type : String}
    (known : (defs.registry.operation? type).isSome ∨ (defs.group? type).isSome ∨ later.group? type = none) :
    defs.operation? type = later.operation? type := by
  rw [operation?, operation?, ← grown.registry]
  cases own : defs.registry.operation? type with
  | some op => rfl
  | none =>
    cases first : defs.group? type with
    | some group => rw [grown.groups type group first]
    | none =>
      rw [own, first] at known
      rcases known with absurd | absurd | absent
      · cases absurd
      · cases absurd
      · rw [absent]

theorem group?_add (entry : String × GroupConfig) (type : String) : (defs.add entry).group? type =
    if type = groupType entry.1 then some (defs.describe entry.1 entry.2) else defs.group? type :=
  Table.get?_insert ..

theorem group?_foldl_add_of_absent {entries : List (String × GroupConfig)} {type : String}
    (absent : ∀ entry ∈ entries, type ≠ groupType entry.1) :
    (entries.foldl add defs).group? type = defs.group? type := by
  induction entries generalizing defs with
  | nil => rfl
  | cons entry rest ih =>
    rw [List.foldl_cons, ih fun later inside => absent later (List.mem_cons_of_mem _ inside), group?_add,
      if_neg (absent entry List.mem_cons_self)]

theorem isSome_group?_foldl_add (entries : List (String × GroupConfig)) (type : String) :
    ((entries.foldl add defs).group? type).isSome ↔
      (defs.group? type).isSome ∨ ∃ entry ∈ entries, type = groupType entry.1 := by
  induction entries generalizing defs with
  | nil => simp
  | cons entry rest ih =>
    rw [List.foldl_cons, ih, group?_add]
    by_cases here : type = groupType entry.1
    · simp [here]
    · simp [here]

theorem registry_foldl_add (defs : Definitions) (entries : List (String × GroupConfig)) :
    (entries.foldl add defs).registry = defs.registry := by
  induction entries generalizing defs with
  | nil => rfl
  | cons entry rest ih => exact ih (defs.add entry)

theorem extends_foldl_add {entries : List (String × GroupConfig)}
    (fresh : ∀ entry ∈ entries, defs.group? (groupType entry.1) = none) : Extends defs (entries.foldl add defs) := by
  refine ⟨(registry_foldl_add defs entries).symm, fun type group found => ?_⟩
  rw [group?_foldl_add_of_absent, found]
  rintro entry inside rfl
  rw [fresh entry inside] at found
  cases found

-- A group is described with what is there when its turn comes.
theorem group?_foldl_add_self {front back : List (String × GroupConfig)} {entry : String × GroupConfig}
    (ordered : (front ++ entry :: back).Pairwise fun a b => a.1 < b.1) :
    ((front ++ entry :: back).foldl add defs).group? (groupType entry.1) =
      some ((front.foldl add defs).describe entry.1 entry.2) := by
  rw [List.foldl_append, List.foldl_cons, group?_foldl_add_of_absent, group?_add, if_pos rfl]
  intro later inside same
  have above := (List.pairwise_cons.1 (List.pairwise_append.1 ordered).2.1).1 later inside
  rw [groupType_injective same] at above
  exact String.lt_irrefl _ above

theorem extends_foldl_add_front {entries front back : List (String × GroupConfig)} {entry : String × GroupConfig}
    (fresh : ∀ entry ∈ entries, defs.group? (groupType entry.1) = none)
    (ordered : entries.Pairwise fun a b => a.1 < b.1) (split : entries = front ++ entry :: back) :
    Extends (front.foldl add defs) (entries.foldl add defs) := by
  rw [split, List.pairwise_append] at ordered
  rw [split, List.foldl_append]
  refine extends_foldl_add fun later inside => ?_
  rw [group?_foldl_add_of_absent, fresh later (by rw [split]; exact List.mem_append_right front inside)]
  intro earlier before same
  have above := ordered.2.2 earlier before later inside
  rw [groupType_injective same] at above
  exact String.lt_irrefl _ above

end Adding

/-! ### The passes -/

-- What holds of the definitions at hand and of the groups that wait, before each pass.
structure Passing (r : Registry) (configs : Table GroupConfig) (defs : Definitions)
    (pending : List (String × GroupConfig)) : Prop where
  registry : defs.registry = r
  ordered : pending.Pairwise fun a b => a.1 < b.1
  configured : ∀ entry ∈ pending, configs.get? entry.1 = some entry.2
  fresh : ∀ entry ∈ pending, defs.group? (groupType entry.1) = none
  settled : ∀ type, (defs.group? type).isSome → ∃ name, type = groupType name ∧ Settles r configs name
  complete : ∀ name config, configs.get? name = some config →
    (name, config) ∈ pending ∨ (defs.group? (groupType name)).isSome

section Passing

variable {r : Registry} {configs : Table GroupConfig} {defs : Definitions} {pending : List (String × GroupConfig)}

theorem passing_ofRegistry (r : Registry) (configs : Table GroupConfig) :
    Passing r configs (ofRegistry r) configs.entries where
  registry := rfl
  ordered := configs.sorted
  configured _ inside := Table.get?_of_mem inside
  fresh _ _ := rfl
  settled _ found := nomatch found
  complete _ _ found := .inl (Table.mem_of_find found)

theorem addAll_of_stuck (stuck : (defs.ready pending).isEmpty) : defs.addAll pending = pending.foldl add defs := by
  rw [addAll, dif_pos stuck]

theorem addAll_of_progress (progress : ¬ (defs.ready pending).isEmpty) :
    defs.addAll pending = ((defs.ready pending).foldl add defs).addAll (defs.waiting pending) := by
  rw [addAll, dif_neg progress]

theorem mem_ready_or_waiting (defs : Definitions) {entry : String × GroupConfig} (inside : entry ∈ pending) :
    entry ∈ defs.ready pending ∨ entry ∈ defs.waiting pending := by
  by_cases covered : defs.covers entry.2
  · exact .inl (List.mem_filter.2 ⟨inside, covered⟩)
  · exact .inr (List.mem_filter.2 ⟨inside, by simpa using covered⟩)

theorem covers_iff (config : GroupConfig) : defs.covers config ↔
    ∀ inner, config.Holds inner → (defs.operation? (groupType inner)).isSome := by
  rw [covers, List.all_eq_true]
  constructor
  · rintro covered inner ⟨node, inside, named⟩
    have known := covered node inside
    rw [named, (isGroupType_iff _).2 ⟨inner, rfl⟩] at known
    exact known
  · intro covered node inside
    by_cases kind : isGroupType node.type
    · obtain ⟨inner, named⟩ := (isGroupType_iff _).1 kind
      have known := covered inner ⟨node, inside, named⟩
      rw [← named] at known
      rw [known, Bool.or_true]
    · rw [Bool.not_eq_true] at kind
      rw [kind]
      rfl

theorem Passing.settles_of_ready (passing : Passing r configs defs pending) {entry : String × GroupConfig}
    (ready : entry ∈ defs.ready pending) : Settles r configs entry.1 := by
  obtain ⟨inside, covered⟩ := List.mem_filter.1 ready
  refine .intro entry.1 entry.2 (passing.configured entry inside) fun inner holds single => ?_
  have known := (covers_iff entry.2).1 covered inner holds
  rw [operation?, passing.registry, single, Option.none_or, Option.isSome_map] at known
  obtain ⟨name, named, settles⟩ := passing.settled _ known
  rw [groupType_injective named]
  exact settles

theorem Passing.step (passing : Passing r configs defs pending) :
    Passing r configs ((defs.ready pending).foldl add defs) (defs.waiting pending) where
  registry := (registry_foldl_add _ _).trans passing.registry
  ordered := passing.ordered.filter _
  configured entry inside := passing.configured entry (List.mem_filter.1 inside).1
  fresh entry inside := by
    obtain ⟨waits, uncovered⟩ := List.mem_filter.1 inside
    rw [group?_foldl_add_of_absent, passing.fresh entry waits]
    intro other ready same
    obtain ⟨there, covered⟩ := List.mem_filter.1 ready
    have config := passing.configured other there
    rw [← groupType_injective same, passing.configured entry waits] at config
    rw [Option.some_inj.1 config, covered] at uncovered
    cases uncovered
  settled type found := by
    rcases (isSome_group?_foldl_add _ type).1 found with earlier | ⟨entry, ready, named⟩
    · exact passing.settled type earlier
    · exact ⟨entry.1, named, passing.settles_of_ready ready⟩
  complete name config found := by
    rw [isSome_group?_foldl_add]
    rcases passing.complete name config found with inside | known
    · rcases mem_ready_or_waiting defs inside with ready | waits
      · exact .inr (.inr ⟨_, ready, rfl⟩)
      · exact .inl waits
    · exact .inr (.inl known)

-- Where no group is ready none of those that wait settles: it would wait for another one that does.
theorem Passing.not_settles_of_stuck (passing : Passing r configs defs pending) (stuck : (defs.ready pending).isEmpty)
    {name : String} {config : GroupConfig} (inside : (name, config) ∈ pending) : ¬ Settles r configs name := by
  intro settles
  induction settles generalizing config with
  | intro name known found members ih =>
    have same := passing.configured _ inside
    rw [found, Option.some.injEq] at same
    subst same
    have covered : defs.covers known := by
      refine (covers_iff known).2 fun inner holds => ?_
      cases own : r.operation? (groupType inner) with
      | some op => rw [operation?, passing.registry, own, Option.some_or, Option.isSome_some]
      | none =>
        obtain ⟨below, there⟩ := Option.isSome_iff_exists.1 (members inner holds own).configured
        rcases passing.complete inner below there with waits | defined
        · exact (ih inner holds own waits).elim
        · rw [operation?, passing.registry, own, Option.none_or, Option.isSome_map]
          exact defined
    have ready : (name, known) ∈ defs.ready pending := List.mem_filter.2 ⟨inside, covered⟩
    rw [List.isEmpty_iff.1 stuck] at ready
    cases ready

theorem Passing.extends_addAll (passing : Passing r configs defs pending) : Extends defs (defs.addAll pending) := by
  fun_induction addAll defs pending with
  | case1 defs pending stuck => exact extends_foldl_add passing.fresh
  | case2 defs pending progress ih =>
    refine Extends.trans (extends_foldl_add fun entry ready => ?_) (ih passing.step)
    exact passing.fresh entry (List.mem_filter.1 ready).1

theorem isSome_group?_addAll (defs : Definitions) (pending : List (String × GroupConfig)) (type : String) :
    ((defs.addAll pending).group? type).isSome ↔
      (defs.group? type).isSome ∨ ∃ entry ∈ pending, type = groupType entry.1 := by
  fun_induction addAll defs pending with
  | case1 defs pending stuck => exact isSome_group?_foldl_add pending type
  | case2 defs pending progress ih =>
    rw [ih, isSome_group?_foldl_add, or_assoc]
    refine or_congr_right ⟨?_, ?_⟩
    · rintro (⟨entry, inside, named⟩ | ⟨entry, inside, named⟩)
      · exact ⟨entry, (List.mem_filter.1 inside).1, named⟩
      · exact ⟨entry, (List.mem_filter.1 inside).1, named⟩
    · rintro ⟨entry, inside, named⟩
      exact (mem_ready_or_waiting defs inside).imp (⟨entry, ·, named⟩) (⟨entry, ·, named⟩)

/-! ### What each group is described with -/

variable (r configs) in
-- Of the final definitions a group sees all but the types that it hides.
structure Sees (name : String) (config : GroupConfig) (earlier final : Definitions) : Prop where
  registry : earlier.registry = r
  grown : Extends earlier final
  hidden : ∀ node ∈ config.nodes, Hides r configs name node.type → earlier.operation? node.type = none
  shown : ∀ node ∈ config.nodes, ¬ Hides r configs name node.type →
    earlier.operation? node.type = final.operation? node.type

theorem Passing.group?_of_not_group (passing : Passing r configs defs pending) {type : String}
    (other : ¬ isGroupType type) : (defs.addAll pending).group? type = none := by
  rw [← Option.not_isSome_iff_eq_none, isSome_group?_addAll]
  rintro (found | ⟨entry, _, named⟩)
  · obtain ⟨name, named, _⟩ := passing.settled type found
    exact other ((isGroupType_iff type).2 ⟨name, named⟩)
  · exact other ((isGroupType_iff type).2 ⟨entry.1, named⟩)

theorem Passing.sees_of_ready (passing : Passing r configs defs pending) {front back : List (String × GroupConfig)}
    {entry : String × GroupConfig} (split : defs.ready pending = front ++ entry :: back)
    (later : Extends (front.foldl add defs) (defs.addAll pending)) :
    Sees r configs entry.1 entry.2 (front.foldl add defs) (defs.addAll pending) := by
  have inside : entry ∈ defs.ready pending := by simp [split]
  have covered := (covers_iff entry.2).1 (List.mem_filter.1 inside).2
  have registry := (registry_foldl_add defs front).trans passing.registry
  have seen : ∀ node ∈ entry.2.nodes, ¬ Hides r configs entry.1 node.type := by
    rintro node there ⟨single, inner, named, unsettled, _⟩
    have settles := passing.settles_of_ready inside
    cases settles with
    | intro _ config found members =>
      rw [passing.configured entry (List.mem_filter.1 inside).1, Option.some.injEq] at found
      rw [named] at single
      exact unsettled (members inner (found ▸ ⟨node, there, named⟩) single)
  refine ⟨registry, later, fun node there hides => absurd hides (seen node there), fun node there _ => ?_⟩
  apply later.operation?_eq
  rw [registry]
  by_cases kind : isGroupType node.type
  · obtain ⟨inner, named⟩ := (isGroupType_iff _).1 kind
    have known := covered inner ⟨node, there, named⟩
    rw [← named, operation?, passing.registry] at known
    cases own : r.operation? node.type with
    | some op => exact .inl rfl
    | none =>
      rw [own, Option.none_or, Option.isSome_map] at known
      exact .inr (.inl ((isSome_group?_foldl_add front _).2 (.inl known)))
  · exact .inr (.inr (passing.group?_of_not_group kind))

theorem Passing.sees_of_stuck (passing : Passing r configs defs pending) (stuck : (defs.ready pending).isEmpty)
    {front back : List (String × GroupConfig)} {entry : String × GroupConfig} (split : pending = front ++ entry :: back)
    (later : Extends (front.foldl add defs) (defs.addAll pending)) :
    Sees r configs entry.1 entry.2 (front.foldl add defs) (defs.addAll pending) := by
  have registry := (registry_foldl_add defs front).trans passing.registry
  have ordered := passing.ordered
  rw [split, List.pairwise_append, List.pairwise_cons] at ordered
  obtain ⟨_, ⟨above, _⟩, below⟩ := ordered
  refine ⟨registry, later, fun node _ hides => ?_, fun node _ seen => ?_⟩
  · obtain ⟨single, inner, named, unsettled, notBefore⟩ := hides
    rw [operation?, registry, single, Option.none_or, Option.map_eq_none_iff, ← Option.not_isSome_iff_eq_none,
      isSome_group?_foldl_add]
    rintro (found | ⟨other, earlier, same⟩)
    · obtain ⟨name, same, settles⟩ := passing.settled _ found
      rw [groupType_injective (named.symm.trans same)] at unsettled
      exact unsettled settles
    · rw [groupType_injective (named.symm.trans same)] at notBefore
      exact notBefore (below other earlier entry List.mem_cons_self)
  · apply later.operation?_eq
    rw [registry]
    cases own : r.operation? node.type with
    | some op => exact .inl rfl
    | none =>
      refine .inr ?_
      cases found : (defs.addAll pending).group? node.type with
      | none => exact .inr rfl
      | some group =>
        refine .inl ((isSome_group?_foldl_add front _).2 ?_)
        refine ((isSome_group?_addAll defs pending node.type).1 (by rw [found]; rfl)).imp_right ?_
        rintro ⟨other, waits, named⟩
        -- A group that does not settle is seen only where it was described before.
        have unsettled := passing.not_settles_of_stuck stuck waits
        have before : other.1 < entry.1 := by
          by_contra notBefore
          exact seen ⟨own, other.1, named, unsettled, notBefore⟩
        rw [split] at waits
        rcases List.mem_append.1 waits with earlier | rest
        · exact ⟨other, earlier, named⟩
        · rcases List.mem_cons.1 rest with rfl | behind
          · exact absurd before (String.lt_irrefl _)
          · exact absurd (String.lt_trans before (above other behind)) (String.lt_irrefl _)

-- A group is described when its turn comes, in the pass that finds it ready or in the last one.
theorem Passing.described (passing : Passing r configs defs pending) {entry : String × GroupConfig}
    (inside : entry ∈ pending) : ∃ earlier : Definitions,
      (defs.addAll pending).group? (groupType entry.1) = some (earlier.describe entry.1 entry.2) ∧
        Sees r configs entry.1 entry.2 earlier (defs.addAll pending) := by
  induction defs, pending using addAll.induct with
  | case1 defs pending stuck =>
    have all := addAll_of_stuck stuck
    obtain ⟨front, back, split⟩ := List.append_of_mem inside
    have ordered := passing.ordered
    have later := extends_foldl_add_front passing.fresh ordered split
    refine ⟨front.foldl add defs, ?_, passing.sees_of_stuck stuck split (all ▸ later)⟩
    rw [all, split]
    exact group?_foldl_add_self (split ▸ ordered)
  | case2 defs pending progress ih =>
    have all := addAll_of_progress progress
    rcases mem_ready_or_waiting defs inside with ready | waits
    · obtain ⟨front, back, split⟩ := List.append_of_mem ready
      have ordered : (defs.ready pending).Pairwise fun a b => a.1 < b.1 := passing.ordered.filter _
      have fresh : ∀ entry ∈ defs.ready pending, defs.group? (groupType entry.1) = none :=
        fun entry inside => passing.fresh entry (List.mem_filter.1 inside).1
      have later := (extends_foldl_add_front fresh ordered split).trans passing.step.extends_addAll
      refine ⟨front.foldl add defs, ?_, passing.sees_of_ready split (all ▸ later)⟩
      rw [all]
      apply passing.step.extends_addAll.groups
      rw [split]
      exact group?_foldl_add_self (split ▸ ordered)
    · obtain ⟨earlier, found, sees⟩ := ih passing.step waits
      exact ⟨earlier, all ▸ found, all ▸ sees⟩

end Passing

theorem describe_congr {a b : Definitions} (registry : a.registry = b.registry) (name : String) (config : GroupConfig)
    (same : ∀ node ∈ config.nodes, a.operation? node.type = b.operation? node.type) :
    a.describe name config = b.describe name config := by
  have types : ∀ node ∈ config.withoutFlow.nodes, a.operation? node.type = b.operation? node.type := by
    intro node inside
    obtain ⟨stored, member, rfl⟩ := List.mem_map.1 inside
    exact same stored member
  rw [describe, describe, registry]
  obtain ⟨operation, exposure⟩ := GroupDef.build_congr config config name b.registry rfl types
  exact (GroupDef.mk.injEq ..).mpr ⟨rfl, rfl, operation, exposure, rfl⟩

/-! ### All groups of a document -/

section WithGroups

variable {r : Registry} {configs : Table GroupConfig}

theorem withGroups_sees {name : String} {config : GroupConfig} (found : configs.get? name = some config) :
    ∃ earlier, (withGroups r configs).group? (groupType name) = some (earlier.describe name config) ∧
      Sees r configs name config earlier (withGroups r configs) :=
  (passing_ofRegistry r configs).described (Table.mem_of_find found)

theorem isSome_group?_withGroups (r : Registry) (configs : Table GroupConfig) (type : String) :
    ((withGroups r configs).group? type).isSome ↔ ∃ name, configs.contains name ∧ type = groupType name := by
  rw [withGroups, isSome_group?_addAll]
  constructor
  · rintro (none | ⟨entry, inside, named⟩)
    · cases none
    · exact ⟨entry.1, Table.mem_keys_iff.1 (List.mem_map_of_mem inside), named⟩
  · rintro ⟨name, configured, named⟩
    obtain ⟨entry, inside, same⟩ := List.mem_map.1 (Table.mem_keys_iff.2 configured)
    exact .inr ⟨entry, inside, same ▸ named⟩

theorem registry_withGroups (r : Registry) (configs : Table GroupConfig) : (withGroups r configs).registry = r :=
  (passing_ofRegistry r configs).extends_addAll.registry.symm

/-- The group was described with the operations that the definitions have for all types that are no groups. -/
def Describes (defs : Definitions) (group : GroupDef) : Prop :=
  ∃ config lookup, group = .build config group.name defs.registry lookup ∧
    ∀ type, defs.group? type = none → lookup type = defs.operation? type

theorem withGroups_describes (r : Registry) (configs : Table GroupConfig) {type : String} {group : GroupDef}
    (found : (withGroups r configs).group? type = some group) : (withGroups r configs).Describes group := by
  obtain ⟨name, configured, rfl⟩ := (isSome_group?_withGroups r configs type).1 (by rw [found]; rfl)
  obtain ⟨config, stored⟩ := Option.isSome_iff_exists.1 configured
  obtain ⟨earlier, described, sees⟩ := withGroups_sees (r := r) stored
  rw [found, Option.some_inj] at described
  refine ⟨config, earlier.operation?, ?_, fun type single => sees.grown.operation?_eq (.inr (.inr single))⟩
  rw [described, describe, sees.grown.registry]
  rfl

/-- A group is described with the definitions in the end as long as none of its members is of a type that it
hides although that is defined. -/
theorem describe_of_not_hides {name : String} {config : GroupConfig} (found : configs.get? name = some config)
    (hidden : ∀ node ∈ config.nodes, Hides r configs name node.type →
      (withGroups r configs).operation? node.type = none) :
    (withGroups r configs).group? (groupType name) = some ((withGroups r configs).describe name config) := by
  obtain ⟨earlier, described, sees⟩ := withGroups_sees (r := r) found
  rw [described]
  congr 1
  refine describe_congr (sees.registry.trans (registry_withGroups r configs).symm) name config fun node inside => ?_
  by_cases hides : Hides r configs name node.type
  · rw [sees.hidden node inside hides, hidden node inside hides]
  · exact sees.shown node inside hides

variable (r configs) in
/-- Each group that members are instances of is an operation of the registry or is configured. -/
def Closed : Prop :=
  ∀ entry ∈ configs.entries, ∀ node ∈ entry.2.nodes, isGroupType node.type →
    (r.operation? node.type).isSome ∨ ∃ name ∈ configs.keys, node.type = groupType name

instance (r : Registry) (configs : Table GroupConfig) : Decidable (Closed r configs) :=
  inferInstanceAs (Decidable (∀ _ ∈ _, _))

theorem Closed.contains (closed : Closed r configs) {entry : String × GroupConfig} (inside : entry ∈ configs.entries)
    {inner : String} (holds : entry.2.Holds inner) (single : r.operation? (groupType inner) = none) :
    configs.contains inner := by
  obtain ⟨node, member, named⟩ := holds
  have known := closed entry inside node member ((isGroupType_iff _).2 ⟨inner, named⟩)
  rw [named, single] at known
  rcases known with absurd | ⟨name, listed, same⟩
  · cases absurd
  · rw [groupType_injective same]
    exact Table.mem_keys_iff.1 listed

/-- Groups that only hold groups of a lower rank form no circle. -/
theorem acyclic_nests_of_rank (rank : String → Nat) (lower : ∀ entry ∈ configs.entries, ∀ node ∈ entry.2.nodes,
    ∀ inner ∈ configs.keys, node.type = groupType inner → rank inner < rank entry.1) : Acyclic (Nests r configs) := by
  intro name circle
  have falls : Relation.TransGen (· > ·) (rank name) (rank name) := by
    refine circle.lift rank ?_
    rintro outer inner ⟨configured, _, config, found, node, inside, named⟩
    exact lower (outer, config) (Table.mem_of_find found) node inside inner (Table.mem_keys_iff.2 configured) named
  rw [Relation.transGen_eq_self] at falls
  exact Nat.lt_irrefl _ falls

theorem Closed.not_dangles (closed : Closed r configs) (name : String) : ¬ Dangles r configs name := by
  rintro ⟨outer, config, inner, _, found, holds, single, absent⟩
  exact absent (closed.contains (Table.mem_of_find found) holds single)

/-- Where every group is defined and none holds itself, at whatever depth, there is a definition for each
configured group and for nothing else, and it is the one by the definitions in the end. -/
theorem withGroups_consistent (r : Registry) (configs : Table GroupConfig) (closed : Closed r configs)
    (acyclic : Acyclic (Nests r configs)) (type : String) (group : GroupDef) :
    (withGroups r configs).group? type = some group ↔ ∃ name config, configs.get? name = some config ∧
      type = groupType name ∧ group = (withGroups r configs).describe name config := by
  have consistent : ∀ name config, configs.get? name = some config →
      (withGroups r configs).group? (groupType name) = some ((withGroups r configs).describe name config) := by
    intro name config found
    refine describe_of_not_hides found fun node inside hides => ?_
    obtain ⟨single, inner, named, unsettled, _⟩ := hides
    rw [named] at single
    have known := closed.contains (Table.mem_of_find found) ⟨node, inside, named⟩ single
    exact absurd ((settles_iff_of_acyclic acyclic known).2 (closed.not_dangles inner)) unsettled
  constructor
  · intro there
    obtain ⟨name, configured, named⟩ := (isSome_group?_withGroups r configs type).1 (by rw [there]; rfl)
    obtain ⟨config, found⟩ := Option.isSome_iff_exists.1 configured
    rw [named, consistent name config found, Option.some_inj] at there
    exact ⟨name, config, found, named, there.symm⟩
  · rintro ⟨name, config, found, rfl, rfl⟩
    exact consistent name config found

def blurRegistry : Registry :=
  let blur := (Operation.named "Blur").addRequired "image" (.text "IMAGE")
  Registry.standard.insert (blur.addOutput "IMAGE" "")

def outermostConfig : GroupConfig := ⟨[.plain (.number 1) "workflow/c", .plain (.number 2) "workflow/b"], [], []⟩

-- Each group is described after the one that comes next by name, or after one that comes still later.
def nestedConfigs : Table GroupConfig := .ofList [
  ("a", outermostConfig),
  ("b", ⟨[.plain (.number 1) "workflow/d"], [], []⟩),
  ("c", ⟨[.plain (.number 1) "workflow/b", .plain (.number 2) "Blur"], [], []⟩),
  ("d", ⟨[.plain (.number 1) "Blur"], [], []⟩)]

theorem withGroups_consistent_nested : Closed blurRegistry nestedConfigs ∧ Acyclic (Nests blurRegistry nestedConfigs) ∧
    (withGroups blurRegistry nestedConfigs).group? "workflow/a" =
      some ((withGroups blurRegistry nestedConfigs).describe "a" outermostConfig) ∧
    ((withGroups blurRegistry nestedConfigs).describe "a" outermostConfig).exposure.outputs =
      [⟨0, 0⟩, ⟨0, 1⟩, ⟨1, 0⟩] := by
  have closed : Closed blurRegistry nestedConfigs := by decide +kernel
  have acyclic : Acyclic (Nests blurRegistry nestedConfigs) :=
    acyclic_nests_of_rank (["d", "b", "c", "a"].idxOf ·) (by decide +kernel)
  refine ⟨closed, acyclic, ?_, by decide +kernel⟩
  rw [withGroups_consistent _ _ closed acyclic]
  exact ⟨"a", outermostConfig, by decide +kernel, by decide +kernel, rfl⟩

/-! ### Groups that are defined nowhere -/

/-- Of the definitions in the end a group sees all but those of the types that it hides. It is described as if
it had been the last one unless it hides a type that is defined. -/
theorem withGroups_hides {name : String} {config : GroupConfig} (found : configs.get? name = some config) :
    (∃ lookup, (withGroups r configs).group? (groupType name) = some (.build config name r lookup) ∧
      ∀ node ∈ config.nodes, (Hides r configs name node.type → lookup node.type = none) ∧
        (¬ Hides r configs name node.type → lookup node.type = (withGroups r configs).operation? node.type)) ∧
    ((∀ node ∈ config.nodes, Hides r configs name node.type → (withGroups r configs).operation? node.type = none) →
      (withGroups r configs).group? (groupType name) = some ((withGroups r configs).describe name config)) := by
  refine ⟨?_, describe_of_not_hides found⟩
  obtain ⟨earlier, described, sees⟩ := withGroups_sees (r := r) found
  refine ⟨earlier.operation?, ?_, fun node inside => ⟨sees.hidden node inside, sees.shown node inside⟩⟩
  rw [described, describe, sees.registry]

-- A group of which one member is defined nowhere, and the config of those that hold it.
def danglingConfig : GroupConfig := ⟨[.plain (.number 1) "Blur", .plain (.number 2) "workflow/missing"], [], []⟩

def holderConfig : GroupConfig := ⟨[.plain (.number 1) "workflow/b", .plain (.number 2) "Blur"], [], []⟩

def danglingConfigs : Table GroupConfig := .ofList [("a", holderConfig), ("b", danglingConfig), ("z", holderConfig)]

theorem acyclic_dangling : Acyclic (Nests blurRegistry danglingConfigs) :=
  acyclic_nests_of_rank (["b", "a", "z"].idxOf ·) (by decide +kernel)

theorem dangles_b : Dangles blurRegistry danglingConfigs "b" :=
  ⟨"b", danglingConfig, "missing", .refl, by decide +kernel, ⟨.plain (.number 2) "workflow/missing", by decide +kernel,
    by decide +kernel⟩, by decide +kernel, by decide +kernel⟩

theorem withGroups_hides_dangling :
    danglingConfigs.get? "a" = some holderConfig ∧ danglingConfigs.get? "z" = some holderConfig ∧
      Hides blurRegistry danglingConfigs "a" "workflow/b" ∧
      (∃ lookup, (withGroups blurRegistry danglingConfigs).group? "workflow/a" =
        some (.build holderConfig "a" blurRegistry lookup) ∧ lookup "workflow/b" = none) ∧
      (withGroups blurRegistry danglingConfigs).group? "workflow/z" =
        some ((withGroups blurRegistry danglingConfigs).describe "z" holderConfig) := by
  have first : danglingConfigs.get? "a" = some holderConfig := by decide +kernel
  have last : danglingConfigs.get? "z" = some holderConfig := by decide +kernel
  have hides : Hides blurRegistry danglingConfigs "a" "workflow/b" :=
    ⟨by decide +kernel, "b", by decide +kernel, fun settles => settles.not_dangles dangles_b, by decide +kernel⟩
  refine ⟨first, last, hides, ?_, ?_⟩
  · obtain ⟨lookup, described, seen⟩ := (withGroups_hides (r := blurRegistry) first).1
    exact ⟨lookup, described, (seen (.plain (.number 1) "workflow/b") (by decide +kernel)).1 hides⟩
  · refine (withGroups_hides (r := blurRegistry) last).2 fun node inside hidden => ?_
    obtain ⟨_, inner, named, _, notBefore⟩ := hidden
    have types : ∀ node ∈ holderConfig.nodes, node.type = groupType "b" ∨ ¬ isGroupType node.type := by decide +kernel
    rcases types node inside with held | other
    · have before : "b" < "z" := by decide +kernel
      rw [groupType_injective (named.symm.trans held)] at notBefore
      exact absurd before notBefore
    · exact absurd ((isGroupType_iff _).2 ⟨inner, named⟩) other

-- Of two groups with the same config the one that comes last by name is described with the definitions in the
-- end, and the first one is not, although no group holds itself.
theorem described_by_name_order :
    Acyclic (Nests blurRegistry danglingConfigs) ∧ Dangles blurRegistry danglingConfigs "b" ∧
      danglingConfigs.get? "a" = some holderConfig ∧ danglingConfigs.get? "z" = some holderConfig ∧
      (withGroups blurRegistry danglingConfigs).group? "workflow/a" ≠
        some ((withGroups blurRegistry danglingConfigs).describe "a" holderConfig) ∧
      (withGroups blurRegistry danglingConfigs).group? "workflow/z" =
        some ((withGroups blurRegistry danglingConfigs).describe "z" holderConfig) :=
  ⟨acyclic_dangling, dangles_b, by decide +kernel, by decide +kernel, by decide +kernel, by decide +kernel⟩

end WithGroups

end Definitions
end Patchbay
