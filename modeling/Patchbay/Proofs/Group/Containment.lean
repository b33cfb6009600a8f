import Mathlib.Logic.Relation
import Patchbay.Group.Expansion
import Patchbay.Proofs.Group.Exposure

/-!
Which groups hold instances of which others. Among the groups of a document a name stands for one group, so
a lineage of names tells which groups an instance came out of.
-/
set_option autoImplicit false

namespace Patchbay
namespace Definitions

/-- A member of the outer group is an instance of the inner one. -/
def Contains (defs : Definitions) (outer inner : GroupDef) : Prop :=
  ∃ template ∈ outer.config.nodes, defs.group? template.type = some inner

def SelfContaining (defs : Definitions) (group : GroupDef) : Prop := Relation.TransGen defs.Contains group group

-- Every name of the lineage is that of a group that holds this one, directly or through others.
def Traces (defs : Definitions) (lineage : List String) (group : GroupDef) : Prop :=
  ∀ name ∈ lineage, ∃ outer ∈ defs.groups.values, outer.name = name ∧ Relation.TransGen defs.Contains outer group

theorem traces_nil (defs : Definitions) (group : GroupDef) : defs.Traces [] group := fun _ none => nomatch none

theorem Traces.member {defs : Definitions} {lineage : List String} {outer inner : GroupDef}
    (traces : defs.Traces lineage outer) (known : outer ∈ defs.groups.values) (contains : defs.Contains outer inner) :
    defs.Traces (lineage ++ [outer.name]) inner := by
  intro name inside
  rcases List.mem_append.1 inside with earlier | last
  · obtain ⟨above, member, same, holds⟩ := traces name earlier
    exact ⟨above, member, same, holds.tail contains⟩
  · exact ⟨outer, known, (List.mem_singleton.1 last).symm, .single contains⟩

theorem withGroups_eq_of_name (r : Registry) (configs : Table GroupConfig) {a b : GroupDef}
    (memberA : a ∈ (withGroups r configs).groups.values) (memberB : b ∈ (withGroups r configs).groups.values)
    (same : a.name = b.name) : a = b := by
  have keyed := withGroups_entries (fun key group => key = groupType group.name) r configs fun _ _ _ _ => rfl
  obtain ⟨known, insideA, rfl⟩ := List.mem_map.1 memberA
  obtain ⟨other, insideB, rfl⟩ := List.mem_map.1 memberB
  have keys : known.1 = other.1 := by rw [keyed known insideA, keyed other insideB, same]
  have distinct : ((withGroups r configs).groups.entries.map Prod.fst).Nodup := by
    rw [List.Nodup, List.pairwise_map]
    apply (withGroups r configs).groups.sorted.imp
    intro x y less equal
    rw [equal] at less
    exact String.lt_irrefl _ less
  rw [List.inj_on_of_nodup_map distinct insideA insideB keys]

-- An instance is refused only where its group is met inside itself.
theorem Traces.selfContaining {r : Registry} {configs : Table GroupConfig} {lineage : List String} {group : GroupDef}
    (traces : (withGroups r configs).Traces lineage group) (known : group ∈ (withGroups r configs).groups.values)
    (met : group.name ∈ lineage) : (withGroups r configs).SelfContaining group := by
  obtain ⟨outer, member, same, holds⟩ := traces group.name met
  rw [withGroups_eq_of_name r configs member known same] at holds
  exact holds

/-- The rank of a group is above those of the groups that it contains. -/
def Ranked (defs : Definitions) (rank : GroupDef → Nat) : Prop :=
  ∀ outer ∈ defs.groups.values, ∀ template ∈ outer.config.nodes, ∀ inner ∈ defs.group? template.type,
    rank inner < rank outer

instance (defs : Definitions) (rank : GroupDef → Nat) : Decidable (defs.Ranked rank) :=
  inferInstanceAs (Decidable (∀ _ ∈ _, _))

theorem Ranked.not_selfContaining {defs : Definitions} {rank : GroupDef → Nat} (ranked : defs.Ranked rank)
    {group : GroupDef} (known : group ∈ defs.groups.values) : ¬ defs.SelfContaining group := by
  have lower : ∀ inner, Relation.TransGen defs.Contains group inner →
      inner ∈ defs.groups.values ∧ rank inner < rank group := by
    intro inner holds
    induction holds with
    | single contains =>
      obtain ⟨template, member, found⟩ := contains
      exact ⟨mem_values_of_group? found, ranked group known template member _ found⟩
    | tail _ contains ih =>
      obtain ⟨template, member, found⟩ := contains
      exact ⟨mem_values_of_group? found, Nat.lt_trans (ranked _ ih.1 template member _ found) ih.2⟩
  intro loops
  exact Nat.lt_irrefl _ (lower group loops).2

end Definitions
end Patchbay
