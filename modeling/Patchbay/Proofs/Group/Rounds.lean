import Patchbay.Proofs.Group.Containment
import Patchbay.Proofs.Group.Replacement
import Patchbay.Proofs.Group.Run

/-!
How far an expansion goes. The queue is worked off in rounds: the instances of one round all come before
their members, which form the next one. Every instance that takes part in the run is in the queue or holds an
instance of its own group.
-/
set_option autoImplicit false

namespace Patchbay

-- Instances with a member further down the queue are gone.
def PendingInstance.GoneBefore (g : Graph) (earlier later : PendingInstance) : Prop :=
  ∀ k, later.id = earlier.id.member k → g.node? earlier.id = none

namespace Definitions

-- Instances of the round in hand, and of the round to come. No lineage says more than is true of the instance
-- that stands under the id now, although ids can be taken over by members of other instances.
structure Rounds (defs : Definitions) (g : Graph) (now next : List PendingInstance) : Prop where
  nowDisplays : (now.map (·.id.display)).Nodup
  nextDisplays : (next.map (·.id.display)).Nodup
  members : ∀ y ∈ next, ∃ outer k, y.id = NodeId.member outer k
  apart : ∀ p ∈ now, ∀ y ∈ next, ∀ k, y.id ≠ p.id.member k
  nowOrder : (∀ y ∈ now, y.lineage = []) ∨ now.Pairwise (PendingInstance.GoneBefore g)
  nextOrder : next.Pairwise (PendingInstance.GoneBefore g)
  traced : ∀ y ∈ now ++ next, ∀ node group, g.node? y.id = some node → defs.group? node.type = some group →
    defs.Traces y.lineage group
  covered : ∀ id node group, g.node? id = some node → defs.group? node.type = some group →
    defs.registry.participation node = .normal → (∃ y ∈ now ++ next, y.id = id) ∨ defs.SelfContaining group

section Rounds

variable {defs : Definitions} {g : Graph} {now next : List PendingInstance} {entry : PendingInstance}

theorem Rounds.turn (rounds : defs.Rounds g [] next) : defs.Rounds g next [] where
  nowDisplays := rounds.nextDisplays
  nextDisplays := .nil
  members _ none := nomatch none
  apart _ _ _ none := nomatch none
  nowOrder := .inr rounds.nextOrder
  nextOrder := .nil
  traced := by
    rw [List.append_nil]
    exact rounds.traced
  covered := by
    rw [List.append_nil]
    exact rounds.covered

theorem Rounds.pass {r : Registry} {configs : Table GroupConfig} (made : defs = withGroups r configs)
    (rounds : defs.Rounds g (entry :: now) next) (kept : defs.expandable? g entry = none) :
    defs.Rounds g now next where
  nowDisplays := (List.nodup_cons.1 rounds.nowDisplays).2
  nextDisplays := rounds.nextDisplays
  members := rounds.members
  apart p inside := rounds.apart p (List.mem_cons_of_mem _ inside)
  nowOrder := by
    rcases rounds.nowOrder with first | ordered
    · exact .inl fun y inside => first y (List.mem_cons_of_mem _ inside)
    · exact .inr (List.pairwise_cons.1 ordered).2
  nextOrder := rounds.nextOrder
  traced y inside := rounds.traced y (List.mem_cons_of_mem _ inside)
  covered id node group found known normal := by
    rcases rounds.covered id node group found known normal with ⟨y, queued, rfl⟩ | loops
    · rcases List.mem_cons.1 queued with rfl | later
      · right
        -- It is there and takes part, so its group is one that it came out of.
        have met : group.name ∈ y.lineage := by
          by_contra fresh
          rw [expandable?, found] at kept
          simp only [known, normal, true_and, if_pos fresh] at kept
          cases kept
        have traces := rounds.traced y List.mem_cons_self node group found known
        have member := mem_values_of_group? known
        subst made
        exact traces.selfContaining member met
      · exact .inl ⟨y, later, rfl⟩
    · exact .inr loops

theorem mem_nestedInstances {after : Graph} {group : GroupDef} {y : PendingInstance} :
    y ∈ defs.nestedInstances after entry group ↔
      ∃ k template, (k, template) ∈ defs.knownMembers group.config ∧ defs.isInstance after (entry.id.member k) ∧
        y = ⟨entry.id.member k, entry.lineage ++ [group.name]⟩ := by
  simp only [nestedInstances, List.mem_map, List.mem_filter, Prod.exists]
  constructor
  · rintro ⟨_, ⟨⟨k, template, known, rfl⟩, hosts⟩, rfl⟩
    exact ⟨k, template, known, hosts, rfl⟩
  · rintro ⟨k, template, known, hosts, rfl⟩
    exact ⟨_, ⟨⟨k, template, known, rfl⟩, hosts⟩, rfl⟩

theorem nestedInstances_displays (after : Graph) (group : GroupDef) :
    ((defs.nestedInstances after entry group).map (·.id.display)).Nodup := by
  have ids : (((defs.knownMembers group.config).map Prod.fst).map fun k => entry.id.member k).Nodup :=
    (GroupDef.knownMembers_distinct defs group.config).map fun _ _ same => entry.id.member_injective same
  have displays : ((((defs.knownMembers group.config).map fun known => entry.id.member known.1).filter
      (defs.isInstance after)).map NodeId.display).Nodup := by
    rw [List.map_map] at ids
    apply (ids.filter _).map_on
    intro a memberA b memberB same
    obtain ⟨⟨k, template⟩, _, rfl⟩ := List.mem_map.1 (List.mem_filter.1 memberA).1
    obtain ⟨⟨j, other⟩, _, rfl⟩ := List.mem_map.1 (List.mem_filter.1 memberB).1
    exact NodeId.eq_member_of_display same
  rw [nestedInstances, List.map_map]
  exact displays

section Replace

variable {node : Node} {group : GroupDef} (found : defs.expandable? g entry = some (node, group))

include found in
theorem node?_replaced {id : NodeId} {current : Node}
    (there : (g.expandInstance defs node group).node? id = some current) :
    id ≠ entry.id ∧
      ((∃ k template, (k, template) ∈ defs.knownMembers group.config ∧ id = entry.id.member k ∧
          current.type = template.type ∧ current.mode = template.mode) ∨
        ((∀ k template, (k, template) ∈ defs.knownMembers group.config → id ≠ entry.id.member k) ∧
          ∃ old, g.node? id = some old ∧ current.type = old.type ∧ current.mode = old.mode)) := by
  rw [← Graph.id_of_node? (expandable?_eq_some found).1]
  exact g.node?_expandInstance defs node group there

include found in
theorem node?_replaced_eq_none {id : NodeId} (absent : g.node? id = none) (outside : ∀ k, id ≠ entry.id.member k) :
    (g.expandInstance defs node group).node? id = none := by
  cases there : (g.expandInstance defs node group).node? id with
  | none => rfl
  | some current =>
    rcases (node?_replaced found there).2 with ⟨k, _, _, same, _⟩ | ⟨_, old, before, _⟩
    · exact absurd same (outside k)
    · rw [absent] at before
      cases before

variable (rounds : defs.Rounds g (entry :: now) next)

include found rounds in
-- What is queued already under the id of a member has no lineage: it is in the queue since the first round.
theorem Rounds.stale {y : PendingInstance} (queued : y ∈ now ++ next) {k : Nat} (same : y.id = entry.id.member k) :
    y.lineage = [] := by
  rcases List.mem_append.1 queued with inNow | inNext
  · rcases rounds.nowOrder with first | ordered
    · exact first y (List.mem_cons_of_mem _ inNow)
    · have gone := (List.pairwise_cons.1 ordered).1 y inNow k same
      rw [(expandable?_eq_some found).1] at gone
      cases gone
  · exact absurd same (rounds.apart entry List.mem_cons_self y inNext k)

include found rounds in
theorem Rounds.nowOrder_replace : (∀ y ∈ now, y.lineage = []) ∨
    now.Pairwise (PendingInstance.GoneBefore (g.expandInstance defs node group)) := by
  rcases rounds.nowOrder with first | ordered
  · exact .inl fun y inside => first y (List.mem_cons_of_mem _ inside)
  · right
    obtain ⟨head, tail⟩ := List.pairwise_cons.1 ordered
    refine tail.imp_of_mem fun inside _ gone k same => ?_
    refine node?_replaced_eq_none found (gone k same) fun j member => ?_
    have absent := head _ inside j member
    rw [(expandable?_eq_some found).1] at absent
    cases absent

include found rounds in
theorem Rounds.nextOrder_replace :
    (next ++ defs.nestedInstances (g.expandInstance defs node group) entry group).Pairwise
      (PendingInstance.GoneBefore (g.expandInstance defs node group)) := by
  rw [List.pairwise_append]
  refine ⟨?_, ?_, ?_⟩
  · refine rounds.nextOrder.imp_of_mem fun inside _ gone k same => ?_
    exact node?_replaced_eq_none found (gone k same) (rounds.apart entry List.mem_cons_self _ inside)
  · apply List.pairwise_of_forall_mem_list
    intro p insideP y insideY k same
    obtain ⟨i, _, _, _, rfl⟩ := mem_nestedInstances.1 insideP
    obtain ⟨j, _, _, _, rfl⟩ := mem_nestedInstances.1 insideY
    exact absurd same (entry.id.member_ne_member_member i j k)
  · intro p insideP y insideY k same
    obtain ⟨j, _, _, _, rfl⟩ := mem_nestedInstances.1 insideY
    -- The instance is displayed like one of the next round, so it is that one, and it is replaced.
    obtain ⟨outer, i, member⟩ := rounds.members p insideP
    have alike : entry.id.display = p.id.display := NodeId.display_eq_of_member_eq same
    have equal : p.id = entry.id := by
      rw [member] at alike ⊢
      exact (NodeId.eq_member_of_display alike).symm
    cases there : (g.expandInstance defs node group).node? p.id with
    | none => rfl
    | some current => exact absurd equal (node?_replaced found there).1

include found rounds in
theorem Rounds.traced_replace : ∀ y ∈ now ++ (next ++ defs.nestedInstances (g.expandInstance defs node group) entry group),
    ∀ current inner, (g.expandInstance defs node group).node? y.id = some current →
      defs.group? current.type = some inner → defs.Traces y.lineage inner := by
  obtain ⟨there, known, _⟩ := expandable?_eq_some found
  intro y queued current inner foundY knownY
  rw [← List.append_assoc, List.mem_append] at queued
  obtain ⟨_, ⟨k, template, member, same, type, _⟩ | ⟨outside, old, before, type, _⟩⟩ := node?_replaced found foundY
  · rcases queued with earlier | nested
    · rw [rounds.stale found earlier same]
      exact defs.traces_nil inner
    · obtain ⟨_, _, _, _, rfl⟩ := mem_nestedInstances.1 nested
      have traces := rounds.traced entry List.mem_cons_self node group there known
      have contains : defs.Contains group inner :=
        ⟨template, List.mem_of_getElem? (getElem?_of_knownMembers member), type ▸ knownY⟩
      exact traces.member (mem_values_of_group? known) contains
  · rcases queued with earlier | nested
    · exact rounds.traced y (List.mem_cons_of_mem _ earlier) old inner before (type ▸ knownY)
    · obtain ⟨k, template, member, _, rfl⟩ := mem_nestedInstances.1 nested
      exact absurd rfl (outside k template member)

include found rounds in
theorem Rounds.covered_replace (id : NodeId) (current : Node) (inner : GroupDef)
    (there : (g.expandInstance defs node group).node? id = some current) (known : defs.group? current.type = some inner)
    (normal : defs.registry.participation current = .normal) :
    (∃ y ∈ now ++ (next ++ defs.nestedInstances (g.expandInstance defs node group) entry group), y.id = id) ∨
      defs.SelfContaining inner := by
  obtain ⟨apart, ⟨k, template, member, rfl, _⟩ | ⟨_, old, before, type, mode⟩⟩ := node?_replaced found there
  · left
    have hosts : defs.isInstance (g.expandInstance defs node group) (entry.id.member k) := by
      rw [isInstance, there, Option.any_some, known]
      rfl
    have nested := mem_nestedInstances.2 ⟨k, template, member, hosts, rfl⟩
    exact ⟨_, List.mem_append_right _ (List.mem_append_right _ nested), rfl⟩
  · have sameRole : defs.registry.participation old = .normal := by
      rw [← normal, Registry.participation, Registry.participation, type, mode]
    rcases rounds.covered id old inner before (type ▸ known) sameRole with ⟨y, queued, rfl⟩ | loops
    · rcases List.mem_cons.1 queued with rfl | later
      · exact absurd rfl apart
      · rcases List.mem_append.1 later with inNow | inNext
        · exact .inl ⟨y, List.mem_append_left _ inNow, rfl⟩
        · exact .inl ⟨y, List.mem_append_right _ (List.mem_append_left _ inNext), rfl⟩
    · exact .inr loops

include found rounds in
theorem Rounds.replace : defs.Rounds (g.expandInstance defs node group) now
    (next ++ defs.nestedInstances (g.expandInstance defs node group) entry group) where
  nowDisplays := (List.nodup_cons.1 rounds.nowDisplays).2
  nextDisplays := by
    rw [List.map_append, List.nodup_append]
    refine ⟨rounds.nextDisplays, nestedInstances_displays _ group, ?_⟩
    intro a insideA b insideB same
    obtain ⟨y, queued, rfl⟩ := List.mem_map.1 insideA
    obtain ⟨new, nested, rfl⟩ := List.mem_map.1 insideB
    obtain ⟨k, _, _, _, rfl⟩ := mem_nestedInstances.1 nested
    exact rounds.apart entry List.mem_cons_self y queued k (NodeId.eq_member_of_display same)
  members y queued := by
    rcases List.mem_append.1 queued with old | nested
    · exact rounds.members y old
    · obtain ⟨k, _, _, _, rfl⟩ := mem_nestedInstances.1 nested
      exact ⟨entry.id, k, rfl⟩
  apart p inside y queued k same := by
    rcases List.mem_append.1 queued with old | nested
    · exact rounds.apart p (List.mem_cons_of_mem _ inside) y old k same
    · obtain ⟨j, _, _, _, rfl⟩ := mem_nestedInstances.1 nested
      have alike : entry.id.display = p.id.display := NodeId.display_eq_of_member_eq same
      exact (List.nodup_cons.1 rounds.nowDisplays).1 (List.mem_map.2 ⟨p, inside, alike.symm⟩)
  nowOrder := rounds.nowOrder_replace found
  nextOrder := rounds.nextOrder_replace found
  traced := rounds.traced_replace found
  covered := rounds.covered_replace found

end Replace

/-! ### The whole run -/

theorem Rounds.step {r : Registry} {configs : Table GroupConfig} (made : defs = withGroups r configs)
    {before after : ExpansionState × List PendingInstance} (step : ExpansionStep defs before after)
    (invariant : ∃ now next, before.2 = now ++ next ∧ defs.Rounds before.1.graph now next) :
    ∃ now next, after.2 = now ++ next ∧ defs.Rounds after.1.graph now next := by
  -- A round that is worked off makes way for the next one, so that the front of the queue is in the round in hand.
  have front : ∀ g entry queue, (∃ now next, entry :: queue = now ++ next ∧ defs.Rounds g now next) →
      ∃ now next, queue = now ++ next ∧ defs.Rounds g (entry :: now) next := by
    rintro g entry queue ⟨now, next, split, rounds⟩
    cases now with
    | nil =>
      rw [List.nil_append] at split
      rw [← split] at rounds
      exact ⟨queue, [], (List.append_nil queue).symm, rounds.turn⟩
    | cons first now =>
      obtain ⟨rfl, rest⟩ := List.cons.inj split
      exact ⟨now, next, rest, rounds⟩
  cases step with
  | pass state entry queue kept =>
    obtain ⟨now, next, split, rounds⟩ := front _ _ _ invariant
    exact ⟨now, next, split, rounds.pass made kept⟩
  | replace state entry queue node group found =>
    obtain ⟨now, next, split, rounds⟩ := front _ _ _ invariant
    refine ⟨now, _, ?_, rounds.replace found⟩
    simp only [split, List.append_assoc]

theorem Rounds.run {r : Registry} {configs : Table GroupConfig} (made : defs = withGroups r configs)
    {before after : ExpansionState × List PendingInstance} (reached : defs.Reaches before after)
    (invariant : ∃ now next, before.2 = now ++ next ∧ defs.Rounds before.1.graph now next) :
    ∃ now next, after.2 = now ++ next ∧ defs.Rounds after.1.graph now next := by
  induction reached with
  | refl => exact invariant
  | tail _ step ih => exact Rounds.step made step ih

theorem rounds_expansionStart (g : Graph) (missing : List String)
    (apart : ((g.nodeIds.filter (defs.isInstance g)).map NodeId.display).Nodup) :
    defs.Rounds g (g.expansionStart defs missing).2 [] where
  nowDisplays := by
    rw [Graph.expansionStart, List.map_map]
    exact apart
  nextDisplays := .nil
  members _ none := nomatch none
  apart _ _ _ none := nomatch none
  nowOrder := by
    left
    intro y queued
    obtain ⟨_, _, rfl⟩ := List.mem_map.1 queued
    rfl
  nextOrder := .nil
  traced y queued node group _ _ := by
    rw [List.append_nil] at queued
    obtain ⟨_, _, rfl⟩ := List.mem_map.1 queued
    exact defs.traces_nil group
  covered id node group found known _ := by
    left
    rw [List.append_nil]
    have hosts : defs.isInstance g id := by
      rw [isInstance, found, Option.any_some, known]
      rfl
    have member : id ∈ g.nodeIds := by
      rw [← Graph.id_of_node? found]
      exact List.mem_map_of_mem (List.mem_of_find?_eq_some found)
    exact ⟨⟨id, []⟩, List.mem_map_of_mem (List.mem_filter.2 ⟨member, hosts⟩), rfl⟩

-- Each turn takes away more work than it adds.
theorem expansionStep_wellFounded (defs : Definitions) :
    WellFounded fun after before => ExpansionStep defs before after := by
  refine Subrelation.wf ?_ (measure fun point : ExpansionState × List PendingInstance => defs.work point.2).wf
  intro after before step
  cases step with
  | pass state entry queue kept => exact work_tail_lt
  | replace state entry queue node group found => exact work_append_lt found

end Rounds

end Definitions

namespace Graph

/-- Every expansion comes to an end with an empty queue. If no two instances of the graph are displayed alike,
the instances that are left take no part in the run or are of groups that contain themselves. -/
theorem expandGroups_exhaustive {defs : Definitions} {r : Registry} {configs : Table GroupConfig}
    (made : defs = Definitions.withGroups r configs) (g : Graph) (missing : List String) :
    (WellFounded fun after before => ExpansionStep defs before after) ∧
      defs.Reaches (g.expansionStart defs missing) (g.expandGroups defs missing, []) ∧
      (((g.nodeIds.filter (defs.isInstance g)).map NodeId.display).Nodup →
        (∀ id node group, (g.expandGroups defs missing).graph.node? id = some node →
          defs.group? node.type = some group →
            defs.registry.participation node ≠ .normal ∨ defs.SelfContaining group) ∧
        ((∀ group, ¬ defs.SelfContaining group) →
          ∀ id node group, (g.expandGroups defs missing).graph.node? id = some node →
            defs.group? node.type = some group → defs.registry.participation node ≠ .normal)) := by
  have emptied := defs.reaches_expandQueue (g.expansionStart defs missing).1 (g.expansionStart defs missing).2
  refine ⟨defs.expansionStep_wellFounded, emptied, fun apart => ?_⟩
  obtain ⟨now, next, empty, final⟩ := Definitions.Rounds.run made emptied
    ⟨_, [], (List.append_nil _).symm, Definitions.rounds_expansionStart g missing apart⟩
  have left : ∀ id node group, (g.expandGroups defs missing).graph.node? id = some node →
      defs.group? node.type = some group →
        defs.registry.participation node ≠ .normal ∨ defs.SelfContaining group := by
    intro id node group found known
    by_cases normal : defs.registry.participation node = .normal
    · rcases final.covered id node group found known normal with ⟨y, queued, _⟩ | loops
      · rw [← empty] at queued
        cases queued
      · exact .inr loops
    · exact .inl normal
  refine ⟨left, fun acyclic id node group found known => ?_⟩
  exact (left id node group found known).resolve_right (acyclic group)

-- A group that holds itself beside a pair, an instance of it, and a bypassed instance of the pair.
def loopDefinitions : Definitions :=
  let sampler := (Operation.named "Sampler").addRequired "latent" (.text "LATENT")
  .withGroups (Registry.standard.insert (sampler.addOutput "LATENT" "latent")) (.ofList [("pair", pairConfig),
    ("loop", ⟨[.plain (.number 0) "workflow/pair", .plain (.number 1) "workflow/loop"], [], []⟩)])

def looped : Graph where
  nodes := [.plain (.number 1) "workflow/loop", { Node.plain (.number 2) "workflow/pair" with mode := .bypassed }]
  links := []
  nextLinkId := 0

theorem expandGroups_exhaustive_looped :
    ((looped.nodeIds.filter (loopDefinitions.isInstance looped)).map NodeId.display).Nodup ∧
      (looped.expandGroups loopDefinitions []).graph.nodes.map (fun node => (node.id.display, node.type)) =
        [("1:0:0", "Sampler"), ("1:0:1", "Sampler"), ("1:1", "workflow/loop"), ("2", "workflow/pair")] ∧
      ∀ id node group, (looped.expandGroups loopDefinitions []).graph.node? id = some node →
        loopDefinitions.group? node.type = some group →
          loopDefinitions.registry.participation node ≠ .normal ∨ loopDefinitions.SelfContaining group := by
  have apart : ((looped.nodeIds.filter (loopDefinitions.isInstance looped)).map NodeId.display).Nodup := by
    decide +kernel
  refine ⟨apart, by decide +kernel, ?_⟩
  exact ((expandGroups_exhaustive rfl looped []).2.2 apart).1

-- Members of the instance `3` are taken for members of the instance that is named 3.
def alikeConfigs : Table GroupConfig := .ofList [
  ("a", ⟨[.plain (.number 1) "workflow/c"], [], []⟩), ("b", ⟨[.plain (.number 1) "workflow/d"], [], []⟩),
  ("c", ⟨[.plain (.number 1) "Blur"], [], []⟩), ("d", ⟨[.plain (.number 1) "workflow/a"], [], []⟩)]

def alikeDefinitions : Definitions := .withGroups (Registry.standard.insert (.named "Blur")) alikeConfigs

def alike : Graph where
  nodes := [.plain (.number 3) "workflow/a", .plain (.name "3") "workflow/b"]
  links := []
  nextLinkId := 0

theorem alike_ranked : alikeDefinitions.Ranked fun group => ["c", "a", "d", "b"].idxOf group.name := by
  decide +kernel

/-- Where two instances are displayed alike, one that takes part in the run can be left although no group
contains itself. -/
theorem expandGroups_alike : ∃ node group,
    (alike.expandGroups alikeDefinitions []).graph.node? (.name "3:0:0") = some node ∧
      alikeDefinitions.group? node.type = some group ∧
      alikeDefinitions.registry.participation node = .normal ∧
      ∀ other ∈ alikeDefinitions.groups.values, ¬ alikeDefinitions.SelfContaining other := by
  have left : (alike.expandGroups alikeDefinitions []).graph.node? (.name "3:0:0") =
      some (.plain (.name "3:0:0") "workflow/a") := by decide +kernel
  have known : (alikeDefinitions.group? "workflow/a").isSome := by decide +kernel
  obtain ⟨group, found⟩ := Option.isSome_iff_exists.1 known
  exact ⟨_, group, left, found, by decide +kernel, fun other member => alike_ranked.not_selfContaining member⟩

end Graph
end Patchbay
