import Patchbay.Sequencing.Order

/-!
Looking for the nodes that a node feeds. The walk enters each pass-through node once and still finds every
node that a chain of links through pass-through nodes leads to, cycles included.
-/
set_option autoImplicit false

namespace Patchbay

-- A chain of links from a target to a node that is no pass-through node; those on the way are unvisited.
inductive LeadsTo (targets : NodeId → List NodeId) (passThrough unvisited : List NodeId) : NodeId → NodeId → Prop where
  | found (target : NodeId) (stops : target ∉ passThrough) : LeadsTo targets passThrough unvisited target target
  | through {target next last : NodeId} (passes : target ∈ passThrough) (fresh : target ∈ unvisited)
      (link : next ∈ targets target) (rest : LeadsTo targets passThrough unvisited next last) :
      LeadsTo targets passThrough unvisited target last

section Walk

variable {targets : NodeId → List NodeId} {passThrough unvisited : List NodeId} {target last : NodeId}

theorem LeadsTo.mono {more : List NodeId} (leads : LeadsTo targets passThrough unvisited target last)
    (fewer : unvisited ⊆ more) : LeadsTo targets passThrough more target last := by
  induction leads with
  | found target stops => exact .found target stops
  | through passes fresh link rest ih => exact .through passes (fewer fresh) link ih

theorem LeadsTo.eq_of_stops (leads : LeadsTo targets passThrough unvisited target last)
    (stops : target ∉ passThrough) : last = target := by
  cases leads with
  | found target stops => rfl
  | through passes fresh link rest => exact absurd passes stops

theorem LeadsTo.fresh (leads : LeadsTo targets passThrough unvisited target last)
    (passes : target ∈ passThrough) : target ∈ unvisited := by
  cases leads with
  | found target stops => exact absurd passes stops
  | through passes fresh link rest => exact fresh

/-- A chain that comes through a node can be cut off behind the last time that it does. -/
theorem LeadsTo.avoid (leads : LeadsTo targets passThrough unvisited target last) (id : NodeId) :
    LeadsTo targets passThrough (without id unvisited) target last ∨
      ∃ next ∈ targets id, LeadsTo targets passThrough (without id unvisited) next last := by
  induction leads with
  | found target stops => exact .inl (.found target stops)
  | @through target next last passes fresh link rest ih =>
    rcases ih with avoids | behind
    · by_cases here : target = id
      · exact .inr ⟨next, here ▸ link, avoids⟩
      · exact .inl (.through passes (List.mem_filter.2 ⟨fresh, by simpa using here⟩) link avoids)
    · exact .inr behind

end Walk

theorem mem_reachFrom_iff (targets : NodeId → List NodeId) (passThrough unvisited stack : List NodeId) (last : NodeId) :
    last ∈ reachFrom targets passThrough unvisited stack ↔
      ∃ target ∈ stack, LeadsTo targets passThrough unvisited target last := by
  fun_induction reachFrom targets passThrough unvisited stack with
  | case1 unvisited => simp
  | case2 unvisited target stack passes fresh ih =>
    rw [ih]
    have kept : without target unvisited ⊆ unvisited := List.filter_sublist.subset
    constructor
    · intro ⟨next, member, leads⟩
      rcases List.mem_append.1 member with link | later
      · exact ⟨target, List.mem_cons_self, .through passes fresh link (leads.mono kept)⟩
      · exact ⟨next, List.mem_cons_of_mem _ later, leads.mono kept⟩
    · intro ⟨first, member, leads⟩
      rcases leads.avoid target with avoids | ⟨next, link, behind⟩
      · rcases List.mem_cons.1 member with rfl | later
        · exact absurd (avoids.fresh passes) (by simp [without])
        · exact ⟨first, List.mem_append_right _ later, avoids⟩
      · exact ⟨next, List.mem_append_left _ link, behind⟩
  | case3 unvisited target stack passes visited ih =>
    rw [ih]
    constructor
    · intro ⟨next, member, leads⟩
      exact ⟨next, List.mem_cons_of_mem _ member, leads⟩
    · intro ⟨first, member, leads⟩
      rcases List.mem_cons.1 member with rfl | later
      · exact absurd (leads.fresh passes) visited
      · exact ⟨first, later, leads⟩
  | case4 unvisited target stack stops ih =>
    rw [List.mem_cons, ih]
    constructor
    · intro found
      rcases found with rfl | ⟨next, member, leads⟩
      · exact ⟨last, List.mem_cons_self, .found last stops⟩
      · exact ⟨next, List.mem_cons_of_mem _ member, leads⟩
    · intro ⟨first, member, leads⟩
      rcases List.mem_cons.1 member with rfl | later
      · exact .inl (leads.eq_of_stops stops)
      · exact .inr ⟨first, later, leads⟩

namespace Document

/-- A data link leads from one node of the document to another one. -/
def Feeds (doc : Document) (a b : NodeId) : Prop :=
  ∃ link ∈ doc.links, link.isFlow = false ∧ link.origin = a ∧ link.target = b ∧ a ∈ doc.nodeIds ∧ b ∈ doc.nodeIds

-- Data links lead from one node to another, through pass-through nodes on the way.
inductive Reaches (doc : Document) (r : Registry) (u : NodeId) : NodeId → Prop where
  | direct {v : NodeId} (link : doc.Feeds u v) : Reaches doc r u v
  | through {p v : NodeId} (before : Reaches doc r u p) (passes : p ∈ doc.passThroughIds r) (link : doc.Feeds p v) :
      Reaches doc r u v

variable {doc : Document} {r : Registry}

theorem mem_dataTargets_iff {a b : NodeId} : b ∈ doc.dataTargets a ↔ doc.Feeds a b := by
  simp only [dataTargets, List.mem_map, List.mem_filter, Bool.and_eq_true, Bool.not_eq_true', beq_iff_eq,
    List.contains_iff_mem]
  constructor
  · intro ⟨link, ⟨member, ⟨⟨data, origin⟩, insideOrigin⟩, insideTarget⟩, target⟩
    exact ⟨link, member, data, origin, target, origin ▸ insideOrigin, target ▸ insideTarget⟩
  · intro ⟨link, member, data, origin, target, insideOrigin, insideTarget⟩
    exact ⟨link, ⟨member, ⟨⟨data, origin⟩, origin ▸ insideOrigin⟩, target ▸ insideTarget⟩, target⟩

theorem mem_reachableSuccessors_iff {u v : NodeId} :
    v ∈ doc.reachableSuccessors r u ↔ doc.Reaches r u v ∧ v ∉ doc.passThroughIds r := by
  rw [reachableSuccessors, mem_reachFrom_iff]
  constructor
  · intro ⟨target, link, leads⟩
    have start : doc.Reaches r u target := .direct (mem_dataTargets_iff.1 link)
    clear link
    induction leads with
    | found target stops => exact ⟨start, stops⟩
    | through passes _ next rest ih => exact ih (.through start passes (mem_dataTargets_iff.1 next))
  · intro ⟨reaches, stops⟩
    have longer : ∀ p, doc.Reaches r u p → ∀ last,
        LeadsTo doc.dataTargets (doc.passThroughIds r) (doc.passThroughIds r) p last → ∃ target ∈ doc.dataTargets u,
          LeadsTo doc.dataTargets (doc.passThroughIds r) (doc.passThroughIds r) target last := by
      intro p reached
      induction reached with
      | direct link => exact fun last leads => ⟨_, mem_dataTargets_iff.2 link, leads⟩
      | through before passes link ih =>
        exact fun last leads => ih last (.through passes passes (mem_dataTargets_iff.2 link) leads)
    exact longer v reaches v (.found v stops)

end Document
end Patchbay
