import Mathlib.Algebra.GroupWithZero.Nat
import Patchbay.Proofs.Ordering.FeedOrder

/-!
The search for what a node feeds, turn by turn. It enters each pass-through node once at most and takes each data
link off its stack once at most, so it comes to an end on every document; at the end it has found a node as often as
links bring it there, see `reachableSuccessors_counted`.
-/
set_option autoImplicit false

namespace Patchbay

/-- A search between two turns: the targets on its stack, the pass-through nodes that it has entered, the nodes that
it has found, and the number of turns so far. -/
structure Search where
  stack : List NodeId
  entered : List NodeId
  found : List NodeId
  turns : Nat

theorem sum_countP_eq {α β : Type} [DecidableEq β] (xs : List α) (own : α → Bool) (origin : α → β) {origins : List β}
    (distinct : origins.Nodup) :
    (origins.map fun o => xs.countP fun x => own x && origin x == o).sum =
      xs.countP fun x => own x && origins.contains (origin x) := by
  induction origins with
  | nil => simp
  | cons first rest ih =>
    obtain ⟨fresh, distinct⟩ := List.nodup_cons.1 distinct
    rw [List.map_cons, List.sum_cons, ih distinct]
    clear ih
    induction xs with
    | nil => rfl
    | cons x xs ih =>
      simp only [List.countP_cons, List.contains_cons, Bool.and_eq_true, Bool.or_eq_true, beq_iff_eq,
        List.contains_iff_mem] at ih ⊢
      by_cases here : origin x = first
      · simp only [here, fresh, or_false, and_true, and_false, if_false, Nat.add_zero] at ih ⊢
        omega
      · simp only [here, false_or, and_false, if_false, Nat.add_zero] at ih ⊢
        omega

namespace Document

variable {doc : Document} {r : Registry} {u v : NodeId}

/-- A turn takes the target on top of the stack. A node that is no pass-through node is found; a pass-through node is
entered the first time that it comes up, and dropped every other time. -/
inductive SearchStep (doc : Document) (r : Registry) : Search → Search → Prop where
  | find (target : NodeId) (stack entered found : List NodeId) (turns : Nat) (stops : target ∉ doc.passThroughIds r) :
      SearchStep doc r ⟨target :: stack, entered, found, turns⟩ ⟨stack, entered, found ++ [target], turns + 1⟩
  | drop (target : NodeId) (stack entered found : List NodeId) (turns : Nat) (passes : target ∈ doc.passThroughIds r)
      (again : target ∈ entered) :
      SearchStep doc r ⟨target :: stack, entered, found, turns⟩ ⟨stack, entered, found, turns + 1⟩
  | enter (target : NodeId) (stack entered found : List NodeId) (turns : Nat) (passes : target ∈ doc.passThroughIds r)
      (fresh : target ∉ entered) :
      SearchStep doc r ⟨target :: stack, entered, found, turns⟩
        ⟨doc.dataTargets target ++ stack, target :: entered, found, turns + 1⟩

abbrev Searches (doc : Document) (r : Registry) : Search → Search → Prop :=
  Relation.ReflTransGen (SearchStep doc r)

def searchStart (doc : Document) (u : NodeId) : Search := ⟨doc.dataTargets u, [], [], 0⟩

/-- A data link between nodes of the document that enters `v`, from `u` itself or from a pass-through node that `u`
reaches through pass-through nodes only. -/
structure Brings (doc : Document) (r : Registry) (u v : NodeId) (link : Link) : Prop where
  data : link.isFlow = false
  origin : link.origin ∈ doc.nodeIds
  target : link.target ∈ doc.nodeIds
  enters : link.target = v
  leaves : link.origin = u ∨ link.origin ∈ doc.passThroughIds r ∧ doc.Reaches r u link.origin

/-! ### The result of a search -/

-- What a search will have found in the end.
def outcome (doc : Document) (r : Registry) (s : Search) : List NodeId :=
  s.found ++ reachFrom doc.dataTargets (doc.passThroughIds r)
    ((doc.passThroughIds r).filter fun id => !s.entered.contains id) s.stack

theorem outcome_searchStart (doc : Document) (r : Registry) (u : NodeId) :
    doc.outcome r (doc.searchStart u) = doc.reachableSuccessors r u := by
  have unentered : (doc.passThroughIds r).filter (fun id => !([] : List NodeId).contains id) = doc.passThroughIds r :=
    List.filter_eq_self.2 fun _ _ => rfl
  rw [outcome, searchStart, unentered]
  rfl

theorem without_filter_entered (ids entered : List NodeId) (target : NodeId) :
    without target (ids.filter fun id => !entered.contains id) =
      ids.filter fun id => !(target :: entered).contains id := by
  rw [without, List.filter_filter]
  refine List.filter_congr fun id _ => ?_
  by_cases same : id = target <;> simp [same]

theorem SearchStep.outcome_eq {s after : Search} (step : doc.SearchStep r s after) :
    doc.outcome r after = doc.outcome r s := by
  cases step with
  | find target stack entered found turns stops =>
    rw [outcome, outcome, reachFrom, if_neg stops, List.append_assoc, List.singleton_append]
  | drop target stack entered found turns passes again =>
    have old : target ∉ (doc.passThroughIds r).filter fun id => !entered.contains id := by simp [again]
    rw [outcome, outcome, reachFrom, if_pos passes, if_neg old]
  | enter target stack entered found turns passes fresh =>
    have new : target ∈ (doc.passThroughIds r).filter fun id => !entered.contains id :=
      List.mem_filter.2 ⟨passes, by simpa using fresh⟩
    rw [outcome, outcome, reachFrom, if_pos passes, if_pos new, without_filter_entered]

theorem Searches.outcome_eq {s after : Search} (searches : doc.Searches r s after) :
    doc.outcome r after = doc.outcome r s := by
  induction searches with
  | refl => rfl
  | tail _ step ih => exact step.outcome_eq.trans ih

theorem exists_end (doc : Document) (r : Registry) (s : Search) :
    ∃ last, doc.Searches r s last ∧ last.stack = [] := by
  obtain ⟨stack, entered, found, turns⟩ := s
  -- The recursion of the search itself, whose unvisited nodes are those that were not entered.
  generalize same : (doc.passThroughIds r).filter (fun id => !entered.contains id) = unvisited
  fun_induction reachFrom doc.dataTargets (doc.passThroughIds r) unvisited stack generalizing entered found turns with
  | case1 unvisited => exact ⟨_, .refl, rfl⟩
  | case2 unvisited target stack passes new ih =>
    rw [← same, List.mem_filter] at new
    have fresh : target ∉ entered := by simpa using new.2
    obtain ⟨last, run, empty⟩ := ih (target :: entered) found (turns + 1)
      (by rw [← same, without_filter_entered])
    exact ⟨last, .head (.enter target stack entered found turns passes fresh) run, empty⟩
  | case3 unvisited target stack passes old ih =>
    have again : target ∈ entered := by
      by_contra fresh
      exact old (same ▸ List.mem_filter.2 ⟨passes, by simpa using fresh⟩)
    obtain ⟨last, run, empty⟩ := ih entered found (turns + 1) same
    exact ⟨last, .head (.drop target stack entered found turns passes again) run, empty⟩
  | case4 unvisited target stack stops ih =>
    obtain ⟨last, run, empty⟩ := ih entered (found ++ [target]) (turns + 1) same
    exact ⟨last, .head (.find target stack entered found turns stops) run, empty⟩

theorem found_of_end {last : Search} (searches : doc.Searches r (doc.searchStart u) last) (empty : last.stack = []) :
    last.found = doc.reachableSuccessors r u := by
  have same := searches.outcome_eq
  rw [outcome_searchStart, outcome, empty, reachFrom, List.append_nil] at same
  exact same

/-! ### What every turn keeps -/

/-- What is known of a search that began at `u`: nodes are entered once, everything entered or on the stack is reached
from `u`, and each target of `u` and of an entered node is found, on the stack, or a pass-through node that was
entered or dropped. -/
structure SearchSound (doc : Document) (r : Registry) (u : NodeId) (s : Search) : Prop where
  distinct : s.entered.Nodup
  passes : ∀ id ∈ s.entered, id ∈ doc.passThroughIds r
  reached : ∀ id ∈ s.entered, doc.Reaches r u id
  stacked : ∀ id ∈ s.stack, doc.Reaches r u id
  covered : ∀ source ∈ u :: s.entered, ∀ id ∈ doc.dataTargets source, id ∈ doc.passThroughIds r →
    id ∈ s.entered ∨ id ∈ s.stack
  counts : ∀ v ∉ doc.passThroughIds r, s.found.count v + s.stack.count v =
    ((u :: s.entered).map fun source => (doc.dataTargets source).count v).sum
  turns : s.turns + s.stack.length = ((u :: s.entered).map fun source => (doc.dataTargets source).length).sum

theorem searchSound_start (doc : Document) (r : Registry) (u : NodeId) : doc.SearchSound r u (doc.searchStart u) where
  distinct := .nil
  passes := List.forall_mem_nil _
  reached := List.forall_mem_nil _
  stacked _ member := .direct (mem_dataTargets_iff.1 member)
  covered source own id target _ := .inr (by rwa [List.mem_singleton.1 own] at target)
  counts v _ := by simp [searchStart]
  turns := by simp [searchStart]

theorem SearchSound.step {s after : Search} (sound : doc.SearchSound r u s) (step : doc.SearchStep r s after) :
    doc.SearchSound r u after := by
  obtain ⟨distinct, passes, reached, stacked, covered, counts, turns⟩ := sound
  cases step with
  | find target stack entered found n stops =>
    refine ⟨distinct, passes, reached, fun id member => stacked id (List.mem_cons_of_mem _ member),
      fun source own id member through => ?_, fun v other => ?_, ?_⟩
    · refine (covered source own id member through).imp_right fun listed => ?_
      exact (List.mem_cons.1 listed).resolve_left fun same => stops (same ▸ through)
    · have before := counts v other
      simp only [List.count_append, List.count_nil, List.count_cons] at before ⊢
      omega
    · simp only [List.length_cons] at turns ⊢
      omega
  | drop target stack entered found n through again =>
    refine ⟨distinct, passes, reached, fun id member => stacked id (List.mem_cons_of_mem _ member),
      fun source own id member through => ?_, fun v other => ?_, ?_⟩
    · rcases covered source own id member through with old | listed
      · exact .inl old
      · rcases List.mem_cons.1 listed with rfl | later
        · exact .inl again
        · exact .inr later
    · have apart : (target == v) = false := by
        rw [beq_eq_false_iff_ne]
        exact fun same => other (same ▸ through)
      rw [← counts v other, List.count_cons, apart]
      rfl
    · simp only [List.length_cons] at turns ⊢
      omega
  | enter target stack entered found n through fresh =>
    have leads := stacked target List.mem_cons_self
    refine ⟨List.nodup_cons.2 ⟨fresh, distinct⟩, List.forall_mem_cons.2 ⟨through, passes⟩,
      List.forall_mem_cons.2 ⟨leads, reached⟩, fun id member => ?_, fun source own id member through => ?_,
      fun v other => ?_, ?_⟩
    · rcases List.mem_append.1 member with next | later
      · exact .through leads through (mem_dataTargets_iff.1 next)
      · exact stacked id (List.mem_cons_of_mem _ later)
    · by_cases here : source = target
      · exact .inr (List.mem_append_left _ (here ▸ member))
      · have old : source ∈ u :: entered := by
          rcases List.mem_cons.1 own with first | own
          · exact first ▸ List.mem_cons_self
          · exact List.mem_cons_of_mem _ ((List.mem_cons.1 own).resolve_left here)
        rcases covered source old id member through with entered | listed
        · exact .inl (List.mem_cons_of_mem _ entered)
        · rcases List.mem_cons.1 listed with same | later
          · exact .inl (same ▸ List.mem_cons_self)
          · exact .inr (List.mem_append_right _ later)
    · have apart : (target == v) = false := by
        rw [beq_eq_false_iff_ne]
        exact fun same => other (same ▸ through)
      have before := counts v other
      simp only [List.count_cons, apart, List.map_cons, List.sum_cons] at before
      simp only [List.count_append, List.map_cons, List.sum_cons]
      simp only [Bool.false_eq_true, if_false] at before
      omega
    · simp only [List.length_cons, List.map_cons, List.sum_cons] at turns
      simp only [List.length_append, List.map_cons, List.sum_cons]
      omega

theorem Searches.sound {s : Search} (searches : doc.Searches r (doc.searchStart u) s) : doc.SearchSound r u s := by
  induction searches with
  | refl => exact searchSound_start doc r u
  | tail _ step ih => exact ih.step step

/-! ### Counting links -/

theorem count_dataTargets (doc : Document) (source v : NodeId) :
    (doc.dataTargets source).count v = doc.links.countP fun link =>
      (!link.isFlow && doc.nodeIds.contains link.origin && doc.nodeIds.contains link.target && link.target == v) &&
        link.origin == source := by
  rw [dataTargets, List.count_eq_countP, List.countP_map, List.countP_filter]
  refine List.countP_congr fun link _ => ?_
  simp only [Function.comp, Bool.and_eq_true]
  tauto

theorem length_dataTargets (doc : Document) (source : NodeId) :
    (doc.dataTargets source).length = doc.links.countP fun link =>
      (!link.isFlow && doc.nodeIds.contains link.origin && doc.nodeIds.contains link.target) &&
        link.origin == source := by
  rw [dataTargets, List.length_map, ← List.countP_eq_length_filter]
  refine List.countP_congr fun link _ => ?_
  simp only [Bool.and_eq_true]
  tauto

namespace SearchSound

variable {s : Search} (sound : doc.SearchSound r u s) (source : u ∉ doc.passThroughIds r)

include sound source in
theorem sources_distinct : (u :: s.entered).Nodup :=
  List.nodup_cons.2 ⟨fun inside => source (sound.passes u inside), sound.distinct⟩

-- A link is on the stack once at most, for its origin is entered once.
include sound source in
theorem turns_le : s.turns ≤ doc.links.length := by
  have whole := sound.turns
  simp only [length_dataTargets] at whole
  rw [sum_countP_eq doc.links _ Link.origin (sound.sources_distinct source)] at whole
  exact Nat.le_trans (Nat.le.intro whole) List.countP_le_length

include sound in
theorem mem_entered_of_feeds (empty : s.stack = []) {origin id : NodeId} (own : origin ∈ u :: s.entered)
    (link : doc.Feeds origin id) (passes : id ∈ doc.passThroughIds r) : id ∈ s.entered := by
  refine (sound.covered origin own id (mem_dataTargets_iff.2 link) passes).resolve_right fun listed => ?_
  rw [empty] at listed
  cases listed

include sound in
theorem mem_entered_iff (empty : s.stack = []) (id : NodeId) :
    id ∈ s.entered ↔ id ∈ doc.passThroughIds r ∧ doc.Reaches r u id := by
  constructor
  · exact fun entered => ⟨sound.passes id entered, sound.reached id entered⟩
  rintro ⟨passes, reaches⟩
  induction reaches with
  | direct link => exact sound.mem_entered_of_feeds empty List.mem_cons_self link passes
  | through before through link ih =>
    exact sound.mem_entered_of_feeds empty (List.mem_cons_of_mem _ (ih through)) link passes

open Classical in
include sound source in
theorem count_found (empty : s.stack = []) (stops : v ∉ doc.passThroughIds r) :
    s.found.count v = doc.links.countP fun link => decide (doc.Brings r u v link) := by
  have whole := sound.counts v stops
  rw [empty, List.count_nil, Nat.add_zero] at whole
  simp only [count_dataTargets] at whole
  rw [whole, sum_countP_eq doc.links _ Link.origin (sound.sources_distinct source)]
  refine List.countP_congr fun link _ => ?_
  simp only [Bool.and_eq_true, Bool.not_eq_true', List.contains_iff_mem, beq_iff_eq, List.mem_cons,
    sound.mem_entered_iff empty, decide_eq_true_eq]
  constructor
  · rintro ⟨⟨⟨⟨data, origin⟩, target⟩, enters⟩, leaves⟩
    exact ⟨data, origin, target, enters, leaves⟩
  · rintro ⟨data, origin, target, enters, leaves⟩
    exact ⟨⟨⟨⟨data, origin⟩, target⟩, enters⟩, leaves⟩

end SearchSound

theorem mem_passThroughIds_iff (distinct : doc.nodeIds.Nodup) {node : Node} (member : node ∈ doc.nodes) :
    node.id ∈ doc.passThroughIds r ↔ r.isPassThrough node.type := by
  constructor
  · intro listed
    obtain ⟨other, inside, same⟩ := List.mem_map.1 listed
    obtain ⟨there, passes⟩ := List.mem_filter.1 inside
    rwa [List.inj_on_of_nodup_map distinct there member same] at passes
  · exact fun passes => List.mem_map_of_mem (List.mem_filter.2 ⟨member, passes⟩)

theorem lookup_feeds_eq (doc : Document) (r : Registry) (u : NodeId) :
    (doc.feeds r).lookup u =
      if u ∈ doc.orderCandidates r then some (doc.reachableSuccessors r u) else none := by
  split
  · next candidate => exact lookup_feeds _ (List.mem_eraseDups.2 candidate)
  · next other =>
    rw [List.lookup_eq_none_iff]
    intro entry listed
    obtain ⟨id, candidate, rfl⟩ := List.mem_map.1 listed
    rw [bne_iff_ne]
    rintro rfl
    exact other (List.mem_eraseDups.1 candidate)

open Classical in
/-- Each node but the pass-through nodes is listed with what it feeds, and every node stands there as often as links
bring it. A search enters a pass-through node once at most, takes no more turns than there are links, and comes to the
same end from wherever it is. -/
theorem reachableSuccessors_counted (doc : Document) (r : Registry) (distinct : doc.nodeIds.Nodup) :
    (∀ node ∈ doc.nodes, (doc.feeds r).lookup node.id =
      if r.isPassThrough node.type then none else some (doc.reachableSuccessors r node.id)) ∧
    ∀ u ∈ doc.nodes, r.isPassThrough u.type = false →
      (∀ v ∈ doc.nodes, (doc.reachableSuccessors r u.id).count v.id =
        if r.isPassThrough v.type then 0 else doc.links.countP fun link => decide (doc.Brings r u.id v.id link)) ∧
      (∀ id ∈ doc.reachableSuccessors r u.id, id ∈ doc.nodeIds) ∧
      ∀ s, doc.Searches r (doc.searchStart u.id) s →
        s.entered.Nodup ∧ (∀ id ∈ s.entered, id ∈ doc.passThroughIds r) ∧ s.turns ≤ doc.links.length ∧
          ∃ last, doc.Searches r s last ∧ last.stack = [] ∧ last.found = doc.reachableSuccessors r u.id := by
  refine ⟨fun node member => ?_, fun u memberU plain => ⟨fun v memberV => ?_, fun id found => ?_, fun s run => ?_⟩⟩
  · have candidate : node.id ∈ doc.orderCandidates r ↔ ¬ r.isPassThrough node.type = true := by
      rw [mem_orderCandidates_iff, mem_passThroughIds_iff distinct member]
      exact and_iff_right (List.mem_map_of_mem member)
    rw [lookup_feeds_eq, if_congr candidate rfl rfl, ite_not]
  all_goals
    have source : u.id ∉ doc.passThroughIds r := by
      rw [mem_passThroughIds_iff distinct memberU, plain]
      exact Bool.false_ne_true
  · split
    · next passes =>
      refine List.count_eq_zero.2 fun found => ?_
      exact (mem_reachableSuccessors_iff.1 found).2 ((mem_passThroughIds_iff distinct memberV).2 passes)
    · next stops =>
      obtain ⟨last, run, empty⟩ := doc.exists_end r (doc.searchStart u.id)
      rw [← found_of_end run empty]
      exact run.sound.count_found source empty (mt (mem_passThroughIds_iff distinct memberV).1 stops)
  · exact (mem_reachableSuccessors_iff.1 found).1.mem_nodeIds.2
  · have sound := run.sound
    obtain ⟨last, rest, empty⟩ := doc.exists_end r s
    exact ⟨sound.distinct, sound.passes, sound.turns_le source, last, rest, empty,
      found_of_end (run.trans rest) empty⟩

-- A loader that feeds a saver directly and through two reroutes in a circle.
def reroutedTwice : Document :=
  let data (id : LinkId) (origin target : Int64) (slot : Word) : Link :=
    ⟨id, .number origin, 0, .number target, slot, "IMAGE"⟩
  { empty with
    nodes := [.plain (.number 1) "Load", .plain (.number 2) "Reroute", .plain (.number 3) "Reroute",
      .plain (.number 4) "Save"]
    links := [data 1 1 2 0, data 2 1 4 0, data 3 2 3 0, data 4 3 2 0, data 5 2 4 1, data 6 2 4 2, data 7 3 4 3,
      data 8 1 2 0] }

open Classical in
theorem reachableSuccessors_counted_circling : reroutedTwice.nodeIds.Nodup ∧
    Registry.standard.isPassThrough "Load" = false ∧
    (reroutedTwice.feeds .standard).lookup (.number 2) = none ∧
    reroutedTwice.reachableSuccessors .standard (.number 1) = List.replicate 4 (.number 4) ∧
    (reroutedTwice.links.countP fun link =>
      decide (reroutedTwice.Brings .standard (.number 1) (.number 4) link)) = 4 := by
  have distinct : reroutedTwice.nodeIds.Nodup := by decide
  have plain : Registry.standard.isPassThrough "Load" = false := by decide +kernel
  have found : reroutedTwice.reachableSuccessors .standard (.number 1) = List.replicate 4 (.number 4) := by
    have passes : reroutedTwice.passThroughIds .standard = [.number 2, .number 3] := by decide +kernel
    have loader : reroutedTwice.dataTargets (.number 1) = [.number 2, .number 4, .number 2] := by decide +kernel
    have first : reroutedTwice.dataTargets (.number 2) = [.number 3, .number 4, .number 4] := by decide +kernel
    have second : reroutedTwice.dataTargets (.number 3) = [.number 2, .number 4] := by decide +kernel
    simp [reachableSuccessors, passes, loader, first, second, reachFrom, without, List.replicate_succ]
  obtain ⟨listed, each⟩ := reachableSuccessors_counted reroutedTwice .standard distinct
  have reroute := listed (.plain (.number 2) "Reroute") (by decide)
  have count := (each (.plain (.number 1) "Load") (by decide) plain).1 (.plain (.number 4) "Save") (by decide)
  refine ⟨distinct, plain, reroute.trans (if_pos (by decide +kernel)), found, ?_⟩
  rw [if_neg (by decide +kernel)] at count
  exact count.symm.trans (congrArg (List.count (NodeId.number 4)) found)

end Document
end Patchbay
