import Patchbay.Proofs.Sequencing.LastNode
import Patchbay.Proofs.Sequencing.Slots

/-!
Adding stored sequencing links one after the other. A link is refused with an error, left out because
one of its slots is taken, or hung into both slots; what a run has hung in can be run again from the
same start and is hung in just so.
-/
set_option autoImplicit false

namespace Patchbay

attribute [ext] Weave

namespace Weave

-- A stored link names slots that are there.
structure Fits (counts : NodeId → Nat × Nat) (w : Weave) (flow : FlowLink) : Prop where
  origin : (findLast? w.nodes flow.origin).isSome
  target : (findLast? w.nodes flow.target).isSome
  originSlot : flow.originSlot.toNat < (counts flow.origin).2
  targetSlot : flow.targetSlot.toNat < (counts flow.target).1

def blocked (w : Weave) (flow : FlowLink) : Bool :=
  w.outputTaken flow.origin flow.originSlot || w.inputTaken flow.target flow.targetSlot

def holds (w : Weave) (id : LinkId) : Bool := w.links.any (·.id == id)

def linkFor (w : Weave) (flow : FlowLink) : Link :=
  { flow.toLink with id := if w.holds flow.id then w.next else flow.id }

def accept (w : Weave) (flow : FlowLink) : Weave :=
  { w.connect (w.linkFor flow) with
    next := if w.holds flow.id then w.next.raise 1 else max w.next (flow.id.raise 1) }

theorem add_eq_ok_iff (counts : NodeId → Nat × Nat) (w next : Weave) (flow : FlowLink) :
    w.add counts flow = .ok next ↔
      w.Fits counts flow ∧ next = if w.blocked flow then w else w.accept flow := by
  unfold add
  by_cases missing : (findLast? w.nodes flow.origin).isNone || (findLast? w.nodes flow.target).isNone
  · rw [if_pos missing]
    constructor
    · intro run
      cases run
    · intro fits
      rw [Bool.or_eq_true, Option.isNone_iff_eq_none, Option.isNone_iff_eq_none] at missing
      rcases missing with noOrigin | noTarget
      · have origin := fits.1.origin
        rw [noOrigin] at origin
        cases origin
      · have target := fits.1.target
        rw [noTarget] at target
        cases target
  · rw [if_neg missing]
    simp only [Bool.or_eq_true, not_or, Bool.not_eq_true] at missing
    by_cases outside : (counts flow.origin).2 ≤ flow.originSlot.toNat ∨
        (counts flow.target).1 ≤ flow.targetSlot.toNat
    · rw [if_pos (by simpa using outside)]
      constructor
      · intro run
        cases run
      · intro fits
        have origin := fits.1.originSlot
        have target := fits.1.targetSlot
        omega
    · rw [if_neg (by simpa using outside)]
      have fits : w.Fits counts flow := by
        refine ⟨?_, ?_, by omega, by omega⟩
        · rw [← Option.not_isNone, missing.1]
          rfl
        · rw [← Option.not_isNone, missing.2]
          rfl
      simp only [fits, true_and]
      by_cases taken : w.blocked flow
      · rw [if_pos taken, if_pos (by simpa [blocked] using taken)]
        simp [eq_comm]
      · rw [if_neg taken, if_neg (by simpa [blocked] using taken)]
        by_cases used : w.holds flow.id
        · rw [if_pos (by simpa [holds] using used)]
          simp [accept, linkFor, used, eq_comm]
        · have link : w.linkFor flow = flow.toLink := by
            rw [linkFor, if_neg used]
            rfl
          rw [if_neg (by simpa [holds] using used), accept, link, if_neg used]
          simp [eq_comm]

/-! ### The counter -/

def Counted (w : Weave) : Prop := ∀ link ∈ w.links, link.id.raise 1 ≤ w.next

theorem next_le_accept (w : Weave) (flow : FlowLink) : w.next ≤ (w.accept flow).next := by
  unfold accept
  by_cases used : w.holds flow.id
  · rw [if_pos used]
    exact Word.le_raise w.next 1
  · rw [if_neg used]
    exact Word.le_max_left w.next (flow.id.raise 1)

theorem linkFor_raise_le (w : Weave) (flow : FlowLink) :
    (w.linkFor flow).id.raise 1 ≤ (w.accept flow).next := by
  unfold linkFor accept
  by_cases used : w.holds flow.id
  · rw [if_pos used, if_pos used]
    exact UInt64.le_refl _
  · rw [if_neg used, if_neg used]
    exact Word.le_max_right w.next (flow.id.raise 1)

theorem accept_links (w : Weave) (flow : FlowLink) : (w.accept flow).links = w.links ++ [w.linkFor flow] := rfl

theorem accept_counted (w : Weave) (flow : FlowLink) (counted : w.Counted) : (w.accept flow).Counted := by
  intro link member
  rw [accept_links, List.mem_append, List.mem_singleton] at member
  rcases member with old | fresh
  · exact UInt64.le_trans (counted link old) (w.next_le_accept flow)
  · rw [fresh]
    exact w.linkFor_raise_le flow

-- A fresh id that is in use already stands at the top, and so does the counter from then on.
theorem top_of_linkFor_held (w : Weave) (flow : FlowLink) (counted : w.Counted)
    (held : w.holds (w.linkFor flow).id) : (w.linkFor flow).id = Word.top ∧ (w.accept flow).next = Word.top := by
  by_cases used : w.holds flow.id
  · simp only [linkFor, accept, used, if_true] at held ⊢
    obtain ⟨link, member, same⟩ := List.any_eq_true.1 held
    have same : link.id = w.next := by simpa using same
    have top : w.next = Word.top := Word.eq_top_of_raise_le (same ▸ counted link member)
    rw [top, Word.raise_top]
    exact ⟨rfl, rfl⟩
  · simp only [linkFor, used] at held
    exact absurd held used

theorem accept_distinct (w : Weave) (flow : FlowLink) (counted : w.Counted)
    (distinct : (w.links.map (·.id)).Nodup) (below : (w.linkFor flow).id ≠ Word.top) :
    ((w.accept flow).links.map (·.id)).Nodup := by
  have fresh : (w.linkFor flow).id ∉ w.links.map (·.id) := by
    intro used
    obtain ⟨link, member, same⟩ := List.mem_map.1 used
    have held : w.holds (w.linkFor flow).id := List.any_eq_true.2 ⟨link, member, beq_iff_eq.2 same⟩
    exact below (w.top_of_linkFor_held flow counted held).1
  rw [accept_links, List.map_append, List.nodup_append]
  refine ⟨distinct, List.nodup_cons.2 ⟨List.not_mem_nil, List.nodup_nil⟩, ?_⟩
  intro id old other new same
  rw [List.map_cons, List.map_nil, List.mem_singleton] at new
  rw [same, new] at old
  exact fresh old

/-! ### Hanging a link in -/

theorem accept_nodes (w : Weave) (flow : FlowLink) :
    (w.accept flow).nodes =
      updateLast flow.target (·.hangTarget (w.linkFor flow))
        (updateLast flow.origin (·.hangOrigin (w.linkFor flow)) w.nodes) := rfl

theorem shiftsOf_eq_of_reset {a b : List Node} (same : a.map (·.reset) = b.map (·.reset)) :
    shiftsOf (·.leadingCounts) a = shiftsOf (·.leadingCounts) b := by
  funext id
  have alike := congrArg (Option.map (·.leadingCounts))
    (findLast?_view (·.reset) (·.id) Node.reset_id same id)
  simp only [Option.map_map, Function.comp_def, Node.reset_leadingCounts] at alike
  rw [shiftsOf, shiftsOf, alike]

theorem shiftsOf_of_findLast? {nodes : List Node} {id : NodeId} {node : Node}
    (found : findLast? nodes id = some node) : shiftsOf (·.leadingCounts) nodes id = node.leadingCounts := by
  rw [shiftsOf, found]
  rfl

theorem accept_reset (w : Weave) (flow : FlowLink)
    (fits : w.Fits (shiftsOf (·.leadingCounts) w.nodes) flow) :
    (w.accept flow).nodes.map (·.reset) = w.nodes.map (·.reset) := by
  have origin : (updateLast flow.origin (·.hangOrigin (w.linkFor flow)) w.nodes).map (·.reset) =
      w.nodes.map (·.reset) := by
    apply updateLast_map_view
    intro node found
    have inside := fits.originSlot
    rw [shiftsOf_of_findLast? found] at inside
    exact node.reset_hangOrigin _ inside
  rw [accept_nodes, ← origin]
  apply updateLast_map_view
  intro node found
  have inside := fits.targetSlot
  rw [← shiftsOf_eq_of_reset origin, shiftsOf_of_findLast? found] at inside
  exact node.reset_hangTarget _ inside

theorem accept_stored (w : Weave) (flow : FlowLink) :
    (w.accept flow).nodes.map (fun node => (node.flowInputs, node.flowOutputs)) =
      w.nodes.map fun node => (node.flowInputs, node.flowOutputs) := by
  rw [accept_nodes, updateLast_map_view, updateLast_map_view]
  · exact fun _ _ => rfl
  · exact fun _ _ => rfl

/-! ### Whole runs -/

theorem accept_ids (w : Weave) (flow : FlowLink) : (w.accept flow).nodes.map (·.id) = w.nodes.map (·.id) := by
  rw [accept_nodes, updateLast_map_view, updateLast_map_view]
  · exact fun _ _ => rfl
  · exact fun _ _ => rfl

theorem fits_accept (counts : NodeId → Nat × Nat) (w : Weave) (flow other : FlowLink) :
    (w.accept flow).Fits counts other ↔ w.Fits counts other := by
  have known : ∀ id, (findLast? (w.accept flow).nodes id).isSome = (findLast? w.nodes id).isSome := by
    intro id
    have same := congrArg Option.isSome (findLast?_view (·.id) (fun own => own) (fun _ => rfl) (w.accept_ids flow) id)
    simpa only [Option.isSome_map] using same
  constructor
  · intro fits
    exact ⟨known _ ▸ fits.origin, known _ ▸ fits.target, fits.originSlot, fits.targetSlot⟩
  · intro fits
    exact ⟨(known _).symm ▸ fits.origin, (known _).symm ▸ fits.target, fits.originSlot, fits.targetSlot⟩

/-- A run fails at the first link that does not fit, and on nothing else. -/
theorem foldlM_add_ok_iff (counts : NodeId → Nat × Nat) (flows : List FlowLink) (w : Weave) :
    (∃ final, flows.foldlM (Weave.add counts) w = .ok final) ↔ ∀ flow ∈ flows, w.Fits counts flow := by
  induction flows generalizing w with
  | nil => exact ⟨fun _ _ member => absurd member List.not_mem_nil, fun _ => ⟨w, rfl⟩⟩
  | cons flow rest ih =>
    rw [List.forall_mem_cons, List.foldlM_cons]
    constructor
    · intro ⟨final, run⟩
      cases step : w.add counts flow with
      | error cause =>
        rw [step] at run
        cases run
      | ok next =>
        rw [step] at run
        obtain ⟨fits, rfl⟩ := (add_eq_ok_iff counts w next flow).1 step
        have later := (ih _).1 ⟨final, run⟩
        refine ⟨fits, fun other member => ?_⟩
        by_cases taken : w.blocked flow
        · rw [if_pos taken] at later
          exact later other member
        · rw [if_neg taken] at later
          exact (fits_accept counts w flow other).1 (later other member)
    · intro ⟨fits, later⟩
      rw [(add_eq_ok_iff counts w _ flow).2 ⟨fits, rfl⟩]
      apply (ih _).2
      intro other member
      by_cases taken : w.blocked flow
      · rw [if_pos taken]
        exact later other member
      · rw [if_neg taken]
        exact (fits_accept counts w flow other).2 (later other member)

/-- What each link keeps, whether it is left out or hung in, is kept by a run. -/
theorem run_keeps {counts : NodeId → Nat × Nat} {P : List FlowLink → Weave → Prop}
    (leave : ∀ flow rest w, w.Fits counts flow → w.blocked flow = true → P (flow :: rest) w → P rest w)
    (hang : ∀ flow rest w, w.Fits counts flow → w.blocked flow = false → P (flow :: rest) w → P rest (w.accept flow))
    {flows : List FlowLink} {w final : Weave} (start : P flows w)
    (run : flows.foldlM (Weave.add counts) w = .ok final) : P [] final := by
  induction flows generalizing w with
  | nil =>
    cases run
    exact start
  | cons flow rest ih =>
    rw [List.foldlM_cons] at run
    cases step : w.add counts flow with
    | error cause =>
      rw [step] at run
      cases run
    | ok next =>
      rw [step] at run
      obtain ⟨fits, rfl⟩ := (add_eq_ok_iff counts w next flow).1 step
      by_cases taken : w.blocked flow
      · rw [if_pos taken] at run
        exact ih (leave flow rest w fits taken start) run
      · rw [if_neg taken] at run
        exact ih (hang flow rest w fits (by simpa using taken) start) run

theorem links_foldlM (counts : NodeId → Nat × Nat) (flows : List FlowLink) (w final : Weave)
    (run : flows.foldlM (Weave.add counts) w = .ok final) :
    ∃ added, final.links = w.links ++ added ∧ added.length ≤ flows.length := by
  refine run_keeps (P := fun rest v => ∃ added, v.links = w.links ++ added ∧ added.length + rest.length ≤ flows.length)
    ?_ ?_ ⟨[], (List.append_nil _).symm, by simp⟩ run
  · rintro flow rest v _ _ ⟨added, links, short⟩
    exact ⟨added, links, Nat.le_of_succ_le short⟩
  · rintro flow rest v _ _ ⟨added, links, short⟩
    refine ⟨added ++ [v.linkFor flow], by rw [accept_links, links, List.append_assoc], ?_⟩
    rw [List.length_cons] at short
    rw [List.length_append, List.length_singleton]
    omega

/-! ### Running again what was hung in -/

theorem toLink_toFlowLink (link : Link) (flow : link.isFlow = true) : link.toFlowLink.toLink = link := by
  have type : link.type = flowType := by simpa [Link.isFlow] using flow
  cases link
  cases type
  rfl

theorem linkFor_isFlow (w : Weave) (flow : FlowLink) : (w.linkFor flow).isFlow = true := by
  simp [linkFor, FlowLink.toLink, Link.isFlow]

def countFrom (w : Weave) (next : LinkId) : Weave := { w with next := next }

section Replay

variable (w : Weave) (flow : FlowLink) (last : LinkId) (counted : w.Counted)
  (later : (w.accept flow).next ≤ last)

theorem holds_countFrom :
    (w.countFrom last).holds (w.linkFor flow).toFlowLink.id = w.holds (w.linkFor flow).id := rfl

include counted later in
-- The counter already stands above the id, so the id is kept, unless both stand at the top.
theorem linkFor_again : (w.countFrom last).linkFor (w.linkFor flow).toFlowLink = w.linkFor flow := by
  have same := toLink_toFlowLink (w.linkFor flow) (w.linkFor_isFlow flow)
  rw [linkFor, same, holds_countFrom]
  by_cases held : w.holds (w.linkFor flow).id
  · obtain ⟨atTop, next⟩ := w.top_of_linkFor_held flow counted held
    have lastTop : last = Word.top := Word.eq_top_of_top_le (next ▸ later)
    rw [if_pos held, countFrom, lastTop, ← atTop]
  · rw [if_neg held]
    rfl

include counted later in
theorem next_again : ((w.countFrom last).accept (w.linkFor flow).toFlowLink).next = last := by
  unfold accept
  rw [holds_countFrom]
  by_cases held : w.holds (w.linkFor flow).id
  · obtain ⟨_, next⟩ := w.top_of_linkFor_held flow counted held
    have lastTop : last = Word.top := Word.eq_top_of_top_le (next ▸ later)
    rw [if_pos held, countFrom, lastTop, Word.raise_top]
  · have above := UInt64.le_trans (w.linkFor_raise_le flow) later
    rw [if_neg held, ← UInt64.toNat_inj, Word.toNat_max]
    rw [UInt64.le_iff_toNat_le] at above
    simp only [countFrom, Link.toFlowLink]
    omega

include counted later in
theorem accept_again :
    (w.countFrom last).accept (w.linkFor flow).toFlowLink = (w.accept flow).countFrom last := by
  have parts : ∀ v : Weave, v.accept (w.linkFor flow).toFlowLink =
      (v.connect (v.linkFor (w.linkFor flow).toFlowLink)).countFrom
        (v.accept (w.linkFor flow).toFlowLink).next := fun _ => rfl
  rw [parts, linkFor_again w flow last counted later, next_again w flow last counted later]
  rfl

include counted later in
theorem add_again (counts : NodeId → Nat × Nat) (fits : w.Fits counts flow) (free : w.blocked flow = false) :
    (w.countFrom last).add counts (w.linkFor flow).toFlowLink = .ok ((w.accept flow).countFrom last) := by
  have stillFree : (w.countFrom last).blocked (w.linkFor flow).toFlowLink = false := free
  rw [add_eq_ok_iff, stillFree, accept_again w flow last counted later]
  exact ⟨⟨fits.origin, fits.target, fits.originSlot, fits.targetSlot⟩, rfl⟩

end Replay

-- What a run leaves behind, told without the stored links that it started from.
structure Ran (counts : NodeId → Nat × Nat) (w final : Weave) (added : List Link) : Prop where
  links : final.links = w.links ++ added
  flow : ∀ link ∈ added, link.isFlow = true
  counted : final.Counted
  distinct : (w.links.map (·.id)).Nodup → (∀ link ∈ added, link.id ≠ Word.top) →
    (final.links.map (·.id)).Nodup
  next : w.next ≤ final.next
  reset : final.nodes.map (·.reset) = w.nodes.map (·.reset)
  stored : final.nodes.map (fun node => (node.flowInputs, node.flowOutputs)) =
    w.nodes.map fun node => (node.flowInputs, node.flowOutputs)
  replay : (added.map (·.toFlowLink)).foldlM (Weave.add counts) (w.countFrom final.next) = .ok final

theorem ran_of_foldlM (counts : NodeId → Nat × Nat) (flows : List FlowLink) (w final : Weave)
    (counted : w.Counted) (fitting : counts = shiftsOf (·.leadingCounts) w.nodes)
    (run : flows.foldlM (Weave.add counts) w = .ok final) : ∃ added, Ran counts w final added := by
  induction flows generalizing w with
  | nil =>
    cases run
    exact ⟨[], (List.append_nil _).symm, by simp, counted, fun distinct _ => distinct, UInt64.le_refl _, rfl,
      rfl, rfl⟩
  | cons flow rest ih =>
    rw [List.foldlM_cons] at run
    cases step : w.add counts flow with
    | error cause =>
      rw [step] at run
      cases run
    | ok next =>
      rw [step] at run
      obtain ⟨fits, rfl⟩ := (add_eq_ok_iff counts w next flow).1 step
      by_cases taken : w.blocked flow
      · rw [if_pos taken] at run
        exact ih w counted fitting run
      · rw [if_neg taken] at run
        have reset := w.accept_reset flow (fitting ▸ fits)
        obtain ⟨added, ran⟩ := ih (w.accept flow) (w.accept_counted flow counted)
          (fitting.trans (shiftsOf_eq_of_reset reset).symm) run
        refine ⟨w.linkFor flow :: added, ?_, ?_, ran.counted, ?_, ?_, ran.reset.trans reset,
          ran.stored.trans (w.accept_stored flow), ?_⟩
        · rw [ran.links, accept_links, List.append_assoc]
          rfl
        · intro link member
          rcases List.mem_cons.1 member with rfl | later
          · exact w.linkFor_isFlow flow
          · exact ran.flow link later
        · intro distinct below
          have first := w.accept_distinct flow counted distinct (below _ List.mem_cons_self)
          exact ran.distinct first fun link member => below link (List.mem_cons_of_mem _ member)
        · exact UInt64.le_trans (w.next_le_accept flow) ran.next
        · rw [List.map_cons, List.foldlM_cons,
            add_again w flow final.next counted ran.next counts fits (by simpa using taken)]
          exact ran.replay

end Weave
end Patchbay
