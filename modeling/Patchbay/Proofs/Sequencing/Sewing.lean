import Patchbay.Proofs.Graph.Nodes
import Patchbay.Proofs.Sequencing.RoundTrip

/-!
Slots and links while stored sequencing links are added. They agree after every link, no two links share a
sequencing slot, and a stored link is left out only where an earlier one holds one of its slots.
-/
set_option autoImplicit false

namespace Patchbay

section Lists

variable {α : Type} {p : α → Bool} {xs : List α} {i : Nat}

theorem getElem?_of_lt_takeWhile (inside : i < (xs.takeWhile p).length) : ∃ x, xs[i]? = some x ∧ p x = true := by
  refine ⟨(xs.takeWhile p)[i], ?_, List.all_eq_true.1 List.all_takeWhile _ (List.getElem_mem inside)⟩
  exact List.prefix_iff_getElem?.1 (List.takeWhile_prefix p) i inside

theorem lt_takeWhile_of_count (count : (xs.takeWhile p).length = xs.countP p) {x : α} (found : xs[i]? = some x)
    (hit : p x = true) : i < (xs.takeWhile p).length := by
  by_contra beyond
  have inside : x ∈ xs.dropWhile p := by
    rw [← drop_length_takeWhile]
    apply List.mem_of_getElem? (i := i - (xs.takeWhile p).length)
    rw [List.getElem?_drop, Nat.add_sub_cancel' (Nat.le_of_not_lt beyond)]
    exact found
  rw [dropWhile_none_of_count p xs count x inside] at hit
  cases hit

end Lists

/-! ### Sequencing slots by their numbers -/

section Counts

variable {nodes : List Node} {id : NodeId} {slot : Nat}

theorem flowOutput_of_lt (inside : slot < (shiftsOf (·.leadingCounts) nodes id).2) :
    ∃ node ∈ nodes, node.id = id ∧ ∃ output, node.outputs[slot]? = some output ∧ output.isFlow = true := by
  cases found : findLast? nodes id with
  | none =>
    rw [shiftsOf, found] at inside
    cases inside
  | some node =>
    rw [Weave.shiftsOf_of_findLast? found] at inside
    exact ⟨node, mem_of_findLast? found, id_of_findLast? found, getElem?_of_lt_takeWhile inside⟩

theorem flowInput_of_lt (inside : slot < (shiftsOf (·.leadingCounts) nodes id).1) :
    ∃ node ∈ nodes, node.id = id ∧ ∃ input, node.inputs[slot]? = some input ∧ input.isFlow = true := by
  cases found : findLast? nodes id with
  | none =>
    rw [shiftsOf, found] at inside
    cases inside
  | some node =>
    rw [Weave.shiftsOf_of_findLast? found] at inside
    exact ⟨node, mem_of_findLast? found, id_of_findLast? found, getElem?_of_lt_takeWhile inside⟩

variable (distinct : (nodes.map (·.id)).Nodup) {node : Node} (member : node ∈ nodes)
variable (lead : node.flowSlotsLead = true)

include distinct member lead in
theorem lt_of_flowOutput {output : OutputSlot} (found : node.outputs[slot]? = some output)
    (flow : output.isFlow = true) : slot < (shiftsOf (·.leadingCounts) nodes node.id).2 := by
  rw [Node.flowSlotsLead, Bool.and_eq_true, beq_iff_eq, beq_iff_eq] at lead
  rw [Weave.shiftsOf_of_findLast? (findLast?_of_nodup distinct member)]
  exact lt_takeWhile_of_count lead.2 found flow

include distinct member lead in
theorem lt_of_flowInput {input : InputSlot} (found : node.inputs[slot]? = some input)
    (flow : input.isFlow = true) : slot < (shiftsOf (·.leadingCounts) nodes node.id).1 := by
  rw [Node.flowSlotsLead, Bool.and_eq_true, beq_iff_eq, beq_iff_eq] at lead
  rw [Weave.shiftsOf_of_findLast? (findLast?_of_nodup distinct member)]
  exact lt_takeWhile_of_count lead.1 found flow

end Counts

namespace Weave

def graph (w : Weave) : Graph := ⟨w.nodes, w.links, w.next⟩

theorem attachOnce_of_absent {slot : OutputSlot} {id : LinkId} (absent : id ∉ slot.linkIds) :
    slot.attachOnce id = slot.attach id := by
  rw [OutputSlot.attachOnce, if_neg]
  simpa using absent

section Accept

variable {w : Weave} {flow : FlowLink} (wired : w.graph.Wired) (fresh : w.holds (w.linkFor flow).id = false)

include wired fresh in
-- Hanging a link with an id of its own into both slots is what putting it into the graph does.
theorem graph_accept : (w.accept flow).graph = w.graph.insertLink (w.linkFor flow) := by
  have unused : ∀ link ∈ w.links, link.id ≠ (w.linkFor flow).id := by
    simpa [holds] using fresh
  have absent : w.graph.link? (w.linkFor flow).id = none := by
    rw [Graph.link?, List.find?_eq_none]
    intro link member
    simpa using unused link member
  have nodes : (w.accept flow).nodes =
      w.nodes.map (·.rewire (w.linkFor flow) (.holding (w.linkFor flow).id) (.attachOnce (w.linkFor flow).id)) := by
    have distinct : (w.nodes.map (·.id)).Nodup := wired.nodeIds
    have middle : ((updateLast flow.origin (·.hangOrigin (w.linkFor flow)) w.nodes).map (·.id)).Nodup := by
      rw [updateLast_map_view (·.id)]
      · exact distinct
      · exact fun _ _ => rfl
    rw [accept_nodes, updateLast_of_nodup _ _ _ middle, updateLast_of_nodup _ _ _ distinct, List.map_map]
    apply List.map_congr_left
    intro node member
    have outputs : node.outputs.modify (w.linkFor flow).originSlot.toNat (.attachOnce (w.linkFor flow).id) =
        node.outputs.modify (w.linkFor flow).originSlot.toNat (·.attach (w.linkFor flow).id) := by
      apply List.ext_getElem?
      intro i
      rw [List.getElem?_modify, List.getElem?_modify]
      cases found : node.outputs[i]? with
      | none => rfl
      | some output =>
        have there := (Graph.outputAt?_eq_some_iff wired.nodeIds node.id i output).2 ⟨node, member, rfl, found⟩
        have free : (w.linkFor flow).id ∉ output.linkIds :=
          wired.output_absent there fun link inside same _ => unused link inside same
        simp [attachOnce_of_absent free]
    have origin : (w.linkFor flow).origin = flow.origin := rfl
    have target : (w.linkFor flow).target = flow.target := rfl
    simp only [Function.comp, Node.rewire, outputs, origin, target]
    by_cases leaves : node.id = flow.origin
    · by_cases enters : node.id = flow.target
      · simp only [Node.hangOrigin, if_pos leaves, if_pos enters]
        rfl
      · simp only [Node.hangOrigin, if_pos leaves, if_neg enters]
    · by_cases enters : node.id = flow.target
      · simp only [if_neg leaves, if_pos enters]
        rfl
      · simp only [if_neg leaves, if_neg enters]
  have next : (w.accept flow).next = max w.next ((w.linkFor flow).id.raise 1) := by
    rw [accept, linkFor]
    by_cases used : w.holds flow.id
    · simp only [if_pos used]
      apply UInt64.le_antisymm
      · exact Word.le_max_right _ _
      · have above := UInt64.le_iff_toNat_le.1 (Word.le_raise w.next 1)
        rw [UInt64.le_iff_toNat_le, Word.toNat_max]
        omega
    · simp only [if_neg used]
  have same : w.graph.insertLink (w.linkFor flow) =
      { w.graph.rewire (w.linkFor flow) (.holding (w.linkFor flow).id) (.attachOnce (w.linkFor flow).id) with
        links := putLink (w.linkFor flow) w.links
        nextLinkId := max w.next ((w.linkFor flow).id.raise 1) } := by
    rw [Graph.insertLink_eq, Graph.release, absent]
    rfl
  rw [same, putLink_of_fresh _ _ unused, graph, nodes, next, accept_links]
  rfl

variable (fits : w.Fits (shiftsOf (·.leadingCounts) w.nodes) flow)

include wired fits in
theorem origin_vacant (free : w.outputTaken flow.origin flow.originSlot = false) :
    ∀ link ∈ w.links, ¬ link.leavesAt flow.origin flow.originSlot.toNat := by
  intro link member leaves
  obtain ⟨node, inside, same, output, found, _⟩ := flowOutput_of_lt fits.originSlot
  have last : findLast? w.nodes flow.origin = some node := same ▸ findLast?_of_nodup wired.nodeIds inside
  have there := (Graph.outputAt?_eq_some_iff wired.nodeIds flow.origin _ output).2 ⟨node, inside, same, found⟩
  have held := ((wired.outputs _ _ output there).2 link.id).2 ⟨link, member, rfl, leaves⟩
  rw [outputTaken, last, Option.bind_some, found, Option.any_some] at free
  simp only [Bool.not_eq_false', List.isEmpty_iff] at free
  rw [free] at held
  cases held

include wired fits in
theorem target_vacant (free : w.inputTaken flow.target flow.targetSlot = false) :
    ∀ link ∈ w.links, ¬ link.entersAt flow.target flow.targetSlot.toNat := by
  intro link member enters
  obtain ⟨node, inside, same, input, found, _⟩ := flowInput_of_lt fits.targetSlot
  have last : findLast? w.nodes flow.target = some node := same ▸ findLast?_of_nodup wired.nodeIds inside
  have there := (Graph.inputAt?_eq_some_iff wired.nodeIds flow.target _ input).2 ⟨node, inside, same, found⟩
  have held := (wired.inputs _ _ input there link.id).2 ⟨link, member, rfl, enters⟩
  rw [inputTaken, last, Option.bind_some, found, Option.any_some, held] at free
  cases free

include wired in
theorem origin_held (taken : w.outputTaken flow.origin flow.originSlot = true) :
    ∃ link ∈ w.links, link.leavesAt flow.origin flow.originSlot.toNat := by
  rw [outputTaken, Option.any_eq_true] at taken
  obtain ⟨output, slot, some⟩ := taken
  obtain ⟨node, last, found⟩ := Option.bind_eq_some_iff.1 slot
  have there := (Graph.outputAt?_eq_some_iff wired.nodeIds flow.origin _ output).2
    ⟨node, mem_of_findLast? last, id_of_findLast? last, found⟩
  obtain ⟨held, rest, ids⟩ := List.exists_cons_of_ne_nil (by simpa using some : output.linkIds ≠ [])
  have listed : held ∈ output.linkIds := by simp [ids]
  obtain ⟨link, member, _, leaves⟩ := ((wired.outputs _ _ output there).2 held).1 listed
  exact ⟨link, member, leaves⟩

include wired in
theorem target_held (taken : w.inputTaken flow.target flow.targetSlot = true) :
    ∃ link ∈ w.links, link.entersAt flow.target flow.targetSlot.toNat := by
  rw [inputTaken, Option.any_eq_true] at taken
  obtain ⟨input, slot, some⟩ := taken
  obtain ⟨node, last, found⟩ := Option.bind_eq_some_iff.1 slot
  obtain ⟨held, holds⟩ := Option.isSome_iff_exists.1 some
  have there := (Graph.inputAt?_eq_some_iff wired.nodeIds flow.target _ input).2
    ⟨node, mem_of_findLast? last, id_of_findLast? last, found⟩
  obtain ⟨link, member, _, enters⟩ := (wired.inputs _ _ input there held).1 holds
  exact ⟨link, member, enters⟩

include wired fresh fits in
theorem wired_accept (free : w.blocked flow = false) : (w.accept flow).graph.Wired := by
  rw [blocked, Bool.or_eq_false_iff] at free
  rw [graph_accept wired fresh]
  apply wired.insertLink
  intro slot input _ here other member enters
  refine absurd enters ?_
  rw [← here]
  exact target_vacant wired fits free.2 other member

end Accept

/-! ### Ids for the links to come -/

-- Every link to come gets an id of its own: there are enough new ones, or the links bring theirs.
def Roomy (w : Weave) (flows : List FlowLink) : Prop :=
  (w.next.toNat + flows.length < UInt64.size ∧ ∀ flow ∈ flows, flow.id.raise 1 ≤ w.next) ∨
    (flows.map (·.id)).Nodup ∧ ∀ flow ∈ flows, w.holds flow.id = false

section Roomy

variable {w : Weave} {flow : FlowLink} {rest : List FlowLink}

theorem Roomy.tail (roomy : w.Roomy (flow :: rest)) : w.Roomy rest := by
  rcases roomy with ⟨room, counted⟩ | ⟨distinct, free⟩
  · rw [List.length_cons] at room
    exact .inl ⟨by omega, fun later member => counted later (List.mem_cons_of_mem _ member)⟩
  · rw [List.map_cons, List.nodup_cons] at distinct
    exact .inr ⟨distinct.2, fun later member => free later (List.mem_cons_of_mem _ member)⟩

theorem Roomy.fresh (roomy : w.Roomy (flow :: rest)) (counted : w.Counted) :
    w.holds (w.linkFor flow).id = false := by
  rcases roomy with ⟨room, _⟩ | ⟨_, free⟩
  · by_contra held
    obtain ⟨top, _⟩ := w.top_of_linkFor_held flow counted (by simpa using held)
    by_cases used : w.holds flow.id
    · rw [linkFor, if_pos used] at top
      simp only at top
      rw [top, Word.toNat_top, List.length_cons] at room
      omega
    · rw [linkFor, if_neg used] at held
      exact used (by simpa using held)
  · have own := free flow List.mem_cons_self
    rw [linkFor, own, if_neg Bool.false_ne_true]
    exact own

theorem Roomy.accept (roomy : w.Roomy (flow :: rest)) : (w.accept flow).Roomy rest := by
  rcases roomy with ⟨room, counted⟩ | ⟨distinct, free⟩
  · have first := UInt64.le_iff_toNat_le.1 (counted flow List.mem_cons_self)
    rw [List.length_cons] at room
    have next : (w.accept flow).next.toNat ≤ w.next.toNat + 1 := by
      rw [Weave.accept]
      by_cases used : w.holds flow.id
      · simp only [if_pos used, Word.toNat_raise]
        omega
      · simp only [if_neg used, Word.toNat_max]
        omega
    refine .inl ⟨by omega, fun later member => ?_⟩
    exact UInt64.le_trans (counted later (List.mem_cons_of_mem _ member)) (w.next_le_accept flow)
  · rw [List.map_cons, List.nodup_cons] at distinct
    refine .inr ⟨distinct.2, fun later member => ?_⟩
    have own := free flow List.mem_cons_self
    have before := free later (List.mem_cons_of_mem _ member)
    have apart : flow.id ≠ later.id := fun same => distinct.1 (same ▸ List.mem_map_of_mem member)
    rw [holds, accept_links, List.any_append, ← holds, before, linkFor, own]
    simpa using apart

end Roomy

/-! ### The links that were added so far -/

end Weave

namespace FlowLink

/-- One of the links joins the slots that the stored link names. -/
def CarriedBy (flow : FlowLink) (links : List Link) : Prop := ∃ link ∈ links, link = { flow.toLink with id := link.id }

def SharesSlot (a b : FlowLink) : Prop :=
  (a.origin = b.origin ∧ a.originSlot = b.originSlot) ∨ (a.target = b.target ∧ a.targetSlot = b.targetSlot)

/-- A stored link that is missing shares a slot with an earlier one that is there. -/
def Settled (flows : List FlowLink) (links : List Link) : Prop :=
  ∀ earlier flow, earlier ++ [flow] <+: flows → flow.CarriedBy links ∨
    ∃ other ∈ earlier, other.CarriedBy links ∧ other.SharesSlot flow

theorem settled_nil (links : List Link) : Settled [] links := by
  intro earlier flow front
  have length := front.length_le
  simp at length

end FlowLink

namespace Weave

structure Sewn (counts : NodeId → Nat × Nat) (done : List FlowLink) (w : Weave) : Prop where
  wired : w.graph.Wired
  counted : w.Counted
  fitting : counts = shiftsOf (·.leadingCounts) w.nodes
  dataSlots : ∀ link ∈ w.links, link.isFlow = false →
    (counts link.origin).2 ≤ link.originSlot.toNat ∧ (counts link.target).1 ≤ link.targetSlot.toNat
  flowSlots : ∀ link ∈ w.links, link.isFlow = true →
    link.originSlot.toNat < (counts link.origin).2 ∧ link.targetSlot.toNat < (counts link.target).1
  stored : ∀ link ∈ w.links, link.isFlow = true → ∃ flow ∈ done, link = { flow.toLink with id := link.id }
  single : ∀ a ∈ w.links, ∀ b ∈ w.links, a.isFlow = true → b.isFlow = true →
    a.toFlowLink.SharesSlot b.toFlowLink → a = b
  settled : FlowLink.Settled done w.links

section Sewn

variable {counts : NodeId → Nat × Nat} {done : List FlowLink} {w : Weave} {flow : FlowLink}
variable (sewn : Sewn counts done w) (fits : w.Fits counts flow)

include sewn fits in
-- A slot is taken by a sequencing link, since data links go to data slots.
theorem Sewn.blocked_by (taken : w.blocked flow = true) :
    ∃ other ∈ done, other.CarriedBy w.links ∧ other.SharesSlot flow := by
  rw [blocked, Bool.or_eq_true] at taken
  rcases taken with taken | taken
  · obtain ⟨link, member, leaves⟩ := origin_held sewn.wired taken
    have sequencing : link.isFlow = true := by
      by_contra data
      have beyond := (sewn.dataSlots link member (by simpa using data)).1
      have inside := fits.originSlot
      rw [leaves.1, leaves.2] at beyond
      omega
    obtain ⟨other, listed, same⟩ := sewn.stored link member sequencing
    refine ⟨other, listed, ⟨link, member, same⟩, .inl ⟨?_, ?_⟩⟩
    · rw [← leaves.1, same]
      rfl
    · rw [← UInt64.toNat_inj, ← leaves.2, same]
      rfl
  · obtain ⟨link, member, enters⟩ := target_held sewn.wired taken
    have sequencing : link.isFlow = true := by
      by_contra data
      have beyond := (sewn.dataSlots link member (by simpa using data)).2
      have inside := fits.targetSlot
      rw [enters.1, enters.2] at beyond
      omega
    obtain ⟨other, listed, same⟩ := sewn.stored link member sequencing
    refine ⟨other, listed, ⟨link, member, same⟩, .inr ⟨?_, ?_⟩⟩
    · rw [← enters.1, same]
      rfl
    · rw [← UInt64.toNat_inj, ← enters.2, same]
      rfl

include sewn fits in
theorem Sewn.leave (taken : w.blocked flow = true) : Sewn counts (done ++ [flow]) w where
  wired := sewn.wired
  counted := sewn.counted
  fitting := sewn.fitting
  dataSlots := sewn.dataSlots
  flowSlots := sewn.flowSlots
  stored link member sequencing := by
    obtain ⟨other, listed, same⟩ := sewn.stored link member sequencing
    exact ⟨other, List.mem_append_left _ listed, same⟩
  single := sewn.single
  settled := by
    intro earlier later front
    rcases List.prefix_concat_iff.1 front with all | before
    · obtain ⟨rfl, last⟩ := List.append_inj' all rfl
      cases last
      exact .inr (sewn.blocked_by fits taken)
    · exact sewn.settled earlier later before

include sewn fits in
theorem Sewn.accept (fresh : w.holds (w.linkFor flow).id = false) (free : w.blocked flow = false) :
    Sewn counts (done ++ [flow]) (w.accept flow) := by
  have fitsNow := sewn.fitting ▸ fits
  have vacant := free
  rw [blocked, Bool.or_eq_false_iff] at vacant
  have apart : ∀ link ∈ w.links, ¬ link.toFlowLink.SharesSlot flow := by
    rintro link member (⟨origin, slot⟩ | ⟨target, slot⟩)
    · exact origin_vacant sewn.wired fitsNow vacant.1 link member ⟨origin, congrArg UInt64.toNat slot⟩
    · exact target_vacant sewn.wired fitsNow vacant.2 link member ⟨target, congrArg UInt64.toNat slot⟩
  have members : ∀ link, link ∈ (w.accept flow).links ↔ link ∈ w.links ∨ link = w.linkFor flow := by
    intro link
    rw [accept_links, List.mem_append, List.mem_singleton]
  have carried : flow.CarriedBy (w.accept flow).links := ⟨_, (members _).2 (.inr rfl), rfl⟩
  have still : ∀ other : FlowLink, other.CarriedBy w.links → other.CarriedBy (w.accept flow).links := by
    rintro other ⟨link, member, same⟩
    exact ⟨link, (members link).2 (.inl member), same⟩
  constructor
  · exact wired_accept sewn.wired fresh fitsNow free
  · exact w.accept_counted flow sewn.counted
  · rw [sewn.fitting]
    exact (shiftsOf_eq_of_reset (w.accept_reset flow fitsNow)).symm
  · intro link member data
    rcases (members link).1 member with old | rfl
    · exact sewn.dataSlots link old data
    · rw [w.linkFor_isFlow flow] at data
      cases data
  · intro link member sequencing
    rcases (members link).1 member with old | rfl
    · exact sewn.flowSlots link old sequencing
    · exact ⟨fits.originSlot, fits.targetSlot⟩
  · intro link member sequencing
    rcases (members link).1 member with old | rfl
    · obtain ⟨other, listed, same⟩ := sewn.stored link old sequencing
      exact ⟨other, List.mem_append_left _ listed, same⟩
    · exact ⟨flow, List.mem_append_right _ (List.mem_singleton_self flow), rfl⟩
  · intro a memberA b memberB flowA flowB shares
    rcases (members a).1 memberA with oldA | rfl
    · rcases (members b).1 memberB with oldB | rfl
      · exact sewn.single a oldA b oldB flowA flowB shares
      · exact absurd shares (apart a oldA)
    · rcases (members b).1 memberB with oldB | rfl
      · refine absurd ?_ (apart b oldB)
        exact shares.imp (And.imp Eq.symm Eq.symm) (And.imp Eq.symm Eq.symm)
      · rfl
  · intro earlier later front
    rcases List.prefix_concat_iff.1 front with all | before
    · obtain ⟨rfl, last⟩ := List.append_inj' all rfl
      cases last
      exact .inl carried
    · rcases sewn.settled earlier later before with there | ⟨other, listed, there, shares⟩
      · exact .inl (still later there)
      · exact .inr ⟨other, listed, still other there, shares⟩

end Sewn

theorem Sewn.run {counts : NodeId → Nat × Nat} {done rest : List FlowLink} {w final : Weave}
    (sewn : Sewn counts done w) (roomy : w.Roomy rest) (run : rest.foldlM (Weave.add counts) w = .ok final) :
    Sewn counts (done ++ rest) final := by
  have kept := run_keeps (P := fun left v => ∃ before, done ++ rest = before ++ left ∧
    Sewn counts before v ∧ v.Roomy left) ?_ ?_ ⟨done, rfl, sewn, roomy⟩ run
  · obtain ⟨before, same, sewn, _⟩ := kept
    rwa [same, List.append_nil]
  · rintro flow left v fits taken ⟨before, same, sewn, roomy⟩
    exact ⟨before ++ [flow], by rw [same, List.append_assoc]; rfl, sewn.leave fits taken, roomy.tail⟩
  · rintro flow left v fits free ⟨before, same, sewn, roomy⟩
    refine ⟨before ++ [flow], by rw [same, List.append_assoc]; rfl, ?_, roomy.accept⟩
    exact sewn.accept fits (roomy.fresh sewn.counted) free

end Weave
end Patchbay
