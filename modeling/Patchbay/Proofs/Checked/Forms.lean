import Mathlib.Data.List.Basic
import Patchbay.Proofs.Sequencing.RoundTrip

/-!
The conversions of a document with a check at each step that not every value allows: a place has to be in its list, a
slice no longer than its list, and a difference not below zero. Where a check fails there is no result. None of them
fails, whatever ids, slots and counters a document holds.
-/
set_option autoImplicit false

namespace Patchbay

/-! ### Checked steps -/

section Places

variable {α : Type}

-- The list with the entry at a place changed.
def changeAt? (change : α → Option α) (place : Nat) (list : List α) : Option (List α) :=
  match list[place]? with
  | some x => (change x).map (list.set place)
  | none => none

theorem changeAt?_eq {change : α → Option α} {result : α → α} {place : Nat} {list : List α} {x : α}
    (found : list[place]? = some x) (changed : change x = some (result x)) :
    changeAt? change place list = some (list.modify place result) := by
  rw [changeAt?, found, List.modify_eq_set_getElem?, found]
  simp [changed]

-- The first entries of the list and the others.
def split? (n : Nat) (list : List α) : Option (List α × List α) :=
  if n ≤ list.length then some (list.take n, list.drop n) else none

theorem split?_eq {n : Nat} {list : List α} (inside : n ≤ list.length) :
    split? n list = some (list.take n, list.drop n) := if_pos inside

end Places

theorem Word.lower?_eq {w : Word} {n : Nat} (room : n ≤ w.toNat) : w.lower? n = some (w.lower n) := if_pos room

/-! ### The place of a node -/

-- The last place of an id, as it is noted before the nodes are changed.
def lastPlace? (id : NodeId) : List Node → Option Nat
  | [] => none
  | node :: rest =>
    match lastPlace? id rest with
    | some place => some (place + 1)
    | none => if node.id = id then some 0 else none

theorem lastPlace?_congr {a b : List Node} (same : a.map (·.id) = b.map (·.id)) (id : NodeId) :
    lastPlace? id a = lastPlace? id b := by
  induction a generalizing b with
  | nil =>
    cases b with
    | nil => rfl
    | cons node rest => cases same
  | cons node rest ih =>
    cases b with
    | nil => cases same
    | cons other others =>
      rw [List.map_cons, List.map_cons, List.cons.injEq] at same
      rw [lastPlace?, lastPlace?, ih same.2, same.1]

theorem of_lastPlace?_eq_none {nodes : List Node} {id : NodeId} (absent : lastPlace? id nodes = none)
    (change : Node → Node) : findLast? nodes id = none ∧ updateLast id change nodes = nodes := by
  induction nodes with
  | nil => exact ⟨rfl, rfl⟩
  | cons node rest ih =>
    rw [lastPlace?] at absent
    cases later : lastPlace? id rest with
    | some place => simp [later] at absent
    | none =>
      obtain ⟨none, same⟩ := ih later
      have other : node.id ≠ id := by
        rintro rfl
        simp [later] at absent
      rw [findLast?_cons, none, if_neg other, updateLast, if_neg fun both => other both.1, same]
      exact ⟨rfl, rfl⟩

theorem of_lastPlace?_eq_some {nodes : List Node} {id : NodeId} {place : Nat} (found : lastPlace? id nodes = some place)
    (change : Node → Node) : (∃ node, nodes[place]? = some node ∧ findLast? nodes id = some node) ∧
      updateLast id change nodes = nodes.modify place change := by
  induction nodes generalizing place with
  | nil => cases found
  | cons node rest ih =>
    rw [lastPlace?] at found
    cases later : lastPlace? id rest with
    | some place' =>
      simp only [later, Option.some.injEq] at found
      obtain ⟨⟨last, there, same⟩, updated⟩ := ih later
      have again : rest.any (·.id == id) := by
        rw [← findLast?_isSome_iff, same]
        rfl
      have passed : updateLast id change (node :: rest) = node :: updateLast id change rest := by
        rw [updateLast, if_neg fun both => both.2 again]
      rw [← found, findLast?_cons, same, passed, updated]
      exact ⟨⟨last, there, rfl⟩, (List.modify_succ_cons ..).symm⟩
    | none =>
      have here : node.id = id ∧ 0 = place := by simpa [later] using found
      have absent := (of_lastPlace?_eq_none later change).1
      have single : ¬ rest.any (·.id == id) := by
        rw [← findLast?_isSome_iff, absent]
        exact Bool.false_ne_true
      rw [← here.2, findLast?_cons, absent, if_pos here.1, updateLast, if_pos ⟨here.1, single⟩]
      exact ⟨⟨node, rfl, rfl⟩, (List.modify_zero_cons ..).symm⟩

/-! ### A chain for documents without sequencing -/

-- Changes the node at the noted place of an id; an id without one is passed over.
def changeNoted? (noted : NodeId → Option Nat) (id : NodeId) (change : Node → Node) (nodes : List Node) :
    Option (List Node) :=
  match noted id with
  | some place => changeAt? (fun node => some (change node)) place nodes
  | none => some nodes

def linkChain? (noted : NodeId → Option Nat) : List FlowLink → List Node → Option (List Node)
  | [], nodes => some nodes
  | link :: rest, nodes => do
    let nodes ← changeNoted? noted link.origin (·.linkFirstFlowOutput link.id) nodes
    let nodes ← changeNoted? noted link.target (·.linkFirstFlowInput link.id) nodes
    linkChain? noted rest nodes

theorem changeNoted?_eq {start nodes : List Node} (ids : nodes.map (·.id) = start.map (·.id)) (id : NodeId)
    (change : Node → Node) :
    changeNoted? (lastPlace? · start) id change nodes = some (updateLast id change nodes) := by
  rw [changeNoted?, ← lastPlace?_congr ids]
  cases found : lastPlace? id nodes with
  | none => rw [(of_lastPlace?_eq_none found change).2]
  | some place =>
    obtain ⟨⟨node, there, _⟩, updated⟩ := of_lastPlace?_eq_some found change
    rw [updated]
    exact changeAt?_eq there rfl

theorem linkChain?_eq {start nodes : List Node} (ids : nodes.map (·.id) = start.map (·.id)) (chain : List FlowLink) :
    linkChain? (lastPlace? · start) chain nodes = some (linkChain nodes chain) := by
  induction chain generalizing nodes with
  | nil => rfl
  | cons link rest ih =>
    have left := updateLast_map_view (·.id) link.origin (·.linkFirstFlowOutput link.id) nodes fun _ _ => rfl
    have entered := updateLast_map_view (·.id) link.target (·.linkFirstFlowInput link.id)
      (updateLast link.origin (·.linkFirstFlowOutput link.id) nodes) fun _ _ => rfl
    rw [linkChain?, changeNoted?_eq ids, Option.bind_eq_bind, Option.bind_some, changeNoted?_eq (left.trans ids),
      Option.bind_some, ih (entered.trans (left.trans ids))]
    rfl

namespace Document

-- The counter of a document once it has its chain.
def lastOfChain? (doc : Document) (chain : List FlowLink) : Option (Option LinkId) :=
  if chain.isEmpty then some doc.lastLinkId else ((doc.nextLinkId.raise chain.length).lower? 1).map some

def addChain? (doc : Document) (r : Registry) : Option Document := do
  let chain := chainLinks doc.nextLinkId (doc.flowOrder r)
  let start := doc.nodes.map (·.withChainSlots r)
  let nodes ← linkChain? (lastPlace? · start) chain start
  let last ← doc.lastOfChain? chain
  return { doc with nodes := nodes, flowLinks := some chain, lastLinkId := last, supportsFlow := true }

theorem addChain?_eq (doc : Document) (r : Registry) : doc.addChain? r = some (doc.addChain r) := by
  have last : doc.lastOfChain? (chainLinks doc.nextLinkId (doc.flowOrder r)) = some (doc.addChain r).lastLinkId := by
    rw [lastOfChain?, addChain]
    by_cases empty : (chainLinks doc.nextLinkId (doc.flowOrder r)).isEmpty
    · simp only [empty, if_true]
    · have some := List.length_pos_iff.2 (mt List.isEmpty_iff.2 empty)
      have room : 1 ≤ (doc.nextLinkId.raise (chainLinks doc.nextLinkId (doc.flowOrder r)).length).toNat := by
        rw [Word.toNat_raise]
        simp only [UInt64.size]
        omega
      simp only [if_neg empty, Word.lower?_eq room, Option.map_some]
  rw [addChain?, linkChain?_eq rfl, last]
  rfl

end Document

/-! ### From the compact form to the runtime form -/

-- What hanging links into the slots of a node does not change.
def Node.frame (node : Node) : NodeId × Nat × Nat := (node.id, node.inputs.length, node.outputs.length)

def Node.changeOutput? (slot : Nat) (change : OutputSlot → OutputSlot) (node : Node) : Option Node :=
  (changeAt? (fun output => some (change output)) slot node.outputs).map ({ node with outputs := · })

def Node.changeInput? (slot : Nat) (change : InputSlot → InputSlot) (node : Node) : Option Node :=
  (changeAt? (fun input => some (change input)) slot node.inputs).map ({ node with inputs := · })

namespace Weave

def hang? (w : Weave) (origin target : Nat) (link : Link) : Option (List Node) := do
  let nodes ← changeAt? (·.changeOutput? link.originSlot.toNat (·.attach link.id)) origin w.nodes
  changeAt? (·.changeInput? link.targetSlot.toNat ({ · with link := some link.id })) target nodes

-- The places and counts of the nodes are those that were noted before the first link.
def add? (noted : NodeId → Option Nat) (counts : NodeId → Option (Nat × Nat)) (w : Weave) (flow : FlowLink) :
    Option (Except Inconsistency Weave) :=
  match noted flow.origin, noted flow.target with
  | some origin, some target => do
    let (_, outputs) ← counts flow.origin
    let (inputs, _) ← counts flow.target
    if outputs ≤ flow.originSlot.toNat || inputs ≤ flow.targetSlot.toNat then
      return .error (.missingSlot flow.id)
    let left ← (← w.nodes[origin]?).outputs[flow.originSlot.toNat]?
    if !left.linkIds.isEmpty then
      return .ok w
    let entered ← (← w.nodes[target]?).inputs[flow.targetSlot.toNat]?
    if entered.link.isSome then
      return .ok w
    let nodes ← w.hang? origin target (w.linkFor flow)
    return .ok { w.accept flow with nodes := nodes }
  | _, _ => some (.error (.unknownNodes flow.id flow.origin flow.target))

def addAll? (noted : NodeId → Option Nat) (counts : NodeId → Option (Nat × Nat)) :
    List FlowLink → Weave → Option (Except Inconsistency Weave)
  | [], w => some (.ok w)
  | flow :: rest, w =>
    match w.add? noted counts flow with
    | none => none
    | some (.error cause) => some (.error cause)
    | some (.ok next) => addAll? noted counts rest next

end Weave

namespace Document

-- The place of a node and how many sequencing slots it was given, by its id.
def compactCounts? (doc : Document) (id : NodeId) : Option (Nat × Nat) := (findLast? doc.nodes id).map (·.compactCounts)

section Weaving

variable {doc : Document} {w : Weave} (frames : w.nodes.map (·.frame) = doc.startWeave.nodes.map (·.frame))

include frames in
theorem ids_of_frames : w.nodes.map (·.id) = doc.startWeave.nodes.map (·.id) := by
  have ids := congrArg (List.map Prod.fst) frames
  rwa [List.map_map, List.map_map] at ids

include frames in
-- The node at a noted place has the slots that were counted.
theorem exists_noted {id : NodeId} {place : Nat} (noted : lastPlace? id doc.startWeave.nodes = some place) :
    ∃ node counts, w.nodes[place]? = some node ∧ findLast? w.nodes id = some node ∧
      doc.compactCounts? id = some counts ∧ doc.compactShifts id = counts ∧
      counts.1 ≤ node.inputs.length ∧ counts.2 ≤ node.outputs.length := by
  rw [← lastPlace?_congr (ids_of_frames frames)] at noted
  obtain ⟨node, there, last⟩ := (of_lastPlace?_eq_some noted fun node => node).1
  have alike := findLast?_view (·.frame) Prod.fst (fun _ => rfl) frames id
  rw [last, startWeave, findLast?_map (·.materializeSlots) fun _ => rfl, Option.map_map, Option.map_some] at alike
  obtain ⟨stored, found, same⟩ := Option.map_eq_some_iff.1 alike.symm
  have lengths : node.inputs.length = stored.compactInputs.length + stored.inputs.length ∧
      node.outputs.length = stored.compactOutputs.length + stored.outputs.length := by
    simpa [Node.frame, Node.materializeSlots, eq_comm] using (congrArg Prod.snd same).symm
  refine ⟨node, stored.compactCounts, there, last, ?_, ?_, ?_, ?_⟩
  · rw [compactCounts?, found, Option.map_some]
  · rw [compactShifts, shiftsOf, found, Option.map_some, Option.getD_some]
  · rw [lengths.1]
    exact Nat.le_add_right _ _
  · rw [lengths.2]
    exact Nat.le_add_right _ _

include frames in
theorem changeOutput?_eq {id : NodeId} {place : Nat} (noted : lastPlace? id doc.startWeave.nodes = some place)
    {slot : Nat} (inside : slot < (doc.compactShifts id).2) (change : OutputSlot → OutputSlot) :
    changeAt? (·.changeOutput? slot change) place w.nodes =
      some (updateLast id (fun node => { node with outputs := node.outputs.modify slot change }) w.nodes) := by
  obtain ⟨node, counts, there, _, _, shifts, _, fits⟩ := exists_noted frames noted
  rw [shifts] at inside
  rw [← lastPlace?_congr (ids_of_frames frames)] at noted
  rw [(of_lastPlace?_eq_some noted _).2]
  refine changeAt?_eq there ?_
  rw [Node.changeOutput?, changeAt?_eq (List.getElem?_eq_getElem (Nat.lt_of_lt_of_le inside fits)) rfl]
  rfl

include frames in
theorem changeInput?_eq {id : NodeId} {place : Nat} (noted : lastPlace? id doc.startWeave.nodes = some place)
    {slot : Nat} (inside : slot < (doc.compactShifts id).1) (change : InputSlot → InputSlot) :
    changeAt? (·.changeInput? slot change) place w.nodes =
      some (updateLast id (fun node => { node with inputs := node.inputs.modify slot change }) w.nodes) := by
  obtain ⟨node, counts, there, _, _, shifts, fits, _⟩ := exists_noted frames noted
  rw [shifts] at inside
  rw [← lastPlace?_congr (ids_of_frames frames)] at noted
  rw [(of_lastPlace?_eq_some noted _).2]
  refine changeAt?_eq there ?_
  rw [Node.changeInput?, changeAt?_eq (List.getElem?_eq_getElem (Nat.lt_of_lt_of_le inside fits)) rfl]
  rfl

theorem frames_hangOrigin (nodes : List Node) (id : NodeId) (link : Link) :
    (updateLast id (·.hangOrigin link) nodes).map (·.frame) = nodes.map (·.frame) :=
  updateLast_map_view (·.frame) id _ nodes fun _ _ => by simp [Node.frame, Node.hangOrigin]

theorem frames_hangTarget (nodes : List Node) (id : NodeId) (link : Link) :
    (updateLast id (·.hangTarget link) nodes).map (·.frame) = nodes.map (·.frame) :=
  updateLast_map_view (·.frame) id _ nodes fun _ _ => by simp [Node.frame, Node.hangTarget]

include frames in
theorem frames_accept (flow : FlowLink) : (w.accept flow).nodes.map (·.frame) = doc.startWeave.nodes.map (·.frame) := by
  rw [Weave.accept_nodes, frames_hangTarget, frames_hangOrigin, frames]

include frames in
theorem hang?_eq {flow : FlowLink} {origin target : Nat}
    (leaves : lastPlace? flow.origin doc.startWeave.nodes = some origin)
    (enters : lastPlace? flow.target doc.startWeave.nodes = some target)
    (originSlot : flow.originSlot.toNat < (doc.compactShifts flow.origin).2)
    (targetSlot : flow.targetSlot.toNat < (doc.compactShifts flow.target).1) :
    w.hang? origin target (w.linkFor flow) = some (w.accept flow).nodes := by
  have left : ({ w with nodes := updateLast flow.origin (·.hangOrigin (w.linkFor flow)) w.nodes } : Weave).nodes.map
      (·.frame) = doc.startWeave.nodes.map (·.frame) := (frames_hangOrigin w.nodes flow.origin _).trans frames
  have first := changeOutput?_eq frames leaves originSlot (·.attach (w.linkFor flow).id)
  have second := changeInput?_eq left enters targetSlot ({ · with link := some (w.linkFor flow).id })
  exact (congrArg (Option.bind · _) first).trans second

include frames in
theorem add?_of_fits {flow : FlowLink} {origin target : Nat}
    (leaves : lastPlace? flow.origin doc.startWeave.nodes = some origin)
    (enters : lastPlace? flow.target doc.startWeave.nodes = some target) (fits : w.Fits doc.compactShifts flow) :
    w.add? (lastPlace? · doc.startWeave.nodes) doc.compactCounts? flow =
      some (.ok (if w.blocked flow then w else w.accept flow)) := by
  have hung := hang?_eq frames leaves enters fits.originSlot fits.targetSlot
  obtain ⟨left, outputs, leftThere, leftLast, leftCounts, leftShifts, _, leftFits⟩ := exists_noted frames leaves
  obtain ⟨entered, inputs, enteredThere, enteredLast, enteredCounts, enteredShifts, enteredFits, _⟩ :=
    exists_noted frames enters
  have originSlot : flow.originSlot.toNat < outputs.2 := leftShifts ▸ fits.originSlot
  have targetSlot : flow.targetSlot.toNat < inputs.1 := enteredShifts ▸ fits.targetSlot
  obtain ⟨output, outputThere⟩ : ∃ output, left.outputs[flow.originSlot.toNat]? = some output :=
    ⟨_, List.getElem?_eq_getElem (Nat.lt_of_lt_of_le originSlot leftFits)⟩
  obtain ⟨input, inputThere⟩ : ∃ input, entered.inputs[flow.targetSlot.toNat]? = some input :=
    ⟨_, List.getElem?_eq_getElem (Nat.lt_of_lt_of_le targetSlot enteredFits)⟩
  have inside : (outputs.2 ≤ flow.originSlot.toNat || inputs.1 ≤ flow.targetSlot.toNat) = false := by
    simp [originSlot, targetSlot]
  rw [Weave.add?, leaves, enters, Weave.blocked, Weave.outputTaken, Weave.inputTaken, leftLast, enteredLast,
    Option.bind_some, Option.bind_some, outputThere, inputThere]
  simp only [leftCounts, enteredCounts, inside, leftThere, enteredThere, outputThere, inputThere, hung, Option.bind_eq_bind,
    Option.bind_some, Option.any_some, Bool.false_eq_true, if_false]
  by_cases free : output.linkIds.isEmpty
  · by_cases held : input.link.isSome <;> simp [free, held]
  · simp [free]

include frames in
theorem add?_eq (flow : FlowLink) : w.add? (lastPlace? · doc.startWeave.nodes) doc.compactCounts? flow =
    some (w.add doc.compactShifts flow) := by
  have absent : ∀ id, lastPlace? id doc.startWeave.nodes = none → findLast? w.nodes id = none := by
    intro id noted
    rw [← lastPlace?_congr (ids_of_frames frames)] at noted
    exact (of_lastPlace?_eq_none noted fun node => node).1
  cases leaves : lastPlace? flow.origin doc.startWeave.nodes with
  | none => simp [Weave.add?, Weave.add, leaves, absent _ leaves]
  | some origin =>
    cases enters : lastPlace? flow.target doc.startWeave.nodes with
    | none => simp [Weave.add?, Weave.add, enters, absent _ enters]
    | some target =>
      obtain ⟨_, outputs, _, leftLast, leftCounts, leftShifts, _⟩ := exists_noted frames leaves
      obtain ⟨_, inputs, _, enteredLast, enteredCounts, enteredShifts, _⟩ := exists_noted frames enters
      by_cases inside : flow.originSlot.toNat < outputs.2 ∧ flow.targetSlot.toNat < inputs.1
      · have fits : w.Fits doc.compactShifts flow :=
          ⟨by rw [leftLast]; rfl, by rw [enteredLast]; rfl, leftShifts ▸ inside.1, enteredShifts ▸ inside.2⟩
        rw [add?_of_fits frames leaves enters fits, (Weave.add_eq_ok_iff doc.compactShifts w _ flow).2 ⟨fits, rfl⟩]
      · have outside : (outputs.2 ≤ flow.originSlot.toNat || inputs.1 ≤ flow.targetSlot.toNat) = true := by
          rw [Bool.or_eq_true, decide_eq_true_eq, decide_eq_true_eq]
          omega
        rw [Weave.add?, Weave.add, leaves, enters, leftLast, enteredLast, leftShifts, enteredShifts]
        simp only [leftCounts, enteredCounts, outside, Option.bind_eq_bind, Option.bind_some, Option.isNone_some,
          Bool.or_self, Bool.false_eq_true, if_false, if_true]
        rfl

end Weaving

theorem addAll?_eq {doc : Document} (flows : List FlowLink) {w : Weave}
    (frames : w.nodes.map (·.frame) = doc.startWeave.nodes.map (·.frame)) :
    w.addAll? (lastPlace? · doc.startWeave.nodes) doc.compactCounts? flows =
      some (flows.foldlM (Weave.add doc.compactShifts) w) := by
  induction flows generalizing w with
  | nil => rfl
  | cons flow rest ih =>
    rw [Weave.addAll?, add?_eq frames, List.foldlM_cons]
    cases step : w.add doc.compactShifts flow with
    | error cause => rfl
    | ok next =>
      obtain ⟨_, rfl⟩ := (Weave.add_eq_ok_iff doc.compactShifts w next flow).1 step
      by_cases taken : w.blocked flow
      · rw [if_pos taken]
        exact ih frames
      · rw [if_neg taken]
        exact ih (frames_accept frames flow)

def lastLinkIdAfter? (last : Option LinkId) (next : LinkId) : Option (Option LinkId) :=
  if 0 < next then (next.lower? 1).map fun below => some (max (last.getD 0) below) else some last

theorem lastLinkIdAfter?_eq (last : Option LinkId) (next : LinkId) :
    lastLinkIdAfter? last next = some (lastLinkIdAfter last next) := by
  rw [lastLinkIdAfter?, lastLinkIdAfter]
  by_cases pos : 0 < next
  · have room : 1 ≤ next.toNat := UInt64.lt_iff_toNat_lt.1 pos
    rw [if_pos pos, if_pos pos, Word.lower?_eq room, Option.map_some]
  · rw [if_neg pos, if_neg pos]

def materialize? (doc : Document) : Option (Except Inconsistency Document) :=
  if !doc.hasCompactFlow then some (.ok doc)
  else match doc.nodes.find? (·.mixesForms) with
  | some node => some (.error (.mixedForms node.id))
  | none =>
    match doc.startWeave.addAll? (lastPlace? · doc.startWeave.nodes) doc.compactCounts? doc.flowLinkList with
    | none => none
    | some (.error cause) => some (.error cause)
    | some (.ok w) =>
      (lastLinkIdAfter? doc.lastLinkId w.next).map fun last => .ok { doc.withWeave w with lastLinkId := last }

theorem materialize?_eq (doc : Document) : doc.materialize? = some doc.materialize := by
  rw [materialize?]
  cases compact : doc.hasCompactFlow with
  | false => simp [materialize_of_not_compact doc compact]
  | true =>
    cases mixed : doc.nodes.find? (·.mixesForms) with
    | some node => simp [materialize, compact, mixed]
    | none =>
      rw [addAll?_eq _ rfl, materialize_eq doc compact mixed]
      cases doc.flowLinkList.foldlM (Weave.add doc.compactShifts) doc.startWeave with
      | error cause => rfl
      | ok w => simp [lastLinkIdAfter?_eq, Except.map, withWeave]

/-! ### From the runtime form to the compact form -/

end Document

def Node.stripSlots? (node : Node) : Option Node := do
  let (flowInputs, inputs) ← split? node.leadingFlowInputs node.inputs
  let (flowOutputs, outputs) ← split? node.leadingFlowOutputs node.outputs
  return { node with
    inputs := inputs
    outputs := outputs.map (·.lowerIndex node.leadingFlowOutputs)
    flowInputs := some (flowInputs.map (·.toFlowInput))
    flowOutputs := some (flowOutputs.map (·.toFlowOutput)) }

theorem Node.stripSlots?_eq (node : Node) : node.stripSlots? = some node.stripSlots := by
  have inputs : node.leadingFlowInputs ≤ node.inputs.length := (List.takeWhile_sublist _).length_le
  have outputs : node.leadingFlowOutputs ≤ node.outputs.length := (List.takeWhile_sublist _).length_le
  rw [stripSlots?, split?_eq inputs, split?_eq outputs]
  rfl

namespace Document

def strip? (doc : Document) : Option (Except Inconsistency Document) := do
  let nodes ← doc.nodes.mapM (·.stripSlots?)
  return match doc.nodes.find? (!·.flowSlotsLead) with
  | some node => .error (.dataBeforeFlow node.id)
  | none => .ok { doc.stripped with nodes := nodes }

theorem strip?_eq (doc : Document) : doc.strip? = some doc.strip := by
  have nodes : doc.nodes.mapM (·.stripSlots?) = some (doc.nodes.map (·.stripSlots)) := by
    simp only [Node.stripSlots?_eq]
    exact List.mapM_pure
  rw [strip?, nodes, strip]
  cases doc.nodes.find? (!·.flowSlotsLead) <;> rfl

def expand? (doc : Document) (r : Registry) : Option (Except Inconsistency Document) :=
  if doc.needsChain then (doc.addChain? r).bind materialize? else doc.materialize?

theorem expand?_eq (doc : Document) (r : Registry) : doc.expand? r = some (doc.expand r) := by
  rw [expand?, addChain?_eq, Option.bind_some, materialize?_eq, materialize?_eq, expand]
  split <;> rfl

def compact? (doc : Document) : Option (Except Inconsistency Document) :=
  match doc.materialize? with
  | none => none
  | some (.error cause) => some (.error cause)
  | some (.ok runtime) => runtime.strip?

theorem compact?_eq (doc : Document) : doc.compact? = some doc.compact := by
  rw [compact?, materialize?_eq, compact]
  cases doc.materialize with
  | error cause => rfl
  | ok runtime => exact runtime.strip?_eq

end Document
end Patchbay
