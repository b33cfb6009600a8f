import Patchbay.Proofs.Graph.Edits
import Patchbay.Proofs.Prompt.Idle

/-!
A pass-through node that is put into a link does not show in the prompt. The walks with and without it keep in step:
one comes to the new node exactly when the other goes along the link.
-/
set_option autoImplicit false

namespace Patchbay

/-- A way round a link: a new node, and the links that lead to it and on from it. -/
structure Detour where
  position : Nat
  relay : Node
  inId : LinkId
  inType : String
  outId : LinkId
  outType : String

namespace Detour

def inward (detour : Detour) (link : Link) : Link :=
  ⟨detour.inId, link.origin, link.originSlot, detour.relay.id, 0, detour.inType⟩

def outward (detour : Detour) (link : Link) : Link :=
  ⟨detour.outId, detour.relay.id, 0, link.target, link.targetSlot, detour.outType⟩

def edits (detour : Detour) (link : Link) : List Edit :=
  [.insertNodes detour.position [detour.relay], .removeLink link.id, .insertLink (detour.inward link),
    .insertLink (detour.outward link)]

-- What becomes of a link.
def around (detour : Detour) (link other : Link) : Link := if other = link then detour.outward link else other

/-- The node is a pass-through node with one data input, one data output and no other slot. Its id is new, and so are
the ids of the links, the one of the replaced link apart. -/
structure Fits (detour : Detour) (g : Graph) (r : Registry) (link : Link) : Prop where
  passing : r.isPassThrough detour.relay.type
  oneInput : detour.relay.inputs.map (·.isFlow) = [false]
  oneOutput : detour.relay.outputs.map (·.isFlow) = [false]
  fresh : g.Fresh [detour.relay]
  apart : detour.inId ≠ detour.outId
  free : ∀ other ∈ g.links, other.id = detour.inId ∨ other.id = detour.outId → other = link

section Fits

variable {detour : Detour} {g : Graph} {r : Registry} {link : Link} (fits : detour.Fits g r link)

include fits in
theorem Fits.virtualInput? : detour.relay.virtualInput? 0 = some 0 := by
  have inputs : detour.relay.flowInputCount = 0 := by
    have count := congrArg (List.countP id) fits.oneInput
    rwa [List.countP_map] at count
  have outputs : detour.relay.flowOutputCount = 0 := by
    have count := congrArg (List.countP id) fits.oneOutput
    rwa [List.countP_map] at count
  rw [Node.virtualInput?, inputs, outputs]
  rfl

include fits in
theorem Fits.participation : r.participation detour.relay = .virtual :=
  Registry.participation_of_isPassThrough fits.passing

end Fits

end Detour

namespace Graph

/-- The graphs have the same nodes but for the new one, and the same links but for the one that is led round. -/
structure Relayed (detour : Detour) (link : Link) (g h : Graph) : Prop where
  wired : g.Wired
  wiredToo : h.Wired
  unnamed : ∀ other ∈ g.links, other.origin ≠ detour.relay.id ∧ other.target ≠ detour.relay.id
  member : link ∈ g.links
  nodes : ∀ id, id ≠ detour.relay.id → (g.node? id).map (·.unlinked) = (h.node? id).map (·.unlinked)
  relay : (h.node? detour.relay.id).map (·.unlinked) = some detour.relay.unlinked
  links : ∀ other, other ∈ h.links ↔
    other = detour.inward link ∨ other = detour.outward link ∨ (other ∈ g.links ∧ other ≠ link)

section Relayed

variable {detour : Detour} {link : Link} {g h : Graph} (relayed : Relayed detour link g h)

include relayed in
theorem Relayed.incoming? {id : NodeId} (apart : id ≠ detour.relay.id) (slot : Nat) :
    h.incoming? id slot = (g.incoming? id slot).map (detour.around link) := by
  ext arriving
  rw [relayed.wiredToo.incoming?_eq_some_iff, Option.map_eq_some_iff, relayed.links,
    ← isSome_inputAt?_congr (relayed.nodes id apart)]
  constructor
  · rintro ⟨there, rfl | rfl | ⟨inside, other⟩, enters⟩
    · exact absurd enters.1.symm apart
    · exact ⟨link, relayed.wired.incoming?_eq_some_iff.2 ⟨there, relayed.member, enters⟩, if_pos rfl⟩
    · exact ⟨arriving, relayed.wired.incoming?_eq_some_iff.2 ⟨there, inside, enters⟩, if_neg other⟩
  · rintro ⟨before, fed, rfl⟩
    obtain ⟨there, inside, enters⟩ := relayed.wired.incoming?_eq_some_iff.1 fed
    by_cases here : before = link
    · subst here
      rw [Detour.around, if_pos rfl]
      exact ⟨there, .inr (.inl rfl), enters⟩
    · rw [Detour.around, if_neg here]
      exact ⟨there, .inr (.inr ⟨inside, here⟩), enters⟩

variable {r : Registry} (fits : detour.Fits g r link)

include relayed fits in
theorem Relayed.incoming?_relay : h.incoming? detour.relay.id 0 = some (detour.inward link) := by
  have slot : (h.inputAt? detour.relay.id 0).isSome := by
    have one : detour.relay.inputs.length = 1 := by simpa using congrArg List.length fits.oneInput
    obtain ⟨node, found, alike⟩ := Option.map_eq_some_iff.1 relayed.relay
    have size : node.inputs.length = detour.relay.inputs.length := by
      simpa [Node.unlinked] using congrArg (fun node : Node => node.inputs.length) alike
    simp [inputAt?, found, size, one]
  exact relayed.wiredToo.incoming?_eq_some_iff.2 ⟨slot, (relayed.links _).2 (.inl rfl), rfl, rfl⟩

include relayed fits in
/-- From the new node a walk goes on as along the link, unless it has been there. -/
theorem Relayed.follow_outward (type : String) (left : List NodeId) :
    h.follow r type left (detour.outward link) =
      if detour.relay.id ∈ left then h.follow r type (without detour.relay.id left) link else none := by
  obtain ⟨node, found, alike⟩ := Option.map_eq_some_iff.1 relayed.relay
  have role : r.participation node = .virtual := (Node.participation_of_unlinked alike r).trans fits.participation
  have input : node.passedInput? r type 0 = some 0 := by
    rw [Node.passedInput?_congr alike, Node.passedInput?, fits.participation]
    exact fits.virtualInput?
  have sameOrigin : ∀ unvisited, h.follow r type unvisited (detour.inward link) = h.follow r type unvisited link := by
    intro unvisited
    rw [follow_eq, follow_eq]
    rfl
  rw [follow_eq]
  simp [Detour.outward, found, role, input, relayed.incoming?_relay fits, sameOrigin]

include relayed fits in
/-- The new node stands to be visited at least as long as the origin of the link does. -/
theorem Relayed.follow (type : String) (unvisited left : List NodeId)
    (same : ∀ id, id ≠ detour.relay.id → (id ∈ left ↔ id ∈ unvisited))
    (ahead : link.origin ∈ unvisited → detour.relay.id ∈ left) (other : Link) (inside : other ∈ g.links) :
    h.follow r type left (detour.around link other) = g.follow r type unvisited other := by
  have apart := (relayed.unnamed other inside).1
  have step : ∀ left : List NodeId, (∀ id, id ≠ detour.relay.id → (id ∈ left ↔ id ∈ unvisited)) →
      (link.origin ∈ without other.origin unvisited → detour.relay.id ∈ left) →
        h.follow r type left other = g.follow r type unvisited other := by
    intro left same ahead
    have fed : ∀ slot, h.incoming? other.origin slot =
        (g.incoming? other.origin slot).bind fun next => some (detour.around link next) := by
      intro slot
      rw [relayed.incoming? apart]
      cases g.incoming? other.origin slot <;> rfl
    refine follow_step (relayed.nodes _ apart) fed (same _ apart) fun unseen slot next arrives => ?_
    refine Relayed.follow type _ _ (fun id away => without_congr (same id away) other.origin) (fun later => ?_) next
      (relayed.wired.incoming?_eq_some_iff.1 arrives).2.1
    exact List.mem_filter.2 ⟨ahead later, decide_eq_true (Ne.symm apart)⟩
  by_cases here : other = link
  · subst here
    rw [Detour.around, if_pos rfl, relayed.follow_outward fits]
    by_cases open' : detour.relay.id ∈ left
    · rw [if_pos open']
      refine step _ (fun id away => ?_) fun later => absurd rfl (of_decide_eq_true (List.mem_filter.1 later).2)
      simp [without, away, same id away]
    · have seen := mt ahead open'
      rw [if_neg open', follow_eq]
      cases g.node? other.origin <;> simp [seen]
  · rw [Detour.around, if_neg here]
    exact step left same fun later => ahead (List.mem_filter.1 later).1
termination_by unvisited.length
decreasing_by exact length_without_lt unseen

include relayed in
theorem Relayed.isSome_node? {id : NodeId} (apart : id ≠ detour.relay.id) : (h.node? id).isSome = (g.node? id).isSome := by
  simpa using (congrArg Option.isSome (relayed.nodes id apart)).symm

include relayed fits in
theorem Relayed.resolveInput {id : NodeId} (apart : id ≠ detour.relay.id) (slot : Nat) :
    h.resolveInput r id slot = g.resolveInput r id slot := by
  refine resolveInput_congr (relayed.nodes id apart).symm fun type => ?_
  have same : ∀ other, other ≠ detour.relay.id → (other ∈ h.nodeIds ↔ other ∈ g.nodeIds) := by
    intro other away
    rw [mem_nodeIds_iff, mem_nodeIds_iff, relayed.isSome_node? away]
  have new : detour.relay.id ∈ h.nodeIds := by
    rw [mem_nodeIds_iff]
    simpa using congrArg Option.isSome relayed.relay
  rw [relayed.incoming? apart]
  cases arrives : g.incoming? id slot with
  | none => rfl
  | some next =>
    exact relayed.follow fits type g.nodeIds h.nodeIds same (fun _ => new) next
      (relayed.wired.incoming?_eq_some_iff.1 arrives).2.1

end Relayed

section Led

variable {detour : Detour} {link : Link} {g : Graph} {r : Registry}

-- The graph before the last link is put in.
def led (g : Graph) (detour : Detour) (link : Link) : Graph :=
  ((g.insertNodes detour.position [detour.relay]).removeLink link.id).insertLink (detour.inward link)

variable (wired : g.Wired) (member : link ∈ g.links) (fits : detour.Fits g r link)

include fits in
theorem unnamed_of_fits {other : Link} (inside : other ∈ g.links) :
    other.origin ≠ detour.relay.id ∧ other.target ≠ detour.relay.id :=
  (touches_eq_false_iff _ other).1 (fits.fresh.unnamed _ List.mem_cons_self other inside)

include wired member fits in
theorem led_wired : (g.led detour link).Wired ∧
    ∀ other, other ∈ (g.led detour link).links ↔ other = detour.inward link ∨ (other ∈ g.links ∧ other ≠ link) := by
  have cut := (wired.insertNodes fits.fresh detour.position).removeLink link.id
  have kept : ∀ other, other ∈ ((g.insertNodes detour.position [detour.relay]).removeLink link.id).links ↔
      other ∈ g.links ∧ other ≠ link := by
    intro other
    refine (mem_removeLink _ link.id other).trans (and_congr_right fun inside => not_congr ?_)
    exact ⟨fun same => wired.link_unique inside member same, fun same => same ▸ rfl⟩
  constructor
  · refine cut.insertLink _ fun _ _ _ _ other inside enters => ?_
    exact absurd enters.1 (unnamed_of_fits fits ((kept other).1 inside).1).2
  · intro other
    rw [led, cut.mem_insertLink, kept]
    refine or_congr_right ⟨And.left, fun inside => ⟨inside, fun same => ?_⟩⟩
    exact inside.2 (fits.free other inside.1 (.inl same))

include fits in
theorem node?_led (id : NodeId) : ((g.led detour link).node? id).map (·.unlinked) =
    (([detour.relay].find? (·.id == id)).or (g.node? id)).map (·.unlinked) := by
  rw [led, bare_node?, bare_insertLink, bare_removeLink, ← bare_node?, node?_insertNodes g _ _ fits.fresh.distinct]

include fits in
theorem node?_led_of_ne {id : NodeId} (apart : id ≠ detour.relay.id) :
    (g.node? id).map (·.unlinked) = ((g.led detour link).node? id).map (·.unlinked) := by
  have other : (detour.relay.id == id) = false := beq_eq_false_iff_ne.2 apart.symm
  simp [node?_led fits, other]

include wired member fits in
-- The slot that the replaced link held is free for the new one.
theorem led_clearFor : (g.led detour link).ClearFor (detour.outward link) := by
  rintro slot input found rfl other inside enters
  rcases ((led_wired wired member fits).2 other).1 inside with rfl | ⟨before, apart⟩
  · exact absurd enters.1.symm (unnamed_of_fits fits member).2
  · have there : (g.inputAt? link.target link.targetSlot.toNat).isSome := by
      rw [isSome_inputAt?_congr (node?_led_of_ne fits (unnamed_of_fits fits member).2)]
      exact Option.isSome_of_eq_some found
    have held := wired.incoming?_eq_some_iff.2 ⟨there, before, enters⟩
    have heldToo := wired.incoming?_eq_some_iff.2 ⟨there, member, rfl, rfl⟩
    exact absurd (Option.some.inj (held.symm.trans heldToo)) apart

include wired member fits in
theorem Relayed.of_fits : Relayed detour link g (g.editAll (detour.edits link)) := by
  have after : g.editAll (detour.edits link) = (g.led detour link).insertLink (detour.outward link) := rfl
  obtain ⟨wiredLed, links⟩ := led_wired wired member fits
  have shown : ∀ id, (((g.led detour link).insertLink (detour.outward link)).node? id).map (·.unlinked) =
      ((g.led detour link).node? id).map (·.unlinked) := by
    intro id
    rw [bare_node?, bare_insertLink, ← bare_node?]
  rw [after]
  refine ⟨wired, wiredLed.insertLink _ (led_clearFor wired member fits), fun _ inside => unnamed_of_fits fits inside,
    member, fun id apart => (node?_led_of_ne fits apart).trans (shown id).symm, ?_, fun other => ?_⟩
  · simp [shown, node?_led fits]
  · rw [wiredLed.mem_insertLink, links]
    constructor
    · rintro (rfl | ⟨rfl | inside, _⟩)
      · exact .inr (.inl rfl)
      · exact .inl rfl
      · exact .inr (.inr inside)
    · rintro (rfl | rfl | inside)
      · exact .inr ⟨.inl rfl, fits.apart⟩
      · exact .inl rfl
      · exact .inr ⟨.inr inside, fun same => inside.2 (fits.free other inside.1 (.inr same))⟩

end Led

/-- Leading a link round through a pass-through node leaves the prompt as it was, for any order. Where no two nodes are
displayed alike, either order may be any one that holds all nodes of its graph. -/
theorem serialize_detour (g : Graph) (wired : g.Wired) (defs : Definitions) (link : Link) (member : link ∈ g.links)
    (detour : Detour) (fits : detour.Fits g defs.registry link) :
    (g.editAll (detour.edits link)).Wired ∧
      (∀ order, (g.editAll (detour.edits link)).serialize defs order = g.serialize defs order) ∧
      ((g.nodeIds.map NodeId.display).Nodup → ∀ order other, (∀ id ∈ g.nodeIds, id ∈ order) →
        (∀ id ∈ (g.editAll (detour.edits link)).nodeIds, id ∈ other) →
          (g.editAll (detour.edits link)).serialize defs other = g.serialize defs order) := by
  have relayed := Relayed.of_fits wired member fits
  have beside : Beside defs.registry detour.relay.id (g.editAll (detour.edits link)) g := by
    refine ⟨fun id apart => (relayed.nodes id apart).symm, fun node found => ?_, fun node found => ?_⟩
    · obtain ⟨_, there, alike⟩ := Option.map_eq_some_iff.1 relayed.relay
      rw [found] at there
      cases there
      rw [Node.participation_of_unlinked alike, fits.participation]
      exact Participation.noConfusion
    · have known : detour.relay.id ∈ g.nodeIds := (g.mem_nodeIds_iff _).2 (Option.isSome_of_eq_some found)
      exact absurd known (fits.fresh.absent _ List.mem_cons_self)
  have same := beside.serialize fun id apart slot => relayed.resolveInput fits apart slot
  refine ⟨relayed.wiredToo, same, fun displays order other all allOther => ?_⟩
  rw [same other]
  refine serialize_of_covering displays defs (fun id inside => allOther id ?_) all
  have away : id ≠ detour.relay.id := fun here => fits.fresh.absent _ List.mem_cons_self (here ▸ inside)
  rwa [mem_nodeIds_iff, relayed.isSome_node? away, ← mem_nodeIds_iff]

-- The image comes through a reroute and a bypassed node, the amount from two reroutes that feed each other.
def circlingGraph : Graph where
  nodes := [
    { Node.plain (.number 1) "Loader" with outputs := [{ OutputSlot.plain "image" "IMAGE" with links := some [1] }] },
    { Node.plain (.number 2) "Reroute" with
      inputs := [{ InputSlot.plain "" "*" with link := some 1 }]
      outputs := [{ OutputSlot.plain "" "*" with links := some [2] }] },
    { Node.plain (.number 3) "Blur" with
      mode := .bypassed
      inputs := [{ InputSlot.plain "image" "IMAGE" with link := some 2 }]
      outputs := [{ OutputSlot.plain "image" "IMAGE" with links := some [3] }] },
    { Node.plain (.number 4) "Blur" with
      inputs := [{ InputSlot.plain "image" "IMAGE" with link := some 3 }, { InputSlot.plain "amount" "INT" with link := some 6 }]
      widgets := some [.ofNat 7] },
    { Node.plain (.number 5) "Reroute" with
      inputs := [{ InputSlot.plain "" "*" with link := some 5 }]
      outputs := [{ OutputSlot.plain "" "*" with links := some [4, 6] }] },
    { Node.plain (.number 6) "Reroute" with
      inputs := [{ InputSlot.plain "" "*" with link := some 4 }]
      outputs := [{ OutputSlot.plain "" "*" with links := some [5] }] }]
  links := [⟨1, .number 1, 0, .number 2, 0, "IMAGE"⟩, ⟨2, .number 2, 0, .number 3, 0, "IMAGE"⟩,
    ⟨3, .number 3, 0, .number 4, 0, "IMAGE"⟩, ⟨4, .number 5, 0, .number 6, 0, "INT"⟩,
    ⟨5, .number 6, 0, .number 5, 0, "INT"⟩, ⟨6, .number 5, 0, .number 4, 1, "INT"⟩]
  nextLinkId := 7

def viaReroute (link : Link) : Detour where
  position := 2
  relay := { Node.plain (.number 9) "Reroute" with
    inputs := [InputSlot.plain "" "*"]
    outputs := [OutputSlot.plain "" "*"] }
  inId := 7
  inType := "*"
  outId := link.id
  outType := "*"

theorem serialize_detour_circling :
    circlingGraph.Wired ∧ (circlingGraph.nodeIds.map NodeId.display).Nodup ∧
      (∀ link ∈ circlingGraph.links, (viaReroute link).Fits circlingGraph blurDefinitions.registry link) ∧
      (∀ link ∈ circlingGraph.links,
        (circlingGraph.editAll ((viaReroute link).edits link)).serialize blurDefinitions
            (circlingGraph.editAll ((viaReroute link).edits link)).nodeIds =
          circlingGraph.serialize blurDefinitions circlingGraph.nodeIds) ∧
      ((circlingGraph.serialize blurDefinitions circlingGraph.nodeIds).get? "4").map (·.inputs.entries) =
        some [("amount", .literal (.ofNat 7)), ("image", .link "1" 0)] := by
  have wired : circlingGraph.Wired := by decide +kernel
  have displays : (circlingGraph.nodeIds.map NodeId.display).Nodup := by decide +kernel
  have fits : ∀ link ∈ circlingGraph.links, (viaReroute link).Fits circlingGraph blurDefinitions.registry link := by
    have passing : blurDefinitions.registry.isPassThrough "Reroute" := by decide +kernel
    have apart : ∀ link ∈ circlingGraph.links, 7 ≠ link.id := by decide +kernel
    have free : ∀ link ∈ circlingGraph.links, ∀ other ∈ circlingGraph.links,
        other.id = 7 ∨ other.id = link.id → other = link := by decide +kernel
    have fresh : ∀ link ∈ circlingGraph.links, circlingGraph.Fresh [(viaReroute link).relay] := by decide +kernel
    exact fun link member => ⟨passing, rfl, rfl, fresh link member, apart link member, free link member⟩
  refine ⟨wired, displays, fits, fun link member => ?_, by decide +kernel⟩
  exact (serialize_detour circlingGraph wired blurDefinitions link member (viaReroute link) (fits link member)).2.2
    displays _ _ (fun _ inside => inside) fun _ inside => inside

end Graph
end Patchbay
