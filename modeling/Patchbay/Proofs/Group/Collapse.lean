import Patchbay.Group.Collapse
import Patchbay.Proofs.Group.Rounds
import Patchbay.Proofs.Group.Settling
import Patchbay.Proofs.Group.Stages
import Patchbay.Proofs.Sequencing.Hanging

/-!
Collapsing what an expansion has left. The links between members are told by those links of the graph whose ends
are both members; these stand in the order of the config, and no later stage of the expansion adds to them or
takes from them. Main statement: `collapse?_expandGroups`.
-/
set_option autoImplicit false

namespace Patchbay

/-! ### What a link table shows -/

section Shown

variable {β : Type} (view : Link → Option β)

theorem filterMap_putLink (link : Link) (links : List Link) (silent : view link = none)
    (others : ∀ other ∈ links, other.id = link.id → view other = none) :
    (putLink link links).filterMap view = links.filterMap view := by
  induction links with
  | nil => rw [putLink, List.filterMap_cons_none silent]
  | cons head rest ih =>
    rw [putLink]
    by_cases same : head.id = link.id
    · rw [if_pos same, List.filterMap_cons_none silent, List.filterMap_cons_none (others head List.mem_cons_self same)]
    · have later := ih fun other member => others other (List.mem_cons_of_mem head member)
      rw [if_neg same, List.filterMap_cons, List.filterMap_cons, later]

theorem filterMap_filter_silent (keep : Link → Bool) (links : List Link)
    (silent : ∀ link ∈ links, keep link = false → view link = none) :
    (links.filter keep).filterMap view = links.filterMap view := by
  induction links with
  | nil => rfl
  | cons head rest ih =>
    have later := ih fun link member => silent link (List.mem_cons_of_mem head member)
    cases kept : keep head with
    | true => rw [List.filter_cons_of_pos kept, List.filterMap_cons, List.filterMap_cons, later]
    | false =>
      rw [List.filter_cons_of_neg (by rw [kept]; exact Bool.false_ne_true), later,
        List.filterMap_cons_none (silent head List.mem_cons_self kept)]

end Shown

theorem mapM_eq_some_of_isSome {α β : Type} (make : α → Option β) (xs : List α)
    (each : ∀ x ∈ xs, (make x).isSome) : ∃ made, xs.mapM make = some made ∧ made.map some = xs.map make := by
  induction xs with
  | nil => exact ⟨[], rfl, rfl⟩
  | cons x rest ih =>
    obtain ⟨head, found⟩ := Option.isSome_iff_exists.1 (each x List.mem_cons_self)
    obtain ⟨made, whole, same⟩ := ih fun y member => each y (List.mem_cons_of_mem x member)
    refine ⟨head :: made, ?_, by rw [List.map_cons, List.map_cons, found, same]⟩
    rw [List.mapM_cons, found, whole]
    rfl

namespace NodeId

/-- The id is one of those that the members of an instance get. -/
def IsMember (place : NodeId) (count : Nat) (id : NodeId) : Prop := ∃ k < count, id = place.member k

theorem not_isMember_self (place : NodeId) (count : Nat) : ¬ place.IsMember count place := by
  rintro ⟨k, _, same⟩
  exact place.member_ne_self k same.symm

end NodeId

namespace Graph

section Members

variable (place : NodeId) (count : Nat)

theorem memberIndex?_member {k : Nat} (inside : k < count) : memberIndex? place count (place.member k) = some k := by
  rw [memberIndex?, List.find?_range_eq_some]
  refine ⟨beq_self_eq_true _, List.mem_range.2 inside, fun j before => ?_⟩
  have apart : place.member j ≠ place.member k := fun same => Nat.ne_of_lt before (place.member_injective same)
  simpa using apart

theorem memberIndex?_eq_none {id : NodeId} (outside : ¬ place.IsMember count id) : memberIndex? place count id = none := by
  rw [memberIndex?, List.find?_eq_none]
  intro k inside same
  exact outside ⟨k, List.mem_range.1 inside, (eq_of_beq same).symm⟩

theorem memberLink?_of_origin {link : Link} (outside : ¬ place.IsMember count link.origin) :
    memberLink? place count link = none := by
  rw [memberLink?, memberIndex?_eq_none place count outside]
  rfl

theorem memberLink?_of_target {link : Link} (outside : ¬ place.IsMember count link.target) :
    memberLink? place count link = none := by
  rw [memberLink?, memberIndex?_eq_none place count outside]
  cases memberIndex? place count link.origin <;> rfl

variable {place count} in
theorem isSome_origin_memberLink? {link : Link} {inner : GroupLink} (shows : memberLink? place count link = some inner) :
    inner.origin.isSome := by
  rw [memberLink?] at shows
  obtain ⟨origin, _, rest⟩ := Option.bind_eq_some_iff.1 shows
  obtain ⟨target, _, made⟩ := Option.bind_eq_some_iff.1 rest
  cases made
  rfl

-- The link that an inner link of the config has become shows as that inner link again.
theorem memberLink?_placed {config : GroupConfig} {id : LinkId} {inner : GroupLink} {link : Link} {origin : Word}
    (leaves : inner.origin = some origin) (originInside : origin.toNat < count)
    (targetInside : inner.target.toNat < count) (made : inner.placed? config place id = some link) :
    memberLink? place count link = some { inner with tail := [.text link.type] } := by
  rw [GroupLink.placed?, leaves] at made
  cases made
  simp only [memberLink?, memberIndex?_member place count originInside, memberIndex?_member place count targetInside,
    Option.bind_eq_bind, Option.bind_some, Word.ofCount, UInt64.ofNat_toNat, leaves]
  rfl

end Members

/-! ### The links between the members -/

-- An instance in a wired graph whose members are all known and carry data only.
structure Collapsible (g : Graph) (defs : Definitions) (place : Node) (group : GroupDef) : Prop where
  wired : g.Wired
  ahead : g.Ahead
  present : place ∈ g.nodes
  free : g.FreeFor defs group.config place.id
  room : defs.HasRoom g group
  known : ∀ node ∈ group.config.nodes, defs.isKnown node.type = true
  data : ∀ node ∈ group.config.nodes, node.hasFlowSlot = false
  inRange : ∀ link ∈ group.config.links,
    link.origin.all (·.toNat < group.config.nodes.length) ∧ link.target.toNat < group.config.nodes.length
  apart : ∀ link ∈ g.links, link.origin = place.id → link.target ≠ place.id

section Collapsible

variable {g : Graph} {defs : Definitions} {place : Node} {group : GroupDef}
variable (collapsible : g.Collapsible defs place group)

include collapsible in
theorem Collapsible.places {k : Nat} (inside : k < group.config.nodes.length) : defs.places group.config k := by
  have listed : group.config.nodes[k]? = some group.config.nodes[k] := List.getElem?_eq_getElem inside
  rw [Definitions.places, listed]
  exact collapsible.known _ (List.getElem_mem inside)

include collapsible in
theorem Collapsible.inside {inner : GroupLink} (member : inner ∈ group.config.links) {origin : Word}
    (leaves : inner.origin = some origin) :
    origin.toNat < group.config.nodes.length ∧ inner.target.toNat < group.config.nodes.length := by
  have inRange := collapsible.inRange inner member
  rw [leaves, Option.all_some, decide_eq_true_iff] at inRange
  exact inRange

include collapsible in
theorem Collapsible.joins_iff {inner : GroupLink} (member : inner ∈ group.config.links) :
    defs.joins group.config inner = true ↔ inner.origin.isSome := by
  rw [Definitions.joins_iff, Option.isSome_iff_exists]
  constructor
  · rintro ⟨origin, leaves, _⟩
    exact ⟨origin, leaves⟩
  · rintro ⟨origin, leaves⟩
    obtain ⟨originInside, targetInside⟩ := collapsible.inside member leaves
    exact ⟨origin, leaves, collapsible.places originInside, collapsible.places targetInside⟩

include collapsible in
theorem Collapsible.outside {link : Link} (member : link ∈ g.links) :
    ¬ place.id.IsMember group.config.nodes.length link.origin ∧
      ¬ place.id.IsMember group.config.nodes.length link.target := by
  constructor
  · rintro ⟨k, inside, same⟩
    refine collapsible.free k (collapsible.places inside) (.inr ⟨link, member, ?_⟩)
    rw [← same, touches, beq_self_eq_true, Bool.true_or]
  · rintro ⟨k, inside, same⟩
    refine collapsible.free k (collapsible.places inside) (.inr ⟨link, member, ?_⟩)
    rw [← same, touches, beq_self_eq_true, Bool.or_true]

include collapsible in
theorem Collapsible.outputType_ne_flow (inner : GroupLink) :
    (group.config.outputType? inner).getD InputDef.anyType ≠ flowType := by
  cases found : group.config.outputType? inner with
  | none => decide
  | some type =>
    simp only [GroupConfig.outputType?, Option.bind_eq_bind, Option.bind_eq_some_iff] at found
    obtain ⟨origin, _, node, listed, slot, there, same⟩ := found
    cases same
    have data := (node.hasFlowSlot_eq_false_iff.1 (collapsible.data node (List.mem_of_getElem? listed))).2
    have real := data slot (List.mem_of_getElem? there)
    simpa [OutputSlot.isFlow] using real

-- The graph once the inner links of `done` are added and those of `rest` are not.
structure Appended (g : Graph) (defs : Definitions) (place : Node) (group : GroupDef) (done rest : List GroupLink)
    (h : Graph) : Prop where
  bare : h.bare = (g.membersPlaced defs place group).bare
  ahead : h.Ahead
  distinct : (h.links.map (·.id)).Nodup
  next : g.nextLinkId ≤ h.nextLinkId
  room : h.nextLinkId.toNat + rest.countP (defs.joins group.config) < UInt64.size
  links : ∀ link ∈ h.links, link ∈ g.links ∨ ∀ old ∈ g.links, old.id ≠ link.id
  shown : (h.links.filterMap (memberLink? place.id group.config.nodes.length)).map (·.sketch) =
    (done.filter (·.origin.isSome)).map (·.sketch)
  typed : ∀ inner ∈ h.links.filterMap (memberLink? place.id group.config.nodes.length), inner.isFlow = false

include collapsible in
theorem Collapsible.appended_nil :
    Appended g defs place group [] group.config.links (g.membersPlaced defs place group) where
  bare := rfl
  ahead := collapsible.ahead
  distinct := collapsible.wired.linkIds
  next := UInt64.le_refl _
  room := collapsible.room
  links _ member := .inl member
  shown := by
    have none : (g.membersPlaced defs place group).links.filterMap
        (memberLink? place.id group.config.nodes.length) = [] :=
      List.filterMap_eq_nil_iff.2 fun link member => memberLink?_of_origin _ _ (collapsible.outside member).1
    rw [none]
    rfl
  typed inner member := by
    obtain ⟨link, inside, shows⟩ := List.mem_filterMap.1 member
    have original : link ∈ g.links := inside
    rw [memberLink?_of_origin _ _ (collapsible.outside original).1] at shows
    cases shows

include collapsible in
theorem Collapsible.append {done rest : List GroupLink} {inner : GroupLink} {h : Graph}
    (listed : inner ∈ group.config.links) (appended : Appended g defs place group done (inner :: rest) h) :
    Appended g defs place group (done ++ [inner]) rest (addInnerLink defs group.config place.id h inner) := by
  have room := appended.room
  rw [List.countP_cons] at room
  by_cases joined : defs.joins group.config inner
  · rw [if_pos joined] at room
    obtain ⟨origin, leaves⟩ := Option.isSome_iff_exists.1 ((collapsible.joins_iff listed).1 joined)
    obtain ⟨originInside, targetInside⟩ := collapsible.inside listed leaves
    obtain ⟨link, made, newId, added⟩ :=
      addInnerLink_of_joins (fun _ _ => g.outputType_member defs place group _) appended.bare joined
    have shows := memberLink?_placed place.id _ leaves originInside targetInside made
    have below : h.nextLinkId.toNat + 1 < UInt64.size := by omega
    have links := appended.ahead.links_addLink newId below
    have next := nextLinkId_addLink newId below
    have old := UInt64.le_iff_toNat_le.1 appended.next
    rw [added]
    constructor
    · exact (h.allocate.2.bare_insertLink link).trans appended.bare
    · exact appended.ahead.addLink newId below
    · rw [insertLink_eq]
      exact putLink_distinct link h.links appended.distinct
    · rw [UInt64.le_iff_toNat_le, next]
      omega
    · rw [next]
      omega
    · intro other member
      rw [links, List.mem_append, List.mem_singleton] at member
      rcases member with before | rfl
      · exact appended.links other before
      · -- The ids of the links at the start lie below the new one.
        refine .inr fun start member same => ?_
        have above := UInt64.le_iff_toNat_le.1 (collapsible.ahead start member)
        rw [same, newId, Word.toNat_raise] at above
        omega
    · rw [links, List.filterMap_append, List.map_append, appended.shown, List.filterMap_cons_some shows,
        List.filter_append, List.filter_cons_of_pos (by rw [leaves]; rfl), List.map_append]
      rfl
    · intro shown member
      rw [links, List.filterMap_append, List.mem_append] at member
      rcases member with before | new
      · exact appended.typed shown before
      · rw [List.filterMap_cons_some shows, List.filterMap_nil, List.mem_singleton] at new
        rw [GroupLink.placed?, leaves] at made
        cases made
        rw [new]
        simpa [GroupLink.isFlow, Json.text?] using collapsible.outputType_ne_flow inner
  · rw [if_neg joined] at room
    obtain ⟨origin, slot, type, added⟩ := addInnerLink_eq defs group.config place.id h inner
    have entering : [inner].filter (·.origin.isSome) = [] :=
      List.filter_cons_of_neg (mt (collapsible.joins_iff listed).2 joined)
    rw [added, if_neg joined]
    refine ⟨appended.bare, appended.ahead, appended.distinct, appended.next, by omega, appended.links, ?_,
      appended.typed⟩
    rw [appended.shown, List.filter_append, entering, List.append_nil]

include collapsible in
theorem Collapsible.appended {done rest : List GroupLink} {h : Graph} (split : group.config.links = done ++ rest)
    (before : Appended g defs place group done rest h) :
    Appended g defs place group group.config.links [] (rest.foldl (addInnerLink defs group.config place.id) h) := by
  induction rest generalizing done h with
  | nil =>
    rw [List.append_nil] at split
    rw [split]
    exact before
  | cons inner rest ih =>
    have again : group.config.links = (done ++ [inner]) ++ rest := by rw [split, List.append_assoc]; rfl
    have listed : inner ∈ group.config.links := by rw [split]; exact List.mem_append_right _ List.mem_cons_self
    exact ih again (collapsible.append listed before)

/-! ### The later stages -/

-- What shows of the links, while each of them keeps to where it may be.
structure Showing (place : NodeId) (count : Nat) (keeps : Link → Prop) (shown : List GroupLink) (h : Graph) : Prop where
  distinct : (h.links.map (·.id)).Nodup
  shown : h.links.filterMap (memberLink? place count) = shown
  keeps : ∀ link ∈ h.links, keeps link

section Reroute

variable {h : Graph} {change : LinkId × (Link → Option Link)} {link : Link} (found : h.link? change.1 = some link)

theorem reroute_of_unknown (unknown : h.link? change.1 = none) : h.reroute change = h := by
  rw [reroute, unknown]

include found in
theorem links_reroute_of_some {moved : Link} (result : change.2 link = some moved) :
    (h.reroute change).links = putLink moved h.links := by
  simp only [reroute, found, result, insertLink_eq]

include found in
theorem links_reroute_of_none (result : change.2 link = none) :
    (h.reroute change).links = h.links.filter (·.id ≠ change.1) := by
  simp only [reroute, found, result, removeLink_eq]

theorem reroute_none (id : LinkId) : h.reroute (id, fun _ => none) = h.removeLink id := by
  rw [reroute]
  cases unknown : h.link? id with
  | none => rw [removeLink, unknown]
  | some link => rfl

end Reroute

section Showing

variable {place : NodeId} {count : Nat} {keeps : Link → Prop} {shown : List GroupLink} {h : Graph}

theorem Showing.weaken {fewer : Link → Prop} (showing : Showing place count keeps shown h)
    (less : ∀ link ∈ h.links, keeps link → fewer link) : Showing place count fewer shown h :=
  ⟨showing.distinct, showing.shown, fun link member => less link member (showing.keeps link member)⟩

theorem Showing.reroute (showing : Showing place count keeps shown h) (change : LinkId × (Link → Option Link))
    (silent : ∀ link, keeps link → link.id = change.1 → memberLink? place count link = none ∧
      ∀ moved, change.2 link = some moved → moved.id = link.id ∧ memberLink? place count moved = none ∧ keeps moved) :
    Showing place count keeps shown (h.reroute change) := by
  have distinct := distinct_reroute showing.distinct change
  have others : ∀ other ∈ h.links, other.id = change.1 → memberLink? place count other = none :=
    fun other inside same => (silent other (showing.keeps other inside) same).1
  cases found : h.link? change.1 with
  | none =>
    rw [reroute_of_unknown found]
    exact showing
  | some link =>
    obtain ⟨_, after⟩ := silent link (showing.keeps link (mem_of_link? found)) (id_of_link? found)
    cases result : change.2 link with
    | some moved =>
      obtain ⟨sameId, hidden, kept⟩ := after moved result
      have links := links_reroute_of_some found result
      refine ⟨distinct, ?_, fun other inside => ?_⟩
      · rw [links, ← showing.shown]
        refine filterMap_putLink _ moved h.links hidden fun other inside same => others other inside ?_
        rw [same, sameId, id_of_link? found]
      · rw [links] at inside
        rcases (mem_putLink moved other h.links showing.distinct).1 inside with rfl | ⟨old, _⟩
        · exact kept
        · exact showing.keeps other old
    | none =>
      have links := links_reroute_of_none found result
      refine ⟨distinct, ?_, fun other inside => ?_⟩
      · rw [links, ← showing.shown]
        refine filterMap_filter_silent _ _ h.links fun other inside dropped => others other inside ?_
        simpa using dropped
      · rw [links] at inside
        exact showing.keeps other (List.mem_filter.1 inside).1

theorem Showing.removeNode (showing : Showing place count keeps shown h) (id : NodeId)
    (outside : ¬ place.IsMember count id) : (h.removeNode id).links.filterMap (memberLink? place count) = shown := by
  have hidden : ∀ link ∈ h.links, link.id ∈ (h.links.filter (touches id)).map (·.id) →
      memberLink? place count link = none := by
    intro link member listed
    obtain ⟨twin, inside, same⟩ := List.mem_map.1 listed
    obtain ⟨twinMember, touched⟩ := List.mem_filter.1 inside
    rw [← List.inj_on_of_nodup_map showing.distinct twinMember member same]
    simp only [touches, Bool.or_eq_true, beq_iff_eq] at touched
    rcases touched with origin | target
    · exact memberLink?_of_origin _ _ (origin ▸ outside)
    · exact memberLink?_of_target _ _ (target ▸ outside)
  have removed : Showing place count
      (fun link => link.id ∈ (h.links.filter (touches id)).map (·.id) → memberLink? place count link = none) shown
      (((h.links.filter (touches id)).map (·.id)).foldl removeLink h) := by
    refine List.foldlRecOn _ _ (showing.weaken fun link member _ => hidden link member) fun after showing gone listed => ?_
    rw [← reroute_none]
    refine showing.reroute _ fun link silent same => ⟨silent (same ▸ listed), fun moved none => ?_⟩
    cases none
  exact removed.shown

end Showing

section Stages

variable (g : Graph) (place : NodeId) (count : Nat) (link : Link)

-- A link that was there at the start does not leave a member.
def OriginOut : Prop := ∀ old ∈ g.links, old.id = link.id → ¬ place.IsMember count link.origin

-- A link that left the instance at the start does not come to a member.
def TargetOut : Prop := ∀ old ∈ g.links, old.id = link.id → old.origin = place → ¬ place.IsMember count link.target

end Stages

include collapsible in
theorem Collapsible.showing_membersLinked (appended : Appended g defs place group group.config.links []
    (g.membersLinked defs place group)) : Showing place.id group.config.nodes.length
      (fun link => OriginOut g place.id group.config.nodes.length link ∧
        TargetOut g place.id group.config.nodes.length link)
      ((g.membersLinked defs place group).links.filterMap (memberLink? place.id group.config.nodes.length))
      (g.membersLinked defs place group) := by
  refine ⟨appended.distinct, rfl, fun link member => ?_⟩
  rcases appended.links link member with old | new
  · obtain ⟨origin, target⟩ := collapsible.outside old
    exact ⟨fun _ _ _ => origin, fun _ _ _ _ => target⟩
  · exact ⟨fun old inside same => absurd same (new old inside), fun old inside same => absurd same (new old inside)⟩

include collapsible in
theorem Collapsible.showing_inputsMoved {shown : List GroupLink}
    (showing : Showing place.id group.config.nodes.length
      (fun link => OriginOut g place.id group.config.nodes.length link ∧
        TargetOut g place.id group.config.nodes.length link) shown (g.membersLinked defs place group)) :
    Showing place.id group.config.nodes.length
      (fun link => OriginOut g place.id group.config.nodes.length link ∧
        TargetOut g place.id group.config.nodes.length link) shown (g.inputsMoved defs place group) := by
  refine List.foldlRecOn _ _ showing fun h showing entry inside => ?_
  rw [moveInput_eq]
  refine List.foldlRecOn _ _ showing fun h showing id held => showing.reroute _ fun link keeps same => ?_
  -- The link goes to the instance, and was there at the start.
  obtain ⟨slot, there⟩ := List.mem_iff_getElem?.1
    (List.mem_of_mem_drop (List.mem_of_getElem? (List.mk_mem_zipIdx_iff_getElem?.1 inside)))
  have input := (inputAt?_eq_some_iff collapsible.wired.nodeIds place.id slot entry.1).2
    ⟨place, collapsible.present, rfl, there⟩
  obtain ⟨old, member, sameOld, enters⟩ :=
    (collapsible.wired.inputs place.id slot entry.1 input id).1 (Option.mem_toList.1 held)
  have out := keeps.1 old member (sameOld.trans same.symm)
  refine ⟨memberLink?_of_origin _ _ out, fun moved made => ?_⟩
  obtain ⟨inner, _, rfl⟩ := Option.map_eq_some_iff.1 made
  refine ⟨rfl, memberLink?_of_origin _ _ out, fun _ _ _ => out, fun twin twinMember sameTwin leaves => ?_⟩
  have single := collapsible.wired.link_unique twinMember member (sameTwin.trans (same.trans sameOld.symm))
  rw [single] at leaves
  exact absurd enters.1 (collapsible.apart old member leaves)

include collapsible in
theorem Collapsible.showing_outputsMoved {shown : List GroupLink}
    (showing : Showing place.id group.config.nodes.length
      (TargetOut g place.id group.config.nodes.length) shown (g.inputsMoved defs place group)) :
    Showing place.id group.config.nodes.length
      (TargetOut g place.id group.config.nodes.length) shown (g.outputsMoved defs place group) := by
  refine List.foldlRecOn _ _ showing fun h showing entry inside => ?_
  refine List.foldlRecOn _ _ showing fun h showing id held => ?_
  rw [moveOrigin_eq]
  refine showing.reroute _ fun link keeps same => ?_
  -- The link left the instance at the start.
  obtain ⟨slot, there⟩ := List.mem_iff_getElem?.1
    (List.mem_of_mem_drop (List.mem_of_getElem? (List.mk_mem_zipIdx_iff_getElem?.1 inside)))
  have output := (outputAt?_eq_some_iff collapsible.wired.nodeIds place.id slot entry.1).2
    ⟨place, collapsible.present, rfl, there⟩
  obtain ⟨old, member, sameOld, leaves⟩ := ((collapsible.wired.outputs place.id slot entry.1 output).2 id).1 held
  have out := keeps old member (sameOld.trans same.symm) leaves.1
  refine ⟨memberLink?_of_target _ _ out, fun moved made => ?_⟩
  obtain ⟨source, _, rfl⟩ := Option.map_eq_some_iff.1 made
  exact ⟨rfl, memberLink?_of_target _ _ out, keeps⟩

include collapsible in
/-- The links between the members are in the end those of the config, in its order and without sequencing. -/
theorem Collapsible.shown_expandInstance :
    (((g.expandInstance defs place group).links.filterMap (memberLink? place.id group.config.nodes.length)).map
        (·.sketch) = group.config.innerLinks.map (·.sketch)) ∧
      ∀ inner ∈ (g.expandInstance defs place group).links.filterMap
        (memberLink? place.id group.config.nodes.length), inner.isFlow = false := by
  have appended : Appended g defs place group group.config.links [] (g.membersLinked defs place group) :=
    collapsible.appended rfl collapsible.appended_nil
  have moved := collapsible.showing_inputsMoved (collapsible.showing_membersLinked appended)
  have settled := collapsible.showing_outputsMoved (moved.weaken fun _ _ keeps => keeps.2)
  have final := settled.removeNode place.id (place.id.not_isMember_self _)
  rw [expandInstance_eq, final]
  exact ⟨appended.shown, appended.typed⟩

/-! ### The members -/

include collapsible in
theorem Collapsible.node?_member {k : Nat} (inside : k < group.config.nodes.length) :
    ∃ node widgets, (g.expandInstance defs place group).node? (place.id.member k) = some node ∧
      node.unlinked = { group.config.nodes[k].unlinked with id := place.id.member k, widgets := widgets } := by
  obtain ⟨template, widgets, listed, found⟩ := g.node?_member defs place group
    ((g.position? place.id).getD g.nodes.length) k (collapsible.places inside)
  rw [List.getElem?_eq_getElem inside, Option.some.injEq] at listed
  have distinct : ((group.placedMembers defs place).map (·.id)).Nodup :=
    (group.placedMembers_displays defs place).of_map _
  have bare := g.bare_find?_expandInstance defs place group (place.id.member k)
  rw [if_neg (place.id.member_ne_self k), ← node?_insertNodes g _ _ distinct, found, ← listed] at bare
  obtain ⟨node, there, same⟩ := Option.map_eq_some_iff.1 bare
  refine ⟨node, widgets, there, same.trans ?_⟩
  simp only [Node.unlinked, List.map_map]
  rfl

include collapsible in
theorem Collapsible.collapse?_expandInstance :
    ∃ config, (g.expandInstance defs place group).collapse? place.id group.config.nodes.length = some config ∧
      config.sketch = group.config.sketch ∧ ∀ link ∈ config.links, link.isFlow = false := by
  obtain ⟨shown, typed⟩ := collapsible.shown_expandInstance
  let make (k : Nat) : Option Node := do
    let node ← (g.expandInstance defs place group).node? (place.id.member k)
    return { node.unlinked with id := .number (Int64.ofNat k) }
  have each : ∀ k ∈ List.range group.config.nodes.length, (make k).isSome ∧
      (make k).map (·.sketch) = (group.config.nodes.map (·.sketch))[k]? := by
    intro k listed
    have inside := List.mem_range.1 listed
    obtain ⟨node, widgets, found, same⟩ := collapsible.node?_member inside
    have made : make k = some { node.unlinked with id := .number (Int64.ofNat k) } := by
      simp only [make, found]
      rfl
    rw [made, List.getElem?_map, List.getElem?_eq_getElem inside, same]
    refine ⟨rfl, ?_⟩
    simp only [Option.map_some, Node.sketch, Node.unlinked, List.map_map]
    rfl
  obtain ⟨nodes, whole, listed⟩ := mapM_eq_some_of_isSome make _ fun k inside => (each k inside).1
  have sketches : nodes.map (·.sketch) = group.config.nodes.map (·.sketch) := by
    refine List.map_injective_iff.2 (fun _ _ => Option.some.inj) ?_
    calc (nodes.map (·.sketch)).map some
        = (nodes.map some).map (Option.map (·.sketch)) := by simp only [List.map_map]; rfl
      _ = (List.range group.config.nodes.length).map ((group.config.nodes.map (·.sketch))[·]?) := by
        rw [listed, List.map_map]
        exact List.map_congr_left fun k inside => (each k inside).2
      _ = (group.config.nodes.map (·.sketch)).map some := by
        refine List.ext_getElem (by simp) fun k _ inside => ?_
        have inside : k < (group.config.nodes.map (·.sketch)).length := by simpa using inside
        rw [List.getElem_map, List.getElem_range, List.getElem_map, List.getElem?_eq_getElem inside]
  refine ⟨⟨nodes, _, []⟩, by rw [collapse?, whole]; rfl, ?_, typed⟩
  have all : ((g.expandInstance defs place group).links.filterMap
      (memberLink? place.id group.config.nodes.length)).filter (·.origin.isSome) =
        (g.expandInstance defs place group).links.filterMap (memberLink? place.id group.config.nodes.length) := by
    refine List.filter_eq_self.2 fun inner member => ?_
    obtain ⟨link, _, shows⟩ := List.mem_filterMap.1 member
    exact isSome_origin_memberLink? shows
  rw [GroupConfig.sketch, GroupConfig.sketch, GroupConfig.innerLinks, all, shown, sketches]

end Collapsible

/-! ### The whole expansion -/

section Expansion

variable {g : Graph} {defs : Definitions} {place : Node} {group : GroupDef}

-- The expansion ends after its only instance.
theorem Collapsible.expandGroups_eq (collapsible : g.Collapsible defs place group) (missing : List String)
    (found : defs.group? place.type = some group) (normal : defs.registry.participation place = .normal)
    (only : ∀ node ∈ g.nodes, (defs.group? node.type).isSome → node = place)
    (single : ∀ node ∈ group.config.nodes, defs.group? node.type = none) :
    (g.expandGroups defs missing).graph = g.expandInstance defs place group := by
  have distinct := collapsible.wired.nodeIds
  have there : g.node? place.id = some place :=
    (node?_eq_some_iff distinct place.id place).2 ⟨collapsible.present, rfl⟩
  have hosts : defs.isInstance g place.id := by
    rw [Definitions.isInstance, there, Option.any_some, found]
    rfl
  have others : ∀ id, defs.isInstance g id → id = place.id := by
    intro id instanced
    obtain ⟨node, listed, known⟩ := (Option.any_eq_true _ _).1 instanced
    rw [← id_of_node? listed, only node (List.mem_of_find?_eq_some listed) known]
  have queue : g.nodeIds.filter (defs.isInstance g) = [place.id] := by
    rw [filter_eq_find? _ id g.nodeIds (by rwa [List.map_id])
      fun x _ y _ instanced alike => (others x instanced).trans (others y alike).symm]
    cases first : g.nodeIds.find? (defs.isInstance g) with
    | none => exact absurd hosts (List.find?_eq_none.1 first place.id (List.mem_map_of_mem collapsible.present))
    | some id => rw [others id (List.find?_some first), Option.toList_some]
  have free : defs.expandable? g ⟨place.id, []⟩ = some (place, group) := by
    rw [Definitions.expandable?, there]
    simp only [found, normal, true_and, List.not_mem_nil, not_false_eq_true, if_true]
  have none : defs.nestedInstances (g.expandInstance defs place group) ⟨place.id, []⟩ group = [] := by
    rw [List.eq_nil_iff_forall_not_mem]
    intro entry listed
    obtain ⟨k, template, known, instanced, _⟩ := Definitions.mem_nestedInstances.1 listed
    obtain ⟨node, member, hosting⟩ := (Option.any_eq_true _ _).1 instanced
    rcases (g.node?_expandInstance defs place group member).2 with ⟨j, original, listed, _, type, _⟩ | ⟨apart, _⟩
    · have inside : original ∈ group.config.nodes := List.mem_of_getElem? (Definitions.getElem?_of_knownMembers listed)
      rw [type, single original inside] at hosting
      cases hosting
    · exact apart k template known rfl
  have turn : ExpansionStep defs (⟨g, missing, 0⟩, [⟨place.id, []⟩]) _ := .replace _ _ [] place group free
  rw [expandGroups, queue, List.map_singleton, Definitions.expandQueue_of_reaches (.single turn)]
  simp only [none, List.append_nil]
  rw [expandQueue]

/-- Collapsing what the expansion of a group has left gives a config that is described as the group was: by the same
operation, with the same slots. -/
theorem collapse?_expandGroups {defs : Definitions} {r : Registry} {configs : Table GroupConfig}
    (made : defs = Definitions.withGroups r configs) (g : Graph) (missing : List String) (wired : g.Wired)
    (ahead : g.Ahead) {place : Node} (present : place ∈ g.nodes) {group : GroupDef}
    (found : defs.group? place.type = some group) (normal : defs.registry.participation place = .normal)
    (only : ∀ node ∈ g.nodes, (defs.group? node.type).isSome → node = place)
    (known : ∀ node ∈ group.config.nodes, defs.isKnown node.type = true)
    (single : ∀ node ∈ group.config.nodes, defs.group? node.type = none)
    (data : ∀ node ∈ group.config.nodes, node.hasFlowSlot = false)
    (inRange : ∀ link ∈ group.config.links,
      link.origin.all (·.toNat < group.config.nodes.length) ∧ link.target.toNat < group.config.nodes.length)
    (free : g.FreeFor defs group.config place.id) (room : defs.HasRoom g group)
    (apart : ∀ link ∈ g.links, link.origin = place.id → link.target ≠ place.id) :
    ∃ config, (g.expandGroups defs missing).graph.collapse? place.id group.config.nodes.length = some config ∧
      (defs.describe group.name config).operation = group.operation ∧
      (defs.describe group.name config).exposure = group.exposure := by
  have collapsible : g.Collapsible defs place group :=
    ⟨wired, ahead, present, free, room, known, data, inRange, apart⟩
  obtain ⟨config, collapsed, alike, links⟩ := collapsible.collapse?_expandInstance
  rw [collapsible.expandGroups_eq missing found normal only single]
  refine ⟨config, collapsed, ?_⟩
  have described : defs.Describes group := by
    rw [made] at found ⊢
    exact Definitions.withGroups_describes r configs found
  obtain ⟨original, lookup, built, operations⟩ := described
  have own : original.withoutFlow = group.config := by rw [built]; rfl
  have members : ∀ node ∈ config.nodes, node.hasFlowSlot = false := by
    intro node member
    have listed : node.sketch ∈ group.config.nodes.map (·.sketch) := by
      have nodes : config.nodes.map (·.sketch) = group.config.nodes.map (·.sketch) := congrArg GroupConfig.nodes alike
      exact nodes ▸ List.mem_map_of_mem member
    obtain ⟨template, inside, same⟩ := List.mem_map.1 listed
    rw [← node.hasFlowSlot_sketch, ← same, template.hasFlowSlot_sketch, data template inside]
  have sketches : original.withoutFlow.sketch = config.withoutFlow.sketch := by
    rw [own, GroupConfig.sketch_withoutFlow members links, alike]
  have lookups : ∀ node ∈ original.withoutFlow.nodes, lookup node.type = defs.operation? node.type :=
    fun node member => operations node.type (single node (own ▸ member))
  obtain ⟨operation, exposure⟩ := GroupDef.build_congr original config group.name defs.registry sketches lookups
  rw [← built] at operation exposure
  exact ⟨operation.symm, exposure.symm⟩

-- A sampler that feeds another one and a reroute at the boundary, between two samplers.
def forkConfig : GroupConfig :=
  ⟨[chained (.number 0) "Sampler" none none, chained (.number 1) "Sampler" none none,
    chained (.number 2) "Reroute" none none], [⟨some 0, 0, 1, 0, []⟩, ⟨none, 0, 0, 0, []⟩, ⟨some 0, 0, 2, 0, []⟩], []⟩

def forkDefinitions : Definitions :=
  .withGroups nestedDefinitions.registry (.ofList [("fork", forkConfig), ("pair", pairConfig)])

def forkInstance : Node := chained (.number 3) "workflow/fork" (some 1) (some [2])

def forking : Graph where
  nodes := [chained (.number 1) "Sampler" none (some [1]), forkInstance, chained (.number 2) "Sampler" (some 2) none]
  links := [⟨1, .number 1, 0, .number 3, 0, "LATENT"⟩, ⟨2, .number 3, 0, .number 2, 0, "LATENT"⟩]
  nextLinkId := 3

theorem collapse?_expandGroups_forking :
    forking.Wired ∧ forking.Ahead ∧ forkInstance ∈ forking.nodes ∧
      (forkDefinitions.group? forkInstance.type).map (·.exposure.outputs) = some [⟨1, 0⟩, ⟨2, 0⟩] ∧
      ∃ config, (forking.expandGroups forkDefinitions []).graph.collapse? (.number 3) 3 = some config ∧
        some (forkDefinitions.describe "fork" config).operation =
          (forkDefinitions.group? forkInstance.type).map (·.operation) ∧
        some (forkDefinitions.describe "fork" config).exposure =
          (forkDefinitions.group? forkInstance.type).map (·.exposure) := by
  have found : forkDefinitions.group? forkInstance.type = some (forkDefinitions.describe "fork" forkConfig) := by
    decide +kernel
  have wired : forking.Wired := by decide +kernel
  have ahead : forking.Ahead := by decide +kernel
  have present : forkInstance ∈ forking.nodes := by decide +kernel
  rw [found]
  refine ⟨wired, ahead, present, by decide +kernel, ?_⟩
  obtain ⟨config, collapsed, operation, exposure⟩ := collapse?_expandGroups rfl forking [] wired ahead present found
    (by decide +kernel) (by decide +kernel) (by decide +kernel) (by decide +kernel) (by decide +kernel)
    (by decide +kernel) (by decide +kernel) (by decide +kernel) (by decide +kernel)
  exact ⟨config, collapsed, congrArg some operation, congrArg some exposure⟩

end Expansion

end Graph
end Patchbay
