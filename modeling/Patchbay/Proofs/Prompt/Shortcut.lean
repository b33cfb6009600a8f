import Patchbay.Proofs.Prompt.Idle

/-!
A link that comes out of a pass-through node may be led straight from the output behind the pass-through nodes, and may
go if there is none: what is found for its input stays the same, although the search for a producer goes through other
nodes as well and may come back to the link. Main statement: `resolveInput_shortcut`.
-/
set_option autoImplicit false

namespace Patchbay

namespace Link

-- The link from another output.
def leaving (link : Link) (source : Producer) : Link := { link with origin := source.node, originSlot := source.slot }

@[simp] theorem id_leaving (link : Link) (source : Producer) : (link.leaving source).id = link.id := rfl

@[simp] theorem entersAt_leaving (link : Link) (source : Producer) (id : NodeId) (slot : Nat) :
    (link.leaving source).entersAt id slot ↔ link.entersAt id slot := Iff.rfl

-- What becomes of any link when one of them is led from another output.
def shortcut (link : Link) (source : Producer) (other : Link) : Link :=
  if other.id = link.id then link.leaving source else other

end Link

namespace Graph

-- Leads one link from another output, whatever the slots of the nodes say.
def shortcut (g : Graph) (link : Link) (source : Producer) : Graph :=
  { g with links := g.links.map (link.shortcut source) }

/-- The links that leave pass-through nodes leave the first data output, which stands behind the outputs for sequencing.
No pass-through node has more inputs than can be numbered. -/
structure RelaysPlainly (g : Graph) (r : Registry) : Prop where
  firstOutput : ∀ link ∈ g.links, ∀ node ∈ g.node? link.origin, r.isPassThrough node.type →
    link.originSlot.toNat = node.flowOutputCount
  sized : ∀ node ∈ g.nodes, r.isPassThrough node.type → node.inputs.length < UInt64.size

instance decidableRelaysPlainly (g : Graph) (r : Registry) : Decidable (g.RelaysPlainly r) :=
  decidable_of_iff ((∀ link ∈ g.links, ∀ node ∈ g.node? link.origin, r.isPassThrough node.type →
      link.originSlot.toNat = node.flowOutputCount) ∧
      ∀ node ∈ g.nodes, r.isPassThrough node.type → node.inputs.length < UInt64.size)
    ⟨fun ⟨firstOutput, sized⟩ => ⟨firstOutput, sized⟩, fun plain => ⟨plain.firstOutput, plain.sized⟩⟩

section Steps

variable {g : Graph} {r : Registry} {type : String}

theorem follow_of_visited {unvisited : List NodeId} {link : Link} (visited : link.origin ∉ unvisited) :
    g.follow r type unvisited link = none := by
  rw [follow_eq]
  cases g.node? link.origin <;> simp [visited]

theorem follow_congr_origin (unvisited : List NodeId) {link other : Link} (origin : link.origin = other.origin)
    (slot : link.originSlot = other.originSlot) : g.follow r type unvisited link = g.follow r type unvisited other := by
  rw [follow_eq, follow_eq, origin, slot]

variable (plain : g.RelaysPlainly r)

include plain in
theorem RelaysPlainly.passedInput? {link : Link} (member : link ∈ g.links) {node : Node}
    (found : g.node? link.origin = some node) (through : r.isPassThrough node.type) :
    node.passedInput? r type link.originSlot = some node.flowInputCount := by
  have first := plain.firstOutput link member node found through
  have count : node.flowInputCount ≤ node.inputs.length := List.countP_le_length
  have size := plain.sized node (List.mem_of_find?_eq_some found) through
  rw [Node.passedInput?, Registry.participation_of_isPassThrough through]
  simp only [Node.virtualInput?, Word.lower?, first, Nat.le_refl, if_true, Option.map_some, Option.some.injEq]
  rw [UInt64.toNat_add, Word.ofCount, UInt64.toNat_ofNat', Word.toNat_lower, first]
  simp only [UInt64.size] at size
  omega

include plain in
/-- At a pass-through node the search for a producer takes the same step as the one behind pass-through nodes, also in
another graph with the same nodes. -/
theorem RelaysPlainly.follow {h : Graph} {link : Link} (member : link ∈ g.links) {node : Node}
    (found : g.node? link.origin = some node) (through : r.isPassThrough node.type)
    (alike : (g.node? link.origin).map (·.unlinked) = (h.node? link.origin).map (·.unlinked)) (unvisited : List NodeId) :
    h.follow r type unvisited link =
      if link.origin ∈ unvisited then
        (h.incoming? link.origin node.flowInputCount).bind (h.follow r type (without link.origin unvisited))
      else none := by
  rw [found] at alike
  obtain ⟨other, there, same⟩ := Option.map_eq_some_iff.1 alike.symm
  have active : r.participation node ≠ .normal := by
    rw [Registry.participation_of_isPassThrough through]
    exact Participation.noConfusion
  rw [follow_eq, there, Option.bind_some, Node.participation_of_unlinked same r, if_neg active,
    Node.passedInput?_congr same, plain.passedInput? member found through, Option.bind_some]

include plain in
theorem RelaysPlainly.follow_of_nothing {unvisited : List NodeId} {link : Link} (member : link ∈ g.links)
    (nothing : g.behindPassThrough r unvisited ⟨link.origin, link.originSlot⟩ = none) :
    g.follow r type unvisited link = none := by
  generalize same : (⟨link.origin, link.originSlot⟩ : Producer) = producer at nothing
  fun_induction behindPassThrough g r unvisited producer generalizing link with
  | case1 unvisited producer unknown =>
    subst same
    rw [follow_eq, unknown, Option.bind_none]
  | case2 unvisited producer node there through unseen next fed ih =>
    subst same
    rw [plain.follow member there through rfl, if_pos unseen, fed, Option.bind_some]
    exact ih (mem_of_incoming? fed) rfl nothing
  | case3 unvisited producer node there through unseen unfed =>
    subst same
    rw [plain.follow member there through rfl, if_pos unseen, unfed, Option.bind_none]
  | case4 unvisited producer node there through seen =>
    subst same
    exact follow_of_visited seen
  | case5 => cases nothing

variable (type) in
include plain in
/-- The search goes the way to the output behind the pass-through nodes. What it has been to by then are nodes from which
the way leads there. -/
theorem RelaysPlainly.follow_of_source {unvisited : List NodeId} {link : Link} (member : link ∈ g.links)
    {source : Producer} (behind : g.behindPassThrough r unvisited ⟨link.origin, link.originSlot⟩ = some source) :
    ∃ left, left ⊆ unvisited ∧ (link.origin ∈ left → link.origin = source.node) ∧
      (∀ id ∈ unvisited, id ∉ left → ∃ steps slot, g.Forwards r (steps + 1) ⟨id, slot⟩ source) ∧
      g.follow r type unvisited link = g.follow r type left (link.leaving source) := by
  generalize same : (⟨link.origin, link.originSlot⟩ : Producer) = producer at behind
  fun_induction behindPassThrough g r unvisited producer generalizing link with
  | case1 => cases behind
  | case2 unvisited producer node there through unseen next fed ih =>
    subst same
    obtain ⟨left, sub, _, lost, onward⟩ := ih (mem_of_incoming? fed) rfl behind
    obtain ⟨steps, rest⟩ := forwards_of_behindPassThrough behind
    have walk := Forwards.back steps ⟨link.origin, link.originSlot⟩ source node next there through fed rest
    refine ⟨left, fun id inside => (mem_without_iff.1 (sub inside)).1, fun inside => ?_, fun id inside out => ?_, ?_⟩
    · exact absurd rfl (mem_without_iff.1 (sub inside)).2
    · by_cases here : id = link.origin
      · exact ⟨steps, link.originSlot, here ▸ walk⟩
      · exact lost id (mem_without_iff.2 ⟨inside, here⟩) out
    · rw [plain.follow member there through rfl, if_pos unseen, fed, Option.bind_some, onward]
      exact follow_congr_origin left rfl rfl
  | case3 => cases behind
  | case4 => cases behind
  | case5 unvisited producer node there real =>
    subst same
    cases behind
    exact ⟨unvisited, fun _ inside => inside, fun _ => rfl, fun _ inside out => absurd inside out,
      follow_congr_origin unvisited rfl rfl⟩

end Steps

/-- The graphs have the same nodes but for links, and the same links at the same slots but for the one that is led from
another output. -/
structure Shortened (link : Link) (source : Producer) (g h : Graph) : Prop where
  nodes : ∀ id, (g.node? id).map (·.unlinked) = (h.node? id).map (·.unlinked)
  fed : ∀ id slot, h.incoming? id slot = (g.incoming? id slot).map (link.shortcut source)

section Shortened

variable {g h : Graph} {r : Registry} {link : Link} {source : Producer} (short : Shortened link source g h)
  (plain : g.RelaysPlainly r) (type : String)

include short in
theorem Shortened.fed_bind (id : NodeId) (slot : Nat) :
    h.incoming? id slot = (g.incoming? id slot).bind (some ∘ link.shortcut source) :=
  (short.fed id slot).trans Option.map_eq_bind

include short plain in
-- Once the walk has been at the source, nothing comes of a link from which the way leads there.
theorem Shortened.follow_back {steps : Nat} {producer : Producer} (walk : g.Forwards r steps producer source)
    (unvisited : List NodeId) (gone : source.node ∉ unvisited) (other : Link) (member : other ∈ g.links)
    (here : other.origin = producer.node) : h.follow r type unvisited (link.shortcut source other) = none := by
  by_cases led : other.id = link.id
  · rw [Link.shortcut, if_pos led]
    exact follow_of_visited gone
  rw [Link.shortcut, if_neg led]
  cases walk with
  | here => exact follow_of_visited (here ▸ gone)
  | back steps producer source node next found through fed rest =>
    rw [← here] at found fed
    rw [plain.follow member found through (short.nodes _), short.fed, fed, Option.map_some, Option.bind_some]
    by_cases unseen : other.origin ∈ unvisited
    · rw [if_pos unseen]
      have goneToo : source.node ∉ without other.origin unvisited := fun inside => gone (mem_without_iff.1 inside).1
      exact Shortened.follow_back rest _ goneToo next (mem_of_incoming? fed) rfl
    · rw [if_neg unseen]
termination_by steps

include short plain in
/-- After the source the walks keep in step. The one that went through the pass-through nodes must not go there again;
if the other one does, it comes back to the source. -/
theorem Shortened.follow (known : g.link? link.id = some link) (unvisited left : List NodeId) (sub : left ⊆ unvisited)
    (lost : ∀ id ∈ unvisited, id ∉ left → ∃ steps slot, g.Forwards r steps ⟨id, slot⟩ source)
    (gone : source.node ∉ unvisited) (past : link.origin ∉ left) (other : Link)
    (there : g.link? other.id = some other) :
    h.follow r type unvisited (link.shortcut source other) = g.follow r type left other := by
  by_cases ahead : other.origin ∈ left
  · have kept : other.id ≠ link.id := by
      intro same
      rw [same, known] at there
      exact past (Option.some.inj there ▸ ahead)
    rw [Link.shortcut, if_neg kept]
    refine follow_step (short.nodes _) (short.fed_bind _) (iff_of_true (sub ahead) ahead) fun _ slot next onward => ?_
    refine Shortened.follow known _ _ (List.filter_subset _ sub) ?_ (fun inside => gone (mem_without_iff.1 inside).1)
      (fun inside => past (mem_without_iff.1 inside).1) next (incoming?_eq_some onward).2
    intro id inside out
    obtain ⟨inside, apart⟩ := mem_without_iff.1 inside
    exact lost id inside fun within => out (mem_without_iff.2 ⟨within, apart⟩)
  · rw [follow_of_visited ahead]
    by_cases unseen : other.origin ∈ unvisited
    · obtain ⟨steps, slot, walk⟩ := lost other.origin unseen ahead
      exact short.follow_back plain type walk unvisited gone other (mem_of_link? there) rfl
    · rw [Link.shortcut]
      split
      · exact follow_of_visited gone
      · exact follow_of_visited unseen
termination_by left.length
decreasing_by exact length_without_lt ahead

include short plain in
-- What is found for the slot that holds the link, straight from the source or through the nodes before it.
theorem Shortened.resolveInput {id : NodeId} {slot : Nat} (held : g.incoming? id slot = some link)
    (behind : g.resolvePassThrough r ⟨link.origin, link.originSlot⟩ = some source) :
    h.resolveInput r id slot = g.resolveInput r id slot := by
  refine resolveInput_congr (short.nodes id).symm fun type => ?_
  obtain ⟨left, sub, past, lost, same⟩ := plain.follow_of_source type (mem_of_incoming? held) behind
  have led : link.shortcut source link = link.leaving source := if_pos rfl
  rw [short.fed, held, Option.map_some, led, Option.bind_some, Option.bind_some, same]
  obtain ⟨steps, walk⟩ := forwards_of_behindPassThrough behind
  have atSource : source.node ∈ left := by
    by_contra out
    obtain ⟨more, slot, back⟩ := lost source.node walk.arrives.mem_nodeIds out
    exact absurd (back.steps_unique walk.arrives rfl) (Nat.succ_ne_zero more)
  have known : ∀ other, other ∈ h.nodeIds ↔ other ∈ g.nodeIds := by
    intro other
    have same := congrArg Option.isSome (short.nodes other)
    rw [Option.isSome_map, Option.isSome_map] at same
    rw [mem_nodeIds_iff, mem_nodeIds_iff, same]
  refine follow_step (short.nodes _) (short.fed_bind _) (iff_of_true ((known _).2 (sub atSource)) atSource)
    fun _ slot next onward => ?_
  refine short.follow plain type (incoming?_eq_some held).2 _ _ ?_ ?_ ?_ ?_ next (incoming?_eq_some onward).2
  · exact List.filter_subset _ fun other inside => (known other).2 (sub inside)
  · intro other inside out
    obtain ⟨inside, apart⟩ := mem_without_iff.1 inside
    have passed : other ∉ left := fun within => out (mem_without_iff.2 ⟨within, apart⟩)
    obtain ⟨steps, slot, walk⟩ := lost other ((known other).1 inside) passed
    exact ⟨steps + 1, slot, walk⟩
  · exact fun inside => (mem_without_iff.1 inside).2 rfl
  · intro inside
    obtain ⟨within, apart⟩ := mem_without_iff.1 inside
    exact apart (past within)

end Shortened

/-! ### Leading a link from another output -/

section Lead

variable {g : Graph} {link : Link}

theorem Shortened.of_reads {h : Graph} {source : Producer}
    (nodes : ∀ id, (g.node? id).map (·.unlinked) = (h.node? id).map (·.unlinked))
    (slots : ∀ id slot, (h.inputAt? id slot).bind (·.link) = (g.inputAt? id slot).bind (·.link))
    (links : ∀ id, h.link? id = (g.link? id).map (link.shortcut source)) : Shortened link source g h := by
  refine ⟨nodes, fun id slot => ?_⟩
  rw [incoming?_eq, incoming?_eq, slots]
  cases (g.inputAt? id slot).bind (·.link) with
  | none => rfl
  | some held => exact links held

theorem shortened_shortcut (g : Graph) (link : Link) (source : Producer) :
    Shortened link source g (g.shortcut link source) := by
  refine .of_reads (fun _ => rfl) (fun _ _ => rfl) fun id => ?_
  have same : ((fun other : Link => other.id == id) ∘ link.shortcut source) = fun other => other.id == id := by
    funext other
    rw [Function.comp, Link.shortcut]
    split
    next led => rw [Link.id_leaving, led]
    next => rfl
  rw [link?, shortcut, List.find?_map, same]
  rfl

theorem inputAt?_release (known : g.link? link.id = some link) (id : NodeId) (slot : Nat) :
    (g.release link.id).inputAt? id slot =
      (g.inputAt? id slot).map fun old => if link.entersAt id slot then old.without link.id else old := by
  rw [release, known]
  simp only [detach_eq, inputAt?_rewire]

theorem inputAt?_insertLink_leaving (known : g.link? link.id = some link) (source : Producer) (id : NodeId) (slot : Nat) :
    (g.insertLink (link.leaving source)).inputAt? id slot = (g.inputAt? id slot).map fun old =>
      if link.entersAt id slot then (old.without link.id).holding link.id else old := by
  rw [insertLink_eq]
  refine ((g.release link.id).inputAt?_rewire (link.leaving source) _ _ id slot).trans ?_
  rw [inputAt?_release known, Option.map_map]
  by_cases here : link.entersAt id slot <;> simp [Function.comp_def, here]

theorem link?_insertLink_leaving (known : g.link? link.id = some link) (source : Producer) (id : LinkId) :
    (g.insertLink (link.leaving source)).link? id = (g.link? id).map (link.shortcut source) := by
  have found : (g.insertLink (link.leaving source)).link? id =
      if link.id = id then some (link.leaving source) else g.link? id := by
    rw [insertLink_eq]
    exact find?_putLink (link.leaving source) g.links id
  rw [found]
  by_cases same : link.id = id
  · rw [if_pos same, ← same, known, Option.map_some, Link.shortcut, if_pos rfl]
  · rw [if_neg same]
    cases there : g.link? id with
    | none => rfl
    | some other =>
      have apart : other.id ≠ link.id := fun led => same (led.symm.trans (id_of_link? there))
      rw [Option.map_some, Link.shortcut, if_neg apart]

-- Where the slot that the link names holds it, to put the link in again from its new origin comes to the same.
theorem shortened_insertLink (held : g.incoming? link.target link.targetSlot.toNat = some link) (source : Producer) :
    Shortened link source g (g.insertLink (link.leaving source)) := by
  obtain ⟨holds, known⟩ := incoming?_eq_some held
  refine .of_reads (fun id => ?_) (fun id slot => ?_) (link?_insertLink_leaving known source)
  · rw [bare_node?, bare_node?, bare_insertLink]
  · rw [inputAt?_insertLink_leaving known]
    by_cases here : link.entersAt id slot
    · obtain ⟨rfl, rfl⟩ := here
      cases there : g.inputAt? link.target link.targetSlot.toNat with
      | none => rfl
      | some input =>
        rw [there, Option.bind_some] at holds
        simp [Link.entersAt, InputSlot.holding, holds]
    · simp [here]

theorem incoming?_removeLink_self {id : NodeId} {slot : Nat} (held : g.incoming? id slot = some link) :
    (g.removeLink link.id).incoming? id slot = none := by
  obtain ⟨holds, known⟩ := incoming?_eq_some held
  have gone : (g.removeLink link.id).link? link.id = none := by
    rw [link?, List.find?_eq_none]
    intro other member
    simpa using ((mem_removeLink g link.id other).1 member).2
  have read : (g.removeLink link.id).inputAt? id slot =
      (g.inputAt? id slot).map fun old => if link.entersAt id slot then old.without link.id else old := by
    rw [removeLink_eq]
    exact inputAt?_release known id slot
  cases there : g.inputAt? id slot with
  | none => simp [there] at holds
  | some input =>
    rw [there, Option.bind_some] at holds
    rw [incoming?_eq, read, there, Option.map_some, Option.bind_some]
    by_cases here : link.entersAt id slot
    · rw [if_pos here, InputSlot.without, if_pos holds]
      rfl
    · rw [if_neg here, holds]
      exact gone

end Lead

/-- An input finds the same producer before and after its link is led from the output behind the pass-through nodes,
whether the link is changed in its place or put in again. Where there is no such output, the input has no producer, with
the link or without it. The graph need not be wired. -/
theorem resolveInput_shortcut (g : Graph) (r : Registry) (plain : g.RelaysPlainly r) {id : NodeId} {slot : Nat}
    {link : Link} (held : g.incoming? id slot = some link) :
    (∀ source, g.resolvePassThrough r ⟨link.origin, link.originSlot⟩ = some source →
      (g.shortcut link source).resolveInput r id slot = g.resolveInput r id slot ∧
      (link.entersAt id slot →
        (g.insertLink (link.leaving source)).resolveInput r id slot = g.resolveInput r id slot)) ∧
    (g.resolvePassThrough r ⟨link.origin, link.originSlot⟩ = none →
      g.resolveInput r id slot = none ∧ (g.removeLink link.id).resolveInput r id slot = none) := by
  refine ⟨fun source behind => ⟨?_, ?_⟩, fun nothing => ⟨?_, ?_⟩⟩
  · exact (shortened_shortcut g link source).resolveInput plain held behind
  · rintro ⟨rfl, rfl⟩
    exact (shortened_insertLink held source).resolveInput plain held behind
  · rw [resolveInput_eq, held]
    cases (g.inputAt? id slot).map (·.type) with
    | none => rfl
    | some type => exact plain.follow_of_nothing (mem_of_incoming? held) nothing
  · exact resolveInput_of_unconnected (incoming?_removeLink_self held) r

-- The image comes through two reroutes. The mask goes round between a reroute and a bypassed node, and the last reroute
-- feeds itself.
def relayedGraph : Graph where
  nodes := [
    { Node.plain (.number 1) "Loader" with outputs := [{ OutputSlot.plain "image" "IMAGE" with links := some [1] }] },
    relayNode 2 1 [2], relayNode 3 2 [3], relayNode 6 4 [5, 6], relayNode 7 7 [7, 8],
    { Node.plain (.number 5) "Mixer" with
      mode := .bypassed
      inputs := [{ InputSlot.plain "mask" "MASK" with link := some 5 }]
      outputs := [{ OutputSlot.plain "mask" "MASK" with links := some [4] }] },
    { Node.plain (.number 4) "Blur" with
      inputs := [{ InputSlot.plain "image" "IMAGE" with link := some 3 },
        { InputSlot.plain "mask" "MASK" with link := some 6 }, { InputSlot.plain "amount" "INT" with link := some 8 }] }]
  links := [⟨1, .number 1, 0, .number 2, 0, "IMAGE"⟩, ⟨2, .number 2, 0, .number 3, 0, "IMAGE"⟩,
    ⟨3, .number 3, 0, .number 4, 0, "IMAGE"⟩, ⟨4, .number 5, 0, .number 6, 0, "MASK"⟩,
    ⟨5, .number 6, 0, .number 5, 0, "MASK"⟩, ⟨6, .number 6, 0, .number 4, 1, "MASK"⟩,
    ⟨7, .number 7, 0, .number 7, 0, "INT"⟩, ⟨8, .number 7, 0, .number 4, 2, "INT"⟩]
  nextLinkId := 9

theorem resolveInput_shortcut_relayed :
    relayedGraph.RelaysPlainly blurDefinitions.registry ∧
      (relayedGraph.insertLink ⟨3, .number 1, 0, .number 4, 0, "IMAGE"⟩).resolveInput blurDefinitions.registry
        (.number 4) 0 = some ⟨.number 1, 0⟩ ∧
      (relayedGraph.insertLink ⟨6, .number 5, 0, .number 4, 1, "MASK"⟩).resolveInput blurDefinitions.registry
        (.number 4) 1 = none ∧
      relayedGraph.resolveInput blurDefinitions.registry (.number 4) 2 = none := by
  have plain : relayedGraph.RelaysPlainly blurDefinitions.registry := by decide +kernel
  have image : relayedGraph.incoming? (.number 4) 0 = some ⟨3, .number 3, 0, .number 4, 0, "IMAGE"⟩ := by decide +kernel
  have mask : relayedGraph.incoming? (.number 4) 1 = some ⟨6, .number 6, 0, .number 4, 1, "MASK"⟩ := by decide +kernel
  have amount : relayedGraph.incoming? (.number 4) 2 = some ⟨8, .number 7, 0, .number 4, 2, "INT"⟩ := by decide +kernel
  refine ⟨plain, ?_, ?_, ?_⟩
  · have same := ((resolveInput_shortcut relayedGraph blurDefinitions.registry plain image).1 ⟨.number 1, 0⟩
      (by decide +kernel)).2 (by decide +kernel)
    exact same.trans (by decide +kernel)
  · have same := ((resolveInput_shortcut relayedGraph blurDefinitions.registry plain mask).1 ⟨.number 5, 0⟩
      (by decide +kernel)).2 (by decide +kernel)
    exact same.trans (by decide +kernel)
  · exact ((resolveInput_shortcut relayedGraph blurDefinitions.registry plain amount).2 (by decide +kernel)).1

end Graph
end Patchbay
