import Patchbay.Graph.Producer
import Patchbay.Proofs.Graph.Bare

/-!
Going back through pass-through nodes, step by step. The search of the program finds whatever such a walk comes
to, and two wired graphs that are alike behind a node have the same walks from there.
-/
set_option autoImplicit false

namespace Patchbay

theorem Registry.participation_of_isPassThrough {r : Registry} {node : Node} (through : r.isPassThrough node.type) :
    r.participation node = .virtual := by
  have kind : r.virtualKind? node.type = some .passThrough := eq_of_beq through
  have known : r.virtualNodes.contains node.type = true := Option.isSome_of_eq_some kind
  rw [Registry.participation, known, if_pos rfl]

namespace Graph

/-! ### Links by their ids and ends -/

theorem Wired.link?_eq_some_iff {g : Graph} (wired : g.Wired) {id : LinkId} {link : Link} :
    g.link? id = some link ↔ link ∈ g.links ∧ link.id = id :=
  find?_eq_some_iff_of_nodup Link.id wired.linkIds id link

theorem incoming?_eq (g : Graph) (id : NodeId) (slot : Nat) :
    g.incoming? id slot = ((g.inputAt? id slot).bind (·.link)).bind g.link? := by
  rw [incoming?, inputAt?]
  cases g.node? id <;> rfl

theorem incoming?_eq_some {g : Graph} {id : NodeId} {slot : Nat} {link : Link} (fed : g.incoming? id slot = some link) :
    (g.inputAt? id slot).bind (·.link) = some link.id ∧ g.link? link.id = some link := by
  rw [incoming?_eq] at fed
  obtain ⟨held, there, found⟩ := Option.bind_eq_some_iff.1 fed
  rw [id_of_link? found]
  exact ⟨there, found⟩

theorem mem_of_incoming? {g : Graph} {id : NodeId} {slot : Nat} {link : Link} (fed : g.incoming? id slot = some link) :
    link ∈ g.links :=
  mem_of_link? (incoming?_eq_some fed).2

theorem Wired.incoming?_eq_some_iff {g : Graph} (wired : g.Wired) {id : NodeId} {slot : Nat} {link : Link} :
    g.incoming? id slot = some link ↔ (g.inputAt? id slot).isSome ∧ link ∈ g.links ∧ link.entersAt id slot := by
  rw [incoming?_eq]
  cases found : g.inputAt? id slot with
  | none => simp
  | some input =>
    have holds := wired.inputs id slot input found
    simp only [Option.bind_some, Option.isSome_some, true_and]
    constructor
    · intro fed
      obtain ⟨held, linked, known⟩ := Option.bind_eq_some_iff.1 fed
      obtain ⟨other, member, same, enters⟩ := (holds held).1 linked
      obtain ⟨inside, sameId⟩ := wired.link?_eq_some_iff.1 known
      rw [wired.link_unique inside member (sameId.trans same.symm)]
      exact ⟨member, enters⟩
    · rintro ⟨member, enters⟩
      rw [(holds link.id).2 ⟨link, member, rfl, enters⟩, Option.bind_some]
      exact wired.link?_eq_some_iff.2 ⟨member, rfl⟩

/-! ### Walks -/

def passes (g : Graph) (r : Registry) (id : NodeId) : Bool := (g.node? id).any fun node => r.isPassThrough node.type

/-- Going back from an output leads, in so many steps through pass-through nodes, to one that belongs to
another node. -/
inductive Forwards (g : Graph) (r : Registry) : Nat → Producer → Producer → Prop
  | here (producer : Producer) (node : Node) (found : g.node? producer.node = some node)
      (real : ¬ r.isPassThrough node.type) : Forwards g r 0 producer producer
  | back (steps : Nat) (producer source : Producer) (node : Node) (link : Link)
      (found : g.node? producer.node = some node) (through : r.isPassThrough node.type)
      (fed : g.incoming? producer.node node.flowInputCount = some link)
      (rest : Forwards g r steps ⟨link.origin, link.originSlot⟩ source) : Forwards g r (steps + 1) producer source

section Walks

variable {g : Graph} {r : Registry}

theorem Forwards.mem_nodeIds {n : Nat} {producer source : Producer} (walk : g.Forwards r n producer source) :
    producer.node ∈ g.nodeIds := by
  obtain ⟨node, found⟩ : ∃ node, g.node? producer.node = some node := by
    cases walk with
    | here _ node found => exact ⟨node, found⟩
    | back _ _ _ node _ found => exact ⟨node, found⟩
  rw [← id_of_node? found]
  exact List.mem_map_of_mem (List.mem_of_find?_eq_some found)

-- The node alone decides how far it is.
theorem Forwards.steps_unique {n m : Nat} {a b source target : Producer} (walk : g.Forwards r n a source)
    (other : g.Forwards r m b target) (same : a.node = b.node) : n = m := by
  induction walk generalizing m b with
  | here a node found real =>
    cases other with
    | here => rfl
    | back steps _ _ node' link found' through =>
      rw [same, found'] at found
      cases found
      exact absurd through real
  | back steps a source node link found through fed rest ih =>
    cases other with
    | here _ node' found' real =>
      rw [same, found'] at found
      cases found
      exact absurd through real
    | back steps' _ _ node' link' found' _ fed' rest' =>
      rw [same, found'] at found
      cases found
      rw [same, fed'] at fed
      cases fed
      rw [ih rest' rfl]

theorem forwards_of_behindPassThrough {unvisited : List NodeId} {producer source : Producer}
    (found : g.behindPassThrough r unvisited producer = some source) : ∃ n, g.Forwards r n producer source := by
  fun_induction behindPassThrough g r unvisited producer with
  | case1 => cases found
  | case2 unvisited producer node there through unseen link fed ih =>
    obtain ⟨n, rest⟩ := ih found
    exact ⟨n + 1, .back n producer source node link there through fed rest⟩
  | case3 => cases found
  | case4 => cases found
  | case5 unvisited producer node there real =>
    cases found
    exact ⟨0, .here _ node there real⟩

theorem Forwards.arrives {n : Nat} {producer source : Producer} (walk : g.Forwards r n producer source) :
    g.Forwards r 0 source source := by
  induction walk with
  | here producer node found real => exact .here producer node found real
  | back _ _ _ _ _ _ _ _ _ ih => exact ih

-- A node that was left behind is further away than any that is still to come.
theorem Forwards.behindPassThrough {n : Nat} {producer source : Producer} (walk : g.Forwards r n producer source)
    (unvisited : List NodeId) (ahead : ∀ m ≤ n, ∀ a b, g.Forwards r m a b → a.node ∈ unvisited) :
    g.behindPassThrough r unvisited producer = some source := by
  induction walk generalizing unvisited with
  | here producer node found real => simp [Graph.behindPassThrough, found, real]
  | back n producer source node link found through fed rest ih =>
    have walk := Forwards.back n producer source node link found through fed rest
    have unseen := ahead (n + 1) (Nat.le_refl _) producer source walk
    have later : ∀ m ≤ n, ∀ a b, g.Forwards r m a b → a.node ∈ without producer.node unvisited := by
      intro m near a b other
      refine List.mem_filter.2 ⟨ahead m (Nat.le_succ_of_le near) a b other, decide_eq_true fun same => ?_⟩
      have far := other.steps_unique walk same
      omega
    rw [Graph.behindPassThrough]
    simp only [found, through, unseen, fed, if_true]
    exact ih _ later

theorem Forwards.zero_of_real {steps : Nat} {producer source : Producer}
    (walk : g.Forwards r steps producer source) (real : ¬ g.passes r producer.node) :
    steps = 0 ∧ producer = source := by
  cases walk with
  | here => exact ⟨rfl, rfl⟩
  | back steps _ _ node link found through =>
    rw [passes, found, Option.any_some] at real
    exact absurd through real

theorem Forwards.source_real {steps : Nat} {producer source : Producer}
    (walk : g.Forwards r steps producer source) : ¬ g.passes r source.node := by
  induction walk with
  | here producer node found real =>
    rw [passes, found]
    exact real
  | back _ _ _ _ _ _ _ _ _ ih => exact ih

theorem resolvePassThrough_eq_some_iff {producer source : Producer} :
    g.resolvePassThrough r producer = some source ↔ ∃ n, g.Forwards r n producer source := by
  constructor
  · exact forwards_of_behindPassThrough
  · rintro ⟨n, walk⟩
    exact walk.behindPassThrough g.nodeIds fun _ _ _ _ other => other.mem_nodeIds

end Walks

/-! ### Chains -/

/-- Links lead from an output of the first node to an input of the other, through pass-through nodes on the way. -/
inductive Leads (g : Graph) (r : Registry) (start : NodeId) : NodeId → Prop
  | link (link : Link) (member : link ∈ g.links) (leaves : link.origin = start) : Leads g r start link.target
  | through (link : Link) (before : Leads g r start link.origin) (passing : g.passes r link.origin)
      (member : link ∈ g.links) : Leads g r start link.target

theorem Leads.exists_link {g : Graph} {r : Registry} {start id : NodeId} (leads : g.Leads r start id) :
    ∃ link ∈ g.links, link.target = id := by
  cases leads with
  | link link member => exact ⟨link, member, rfl⟩
  | through link _ _ member => exact ⟨link, member, rfl⟩

-- Nodes that no chain leaves hold all that chains come to.
theorem Leads.mem_of_closed {g : Graph} {r : Registry} {start id : NodeId} (leads : g.Leads r start id)
    (ids : List NodeId) (first : ∀ link ∈ g.links, link.origin = start → link.target ∈ ids)
    (next : ∀ link ∈ g.links, link.origin ∈ ids → g.passes r link.origin → link.target ∈ ids) : id ∈ ids := by
  induction leads with
  | link link member leaves => exact first link member leaves
  | through link before passing member ih => exact next link member ih passing

/-! ### Graphs that are alike upstream -/

-- The graphs have the same nodes inside, and the same links into pass-through nodes there. Going back along
-- these leads to nodes inside.
structure AlikeInside (inside : NodeId → Prop) (r : Registry) (g h : Graph) : Prop where
  nodes : ∀ id, inside id → (g.node? id).map (·.unlinked) = (h.node? id).map (·.unlinked)
  links : ∀ link, inside link.target → g.passes r link.target → (link ∈ g.links ↔ link ∈ h.links)
  closed : ∀ link ∈ g.links, inside link.target → g.passes r link.target → inside link.origin

section Alike

variable {inside : NodeId → Prop} {r : Registry} {g h : Graph}

theorem passes_congr {id : NodeId} (same : (g.node? id).map (·.unlinked) = (h.node? id).map (·.unlinked)) :
    g.passes r id = h.passes r id := by
  have types := congrArg (Option.any fun node => r.isPassThrough node.type) same
  rw [Option.any_map, Option.any_map] at types
  exact types

theorem AlikeInside.symm (alike : AlikeInside inside r g h) : AlikeInside inside r h g where
  nodes id within := (alike.nodes id within).symm
  links link within through :=
    (alike.links link within ((passes_congr (alike.nodes _ within)).trans through)).symm
  closed link member within through := by
    have before := (passes_congr (alike.nodes _ within)).trans through
    exact alike.closed link ((alike.links link within before).2 member) within before

theorem flowInputCount_unlinked (node : Node) : node.unlinked.flowInputCount = node.flowInputCount :=
  List.countP_map ..

theorem isSome_inputAt?_congr {id : NodeId} (same : (g.node? id).map (·.unlinked) = (h.node? id).map (·.unlinked))
    (slot : Nat) : (g.inputAt? id slot).isSome = (h.inputAt? id slot).isSome := by
  have slots := congrArg (fun node : Option Node => (node.bind (·.inputs[slot]?)).isSome) same
  simp only [Option.bind_map, Function.comp_def, Node.unlinked, List.getElem?_map] at slots
  rw [inputAt?, inputAt?]
  cases first : g.node? id <;> cases second : h.node? id <;> simp_all

-- Where the walk ends at once only the node counts.
theorem Forwards.here_congr {producer source : Producer} (walk : g.Forwards r 0 producer source)
    (same : (g.node? producer.node).map (·.unlinked) = (h.node? producer.node).map (·.unlinked)) :
    h.Forwards r 0 producer source := by
  cases walk with
  | here _ node found real =>
    rw [found] at same
    obtain ⟨other, found', sameNode⟩ := Option.map_eq_some_iff.1 same.symm
    refine .here producer other found' ?_
    have type : other.type = node.type := (congrArg Node.type sameNode :)
    rw [type]
    exact real

-- A step back along a link is one along any link to the same slot of a node that is alike.
theorem Forwards.back_congr (wiredG : g.Wired) (wiredH : h.Wired) {n : Nat} {producer source : Producer} {node : Node}
    {link other : Link} (found : g.node? producer.node = some node) (through : r.isPassThrough node.type)
    (fed : g.incoming? producer.node node.flowInputCount = some link)
    (same : (g.node? producer.node).map (·.unlinked) = (h.node? producer.node).map (·.unlinked))
    (member : other ∈ h.links) (target : other.target = link.target) (slot : other.targetSlot = link.targetSlot)
    (rest : h.Forwards r n ⟨other.origin, other.originSlot⟩ source) : h.Forwards r (n + 1) producer source := by
  obtain ⟨present, _, enters⟩ := wiredG.incoming?_eq_some_iff.1 fed
  rw [isSome_inputAt?_congr same] at present
  rw [found] at same
  obtain ⟨twin, found', sameNode⟩ := Option.map_eq_some_iff.1 same.symm
  have type : twin.type = node.type := (congrArg Node.type sameNode :)
  have count : twin.flowInputCount = node.flowInputCount := by
    rw [← flowInputCount_unlinked twin, sameNode, flowInputCount_unlinked]
  refine .back n producer source twin other found' ?_ ?_ rest
  · rw [type]
    exact through
  · rw [count]
    refine wiredH.incoming?_eq_some_iff.2 ⟨present, member, ?_⟩
    rw [Link.entersAt, target, slot]
    exact enters

theorem Forwards.congr (wiredG : g.Wired) (wiredH : h.Wired) (alike : AlikeInside inside r g h) {n : Nat}
    {producer source : Producer} (walk : g.Forwards r n producer source) (within : inside producer.node) :
    h.Forwards r n producer source := by
  induction walk with
  | here producer node found real =>
    exact (Forwards.here producer node found real).here_congr (alike.nodes producer.node within)
  | back n producer source node link found through fed rest ih =>
    have same := alike.nodes producer.node within
    have passing : g.passes r producer.node := by rw [passes, found, Option.any_some, through]
    obtain ⟨_, member, target, _⟩ := wiredG.incoming?_eq_some_iff.1 fed
    rw [← target] at within passing
    exact back_congr wiredG wiredH found through fed same ((alike.links link within passing).1 member) rfl rfl
      (ih (alike.closed link member within passing))

-- A walk that begins inside comes to an end inside.
theorem Forwards.stays_inside (wired : g.Wired) (alike : AlikeInside inside r g h) {n : Nat} {producer source : Producer}
    (walk : g.Forwards r n producer source) (within : inside producer.node) : inside source.node := by
  induction walk with
  | here => exact within
  | back n producer source node link found through fed rest ih =>
    obtain ⟨_, member, target, _⟩ := wired.incoming?_eq_some_iff.1 fed
    refine ih (alike.closed link member ?_ ?_)
    · rw [target]
      exact within
    · rw [target, passes, found, Option.any_some, through]

theorem AlikeInside.resolvePassThrough_eq (alike : AlikeInside inside r g h) (wiredG : g.Wired) (wiredH : h.Wired)
    {producer : Producer} (within : inside producer.node) :
    g.resolvePassThrough r producer = h.resolvePassThrough r producer := by
  ext source
  rw [resolvePassThrough_eq_some_iff, resolvePassThrough_eq_some_iff]
  constructor
  · rintro ⟨n, walk⟩
    exact ⟨n, walk.congr wiredG wiredH alike within⟩
  · rintro ⟨n, walk⟩
    exact ⟨n, walk.congr wiredH wiredG alike.symm within⟩

end Alike

end Graph
end Patchbay
