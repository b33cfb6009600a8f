import Patchbay.Proofs.Group.Replacement

/-!
Which links an expansion adds: one for each link of the config whose ends are both placed, under new ids in the
order of the config, and each with the type of the member output that it leaves.
-/
set_option autoImplicit false

namespace Patchbay

/-- The link between two members that a link of the config becomes under an id. -/
def GroupLink.placed? (config : GroupConfig) (place : NodeId) (id : LinkId) (inner : GroupLink) : Option Link :=
  inner.origin.map fun origin => ⟨id, place.member origin.toNat, inner.originSlot, place.member inner.target.toNat,
    inner.targetSlot, (config.outputType? inner).getD InputDef.anyType⟩

/-- The link is that of an inner link, when those that join placed members are numbered from `first` on. -/
def Definitions.Adds (defs : Definitions) (config : GroupConfig) (place : NodeId) (first : LinkId)
    (inners : List GroupLink) (link : Link) : Prop :=
  ∃ (n : Nat) (inner : GroupLink), (inners.filter (defs.joins config))[n]? = some inner ∧
    inner.placed? config place (first.raise n) = some link

namespace Definitions

section Adds

variable {defs : Definitions} {config : GroupConfig} {place : NodeId} {first : LinkId} {inners : List GroupLink}
variable {link : Link}

theorem Adds.ends (added : defs.Adds config place first inners link) :
    (∃ k, defs.places config k ∧ link.origin = place.member k) ∧
      ∃ k, defs.places config k ∧ link.target = place.member k := by
  obtain ⟨n, inner, listed, made⟩ := added
  obtain ⟨origin, leaves, rfl⟩ := Option.map_eq_some_iff.1 made
  have joined := (List.mem_filter.1 (List.mem_of_getElem? listed)).2
  obtain ⟨start, leaves', placedOrigin, placedTarget⟩ := joins_iff.1 joined
  rw [leaves] at leaves'
  cases leaves'
  exact ⟨⟨_, placedOrigin, rfl⟩, _, placedTarget, rfl⟩

-- As many ids are used as there are inner links that join members.
theorem Adds.id_eq (added : defs.Adds config place first inners link) :
    ∃ n < inners.countP (defs.joins config), link.id = first.raise n := by
  obtain ⟨n, inner, listed, made⟩ := added
  obtain ⟨bound, _⟩ := List.getElem?_eq_some_iff.1 listed
  obtain ⟨origin, _, rfl⟩ := Option.map_eq_some_iff.1 made
  rw [← List.countP_eq_length_filter] at bound
  exact ⟨n, bound, rfl⟩

variable {inner : GroupLink}

theorem adds_append_of_not_joins (apart : ¬ defs.joins config inner) :
    defs.Adds config place first (inners ++ [inner]) link ↔ defs.Adds config place first inners link := by
  rw [Adds, Adds, List.filter_append, List.filter_cons_of_neg apart, List.filter_nil, List.append_nil]

theorem adds_append_of_joins (joined : defs.joins config inner) :
    defs.Adds config place first (inners ++ [inner]) link ↔ defs.Adds config place first inners link ∨
      inner.placed? config place (first.raise (inners.countP (defs.joins config))) = some link := by
  rw [Adds, Adds, List.filter_append, List.filter_cons_of_pos joined, List.filter_nil, List.countP_eq_length_filter]
  constructor
  · rintro ⟨n, other, listed, made⟩
    by_cases inside : n < (inners.filter (defs.joins config)).length
    · rw [List.getElem?_append_left inside] at listed
      exact .inl ⟨n, other, listed, made⟩
    · obtain ⟨bound, _⟩ := List.getElem?_eq_some_iff.1 listed
      rw [List.length_append, List.length_singleton] at bound
      obtain rfl : n = (inners.filter (defs.joins config)).length := by omega
      rw [List.getElem?_concat_length] at listed
      cases listed
      exact .inr made
  · rintro (⟨n, other, listed, made⟩ | made)
    · have inside := (List.getElem?_eq_some_iff.1 listed).1
      exact ⟨n, other, (List.getElem?_append_left inside).trans listed, made⟩
    · exact ⟨_, inner, List.getElem?_concat_length, made⟩

end Adds

end Definitions

namespace Graph

/-! ### The types of the new links -/

theorem outputType_congr {g h : Graph} {id : NodeId}
    (same : (g.node? id).map (·.unlinked) = (h.node? id).map (·.unlinked)) (slot : Word) :
    g.outputType id slot = h.outputType id slot := by
  have types := congrArg (fun node : Option Node => (node.bind (·.outputs[slot.toNat]?.map (·.type)))) same
  simp only [Option.bind_map, Function.comp_def, Node.unlinked, List.getElem?_map, Option.map_map] at types
  rw [outputType, outputType]
  exact congrArg (Option.getD · InputDef.anyType) types

theorem node?_member (g : Graph) (defs : Definitions) (place : Node) (group : GroupDef) (position k : Nat)
    (placed : defs.places group.config k) : ∃ template widgets, group.config.nodes[k]? = some template ∧
      (g.insertNodes position (group.placedMembers defs place)).node? (place.id.member k) =
        some { template.unlinked with id := place.id.member k, widgets := widgets } := by
  obtain ⟨template, known⟩ := Definitions.places_iff.1 placed
  obtain ⟨widgets, shape⟩ := group.placeMember_eq defs place k template
  have distinct : ((group.placedMembers defs place).map (·.id)).Nodup :=
    (group.placedMembers_displays defs place).of_map _
  have member : group.placeMember defs place k template ∈ group.placedMembers defs place :=
    List.mem_map.2 ⟨(k, template), known, rfl⟩
  rw [shape] at member
  have found := (node?_eq_some_iff (g := ⟨group.placedMembers defs place, [], 0⟩) distinct (place.id.member k) _).2
    ⟨member, rfl⟩
  rw [node?] at found
  refine ⟨template, widgets, Definitions.getElem?_of_knownMembers known, ?_⟩
  rw [node?_insertNodes g position _ distinct, found, Option.some_or]

theorem outputType_member (g : Graph) (defs : Definitions) (place : Node) (group : GroupDef) (position : Nat)
    {inner : GroupLink} {origin : Word} (leaves : inner.origin = some origin)
    (placed : defs.places group.config origin.toNat) :
    (g.insertNodes position (group.placedMembers defs place)).outputType (place.id.member origin.toNat)
      inner.originSlot = (group.config.outputType? inner).getD InputDef.anyType := by
  obtain ⟨template, widgets, known, found⟩ := g.node?_member defs place group position origin.toNat placed
  rw [outputType, found, GroupConfig.outputType?, leaves]
  simp only [Option.bind_some, Node.unlinked, List.getElem?_map, Option.bind_eq_bind, known, Option.map_map]
  cases template.outputs[inner.originSlot.toNat]? <;> rfl

/-! ### Adding them one after another -/

-- The graph once the inner links of `done` are added to `start`.
structure Adding (defs : Definitions) (config : GroupConfig) (place : NodeId) (start : Graph) (done : List GroupLink)
    (g : Graph) : Prop where
  bare : g.bare = start.bare
  next : g.nextLinkId = start.nextLinkId.raise (done.countP (defs.joins config))
  links : ∀ link, link ∈ g.links ↔ link ∈ start.links ∨ defs.Adds config place start.nextLinkId done link

section Adding

variable {defs : Definitions} {config : GroupConfig} {place : NodeId} {named : NodeId → Prop}
variable {roster : List (NodeId × String)} {start : Graph}
variable (typed : ∀ inner : GroupLink, ∀ origin, inner.origin = some origin → defs.places config origin.toNat →
  start.outputType (place.member origin.toNat) inner.originSlot = (config.outputType? inner).getD InputDef.anyType)

theorem adding_nil : Adding defs config place start [] start where
  bare := rfl
  next := (Word.raise_zero _).symm
  links link := by simp [Definitions.Adds]

include typed in
-- The new link has the type that the config gives to its origin, as long as nodes change in their links only.
theorem addInnerLink_of_joins {inner : GroupLink} {g : Graph} (bare : g.bare = start.bare)
    (joined : defs.joins config inner) : ∃ link, inner.placed? config place g.nextLinkId = some link ∧
      link.id = g.nextLinkId ∧ addInnerLink defs config place g inner = g.allocate.2.insertLink link := by
  obtain ⟨origin, leaves, placedOrigin, placedTarget⟩ := Definitions.joins_iff.1 joined
  have type : g.outputType (place.member origin.toNat) inner.originSlot =
      (config.outputType? inner).getD InputDef.anyType := by
    rw [← typed inner origin leaves placedOrigin]
    exact outputType_congr (by rw [bare_node?, bare_node?, bare]) _
  refine ⟨_, by rw [GroupLink.placed?, leaves]; rfl, rfl, ?_⟩
  rw [addInnerLink, leaves]
  simp only [placedOrigin, placedTarget, Bool.and_self, if_true, type]
  rfl

include typed in
theorem Adding.step {done rest : List GroupLink} {inner : GroupLink} {g : Graph}
    (adding : Adding defs config place start done g)
    (linking : Linking defs config place named roster done (inner :: rest) g) :
    Adding defs config place start (done ++ [inner]) (addInnerLink defs config place g inner) := by
  by_cases joined : defs.joins config inner
  · have room := linking.room
    rw [List.countP_cons, if_pos joined] at room
    obtain ⟨link, made, newId, added⟩ := addInnerLink_of_joins typed adding.bare joined
    have next := g.allocate.2.nextLinkId_insertLink link
    rw [added]
    refine ⟨(g.allocate.2.bare_insertLink link).trans adding.bare, ?_, fun other => ?_⟩
    · rw [next, newId, List.countP_append, List.countP_singleton, if_pos joined, ← UInt64.toNat_inj]
      simp only [allocate, Word.toNat_max, adding.next, Word.toNat_raise] at room ⊢
      omega
    · rw [linking.sound.wired.allocate.mem_insertLink link other, Definitions.adds_append_of_joins joined,
        ← adding.next, made, newId, Option.some.injEq, ← or_assoc, ← adding.links, eq_comm, or_comm]
      -- The links of the graph are all under other ids than the new one.
      refine or_congr (and_iff_left_of_imp fun member => ?_) Iff.rfl
      exact linking.sound.ahead.id_ne (by omega) member
  · obtain ⟨origin, slot, type, added⟩ := addInnerLink_eq defs config place g inner
    rw [added, if_neg joined]
    refine ⟨adding.bare, ?_, fun link => ?_⟩
    · rw [adding.next, List.countP_append, List.countP_singleton, if_neg joined, Nat.add_zero]
    · rw [Definitions.adds_append_of_not_joins joined]
      exact adding.links link

include typed in
theorem Adding.run {done rest : List GroupLink} {g : Graph} (adding : Adding defs config place start done g)
    (linking : Linking defs config place named roster done rest g) (once : config.FeedsOnce)
    (split : config.links = done ++ rest) (members : ∀ k, named (place.member k)) :
    Adding defs config place start config.links (rest.foldl (addInnerLink defs config place) g) := by
  induction rest generalizing done g with
  | nil =>
    rw [List.append_nil] at split
    rw [split]
    exact adding
  | cons inner rest ih =>
    have split' : config.links = (done ++ [inner]) ++ rest := by
      rw [split, List.append_assoc]
      rfl
    exact ih (adding.step typed linking) (linking.step once split members) split'

end Adding

end Graph
end Patchbay
