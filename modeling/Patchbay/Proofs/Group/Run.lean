import Mathlib.Logic.Relation
import Patchbay.Proofs.Group.Instance

/-!
A whole expansion, instance after instance. The graph stays wired, the displayed ids of its nodes stay
distinct, and an instance that was replaced is never named again.
-/
set_option autoImplicit false

namespace Patchbay

/-- One instance is taken from the front of the queue and left as it is or replaced by its members. -/
inductive ExpansionStep (defs : Definitions) :
    ExpansionState × List PendingInstance → ExpansionState × List PendingInstance → Prop where
  | pass (state : ExpansionState) (entry : PendingInstance) (queue : List PendingInstance)
      (kept : defs.expandable? state.graph entry = none) : ExpansionStep defs (state, entry :: queue) (state, queue)
  | replace (state : ExpansionState) (entry : PendingInstance) (queue : List PendingInstance) (node : Node)
      (group : GroupDef) (found : defs.expandable? state.graph entry = some (node, group)) :
      ExpansionStep defs (state, entry :: queue)
        (⟨state.graph.expandInstance defs node group, state.missing ++ defs.unknownTypes group.config,
            state.expanded + 1⟩,
          queue ++ defs.nestedInstances (state.graph.expandInstance defs node group) entry group)

namespace Definitions

abbrev Reaches (defs : Definitions) :
    ExpansionState × List PendingInstance → ExpansionState × List PendingInstance → Prop :=
  Relation.ReflTransGen (ExpansionStep defs)

/-- Some turn after `start` replaces the instance by its members. -/
def Replaces (defs : Definitions) (start : ExpansionState × List PendingInstance) (id : NodeId) : Prop :=
  ∃ state entry queue node group, defs.Reaches start (state, entry :: queue) ∧
    defs.expandable? state.graph entry = some (node, group) ∧ entry.id = id

/-- The links that are added when an instance is replaced get ids below the last one. -/
def HasRoom (defs : Definitions) (g : Graph) (group : GroupDef) : Prop :=
  g.nextLinkId.toNat + group.config.links.countP (defs.joins group.config) < UInt64.size

instance (defs : Definitions) (g : Graph) (group : GroupDef) : Decidable (defs.HasRoom g group) :=
  inferInstanceAs (Decidable (_ < _))

/-- The run that begins with `start` never comes to the last link id. -/
def StaysBelowTop (defs : Definitions) (start : ExpansionState × List PendingInstance) : Prop :=
  ∀ state entry queue node group, defs.Reaches start (state, entry :: queue) →
    defs.expandable? state.graph entry = some (node, group) → defs.HasRoom state.graph group

theorem reaches_expandQueue (defs : Definitions) (state : ExpansionState) (queue : List PendingInstance) :
    defs.Reaches (state, queue) (expandQueue defs state queue, []) := by
  fun_induction expandQueue defs state queue with
  | case1 state => exact .refl
  | case2 state entry queue kept ih => exact .head (.pass state entry queue kept) ih
  | case3 state entry queue node group found graph ih =>
    exact .head (.replace state entry queue node group found) ih

-- Every turn leads on to the same result.
theorem expandQueue_of_reaches {defs : Definitions} {start after : ExpansionState × List PendingInstance}
    (reached : defs.Reaches start after) : expandQueue defs start.1 start.2 = expandQueue defs after.1 after.2 := by
  induction reached with
  | refl => rfl
  | tail _ step ih =>
    rw [ih]
    cases step with
    | pass state entry queue kept =>
      rw [expandQueue]
      split
      · rfl
      · next found =>
        rw [kept] at found
        cases found
    | replace state entry queue node group found =>
      rw [expandQueue]
      split
      · next kept =>
        rw [found] at kept
        cases kept
      · next again =>
        rw [found] at again
        cases again
        rfl

theorem staysBelowTop_nil (defs : Definitions) (state : ExpansionState) : defs.StaysBelowTop (state, []) := by
  intro state' entry queue node group reached
  rcases reached.cases_head with same | ⟨_, step, _⟩
  · cases same
  · cases step

theorem staysBelowTop_pass {defs : Definitions} {state : ExpansionState} {entry : PendingInstance}
    {queue : List PendingInstance} (kept : defs.expandable? state.graph entry = none)
    (rest : defs.StaysBelowTop (state, queue)) : defs.StaysBelowTop (state, entry :: queue) := by
  intro state' entry' queue' node group reached found
  rcases reached.cases_head with same | ⟨_, step, later⟩
  · cases same
    rw [kept] at found
    cases found
  · cases step with
    | pass => exact rest state' entry' queue' node group later found
    | replace _ _ _ _ _ other =>
      rw [kept] at other
      cases other

theorem staysBelowTop_replace {defs : Definitions} {state : ExpansionState} {entry : PendingInstance}
    {queue : List PendingInstance} {node : Node} {group : GroupDef}
    (found : defs.expandable? state.graph entry = some (node, group)) (room : defs.HasRoom state.graph group)
    (rest : ∀ missing expanded, defs.StaysBelowTop
      (⟨state.graph.expandInstance defs node group, missing, expanded⟩,
        queue ++ defs.nestedInstances (state.graph.expandInstance defs node group) entry group)) :
    defs.StaysBelowTop (state, entry :: queue) := by
  intro state' entry' queue' node' group' reached found'
  rcases reached.cases_head with same | ⟨_, step, later⟩
  · cases same
    rw [found] at found'
    cases found'
    exact room
  · cases step with
    | pass _ _ _ kept =>
      rw [found] at kept
      cases kept
    | replace _ _ _ _ _ other =>
      rw [found] at other
      cases other
      exact rest _ _ state' entry' queue' node' group' later found'

end Definitions

namespace Graph

/-! ### What every turn keeps -/

theorem isInstance_iff {defs : Definitions} {g : Graph} (distinct : g.nodeIds.Nodup) (id : NodeId) :
    defs.isInstance g id ↔ ∃ type, (id, type) ∈ g.roster ∧ (defs.group? type).isSome := by
  rw [Definitions.isInstance, Option.any_eq_true]
  constructor
  · rintro ⟨node, found, known⟩
    obtain ⟨member, rfl⟩ := (node?_eq_some_iff distinct id node).1 found
    exact ⟨node.type, List.mem_map_of_mem member, known⟩
  · rintro ⟨type, listed, known⟩
    obtain ⟨node, member, same⟩ := List.mem_map.1 listed
    cases same
    exact ⟨node, (node?_eq_some_iff distinct node.id node).2 ⟨member, rfl⟩, known⟩

/-- No id that the graph speaks of looks like that of a member of one of its instances. -/
def Unclaimed (defs : Definitions) (g : Graph) : Prop :=
  ∀ host, defs.isInstance g host → ∀ id, g.Names id → ¬ host.IsUnder id

theorem names_iff (g : Graph) (id : NodeId) :
    g.Names id ↔ id ∈ g.nodeIds ++ g.links.flatMap fun link => [link.origin, link.target] := by
  have touched : ∀ link : Link, touches id link ↔ id ∈ [link.origin, link.target] := by
    intro link
    simp [touches, eq_comm (a := id)]
  simp only [Names, List.mem_append, List.mem_flatMap, touched]

theorem unclaimed_iff (defs : Definitions) (g : Graph) : Unclaimed defs g ↔
    ∀ host ∈ g.nodeIds, defs.isInstance g host →
      ∀ id ∈ g.nodeIds ++ g.links.flatMap fun link => [link.origin, link.target], ¬ host.IsUnder id := by
  constructor
  · intro unclaimed host _ hosts id member
    exact unclaimed host hosts id ((g.names_iff id).2 member)
  · intro all host hosts id named
    refine all host ?_ hosts id ((g.names_iff id).1 named)
    obtain ⟨node, found, _⟩ := (Option.any_eq_true _ _).1 hosts
    rw [← id_of_node? found]
    exact List.mem_map_of_mem (List.mem_of_find?_eq_some found)

instance (defs : Definitions) (g : Graph) : Decidable (Unclaimed defs g) :=
  decidable_of_iff _ (unclaimed_iff defs g).symm

-- The ids in `gone` are those of replaced instances. Nothing is under an instance that is not its member yet.
structure Tidy (defs : Definitions) (gone : NodeId → Prop) (g : Graph) : Prop where
  wired : g.Wired
  ahead : g.Ahead
  displays : (g.nodeIds.map NodeId.display).Nodup
  outside : ∀ host, defs.isInstance g host → ∀ id, gone id ∨ g.Names id → ¬ host.IsUnder id
  absent : ∀ id, gone id → ¬ g.Names id

section Tidy

variable {defs : Definitions} {gone : NodeId → Prop} {g after : Graph} {place : NodeId}

-- Two instances that are displayed alike are one.
theorem Tidy.eq_of_display (tidy : Tidy defs gone g) {a b : NodeId} (memberA : a ∈ g.nodeIds) (memberB : b ∈ g.nodeIds)
    (same : a.display = b.display) : a = b := List.inj_on_of_nodup_map tidy.displays memberA memberB same

theorem Tidy.forget {fewer : NodeId → Prop} (tidy : Tidy defs gone g) (less : ∀ id, fewer id → gone id) :
    Tidy defs fewer g where
  wired := tidy.wired
  ahead := tidy.ahead
  displays := tidy.displays
  outside host hosts id speaks := tidy.outside host hosts id (speaks.imp_left (less id))
  absent id removed := tidy.absent id (less id removed)

theorem Tidy.replaced (tidy : Tidy defs gone g) (present : defs.isInstance g place)
    (expanded : g.Expanded place after) : Tidy defs (fun id => gone id ∨ id = place) after := by
  obtain ⟨placeType, placeListed, _⟩ := (isInstance_iff tidy.wired.nodeIds place).1 present
  have placeMember : place ∈ g.nodeIds := by
    rw [nodeIds_eq_roster]
    exact List.mem_map_of_mem placeListed
  -- What is under a member of the instance is under the instance, so only its members can be.
  have underPlace : ∀ id, place.IsUnder id → (gone id ∨ id = place) ∨ after.Names id → ∃ k, id = place.member k := by
    intro id under speaks
    rcases speaks with (removed | rfl) | named
    · exact absurd under (tidy.outside place present id (.inl removed))
    · exact absurd under id.not_isUnder_self
    · rcases (expanded.names id named).2 with old | new
      · exact absurd under (tidy.outside place present id (.inr old))
      · exact new
  constructor
  · exact expanded.wired
  · exact expanded.ahead
  · exact expanded.displays
  · intro host hosts id speaks under
    obtain ⟨type, listed, known⟩ := (isInstance_iff expanded.wired.nodeIds host).1 hosts
    have hostNamed : after.Names host := by
      left
      rw [nodeIds_eq_roster]
      exact List.mem_map_of_mem listed
    rcases expanded.nodes (host, type) listed with old | ⟨k, rfl⟩
    · have before : defs.isInstance g host := (isInstance_iff tidy.wired.nodeIds host).2 ⟨type, old, known⟩
      have hostMember : host ∈ g.nodeIds := by
        rw [nodeIds_eq_roster]
        exact List.mem_map_of_mem old
      rcases speaks with (removed | rfl) | named
      · exact tidy.outside host before id (.inl removed) under
      · exact tidy.outside host before id (.inr (.inl placeMember)) under
      · rcases (expanded.names id named).2 with kept | ⟨j, rfl⟩
        · exact tidy.outside host before id (.inr kept) under
        · rcases NodeId.isUnder_of_isUnder_member under with same | inside
          · exact (expanded.names host hostNamed).1 (tidy.eq_of_display hostMember placeMember same)
          · exact tidy.outside host before place (.inr (.inl placeMember)) inside
    · obtain ⟨j, rfl⟩ := underPlace id (NodeId.isUnder_of_member under) speaks
      exact place.not_isUnder_sibling k j under
  · rintro id (removed | rfl) named
    · rcases (expanded.names id named).2 with old | ⟨k, rfl⟩
      · exact tidy.absent id removed old
      · exact tidy.outside place present _ (.inl removed) (place.isUnder_member k)
    · exact (expanded.names id named).1 rfl

end Tidy

/-! ### The whole run -/

section Run

variable {defs : Definitions} {gone : NodeId → Prop} (exposes : ∀ group ∈ defs.groups.values, group.Exposes)
variable (fits : ∀ group ∈ defs.groups.values, group.SlotsFit)
variable (once : ∀ group ∈ defs.groups.values, group.config.FeedsOnce)

include exposes fits once in
theorem Tidy.expandInstance {g : Graph} (tidy : Tidy defs gone g) {entry : PendingInstance} {node : Node}
    {group : GroupDef} (found : defs.expandable? g entry = some (node, group)) (room : defs.HasRoom g group) :
    Tidy defs (fun id => gone id ∨ id = entry.id) (g.expandInstance defs node group) := by
  obtain ⟨there, known, _⟩ := Definitions.expandable?_eq_some found
  have member := Definitions.mem_values_of_group? known
  have same := id_of_node? there
  have hosts : defs.isInstance g node.id := by
    rw [same, Definitions.isInstance, there, Option.any_some, known]
    rfl
  have expanded := g.expandInstance_expanded defs node group tidy.wired tidy.ahead tidy.displays
    (fun id named => tidy.outside node.id hosts id (.inr named)) (exposes group member) (fits group member)
    (once group member) room
  rw [← same]
  exact tidy.replaced hosts expanded

include exposes fits once in
theorem Tidy.step {before after : ExpansionState × List PendingInstance} (tidy : Tidy defs gone before.1.graph)
    (step : ExpansionStep defs before after) (room : defs.StaysBelowTop before) : Tidy defs gone after.1.graph := by
  cases step with
  | pass state entry queue kept => exact tidy
  | replace state entry queue node group found =>
    have replaced := tidy.expandInstance exposes fits once found (room state entry queue node group .refl found)
    exact replaced.forget fun id => .inl

include exposes fits once in
theorem Tidy.run {start after : ExpansionState × List PendingInstance} (tidy : Tidy defs gone start.1.graph)
    (reached : defs.Reaches start after) (room : defs.StaysBelowTop start) : Tidy defs gone after.1.graph := by
  induction reached with
  | refl => exact tidy
  | tail earlier step ih =>
    refine ih.step exposes fits once step ?_
    intro state entry queue node group later
    exact room state entry queue node group (earlier.trans later)

-- An instance is gone from the turn in which it is replaced.
include exposes fits once in
theorem Tidy.gone_of_replaces {start : ExpansionState × List PendingInstance} (tidy : Tidy defs gone start.1.graph)
    (room : defs.StaysBelowTop start) {id : NodeId} (replaced : defs.Replaces start id) :
    ¬ (expandQueue defs start.1 start.2).graph.Names id := by
  obtain ⟨state, entry, queue, node, group, reached, found, rfl⟩ := replaced
  have before := tidy.run exposes fits once reached room
  have after := before.expandInstance exposes fits once found (room state entry queue node group reached found)
  obtain ⟨next, step, tidyNext⟩ : ∃ next, ExpansionStep defs (state, entry :: queue) next ∧
      Tidy defs (fun id => gone id ∨ id = entry.id) next.1.graph :=
    ⟨_, .replace state entry queue node group found, after⟩
  have later : defs.StaysBelowTop next := fun state entry queue node group rest =>
    room state entry queue node group ((reached.tail step).trans rest)
  have final := tidyNext.run exposes fits once (defs.reaches_expandQueue next.1 next.2) later
  rw [Definitions.expandQueue_of_reaches (reached.tail step)]
  exact final.absent entry.id (.inr rfl)

end Run

/-- The state and the queue with which an expansion begins. -/
def expansionStart (g : Graph) (defs : Definitions) (missing : List String) :
    ExpansionState × List PendingInstance :=
  (⟨g, missing, 0⟩, (g.nodeIds.filter (defs.isInstance g)).map (⟨·, []⟩))

/-- An expansion leaves the graph wired. The displayed ids of the nodes stay distinct, and neither a node nor
the end of a link has the id of an instance that was replaced. -/
theorem expandGroups_wired {defs : Definitions} {r : Registry} {configs : Table GroupConfig}
    (made : defs = Definitions.withGroups r configs) (g : Graph) (missing : List String) (wired : g.Wired)
    (counted : g.Counted) (displays : (g.nodeIds.map NodeId.display).Nodup)
    (unclaimed : Unclaimed defs g)
    (fits : ∀ group ∈ defs.groups.values, group.SlotsFit)
    (once : ∀ group ∈ defs.groups.values, group.config.FeedsOnce)
    (room : defs.StaysBelowTop (g.expansionStart defs missing)) :
    (g.expandGroups defs missing).graph.Wired ∧
      ((g.expandGroups defs missing).graph.nodeIds.map NodeId.display).Nodup ∧
      ∀ id, defs.Replaces (g.expansionStart defs missing) id → ¬ (g.expandGroups defs missing).graph.Names id := by
  have exposes : ∀ group ∈ defs.groups.values, group.Exposes := by
    rw [made]
    exact Definitions.withGroups_exposes r configs
  have start : Tidy defs (fun _ => False) (g.expansionStart defs missing).1.graph := {
    wired := wired
    ahead := counted.ahead
    displays := displays
    outside := fun host hosts id speaks => speaks.elim False.elim (unclaimed host hosts id)
    absent := fun _ removed => removed.elim }
  have final := start.run exposes fits once (defs.reaches_expandQueue _ _) room
  refine ⟨final.wired, final.displays, ?_⟩
  intro id replaced
  exact start.gone_of_replaces exposes fits once room replaced

-- A sampler, an instance of a group that holds another one behind a reroute, a second sampler, and a muted
-- instance.
def chained (id : NodeId) (type : String) (link : Option LinkId) (links : Option (List LinkId)) : Node :=
  { Node.plain id type with
    inputs := [{ InputSlot.plain "latent" "LATENT" with link := link }]
    outputs := [{ OutputSlot.plain "LATENT" "LATENT" with links := links }] }

def pairConfig : GroupConfig :=
  ⟨[chained (.number 0) "Sampler" none none, chained (.number 1) "Sampler" none none], [⟨some 0, 0, 1, 0, []⟩], []⟩

def outerConfig : GroupConfig :=
  ⟨[chained (.number 0) "Sampler" none none, chained (.number 1) "workflow/pair" none none,
    chained (.number 2) "Reroute" none none], [⟨some 0, 0, 1, 0, []⟩, ⟨some 1, 0, 2, 0, []⟩], []⟩

def nestedDefinitions : Definitions :=
  let sampler := (Operation.named "Sampler").addRequired "latent" (.text "LATENT")
  .withGroups (Registry.standard.insert (sampler.addOutput "LATENT" "latent"))
    (.ofList [("outer", outerConfig), ("pair", pairConfig)])

def nested : Graph where
  nodes := [chained (.number 1) "Sampler" none (some [1]),
    chained (.number 3) "workflow/outer" (some 1) (some [2]), chained (.number 2) "Sampler" (some 2) none,
    { chained (.number 4) "workflow/pair" none none with mode := .muted }]
  links := [⟨1, .number 1, 0, .number 3, 0, "LATENT"⟩, ⟨2, .number 3, 0, .number 2, 0, "LATENT"⟩]
  nextLinkId := 3

def nestedOnce : Graph :=
  nested.expandInstance nestedDefinitions (chained (.number 3) "workflow/outer" (some 1) (some [2]))
    (nestedDefinitions.describe "outer" outerConfig)

theorem nested_expansionStart : nested.expansionStart nestedDefinitions [] =
    (⟨nested, [], 0⟩, [⟨.number 3, []⟩, ⟨.number 4, []⟩]) := by
  have queue : (nested.expansionStart nestedDefinitions []).2 = [⟨.number 3, []⟩, ⟨.number 4, []⟩] := by
    decide +kernel
  exact congrArg (Prod.mk _) queue

theorem nested_outer : nestedDefinitions.expandable? nested ⟨.number 3, []⟩ =
    some (chained (.number 3) "workflow/outer" (some 1) (some [2]),
      nestedDefinitions.describe "outer" outerConfig) := by decide +kernel

theorem nested_queued : nestedDefinitions.nestedInstances nestedOnce ⟨.number 3, []⟩
    (nestedDefinitions.describe "outer" outerConfig) = [⟨.name "3:1", ["outer"]⟩] := by decide +kernel

theorem nested_muted : nestedDefinitions.expandable? nestedOnce ⟨.number 4, []⟩ = none := by decide +kernel

theorem nested_inner : nestedDefinitions.expandable? nestedOnce ⟨.name "3:1", ["outer"]⟩ =
    some (chained (.name "3:1") "workflow/pair" (some 3) (some [4, 2]),
      nestedDefinitions.describe "pair" pairConfig) := by decide +kernel

theorem nested_staysBelowTop : nestedDefinitions.StaysBelowTop (nested.expansionStart nestedDefinitions []) := by
  have outerRoom : nestedDefinitions.HasRoom nested (nestedDefinitions.describe "outer" outerConfig) := by
    decide +kernel
  have innerRoom : nestedDefinitions.HasRoom nestedOnce (nestedDefinitions.describe "pair" pairConfig) := by
    decide +kernel
  have done : nestedDefinitions.nestedInstances (nestedOnce.expandInstance nestedDefinitions
      (chained (.name "3:1") "workflow/pair" (some 3) (some [4, 2]))
      (nestedDefinitions.describe "pair" pairConfig)) ⟨.name "3:1", ["outer"]⟩
      (nestedDefinitions.describe "pair" pairConfig) = [] := by decide +kernel
  rw [nested_expansionStart]
  apply Definitions.staysBelowTop_replace nested_outer outerRoom
  intro missing expanded
  change nestedDefinitions.StaysBelowTop (⟨nestedOnce, missing, expanded⟩,
    ⟨.number 4, []⟩ :: nestedDefinitions.nestedInstances nestedOnce _ _)
  rw [nested_queued]
  apply Definitions.staysBelowTop_pass nested_muted
  apply Definitions.staysBelowTop_replace nested_inner innerRoom
  intro missing expanded
  rw [done]
  exact nestedDefinitions.staysBelowTop_nil _

theorem nested_replaces : nestedDefinitions.Replaces (nested.expansionStart nestedDefinitions []) (.name "3:1") := by
  have outer : ExpansionStep nestedDefinitions _ _ :=
    .replace ⟨nested, [], 0⟩ ⟨.number 3, []⟩ [⟨.number 4, []⟩] _ _ nested_outer
  change ExpansionStep nestedDefinitions _
    (⟨nestedOnce, _, _⟩, ⟨.number 4, []⟩ :: nestedDefinitions.nestedInstances nestedOnce _ _) at outer
  rw [nested_queued] at outer
  rw [nested_expansionStart]
  have reached := (Relation.ReflTransGen.single outer).tail (.pass _ _ _ nested_muted)
  exact ⟨_, _, _, _, _, reached, nested_inner, rfl⟩

theorem expandGroups_wired_nested :
    nested.Wired ∧ nested.Counted ∧ Unclaimed nestedDefinitions nested ∧
      nestedDefinitions.StaysBelowTop (nested.expansionStart nestedDefinitions []) ∧
      nestedDefinitions.Replaces (nested.expansionStart nestedDefinitions []) (.name "3:1") ∧
      (nested.expandGroups nestedDefinitions []).graph.nodeIds.map NodeId.display =
        ["1", "3:0", "3:1:0", "3:1:1", "3:2", "2", "4"] ∧
      (nested.expandGroups nestedDefinitions []).graph.Wired ∧
      ((nested.expandGroups nestedDefinitions []).graph.nodeIds.map NodeId.display).Nodup ∧
      ∀ id, nestedDefinitions.Replaces (nested.expansionStart nestedDefinitions []) id →
        ¬ (nested.expandGroups nestedDefinitions []).graph.Names id := by
  have wired : nested.Wired := by decide +kernel
  have counted : nested.Counted := by decide +kernel
  have displays : (nested.nodeIds.map NodeId.display).Nodup := by decide +kernel
  have unclaimed : Unclaimed nestedDefinitions nested := by decide +kernel
  have fits : ∀ group ∈ nestedDefinitions.groups.values, group.SlotsFit := by decide +kernel
  have once : ∀ group ∈ nestedDefinitions.groups.values, group.config.FeedsOnce := by decide +kernel
  refine ⟨wired, counted, unclaimed, nested_staysBelowTop, nested_replaces, by decide +kernel, ?_⟩
  exact expandGroups_wired rfl nested [] wired counted displays unclaimed fits once nested_staysBelowTop

end Graph
end Patchbay
