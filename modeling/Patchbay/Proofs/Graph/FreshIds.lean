import Patchbay.Proofs.Graph.Keyed
import Patchbay.Proofs.Sequencing.RoundTrip

/-!
Where the ids of new links come from. A chain, a stored sequencing link under an id that is taken, and a link
between two members each get theirs from a counter that stands above every id in use, or at the last id of all,
where it stays. So a new id is in use already exactly if the last one is.
-/
set_option autoImplicit false

namespace Patchbay

theorem Word.mem_iff_top_mem {next : Word} {ids : List Word} (above : ∀ id ∈ ids, id.raise 1 ≤ next) :
    next ∈ ids ↔ top ∈ ids := by
  constructor
  · intro used
    rwa [eq_top_of_raise_le (above next used)] at used
  · intro used
    have reached := above top used
    rw [raise_top] at reached
    rwa [eq_top_of_top_le reached]

/-! ### Chains -/

theorem above_chainLinks {next : LinkId} {order : List NodeId} {before after : List FlowLink} {link : FlowLink}
    {ids : List LinkId} (chain : chainLinks next order = before ++ link :: after)
    (above : ∀ id ∈ ids, id.raise 1 ≤ next) : ∀ id ∈ ids ++ before.map (·.id), id.raise 1 ≤ link.id := by
  induction before generalizing next order ids with
  | nil =>
    match order with
    | [] | [_] => cases chain
    | origin :: target :: rest =>
      cases chain
      simpa using above
  | cons first before ih =>
    match order with
    | [] | [_] => cases chain
    | origin :: target :: rest =>
      rw [chainLinks, List.cons_append, List.cons.injEq] at chain
      obtain ⟨rfl, chain⟩ := chain
      -- From here on the first id is one of those in use.
      have later : ∀ id ∈ ids ++ [next], id.raise 1 ≤ next.raise 1 := by
        intro id used
        rcases List.mem_append.1 used with old | new
        · exact UInt64.le_trans (above id old) (Word.le_raise next 1)
        · rw [List.mem_singleton.1 new]
          exact UInt64.le_refl _
      simpa using ih chain later

/-! ### Stored sequencing links -/

namespace Weave

-- The counter stands above the ids of all links, and of those that are still to be hung in.
def Clear (flows : List FlowLink) (w : Weave) : Prop :=
  ∀ id ∈ w.links.map (·.id) ++ flows.map (·.id), id.raise 1 ≤ w.next

theorem clear_startWeave (doc : Document) : doc.startWeave.Clear doc.flowLinkList := by
  intro id used
  refine doc.raise_le_nextLinkId (List.mem_append_left _ ?_)
  simpa [Document.startWeave, Document.linkIds, Link.raiseSlots] using used

variable {flow : FlowLink} {flows : List FlowLink} {w : Weave}

theorem Clear.leave (clear : w.Clear (flow :: flows)) : w.Clear flows := by
  intro id used
  refine clear id (List.mem_append.2 ((List.mem_append.1 used).imp_right fun pending => ?_))
  exact List.mem_cons_of_mem _ pending

theorem Clear.accept (clear : w.Clear (flow :: flows)) : (w.accept flow).Clear flows := by
  have counted : w.Counted := fun link member => clear link.id (List.mem_append_left _ (List.mem_map_of_mem member))
  intro id used
  rcases List.mem_append.1 used with held | pending
  · obtain ⟨link, member, rfl⟩ := List.mem_map.1 held
    exact w.accept_counted flow counted link member
  · exact UInt64.le_trans (clear.leave id (List.mem_append_right _ pending)) (w.next_le_accept flow)

theorem Clear.run {counts : NodeId → Nat × Nat} {done : List FlowLink} {v : Weave} (clear : v.Clear (done ++ flows))
    (reached : done.foldlM (Weave.add counts) v = .ok w) : w.Clear flows :=
  run_keeps (P := fun rest u => u.Clear (rest ++ flows)) (fun _ _ _ _ _ held => held.leave)
    (fun _ _ _ _ _ held => held.accept) clear reached

theorem add_hung {counts : NodeId → Nat × Nat} {next : Weave} {link : Link} (step : w.add counts flow = .ok next)
    (new : next.links = w.links ++ [link]) : link = w.linkFor flow := by
  obtain ⟨-, rfl⟩ := (add_eq_ok_iff counts w next flow).1 step
  by_cases taken : w.blocked flow
  · rw [if_pos taken] at new
    simp at new
  · rw [if_neg taken, accept_links, List.append_cancel_left_eq, List.cons.injEq] at new
    exact new.1.symm

end Weave

/-! ### Links of a graph -/

theorem ids_putLink_of_used (link : Link) (links : List Link) (used : link.id ∈ links.map (·.id)) :
    (putLink link links).map (·.id) = links.map (·.id) := by
  induction links with
  | nil => cases used
  | cons other rest ih =>
    rw [putLink]
    by_cases here : other.id = link.id
    · rw [if_pos here, List.map_cons, List.map_cons, here]
    · rw [if_neg here, List.map_cons, List.map_cons, ih]
      exact (List.mem_cons.1 used).resolve_left (Ne.symm here)

namespace Graph

-- The counter does not go back, and no id in use overtakes it.
structure Onward (g h : Graph) : Prop where
  next : g.nextLinkId ≤ h.nextLinkId
  ahead : g.Ahead → h.Ahead

theorem Onward.refl (g : Graph) : g.Onward g := ⟨UInt64.le_refl _, fun ahead => ahead⟩

theorem Onward.trans {g h k : Graph} (first : g.Onward h) (second : h.Onward k) : g.Onward k :=
  ⟨UInt64.le_trans first.next second.next, fun ahead => second.ahead (first.ahead ahead)⟩

theorem Onward.foldl {α : Type} {change : Graph → α → Graph}
    (step : ∀ (g : Graph) (a : α), g.Onward (change g a)) (list : List α) (g : Graph) : g.Onward (list.foldl change g) :=
  List.foldlRecOn list change (Onward.refl g) fun h done a _ => done.trans (step h a)

section Operations

variable (g : Graph) (defs : Definitions)

theorem onward_of_links {h : Graph} (next : h.nextLinkId = g.nextLinkId) (links : h.links ⊆ g.links) : g.Onward h := by
  refine ⟨next ▸ UInt64.le_refl _, fun ahead link member => ?_⟩
  rw [next]
  exact ahead link (links member)

theorem onward_insertLink (link : Link) : g.Onward (g.insertLink link) := by
  have next := g.nextLinkId_insertLink link
  refine ⟨next ▸ Word.le_max_left _ _, fun ahead other member => ?_⟩
  rw [next]
  rw [insertLink_eq] at member
  rcases mem_ids_putLink link g.links other.id (List.mem_map_of_mem member) with same | old
  · rw [same]
    exact Word.le_max_right _ _
  · obtain ⟨held, inside, same⟩ := List.mem_map.1 old
    rw [← same]
    exact UInt64.le_trans (ahead held inside) (Word.le_max_left _ _)

theorem onward_allocate : g.Onward g.allocate.2 :=
  ⟨Word.le_raise _ 1, fun ahead link member => UInt64.le_trans (ahead link member) (Word.le_raise _ 1)⟩

theorem onward_removeLink (id : LinkId) : g.Onward (g.removeLink id) :=
  g.onward_of_links (g.nextLinkId_removeLink id) fun _ member => ((g.mem_removeLink id _).1 member).1

theorem onward_removeNode (id : NodeId) : g.Onward (g.removeNode id) :=
  g.onward_of_links (g.nextLinkId_removeNode id) fun _ member => ((mem_foldl_removeLink _ g _).1 member).1

theorem onward_reroute (change : LinkId × (Link → Option Link)) : g.Onward (g.reroute change) := by
  rw [reroute]
  cases g.link? change.1 with
  | none => exact Onward.refl g
  | some link =>
    cases made : change.2 link with
    | none => simpa only [made] using g.onward_removeLink change.1
    | some moved => simpa only [made] using g.onward_insertLink moved

theorem onward_addInnerLink (config : GroupConfig) (place : NodeId) (inner : GroupLink) :
    g.Onward (addInnerLink defs config place g inner) := by
  obtain ⟨origin, slot, type, added⟩ := addInnerLink_eq defs config place g inner
  rw [added]
  by_cases joined : defs.joins config inner
  · rw [if_pos joined]
    exact g.onward_allocate.trans (g.allocate.2.onward_insertLink _)
  · rw [if_neg joined]
    exact Onward.refl g

theorem onward_membersPlaced (place : Node) (group : GroupDef) : g.Onward (g.membersPlaced defs place group) :=
  g.onward_of_links rfl fun _ member => member

theorem onward_moveInput (group : GroupDef) (place : NodeId) (entry : InputSlot × Nat) :
    g.Onward (moveInput defs group place g entry) := by
  rw [moveInput_eq]
  exact Onward.foldl (fun h _ => h.onward_reroute _) _ g

theorem onward_moveOutput (group : GroupDef) (place : NodeId) (entry : OutputSlot × Nat) :
    g.Onward (moveOutput defs group place g entry) := by
  refine Onward.foldl (fun h id => ?_) _ g
  rw [moveOrigin_eq]
  exact h.onward_reroute _

theorem onward_of_membersLinked (place : Node) (group : GroupDef) :
    (g.membersLinked defs place group).Onward (g.expandInstance defs place group) := by
  have fed : (g.membersLinked defs place group).Onward (g.inputsMoved defs place group) :=
    Onward.foldl (fun h entry => h.onward_moveInput defs group place.id entry) _ _
  have drained : (g.inputsMoved defs place group).Onward (g.outputsMoved defs place group) :=
    Onward.foldl (fun h entry => h.onward_moveOutput defs group place.id entry) _ _
  exact (fed.trans drained).trans (onward_removeNode _ place.id)

theorem onward_expandInstance (place : Node) (group : GroupDef) : g.Onward (g.expandInstance defs place group) := by
  have linked : (g.membersPlaced defs place group).Onward (g.membersLinked defs place group) :=
    Onward.foldl (fun h inner => h.onward_addInnerLink defs group.config place.id inner) _ _
  exact (g.onward_membersPlaced defs place group).trans (linked.trans (g.onward_of_membersLinked defs place group))

end Operations

theorem onward_resolvePrimitives (g : Graph) (defs : Definitions) : g.Onward (Compiler.resolvePrimitives g defs) := by
  have write : ∀ (pass : PrimitivePass) (value : Json) (target : NodeId × Nat),
      pass.graph.Onward (pass.write defs value target).graph := by
    intro pass value target
    rw [PrimitivePass.write]
    cases pass.graph.writtenNode? defs value target with
    | none => exact Onward.refl _
    | some node => exact onward_of_links _ rfl fun _ member => member
  have visit : ∀ (pass : PrimitivePass) (id : NodeId), pass.graph.Onward (pass.visit defs id).graph := by
    intro pass id
    rw [PrimitivePass.visit]
    cases pass.graph.primitive? defs.registry id with
    | none => exact Onward.refl _
    | some primitive =>
      exact List.foldlRecOn (motive := fun later => pass.graph.Onward later.graph) _ _ (Onward.refl _)
        fun later done target _ => done.trans (write later primitive.1 target)
  exact List.foldlRecOn (motive := fun pass : PrimitivePass => g.Onward pass.graph) _ _ (Onward.refl g)
    fun pass done id _ => done.trans (visit pass id)

theorem onward_expandQueue (defs : Definitions) (state : ExpansionState) (queue : List PendingInstance) :
    state.graph.Onward (expandQueue defs state queue).graph := by
  fun_induction expandQueue defs state queue with
  | case1 state => exact Onward.refl _
  | case2 state entry queue kept ih => exact ih
  | case3 state entry queue node group found graph ih => exact (onward_expandInstance _ defs node group).trans ih

theorem onward_of_reaches {defs : Definitions} {start after : ExpansionState × List PendingInstance}
    (reached : defs.Reaches start after) : start.1.graph.Onward after.1.graph := by
  induction reached with
  | refl => exact Onward.refl _
  | tail _ step ih =>
    cases step with
    | pass => exact ih
    | replace state entry queue node group found => exact ih.trans (onward_expandInstance _ defs node group)

/-! ### Links between members -/

/-- The graphs that an expansion begins with. -/
inductive Loads (defs : Definitions) : Graph → Prop
  | loaded (doc : Document) : Loads defs (ofDocument doc)
  | resolved (doc : Document) : Loads defs (Compiler.resolvePrimitives (ofDocument doc) defs)

theorem Loads.ahead {defs : Definitions} {g : Graph} (loads : Loads defs g) : g.Ahead := by
  cases loads with
  | loaded doc => exact ahead_ofDocument doc
  | resolved doc => exact (onward_resolvePrimitives _ defs).ahead (ahead_ofDocument doc)

/-- In an expansion of `start`, `g` is the graph to which the link `inner` between two members of `place` is added next. -/
structure AddsNext (defs : Definitions) (start : Graph) (missing : List String) (place : Node) (group : GroupDef)
    (inner : GroupLink) (g : Graph) : Prop where
  reached : ∃ state entry queue, defs.Reaches (start.expansionStart defs missing) (state, entry :: queue) ∧
    defs.expandable? state.graph entry = some (place, group) ∧
    ∃ before after, group.config.links = before ++ inner :: after ∧
      before.foldl (addInnerLink defs group.config place.id) (state.graph.membersPlaced defs place group) = g
  joined : defs.joins group.config inner

section AddsNext

variable {defs : Definitions} {start g : Graph} {missing : List String} {place : Node} {group : GroupDef}
  {inner : GroupLink}

theorem AddsNext.onward (adds : AddsNext defs start missing place group inner g) : start.Onward g := by
  obtain ⟨state, entry, queue, reached, _, before, after, _, rfl⟩ := adds.reached
  refine (onward_of_reaches reached).trans ((onward_membersPlaced _ defs place group).trans ?_)
  exact Onward.foldl (fun h link => h.onward_addInnerLink defs group.config place.id link) before _

theorem AddsNext.onward_final (adds : AddsNext defs start missing place group inner g) :
    g.Onward (start.expandGroups defs missing).graph := by
  obtain ⟨state, entry, queue, reached, found, before, after, split, rfl⟩ := adds.reached
  have linked : (before.foldl (addInnerLink defs group.config place.id)
      (state.graph.membersPlaced defs place group)).Onward (state.graph.membersLinked defs place group) := by
    rw [membersLinked, split, List.foldl_append]
    exact Onward.foldl (fun h link => h.onward_addInnerLink defs group.config place.id link) _ _
  have replaced := reached.tail (.replace state entry queue place group found)
  have final := Definitions.expandQueue_of_reaches replaced
  have same : start.expandGroups defs missing = expandQueue defs (start.expansionStart defs missing).1
    (start.expansionStart defs missing).2 := rfl
  rw [same, final]
  refine linked.trans ((onward_of_membersLinked _ defs place group).trans ?_)
  exact onward_expandQueue defs ⟨state.graph.expandInstance defs place group, _, _⟩ _

theorem AddsNext.ahead (adds : AddsNext defs start missing place group inner g) (loads : Loads defs start) : g.Ahead :=
  adds.onward.ahead loads.ahead

-- The link is a further one of the graph, or it takes the place of another one.
theorem AddsNext.links (adds : AddsNext defs start missing place group inner g) :
    ∃ link, link.id = g.nextLinkId ∧
      (addInnerLink defs group.config place.id g inner).links = putLink link g.links := by
  obtain ⟨origin, slot, type, added⟩ := addInnerLink_eq defs group.config place.id g inner
  rw [added, if_pos adds.joined, insertLink_eq]
  exact ⟨_, rfl, rfl⟩

theorem AddsNext.links_of_fresh (adds : AddsNext defs start missing place group inner g)
    (fresh : g.nextLinkId ∉ g.links.map (·.id)) : ∃ link, link.id = g.nextLinkId ∧
      (addInnerLink defs group.config place.id g inner).links = g.links ++ [link] := by
  obtain ⟨link, newId, links⟩ := adds.links
  refine ⟨link, newId, links.trans (putLink_of_fresh link g.links fun other member same => fresh ?_)⟩
  rw [← newId, ← same]
  exact List.mem_map_of_mem member

theorem AddsNext.linkIds_of_used (adds : AddsNext defs start missing place group inner g)
    (used : g.nextLinkId ∈ g.links.map (·.id)) :
    (addInnerLink defs group.config place.id g inner).links.map (·.id) = g.links.map (·.id) := by
  obtain ⟨link, newId, links⟩ := adds.links
  rw [links, ids_putLink_of_used link g.links (newId ▸ used)]

theorem AddsNext.nextLinkId_eq_top (adds : AddsNext defs start missing place group inner g) (loads : Loads defs start)
    (used : Word.top ∈ g.links.map (·.id)) : (start.expandGroups defs missing).graph.nextLinkId = Word.top := by
  obtain ⟨link, member, last⟩ := List.mem_map.1 used
  have above := adds.ahead loads link member
  rw [last, Word.raise_top] at above
  exact Word.eq_top_of_top_le (UInt64.le_trans above adds.onward_final.next)

end AddsNext

end Graph

/-! ### Every new link -/

/-- An id is given to a new link while those in the list are in use: to a link of a chain, to a stored sequencing link
whose own id is taken, or to a link between two members. -/
inductive Draws (defs : Definitions) : LinkId → List LinkId → Prop
  | chain (doc : Document) (before after : List FlowLink) (link : FlowLink)
      (chain : chainLinks doc.nextLinkId (doc.flowOrder defs.registry) = before ++ link :: after) :
      Draws defs link.id (doc.linkIds ++ before.map (·.id))
  | stored (doc : Document) (before after : List FlowLink) (flow : FlowLink) (w next : Weave) (link : Link)
      (split : doc.flowLinkList = before ++ flow :: after)
      (reached : before.foldlM (Weave.add doc.compactShifts) doc.startWeave = .ok w)
      (step : w.add doc.compactShifts flow = .ok next) (new : next.links = w.links ++ [link])
      (used : w.holds flow.id) : Draws defs link.id (w.links.map (·.id) ++ (flow :: after).map (·.id))
  | member (start g : Graph) (missing : List String) (place : Node) (group : GroupDef) (inner : GroupLink)
      (loads : Graph.Loads defs start) (adds : Graph.AddsNext defs start missing place group inner g) :
      Draws defs g.allocate.1 (g.links.map (·.id))

theorem Draws.mem_iff {defs : Definitions} {id : LinkId} {inUse : List LinkId} (draws : Draws defs id inUse) :
    id ∈ inUse ↔ Word.top ∈ inUse := by
  cases draws with
  | chain doc before after link chain =>
    refine Word.mem_iff_top_mem (above_chainLinks chain fun id used => ?_)
    exact doc.raise_le_nextLinkId (List.mem_append_left _ used)
  | stored doc before after flow w next link split reached step new used =>
    have clear : doc.startWeave.Clear (before ++ flow :: after) := split ▸ Weave.clear_startWeave doc
    rw [Weave.add_hung step new, Weave.linkFor, if_pos used]
    exact Word.mem_iff_top_mem (clear.run reached)
  | member start g missing place group inner loads adds =>
    refine Word.mem_iff_top_mem fun id used => ?_
    obtain ⟨link, member, rfl⟩ := List.mem_map.1 used
    exact adds.ahead loads link member

-- Each added link comes under an id of its own, or under the last one.
def FreshBehind (data added : List Link) : Prop :=
  ∀ i link, added[i]? = some link → link.id ∈ (data ++ added.take i).map (·.id) → link.id = Word.top

theorem FreshBehind.snoc {data added : List Link} {link : Link} (fresh : FreshBehind data added)
    (new : link.id ∈ (data ++ added).map (·.id) → link.id = Word.top) : FreshBehind data (added ++ [link]) := by
  intro i other here used
  by_cases inside : i < added.length
  · rw [List.getElem?_append_left inside] at here
    rw [List.take_append_of_le_length (Nat.le_of_lt inside)] at used
    exact fresh i other here used
  · obtain ⟨bound, _⟩ := List.getElem?_eq_some_iff.1 here
    rw [List.length_append, List.length_singleton] at bound
    obtain rfl : i = added.length := by omega
    rw [List.getElem?_concat_length, Option.some.injEq] at here
    rw [List.take_left, ← here] at used
    exact here ▸ new used

-- The links that were added to `start` are told apart by their ids.
structure Weave.GrownFrom (w start : Weave) : Prop where
  counted : w.Counted
  links : ∃ added, w.links = start.links ++ added ∧ FreshBehind start.links added

theorem Weave.GrownFrom.accept {start w : Weave} (grown : w.GrownFrom start) (flow : FlowLink) :
    (w.accept flow).GrownFrom start := by
  obtain ⟨added, links, fresh⟩ := grown.links
  refine ⟨w.accept_counted flow grown.counted, added ++ [w.linkFor flow], ?_, fresh.snoc fun used => ?_⟩
  · rw [accept_links, links, List.append_assoc]
  · rw [← links] at used
    obtain ⟨other, member, same⟩ := List.mem_map.1 used
    have held : w.holds (w.linkFor flow).id := List.any_eq_true.2 ⟨other, member, beq_iff_eq.2 same⟩
    exact (w.top_of_linkFor_held flow grown.counted held).1

namespace Document

theorem materialize_fresh {doc runtime : Document} (done : doc.materialize = .ok runtime) :
    ∃ data added, runtime.links = data ++ added ∧ data.map (·.id) = doc.links.map (·.id) ∧ FreshBehind data added := by
  by_cases compact : doc.hasCompactFlow
  · obtain ⟨_, w, run, rfl⟩ := (doc.materialize_eq_ok_iff runtime compact).1 done
    have start : doc.startWeave.GrownFrom doc.startWeave :=
      ⟨startWeave_counted, [], (List.append_nil _).symm, by simp [FreshBehind]⟩
    have grown : w.GrownFrom doc.startWeave := Weave.run_keeps (P := fun _ v => v.GrownFrom doc.startWeave)
      (fun _ _ _ _ _ held => held) (fun flow _ _ _ _ held => held.accept flow) start run
    obtain ⟨added, links, fresh⟩ := grown.links
    refine ⟨doc.startWeave.links, added, links, ?_, fresh⟩
    simp [startWeave, Link.raiseSlots]
  · rw [materialize_of_not_compact doc (by simpa using compact)] at done
    cases done
    exact ⟨doc.links, [], (List.append_nil _).symm, rfl, by simp [FreshBehind]⟩

theorem expand_fresh {doc runtime : Document} {r : Registry} (done : doc.expand r = .ok runtime) :
    ∃ data added, runtime.links = data ++ added ∧ data.map (·.id) = doc.links.map (·.id) ∧ FreshBehind data added := by
  rw [expand] at done
  split at done
  · exact (doc.addChain r).materialize_fresh done
  · exact doc.materialize_fresh done

end Document

/-- Every id that a new link draws is in use already exactly if the last id is. No link of a document that is brought
into runtime form shares an id with a new one but that last id, and an expansion adds its inner links behind the
others, none in the place of another one, as long as its counter does not come to that id. -/
theorem newLinkIds_fresh (defs : Definitions) :
    (∀ id inUse, Draws defs id inUse → (id ∈ inUse ↔ Word.top ∈ inUse)) ∧
      (∀ (doc runtime : Document), doc.expand defs.registry = .ok runtime → ∃ data added,
        runtime.links = data ++ added ∧ data.map (·.id) = doc.links.map (·.id) ∧ FreshBehind data added) ∧
      ∀ start missing place group inner g, Graph.Loads defs start →
        Graph.AddsNext defs start missing place group inner g →
          let after := Graph.addInnerLink defs group.config place.id g inner
          (Word.top ∉ g.links.map (·.id) → ∃ link, link.id = g.nextLinkId ∧ after.links = g.links ++ [link]) ∧
            (Word.top ∈ g.links.map (·.id) → after.links.map (·.id) = g.links.map (·.id) ∧
              (start.expandGroups defs missing).graph.nextLinkId = Word.top) := by
  refine ⟨fun id inUse draws => draws.mem_iff, fun doc runtime done => Document.expand_fresh done, ?_⟩
  intro start missing place group inner g loads adds after
  have drawn : g.nextLinkId ∈ g.links.map (·.id) ↔ Word.top ∈ g.links.map (·.id) :=
    (Draws.member start g missing place group inner loads adds).mem_iff
  constructor
  · intro free
    exact adds.links_of_fresh (mt drawn.1 free)
  · intro used
    exact ⟨adds.linkIds_of_used (drawn.2 used), adds.nextLinkId_eq_top loads used⟩

-- A sampler that feeds another one by the last link id, and an instance of two samplers with a link between them.
def crowded : Document :=
  { Document.empty with
    nodes := [Graph.chained (.number 1) "Sampler" none (some [Word.top]),
      Graph.chained (.number 2) "Sampler" (some Word.top) none, Graph.chained (.number 3) "workflow/pair" none none]
    links := [⟨Word.top, .number 1, 0, .number 2, 0, "LATENT"⟩]
    supportsFlow := true }

def crowdedPlaced : Graph :=
  (Graph.ofDocument crowded).membersPlaced Graph.nestedDefinitions (Graph.chained (.number 3) "workflow/pair" none none)
    (Graph.nestedDefinitions.describe "pair" Graph.pairConfig)

theorem crowded_adds : Graph.AddsNext Graph.nestedDefinitions (Graph.ofDocument crowded) []
    (Graph.chained (.number 3) "workflow/pair" none none) (Graph.nestedDefinitions.describe "pair" Graph.pairConfig)
    ⟨some 0, 0, 1, 0, []⟩ crowdedPlaced where
  reached := by
    have queue : ((Graph.ofDocument crowded).expansionStart Graph.nestedDefinitions []).2 = [⟨.number 3, []⟩] := by
      decide +kernel
    refine ⟨⟨Graph.ofDocument crowded, [], 0⟩, ⟨.number 3, []⟩, [], ?_, by decide +kernel, [], [], rfl, rfl⟩
    rw [← queue]
    exact .refl
  joined := by decide +kernel

-- The link between the samplers is lost: the one inside the instance comes under its id.
theorem newLinkIds_taken :
    Draws Graph.nestedDefinitions Word.top [Word.top] ∧
      (Graph.ofDocument crowded).links = [⟨Word.top, .number 1, 0, .number 2, 0, "LATENT"⟩] ∧
      ((Graph.ofDocument crowded).expandGroups Graph.nestedDefinitions []).graph.links =
        [⟨Word.top, .name "3:0", 0, .name "3:1", 0, "LATENT"⟩] :=
  ⟨.member _ _ _ _ _ _ (.loaded crowded) crowded_adds, rfl, by decide +kernel⟩

-- A stored sequencing link under the last link id, which a data link has.
def pressed : Document :=
  let sampler (id : Int64) (link : Option LinkId) (links : Option (List LinkId)) : Node :=
    { Graph.chained (.number id) "Sampler" link links with
      flowInputs := some [.plain "FROM"]
      flowOutputs := some [.plain "TO"] }
  { Document.empty with
    nodes := [sampler 1 none (some [Word.top]), sampler 2 (some Word.top) none]
    links := [⟨Word.top, .number 1, 0, .number 2, 0, "LATENT"⟩]
    flowLinks := some [⟨Word.top, .number 1, 0, .number 2, 0, []⟩] }

theorem newLinkIds_fresh_crowded :
    (∃ runtime data added, pressed.expand Graph.nestedDefinitions.registry = .ok runtime ∧
      runtime.links = data ++ added ∧ data.map (·.id) = [Word.top] ∧ added.map (·.id) = [Word.top] ∧
      FreshBehind data added) ∧
      (crowdedPlaced.allocate.1 ∈ crowdedPlaced.links.map (·.id) ↔ Word.top ∈ crowdedPlaced.links.map (·.id)) ∧
      Word.top ∈ crowdedPlaced.links.map (·.id) ∧
      ((Graph.ofDocument crowded).expandGroups Graph.nestedDefinitions []).graph.nextLinkId = Word.top := by
  obtain ⟨drawn, expanded, added⟩ := newLinkIds_fresh Graph.nestedDefinitions
  have used : Word.top ∈ crowdedPlaced.links.map (·.id) := by decide +kernel
  have adds := crowded_adds
  refine ⟨?_, drawn _ _ (.member _ _ _ _ _ _ (.loaded crowded) adds), used, ?_⟩
  · have ids : (pressed.expand Graph.nestedDefinitions.registry).toOption.map (·.links.map (·.id)) =
        some [Word.top, Word.top] := by decide +kernel
    cases done : pressed.expand Graph.nestedDefinitions.registry with
    | error cause =>
      rw [done] at ids
      cases ids
    | ok runtime =>
      obtain ⟨data, new, links, old, fresh⟩ := expanded pressed runtime done
      have first : data.map (·.id) = [Word.top] := old
      rw [done, Except.toOption, Option.map_some, Option.some.injEq, links, List.map_append, first] at ids
      exact ⟨runtime, data, new, rfl, links, first, (List.cons.inj ids).2, fresh⟩
  · exact ((added _ _ _ _ _ _ (.loaded crowded) adds).2 used).2

end Patchbay
