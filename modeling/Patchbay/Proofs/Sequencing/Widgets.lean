import Patchbay.Proofs.Sequencing.RoundTrip

/-!
Neither form of a document depends on the widgets of its nodes: whether they are changed before or after
a pass makes no difference.
-/
set_option autoImplicit false

namespace Patchbay

-- A change of widgets, node by node.
abbrev WidgetChange := NodeId → Option (List Json) → Option (List Json)

section Carry

variable (change : WidgetChange)

namespace Node

def mapWidgets (node : Node) : Node := { node with widgets := change node.id node.widgets }

end Node

theorem shiftsOf_mapWidgets (measure : Node → Nat × Nat)
    (blind : ∀ node : Node, measure (node.mapWidgets change) = measure node) (nodes : List Node) :
    shiftsOf measure (nodes.map (·.mapWidgets change)) = shiftsOf measure nodes := by
  funext id
  rw [shiftsOf, findLast?_map (·.mapWidgets change) fun _ => rfl]
  cases found : findLast? nodes id with
  | none => rw [shiftsOf, found]; rfl
  | some node =>
    rw [shiftsOf, found]
    exact blind node

namespace Weave

def mapWidgets (w : Weave) : Weave := { w with nodes := w.nodes.map (·.mapWidgets change) }

theorem accept_mapWidgets (w : Weave) (flow : FlowLink) :
    (w.mapWidgets change).accept flow = (w.accept flow).mapWidgets change := by
  have link : (w.mapWidgets change).linkFor flow = w.linkFor flow := rfl
  have nodes : ((w.mapWidgets change).accept flow).nodes = ((w.accept flow).mapWidgets change).nodes := by
    have origin := updateLast_map (·.mapWidgets change) (fun _ => rfl) flow.origin
      (·.hangOrigin (w.linkFor flow)) (fun _ => rfl) w.nodes
    have target := updateLast_map (·.mapWidgets change) (fun _ => rfl) flow.target
      (·.hangTarget (w.linkFor flow)) (fun _ => rfl)
      (updateLast flow.origin (·.hangOrigin (w.linkFor flow)) w.nodes)
    rw [accept_nodes, link]
    simp only [mapWidgets]
    rw [origin, target, accept_nodes]
  exact Weave.ext nodes rfl rfl

theorem blocked_mapWidgets (w : Weave) (flow : FlowLink) :
    (w.mapWidgets change).blocked flow = w.blocked flow := by
  have find : ∀ id, findLast? (w.mapWidgets change).nodes id =
      (findLast? w.nodes id).map (·.mapWidgets change) :=
    findLast?_map (·.mapWidgets change) (fun _ => rfl) w.nodes
  rw [blocked, outputTaken, inputTaken, find, find, blocked, outputTaken, inputTaken]
  cases findLast? w.nodes flow.origin <;> cases findLast? w.nodes flow.target <;> rfl

theorem add_mapWidgets (counts : NodeId → Nat × Nat) (w next : Weave) (flow : FlowLink)
    (run : w.add counts flow = .ok next) :
    (w.mapWidgets change).add counts flow = .ok (next.mapWidgets change) := by
  obtain ⟨fits, rfl⟩ := (add_eq_ok_iff counts w next flow).1 run
  have find : ∀ id, (findLast? (w.mapWidgets change).nodes id).isSome = (findLast? w.nodes id).isSome := by
    intro id
    rw [mapWidgets, findLast?_map (·.mapWidgets change) fun _ => rfl, Option.isSome_map]
  rw [add_eq_ok_iff, blocked_mapWidgets]
  refine ⟨⟨?_, ?_, fits.originSlot, fits.targetSlot⟩, ?_⟩
  · rw [find]
    exact fits.origin
  · rw [find]
    exact fits.target
  · by_cases taken : w.blocked flow
    · rw [if_pos taken, if_pos taken]
    · rw [if_neg taken, if_neg taken, accept_mapWidgets]

theorem foldlM_add_mapWidgets (counts : NodeId → Nat × Nat) (flows : List FlowLink) (w final : Weave)
    (run : flows.foldlM (Weave.add counts) w = .ok final) :
    flows.foldlM (Weave.add counts) (w.mapWidgets change) = .ok (final.mapWidgets change) := by
  induction flows generalizing w with
  | nil =>
    cases run
    rfl
  | cons flow rest ih =>
    rw [List.foldlM_cons] at run ⊢
    cases step : w.add counts flow with
    | error cause =>
      rw [step] at run
      cases run
    | ok next =>
      rw [step] at run
      rw [add_mapWidgets change counts w next flow step]
      exact ih next run

end Weave

namespace Document

def mapWidgets (doc : Document) : Document := { doc with nodes := doc.nodes.map (·.mapWidgets change) }

theorem hasCompactFlow_mapWidgets (doc : Document) : (doc.mapWidgets change).hasCompactFlow = doc.hasCompactFlow := by
  simp only [hasCompactFlow, mapWidgets, List.any_map]
  rfl

theorem materialize_mapWidgets (doc runtime : Document) (compact : doc.hasCompactFlow = true)
    (run : doc.materialize = .ok runtime) :
    (doc.mapWidgets change).materialize = .ok (runtime.mapWidgets change) := by
  obtain ⟨unmixed, w, woven, rfl⟩ := (materialize_eq_ok_iff doc runtime compact).1 run
  have shifts : (doc.mapWidgets change).compactShifts = doc.compactShifts :=
    shiftsOf_mapWidgets change (·.compactCounts) (fun _ => rfl) doc.nodes
  have start : (doc.mapWidgets change).startWeave = doc.startWeave.mapWidgets change := by
    rw [startWeave, shifts]
    simp only [mapWidgets, startWeave, Weave.mapWidgets, List.map_map]
    rfl
  rw [materialize_eq_ok_iff _ _ (by rw [hasCompactFlow_mapWidgets, compact])]
  refine ⟨?_, w.mapWidgets change, ?_, rfl⟩
  · intro node member
    obtain ⟨old, inside, rfl⟩ := List.mem_map.1 member
    exact unmixed old inside
  · rw [shifts, start]
    exact Weave.foldlM_add_mapWidgets change _ _ _ _ woven

theorem stripped_mapWidgets (doc : Document) :
    (doc.mapWidgets change).stripped = doc.stripped.mapWidgets change := by
  have shifts : (doc.mapWidgets change).leadingShifts = doc.leadingShifts :=
    shiftsOf_mapWidgets change (·.leadingCounts) (fun _ => rfl) doc.nodes
  rw [stripped, shifts]
  simp only [mapWidgets, stripped, List.map_map]
  rfl

theorem compact_mapWidgets (doc : Document) (runtime : doc.hasCompactFlow = false)
    (lead : ∀ node ∈ doc.nodes, node.flowSlotsLead = true) :
    (doc.mapWidgets change).compact = .ok (doc.stripped.mapWidgets change) := by
  rw [compact_of_not_compact _ (by rw [hasCompactFlow_mapWidgets, runtime]), strip_eq_ok, stripped_mapWidgets]
  intro node member
  obtain ⟨old, inside, rfl⟩ := List.mem_map.1 member
  exact lead old inside

end Document

end Carry

end Patchbay
