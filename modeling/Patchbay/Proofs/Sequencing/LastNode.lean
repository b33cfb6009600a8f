import Patchbay.Sequencing.Forms

/-!
The last node of an id is the one that sequencing reads and changes. Looking it up follows the list
just as the change does.
-/
set_option autoImplicit false

namespace Patchbay

theorem findLast?_cons (node : Node) (rest : List Node) (id : NodeId) :
    findLast? (node :: rest) id = (findLast? rest id).or (if node.id = id then some node else none) := by
  unfold findLast?
  rw [List.reverse_cons, List.find?_append]
  by_cases same : node.id = id <;> simp [same]

theorem id_of_findLast? {nodes : List Node} {id : NodeId} {node : Node}
    (found : findLast? nodes id = some node) : node.id = id := by
  simpa using List.find?_some found

theorem mem_of_findLast? {nodes : List Node} {id : NodeId} {node : Node}
    (found : findLast? nodes id = some node) : node ∈ nodes :=
  List.mem_reverse.1 (List.mem_of_find?_eq_some found)

theorem findLast?_isSome_iff (nodes : List Node) (id : NodeId) :
    (findLast? nodes id).isSome ↔ nodes.any (·.id == id) := by
  rw [findLast?, List.find?_isSome, List.any_eq_true]
  simp only [List.mem_reverse]

theorem findLast?_map (change : Node → Node) (sameId : ∀ node, (change node).id = node.id)
    (nodes : List Node) (id : NodeId) : findLast? (nodes.map change) id = (findLast? nodes id).map change := by
  unfold findLast?
  rw [← List.map_reverse, List.find?_map]
  have same : ((fun node : Node => node.id == id) ∘ change) = fun node => node.id == id := by
    funext node
    simp only [Function.comp, sameId]
  rw [same]

/-- Lists that look alike have alike last nodes. -/
theorem findLast?_view {α : Type} (view : Node → α) (idOf : α → NodeId)
    (hasId : ∀ node, idOf (view node) = node.id) {a b : List Node} (same : a.map view = b.map view)
    (id : NodeId) : (findLast? a id).map view = (findLast? b id).map view := by
  have views : ∀ nodes : List Node,
      (findLast? nodes id).map view = (nodes.map view).reverse.find? (idOf · == id) := by
    intro nodes
    unfold findLast?
    rw [← List.map_reverse, List.find?_map]
    congr 2
    funext node
    simp only [Function.comp, hasId]
  rw [views a, views b, same]

theorem updateLast_map_view {α : Type} (view : Node → α) (id : NodeId) (change : Node → Node)
    (nodes : List Node) (kept : ∀ node, findLast? nodes id = some node → view (change node) = view node) :
    (updateLast id change nodes).map view = nodes.map view := by
  induction nodes with
  | nil => rfl
  | cons node rest ih =>
    unfold updateLast
    by_cases here : node.id = id ∧ ¬ rest.any (·.id == id)
    · have absent : findLast? rest id = none := by
        rw [← findLast?_isSome_iff] at here
        simpa using here.2
      have found : findLast? (node :: rest) id = some node := by
        rw [findLast?_cons, absent, if_pos here.1]
        rfl
      rw [if_pos here, List.map_cons, List.map_cons, kept node found]
    · rw [if_neg here, List.map_cons, List.map_cons, ih]
      intro other found
      exact kept other (by rw [findLast?_cons, found]; rfl)

/-- A change that respects a map of the nodes can be made before or after it. -/
theorem updateLast_map (convert : Node → Node) (sameId : ∀ node, (convert node).id = node.id)
    (id : NodeId) (change : Node → Node) (commutes : ∀ node, convert (change node) = change (convert node))
    (nodes : List Node) : updateLast id change (nodes.map convert) = (updateLast id change nodes).map convert := by
  induction nodes with
  | nil => rfl
  | cons node rest ih =>
    have others : (rest.map convert).any (·.id == id) = rest.any (·.id == id) := by
      rw [List.any_map]
      congr 1
      funext other
      simp only [Function.comp, sameId]
    rw [List.map_cons]
    unfold updateLast
    rw [sameId, others]
    by_cases here : node.id = id ∧ ¬ rest.any (·.id == id)
    · rw [if_pos here, if_pos here, List.map_cons, commutes]
    · rw [if_neg here, if_neg here, List.map_cons, ih]

theorem updateLast_of_nodup (id : NodeId) (change : Node → Node) (nodes : List Node)
    (distinct : (nodes.map (·.id)).Nodup) :
    updateLast id change nodes = nodes.map fun node => if node.id = id then change node else node := by
  induction nodes with
  | nil => rfl
  | cons node rest ih =>
    rw [List.map_cons, List.nodup_cons] at distinct
    unfold updateLast
    rw [List.map_cons, ih distinct.2]
    by_cases same : node.id = id
    · have absent : ¬ rest.any (·.id == id) := by
        intro present
        obtain ⟨other, member, equal⟩ := List.any_eq_true.1 present
        have equal : other.id = id := by simpa using equal
        exact distinct.1 (List.mem_map.2 ⟨other, member, equal.trans same.symm⟩)
      have others : rest.map (fun node => if node.id = id then change node else node) = rest := by
        refine (List.map_congr_left fun other member => if_neg fun equal => ?_).trans (List.map_id rest)
        exact distinct.1 (List.mem_map.2 ⟨other, member, equal.trans same.symm⟩)
      rw [if_pos ⟨same, absent⟩, if_pos same, others]
    · rw [if_neg (fun both => same both.1), if_neg same]

theorem findLast?_of_nodup {nodes : List Node} (distinct : (nodes.map (·.id)).Nodup) {node : Node}
    (member : node ∈ nodes) : findLast? nodes node.id = some node := by
  induction nodes with
  | nil => cases member
  | cons other rest ih =>
    rw [List.map_cons, List.nodup_cons] at distinct
    rw [findLast?_cons]
    rcases List.mem_cons.1 member with rfl | later
    · have absent : findLast? rest node.id = none := by
        cases found : findLast? rest node.id with
        | none => rfl
        | some twin =>
          refine absurd ?_ distinct.1
          rw [← id_of_findLast? found]
          exact List.mem_map_of_mem (mem_of_findLast? found)
      rw [absent, if_pos rfl]
      rfl
    · rw [ih distinct.2 later]
      rfl

/-! ### All last nodes at once -/

-- One change for the last node of each id, another one for the nodes before it.
def mapLast (last earlier : Node → Node) : List Node → List Node
  | [] => []
  | node :: rest =>
    (if rest.any (·.id == node.id) then earlier node else last node) :: mapLast last earlier rest

theorem mapLast_congr {last last' earlier earlier' : Node → Node} {nodes : List Node}
    (lasts : ∀ node, findLast? nodes node.id = some node → last node = last' node)
    (earliers : ∀ node ∈ nodes, earlier node = earlier' node) :
    mapLast last earlier nodes = mapLast last' earlier' nodes := by
  induction nodes with
  | nil => rfl
  | cons node rest ih =>
    have later : ∀ other, findLast? rest other.id = some other → last other = last' other := by
      intro other found
      exact lasts other (by rw [findLast?_cons, found]; rfl)
    rw [mapLast, mapLast, ih later fun other member => earliers other (List.mem_cons_of_mem _ member)]
    by_cases again : rest.any (·.id == node.id)
    · rw [if_pos again, if_pos again, earliers node List.mem_cons_self]
    · have absent : findLast? rest node.id = none := by
        rw [← findLast?_isSome_iff] at again
        simpa using again
      rw [if_neg again, if_neg again, lasts node (by rw [findLast?_cons, absent, if_pos rfl]; rfl)]

theorem map_mapLast {α : Type} (view : Node → α) (last earlier : Node → Node) (f : Node → α)
    (same : ∀ node, view (last node) = f node ∧ view (earlier node) = f node) (nodes : List Node) :
    (mapLast last earlier nodes).map view = nodes.map f := by
  induction nodes with
  | nil => rfl
  | cons node rest ih =>
    rw [mapLast, List.map_cons, List.map_cons, ih]
    by_cases again : rest.any (·.id == node.id)
    · rw [if_pos again, (same node).2]
    · rw [if_neg again, (same node).1]

theorem mapLast_map (change last earlier : Node → Node) (nodes : List Node) :
    (mapLast last earlier nodes).map change = mapLast (change ∘ last) (change ∘ earlier) nodes := by
  induction nodes with
  | nil => rfl
  | cons node rest ih =>
    rw [mapLast, List.map_cons, ih, mapLast, apply_ite change]
    rfl

theorem mapLast_self (change : Node → Node) (nodes : List Node) : mapLast change change nodes = nodes.map change := by
  induction nodes with
  | nil => rfl
  | cons node rest ih => rw [mapLast, ih, ite_self, List.map_cons]

theorem mapLast_of_nodup (last earlier : Node → Node) (nodes : List Node) (distinct : (nodes.map (·.id)).Nodup) :
    mapLast last earlier nodes = nodes.map last := by
  induction nodes with
  | nil => rfl
  | cons node rest ih =>
    rw [List.map_cons, List.nodup_cons] at distinct
    have single : ¬ rest.any (·.id == node.id) := by
      intro present
      obtain ⟨other, member, same⟩ := List.any_eq_true.1 present
      exact distinct.1 (List.mem_map.2 ⟨other, member, eq_of_beq same⟩)
    rw [mapLast, if_neg single, ih distinct.2, List.map_cons]

section MapLast

variable {last earlier : Node → Node} (lastId : ∀ node, (last node).id = node.id)
  (earlierId : ∀ node, (earlier node).id = node.id)

include lastId earlierId in
theorem any_mapLast (nodes : List Node) (id : NodeId) :
    (mapLast last earlier nodes).any (·.id == id) = nodes.any (·.id == id) := by
  have ids : ∀ nodes : List Node, nodes.any (·.id == id) = (nodes.map (·.id)).any (· == id) := by
    intro nodes
    rw [List.any_map]
    rfl
  rw [ids, ids, map_mapLast (·.id) last earlier (·.id) fun node => ⟨lastId node, earlierId node⟩]

include lastId earlierId in
theorem findLast?_mapLast (nodes : List Node) (id : NodeId) :
    findLast? (mapLast last earlier nodes) id = (findLast? nodes id).map last := by
  induction nodes with
  | nil => rfl
  | cons node rest ih =>
    rw [mapLast, findLast?_cons, findLast?_cons, ih]
    cases found : findLast? rest id with
    | some other => rfl
    | none =>
      by_cases here : node.id = id
      · have single : ¬ rest.any (·.id == node.id) := by
          rw [← findLast?_isSome_iff, here, found]
          exact Bool.false_ne_true
        rw [if_neg single, lastId, if_pos here, if_pos here]
        rfl
      · have same : (if rest.any (·.id == node.id) then earlier node else last node).id = node.id := by
          by_cases again : rest.any (·.id == node.id)
          · rw [if_pos again, earlierId]
          · rw [if_neg again, lastId]
        rw [same, if_neg here, if_neg here]
        rfl

include lastId earlierId in
theorem updateLast_mapLast (id : NodeId) (change : Node → Node) (nodes : List Node) :
    updateLast id change (mapLast last earlier nodes) =
      mapLast (fun node => if node.id = id then change (last node) else last node) earlier nodes := by
  induction nodes with
  | nil => rfl
  | cons node rest ih =>
    rw [mapLast, mapLast, updateLast, any_mapLast lastId earlierId, ih]
    by_cases here : node.id = id
    · subst here
      by_cases again : rest.any (·.id == node.id)
      · rw [if_pos again, if_neg fun both => both.2 again, if_pos again]
      · -- No node of this id follows, so the change stops here.
        have others : mapLast (fun other => if other.id = node.id then change (last other) else last other)
            earlier rest = mapLast last earlier rest := by
          refine mapLast_congr (fun other found => if_neg fun same => again ?_) fun _ _ => rfl
          exact List.any_eq_true.2 ⟨other, mem_of_findLast? found, beq_iff_eq.2 same⟩
        rw [if_neg again, if_pos ⟨lastId node, again⟩, if_neg again, if_pos rfl, others]
    · have same : (if rest.any (·.id == node.id) then earlier node else last node).id = node.id := by
        by_cases again : rest.any (·.id == node.id)
        · rw [if_pos again, earlierId]
        · rw [if_neg again, lastId]
      rw [if_neg fun both => here (same.symm.trans both.1), if_neg here]

end MapLast

end Patchbay
