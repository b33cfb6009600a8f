import Patchbay.Graph.Basic

/-!
Loading a document into a graph and writing it back. Where ids are distinct nothing is merged.
-/
set_option autoImplicit false

namespace Patchbay

theorem putLink_of_fresh (link : Link) (links : List Link) (fresh : ∀ other ∈ links, other.id ≠ link.id) :
    putLink link links = links ++ [link] := by
  induction links with
  | nil => rfl
  | cons other rest ih =>
    rw [putLink, if_neg (fresh other List.mem_cons_self), ih fun later member =>
      fresh later (List.mem_cons_of_mem _ member)]
    rfl

theorem foldl_putLink_of_distinct (links done : List Link) (distinct : ((done ++ links).map (·.id)).Nodup) :
    links.foldl (fun links link => putLink link links) done = done ++ links := by
  induction links generalizing done with
  | nil => exact (List.append_nil done).symm
  | cons link rest ih =>
    have fresh : ∀ other ∈ done, other.id ≠ link.id := by
      intro other member
      rw [List.map_append, List.nodup_append] at distinct
      exact distinct.2.2 _ (List.mem_map_of_mem member) _ (List.mem_map_of_mem List.mem_cons_self)
    have split : done ++ [link] ++ rest = done ++ link :: rest := List.append_assoc ..
    rw [List.foldl_cons, putLink_of_fresh link done fresh, ih (done ++ [link]) (by rwa [split]), split]

namespace Graph

theorem overwrite_of_mem (node : Node) (nodes : List Node) (distinct : (nodes.map (·.id)).Nodup)
    (member : node ∈ nodes) : overwrite node nodes = nodes := by
  induction nodes with
  | nil => cases member
  | cons other rest ih =>
    rw [List.map_cons, List.nodup_cons] at distinct
    rw [overwrite, List.map_cons]
    rcases List.mem_cons.1 member with rfl | later
    · rw [if_pos rfl]
      congr 1
      refine (List.map_congr_left fun twin inside => ?_).trans (List.map_id rest)
      apply if_neg
      intro same
      apply distinct.1
      rw [← same]
      exact List.mem_map_of_mem inside
    · have apart : other.id ≠ node.id := by
        intro same
        apply distinct.1
        rw [same]
        exact List.mem_map_of_mem later
      rw [if_neg apart]
      exact congrArg (other :: ·) (ih distinct.2 later)

theorem mem_overwrite {node other : Node} {nodes : List Node} (member : other ∈ overwrite node nodes) :
    other = node ∨ other ∈ nodes := by
  obtain ⟨old, inside, rfl⟩ := List.mem_map.1 member
  by_cases same : old.id = node.id
  · exact .inl (if_pos same)
  · rw [if_neg same]
    exact .inr inside

theorem mem_of_mem_ofDocument (doc : Document) {node : Node} (member : node ∈ (ofDocument doc).nodes) :
    node ∈ doc.nodes := by
  have kept : ∀ new nodes : List Node, (∀ node ∈ new, node ∈ doc.nodes) → (∀ node ∈ nodes, node ∈ doc.nodes) →
      ∀ node ∈ new.foldl (fun nodes node => overwrite node nodes) nodes, node ∈ doc.nodes := by
    intro new
    induction new with
    | nil => exact fun _ _ inside => inside
    | cons first rest ih =>
      intro nodes new inside
      refine ih (overwrite first nodes) (fun later member => new later (List.mem_cons_of_mem _ member)) ?_
      intro other member
      rcases mem_overwrite member with rfl | old
      · exact new other List.mem_cons_self
      · exact inside other old
  exact kept doc.nodes doc.nodes (fun _ member => member) (fun _ member => member) node member

theorem ofDocument_of_distinct (doc : Document) (nodeIds : (doc.nodes.map (·.id)).Nodup)
    (linkIds : (doc.links.map (·.id)).Nodup) : ofDocument doc = ⟨doc.nodes, doc.links, doc.nextLinkId⟩ := by
  have kept : ∀ nodes : List Node, (∀ node ∈ nodes, node ∈ doc.nodes) →
      nodes.foldl (fun all node => overwrite node all) doc.nodes = doc.nodes := by
    intro nodes inside
    induction nodes with
    | nil => rfl
    | cons node rest ih =>
      rw [List.foldl_cons, overwrite_of_mem node doc.nodes nodeIds (inside node List.mem_cons_self)]
      exact ih fun later member => inside later (List.mem_cons_of_mem _ member)
  rw [ofDocument, kept doc.nodes fun _ member => member, foldl_putLink_of_distinct doc.links [] linkIds]
  rfl

end Graph
end Patchbay
