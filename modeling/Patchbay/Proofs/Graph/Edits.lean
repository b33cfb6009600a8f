import Patchbay.Proofs.Graph.Sound

/-!
Working on a graph, one operation after the other. Whatever is put in and taken out, slots and links agree
after every single operation, as long as new nodes are new and no link takes a slot from another one.
-/
set_option autoImplicit false

namespace Patchbay

/-- One operation on a graph. -/
inductive Edit where
  | allocate
  | insertLink (link : Link)
  | removeLink (id : LinkId)
  | insertNodes (position : Nat) (nodes : List Node)
  | removeNode (id : NodeId)

namespace Graph

def edit (g : Graph) : Edit → Graph
  | .allocate => g.allocate.2
  | .insertLink link => g.insertLink link
  | .removeLink id => g.removeLink id
  | .insertNodes position nodes => g.insertNodes position nodes
  | .removeNode id => g.removeNode id

def editAll (g : Graph) (edits : List Edit) : Graph := edits.foldl edit g

-- The slot that the link is for is missing, free, or held under the id of the link.
def OpenFor (g : Graph) (link : Link) : Prop :=
  ∀ input ∈ g.inputAt? link.target link.targetSlot.toNat, input.link = none ∨ input.link = some link.id

def Admits (g : Graph) : Edit → Prop
  | .insertLink link => g.OpenFor link
  | .insertNodes _ nodes => g.Fresh nodes
  | .allocate | .removeLink _ | .removeNode _ => True

-- Each operation is admitted by the graph that it is made on.
def AdmitsAll : Graph → List Edit → Prop
  | _, [] => True
  | g, edit :: rest => g.Admits edit ∧ (g.edit edit).AdmitsAll rest

theorem fresh_iff (g : Graph) (nodes : List Node) : g.Fresh nodes ↔
    (nodes.map (·.id)).Nodup ∧ (∀ node ∈ nodes, node.id ∉ g.nodeIds) ∧
      (∀ node ∈ nodes, ∀ link ∈ g.links, touches node.id link = false) ∧
        (∀ node ∈ nodes, ∀ input ∈ node.inputs, input.link = none) ∧
          ∀ node ∈ nodes, ∀ output ∈ node.outputs, output.linkIds = [] :=
  ⟨fun fresh => ⟨fresh.distinct, fresh.absent, fresh.unnamed, fresh.inputs, fresh.outputs⟩,
    fun ⟨distinct, absent, unnamed, inputs, outputs⟩ => ⟨distinct, absent, unnamed, inputs, outputs⟩⟩

instance (g : Graph) (nodes : List Node) : Decidable (g.Fresh nodes) := decidable_of_iff _ (g.fresh_iff nodes).symm

instance (g : Graph) (link : Link) : Decidable (g.OpenFor link) := inferInstanceAs (Decidable (∀ _ ∈ _, _))

instance (g : Graph) (edit : Edit) : Decidable (g.Admits edit) :=
  match edit with
  | .insertLink link => inferInstanceAs (Decidable (g.OpenFor link))
  | .insertNodes _ nodes => inferInstanceAs (Decidable (g.Fresh nodes))
  | .allocate | .removeLink _ | .removeNode _ => inferInstanceAs (Decidable True)

instance decideAdmitsAll (g : Graph) : (edits : List Edit) → Decidable (g.AdmitsAll edits)
  | [] => inferInstanceAs (Decidable True)
  | edit :: rest =>
    have : Decidable ((g.edit edit).AdmitsAll rest) := decideAdmitsAll (g.edit edit) rest
    inferInstanceAs (Decidable (_ ∧ _))

theorem Wired.clearFor_of_openFor {g : Graph} (wired : g.Wired) {link : Link} (slot : g.OpenFor link) :
    g.ClearFor link := by
  intro number input found here other member enters
  have held := (wired.inputs _ _ input found other.id).2 ⟨other, member, rfl, enters⟩
  rcases slot input (here ▸ found) with free | own
  · rw [free] at held
    cases held
  · rw [own] at held
    exact (Option.some.inj held).symm

theorem Wired.edit {g : Graph} (wired : g.Wired) (edit : Edit) (admitted : g.Admits edit) : (g.edit edit).Wired := by
  cases edit with
  | allocate => exact wired.allocate
  | insertLink link => exact wired.insertLink link (wired.clearFor_of_openFor admitted)
  | removeLink id => exact wired.removeLink id
  | insertNodes position nodes => exact wired.insertNodes admitted position
  | removeNode id => exact wired.removeNode id

theorem editAll_append (g : Graph) (first second : List Edit) :
    g.editAll (first ++ second) = (g.editAll first).editAll second := List.foldl_append

theorem AdmitsAll.of_append {first second : List Edit} {g : Graph} (admitted : g.AdmitsAll (first ++ second)) :
    g.AdmitsAll first ∧ (g.editAll first).AdmitsAll second := by
  induction first generalizing g with
  | nil => exact ⟨trivial, admitted⟩
  | cons edit rest ih =>
    obtain ⟨here, later⟩ := admitted
    obtain ⟨before, after⟩ := ih later
    exact ⟨⟨here, before⟩, after⟩

theorem Wired.editAll {g : Graph} (wired : g.Wired) (edits : List Edit) (admitted : g.AdmitsAll edits) :
    (g.editAll edits).Wired := by
  induction edits generalizing g with
  | nil => exact wired
  | cons edit rest ih => exact ih (wired.edit edit admitted.1) admitted.2

theorem Wired.gone_of_removeNode {g : Graph} (wired : g.Wired) (id : NodeId) :
    id ∉ (g.removeNode id).nodeIds ∧ ∀ link ∈ (g.removeNode id).links, link.origin ≠ id ∧ link.target ≠ id := by
  constructor
  · rw [nodeIds_eq_roster, roster_removeNode]
    simp
  · intro link member
    exact (touches_eq_false_iff id link).1 ((wired.mem_removeNode id link).1 member).2

theorem editAll_wired (g : Graph) (wired : g.Wired) (edits done : List Edit) (admitted : g.AdmitsAll edits)
    (front : done <+: edits) :
    (g.editAll done).Wired ∧
      ∀ earlier id, done = earlier ++ [.removeNode id] → id ∉ (g.editAll done).nodeIds ∧
        ∀ link ∈ (g.editAll done).links, link.origin ≠ id ∧ link.target ≠ id := by
  obtain ⟨rest, rfl⟩ := front
  have before := admitted.of_append.1
  refine ⟨wired.editAll done before, ?_⟩
  rintro earlier id rfl
  rw [editAll_append]
  exact (wired.editAll earlier before.of_append.1).gone_of_removeNode id

-- A link between two nodes goes over to a third one that feeds itself for a while and then leaves.
def pair : Graph :=
  let blur (id : Int64) (link : Option LinkId) (links : List LinkId) : Node :=
    { Node.plain (.number id) "Blur" with
      inputs := [{ InputSlot.plain "image" "IMAGE" with link := link }]
      outputs := [{ OutputSlot.plain "image" "IMAGE" with links := some links }] }
  ⟨[blur 1 none [5], blur 2 (some 5) []], [⟨5, .number 1, 0, .number 2, 0, "IMAGE"⟩], 6⟩

def visit : List Edit :=
  let guest : Node := (Node.plain (.number 3) "Blur").addInput "image" "IMAGE"
  [.allocate, .insertNodes 1 [guest.addOutput "image" "IMAGE"],
    .insertLink ⟨5, .number 3, 0, .number 2, 0, "IMAGE"⟩, .insertLink ⟨9, .number 3, 0, .number 3, 0, "IMAGE"⟩,
    .insertLink ⟨9, .number 1, 0, .number 3, 0, "IMAGE"⟩, .insertLink ⟨7, .number 3, 0, .number 2, 4, "MASK"⟩,
    .removeLink 6, .removeNode (.number 3)]

theorem editAll_wired_visit :
    pair.Wired ∧ pair.AdmitsAll visit ∧
      (pair.editAll (visit.take 6)).links.map (·.id) = [5, 9, 7] ∧ (pair.editAll (visit.take 6)).Wired ∧
        (pair.editAll visit).Wired ∧ ∀ link ∈ (pair.editAll visit).links, link.origin ≠ .number 3 := by
  have wired : pair.Wired := by decide +kernel
  have admitted : pair.AdmitsAll visit := by decide +kernel
  obtain ⟨after, gone⟩ := editAll_wired pair wired visit visit admitted (List.prefix_refl _)
  refine ⟨wired, admitted, by decide +kernel, ?_, after, ?_⟩
  · exact (editAll_wired pair wired visit _ admitted (List.take_prefix 6 visit)).1
  · intro link member
    exact ((gone (visit.take 7) (.number 3) rfl).2 link member).1

end Graph
end Patchbay
