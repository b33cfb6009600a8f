import Mathlib.Data.List.Forall2
import Patchbay.Compiler

/-!
What advancing the seeds of a document leaves alone: everything but widget values that a control directly
follows, as `Compiler.sameUnseeded_advanceSeeds` says. A document is the same unseeded as another one if it
differs in no more than that.
-/
set_option autoImplicit false

namespace Patchbay

/-- A control directly follows the place. -/
def WidgetSpec.precedesControl (layout : List WidgetSpec) (index : Nat) : Bool :=
  (layout[index + 1]?).any (·.name == controlName)

/-- The places for the widget values of a node; a node without an operation has none. -/
def Definitions.layout (defs : Definitions) (node : Node) : List WidgetSpec :=
  match defs.operation? node.type with
  | some op => op.layout defs.registry
  | none => []

/-- Two nodes that differ at seeds only. -/
structure Node.SameUnseeded (layout : List WidgetSpec) (a b : Node) : Prop where
  rest : b = { a with widgets := b.widgets }
  size : b.widgets.map List.length = a.widgets.map List.length
  values : ∀ index, WidgetSpec.precedesControl layout index = false →
    b.widgets.bind (·[index]?) = a.widgets.bind (·[index]?)

/-- Two documents that differ at seeds of their nodes only. -/
structure Document.SameUnseeded (r : Registry) (a b : Document) : Prop where
  rest : b = { a with nodes := b.nodes }
  nodes : List.Forall₂ (fun x y => x.SameUnseeded ((Definitions.withGroups r a.extra.groups).layout x) y)
    a.nodes b.nodes

namespace Node.SameUnseeded

variable {layout : List WidgetSpec} {a b c : Node}

theorem refl (layout : List WidgetSpec) (a : Node) : a.SameUnseeded layout a := ⟨rfl, rfl, fun _ _ => rfl⟩

theorem trans (first : a.SameUnseeded layout b) (second : b.SameUnseeded layout c) : a.SameUnseeded layout c where
  rest := by rw [second.rest, first.rest]
  size := second.size.trans first.size
  values index free := (second.values index free).trans (first.values index free)

theorem type_eq (same : a.SameUnseeded layout b) : b.type = a.type := by rw [same.rest]

end Node.SameUnseeded

theorem Definitions.layout_congr (defs : Definitions) {a b : Node} (same : b.type = a.type) :
    defs.layout b = defs.layout a := by
  rw [layout, layout, same]

namespace Document.SameUnseeded

variable {r : Registry} {a b c : Document}

theorem refl (r : Registry) (a : Document) : a.SameUnseeded r a :=
  ⟨rfl, List.forall₂_same.2 fun node _ => .refl _ node⟩

theorem groups_eq (same : a.SameUnseeded r b) : b.extra.groups = a.extra.groups := by rw [same.rest]

theorem trans_nodes {defs : Definitions} {xs ys zs : List Node}
    (first : List.Forall₂ (fun x y => x.SameUnseeded (defs.layout x) y) xs ys)
    (second : List.Forall₂ (fun x y => x.SameUnseeded (defs.layout x) y) ys zs) :
    List.Forall₂ (fun x y => x.SameUnseeded (defs.layout x) y) xs zs := by
  induction first generalizing zs with
  | nil => exact second
  | cons left _ ih =>
    cases second with
    | cons right later =>
      rw [Definitions.layout_congr _ left.type_eq] at right
      exact .cons (left.trans right) (ih later)

theorem trans (first : a.SameUnseeded r b) (second : b.SameUnseeded r c) : a.SameUnseeded r c where
  rest := by rw [second.rest, first.rest]
  nodes := by
    have later := second.nodes
    rw [first.groups_eq] at later
    exact trans_nodes first.nodes later

end Document.SameUnseeded

/-! ### One pass -/

theorem SeedPass.mem_seedIndices_iff {layout : List WidgetSpec} {index : Nat} :
    index ∈ seedIndices layout ↔ WidgetSpec.precedesControl layout index := by
  rw [seedIndices, List.mem_filter, List.mem_range, WidgetSpec.precedesControl]
  refine and_iff_right_of_imp fun control => ?_
  cases next : layout[index + 1]? with
  | none => rw [next] at control; cases control
  | some spec => exact Nat.lt_of_succ_lt (List.getElem?_eq_some_iff.1 next).1

namespace SeedPass

variable (layout : List WidgetSpec)

/-- A step sets one value, if any. -/
theorem values_step (pass : SeedPass) (index : Nat) :
    (pass.step layout index).values = pass.values ∨
      ∃ value, (pass.step layout index).values = pass.values.set index value := by
  unfold step
  split
  · dsimp only
    split
    · exact .inl rfl
    · exact .inr ⟨_, rfl⟩
  · exact .inl rfl

/-- A pass keeps what no control directly follows. -/
theorem values_foldl_step (indices : List Nat) (seeds : ∀ index ∈ indices, WidgetSpec.precedesControl layout index)
    (pass : SeedPass) :
    (indices.foldl (step layout) pass).values.length = pass.values.length ∧
      ∀ index, WidgetSpec.precedesControl layout index = false →
        (indices.foldl (step layout) pass).values[index]? = pass.values[index]? := by
  induction indices generalizing pass with
  | nil => exact ⟨rfl, fun _ _ => rfl⟩
  | cons head rest ih =>
    obtain ⟨length, values⟩ := ih (fun index member => seeds index (List.mem_cons_of_mem _ member))
      (pass.step layout head)
    have seed := seeds head List.mem_cons_self
    rw [List.foldl_cons]
    rcases pass.values_step layout head with same | ⟨value, changed⟩
    · rw [same] at length values
      exact ⟨length, values⟩
    · rw [changed, List.length_set] at length
      refine ⟨length, fun index free => ?_⟩
      have differ : head ≠ index := by
        rintro rfl
        rw [free] at seed
        cases seed
      rw [values index free, changed, List.getElem?_set_ne differ]

end SeedPass

theorem Node.sameUnseeded_advanceSeeds (node : Node) (op : Operation) (r : Registry) (source : WordSource) :
    node.SameUnseeded (op.layout r) (node.advanceSeeds op r source).1 := by
  unfold advanceSeeds
  split
  · exact .refl _ node
  · next values widgets =>
    obtain ⟨length, kept⟩ := SeedPass.values_foldl_step (op.layout r) (SeedPass.seedIndices (op.layout r))
      (fun index member => SeedPass.mem_seedIndices_iff.1 member) ⟨values, source, false⟩
    refine ⟨rfl, ?_, fun index free => ?_⟩
    · rw [widgets]
      exact congrArg some length
    · rw [widgets]
      exact kept index free

namespace Compiler

theorem nodes_foldl_advanceNode (defs : Definitions) (nodes : List Node) (run : SeedRun) :
    ∃ later, (nodes.foldl (advanceNode defs) run).nodes = run.nodes ++ later ∧
      List.Forall₂ (fun x y => x.SameUnseeded (defs.layout x) y) nodes later := by
  induction nodes generalizing run with
  | nil => exact ⟨[], (List.append_nil _).symm, .nil⟩
  | cons node rest ih =>
    have first : ∃ next, (advanceNode defs run node).nodes = run.nodes ++ [next] ∧
        node.SameUnseeded (defs.layout node) next := by
      unfold advanceNode Definitions.layout
      split
      · next unknown => exact ⟨node, rfl, .refl _ node⟩
      · next op known =>
        refine ⟨_, rfl, ?_⟩
        rw [known]
        exact node.sameUnseeded_advanceSeeds op defs.registry run.source
    obtain ⟨next, here, same⟩ := first
    obtain ⟨later, there, others⟩ := ih (advanceNode defs run node)
    exact ⟨next :: later, by rw [List.foldl_cons, there, here, List.append_assoc]; rfl, .cons same others⟩

/-- Advancing the seeds changes nothing but values that a control directly follows. -/
theorem sameUnseeded_advanceSeeds (c : Compiler) (doc : Document) (source : WordSource) :
    doc.SameUnseeded c.registry (c.advanceSeeds doc source).1 := by
  obtain ⟨later, nodes, same⟩ :=
    nodes_foldl_advanceNode (Definitions.withGroups c.registry doc.extra.groups) doc.nodes ⟨[], 0, source⟩
  refine ⟨rfl, ?_⟩
  rw [List.nil_append] at nodes
  rw [advanceSeeds, nodes]
  exact same

/-- A document with its seeds advanced so many times, and the source of random words then. -/
def advanced (c : Compiler) (doc : Document) (source : WordSource) : Nat → Document × WordSource
  | 0 => (doc, source)
  | k + 1 =>
    let before := c.advanced doc source k
    ((c.advanceSeeds before.1 before.2).1, (c.advanceSeeds before.1 before.2).2.2)

theorem advanced_succ (c : Compiler) (doc : Document) (source : WordSource) (k : Nat) :
    c.advanced (c.advanceSeeds doc source).1 (c.advanceSeeds doc source).2.2 k = c.advanced doc source (k + 1) := by
  induction k with
  | zero => rfl
  | succ k ih => rw [advanced, ih]; rfl

theorem sameUnseeded_advanced (c : Compiler) (doc : Document) (source : WordSource) (k : Nat) :
    doc.SameUnseeded c.registry (c.advanced doc source k).1 := by
  induction k with
  | zero => exact .refl _ doc
  | succ k ih => exact ih.trans (c.sameUnseeded_advanceSeeds _ _)

end Compiler
end Patchbay
