import Mathlib.Data.Fintype.Card
import Mathlib.Data.Fintype.EquivFin
import Mathlib.Data.Fintype.Sets
import Mathlib.Data.List.Chain
import Mathlib.Logic.Relation

/-!
Placing things one after the other, none before what feeds it. The two orders of the program, over links
and over positions, are both of this kind, whichever of the ready things they take first.
-/
set_option autoImplicit false

namespace Patchbay

open Relation

/-- Nothing feeds itself, directly or through others. -/
def Acyclic {α : Type} (feeds : α → α → Prop) : Prop := ∀ x, ¬ TransGen feeds x x

/-- What only rises does not come round. -/
theorem acyclic_of_rank {α : Type} {feeds : α → α → Prop} (rank : α → Nat)
    (rises : ∀ a b, feeds a b → rank a < rank b) : Acyclic feeds := by
  intro x circle
  have higher : TransGen (· < ·) (rank x) (rank x) := circle.lift rank rises
  rw [transGen_eq_self] at higher
  exact Nat.lt_irrefl _ higher

theorem exists_before {α : Type} {feeds : α → α → Prop} {chain : List α} {first x : α}
    (linked : (first :: chain).IsChain feeds) (member : x ∈ chain) : ∃ y ∈ first :: chain, feeds y x := by
  induction chain generalizing first with
  | nil => cases member
  | cons second rest ih =>
    rw [List.isChain_cons_cons] at linked
    rcases List.mem_cons.1 member with rfl | later
    · exact ⟨first, List.mem_cons_self, linked.1⟩
    · obtain ⟨y, inside, feedsX⟩ := ih linked.2 later
      exact ⟨y, List.mem_cons_of_mem _ inside, feedsX⟩

section Placing

variable {α β : Type} [DecidableEq α] [DecidableEq β]

/-- An order of what is waiting: something that nothing else waiting feeds comes first, over and over; what
is left when there is no such thing stays as it stands. -/
inductive Placing (feeds : α → α → Prop) : List α → List α → Prop where
  | stuck (waiting : List α) (fed : ∀ x ∈ waiting, ∃ y ∈ waiting, feeds y x) : Placing feeds waiting waiting
  | place {waiting order : List α} (x : α) (member : x ∈ waiting) (unfed : ∀ y ∈ waiting, ¬ feeds y x)
      (rest : Placing feeds (waiting.filter (· ≠ x)) order) : Placing feeds waiting (x :: order)

variable {feeds : α → α → Prop} {waiting order : List α}

theorem perm_cons_filter_ne {x : α} (member : x ∈ waiting) (distinct : waiting.Nodup) :
    waiting.Perm (x :: waiting.filter (· ≠ x)) := by
  have removed : waiting.erase x = waiting.filter (· ≠ x) := by
    rw [distinct.erase_eq_filter x]
    apply List.filter_congr
    intro y _
    by_cases same : y = x <;> simp [same]
  rw [← removed]
  exact List.perm_cons_erase member

theorem Placing.perm (placing : Placing feeds waiting order) (distinct : waiting.Nodup) : order.Perm waiting := by
  induction placing with
  | stuck waiting fed => exact List.Perm.refl waiting
  | place x member unfed rest ih =>
    exact ((ih (distinct.filter _)).cons x).trans (perm_cons_filter_ne member distinct).symm

/-- Finitely many things, each of them fed by another one, go round in a circle somewhere. -/
theorem eq_nil_of_fed (acyclic : Acyclic feeds) (fed : ∀ x ∈ waiting, ∃ y ∈ waiting, feeds y x) : waiting = [] := by
  -- On finitely many things the relation is well-founded, so there would be a first one.
  let before (a b : { x // x ∈ waiting }) : Prop := TransGen feeds a b
  have trans : IsTrans _ before := ⟨fun _ _ _ first second => first.trans second⟩
  have irrefl : Std.Irrefl before := ⟨fun a => acyclic a⟩
  have none : ∀ a : { x // x ∈ waiting }, False := by
    intro a
    induction a using (Finite.wellFounded_of_trans_of_irrefl before).induction with
    | _ a ih =>
      obtain ⟨y, member, feedsA⟩ := fed a a.2
      exact ih ⟨y, member⟩ (TransGen.single feedsA)
  exact List.eq_nil_iff_forall_not_mem.2 fun x member => none ⟨x, member⟩

theorem Placing.pairwise (acyclic : Acyclic feeds) (placing : Placing feeds waiting order) (distinct : waiting.Nodup) :
    order.Pairwise fun a b => ¬ feeds b a := by
  induction placing with
  | stuck waiting fed =>
    rw [eq_nil_of_fed acyclic fed]
    exact List.Pairwise.nil
  | place x member unfed rest ih =>
    have later := distinct.filter (fun y => decide (y ≠ x))
    rw [List.pairwise_cons]
    refine ⟨fun y inside => unfed y ?_, ih later⟩
    exact (List.mem_filter.1 ((rest.perm later).subset inside)).1

theorem Placing.congr {feeds' : α → α → Prop} (placing : Placing feeds waiting order)
    (same : ∀ x ∈ waiting, ∀ y ∈ waiting, feeds x y ↔ feeds' x y) : Placing feeds' waiting order := by
  induction placing with
  | stuck waiting fed =>
    refine .stuck waiting fun x member => ?_
    obtain ⟨y, inside, feedsX⟩ := fed x member
    exact ⟨y, inside, (same y inside x member).1 feedsX⟩
  | place x member unfed rest ih =>
    refine .place x member (fun y inside feedsX => unfed y inside ((same y inside x member).2 feedsX)) (ih ?_)
    exact fun a insideA b insideB => same a (List.mem_filter.1 insideA).1 b (List.mem_filter.1 insideB).1

theorem Placing.map (name : α → β) {feeds' : β → β → Prop} (placing : Placing feeds waiting order)
    (distinct : ∀ x ∈ waiting, ∀ y ∈ waiting, name x = name y → x = y)
    (same : ∀ x ∈ waiting, ∀ y ∈ waiting, feeds x y ↔ feeds' (name x) (name y)) :
    Placing feeds' (waiting.map name) (order.map name) := by
  induction placing with
  | stuck waiting fed =>
    refine .stuck _ fun named member => ?_
    obtain ⟨x, inside, rfl⟩ := List.mem_map.1 member
    obtain ⟨y, insideY, feedsX⟩ := fed x inside
    exact ⟨name y, List.mem_map_of_mem insideY, (same y insideY x inside).1 feedsX⟩
  | @place waiting order x member unfed rest ih =>
    have left : (waiting.filter (· ≠ x)).map name = (waiting.map name).filter (· ≠ name x) := by
      rw [List.filter_map]
      congr 1
      apply List.filter_congr
      intro y inside
      have named : name y = name x ↔ y = x := ⟨distinct y inside x member, congrArg name⟩
      simp [named]
    refine .place (name x) (List.mem_map_of_mem member) ?_ ?_
    · intro named inside feedsX
      obtain ⟨y, insideY, rfl⟩ := List.mem_map.1 inside
      exact unfed y insideY ((same y insideY x member).2 feedsX)
    · rw [← left]
      exact ih (fun a insideA b insideB => distinct a (List.mem_filter.1 insideA).1 b (List.mem_filter.1 insideB).1)
        fun a insideA b insideB => same a (List.mem_filter.1 insideA).1 b (List.mem_filter.1 insideB).1

/-! ### Orders that leave no choice -/

/-- Where each thing feeds the next one, this is the only order in which nothing stands behind what it feeds. -/
theorem eq_of_isChain {chain : List α} (irrefl : ∀ x, ¬ feeds x x) (linked : chain.IsChain feeds)
    (same : order.Perm chain) (forward : order.Pairwise fun a b => ¬ feeds b a) : order = chain := by
  induction chain generalizing order with
  | nil => exact same.eq_nil
  | cons first rest ih =>
    cases order with
    | nil => exact absurd same.symm.eq_nil (List.cons_ne_nil first rest)
    | cons head tail =>
      rw [List.pairwise_cons] at forward
      -- Anything else at the head would be fed by what stands behind it.
      have here : head = first := by
        by_contra other
        have later : head ∈ rest := by
          rcases List.mem_cons.1 (same.subset List.mem_cons_self) with is | later
          · exact absurd is other
          · exact later
        obtain ⟨y, inside, feedsHead⟩ := exists_before linked later
        rcases List.mem_cons.1 (same.symm.subset inside) with rfl | behind
        · exact irrefl y feedsHead
        · exact forward.1 y behind feedsHead
      subst here
      rw [ih linked.tail same.cons_inv forward.2]

theorem idxOf_lt_of_pairwise (forward : order.Pairwise fun a b => ¬ feeds b a) {a b : α} (memberA : a ∈ order)
    (memberB : b ∈ order) (apart : a ≠ b) (link : feeds a b) : order.idxOf a < order.idxOf b := by
  have placeA := List.idxOf_lt_length_iff.2 memberA
  have placeB := List.idxOf_lt_length_iff.2 memberB
  rcases Nat.lt_trichotomy (order.idxOf a) (order.idxOf b) with less | same | more
  · exact less
  · exact absurd ((List.idxOf_inj memberA).1 same) apart
  · have backward := List.pairwise_iff_getElem.1 forward _ _ placeB placeA more
    rw [List.getElem_idxOf, List.getElem_idxOf] at backward
    exact absurd link backward

end Placing

/-! ### What is left over -/

section Circles

variable {α : Type} {feeds : α → α → Prop}

-- It is fed, directly or through others, by something that feeds itself in this way.
def BehindCircle (feeds : α → α → Prop) (x : α) : Prop := ∃ y, TransGen feeds y y ∧ ReflTransGen feeds y x

theorem BehindCircle.tail {x y : α} (behind : BehindCircle feeds x) (link : feeds x y) : BehindCircle feeds y := by
  obtain ⟨z, circle, path⟩ := behind
  exact ⟨z, circle, path.tail link⟩

theorem BehindCircle.exists_feeder {x : α} (behind : BehindCircle feeds x) : ∃ y, BehindCircle feeds y ∧ feeds y x := by
  obtain ⟨z, circle, path⟩ := behind
  obtain ⟨y, before, link⟩ := TransGen.tail'_iff.1 (circle.trans_left path)
  exact ⟨y, ⟨z, circle, before⟩, link⟩

theorem behindCircle_of_fed [DecidableEq α] {waiting : List α} (fed : ∀ x ∈ waiting, ∃ y ∈ waiting, feeds y x) {x : α}
    (member : x ∈ waiting) : BehindCircle feeds x := by
  classical
  -- What does not lie behind a circle is fed by such things only, and they do not go round.
  let apart (y z : α) : Prop := feeds y z ∧ ¬ BehindCircle feeds z
  have acyclic : Acyclic apart := by
    intro z round
    obtain ⟨_, _, last⟩ := TransGen.tail'_iff.1 round
    exact last.2 ⟨z, round.lift id fun _ _ link => link.1, .refl⟩
  have none : waiting.filter (fun z => ¬ BehindCircle feeds z) = [] := by
    refine eq_nil_of_fed acyclic fun z inside => ?_
    obtain ⟨here, off⟩ := List.mem_filter.1 inside
    have off := of_decide_eq_true off
    obtain ⟨y, there, link⟩ := fed z here
    exact ⟨y, List.mem_filter.2 ⟨there, decide_eq_true fun behind => off (behind.tail link)⟩, link, off⟩
  by_contra off
  exact List.eq_nil_iff_forall_not_mem.1 none x (List.mem_filter.2 ⟨member, decide_eq_true off⟩)

variable [DecidableEq α] {waiting order : List α}

/-- What is left over stands at the end as it stood, and all else comes after what feeds it. -/
theorem Placing.exists_left (placing : Placing feeds waiting order) : ∃ placed left, order = placed ++ left ∧
    left.Sublist waiting ∧ (∀ x ∈ left, ∃ y ∈ left, feeds y x) ∧
      (∀ kept : α → Prop, (∀ x ∈ waiting, kept x → ∃ y ∈ waiting, kept y ∧ feeds y x) →
        ∀ x ∈ waiting, kept x → x ∈ left) ∧
      ∀ a ∈ waiting, ∀ b ∈ waiting, feeds a b → b ∉ left → order.idxOf a < order.idxOf b := by
  induction placing with
  | stuck waiting fed =>
    exact ⟨[], waiting, rfl, List.Sublist.refl _, fed, fun _ _ _ member _ => member,
      fun _ _ b member _ absent => absurd member absent⟩
  | @place waiting order x member unfed rest ih =>
    obtain ⟨placed, left, rfl, inside, fed, closed, forward⟩ := ih
    have stays : ∀ y ∈ waiting, y ≠ x → y ∈ waiting.filter (· ≠ x) := fun y here apart =>
      List.mem_filter.2 ⟨here, decide_eq_true apart⟩
    refine ⟨x :: placed, left, rfl, inside.trans List.filter_sublist, fed, fun kept feeders y here keeps => ?_,
      fun a hereA b hereB link absent => ?_⟩
    · have free : ¬ kept x := fun keepsX =>
        let ⟨z, there, _, link⟩ := feeders x member keepsX
        unfed z there link
      refine closed kept (fun z later keepsZ => ?_) y (stays y here fun same => free (same ▸ keeps)) keeps
      obtain ⟨w, there, keepsW, link⟩ := feeders z (List.mem_filter.1 later).1 keepsZ
      exact ⟨w, stays w there fun same => free (same ▸ keepsW), keepsW, link⟩
    · have apartB : b ≠ x := fun same => unfed a hereA (same ▸ link)
      by_cases first : a = x
      · rw [first, List.idxOf_cons_self, List.idxOf_cons_ne _ apartB.symm]
        exact Nat.succ_pos _
      · rw [List.idxOf_cons_ne _ (Ne.symm first), List.idxOf_cons_ne _ apartB.symm]
        exact Nat.succ_lt_succ (forward a (stays a hereA first) b (stays b hereB apartB) link absent)

theorem Placing.exists_behind (placing : Placing feeds waiting order)
    (inside : ∀ x y, feeds x y → x ∈ waiting ∧ y ∈ waiting) : ∃ placed left, order = placed ++ left ∧
      left.Sublist waiting ∧ (∀ x ∈ waiting, x ∈ left ↔ BehindCircle feeds x) ∧
        ∀ x y, feeds x y → ¬ BehindCircle feeds y → order.idxOf x < order.idxOf y := by
  obtain ⟨placed, left, split, kept, fed, closed, forward⟩ := placing.exists_left
  have behind : ∀ x ∈ waiting, x ∈ left ↔ BehindCircle feeds x := by
    refine fun x member => ⟨behindCircle_of_fed fed, closed _ (fun z _ late => ?_) x member⟩
    obtain ⟨y, before, link⟩ := late.exists_feeder
    exact ⟨y, (inside y z link).1, before, link⟩
  refine ⟨placed, left, split, kept, behind, fun x y link off => ?_⟩
  obtain ⟨hereX, hereY⟩ := inside x y link
  exact forward x hereX y hereY link (mt (behind y hereY).1 off)

end Circles

end Patchbay
