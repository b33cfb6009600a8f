import Mathlib.Tactic.Linarith
import Patchbay.Proofs.Stored.Rereading
import Patchbay.Proofs.Submission.Seeds

/-!
Where a seed stands once its control was applied. A step is held by the bound ahead of it, not by the one behind, so
a seed from outside may stay outside: `Node.advanceSeeds_within_iff`.
-/
set_option autoImplicit false

namespace Patchbay

/-! ### Integers in values -/

-- The integer that a value holds, be it a signed word or not.
def Json.integer? : Json → Option Int
  | .number (.natural value) => some value.toNat
  | .number (.negative value) => some value.toInt
  | _ => none

theorem toInt_toInt64 {word : UInt64} (small : word.toNat < 2 ^ 63) : word.toInt64.toInt = word.toNat := by
  rw [Int64.toInt, UInt64.toBitVec_toInt64, BitVec.toInt_eq_toNat_of_lt, UInt64.toNat_toBitVec]
  rw [UInt64.toNat_toBitVec]
  omega

theorem Json.int64?_eq_some_iff {value : Json} {word : Int64} :
    value.int64? = some word ↔ value.integer? = some word.toInt := by
  unfold Json.int64? Json.integer?
  split
  · next number =>
    cases number with
    | natural natural =>
      have above := word.toInt_lt
      simp only [Number.int64?, Nat.reduceShiftLeft, Option.some.injEq]
      constructor
      · intro read
        split at read
        · next small => cases read; exact (toInt_toInt64 small).symm
        · cases read
      · intro same
        have small : natural.toNat < 2 ^ 63 := by omega
        rw [if_pos (by omega), Option.some.injEq, ← Int64.toInt_inj, toInt_toInt64 small, same]
    | negative negative => simp [Number.int64?, Int64.toInt_inj]
    | real real => simp [Number.int64?]
  · next other =>
    split
    · exact absurd rfl (other _)
    · exact absurd rfl (other _)
    · simp

-- An integer that is no signed word lies above them.
theorem Json.le_of_int64?_eq_none {value : Json} {seed : Int} (holds : value.integer? = some seed)
    (wide : value.int64? = none) : 2 ^ 63 ≤ seed := by
  unfold integer? at holds
  split at holds
  · next natural =>
    cases holds
    by_contra small
    rw [int64?, Number.int64?, if_pos (by omega)] at wide
    cases wide
  · cases wide
  · cases holds

/-! ### One control -/

theorem WordSource.wideProduct_fst_lt (word : UInt64) {count : Nat} (some : 0 < count) (fits : count < UInt64.size) :
    (wideProduct word (UInt64.ofNat count)).1 < count := by
  have bound := word.toNat_lt
  rw [wideProduct, UInt64.toNat_ofNat_of_lt' fits]
  refine Nat.div_lt_of_lt_mul ?_
  exact Nat.mul_lt_mul_of_pos_right bound some

-- A carry never leads out of the range: both products together stay below the count times the word size.
theorem WordSource.carried_lt (word second : UInt64) {count : Nat} (some : 0 < count) (fits : count < UInt64.size)
    (carries : UInt64.size ≤ (wideProduct word (UInt64.ofNat count)).2 + (wideProduct second (UInt64.ofNat count)).1) :
    (wideProduct word (UInt64.ofNat count)).1 + 1 < count := by
  have carry := wideProduct_fst_lt second some fits
  have split := Nat.div_add_mod (word.toNat * count) UInt64.size
  have bound : word.toNat + 1 ≤ UInt64.size := word.toNat_lt
  have product := Nat.mul_le_mul_right count bound
  rw [wideProduct, UInt64.toNat_ofNat_of_lt' fits] at carries ⊢
  refine Nat.lt_of_mul_lt_mul_left (a := UInt64.size) ?_
  rw [Nat.mul_add, Nat.mul_one]
  rw [Nat.add_mul, Nat.one_mul] at product
  dsimp only at carries ⊢
  omega

theorem WordSource.draw_mem (source : WordSource) (low high : Int64) (ordered : low.toInt ≤ high.toInt) :
    low.toInt ≤ (source.draw low high).1.toInt ∧ (source.draw low high).1.toInt ≤ high.toInt := by
  have bottom := low.le_toInt
  have top := high.toInt_lt
  have inside : ∀ steps : Nat, steps < (high.toInt - low.toInt + 1).toNat →
      low.toInt ≤ (Int64.ofInt (low.toInt + steps)).toInt ∧ (Int64.ofInt (low.toInt + steps)).toInt ≤ high.toInt := by
    intro steps few
    rw [Int64.toInt_ofInt_of_le (by omega) (by omega)]
    omega
  unfold draw
  dsimp only [next]
  split
  · next full =>
    -- the count is a multiple of the word size only where every signed word lies in the range
    have wide : UInt64.size ≤ (high.toInt - low.toInt + 1).toNat := by
      by_contra small
      rw [Nat.mod_eq_of_lt (by omega)] at full
      omega
    have above := Int64.le_toInt (source.words source.used).toInt64
    have below := Int64.toInt_lt (source.words source.used).toInt64
    simp only [UInt64.size] at wide
    dsimp only
    omega
  · next counted =>
    generalize counts : (high.toInt - low.toInt + 1).toNat % UInt64.size = count at counted
    have fits : count < UInt64.size := counts ▸ Nat.mod_lt _ (by decide)
    have few : count ≤ (high.toInt - low.toInt + 1).toNat := counts ▸ Nat.mod_le _ _
    have some : 0 < count := Nat.pos_of_ne_zero counted
    have plain := wideProduct_fst_lt (source.words source.used) some fits
    split
    · dsimp only
      split
      · next carries => exact inside _ (Nat.lt_of_lt_of_le (carried_lt _ _ some fits carries) few)
      · exact inside _ (Nat.lt_of_lt_of_le plain few)
    · exact inside _ (Nat.lt_of_lt_of_le plain few)

namespace SeedControl

-- Where a control leads from a seed between two bounds.
def Leads (low high seed next : Int) : SeedControl → Prop
  | .fixed => next = seed
  | .increment => next = min (seed + 1) high
  | .decrement => next = max (seed - 1) low
  | .randomize => low ≤ next ∧ next ≤ high

-- The seeds from which a control leads between the bounds.
def Lands (low high seed : Int) : SeedControl → Prop
  | .fixed => low ≤ seed ∧ seed ≤ high
  | .increment => low ≤ seed + 1
  | .decrement => seed - 1 ≤ high
  | .randomize => True

theorem leads_apply (control : SeedControl) (current low high : Int64) (source : WordSource) :
    control.Leads low.toInt (max low.toInt high.toInt) current.toInt
      (control.apply current low high source).1.toInt := by
  have upper : (if high < low then low else high).toInt = max low.toInt high.toInt := by
    split
    · next less =>
      rw [Int64.lt_iff_toInt_lt] at less
      omega
    · next more =>
      rw [Int64.lt_iff_toInt_lt] at more
      omega
  have bounds := And.intro low.le_toInt high.toInt_lt
  have seeds := And.intro current.le_toInt current.toInt_lt
  have wide := And.intro low.toInt_lt high.le_toInt
  unfold apply
  cases control with
  | fixed => rfl
  | increment =>
    dsimp only [Leads]
    rw [Int64.toInt_ofInt_of_le (by omega) (by omega), upper]
  | decrement =>
    dsimp only [Leads]
    rw [Int64.toInt_ofInt_of_le (by omega) (by omega)]
  | randomize =>
    have drawn := source.draw_mem low (if high < low then low else high) (by omega)
    rw [upper] at drawn
    exact drawn

theorem within_iff {control : SeedControl} {low high seed next : Int} (ordered : low ≤ high)
    (leads : control.Leads low high seed next) : low ≤ next ∧ next ≤ high ↔ control.Lands low high seed := by
  cases control <;> simp only [Leads, Lands, iff_true] at leads ⊢ <;> omega

end SeedControl

/-! ### The seeds of a node -/

namespace SeedPass

-- The value at the place of a seed after its control was applied.
def settled (spec : WidgetSpec) (value control : Json) (source : WordSource) : Json :=
  match value.int64? with
  | none => value
  | some current =>
    let next := ((SeedControl.ofJson control).apply current spec.seedBounds.1 spec.seedBounds.2 source).1
    if next = current then value else .ofInt64 next

variable {layout : List WidgetSpec} {pass : SeedPass} {index place : Nat} {spec : WidgetSpec} {value control : Json}

theorem getElem?_step_self (place : layout[index]? = some spec) (holds : pass.values[index]? = some value)
    (controlled : pass.values[index + 1]? = some control) :
    (pass.step layout index).values[index]? = some (settled spec value control pass.source) := by
  have inside := (List.getElem?_eq_some_iff.1 holds).1
  cases read : value.int64? with
  | none => simp [step, place, controlled, holds, settled, read]
  | some current =>
    simp only [step, place, controlled, holds, settled, read, Option.bind_some]
    split
    · exact holds
    · exact List.getElem?_set_self inside

theorem getElem?_step_ne (layout : List WidgetSpec) (pass : SeedPass) (apart : index ≠ place) :
    (pass.step layout index).values[place]? = pass.values[place]? := by
  rcases pass.values_step layout index with same | ⟨value, changed⟩
  · rw [same]
  · rw [changed, List.getElem?_set_ne apart]

theorem getElem?_foldl_step_ne (layout : List WidgetSpec) {indices : List Nat} (apart : ∀ index ∈ indices, index ≠ place)
    (pass : SeedPass) : (indices.foldl (step layout) pass).values[place]? = pass.values[place]? := by
  induction indices generalizing pass with
  | nil => rfl
  | cons head rest ih =>
    rw [List.foldl_cons, ih fun index member => apart index (List.mem_cons_of_mem _ member)]
    exact getElem?_step_ne layout pass (apart head List.mem_cons_self)

-- Every step changes the place it is for, so an earlier one leaves a seed and its control alone and a later one the seed.
theorem getElem?_foldl_step {indices : List Nat} (ascending : indices.Pairwise (· < ·)) (member : index ∈ indices)
    (place : layout[index]? = some spec) (holds : pass.values[index]? = some value)
    (controlled : pass.values[index + 1]? = some control) :
    ∃ drawn, (indices.foldl (step layout) pass).values[index]? = some (settled spec value control drawn) := by
  induction indices generalizing pass with
  | nil => cases member
  | cons head rest ih =>
    obtain ⟨later, ascending⟩ := List.pairwise_cons.1 ascending
    rw [List.foldl_cons]
    rcases List.mem_cons.1 member with rfl | member
    · refine ⟨pass.source, ?_⟩
      rw [getElem?_foldl_step_ne layout fun next member => Nat.ne_of_gt (later next member)]
      exact getElem?_step_self place holds controlled
    · have before := later index member
      refine ih ascending member ?_ ?_
      · rw [getElem?_step_ne layout pass (Nat.ne_of_lt before), holds]
      · rw [getElem?_step_ne layout pass (by omega), controlled]

theorem settled_leads {current : Int64} (read : value.int64? = some current) (spec : WidgetSpec) (control : Json)
    (source : WordSource) : ∃ next, (settled spec value control source).int64? = some next ∧
      (SeedControl.ofJson control).Leads spec.seedBounds.1.toInt
        (max spec.seedBounds.1.toInt spec.seedBounds.2.toInt) current.toInt next.toInt := by
  have leads := (SeedControl.ofJson control).leads_apply current spec.seedBounds.1 spec.seedBounds.2 source
  refine ⟨_, ?_, leads⟩
  simp only [settled, read]
  split
  · next same => rw [read, same]
  · exact Number.int64?_ofInt64 _

end SeedPass

-- The bounds that the input of a seed declares, without a cap.
def WidgetSpec.declaredLow (spec : WidgetSpec) : Int := ((spec.input.bind (·.intOption? "min")).getD 0).toInt

def WidgetSpec.declaredHigh (spec : WidgetSpec) : Int :=
  ((spec.input.bind (·.intOption? "max")).getD largestSeed).toInt

theorem WidgetSpec.toInt_seedBounds (spec : WidgetSpec) :
    spec.seedBounds.1.toInt = spec.declaredLow ∧ spec.seedBounds.2.toInt = min spec.declaredHigh (2 ^ 50) := by
  have cap : largestSeed.toInt = 2 ^ 50 := by decide
  refine ⟨rfl, ?_⟩
  rw [seedBounds, declaredHigh]
  dsimp only
  split
  · next less =>
    rw [Int64.lt_iff_toInt_lt] at less
    omega
  · next more =>
    rw [Int64.lt_iff_toInt_lt] at more
    omega

namespace Node

/-- A value of a node that a control directly follows. -/
structure Controlled (layout : List WidgetSpec) (node : Node) (index : Nat) (spec : WidgetSpec) (value control : Json) :
    Prop where
  place : layout[index]? = some spec
  marked : WidgetSpec.precedesControl layout index
  value : node.widgets.bind (·[index]?) = some value
  control : node.widgets.bind (·[index + 1]?) = some control

variable {op : Operation} {r : Registry} {node : Node} {index : Nat} {spec : WidgetSpec} {value control : Json}

theorem Controlled.settled (controlled : node.Controlled (op.layout r) index spec value control) (source : WordSource) :
    ∃ drawn, (node.advanceSeeds op r source).1.widgets.bind (·[index]?) =
      some (SeedPass.settled spec value control drawn) := by
  obtain ⟨values, widgets, holds⟩ := Option.bind_eq_some_iff.1 controlled.value
  have holds : (SeedPass.mk values source false).values[index]? = some value := holds
  have follows := controlled.control
  rw [widgets] at follows
  obtain ⟨drawn, final⟩ := SeedPass.getElem?_foldl_step (List.pairwise_lt_range.filter _)
    (SeedPass.mem_seedIndices_iff.2 controlled.marked) controlled.place holds follows
  refine ⟨drawn, ?_⟩
  rw [advanceSeeds, widgets]
  exact final

/-- A seed between its bounds after its control was applied: always if it was drawn; otherwise exactly if it is a
signed word and the step from it does not fall short of the bound behind. -/
theorem advanceSeeds_within_iff (source : WordSource) {seed : Int}
    (controlled : node.Controlled (op.layout r) index spec value control) (holds : value.integer? = some seed)
    (ordered : spec.declaredLow ≤ spec.declaredHigh) (capped : spec.declaredHigh ≤ 2 ^ 50) :
    ∃ next, ((node.advanceSeeds op r source).1.widgets.bind (·[index]?)).bind Json.integer? = some next ∧
      (if seed < 2 ^ 63 then (SeedControl.ofJson control).Leads spec.declaredLow spec.declaredHigh seed next
        else next = seed) ∧
      (spec.declaredLow ≤ next ∧ next ≤ spec.declaredHigh ↔
        seed < 2 ^ 63 ∧ (SeedControl.ofJson control).Lands spec.declaredLow spec.declaredHigh seed) := by
  obtain ⟨drawn, final⟩ := controlled.settled source
  rw [final, Option.bind_some]
  cases read : value.int64? with
  | none =>
    have wide := Json.le_of_int64?_eq_none holds read
    refine ⟨seed, by rw [SeedPass.settled, read, ← holds], ?_, ?_⟩
    · rw [if_neg (by omega)]
    · constructor <;> omega
  | some current =>
    have same := Json.int64?_eq_some_iff.1 read
    rw [holds, Option.some.injEq] at same
    subst same
    obtain ⟨next, reached, leads⟩ := SeedPass.settled_leads read spec control drawn
    obtain ⟨low, high⟩ := spec.toInt_seedBounds
    rw [low, high, min_eq_left capped, max_eq_right ordered] at leads
    have narrow := current.toInt_lt
    refine ⟨next.toInt, Json.int64?_eq_some_iff.1 reached, ?_, ?_⟩
    · rw [if_pos narrow]
      exact leads
    · rw [and_iff_right narrow]
      exact SeedControl.within_iff ordered leads

-- The one seed between the bounds is 5.
def narrowSampler : Operation :=
  (Operation.named "Sampler").addRequired "seed"
    (.array [.text "INT", .object [("min", .ofNat 5), ("max", .ofNat 5)]])

def narrowSpec : WidgetSpec :=
  ⟨"seed", true, some ⟨"seed", "INT", none, [("min", .ofNat 5), ("max", .ofNat 5)], true⟩⟩

def strayed (seed : Nat) (control : String) : Node :=
  { Node.plain (.number 1) "Sampler" with widgets := some [.ofNat seed, .text control] }

theorem strayed_controlled (seed : Nat) (control : String) :
    (strayed seed control).Controlled (narrowSampler.layout .standard) 0 narrowSpec (.ofNat seed) (.text control) :=
  ⟨by decide +kernel, by decide +kernel, rfl, rfl⟩

-- One step up from 0 is not between 5 and 5.
theorem advanceSeeds_astray :
    (strayed 0 "increment").Controlled (narrowSampler.layout .standard) 0 narrowSpec (.ofNat 0) (.text "increment") ∧
      narrowSpec.declaredLow ≤ narrowSpec.declaredHigh ∧ narrowSpec.declaredHigh ≤ 2 ^ 50 ∧
      SeedControl.ofJson (.text "increment") ≠ .fixed ∧
      (((strayed 0 "increment").advanceSeeds narrowSampler .standard .zeros).1.widgets.bind (·[0]?)).bind
        Json.integer? = some 1 ∧
      ¬ (narrowSpec.declaredLow ≤ 1 ∧ (1 : Int) ≤ narrowSpec.declaredHigh) :=
  ⟨strayed_controlled 0 "increment", by decide +kernel, by decide +kernel, by decide +kernel, by decide +kernel,
    by decide +kernel⟩

-- Nor is one step down from 7.
theorem advanceSeeds_within_iff_strayed :
    (strayed 7 "decrement").Controlled (narrowSampler.layout .standard) 0 narrowSpec (.ofNat 7) (.text "decrement") ∧
      narrowSpec.declaredLow = 5 ∧ narrowSpec.declaredHigh = 5 ∧
      ∃ next, (((strayed 7 "decrement").advanceSeeds narrowSampler .standard .zeros).1.widgets.bind (·[0]?)).bind
        Json.integer? = some next ∧ next = 6 ∧ ¬ (5 ≤ next ∧ next ≤ 5) := by
  have low : narrowSpec.declaredLow = 5 := by decide +kernel
  have high : narrowSpec.declaredHigh = 5 := by decide +kernel
  have stored : (Json.ofNat 7).integer? = some 7 := by decide +kernel
  obtain ⟨next, reached, leads, within⟩ := advanceSeeds_within_iff .zeros (strayed_controlled 7 "decrement") stored
    (by rw [low, high]) (by rw [high]; decide)
  rw [low, high] at leads within
  refine ⟨strayed_controlled 7 "decrement", low, high, next, reached, leads, fun inside => ?_⟩
  have lands : (7 : Int) - 1 ≤ 5 := (within.1 inside).2
  omega

end Node
end Patchbay
