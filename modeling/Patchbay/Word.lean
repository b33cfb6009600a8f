/-!
Link ids, slot numbers and list positions in stored files are 64-bit words. Arithmetic on them stops
at either end of the range; the lemmas restate each operation on natural numbers.
-/
set_option autoImplicit false

namespace Patchbay

abbrev Word := UInt64

namespace Word

/-- `n` places up, and no further than the largest word. -/
def raise (w : Word) (n : Nat) : Word :=
  UInt64.ofNat (min (w.toNat + n) (UInt64.size - 1))

/-- `n` places down, and no further than zero. -/
def lower (w : Word) (n : Nat) : Word :=
  UInt64.ofNat (w.toNat - n)

/-- `n` places down, or nothing when that lies below zero. -/
def lower? (w : Word) (n : Nat) : Option Word :=
  if n ≤ w.toNat then some (lower w n) else none

/-- The word a count stands for in a stored file. -/
def ofCount (n : Nat) : Word := UInt64.ofNat n

theorem toNat_raise (w : Word) (n : Nat) :
    (raise w n).toNat = min (w.toNat + n) (UInt64.size - 1) := by
  unfold raise
  rw [UInt64.toNat_ofNat']
  simp only [UInt64.size]
  omega

theorem toNat_lower (w : Word) (n : Nat) : (lower w n).toNat = w.toNat - n := by
  have bound := w.toNat_lt
  unfold lower
  rw [UInt64.toNat_ofNat']
  omega

theorem raise_zero (w : Word) : raise w 0 = w := by
  have bound := w.toNat_lt
  rw [← UInt64.toNat_inj, toNat_raise]
  simp only [UInt64.size]
  omega

theorem lower_zero (w : Word) : lower w 0 = w := by
  rw [← UInt64.toNat_inj, toNat_lower]
  omega

/-- Going up and down again gives the word back as long as the top was not reached. -/
theorem lower_raise (w : Word) (n : Nat) (room : w.toNat + n < UInt64.size) :
    lower (raise w n) n = w := by
  rw [← UInt64.toNat_inj, toNat_lower, toNat_raise]
  omega

theorem lower?_zero (w : Word) : lower? w 0 = some w := by
  rw [lower?, if_pos (Nat.zero_le _), lower_zero]

theorem lower?_eq_none_iff (w : Word) (n : Nat) : lower? w n = none ↔ w.toNat < n := by
  unfold lower?
  split <;> simp <;> omega

end Word
end Patchbay
