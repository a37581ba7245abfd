import Mathlib.Data.Nat.Basic

/- A word as a set of small numbers: setting and clearing one of them, and the
   largest one as the count of leading zeros gives it. -/
namespace BitMasks
variable {w : Nat}

def set (m : BitVec w) (i : Nat) : BitVec w := m ||| (1#w <<< i)

def clear (m : BitVec w) (i : Nat) : BitVec w := m &&& ~~~(1#w <<< i)

def top (m : BitVec w) : Nat := w - 1 - m.clz.toNat

theorem set_bit (m : BitVec w) (i j : Nat) (inside : i < w) :
    (set m i).getLsbD j = (m.getLsbD j || decide (j = i)) := by
  by_cases same : j = i
  · subst same
    simp [set, inside]
  · have shifted : (1#w <<< i).getLsbD j = false := by
      rw [← BitVec.twoPow_eq, BitVec.getLsbD_twoPow]
      simp [Ne.symm same]
    simp [set, BitVec.getLsbD_or, shifted, same]

theorem clear_bit (m : BitVec w) (i j : Nat) :
    (clear m i).getLsbD j = (m.getLsbD j && decide (j ≠ i)) := by
  by_cases bound : j < w
  · have shifted : (1#w <<< i).getLsbD j = decide (j = i) := by
      rw [← BitVec.twoPow_eq, BitVec.getLsbD_twoPow]
      by_cases same : j = i
      · simp [same, same ▸ bound]
      · simp [same, Ne.symm same]
    simp only [clear, BitVec.getLsbD_and, BitVec.getLsbD_not, shifted, bound, decide_true,
      Bool.true_and, decide_not]
  · have beyond := BitVec.getLsbD_of_ge m j (by omega)
    simp [clear, BitVec.getLsbD_and, beyond]

theorem top_bit {m : BitVec w} (some : m ≠ 0) : m.getLsbD (top m) = true := by
  have wide : 0 < w := by
    by_contra narrow
    have none : w = 0 := by omega
    subst none
    exact some (Subsingleton.elim _ _)
  exact BitVec.getLsbD_true_clz_of_ne_zero wide some

theorem bit_le_top {m : BitVec w} {i : Nat} (bit : m.getLsbD i = true) : i ≤ top m := by
  have below := BitVec.toNat_lt_two_pow_sub_clz (x := m)
  have bound := BitVec.lt_of_getLsbD bit
  by_contra above
  have big : 2 ^ i ≤ m.toNat := Nat.ge_two_pow_of_testBit (by simpa [BitVec.getLsbD] using bit)
  have small : 2 ^ (w - m.clz.toNat) ≤ 2 ^ i := Nat.pow_le_pow_right (by omega) (by unfold top at above; omega)
  omega

end BitMasks
