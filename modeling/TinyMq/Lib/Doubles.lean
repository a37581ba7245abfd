import Mathlib.Algebra.Ring.Int.Defs
import Mathlib.Algebra.Ring.Nat

/- The binary64 format of IEEE 754 on its bits: the order of two numbers, and the nearest
   number of a fraction, ties to the even one. -/
namespace Doubles

abbrev Double := BitVec 64

/-- The bits without the sign; from `infinite` on they are no finite number. -/
def magnitude (d : Double) : Nat := d.toNat % 9223372036854775808

def infinite : Nat := 9218868437227405312

def isNaN (d : Double) : Bool := infinite < magnitude d

/-- The place of a number in their order; both zeros have the same. -/
def rank (d : Double) : Int := if d.msb then -(magnitude d : Int) else magnitude d

def eq (a b : Double) : Bool := !isNaN a && !isNaN b && rank a = rank b

def lt (a b : Double) : Bool := !isNaN a && !isNaN b && rank a < rank b

/-- The nearest whole number of a fraction. -/
def nearestNat (num den : Nat) : Nat :=
  let whole := num / den
  let rest := 2 * (num % den)
  if rest < den || rest = den && whole % 2 = 0 then whole else whole + 1

/-- The magnitude that is nearest to a fraction. Its last place is worth `2 ^ last`, which
    leaves 53 significant bits of a fraction that is not too small for that. -/
def nearest (num den : Nat) : Nat :=
  if num = 0 then 0
  else
    let guess : Int := (num.log2 : Int) - den.log2
    let least := num * 2 ^ (-guess).toNat < den * 2 ^ guess.toNat
    let exponent := if least then guess - 1 else guess
    let exponent := if exponent < -1022 then -1022 else exponent
    let last := exponent - 52
    (exponent + 1022).toNat * 2 ^ 52 + nearestNat (num * 2 ^ (-last).toNat) (den * 2 ^ last.toNat)

/-- The double nearest to a whole number below `2 ^ 1023`, which is whole itself. -/
def nearestWhole (n : Nat) : Nat := nearestNat n (2 ^ (n.log2 - 52)) * 2 ^ (n.log2 - 52)

def nearestInt (n : Int) : Int :=
  if n < 0 then -(nearestWhole n.natAbs : Int) else nearestWhole n.natAbs

def signed (negative : Bool) (magnitude : Nat) : Double :=
  BitVec.ofNat 64 (if negative then 9223372036854775808 + magnitude else magnitude)

def ofInt (n : Int) : Double := signed (n < 0) (nearest n.natAbs 1)

/-- A binary32 number, given by its bits. -/
def ofFloat (bits : BitVec 32) : Double :=
  let exponent := bits.toNat / 8388608 % 256
  let fraction := bits.toNat % 8388608
  signed bits.msb <|
    if exponent = 255 then infinite + fraction * 536870912
    else if exponent = 0 then nearest fraction (2 ^ 149)
    else nearest ((8388608 + fraction) * 2 ^ exponent) (2 ^ 150)

example : ofInt 3 = 0x4008000000000000#64 := by decide
example : ofFloat 0x3dcccccd#32 = 0x3fb99999a0000000#64 := by decide
example : nearestInt 9007199254740993 = 9007199254740992 := by decide

theorem le_nearestNat (num den : Nat) : num / den ≤ nearestNat num den := by
  unfold nearestNat
  dsimp only
  split <;> omega

theorem nearestNat_le (num den : Nat) : nearestNat num den ≤ num / den + 1 := by
  unfold nearestNat
  dsimp only
  split <;> omega

theorem nearestWhole_small {n : Nat} (small : n < 2 ^ 53) : nearestWhole n = n := by
  have last : n.log2 - 52 = 0 := by
    by_cases zero : n = 0
    · simp [zero]
    · have := (Nat.log2_lt zero).mpr small
      omega
  simp [nearestWhole, last, nearestNat, Nat.mod_one]

theorem pow_le_nearestWhole {n k : Nat} (large : 2 ^ k ≤ n) : 2 ^ k ≤ nearestWhole n := by
  have positive : n ≠ 0 := by
    have := Nat.two_pow_pos k
    omega
  have top : k ≤ n.log2 := (Nat.le_log2 positive).mpr large
  by_cases small : n < 2 ^ 53
  · rwa [nearestWhole_small small]
  have digits : 53 ≤ n.log2 := (Nat.le_log2 positive).mpr (by omega)
  have split_ : 2 ^ n.log2 = 2 ^ 52 * 2 ^ (n.log2 - 52) := by
    rw [← Nat.pow_add]
    congr 1
    omega
  have quotient : 2 ^ 52 ≤ n / 2 ^ (n.log2 - 52) := by
    rw [Nat.le_div_iff_mul_le (Nat.two_pow_pos _), ← split_]
    exact Nat.log2_self_le positive
  calc 2 ^ k ≤ 2 ^ n.log2 := Nat.pow_le_pow_right (by decide) top
    _ = 2 ^ 52 * 2 ^ (n.log2 - 52) := split_
    _ ≤ nearestWhole n := Nat.mul_le_mul_right _ (Nat.le_trans quotient (le_nearestNat _ _))

theorem nearestWhole_le_pow {n k : Nat} (small : n < 2 ^ k) : nearestWhole n ≤ 2 ^ k := by
  by_cases exact_ : n < 2 ^ 53
  · rw [nearestWhole_small exact_]
    omega
  have positive : n ≠ 0 := by
    rintro rfl
    exact exact_ (Nat.two_pow_pos 53)
  have digits : 53 ≤ n.log2 := (Nat.le_log2 positive).mpr (by omega)
  have top : n.log2 < k := (Nat.log2_lt positive).mpr small
  have split_ : 2 ^ (n.log2 + 1) = 2 ^ 53 * 2 ^ (n.log2 - 52) := by
    rw [← Nat.pow_add]
    congr 1
    omega
  have quotient : n / 2 ^ (n.log2 - 52) < 2 ^ 53 := by
    rw [Nat.div_lt_iff_lt_mul (Nat.two_pow_pos _), ← split_]
    exact Nat.lt_log2_self
  have rounded := nearestNat_le n (2 ^ (n.log2 - 52))
  calc nearestWhole n ≤ 2 ^ 53 * 2 ^ (n.log2 - 52) := Nat.mul_le_mul_right _ (by omega)
    _ = 2 ^ (n.log2 + 1) := split_.symm
    _ ≤ 2 ^ k := Nat.pow_le_pow_right (by decide) top

theorem nearestInt_nat (n : Nat) : nearestInt n = nearestWhole n := by
  unfold nearestInt
  rw [Int.natAbs_natCast]
  split <;> omega

theorem nearestInt_small {n : Int} (below : -2 ^ 53 < n) (above : n < 2 ^ 53) :
    nearestInt n = n := by
  unfold nearestInt
  rw [nearestWhole_small (by omega)]
  split <;> omega

theorem pow_le_nearestInt {n : Int} {k : Nat} (large : 2 ^ k ≤ n) : 2 ^ k ≤ nearestInt n := by
  obtain ⟨m, rfl⟩ := Int.eq_ofNat_of_zero_le (Int.le_trans (Int.pow_nonneg (by decide)) large)
  rw [nearestInt_nat]
  exact_mod_cast pow_le_nearestWhole (by exact_mod_cast large)

theorem nearestInt_le_pow {n : Int} {k : Nat} (small : n < 2 ^ k) : nearestInt n ≤ 2 ^ k := by
  by_cases negative : n < 0
  · have : (0 : Int) ≤ 2 ^ k := Int.pow_nonneg (by decide)
    simp only [nearestInt, if_pos negative]
    omega
  · obtain ⟨m, rfl⟩ := Int.eq_ofNat_of_zero_le (Int.not_lt.mp negative)
    rw [nearestInt_nat]
    exact_mod_cast nearestWhole_le_pow (by exact_mod_cast small)

section Order

theorem nearestNat_one (n : Nat) : nearestNat n 1 = n := by
  simp [nearestNat, Nat.mod_one]

theorem nearestNat_mono {m n : Nat} (less : m ≤ n) (den : Nat) :
    nearestNat m den ≤ nearestNat n den := by
  have quotients : m / den ≤ n / den := Nat.div_le_div_right less
  by_cases same : m / den = n / den
  · have rests : m % den ≤ n % den := by
      have first := Nat.div_add_mod m den
      have second := Nat.div_add_mod n den
      rw [same] at first
      omega
    unfold nearestNat
    dsimp only
    rw [same]
    simp only [Bool.or_eq_true, decide_eq_true_eq, Bool.and_eq_true]
    split <;> split <;> omega
  · have below := nearestNat_le m den
    have above := le_nearestNat n den
    omega

/-- The 53 significant bits of a whole number. -/
def significand (n : Nat) : Nat := nearestNat (n * 2 ^ (52 - n.log2)) (2 ^ (n.log2 - 52))

theorem nearest_one {n : Nat} (positive : n ≠ 0) :
    nearest n 1 = (n.log2 + 1022) * 4503599627370496 + significand n := by
  have low : ¬ n < 2 ^ n.log2 := Nat.not_lt.mpr (Nat.log2_self_le positive)
  have one : Nat.log2 1 = 0 := by decide
  unfold nearest significand
  rw [if_neg positive, one]
  have guess : (-((n.log2 : Int) - (0 : Nat))).toNat = 0 := by omega
  have top : ((n.log2 : Int) - (0 : Nat)).toNat = n.log2 := by omega
  have normal : ¬ (n.log2 : Int) - (0 : Nat) < -1022 := by omega
  have place : ((n.log2 : Int) - (0 : Nat) + 1022).toNat = n.log2 + 1022 := by omega
  have left : (-((n.log2 : Int) - (0 : Nat) - 52)).toNat = 52 - n.log2 := by omega
  have right : ((n.log2 : Int) - (0 : Nat) - 52).toNat = n.log2 - 52 := by omega
  simp only [guess, top, Nat.pow_zero, Nat.mul_one, Nat.one_mul, if_neg low, if_neg normal, place,
    left, right]
  rfl

theorem nearestWhole_scaled (n : Nat) :
    nearestWhole n * 2 ^ (52 - n.log2) = significand n * 2 ^ (n.log2 - 52) := by
  unfold nearestWhole significand
  by_cases small : n.log2 ≤ 52
  · have none_ : n.log2 - 52 = 0 := by omega
    rw [none_, Nat.pow_zero, Nat.mul_one, Nat.mul_one, nearestNat_one, nearestNat_one]
  · have none_ : 52 - n.log2 = 0 := by omega
    rw [none_, Nat.pow_zero, Nat.mul_one, Nat.mul_one]

theorem scaled_pow (n e : Nat) :
    2 ^ (n.log2 + e) * 2 ^ (52 - n.log2) = 2 ^ (52 + e) * 2 ^ (n.log2 - 52) := by
  rw [← Nat.pow_add, ← Nat.pow_add]
  congr 1
  omega

theorem le_significand_iff (n e : Nat) :
    2 ^ (52 + e) ≤ significand n ↔ 2 ^ (n.log2 + e) ≤ nearestWhole n := by
  rw [← Nat.mul_le_mul_right_iff (Nat.two_pow_pos (n.log2 - 52)), ← scaled_pow,
    ← nearestWhole_scaled, Nat.mul_le_mul_right_iff (Nat.two_pow_pos _)]

theorem significand_le_iff (n e : Nat) :
    significand n ≤ 2 ^ (52 + e) ↔ nearestWhole n ≤ 2 ^ (n.log2 + e) := by
  rw [← Nat.mul_le_mul_right_iff (Nat.two_pow_pos (n.log2 - 52)), ← scaled_pow,
    ← nearestWhole_scaled, Nat.mul_le_mul_right_iff (Nat.two_pow_pos _)]

theorem nearestWhole_bounds {n : Nat} (positive : n ≠ 0) :
    2 ^ n.log2 ≤ nearestWhole n ∧ nearestWhole n ≤ 2 ^ (n.log2 + 1) :=
  ⟨pow_le_nearestWhole (Nat.log2_self_le positive), nearestWhole_le_pow Nat.lt_log2_self⟩

theorem significand_bounds {n : Nat} (positive : n ≠ 0) :
    4503599627370496 ≤ significand n ∧ significand n ≤ 9007199254740992 := by
  obtain ⟨low, high⟩ := nearestWhole_bounds positive
  exact ⟨(le_significand_iff n 0).mpr low, (significand_le_iff n 1).mpr high⟩

theorem longer_larger {m n : Nat} (positive : m ≠ 0) (longer : m.log2 < n.log2) :
    nearestWhole m ≤ nearestWhole n ∧ nearest m 1 ≤ nearest n 1 ∧
      (nearestWhole n ≤ nearestWhole m ↔ nearest n 1 ≤ nearest m 1) := by
  have positive' : n ≠ 0 := by
    rintro rfl
    exact absurd longer (Nat.not_lt_zero _)
  have high := (nearestWhole_bounds positive).2
  have low := (nearestWhole_bounds positive').1
  have between : 2 ^ (m.log2 + 1) ≤ 2 ^ n.log2 := Nat.pow_le_pow_right (by decide) longer
  have some_ := (significand_bounds positive).2
  have least := (significand_bounds positive').1
  rw [nearest_one positive, nearest_one positive']
  refine ⟨by omega, by omega, ?_⟩
  constructor
  · intro less
    -- Both are the power of two between them.
    have top : 9007199254740992 ≤ significand m := (le_significand_iff m 1).mpr (by omega)
    have bottom : significand n ≤ 4503599627370496 :=
      (significand_le_iff n 0).mpr (by rw [Nat.add_zero]; omega)
    have adjacent : n.log2 ≤ m.log2 + 1 := (Nat.pow_le_pow_iff_right (by decide)).mp
      (show 2 ^ n.log2 ≤ 2 ^ (m.log2 + 1) by omega)
    omega
  · intro less
    have adjacent : n.log2 = m.log2 + 1 := by omega
    have top := (le_significand_iff m 1).mp (by omega)
    have bottom := (significand_le_iff n 0).mp (by omega)
    rw [adjacent, Nat.add_zero] at bottom
    omega

theorem nearest_le_iff (m n : Nat) :
    nearest m 1 ≤ nearest n 1 ↔ nearestWhole m ≤ nearestWhole n := by
  have zero : nearest 0 1 = 0 := rfl
  have zero' : nearestWhole 0 = 0 := by decide
  by_cases empty : m = 0
  · rw [empty, zero, zero']
    exact iff_of_true (Nat.zero_le _) (Nat.zero_le _)
  by_cases empty' : n = 0
  · have positive := (nearestWhole_bounds empty).1
    have some_ := (significand_bounds empty).1
    have := Nat.two_pow_pos m.log2
    rw [empty', zero, zero', nearest_one empty]
    exact iff_of_false (by omega) (by omega)
  rcases Nat.lt_trichotomy m.log2 n.log2 with shorter | same | longer
  · obtain ⟨whole, bits, _⟩ := longer_larger empty shorter
    exact iff_of_true bits whole
  · have scaled := nearestWhole_scaled m
    have scaled' := nearestWhole_scaled n
    rw [← same] at scaled'
    rw [nearest_one empty, nearest_one empty', ← same, Nat.add_le_add_iff_left,
      ← Nat.mul_le_mul_right_iff (Nat.two_pow_pos (m.log2 - 52)), ← scaled, ← scaled',
      Nat.mul_le_mul_right_iff (Nat.two_pow_pos _)]
  · exact (longer_larger empty' longer).2.2.symm

theorem nearestWhole_mono {m n : Nat} (less : m ≤ n) : nearestWhole m ≤ nearestWhole n := by
  by_cases empty : m = 0
  · rw [empty]
    exact Nat.zero_le _
  have logs : m.log2 ≤ n.log2 :=
    (Nat.le_log2 (by omega)).mpr (Nat.le_trans (Nat.log2_self_le empty) less)
  rcases Nat.lt_or_eq_of_le logs with shorter | same
  · exact (longer_larger empty shorter).1
  · unfold nearestWhole
    rw [same]
    exact Nat.mul_le_mul_right _ (nearestNat_mono less _)

theorem nearest_finite {n : Nat} (small : n < 2 ^ 64) : nearest n 1 < infinite := by
  by_cases empty : n = 0
  · rw [empty]
    decide
  have digits : n.log2 < 64 := (Nat.log2_lt empty).mpr small
  have some_ := (significand_bounds empty).2
  rw [nearest_one empty]
  unfold infinite
  omega

theorem magnitude_signed {negative : Bool} {m : Nat} (finite : m < infinite) :
    magnitude (signed negative m) = m := by
  unfold infinite at finite
  unfold magnitude signed
  rw [BitVec.toNat_ofNat]
  split <;> omega

theorem rank_signed {negative : Bool} {m : Nat} (finite : m < infinite) :
    rank (signed negative m) = if negative then -(m : Int) else m := by
  have sign : (signed negative m).msb = negative := by
    unfold infinite at finite
    unfold signed
    rw [BitVec.msb_eq_decide, BitVec.toNat_ofNat]
    cases negative with
    | true =>
      rw [if_pos rfl, decide_eq_true_iff]
      omega
    | false =>
      rw [if_neg Bool.false_ne_true, decide_eq_false_iff_not]
      omega
  unfold rank
  rw [sign, magnitude_signed finite]

theorem ofInt_finite {n : Int} (small : n.natAbs < 2 ^ 64) : isNaN (ofInt n) = false := by
  have finite := nearest_finite small
  unfold isNaN ofInt
  rw [magnitude_signed finite, decide_eq_false_iff_not]
  omega

theorem rank_le_iff {m n : Int} (small : m.natAbs < 2 ^ 64) (small' : n.natAbs < 2 ^ 64) :
    rank (ofInt m) ≤ rank (ofInt n) ↔ nearestInt m ≤ nearestInt n := by
  have here := nearest_le_iff m.natAbs n.natAbs
  have back := nearest_le_iff n.natAbs m.natAbs
  have none_ := nearest_le_iff m.natAbs 0
  have none_' := nearest_le_iff n.natAbs 0
  have zero : nearest 0 1 = 0 := rfl
  have zero' : nearestWhole 0 = 0 := by decide
  rw [zero, zero'] at none_ none_'
  unfold ofInt nearestInt
  rw [rank_signed (nearest_finite small), rank_signed (nearest_finite small')]
  simp only [decide_eq_true_eq]
  split <;> split <;> omega

theorem nearestInt_mono {m n : Int} (less : m ≤ n) : nearestInt m ≤ nearestInt n := by
  unfold nearestInt
  by_cases negative : n < 0
  · have both : m < 0 := by omega
    have rounded : nearestWhole n.natAbs ≤ nearestWhole m.natAbs := nearestWhole_mono (by omega)
    rw [if_pos both, if_pos negative]
    omega
  · rw [if_neg negative]
    split
    · omega
    · have rounded : nearestWhole m.natAbs ≤ nearestWhole n.natAbs := nearestWhole_mono (by omega)
      omega

theorem eq_ofInt {m n : Int} (small : m.natAbs < 2 ^ 64) (small' : n.natAbs < 2 ^ 64) :
    eq (ofInt m) (ofInt n) = decide (nearestInt m = nearestInt n) := by
  have here := rank_le_iff small small'
  have back := rank_le_iff small' small
  unfold eq
  rw [ofInt_finite small, ofInt_finite small', Bool.not_false, Bool.true_and, Bool.true_and,
    decide_eq_decide]
  omega

theorem lt_ofInt {m n : Int} (small : m.natAbs < 2 ^ 64) (small' : n.natAbs < 2 ^ 64) :
    lt (ofInt m) (ofInt n) = decide (nearestInt m < nearestInt n) := by
  have back := rank_le_iff small' small
  unfold lt
  rw [ofInt_finite small, ofInt_finite small', Bool.not_false, Bool.true_and, Bool.true_and,
    decide_eq_decide]
  omega

end Order

end Doubles
