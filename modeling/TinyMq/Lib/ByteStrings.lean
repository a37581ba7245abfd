import Mathlib.Algebra.Ring.Int.Defs
import Mathlib.Algebra.Ring.Nat
import Mathlib.Data.List.Basic

/- Byte strings as they lie in a file: little-endian words, and a write that
   replaces the bytes at an offset. A write behind the end leaves a hole of
   zero bytes, as a POSIX file does. -/
namespace ByteStrings

abbrev Bytes := List UInt8

def leBytes : Nat → Nat → Bytes
  | 0, _ => []
  | width + 1, n => UInt8.ofNat n :: leBytes width (n / 256)

def leNat : Bytes → Nat
  | [] => 0
  | b :: rest => b.toNat + 256 * leNat rest

@[simp] theorem leBytes_length (width n : Nat) : (leBytes width n).length = width := by
  induction width generalizing n with
  | zero => rfl
  | succ width ih => simp [leBytes, ih]

theorem leNat_leBytes {width n : Nat} (fits : n < 256 ^ width) :
    leNat (leBytes width n) = n := by
  induction width generalizing n with
  | zero =>
    have zero : n = 0 := by simpa using fits
    simp [leBytes, leNat, zero]
  | succ width ih =>
    have high : n / 256 < 256 ^ width := by
      apply Nat.div_lt_of_lt_mul
      rwa [Nat.mul_comm, ← Nat.pow_succ]
    simp only [leBytes, leNat, ih high, UInt8.toNat_ofNat']
    omega

theorem leNat_lt (bs : Bytes) : leNat bs < 256 ^ bs.length := by
  induction bs with
  | nil => exact Nat.one_pos
  | cons b bs ih =>
    have digit := b.toNat_lt
    rw [leNat, List.length_cons, Nat.pow_succ]
    omega

theorem leNat_inj {bs cs : Bytes} (lengths : bs.length = cs.length) (same : leNat bs = leNat cs) :
    bs = cs := by
  induction bs generalizing cs with
  | nil => exact (List.length_eq_zero_iff.mp lengths.symm).symm
  | cons b bs ih =>
    cases cs with
    | nil => cases lengths
    | cons c cs =>
      have low := b.toNat_lt
      have low' := c.toNat_lt
      simp only [leNat] at same
      have first : b.toNat = c.toNat := by omega
      have rest : leNat bs = leNat cs := by omega
      rw [UInt8.toNat_inj.mp first, ih (by simpa using lengths) rest]

theorem leNat_zero {bs : Bytes} (zero : leNat bs = 0) : ∀ b ∈ bs, b = 0 := by
  induction bs with
  | nil => simp
  | cons b bs ih =>
    simp only [leNat] at zero
    have low : b.toNat = 0 := by omega
    have rest : leNat bs = 0 := by omega
    intro x inside
    rcases List.mem_cons.mp inside with rfl | later
    · exact UInt8.toNat_inj.mp low
    · exact ih rest x later

/-- A machine integer of `width` bytes, in two's complement. -/
def leInt (width : Nat) (n : Int) : Bytes := leBytes width (BitVec.ofInt (8 * width) n).toNat

def intLe (width : Nat) (bs : Bytes) : Int := (BitVec.ofNat (8 * width) (leNat bs)).toInt

@[simp] theorem leInt_length (width : Nat) (n : Int) : (leInt width n).length = width :=
  leBytes_length ..

def Fits (width : Nat) (n : Int) : Prop := -2 ^ (8 * width - 1) ≤ n ∧ n < 2 ^ (8 * width - 1)

theorem intLe_leInt {width : Nat} (some_ : 0 < width) {n : Int} (fits : Fits width n) :
    intLe width (leInt width n) = n := by
  have word : (BitVec.ofInt (8 * width) n).toNat < 256 ^ width := by
    have bound := (BitVec.ofInt (8 * width) n).isLt
    rwa [Nat.pow_mul] at bound
  unfold intLe leInt
  rw [leNat_leBytes word, BitVec.ofNat_toNat, BitVec.setWidth_eq]
  exact BitVec.toInt_ofInt_eq_self (by omega) fits.1 fits.2

def slice (off len : Nat) (bs : Bytes) : Bytes := (bs.drop off).take len

theorem slice_middle (before part after : Bytes) :
    slice before.length part.length (before ++ part ++ after) = part := by
  simp [slice]

theorem slice_here {part : Bytes} {len : Nat} (size : part.length = len) (rest : Bytes) :
    slice 0 len (part ++ rest) = part := by
  simp [slice, ← size]

theorem slice_skip {front : Bytes} {off : Nat} (size : front.length = off) (off' len : Nat)
    (rest : Bytes) : slice (off + off') len (front ++ rest) = slice off' len rest := by
  unfold slice
  rw [← size, ← List.drop_drop, List.drop_left]

theorem slice_at {bs before part after : Bytes} {off len : Nat}
    (layout : bs = before ++ (part ++ after)) (place : before.length = off)
    (size : part.length = len) : slice off len bs = part := by
  rw [layout, ← List.append_assoc, ← place, ← size, slice_middle]

theorem getD_at {bs before after : Bytes} {b : UInt8} {off : Nat}
    (layout : bs = before ++ b :: after) (place : before.length = off) (d : UInt8) :
    bs.getD off d = b := by
  rw [layout, ← place]
  simp [List.getD_eq_getElem?_getD]

def overwrite (bs : Bytes) (off : Nat) (d : Bytes) : Bytes :=
  (bs ++ List.replicate (off - bs.length) 0).take off ++ d ++ bs.drop (off + d.length)

theorem overwrite_end (bs d : Bytes) : overwrite bs bs.length d = bs ++ d := by
  simp [overwrite]

theorem overwrite_middle (before old new after : Bytes) (same : new.length = old.length) :
    overwrite (before ++ old ++ after) before.length new = before ++ new ++ after := by
  simp [overwrite, same]

theorem overwrite_set {bs : Bytes} {q : Nat} (inside : q < bs.length) (b : UInt8) :
    overwrite bs q [b] = bs.set q b := by
  have whole : q - bs.length = 0 := by omega
  rw [List.set_eq_take_append_cons_drop, if_pos inside]
  simp [overwrite, whole]

theorem overwrite_behind {bs d : Bytes} {off : Nat} (past : bs.length ≤ off) :
    ∃ tail, overwrite bs off d = bs ++ tail := by
  refine ⟨List.replicate (off - bs.length) 0 ++ d, ?_⟩
  have gone : bs.drop (off + d.length) = [] := List.drop_of_length_le (by omega)
  have long : (bs ++ List.replicate (off - bs.length) 0).length = off := by
    simp
    omega
  unfold overwrite
  rw [gone, List.append_nil, List.take_of_length_le (Nat.le_of_eq long), List.append_assoc]

end ByteStrings
