import Mathlib.Data.Int.ModEq
import Mathlib.Data.Nat.ModEq

/-!
Positions in a circular buffer. Consecutive numbers from `low` on go to consecutive places, the
first to place 0; the last `capacity` of them have places of their own.
-/
namespace CircularBuffers

/-- The place of number `b`. -/
def slot (capacity low b : Nat) : Nat := (b - low) % capacity

/-- The place before that of `b`, also where `b` is the first number. -/
def slotBefore (capacity low b : Nat) : Nat := (b - low + (capacity - 1)) % capacity

variable {capacity low a b : Nat}

theorem slot_lt (room : 0 < capacity) : slot capacity low b < capacity := Nat.mod_lt _ room

theorem slot_early (early : b - low < capacity) : slot capacity low b = b - low :=
  Nat.mod_eq_of_lt early

theorem slotBefore_succ (above : low ≤ b) (room : 0 < capacity) :
    slotBefore capacity low (b + 1) = slot capacity low b := by
  have sum : b + 1 - low + (capacity - 1) = b - low + capacity := by omega
  unfold slotBefore slot
  rw [sum, Nat.add_mod_right]

theorem slotBefore_next (room : 0 < capacity) :
    (slotBefore capacity low b + 1) % capacity = slot capacity low b := by
  have sum : b - low + (capacity - 1) + 1 = b - low + capacity := by omega
  unfold slotBefore slot
  rw [Nat.mod_add_mod, sum, Nat.add_mod_right]

theorem slotBefore_back (above : low ≤ b) (room : 0 < capacity) :
    (slotBefore capacity low (b + 1) + capacity - 1) % capacity = slotBefore capacity low b := by
  have place : slot capacity low b < capacity := slot_lt room
  rw [slotBefore_succ above room]
  have sum : slot capacity low b + capacity - 1 = (b - low) % capacity + (capacity - 1) := by
    unfold slot at place ⊢
    omega
  rw [sum, Nat.mod_add_mod]
  rfl

theorem slot_window (above : low ≤ a) (order : a ≤ b) (near : b < a + capacity)
    (same : slot capacity low a = slot capacity low b) : a = b := by
  have congruent : (a - low) ≡ (b - low) [MOD capacity] := same
  have divides := (Nat.modEq_iff_dvd' (by omega)).mp congruent
  have none := Nat.eq_zero_of_dvd_of_lt divides (by omega)
  omega

theorem slot_wrap (above : low ≤ a) : slot capacity low (a + capacity) = slot capacity low a := by
  have sum : a + capacity - low = a - low + capacity := by omega
  unfold slot
  rw [sum, Nat.add_mod_right]

theorem slot_distance (first : low ≤ a) (second : low ≤ b) :
    ((((slot capacity low b : Nat) : Int) + ((a : Int) - b)) % capacity).toNat =
      slot capacity low a := by
  unfold slot
  rw [Int.natCast_mod, Int.emod_add_emod]
  have sum : (((b - low : Nat) : Int) + ((a : Int) - b)) = ((a - low : Nat) : Int) := by omega
  rw [sum]
  exact Int.toNat_natCast _

theorem slot_rotate {i top : Nat} (full : low + capacity ≤ top) (room : 0 < capacity) :
    (slotBefore capacity low top + 1 + i) % capacity = slot capacity low (top - capacity + i) := by
  have sum : top - low + (capacity - 1) + (1 + i) = top - capacity + i - low + capacity + capacity := by
    omega
  unfold slotBefore slot
  rw [Nat.add_assoc, Nat.mod_add_mod, sum, Nat.add_mod_right, Nat.add_mod_right]

theorem rotate_inj {t i j : Nat} (first : i < capacity) (second : j < capacity)
    (same : (t + i) % capacity = (t + j) % capacity) : i = j := by
  have congruent : t + i ≡ t + j [MOD capacity] := same
  have plain : i % capacity = j % capacity := Nat.ModEq.add_left_cancel' t congruent
  rwa [Nat.mod_eq_of_lt first, Nat.mod_eq_of_lt second] at plain

end CircularBuffers
