import Mathlib.Data.List.Basic
import Mathlib.Tactic.Ring

/-!
# Sequence numbers

A sequence number is a 32-bit unsigned integer that wraps.  It is compared with another one through
the difference of the two: it is smaller when the difference to the other is less than half of
the ring.  Numbers that a base is `advance`d to by natural numbers that differ by less than half of
the ring are ordered as the natural numbers are.
-/

namespace Inet4.Tcp

/-- `uint32` as a sequence number. -/
abbrev SeqNum := BitVec 32

/-- The sequence number `n` bytes behind another one. -/
def advance (s : SeqNum) (n : ℕ) : SeqNum := s + BitVec.ofNat 32 n

/-- The number of bytes from one sequence number on to another one. -/
def distance (s t : SeqNum) : ℕ := (t - s).toNat

variable (a b : SeqNum)

def seqLess : Prop := a ≠ b ∧ distance a b < 2 ^ 31

def seqLE : Prop := distance a b < 2 ^ 31

def seqGreater : Prop := a ≠ b ∧ distance b a < 2 ^ 31

def seqGE : Prop := distance b a < 2 ^ 31

def seqMin : SeqNum := if distance a b < 2 ^ 31 then a else b

def seqMax : SeqNum := if distance b a < 2 ^ 31 then a else b

instance (a b : SeqNum) : Decidable (seqLess a b) := inferInstanceAs (Decidable (_ ∧ _))

instance (a b : SeqNum) : Decidable (seqLE a b) := inferInstanceAs (Decidable (_ < _))

instance (a b : SeqNum) : Decidable (seqGreater a b) := inferInstanceAs (Decidable (_ ∧ _))

instance (a b : SeqNum) : Decidable (seqGE a b) := inferInstanceAs (Decidable (_ < _))

variable {s t : SeqNum} {m n : ℕ}

@[simp]
theorem advance_zero (s : SeqNum) : advance s 0 = s := BitVec.add_zero s

theorem advance_advance (s : SeqNum) (m n : ℕ) :
    advance (advance s m) n = advance s (m + n) := by
  rw [advance, advance, advance, BitVec.add_assoc, ← BitVec.ofNat_add]

/-- The ring is closed. -/
theorem advance_add_two_pow (s : SeqNum) (n : ℕ) : advance s (n + 2 ^ 32) = advance s n := by
  have hzero : BitVec.ofNat 32 (2 ^ 32) = 0#32 := by decide
  rw [advance, advance, BitVec.ofNat_add, hzero, BitVec.add_zero]

@[simp]
theorem advance_distance (s t : SeqNum) : advance s (distance s t) = t := by
  rw [advance, distance, BitVec.ofNat_toNat, BitVec.setWidth_eq, BitVec.add_comm,
    BitVec.sub_add_cancel]

theorem distance_lt (s t : SeqNum) : distance s t < 2 ^ 32 := (t - s).isLt

theorem distance_advance (s : SeqNum) (n : ℕ) : distance s (advance s n) = n % 2 ^ 32 := by
  have hsub : advance s n - s = BitVec.ofNat 32 n := by
    rw [advance, BitVec.add_comm, BitVec.add_sub_cancel]
  rw [distance, hsub, BitVec.toNat_ofNat]

theorem distance_advance_of_lt (h : n < 2 ^ 32) : distance s (advance s n) = n := by
  rw [distance_advance, Nat.mod_eq_of_lt h]

@[simp]
theorem distance_self (s : SeqNum) : distance s s = 0 := by
  simp [distance]

/-- The distance of two numbers that a base is advanced to. -/
theorem distance_advance_advance (hle : m ≤ n) (hlt : n - m < 2 ^ 32) :
    distance (advance s m) (advance s n) = n - m := by
  have hsplit : advance s n = advance (advance s m) (n - m) := by
    rw [advance_advance, Nat.add_sub_cancel' hle]
  rw [hsplit, distance_advance_of_lt hlt]

theorem distance_advance_advance_of_lt (hlt : n < m) (hbound : m - n ≤ 2 ^ 32) :
    distance (advance s m) (advance s n) = 2 ^ 32 - (m - n) := by
  have hround : advance s n = advance (advance s m) (2 ^ 32 - (m - n)) := by
    have hsum : m + (2 ^ 32 - (m - n)) = n + 2 ^ 32 := by omega
    rw [advance_advance, hsum, advance_add_two_pow]
  rw [hround, distance_advance_of_lt (by omega)]

/-- The two ways between two numbers are once around the ring. -/
theorem distance_add_distance (h : s ≠ t) : distance s t + distance t s = 2 ^ 32 := by
  have hlt := distance_lt s t
  have hpos : 0 < distance s t := by
    apply Nat.pos_of_ne_zero
    intro hzero
    have hself := advance_distance s t
    rw [hzero, advance_zero] at hself
    exact h hself
  have hback := distance_advance_advance_of_lt (s := s) hpos (by omega)
  rw [advance_distance, advance_zero] at hback
  omega

theorem seqLE_antisymm (hle : seqLE s t) (hge : seqLE t s) : s = t := by
  by_contra hne
  have hround := distance_add_distance hne
  rw [seqLE] at hle hge
  omega

theorem advance_inj (hm : m < n + 2 ^ 32) (hn : n < m + 2 ^ 32) :
    advance s m = advance s n ↔ m = n := by
  constructor
  · intro heq
    rcases Nat.lt_trichotomy m n with hlt | heq' | hlt
    · have hdistance := distance_advance_advance (s := s) (Nat.le_of_lt hlt) (by omega)
      rw [heq, distance_self] at hdistance
      omega
    · exact heq'
    · have hdistance := distance_advance_advance (s := s) (Nat.le_of_lt hlt) (by omega)
      rw [heq, distance_self] at hdistance
      omega
  · rintro rfl
    rfl

theorem seqLE_advance_iff (hm : m ≤ n + 2 ^ 31) (hn : n < m + 2 ^ 31) :
    seqLE (advance s m) (advance s n) ↔ m ≤ n := by
  rw [seqLE]
  rcases Nat.lt_or_ge n m with hlt | hle
  · rw [distance_advance_advance_of_lt hlt (by omega)]
    omega
  · rw [distance_advance_advance hle (by omega)]
    omega

theorem seqLess_advance_iff (hm : m ≤ n + 2 ^ 31) (hn : n < m + 2 ^ 31) :
    seqLess (advance s m) (advance s n) ↔ m < n := by
  have hle : distance (advance s m) (advance s n) < 2 ^ 31 ↔ m ≤ n := seqLE_advance_iff hm hn
  rw [seqLess, hle, Ne, advance_inj (by omega) (by omega)]
  omega

theorem seqGE_advance_iff (hm : m < n + 2 ^ 31) (hn : n ≤ m + 2 ^ 31) :
    seqGE (advance s m) (advance s n) ↔ n ≤ m :=
  seqLE_advance_iff hn hm

theorem seqMin_advance (hm : m ≤ n + 2 ^ 31) (hn : n < m + 2 ^ 31) :
    seqMin (advance s m) (advance s n) = advance s (min m n) := by
  have hle : distance (advance s m) (advance s n) < 2 ^ 31 ↔ m ≤ n := seqLE_advance_iff hm hn
  rw [seqMin, Nat.min_def, apply_ite (advance s)]
  exact if_congr hle rfl rfl

theorem seqMax_advance (hm : m < n + 2 ^ 31) (hn : n ≤ m + 2 ^ 31) :
    seqMax (advance s m) (advance s n) = advance s (max m n) := by
  have hle : distance (advance s n) (advance s m) < 2 ^ 31 ↔ n ≤ m := seqLE_advance_iff hn hm
  rw [seqMax, Nat.max_comm, Nat.max_def, apply_ite (advance s)]
  exact if_congr hle rfl rfl

end Inet4.Tcp
