import Mathlib.Data.List.Basic
import Mathlib.Tactic.Ring

/-!
# Sequence numbers of 802.11

Sequence numbers count modulo 4096.  One of them is before another when the way on to it is shorter
than half of the ring; two numbers half of the ring apart are neither before one another nor equal,
so that the comparison is no order.  On the numbers less than half of the ring ahead of a base it is
the order of their distances from it.
-/

namespace Inet4.Ieee80211

open BitVec

abbrev SequenceNumber := BitVec 12

namespace SequenceNumber

/-- How far a sequence number is ahead of another one. -/
def offset (base s : SequenceNumber) : ℕ := (s - base).toNat

/-- `operator<`. -/
def less (a b : SequenceNumber) : Bool :=
  let d := offset a b
  0 < d && d < 2048

/-- `operator<=`. -/
def lessEq (a b : SequenceNumber) : Bool := a = b || less a b

/-- `operator>=`. -/
def greaterEq (a b : SequenceNumber) : Bool := a = b || less b a

variable {base a b : SequenceNumber} {n : ℕ}

@[simp]
theorem offset_self (base : SequenceNumber) : offset base base = 0 := by simp [offset]

theorem offset_lt (base s : SequenceNumber) : offset base s < 4096 := (s - base).isLt

theorem eq_of_offset_eq (h : offset base a = offset base b) : a = b := by
  have hsub : a - base = b - base := eq_of_toNat_eq h
  calc
    a = a - base + base := (BitVec.sub_add_cancel a base).symm
    _ = b - base + base := by rw [hsub]
    _ = b := BitVec.sub_add_cancel b base

theorem offset_eq_zero_iff : offset base a = 0 ↔ a = base := by
  rw [← offset_self base]
  exact ⟨eq_of_offset_eq, congrArg (offset base)⟩

theorem offset_add (base : SequenceNumber) (n : ℕ) :
    offset base (base + BitVec.ofNat 12 n) = n % 4096 := by
  unfold offset
  rw [BitVec.add_comm, BitVec.add_sub_cancel, BitVec.toNat_ofNat]

/-- The distance of two numbers from their distances to a base. -/
theorem offset_eq (base a b : SequenceNumber) :
    offset a b = (4096 - offset base a + offset base b) % 4096 := by
  have hsub : b - a = (b - base) - (a - base) := by
    apply eq_of_toNat_eq
    simp only [toNat_sub]
    omega
  unfold offset
  rw [hsub, toNat_sub]

/-- The distance from a base that is moved on. -/
theorem offset_of_le (h : offset base a ≤ offset base b) :
    offset a b = offset base b - offset base a := by
  have hlt := offset_lt base b
  rw [offset_eq base]
  omega

/-- The distance of a number that is moved on. -/
theorem offset_add_of_lt (h : offset base a + n < 4096) :
    offset base (a + BitVec.ofNat 12 n) = offset base a + n := by
  have hn := offset_add a n
  have heq := offset_eq base a (a + BitVec.ofNat 12 n)
  have hlt := offset_lt base (a + BitVec.ofNat 12 n)
  omega

@[simp]
theorem less_self (a : SequenceNumber) : less a a = false := by simp [less]

/-- Two numbers less than half of the ring apart, as seen from a base, are ordered. -/
theorem less_iff (hab : offset base a < offset base b + 2048)
    (hba : offset base b < offset base a + 2048) :
    less a b = true ↔ offset base a < offset base b := by
  have hb := offset_lt base b
  have heq := offset_eq base a b
  simp only [less, Bool.and_eq_true, decide_eq_true_eq]
  omega

theorem lessEq_iff_offset : lessEq a b = true ↔ offset a b < 2048 := by
  have hzero : offset a b = 0 ↔ b = a := offset_eq_zero_iff
  simp only [lessEq, less, Bool.or_eq_true, Bool.and_eq_true, decide_eq_true_eq]
  constructor
  · rintro (rfl | h)
    · simp
    · exact h.2
  · intro h
    rcases Nat.eq_zero_or_pos (offset a b) with heq | hpos
    · exact .inl (hzero.mp heq).symm
    · exact .inr ⟨hpos, h⟩

theorem not_less_of_lessEq (h : lessEq a b = true) : less b a = false := by
  have hlt := lessEq_iff_offset.mp h
  have heq := offset_eq a b a
  rw [offset_self] at heq
  rw [← Bool.not_eq_true]
  simp only [less, Bool.and_eq_true, decide_eq_true_eq]
  omega

end SequenceNumber

end Inet4.Ieee80211
