import Mathlib.Tactic.Ring

/-!
# Transmission sequence numbers

A TSN is a 32-bit unsigned integer that wraps.  TSNs of integers that are less than half of the ring
apart compare as the integers do.
-/

namespace Inet4.Sctp

/-- `uint32` as a TSN. -/
abbrev Tsn := BitVec 32

/-- `SCTP_UINT32_GT` -/
def tsnGt (a b : Tsn) : Bool :=
  (a < b && 2 ^ 31 < (b - a).toNat) || (b < a && (a - b).toNat < 2 ^ 31)

/-- `SCTP_UINT32_GE` -/
def tsnGe (a b : Tsn) : Bool := tsnGt a b || a == b

def tsnLe (tsn1 tsn2 : Tsn) : Bool := tsnGe tsn2 tsn1

def tsnBetween (tsn1 midtsn tsn2 : Tsn) : Bool := tsnGe midtsn tsn1 && tsnGe tsn2 midtsn

/-- The TSN of an integer. -/
def Tsn.of (x : ℤ) : Tsn := BitVec.ofInt 32 x

variable {x y z : ℤ}

theorem Tsn.of_add_one (x : ℤ) : Tsn.of (x + 1) = Tsn.of x + 1 := BitVec.ofInt_add x 1

theorem Tsn.of_sub (x y : ℤ) : Tsn.of (x - y) = Tsn.of x - Tsn.of y := by
  apply BitVec.eq_of_toNat_eq
  simp only [Tsn.of, BitVec.toNat_sub, BitVec.toNat_ofInt]
  omega

theorem Tsn.of_sub_one (x : ℤ) : Tsn.of (x - 1) = Tsn.of x - 1 := Tsn.of_sub x 1

theorem Tsn.pos_iff_ne_zero {a : Tsn} : 0 < a ↔ a ≠ 0 := BitVec.pos_iff_ne_zero a

theorem Tsn.toNat_of_sub_of (x y : ℤ) :
    ((Tsn.of x - Tsn.of y).toNat : ℤ) = (x - y) % 2 ^ 32 := by
  rw [← Tsn.of_sub, Tsn.of, BitVec.toNat_ofInt]
  omega

theorem Tsn.of_eq_of_iff (hge : -2 ^ 32 < x - y) (hlt : x - y < 2 ^ 32) :
    Tsn.of x = Tsn.of y ↔ x = y := by
  constructor
  · intro heq
    have hsub := Tsn.toNat_of_sub_of x y
    rw [heq, BitVec.sub_self] at hsub
    have hzero : (0#32).toNat = 0 := rfl
    omega
  · rintro rfl
    rfl

theorem tsnGt_iff {a b : Tsn} : tsnGt a b = true ↔ 0 < (a - b).toNat ∧ (a - b).toNat < 2 ^ 31 := by
  simp only [tsnGt, Bool.or_eq_true, Bool.and_eq_true, decide_eq_true_eq, BitVec.lt_def,
    BitVec.toNat_sub]
  omega

/-- The comparison of TSNs whose integers are not too far apart. -/
theorem tsnGt_of_iff (hge : -2 ^ 31 ≤ x - y) (hlt : x - y < 2 ^ 31) :
    tsnGt (Tsn.of x) (Tsn.of y) = true ↔ y < x := by
  have hsub := Tsn.toNat_of_sub_of x y
  rw [tsnGt_iff]
  omega

theorem tsnGe_of_iff (hge : -2 ^ 31 ≤ x - y) (hlt : x - y < 2 ^ 31) :
    tsnGe (Tsn.of x) (Tsn.of y) = true ↔ y ≤ x := by
  have heq : Tsn.of x = Tsn.of y ↔ x = y := Tsn.of_eq_of_iff (by omega) (by omega)
  rw [tsnGe, Bool.or_eq_true, beq_iff_eq, tsnGt_of_iff hge hlt, heq, le_iff_lt_or_eq]
  exact or_congr_right eq_comm

theorem tsnLe_of_iff (hge : -2 ^ 31 ≤ y - x) (hlt : y - x < 2 ^ 31) :
    tsnLe (Tsn.of x) (Tsn.of y) = true ↔ x ≤ y := tsnGe_of_iff hge hlt

theorem tsnBetween_of_iff (hx : -2 ^ 31 ≤ y - x) (hx' : y - x < 2 ^ 31) (hz : -2 ^ 31 ≤ z - y)
    (hz' : z - y < 2 ^ 31) :
    tsnBetween (Tsn.of x) (Tsn.of y) (Tsn.of z) = true ↔ x ≤ y ∧ y ≤ z := by
  rw [tsnBetween, Bool.and_eq_true, tsnGe_of_iff hx hx', tsnGe_of_iff hz hz']

end Inet4.Sctp
