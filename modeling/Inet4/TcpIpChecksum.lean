import Inet4.Kernel
import Inet4.OnesComplement

/-!
# The TCP/IP checksum

`TcpIpChecksum` has two sums: one of the bytes at an address, two at a time, and one of a vector,
byte by byte.  Both add up in 32 bits and fold the carries back whenever bit 31 gets set, and as
often as necessary at the end.
-/

namespace Inet4.TcpIpChecksum

open List BitVec Nat
open OnesComplement (digit_lt digit_fold digit_of_lt sum_eq_digit)

/-- What both loops do after an addition. -/
def foldIfHigh (sum : BitVec 32) : BitVec 32 :=
  if sum &&& 0x80000000#32 ≠ 0#32 then (sum &&& 0xFFFF#32) + (sum >>> 16) else sum

/-- `while (sum >> 16)`, for at most `fuel` tests. -/
def foldCarries : ℕ → BitVec 32 → Except SimulationError (BitVec 16)
  | 0, _ => .error .notReturned
  | fuel + 1, sum =>
    if sum >>> 16 ≠ 0#32 then foldCarries fuel ((sum &&& 0xFFFF#32) + (sum >>> 16))
    else .ok (sum.setWidth 16)

/-- `(addr[0] << 8) | addr[1]`. -/
def wordOf (high low : BitVec 8) : BitVec 32 := (high.setWidth 32 <<< 8) ||| low.setWidth 32

/-- The loop over the bytes at an address and the odd byte behind it. -/
def addWords : BitVec 32 → List (BitVec 8) → BitVec 32
  | sum, high :: low :: rest => addWords (foldIfHigh (sum + wordOf high low)) rest
  | sum, [last] => sum + (last.setWidth 32 <<< 8)
  | sum, [] => sum

variable (bytes : List (BitVec 8))

/-- `_checksum` of the bytes at an address. -/
def checksumAt : Except SimulationError (BitVec 16) :=
  foldCarries 3 (addWords 0#32 bytes)

/-- The loop over a vector, from the element `i` on. -/
def addBytes : ℕ → BitVec 32 → List (BitVec 8) → BitVec 32
  | _, sum, [] => sum
  | i, sum, byte :: rest =>
    let value := if i &&& 1 ≠ 0 then byte.setWidth 32 else byte.setWidth 32 <<< 8
    addBytes (i + 1) (foldIfHigh (sum + value)) rest

variable (vec : List (BitVec 8))

/-- `_checksum` of a vector. -/
def checksumOf : Except SimulationError (BitVec 16) :=
  foldCarries 3 (addBytes 0 0#32 vec)

/-- `checksum` of a vector. -/
def checksum : Except SimulationError (BitVec 16) := do
  let sum ← checksumOf vec
  return ~~~sum

/-- The big-endian words of a byte sequence; a last odd byte is padded with zeros. -/
def words : List (BitVec 8) → List ℕ
  | high :: low :: rest => (high.toNat * 256 + low.toNat) :: words rest
  | [last] => [last.toNat * 256]
  | [] => []

/-- The one's complement sum of a byte sequence. -/
def onesComplementSum : ℕ := OnesComplement.sum (2 ^ 16) (words bytes)

theorem words_lt {bytes : List (BitVec 8)} : ∀ word ∈ words bytes, word < 2 ^ 16 := by
  induction bytes using words.induct with
  | case1 high low rest ih =>
    intro word hword
    cases hword with
    | head => have hhigh := high.isLt; have hlow := low.isLt; omega
    | tail _ hrest => exact ih word hrest
  | case2 last =>
    intro word hword
    have hlast := last.isLt
    rw [mem_singleton.mp hword]
    omega
  | case3 => intro word hword; cases hword

theorem onesComplementSum_eq_digit :
    onesComplementSum bytes = OnesComplement.digit (2 ^ 16) (words bytes).sum :=
  sum_eq_digit (by decide) words_lt

theorem words_append {first : List (BitVec 8)} (heven : first.length % 2 = 0)
    (second : List (BitVec 8)) : words (first ++ second) = words first ++ words second := by
  induction first using words.induct with
  | case1 high low rest ih =>
    have hrest : rest.length % 2 = 0 := by
      rw [length_cons, length_cons] at heven
      omega
    exact congrArg _ (ih hrest)
  | case2 last => exact absurd heven one_ne_zero
  | case3 => rfl

/-- Only zeros add up to zero. -/
theorem sum_words_pos {bytes : List (BitVec 8)} {byte : BitVec 8} (hmem : byte ∈ bytes)
    (hbyte : byte ≠ 0) : 0 < (words bytes).sum := by
  have hpos : 0 < byte.toNat := pos_of_ne_zero fun hzero ↦ hbyte (eq_of_toNat_eq hzero)
  induction bytes using words.induct with
  | case1 high low rest ih =>
    rw [words, sum_cons]
    rcases mem_cons.mp hmem with hhigh | htail
    · rw [← hhigh]
      omega
    · rcases mem_cons.mp htail with hlow | hrest
      · rw [← hlow]
        omega
      · exact Nat.add_pos_right _ (ih hrest)
  | case2 last =>
    rw [words, sum_singleton, ← mem_singleton.mp hmem]
    omega
  | case3 => cases hmem

variable {sum : BitVec 32}

theorem toNat_foldedSum (sum : BitVec 32) :
    ((sum &&& 0xFFFF#32) + (sum >>> 16)).toNat = OnesComplement.fold (2 ^ 16) sum.toNat := by
  have hlt := sum.isLt
  have hlow : (sum &&& 0xFFFF#32).toNat = sum.toNat % 2 ^ 16 := by
    rw [toNat_and]
    exact and_two_pow_sub_one_eq_mod sum.toNat 16
  have hhigh : (sum >>> 16).toNat = sum.toNat / 2 ^ 16 := by
    rw [toNat_ushiftRight, shiftRight_eq_div_pow]
  rw [toNat_add, hlow, hhigh]
  exact mod_eq_of_lt (by omega)

theorem lt_of_and_eq_zero (h : sum &&& 0x80000000#32 = 0#32) : sum.toNat < 2 ^ 31 := by
  have hbit : (sum &&& 0x80000000#32).getLsbD 31 = false := by rw [h]; rfl
  have hmsb : sum.msb = false := by
    rw [getLsbD_and] at hbit
    rw [msb_eq_getLsbD_last]
    simpa using hbit
  have htwo := msb_eq_false_iff_two_mul_lt.mp hmsb
  omega

/-- The accumulator has room for another word and folds to the same digit as the number `n`. -/
structure Accumulates (sum : BitVec 32) (n : ℕ) : Prop where
  lt : sum.toNat < 2 ^ 31
  digit_eq : OnesComplement.digit (2 ^ 16) sum.toNat = OnesComplement.digit (2 ^ 16) n

theorem accumulates_zero : Accumulates 0#32 0 where
  lt := by decide
  digit_eq := rfl

theorem digit_foldIfHigh (sum : BitVec 32) :
    OnesComplement.digit (2 ^ 16) (foldIfHigh sum).toNat =
      OnesComplement.digit (2 ^ 16) sum.toNat := by
  unfold foldIfHigh
  split
  · rw [toNat_foldedSum]
    exact digit_fold (by decide) sum.toNat
  · rfl

theorem foldIfHigh_lt (sum : BitVec 32) : (foldIfHigh sum).toNat < 2 ^ 31 := by
  unfold foldIfHigh
  split
  · have hlt := sum.isLt
    rw [toNat_foldedSum, OnesComplement.fold]
    omega
  · rename_i hzero
    exact lt_of_and_eq_zero (not_not.mp hzero)

theorem Accumulates.toNat_add {n : ℕ} {value : BitVec 32} (h : Accumulates sum n)
    (hvalue : value.toNat < 2 ^ 16) : (sum + value).toNat = sum.toNat + value.toNat := by
  have hlt := h.lt
  rw [BitVec.toNat_add]
  exact mod_eq_of_lt (by omega)

theorem Accumulates.digit_add {n : ℕ} {value : BitVec 32} (h : Accumulates sum n)
    (hvalue : value.toNat < 2 ^ 16) :
    OnesComplement.digit (2 ^ 16) (sum + value).toNat =
      OnesComplement.digit (2 ^ 16) (n + value.toNat) := by
  rw [h.toNat_add hvalue]
  exact OnesComplement.digit_congr_add h.digit_eq value.toNat

/-- One round of a loop. -/
theorem Accumulates.add {n : ℕ} {value : BitVec 32} (h : Accumulates sum n)
    (hvalue : value.toNat < 2 ^ 16) :
    Accumulates (foldIfHigh (sum + value)) (n + value.toNat) where
  lt := foldIfHigh_lt _
  digit_eq := (digit_foldIfHigh _).trans (h.digit_add hvalue)

theorem toNat_low (low : BitVec 8) : (low.setWidth 32).toNat = low.toNat := by
  have hlt := low.isLt
  rw [toNat_setWidth]
  exact mod_eq_of_lt (by omega)

theorem toNat_high (high : BitVec 8) : (high.setWidth 32 <<< 8).toNat = high.toNat * 256 := by
  have hlt := high.isLt
  rw [toNat_shiftLeft, toNat_low, Nat.shiftLeft_eq]
  exact mod_eq_of_lt (by omega)

theorem toNat_wordOf (high low : BitVec 8) :
    (wordOf high low).toNat = high.toNat * 256 + low.toNat :=
  calc
    (wordOf high low).toNat = high.toNat * 256 ||| low.toNat := by
      rw [wordOf, toNat_or, toNat_high, toNat_low]
    _ = high.toNat <<< 8 ||| low.toNat := by
      rw [Nat.shiftLeft_eq]
    _ = high.toNat <<< 8 + low.toNat :=
      (shiftLeft_add_eq_or_of_lt low.isLt high.toNat).symm
    _ = high.toNat * 256 + low.toNat := by
      rw [Nat.shiftLeft_eq]

theorem addBytes_of_even {i : ℕ} (heven : i % 2 = 0) (sum : BitVec 32) (high : BitVec 8)
    (rest : List (BitVec 8)) :
    addBytes i sum (high :: rest) =
      addBytes (i + 1) (foldIfHigh (sum + (high.setWidth 32 <<< 8))) rest := by
  have hbit : ¬i &&& 1 ≠ 0 := by
    rw [and_one_is_mod]
    omega
  rw [addBytes, if_neg hbit]

theorem addBytes_of_odd {i : ℕ} (hodd : i % 2 = 1) (sum : BitVec 32) (low : BitVec 8)
    (rest : List (BitVec 8)) :
    addBytes i sum (low :: rest) = addBytes (i + 1) (foldIfHigh (sum + low.setWidth 32)) rest := by
  have hbit : i &&& 1 ≠ 0 := by
    rw [and_one_is_mod]
    omega
  rw [addBytes, if_pos hbit]

theorem digit_addWords {n : ℕ} (h : Accumulates sum n) (bytes : List (BitVec 8)) :
    OnesComplement.digit (2 ^ 16) (addWords sum bytes).toNat =
      OnesComplement.digit (2 ^ 16) (n + (words bytes).sum) := by
  induction bytes using words.induct generalizing sum n with
  | case1 high low rest ih =>
    have hword := toNat_wordOf high low
    have hlt : (wordOf high low).toNat < 2 ^ 16 := by
      have hhigh := high.isLt
      have hlow := low.isLt
      omega
    rw [addWords, ih (h.add hlt), hword, words, sum_cons, add_assoc]
  | case2 last =>
    have hword := toNat_high last
    have hlt : (last.setWidth 32 <<< 8).toNat < 2 ^ 16 := by
      have hlast := last.isLt
      omega
    rw [addWords, h.digit_add hlt, hword, words, sum_singleton]
  | case3 => exact h.digit_eq

theorem digit_addBytes {n i : ℕ} (h : Accumulates sum n) (heven : i % 2 = 0)
    (bytes : List (BitVec 8)) :
    OnesComplement.digit (2 ^ 16) (addBytes i sum bytes).toNat =
      OnesComplement.digit (2 ^ 16) (n + (words bytes).sum) := by
  induction bytes using words.induct generalizing sum n i with
  | case1 high low rest ih =>
    have hhigh : (high.setWidth 32 <<< 8).toNat < 2 ^ 16 := by
      have hlt := high.isLt
      rw [toNat_high]
      omega
    have hlow : (low.setWidth 32).toNat < 2 ^ 16 := by
      have hlt := low.isLt
      rw [toNat_low]
      omega
    have hword := (h.add hhigh).add hlow
    rw [addBytes_of_even heven, addBytes_of_odd (by omega), ih hword (by omega), toNat_high,
      toNat_low, words, sum_cons, add_assoc, add_assoc, add_assoc]
  | case2 last =>
    have hlast : (last.setWidth 32 <<< 8).toNat < 2 ^ 16 := by
      have hlt := last.isLt
      rw [toNat_high]
      omega
    have hword := h.add hlast
    rw [addBytes_of_even heven, addBytes, hword.digit_eq, toNat_high, words, sum_singleton]
  | case3 => exact h.digit_eq

/-- The bits of the digit that a number folds to. -/
def digitBits (n : ℕ) : BitVec 16 := BitVec.ofNat 16 (OnesComplement.digit (2 ^ 16) n)

theorem toNat_digitBits (n : ℕ) : (digitBits n).toNat = OnesComplement.digit (2 ^ 16) n :=
  mod_eq_of_lt (digit_lt (by decide) n)

theorem setWidth_eq_digitBits (h : sum.toNat < 2 ^ 16) : sum.setWidth 16 = digitBits sum.toNat := by
  apply eq_of_toNat_eq
  rw [toNat_digitBits, digit_of_lt h, toNat_setWidth]
  exact mod_eq_of_lt h

theorem ushiftRight_eq_zero_iff (sum : BitVec 32) : sum >>> 16 = 0#32 ↔ sum.toNat < 2 ^ 16 := by
  have hdiv : (sum >>> 16).toNat = sum.toNat / 2 ^ 16 := by
    rw [toNat_ushiftRight, shiftRight_eq_div_pow]
  rw [← toNat_inj, hdiv, toNat_ofNat]
  omega

theorem foldCarries_of_lt {fuel : ℕ} (h : sum.toNat < 2 ^ 16) :
    foldCarries (fuel + 1) sum = .ok (digitBits sum.toNat) := by
  have hzero : ¬sum >>> 16 ≠ 0#32 := not_not.mpr ((ushiftRight_eq_zero_iff sum).mpr h)
  rw [foldCarries, if_neg hzero, setWidth_eq_digitBits h]

/-- One round of the loop keeps the digit. -/
theorem foldCarries_of_fold {fuel : ℕ}
    (h : ∀ folded : BitVec 32, folded.toNat = OnesComplement.fold (2 ^ 16) sum.toNat →
      foldCarries (fuel + 1) folded = .ok (digitBits folded.toNat)) :
    foldCarries (fuel + 2) sum = .ok (digitBits sum.toNat) := by
  by_cases hlt : sum.toNat < 2 ^ 16
  · exact foldCarries_of_lt hlt
  · have hne : sum >>> 16 ≠ 0#32 := mt (ushiftRight_eq_zero_iff sum).mp hlt
    have hfold := toNat_foldedSum sum
    rw [foldCarries, if_pos hne, h _ hfold, digitBits, digitBits, hfold,
      digit_fold (by decide)]

/-- Two rounds are enough. -/
theorem foldCarries_eq (sum : BitVec 32) : foldCarries 3 sum = .ok (digitBits sum.toNat) := by
  apply foldCarries_of_fold
  intro first hfirst
  apply foldCarries_of_fold
  intro second hsecond
  apply foldCarries_of_lt
  have hlt := sum.isLt
  unfold OnesComplement.fold at hfirst hsecond
  omega

/-- The sum of the bytes at an address is their one's complement sum. -/
theorem checksumAt_eq : checksumAt bytes = .ok (BitVec.ofNat 16 (onesComplementSum bytes)) := by
  rw [checksumAt, foldCarries_eq, digitBits, digit_addWords accumulates_zero, zero_add,
    onesComplementSum_eq_digit]

/-- The sum of a vector is its one's complement sum. -/
theorem checksumOf_eq : checksumOf vec = .ok (BitVec.ofNat 16 (onesComplementSum vec)) := by
  rw [checksumOf, foldCarries_eq, digitBits, digit_addBytes accumulates_zero (zero_mod 2),
    zero_add, onesComplementSum_eq_digit]

theorem onesComplementSum_lt : onesComplementSum bytes < 2 ^ 16 := by
  rw [onesComplementSum_eq_digit]
  exact digit_lt (by decide) _

/-- The complement of a digit, as a word. -/
theorem toNat_not_ofNat {n : ℕ} (hn : n < 2 ^ 16) :
    (~~~BitVec.ofNat 16 n).toNat = 2 ^ 16 - 1 - n := by
  rw [toNat_not, toNat_ofNat, mod_eq_of_lt hn]

theorem checksum_eq : checksum vec = .ok (~~~BitVec.ofNat 16 (onesComplementSum vec)) := by
  rw [checksum, checksumOf_eq]
  rfl

end Inet4.TcpIpChecksum
