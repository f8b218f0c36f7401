import Mathlib

/-!
# Bits packed into bytes

A list of bytes read as a sequence of bits, the most significant bit of a byte first, and unsigned
values that are put together from bytes at given shifts.  Positions past the last byte read as zero.
-/

namespace Inet4.BitPacking

open List

variable {data : List (BitVec 8)} {v : BitVec 8} {i j k : ℕ}

/-- The bit at position `i`. -/
def bitAt (data : List (BitVec 8)) (i : ℕ) : Bool := (data.getD (i / 8) 0#8).getMsbD (i % 8)

variable (bits : ℕ → Bool)

/-- The byte whose bits are `bits 0`, …, `bits 7`. -/
def byteOf : BitVec 8 := BitVec.ofFnBE fun j : Fin 8 ↦ bits j

@[simp]
theorem getMsbD_byteOf (hj : j < 8) : (byteOf bits).getMsbD j = bits j := by
  rw [byteOf, BitVec.getMsbD_ofFnBE, dif_pos hj]

theorem byteOf_eq {bits : ℕ → Bool} (h : ∀ j < 8, bits j = v.getMsbD j) : byteOf bits = v := by
  apply BitVec.eq_of_getMsbD_eq
  intro j hj
  rw [getMsbD_byteOf bits hj, h j hj]

theorem byteOf_congr {bits bits' : ℕ → Bool} (h : ∀ j < 8, bits j = bits' j) :
    byteOf bits = byteOf bits' := by
  apply byteOf_eq
  intro j hj
  rw [getMsbD_byteOf bits' hj, h j hj]

@[simp]
theorem bitAt_nil : bitAt [] i = false := by
  simp [bitAt]

theorem bitAt_of_length_le (h : 8 * data.length ≤ i) : bitAt data i = false := by
  have hindex : data.length ≤ i / 8 := by omega
  simp [bitAt, getD, getElem?_eq_none hindex]

theorem bitAt_append_singleton (data : List (BitVec 8)) (v : BitVec 8) (i : ℕ) :
    bitAt (data ++ [v]) i = if i / 8 = data.length then v.getMsbD (i % 8) else bitAt data i := by
  unfold bitAt getD
  split
  · rename_i hindex
    rw [hindex, getElem?_concat_length]
    rfl
  · rename_i hindex
    rcases Nat.lt_or_gt_of_ne hindex with hlt | hgt
    · rw [getElem?_append_left hlt]
    · have hout : (data ++ [v]).length ≤ i / 8 := by
        rw [length_append, length_singleton]
        exact hgt
      rw [getElem?_eq_none hout, getElem?_eq_none (Nat.le_of_lt hgt)]

theorem bitAt_append_zero (data : List (BitVec 8)) (i : ℕ) :
    bitAt (data ++ [0#8]) i = bitAt data i := by
  rw [bitAt_append_singleton]
  split
  · rename_i hindex
    rw [bitAt_of_length_le (by omega)]
    simp
  · rfl

theorem bitAt_modify (hk : k < data.length) (f : BitVec 8 → BitVec 8) (i : ℕ) :
    bitAt (data.modify k f) i =
      if i / 8 = k then (f (data.getD k 0#8)).getMsbD (i % 8) else bitAt data i := by
  unfold bitAt getD
  split
  · rename_i hindex
    rw [hindex, getElem?_modify_eq, getElem?_eq_getElem hk]
    rfl
  · rename_i hindex
    rw [getElem?_modify_ne _ _ (Ne.symm hindex)]

/-- Marking bits in one byte adds them to the bits of the sequence. -/
theorem bitAt_modify_or (hk : k < data.length) (mask : BitVec 8) (i : ℕ) :
    bitAt (data.modify k (· ||| mask)) i =
      (bitAt data i || (decide (i / 8 = k) && mask.getMsbD (i % 8))) := by
  rw [bitAt_modify hk]
  split
  · rename_i hindex
    simp [bitAt, hindex]
  · rename_i hindex
    simp [hindex]

/-- The bits of a byte. -/
def byteBits (v : BitVec 8) : List Bool := ofFn fun j : Fin 8 ↦ v.getMsbD j

@[simp]
theorem length_byteBits (v : BitVec 8) : (byteBits v).length = 8 := length_ofFn

theorem getD_byteBits (v : BitVec 8) (j : ℕ) : (byteBits v).getD j false = v.getMsbD j := by
  by_cases hj : j < 8
  · rw [byteBits, List.getD, List.getElem?_ofFn, dif_pos hj]
    rfl
  · have hout : (byteBits v).length ≤ j := by
      rw [length_byteBits]
      omega
    rw [List.getD, List.getElem?_eq_none hout, BitVec.getMsbD_of_ge v j (by omega)]
    rfl

theorem length_flatMap_byteBits (bytes : List (BitVec 8)) :
    (bytes.flatMap byteBits).length = 8 * bytes.length := by
  induction bytes with
  | nil => rfl
  | cons v bytes ih =>
    rw [flatMap_cons, length_append, length_byteBits, ih, length_cons]
    omega

theorem getD_flatMap_byteBits (bytes : List (BitVec 8)) (i : ℕ) :
    (bytes.flatMap byteBits).getD i false = bitAt bytes i := by
  induction bytes generalizing i with
  | nil => simp
  | cons v bytes ih =>
    rw [flatMap_cons]
    by_cases hi : i < 8
    · have hdiv : i / 8 = 0 := by omega
      have hmod : i % 8 = i := by omega
      have hlt : i < (byteBits v).length := by rwa [length_byteBits]
      rw [getD, getElem?_append_left hlt, ← getD, getD_byteBits, bitAt, hdiv, hmod]
      rfl
    · have hdiv : i / 8 = (i - 8) / 8 + 1 := by omega
      have hmod : (i - 8) % 8 = i % 8 := by omega
      have hle : (byteBits v).length ≤ i := by
        rw [length_byteBits]
        omega
      rw [getD, getElem?_append_right hle, length_byteBits, ← getD, ih, bitAt,
        bitAt, hdiv, hmod, getD_cons_succ]

/-- The first `n` bytes of a sequence of bits. -/
def bytesFrom (n : ℕ) : List (BitVec 8) :=
  (range n).map fun k ↦ byteOf fun j ↦ bits (8 * k + j)

@[simp]
theorem length_bytesFrom (n : ℕ) : (bytesFrom bits n).length = n := by
  simp [bytesFrom]

theorem bitAt_bytesFrom {n : ℕ} (hi : i < 8 * n) : bitAt (bytesFrom bits n) i = bits i := by
  have hindex : i / 8 < n := by omega
  have hsum : 8 * (i / 8) + i % 8 = i := by omega
  rw [bitAt, bytesFrom, getD, getElem?_map, getElem?_range hindex]
  simp [getMsbD_byteOf _ (Nat.mod_lt i (by decide : 0 < 8)), hsum]

theorem bytesFrom_eq_iff {bits : ℕ → Bool} {bytes : List (BitVec 8)} {n : ℕ}
    (hn : bytes.length = n) : bytesFrom bits n = bytes ↔ ∀ i < 8 * n, bits i = bitAt bytes i := by
  constructor
  · intro h i hi
    rw [← h, bitAt_bytesFrom bits hi]
  · intro h
    apply ext_getElem
    · rw [length_bytesFrom, hn]
    intro k hk hk'
    simp only [bytesFrom, getElem_map, getElem_range]
    apply byteOf_eq
    intro j hj
    have hdiv : (8 * k + j) / 8 = k := by omega
    have hmod : (8 * k + j) % 8 = j := by omega
    rw [h (8 * k + j) (by omega), bitAt, hdiv, hmod, getD, getElem?_eq_getElem hk']
    rfl

theorem bytesFrom_succ (n : ℕ) :
    bytesFrom bits (n + 1) = byteOf bits :: bytesFrom (fun i ↦ bits (8 + i)) n := by
  have hhead : (byteOf fun j ↦ bits (8 * 0 + j)) = byteOf bits := by
    apply byteOf_congr
    intro j _
    rw [Nat.mul_zero, Nat.zero_add]
  have htail : ∀ k, (byteOf fun j ↦ bits (8 * Nat.succ k + j)) =
      byteOf fun j ↦ bits (8 + (8 * k + j)) := by
    intro k
    apply byteOf_congr
    intro j _
    have hsum : 8 * Nat.succ k + j = 8 + (8 * k + j) := by omega
    rw [hsum]
  simp only [bytesFrom, range_succ_eq_map, map_cons, map_map, Function.comp_def,
    hhead, htail]

variable {w shift : ℕ} {shifts : List ℕ} {value acc : BitVec w} {bytes : List (BitVec 8)}

/-- The bytes of `value` at the given shifts. -/
def bytesAt (shifts : List ℕ) (value : BitVec w) : List (BitVec 8) :=
  shifts.map fun shift ↦ (value >>> shift).setWidth 8

/-- Adds a byte at the given shift. -/
def orByte (acc : BitVec w) (shift : ℕ) (byte : BitVec 8) : BitVec w :=
  acc ||| (byte.setWidth w <<< shift)

/-- Adds the bytes, each at the shift of the same position. -/
def orBytes (acc : BitVec w) (shifts : List ℕ) (bytes : List (BitVec 8)) : BitVec w :=
  (shifts.zip bytes).foldl (fun acc part ↦ orByte acc part.1 part.2) acc

theorem getLsbD_orByte (acc : BitVec w) (shift : ℕ) (byte : BitVec 8) (i : ℕ) :
    (orByte acc shift byte).getLsbD i =
      (acc.getLsbD i || (decide (i < w) && decide (shift ≤ i) && byte.getLsbD (i - shift))) := by
  have hdec : (!decide (i < shift)) = decide (shift ≤ i) := by
    rw [← decide_not, decide_eq_decide, Nat.not_lt]
  simp only [orByte, BitVec.getLsbD_or, BitVec.getLsbD_shiftLeft, BitVec.getLsbD_setWidth, hdec]
  by_cases hi : i < w
  · have hsub : i - shift < w := Nat.lt_of_le_of_lt (Nat.sub_le i shift) hi
    simp [hi, hsub]
  · simp [hi]

theorem getLsbD_foldl_orByte (parts : List (ℕ × BitVec 8)) (acc : BitVec w) (i : ℕ) :
    (parts.foldl (fun acc part ↦ orByte acc part.1 part.2) acc).getLsbD i =
      (acc.getLsbD i ||
        (decide (i < w) && parts.any fun part ↦
          decide (part.1 ≤ i) && part.2.getLsbD (i - part.1))) := by
  induction parts generalizing acc with
  | nil => simp
  | cons part parts ih =>
    rw [foldl_cons, ih, getLsbD_orByte, any_cons, Bool.and_or_distrib_left,
      ← Bool.or_assoc, Bool.and_assoc]

theorem getLsbD_orBytes (acc : BitVec w) (shifts : List ℕ) (bytes : List (BitVec 8)) (i : ℕ) :
    (orBytes acc shifts bytes).getLsbD i =
      (acc.getLsbD i ||
        (decide (i < w) && (shifts.zip bytes).any fun part ↦
          decide (part.1 ≤ i) && part.2.getLsbD (i - part.1))) :=
  getLsbD_foldl_orByte _ _ _

/-- A value is its bytes when the shifts reach each bit of it. -/
theorem orBytes_bytesAt (value : BitVec w)
    (hcover : ∀ i, value.getLsbD i = true → ∃ shift ∈ shifts, shift ≤ i ∧ i < shift + 8) :
    orBytes 0#w shifts (bytesAt shifts value) = value := by
  apply BitVec.eq_of_getLsbD_eq
  intro i hi
  have hzip : shifts.zip (bytesAt shifts value) =
      shifts.map fun shift ↦ (shift, (value >>> shift).setWidth 8) := by
    rw [bytesAt, ← map_prod_left_eq_zip]
  rw [getLsbD_orBytes, hzip, any_map, Bool.eq_iff_iff]
  simp only [BitVec.getLsbD_zero, Bool.false_or, Bool.and_eq_true, decide_eq_true_eq,
    any_eq_true, Function.comp_apply, BitVec.getLsbD_setWidth, BitVec.getLsbD_ushiftRight]
  constructor
  · intro ⟨_, shift, _, hle, _, hbit⟩
    rwa [Nat.add_sub_cancel' hle] at hbit
  · intro hbit
    obtain ⟨shift, hmem, hle, hlt⟩ := hcover i hbit
    refine ⟨hi, shift, hmem, hle, by omega, ?_⟩
    rwa [Nat.add_sub_cancel' hle]

/-- Bytes at different multiples of eight stay apart. -/
theorem bytesAt_orBytes (hlength : bytes.length = shifts.length) (hnodup : shifts.Nodup)
    (halign : ∀ shift ∈ shifts, 8 ∣ shift) (hfit : ∀ shift ∈ shifts, shift + 8 ≤ w) :
    bytesAt shifts (orBytes 0#w shifts bytes) = bytes := by
  apply ext_getElem
  · rw [bytesAt, length_map, hlength]
  intro n hn hn'
  have hshift : n < shifts.length := hlength ▸ hn'
  simp only [bytesAt, getElem_map]
  apply BitVec.eq_of_getLsbD_eq
  intro j hj
  have hfit' := hfit _ (getElem_mem hshift)
  have halign' := halign _ (getElem_mem hshift)
  have hi : shifts[n] + j < w := by omega
  rw [BitVec.getLsbD_setWidth, BitVec.getLsbD_ushiftRight, getLsbD_orBytes, Bool.eq_iff_iff]
  simp only [BitVec.getLsbD_zero, Bool.false_or, Bool.and_eq_true, decide_eq_true_eq,
    any_eq_true, hi, hj, true_and]
  constructor
  · intro ⟨part, hpart, hle, hbit⟩
    obtain ⟨m, hm, rfl⟩ := getElem_of_mem hpart
    rw [length_zip] at hm
    rw [getElem_zip] at hle hbit
    have hm' : m < shifts.length := by omega
    have hother := halign _ (getElem_mem hm')
    have hlt : shifts[n] + j - shifts[m] < 8 := BitVec.lt_of_getLsbD hbit
    have heq : shifts[m] = shifts[n] := by omega
    have hindex : m = n := (List.Nodup.getElem_inj_iff hnodup).mp heq
    subst hindex
    rwa [Nat.add_sub_cancel_left] at hbit
  · intro hbit
    have hn'' : n < (shifts.zip bytes).length := by
      rw [length_zip]
      omega
    refine ⟨(shifts.zip bytes)[n], getElem_mem hn'', ?_⟩
    rw [getElem_zip]
    exact ⟨Nat.le_add_right _ _, by rwa [Nat.add_sub_cancel_left]⟩

end Inet4.BitPacking
