import Inet4.Fap.Host

/-!
# Filters that travel

A host sends its filter as the parameters `m` and `k` and a text of zeros and ones.  `UpdateFilter`
takes over `k` and the bits, but not `m`, from which the operations compute the bits of an address.
This file says which transfers preserve membership, and that a merge of equal filters does.
-/

namespace Inet4.Fap

open List BitVec
open Except (ok)

namespace BloomFilter

/-- The index that is computed in round `i` for a filter of `m` bits. -/
def bitIndex (m : BitVec 32) (item : Ipv4Address) (i : ℕ) : ℕ :=
  (nthHash (BitVec.ofNat 8 i) (murmurHash3_x64_128 item).1 (murmurHash3_x64_128 item).2
    (m.zeroExtend 64)).toNat

/-- The bits of an address in a filter with the parameters `m` and `k`. -/
def bits (m k : BitVec 32) (item : Ipv4Address) : Set ℕ :=
  {index | ∃ i < k.toNat, bitIndex m item i = index}

/-- The bit of round `i` can be read, and it is set. -/
structure Hit (f : BloomFilter) (item : Ipv4Address) (i : ℕ) : Prop where
  m_ne_zero : f.m ≠ 0
  index_lt : bitIndex f.m item i < f.Filter.length
  round_lt : i + 1 < 2 ^ 31
  isSet : f.Filter.getD (bitIndex f.m item i) false = true

variable {f f' g : BloomFilter} {item item' : Ipv4Address} {m k : BitVec 32} {i rounds : ℕ}

theorem position_eq_ok {index : ℕ} (h : f.position item i = .ok index) :
    f.m ≠ 0 ∧ bitIndex f.m item i < f.Filter.length ∧ i + 1 < 2 ^ 31 ∧ index =
      bitIndex f.m item i := by
  unfold position at h
  dsimp only at h
  split at h
  · rename_i hindex
    exact ⟨hindex.1, hindex.2.1, hindex.2.2, (ok.inj h).symm⟩
  · cases h

theorem position_of_lt (hm : f.m ≠ 0) (hindex : bitIndex f.m item i < f.Filter.length)
    (hround : i + 1 < 2 ^ 31) : f.position item i = .ok (bitIndex f.m item i) :=
  if_pos ⟨hm, hindex, hround⟩

theorem checkFrom_eq_true_iff : f.checkFrom item rounds i = .ok true ↔
    ∀ r, i ≤ r → r < i + rounds → f.Hit item r := by
  induction rounds generalizing i with
  | zero =>
    refine iff_of_true rfl fun r hle hlt ↦ ?_
    omega
  | succ rounds ih =>
    constructor
    · intro h
      obtain ⟨index, hposition, h⟩ := bind_eq_ok h
      obtain ⟨hm, hindex, hround, rfl⟩ := position_eq_ok hposition
      split at h
      · rename_i hset
        intro r hle hlt
        by_cases hr : r = i
        · exact hr ▸ ⟨hm, hindex, hround, hset⟩
        · exact ih.mp h r (by omega) (by omega)
      · cases h
    · intro h
      have hfirst := h i le_rfl (by omega)
      rw [checkFrom, bind_of_ok (position_of_lt hfirst.m_ne_zero hfirst.index_lt hfirst.round_lt),
        if_pos hfirst.isSet]
      exact ih.mpr fun r hle hlt ↦ h r (by omega) (by omega)

/-- `Check` answers true when all bits of the address are set. -/
theorem check_eq_true_iff : f.check item = .ok true ↔ ∀ i < f.k.toNat, f.Hit item i := by
  rw [check, checkFrom_eq_true_iff]
  simp

/-- `Check` answers false when it has read a bit that is not set. -/
theorem checkFrom_eq_false (h : f.checkFrom item rounds i = .ok false) :
    ∃ index < f.Filter.length, f.Filter.getD index false = false := by
  induction rounds generalizing i with
  | zero => cases ok.inj h
  | succ rounds ih =>
    obtain ⟨index, hposition, h⟩ := bind_eq_ok h
    split at h
    · exact ih h
    · rename_i hset
      obtain ⟨-, hindex, -, rfl⟩ := position_eq_ok hposition
      exact ⟨_, hindex, Bool.eq_false_of_not_eq_true hset⟩

/-- `Check` answers when all bits of the address are in the filter. -/
theorem exists_checkFrom (h : ∀ r, i ≤ r → r < i + rounds →
    f.m ≠ 0 ∧ bitIndex f.m item r < f.Filter.length ∧ r + 1 < 2 ^ 31) :
    ∃ answer, f.checkFrom item rounds i = .ok answer := by
  induction rounds generalizing i with
  | zero => exact ⟨true, rfl⟩
  | succ rounds ih =>
    obtain ⟨hm, hindex, hround⟩ := h i le_rfl (by omega)
    rw [checkFrom, bind_of_ok (position_of_lt hm hindex hround)]
    split
    · exact ih fun r hle hlt ↦ h r (by omega) (by omega)
    · exact ⟨false, rfl⟩

theorem exists_check (hm : f.m ≠ 0) (hk : f.k.toNat < 2 ^ 31)
    (hbits : ∀ index ∈ bits f.m f.k item, index < f.Filter.length) :
    ∃ answer, f.check item = .ok answer := by
  apply exists_checkFrom
  intro r _ hlt
  exact ⟨hm, hbits _ ⟨r, by omega, rfl⟩, by omega⟩

/-- An index is smaller than the size it is computed for. -/
theorem bitIndex_lt (hm : m ≠ 0) (item : Ipv4Address) (i : ℕ) : bitIndex m item i < m.toNat := by
  have hpos : 0 < m.toNat := by
    rw [Nat.pos_iff_ne_zero]
    intro hzero
    exact hm (eq_of_toNat_eq hzero)
  unfold bitIndex nthHash
  rw [toNat_umod, zeroExtend, toNat_setWidth_of_le (by decide)]
  exact Nat.mod_lt _ hpos

/-- A filter has as many bits as its parameter says. -/
def Sized (f : BloomFilter) : Prop := f.Filter.length = f.m.toNat

/-- The filter in which the bits of a set are set. -/
def ofBits (m k : BitVec 32) (s : Set ℕ) [DecidablePred (· ∈ s)] : BloomFilter where
  m
  k
  Filter := (range m.toNat).map fun index ↦ decide (index ∈ s)

instance (m k : BitVec 32) (item : Ipv4Address) : DecidablePred (· ∈ bits m k item) :=
  fun index ↦ inferInstanceAs (Decidable (∃ i < k.toNat, bitIndex m item i = index))

@[simp]
theorem length_ofBits (s : Set ℕ) [DecidablePred (· ∈ s)] :
    (ofBits m k s).Filter.length = m.toNat := by
  simp [ofBits]

theorem getD_ofBits (s : Set ℕ) [DecidablePred (· ∈ s)] {index : ℕ} (hindex : index < m.toNat) :
    (ofBits m k s).Filter.getD index false = true ↔ index ∈ s := by
  simp [ofBits, hindex]

/-- What `Check` answers for the bits of a set, read with a parameter of their own. -/
theorem check_ofBits_iff (s : Set ℕ) [DecidablePred (· ∈ s)] (m' : BitVec 32) :
    (⟨m', k, (ofBits m k s).Filter⟩ : BloomFilter).check item = .ok true ↔
      ∀ i < k.toNat, m' ≠ 0 ∧ i + 1 < 2 ^ 31 ∧ bitIndex m' item i < m.toNat ∧
        bitIndex m' item i ∈ s := by
  rw [check_eq_true_iff]
  constructor
  · intro h i hi
    have hhit := h i hi
    have hindex : bitIndex m' item i < m.toNat := by simpa using hhit.index_lt
    exact ⟨hhit.m_ne_zero, hhit.round_lt, hindex, (getD_ofBits (k := k) s hindex).mp hhit.isSet⟩
  · intro h i hi
    obtain ⟨hm, hround, hindex, hmem⟩ := h i hi
    exact ⟨hm, by simpa using hindex, hround, (getD_ofBits (k := k) s hindex).mpr hmem⟩

/-- With all bits set, `Check` does not answer false. -/
theorem check_ofBits_univ {m' : BitVec 32} {answer : Bool}
    (h : (⟨m', k, (ofBits m k Set.univ).Filter⟩ : BloomFilter).check item = .ok answer) :
    answer = true := by
  cases answer with
  | true => rfl
  | false =>
    obtain ⟨index, hindex, hset⟩ := checkFrom_eq_false h
    rw [length_ofBits] at hindex
    have htrue := (getD_ofBits (k := k) Set.univ hindex).mpr trivial
    exact absurd htrue (Bool.eq_false_iff.mp hset)

theorem length_invert (g : BloomFilter) : g.invert.length = g.Filter.length := by
  simp [invert]

/-- The text of a filter stands for its bits. -/
theorem map_invert (g : BloomFilter) : g.invert.map (fun c ↦ decide (c ≠ '0')) = g.Filter := by
  rw [invert, map_map]
  refine map_id'' (fun bit ↦ ?_) g.Filter
  cases bit <;> rfl

/-- A filter takes over the parameter `k` and the bits of another one, but keeps its own `m`. -/
theorem updateFilter_invert (node : Fap) (hlength : g.Sized) (hm : g.m.toNat < 2 ^ 31) :
    node.updateFilter g.m g.k g.invert =
      .ok { node with filter := ⟨node.filter.m, g.k, g.Filter⟩ } := by
  have hint : g.m.toInt = g.m.toNat := toInt_eq_toNat_of_lt (by omega)
  have hresize : ({ node.filter with k := g.k } : BloomFilter).resizeFilter g.m.toInt =
      .ok ⟨node.filter.m, g.k, replicate g.m.toNat false⟩ := by
    rw [resizeFilter, hint, if_pos (Int.natCast_nonneg _), Int.toNat_natCast]
  have hconvert : (⟨node.filter.m, g.k, replicate g.m.toNat false⟩ : BloomFilter).convert
      g.invert = .ok ⟨node.filter.m, g.k, g.Filter⟩ := by
    have hlength : g.Filter.length = g.m.toNat := hlength
    rw [convert, if_pos ⟨by simp [length_invert, hlength], by rwa [length_invert, hlength]⟩,
      map_invert]
    simp [length_invert, hlength]
  rw [updateFilter, bind_of_ok hresize, bind_of_ok hconvert]
  rfl

/-- The text of any filter is read to the end, and the remaining bits are not set. -/
theorem exists_rest_of_updateFilter {node node' : Fap}
    (h : node.updateFilter g.m g.k g.invert = .ok node') :
    ∃ rest, node' = { node with filter := ⟨node.filter.m, g.k, g.Filter ++ rest⟩ } := by
  obtain ⟨resized, hresize, h⟩ := bind_eq_ok h
  obtain ⟨converted, hconvert, rfl⟩ := bind_pure_eq_ok h
  unfold resizeFilter at hresize
  split at hresize
  · obtain rfl := ok.inj hresize
    unfold convert at hconvert
    split at hconvert
    · obtain rfl := ok.inj hconvert
      rw [map_invert]
      exact ⟨_, rfl⟩
    · cases hconvert
  · cases hresize

theorem lt_of_updateFilter {node node' : Fap} {value : CString}
    (h : node.updateFilter m k value = .ok node') : m.toNat < 2 ^ 31 := by
  obtain ⟨filter, hresize, -⟩ := bind_eq_ok h
  unfold resizeFilter at hresize
  split at hresize
  · rename_i hint
    rw [toInt_eq_toNat_cond] at hint
    split at hint <;> omega
  · cases hresize

/-- After a transfer the operations use the same bits as before it, all of which exist. -/
structure TransfersExactly (m k : BitVec 32) (node : Fap) : Prop where
  size_lt : m.toNat < 2 ^ 31
  bits_eq : k ≠ 0 → m ≠ 0 ∧ node.filter.m ≠ 0 ∧ k.toNat < 2 ^ 31 ∧
    ∀ item, bits node.filter.m k item = bits m k item

/-- A host that uses the same parameter `m` takes a filter over as it is. -/
theorem transfersExactly_of_m_eq {node : Fap} (hsize : m.toNat < 2 ^ 31) (hm : m ≠ 0)
    (hk : k.toNat < 2 ^ 31) (hlocal : node.filter.m = m) : TransfersExactly m k node := by
  refine ⟨hsize, fun _ ↦ ⟨hm, hlocal ▸ hm, hk, fun item ↦ ?_⟩⟩
  rw [hlocal]

/-- `Check` gives the same answers after the transfer of a filter as before it. -/
def AgreesAfterTransfer (g : BloomFilter) (node : Fap) : Prop :=
  ∃ node', node.updateFilter g.m g.k g.invert = .ok node' ∧
    ∀ item, ∃ answer, g.check item = .ok answer ∧ node'.filter.check item = .ok answer

/-- Only the bits of an address in a filter decide whether it is in it. -/
theorem check_eq_true_iff_of_bits (hm : f.m ≠ 0) (hk : f.k.toNat < 2 ^ 31)
    (hbits : ∀ index ∈ bits f.m f.k item, index < f.Filter.length) :
    f.check item = .ok true ↔ ∀ index ∈ bits f.m f.k item, f.Filter.getD index false = true := by
  rw [check_eq_true_iff]
  constructor
  · rintro h index ⟨i, hi, rfl⟩
    exact (h i hi).isSet
  · intro h i hi
    exact ⟨hm, hbits _ ⟨i, hi, rfl⟩, by omega, h _ ⟨i, hi, rfl⟩⟩

theorem lt_of_mem_bits (hm : m ≠ 0) {index : ℕ} (h : index ∈ bits m k item) : index < m.toNat := by
  obtain ⟨i, -, rfl⟩ := h
  exact bitIndex_lt hm item i

theorem check_of_k_eq_zero (hk : f.k = 0) : f.check item = .ok true := by
  rw [check, hk]
  rfl

/-- The condition is enough for the answers to agree. -/
theorem TransfersExactly.agrees {node : Fap} (h : TransfersExactly g.m g.k node)
    (hsized : g.Sized) : AgreesAfterTransfer g node := by
  refine ⟨_, updateFilter_invert node hsized h.size_lt, fun item ↦ ?_⟩
  by_cases hk : g.k = 0
  · exact ⟨true, check_of_k_eq_zero hk, check_of_k_eq_zero hk⟩
  obtain ⟨hm, hlocal, hrounds, hbits⟩ := h.bits_eq hk
  have hindex : ∀ index ∈ bits g.m g.k item, index < g.Filter.length := by
    intro index hindex
    rw [hsized]
    exact lt_of_mem_bits hm hindex
  have hindex' : ∀ index ∈ bits node.filter.m g.k item, index < g.Filter.length := by
    rw [hbits]
    exact hindex
  obtain ⟨answer, hanswer⟩ := exists_check hm hrounds hindex
  obtain ⟨answer', hanswer'⟩ :=
    exists_check (f := ⟨node.filter.m, g.k, g.Filter⟩) hlocal hrounds hindex'
  have hiff : answer = true ↔ answer' = true := by
    have htrue := check_eq_true_iff_of_bits hm hrounds hindex
    have htrue' := check_eq_true_iff_of_bits (f := ⟨node.filter.m, g.k, g.Filter⟩) hlocal hrounds
      hindex'
    rw [hanswer, ok.injEq] at htrue
    rw [hanswer', ok.injEq] at htrue'
    rw [htrue, htrue', hbits]
  obtain rfl := Bool.eq_iff_iff.mpr hiff
  exact ⟨answer, hanswer, hanswer'⟩

/-- The answers of all filters with the parameters `m` and `k` agree only under the condition. -/
theorem transfersExactly_of_agrees {node : Fap}
    (h : ∀ g : BloomFilter, g.m = m → g.k = k → g.Sized → AgreesAfterTransfer g node) :
    TransfersExactly m k node := by
  have hsize : m.toNat < 2 ^ 31 := by
    obtain ⟨node', hupdate, -⟩ := h (ofBits m k Set.univ) rfl rfl (length_ofBits _)
    exact lt_of_updateFilter hupdate
  have hagree : ∀ (s : Set ℕ) [DecidablePred (· ∈ s)] (item : Ipv4Address), ∃ answer,
      (⟨m, k, (ofBits m k s).Filter⟩ : BloomFilter).check item = .ok answer ∧
        (⟨node.filter.m, k, (ofBits m k s).Filter⟩ : BloomFilter).check item = .ok answer := by
    intro s hs item
    obtain ⟨node', hupdate, hagree⟩ := h (ofBits m k s) rfl rfl (length_ofBits s)
    rw [updateFilter_invert node (length_ofBits s) hsize] at hupdate
    obtain rfl := ok.inj hupdate
    exact hagree item
  -- All accesses before and after the transfer, from the filter with all bits set.
  have hall : ∀ item, ∀ i < k.toNat, (m ≠ 0 ∧ i + 1 < 2 ^ 31 ∧ bitIndex m item i < m.toNat) ∧
      node.filter.m ≠ 0 ∧ bitIndex node.filter.m item i < m.toNat := by
    intro item i hi
    obtain ⟨answer, hanswer, hanswer'⟩ := hagree Set.univ item
    obtain rfl := check_ofBits_univ hanswer
    obtain ⟨hm, hround, hindex, -⟩ := (check_ofBits_iff Set.univ m).mp hanswer i hi
    obtain ⟨hlocal, -, hindex', -⟩ := (check_ofBits_iff Set.univ node.filter.m).mp hanswer' i hi
    exact ⟨⟨hm, hround, hindex⟩, hlocal, hindex'⟩
  refine ⟨hsize, fun hk ↦ ?_⟩
  have hpos : 0 < k.toNat := by
    rw [Nat.pos_iff_ne_zero]
    intro hzero
    exact hk (eq_of_toNat_eq hzero)
  refine ⟨(hall 0 0 hpos).1.1, (hall 0 0 hpos).2.1, ?_, fun item ↦ ?_⟩
  · have hlast := (hall 0 (k.toNat - 1) (Nat.sub_lt hpos one_pos)).1.2.1
    omega
  apply Set.Subset.antisymm
  · -- The filter of the address itself answers true before the transfer.
    obtain ⟨answer, hanswer, hanswer'⟩ := hagree (bits m k item) item
    have htrue := (check_ofBits_iff (bits m k item) m).mpr fun i hi ↦
      ⟨(hall item i hi).1.1, (hall item i hi).1.2.1, (hall item i hi).1.2.2, i, hi, rfl⟩
    obtain rfl := ok.inj (hanswer.symm.trans htrue)
    rintro index ⟨i, hi, rfl⟩
    exact ((check_ofBits_iff _ _).mp hanswer' i hi).2.2.2
  · -- The filter with the bits that are read after the transfer answers true then.
    obtain ⟨answer, hanswer, hanswer'⟩ := hagree (bits node.filter.m k item) item
    have htrue := (check_ofBits_iff (bits node.filter.m k item) node.filter.m).mpr fun i hi ↦
      ⟨(hall item i hi).2.1, (hall item i hi).1.2.1, (hall item i hi).2.2, i, hi, rfl⟩
    obtain rfl := ok.inj (hanswer'.symm.trans htrue)
    rintro index ⟨i, hi, rfl⟩
    exact ((check_ofBits_iff _ _).mp hanswer i hi).2.2.2

/-- A filter with the same parameters in which all bits of another one are set that can be read. -/
structure Includes (f' f : BloomFilter) : Prop where
  m_eq : f'.m = f.m
  k_eq : f'.k = f.k
  isSet : ∀ index < f.m.toNat, index < f.Filter.length → f.Filter.getD index false = true →
    index < f'.Filter.length ∧ f'.Filter.getD index false = true

theorem Includes.refl (f : BloomFilter) : f.Includes f :=
  ⟨rfl, rfl, fun _ _ hlength hset ↦ ⟨hlength, hset⟩⟩

theorem Includes.trans {f'' : BloomFilter} (h' : f''.Includes f') (h : f'.Includes f) :
    f''.Includes f := by
  refine ⟨h'.m_eq.trans h.m_eq, h'.k_eq.trans h.k_eq, fun index hindex hlength hset ↦ ?_⟩
  obtain ⟨hlength, hset⟩ := h.isSet index hindex hlength hset
  exact h'.isSet index (h.m_eq ▸ hindex) hlength hset

theorem Includes.hit (h : f'.Includes f) (hhit : f.Hit item i) : f'.Hit item i := by
  have hindex := bitIndex_lt hhit.m_ne_zero item i
  obtain ⟨hlength, hset⟩ := h.isSet _ hindex hhit.index_lt hhit.isSet
  have hm := h.m_eq
  exact ⟨hm ▸ hhit.m_ne_zero, hm ▸ hlength, hhit.round_lt, hm ▸ hset⟩

theorem Includes.check (h : f'.Includes f) (hcheck : f.check item = .ok true) :
    f'.check item = .ok true := by
  rw [check_eq_true_iff] at hcheck ⊢
  rw [h.k_eq]
  exact fun i hi ↦ h.hit (hcheck i hi)

theorem includes_set (f : BloomFilter) (index : ℕ) :
    Includes { f with Filter := f.Filter.set index true } f := by
  refine ⟨rfl, rfl, fun index' _ hlength hset ↦ ⟨by simpa using hlength, ?_⟩⟩
  by_cases hsame : index = index'
  · subst hsame
    simp [getD_eq_getElem?_getD, hlength]
  · simpa [getD_eq_getElem?_getD, getElem?_set_ne hsame] using hset

/-- Each round sets its bit, and later rounds keep it. -/
theorem includes_of_insertFrom (h : f.insertFrom item rounds i = .ok f') :
    f'.Includes f ∧ ∀ r, i ≤ r → r < i + rounds → f'.Hit item r := by
  induction rounds generalizing f i with
  | zero =>
    obtain rfl := ok.inj h
    refine ⟨.refl _, fun r hle hlt ↦ ?_⟩
    omega
  | succ rounds ih =>
    obtain ⟨index, hposition, h⟩ := bind_eq_ok h
    obtain ⟨hm, hindex, hround, rfl⟩ := position_eq_ok hposition
    obtain ⟨hincludes, hhits⟩ := ih h
    have hset := includes_set f (bitIndex f.m item i)
    refine ⟨hincludes.trans hset, fun r hle hlt ↦ ?_⟩
    by_cases hr : r = i
    · subst hr
      apply hincludes.hit
      exact ⟨hm, by simpa using hindex, hround, by simp [getD_eq_getElem?_getD, hindex]⟩
    · exact hhits r (by omega) (by omega)

/-- `Insert` keeps the members and adds the address. -/
theorem includes_of_insert (h : f.insert item = .ok f') :
    f'.Includes f ∧ f'.check item = .ok true := by
  obtain ⟨hincludes, hhits⟩ := includes_of_insertFrom h
  refine ⟨hincludes, ?_⟩
  rw [check_eq_true_iff, hincludes.k_eq]
  exact fun i hi ↦ hhits i i.zero_le (by omega)

/-- The sum of two filters with the same parameters includes both. -/
theorem includes_of_add (hm : f.m = g.m) (hk : f.k = g.k) (h : f.add g = .ok f') :
    f'.Includes f ∧ f'.Includes g := by
  unfold add at h
  rw [if_neg (by simp [hm, hk])] at h
  dsimp only at h
  split at h
  · rename_i hlengths
    obtain ⟨hf, hg, -⟩ := hlengths
    obtain rfl := ok.inj h
    -- Below `m`, the bits of the sum are those of the pointwise disjunction.
    have hbit : ∀ index < f.m.toNat, (zipWith (· || ·) (f.Filter.take f.m.toNat)
        (g.Filter.take f.m.toNat) ++ f.Filter.drop f.m.toNat)[index]? =
          some (f.Filter.getD index false || g.Filter.getD index false) := by
      intro index hindex
      have hindexf : index < f.Filter.length := hindex.trans_le hf
      have hindexg : index < g.Filter.length := hindex.trans_le hg
      rw [getElem?_append_left (by simp; omega)]
      simp [getD_eq_getElem?_getD, hindex, hindexf, hindexg]
    have hlength : (zipWith (· || ·) (f.Filter.take f.m.toNat)
        (g.Filter.take f.m.toNat) ++ f.Filter.drop f.m.toNat).length = f.Filter.length := by
      simp
      omega
    constructor
    · refine ⟨rfl, rfl, fun index hindex _ hset ↦ ⟨?_, ?_⟩⟩
      · rw [hlength]
        exact hindex.trans_le hf
      · rw [getD_eq_getElem?_getD, hbit index hindex, hset]
        rfl
    · refine ⟨hm, hk, fun index hindex _ hset ↦ ⟨?_, ?_⟩⟩
      · rw [hlength, ← hm] at *
        exact hindex.trans_le hf
      · rw [getD_eq_getElem?_getD, hbit index (hm ▸ hindex), hset, Bool.or_true]
        rfl
  · cases h

end BloomFilter

/-- Hosts with the addresses that each filter has received, by insertion, transfer or merge. -/
structure Filters (ι : Type) where
  nodes : ι → Fap
  inserted : ι → List Ipv4Address

/-- What happens to the filters of the hosts. -/
inductive FilterEvent (ι : Type)
  /-- `insertADDR`. -/
  | insert (i : ι) (addr : Ipv4Address)
  /-- `UpdateFilter` with the filter of `j`. -/
  | transfer (i j : ι)
  /-- The sum of the filters of `i` and `j` becomes the filter of `l`. -/
  | merge (l i j : ι)

namespace Filters

open BloomFilter

variable {ι : Type} [DecidableEq ι]

/-- The filter of a host changes, and what it has received. -/
def update (filters : Filters ι) (i : ι) (node : Fap) (inserted : List Ipv4Address) :
    Filters ι where
  nodes := Function.update filters.nodes i node
  inserted := Function.update filters.inserted i inserted

/-- Hosts that insert addresses and exchange filters; filters with the same parameters are
merged. -/
def machine (ι : Type) [DecidableEq ι] : Machine (Filters ι) (FilterEvent ι) Fault where
  Enabled filters event :=
    match event with
    | .insert _ _ => True
    | .transfer _ _ => True
    | .merge _ i j => (filters.nodes i).filter.m = (filters.nodes j).filter.m ∧
        (filters.nodes i).filter.k = (filters.nodes j).filter.k
  handle filters event :=
    match event with
    | .insert i addr => do
      let node ← (filters.nodes i).insertADDR addr
      return filters.update i node (addr :: filters.inserted i)
    | .transfer i j => do
      let g := (filters.nodes j).filter
      let node ← (filters.nodes i).updateFilter g.m g.k g.invert
      return filters.update i node (filters.inserted j)
    | .merge l i j => do
      let filter ← (filters.nodes i).filter.add (filters.nodes j).filter
      return filters.update l { filters.nodes l with filter }
        (filters.inserted i ++ filters.inserted j)

/-- A filter is transferred under the condition that keeps its answers. -/
def Exact (filters : Filters ι) (event : FilterEvent ι) : Prop :=
  match event with
  | .insert _ _ => True
  | .transfer i j =>
    TransfersExactly (filters.nodes j).filter.m (filters.nodes j).filter.k (filters.nodes i)
  | .merge _ _ _ => True

/-- Each filter answers true for every address that it has received. -/
def NoFalseNegatives (filters : Filters ι) : Prop :=
  ∀ i, ∀ addr ∈ filters.inserted i, (filters.nodes i).filter.check addr = .ok true

variable {filters filters' : Filters ι} {event : FilterEvent ι} {events : List (FilterEvent ι)}

theorem NoFalseNegatives.update (h : filters.NoFalseNegatives) {i : ι} {node : Fap}
    {inserted : List Ipv4Address} (hnode : ∀ addr ∈ inserted, node.filter.check addr = .ok true) :
    (filters.update i node inserted).NoFalseNegatives := by
  intro j addr hmem
  by_cases hj : j = i
  · subst hj
    simp only [Filters.update, Function.update_self] at hmem ⊢
    exact hnode addr hmem
  · simp only [Filters.update, Function.update_of_ne hj] at hmem ⊢
    exact h j addr hmem

theorem check_of_transfersExactly {g : BloomFilter} {node node' : Fap} {addr : Ipv4Address}
    (h : TransfersExactly g.m g.k node) (hok : node.updateFilter g.m g.k g.invert = .ok node')
    (hcheck : g.check addr = .ok true) : node'.filter.check addr = .ok true := by
  obtain ⟨rest, rfl⟩ := exists_rest_of_updateFilter hok
  rw [check_eq_true_iff] at hcheck ⊢
  intro i hi
  have hk : g.k ≠ 0 := by
    intro hzero
    rw [hzero] at hi
    exact absurd hi (Nat.not_lt_zero i)
  obtain ⟨-, hlocal, -, hbits⟩ := h.bits_eq hk
  -- The bit is one of the bits of the address in the filter that is transferred.
  have hmem : bitIndex node.filter.m addr i ∈ bits g.m g.k addr := by
    rw [← hbits addr]
    exact ⟨i, hi, rfl⟩
  obtain ⟨r, hr, hindex⟩ := hmem
  obtain ⟨-, hlength, -, hset⟩ := hcheck r hr
  rw [hindex] at hlength hset
  refine ⟨hlocal, ?_, (hcheck i hi).round_lt, ?_⟩
  · simp only [length_append]
    omega
  · rw [getD_eq_getElem?_getD, getElem?_append_left hlength,
      ← getD_eq_getElem?_getD]
    exact hset

theorem NoFalseNegatives.step (h : filters.NoFalseNegatives)
    (hstep : ((machine ι).restrict Exact).Step filters event filters') :
    filters'.NoFalseNegatives := by
  obtain ⟨⟨henabled, hok⟩, hexact⟩ := Machine.step_restrict_iff.mp hstep
  cases event with
  | insert i addr =>
    obtain ⟨node, hinsert, rfl⟩ := bind_pure_eq_ok hok
    obtain ⟨filter, hfilter, rfl⟩ := bind_pure_eq_ok hinsert
    obtain ⟨hincludes, hcheck⟩ := includes_of_insert hfilter
    apply h.update
    intro addr' hmem
    rcases mem_cons.mp hmem with rfl | hmem
    · exact hcheck
    · exact hincludes.check (h i addr' hmem)
  | transfer i j =>
    obtain ⟨node, hupdate, rfl⟩ := bind_pure_eq_ok hok
    exact h.update fun addr hmem ↦ check_of_transfersExactly hexact hupdate (h j addr hmem)
  | merge l i j =>
    obtain ⟨filter, hadd, rfl⟩ := bind_pure_eq_ok hok
    obtain ⟨hleft, hright⟩ := includes_of_add henabled.1 henabled.2 hadd
    apply h.update
    intro addr hmem
    rcases mem_append.mp hmem with hmem | hmem
    · exact hleft.check (h i addr hmem)
    · exact hright.check (h j addr hmem)

/-- All hosts use the same parameters. -/
def Uniform (m k : BitVec 32) (filters : Filters ι) : Prop :=
  ∀ i, (filters.nodes i).filter.m = m ∧ (filters.nodes i).filter.k = k

variable {m k : BitVec 32}

theorem Uniform.update (h : filters.Uniform m k) {i : ι} {node : Fap}
    {inserted : List Ipv4Address} (hm : node.filter.m = m) (hk : node.filter.k = k) :
    (filters.update i node inserted).Uniform m k := by
  intro j
  by_cases hj : j = i
  · subst hj
    simp only [Filters.update, Function.update_self]
    exact ⟨hm, hk⟩
  · simp only [Filters.update, Function.update_of_ne hj]
    exact h j

theorem Uniform.step (h : filters.Uniform m k)
    (hstep : (machine ι).Step filters event filters') : filters'.Uniform m k := by
  obtain ⟨henabled, hok⟩ := hstep
  cases event with
  | insert i addr =>
    obtain ⟨node, hinsert, rfl⟩ := bind_pure_eq_ok hok
    obtain ⟨filter, hfilter, rfl⟩ := bind_pure_eq_ok hinsert
    have hincludes := (includes_of_insert hfilter).1
    exact h.update (hincludes.m_eq.trans (h i).1) (hincludes.k_eq.trans (h i).2)
  | transfer i j =>
    obtain ⟨node, hupdate, rfl⟩ := bind_pure_eq_ok hok
    obtain ⟨rest, rfl⟩ := exists_rest_of_updateFilter hupdate
    exact h.update (h i).1 (h j).2
  | merge l i j =>
    obtain ⟨filter, hadd, rfl⟩ := bind_pure_eq_ok hok
    have hincludes := (includes_of_add henabled.1 henabled.2 hadd).1
    exact h.update (hincludes.m_eq.trans (h i).1) (hincludes.k_eq.trans (h i).2)

/-- Among hosts with the same parameters, every transfer meets the condition. -/
theorem Uniform.run_restrict (hsize : m.toNat < 2 ^ 31) (hm : m ≠ 0) (hk : k.toNat < 2 ^ 31)
    (hrun : (machine ι).Run filters events filters') (h : filters.Uniform m k) :
    ((machine ι).restrict Exact).Run filters events filters' := by
  induction hrun with
  | nil filters => exact .nil filters
  | @cons filters mid _ event _ hstep _ ih =>
    have hexact : filters.Exact event := by
      cases event with
      | insert i addr => trivial
      | transfer i j =>
        have hj := h j
        exact transfersExactly_of_m_eq (hj.1 ▸ hsize) (hj.1 ▸ hm) (hj.2 ▸ hk)
          ((h i).1.trans hj.1.symm)
      | merge l i j => trivial
    exact .cons (Machine.step_restrict_iff.mpr ⟨hstep, hexact⟩) (ih (h.step hstep))

/-- A transfer keeps the answers of all filters with given parameters exactly when it keeps their
bits; and in every run with such transfers, the filters have no false negatives. -/
theorem membership_survives :
    (∀ m k node, (∀ g : BloomFilter, g.m = m → g.k = k → g.Sized → AgreesAfterTransfer g node) ↔
      TransfersExactly m k node) ∧
    ∀ (filters filters' : Filters ι) (events : List (FilterEvent ι)),
      (∀ i, filters.inserted i = []) →
      ((machine ι).restrict Exact).Run filters events filters' → filters'.NoFalseNegatives := by
  constructor
  · intro m k node
    constructor
    · exact transfersExactly_of_agrees
    · rintro h g rfl rfl hsized
      exact h.agrees hsized
  · intro filters filters' events hempty hrun
    refine hrun.invariant (fun _ _ _ h hstep ↦ h.step hstep) fun i addr hmem ↦ ?_
    rw [hempty i] at hmem
    cases hmem

instance (event : FilterEvent ι) (filters : Filters ι) :
    Decidable ((machine ι).Enabled filters event) :=
  match event with
  | .insert .. | .transfer .. => isTrue trivial
  | .merge .. => inferInstanceAs (Decidable (_ ∧ _))

/-- Hosts with empty filters, each with a size of its own. -/
def ofSizes (m : ι → BitVec 32) : Filters ι where
  nodes i := { (initial 1 (fun _ ↦ 0) 0 0 : Fap) with filter := ofParameters (m i) 3 }
  inserted _ := []

/-- Two hosts insert an address each, and the first host merges the filters and hands its own on. -/
theorem membership_survives_merge : ∃ filters' : Filters Bool,
    ((machine Bool).restrict Exact).Run (ofSizes fun _ ↦ 16) [.insert true 0xc0a80007,
      .insert false 0xc0a80009, .merge true true false, .transfer false true] filters' ∧
      filters'.inserted false = [0xc0a80007, 0xc0a80009] ∧ filters'.NoFalseNegatives := by
  have hexec : ((machine Bool).exec (ofSizes fun _ ↦ 16) [.insert true 0xc0a80007,
      .insert false 0xc0a80009, .merge true true false, .transfer false true]).any fun filters' ↦
        decide (filters'.inserted false = [0xc0a80007, 0xc0a80009]) := by
    decide +kernel
  obtain ⟨filters', hrun, hinserted⟩ := Machine.exists_run_of_exec hexec
  have hexact : ((machine Bool).restrict Exact).Run _ _ filters' :=
    Uniform.run_restrict (m := 16) (k := 3) (by decide) (by decide) (by decide) hrun
      fun _ ↦ ⟨rfl, rfl⟩
  exact ⟨filters', hexact, hinserted, membership_survives.2 _ _ _ (fun _ ↦ rfl) hexact⟩

/-- A host with the default size takes over a filter of 1024 bits and misses the address that was
inserted there; and it reads beyond the end of a filter of 16 bits. -/
theorem transfer_misses :
    (∃ filters', (machine Bool).Run (ofSizes fun i ↦ if i then 512 else 1024)
      [.insert false 0xc0a80007, .transfer true false] filters' ∧
      (filters'.nodes false).filter.check 0xc0a80007 = .ok true ∧
      (filters'.nodes true).filter.check 0xc0a80007 = .ok false) ∧
    ∃ filters', (machine Bool).Run (ofSizes fun i ↦ if i then 512 else 16)
      [.insert false 0xc0a80007, .transfer true false] filters' ∧
      (filters'.nodes false).filter.check 0xc0a80007 = .ok true ∧
      (filters'.nodes true).filter.check 0xc0a80007 = .error .undefinedBehaviour := by
  constructor
  · exact Machine.exists_run_of_exec (by decide +kernel)
  · exact Machine.exists_run_of_exec (by decide +kernel)

end Filters

end Inet4.Fap
