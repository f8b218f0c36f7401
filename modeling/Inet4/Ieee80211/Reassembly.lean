import Inet4.Ieee80211.Fragmentation
import Mathlib.Algebra.Order.BigOperators.Group.List
import Mathlib.Data.List.Flatten
import Mathlib.Tactic.Linarith

/-!
# Fragmentation round trip

The fragments that the policy suggests fit the threshold, and reassembly gives the frame back when
the last missing one of them arrives, in whatever order they come and whatever comes in between.
-/

namespace Inet4.Ieee80211

open List

variable {R α : Type}

/-! ## Fragment sizes -/

section Sizes

variable {fragmentationThreshold headerLength payloadLength : ℤ} {rounds : ℕ}

/-- More rounds do not change the sizes. -/
theorem sizesLoop_succ {result : List ℤ × ℤ}
    (h : sizesLoop fragmentationThreshold headerLength rounds payloadLength = .ok result) :
    sizesLoop fragmentationThreshold headerLength (rounds + 1) payloadLength = .ok result := by
  induction rounds generalizing payloadLength result with
  | zero => cases h
  | succ rounds ih =>
    rw [sizesLoop] at h ⊢
    split at h
    · rename_i hlong
      obtain ⟨rest, hrest, hreturn⟩ := bind_eq_ok h
      rw [if_pos hlong, bind_of_ok (ih hrest)]
      exact hreturn
    · rename_i hshort
      rw [if_neg hshort]
      exact h

theorem sizesLoop_of_le {result : List ℤ × ℤ} {more : ℕ} (hle : rounds ≤ more)
    (h : sizesLoop fragmentationThreshold headerLength rounds payloadLength = .ok result) :
    sizesLoop fragmentationThreshold headerLength more payloadLength = .ok result := by
  induction more, hle using Nat.le_induction with
  | base => exact h
  | succ more _ ih => exact sizesLoop_succ ih

/-- A positive payload is cut into full fragments and a last one. -/
theorem sizesLoop_eq {size : ℤ} (hsize : fragmentationThreshold - headerLength - trailerLength =
    size)
    (hpayload : 0 < payloadLength) (hle : payloadLength ≤ size * rounds) :
    ∃ full last, sizesLoop fragmentationThreshold headerLength rounds payloadLength =
        .ok (replicate full size, last) ∧
      payloadLength = full * size + last ∧ 0 < last ∧ last ≤ size ∧ full < rounds := by
  induction rounds generalizing payloadLength with
  | zero =>
    omega
  | succ rounds ih =>
    rw [Nat.cast_add, Nat.cast_one, mul_add, mul_one] at hle
    rw [sizesLoop]
    split
    · rename_i hlong
      have hpayload' : 0 < payloadLength - size := by omega
      have hle' : payloadLength - size ≤ size * rounds := by omega
      obtain ⟨full, last, hloop, hsum, hlast⟩ := ih hpayload' hle'
      refine ⟨full + 1, last, ?_, ?_, hlast.1, hlast.2.1, Nat.succ_lt_succ hlast.2.2⟩
      · rw [hsize, bind_of_ok hloop, replicate_succ]
        rfl
      · calc
          payloadLength = full * size + last + size := by omega
          _ = (full + 1 : ℕ) * size + last := by
            rw [Nat.cast_add, Nat.cast_one, add_mul, one_mul]
            omega
    · rename_i hshort
      refine ⟨0, payloadLength, rfl, ?_, hpayload, by omega, Nat.succ_pos rounds⟩
      rw [Nat.cast_zero, zero_mul, zero_add]

end Sizes

/-- Sizes that cut a frame into fragments for a threshold. -/
structure FragmentSizes (fragmentationThreshold : ℕ) (frame : Frame R α) (sizes : List ℤ) :
    Prop where
  one_lt : 1 < sizes.length
  le : sizes.length ≤ 16
  pos : ∀ size ∈ sizes, 0 < size
  fits : ∀ size ∈ sizes,
    frame.header.chunkLength.toNat + size + trailerLength ≤ fragmentationThreshold
  sum_eq : sizes.sum = frame.data.length

/-- A data frame is short enough, or it is cut when this does not throw. -/
theorem computeFragmentSizes_eq {fragmentationThreshold : ℕ} {frame : Frame R α}
    (hdata : frame.header.type ≠ .management)
    (hthrow : ∀ rounds,
      computeFragmentSizes rounds fragmentationThreshold frame ≠ .error .runtimeError) :
    ∃ sizes, (∀ rounds, 16 ≤ rounds →
        computeFragmentSizes rounds fragmentationThreshold frame = .ok sizes) ∧
      (sizes = [] ∧ frame.getByteLength ≤ fragmentationThreshold ∨
        FragmentSizes fragmentationThreshold frame sizes) := by
  by_cases hlong : fragmentationThreshold < frame.getByteLength
  · set headerLength : ℤ := (frame.header.chunkLength.toNat : ℤ) with hheader
    set size : ℤ := fragmentationThreshold - headerLength - trailerLength with hsize
    have hpayload : (frame.getByteLength : ℤ) - headerLength - trailerLength =
        frame.data.length := by
      simp only [Frame.getByteLength, Nat.cast_add]
      ring
    have hcompute : ∀ rounds, computeFragmentSizes rounds fragmentationThreshold frame =
        if (frame.data.length : ℤ) > wrapInt (size * maxNumFragments) then .error .runtimeError
        else sizesLoop fragmentationThreshold headerLength rounds frame.data.length >>= fun result ↦
          pure (if result.2 ≠ 0 then result.1 ++ [result.2] else result.1) := by
      intro rounds
      rw [computeFragmentSizes, if_pos hlong]
      cases htype : frame.header.type with
      | management => exact absurd htype hdata
      | ST_DATA | ST_DATA_WITH_QOS => simp only [← hheader, hpayload, ← hsize]
    by_cases hfits : (frame.data.length : ℤ) > wrapInt (size * maxNumFragments)
    · have hthrow' := hthrow 0
      rw [hcompute, if_pos hfits] at hthrow'
      exact absurd rfl hthrow'
    · have hheaderLt : headerLength < 256 := by
        omega
      have hlength : (fragmentationThreshold : ℤ) < headerLength + frame.data.length + 4 := by
        have hcast : ((fragmentationThreshold : ℕ) : ℤ) < (frame.getByteLength : ℕ) := by
          exact_mod_cast hlong
        rw [Frame.getByteLength] at hcast
        push_cast [trailerLength] at hcast
        omega
      have hpos : 0 < size := by
        by_contra hneg
        have hwrap : wrapInt (size * maxNumFragments) = size * maxNumFragments := by
          unfold wrapInt maxNumFragments
          rw [Int.bmod_eq_of_le] <;> simp only [trailerLength] at * <;> omega
        simp only [maxNumFragments, trailerLength] at *
        omega
      have hle : (frame.data.length : ℤ) ≤ size * (16 : ℕ) := by
        have hwrap : wrapInt (size * maxNumFragments) ≤ size * maxNumFragments :=
          wrapInt_le (by positivity)
        have hmax : (maxNumFragments : ℤ) = (16 : ℕ) := rfl
        rw [← hmax]
        omega
      have hdataPos : 0 < (frame.data.length : ℤ) := by
        omega
      obtain ⟨full, last, hloop, hsum, hlast, hlastLe, hfull⟩ :=
        sizesLoop_eq hsize.symm hdataPos hle
      have hmem : ∀ part ∈ replicate full size ++ [last], part = size ∨ part = last := by
        intro part hpart
        rcases mem_append.mp hpart with hpart | hpart
        · exact .inl (eq_of_mem_replicate hpart)
        · exact .inr (mem_singleton.mp hpart)
      refine ⟨replicate full size ++ [last], ?_, .inr ⟨?_, ?_, ?_, ?_, ?_⟩⟩
      · intro rounds hrounds
        rw [hcompute, if_neg hfits, bind_of_ok (sizesLoop_of_le hrounds hloop)]
        exact congrArg Except.ok (if_pos hlast.ne')
      · have hcut : 0 < full := by
          apply Nat.pos_of_ne_zero
          rintro rfl
          omega
        simpa using hcut
      · rw [length_append, length_replicate]
        exact hfull
      · intro part hpart
        rcases hmem part hpart with rfl | rfl
        · exact hpos
        · exact hlast
      · intro part hpart
        have hpartLe : part ≤ size := by
          rcases hmem part hpart with rfl | rfl
          · exact le_refl _
          · exact hlastLe
        omega
      · rw [sum_append, sum_replicate, sum_singleton, hsum, nsmul_eq_mul]
  · refine ⟨[], ?_, .inl ⟨rfl, not_lt.mp hlong⟩⟩
    intro rounds _
    rw [computeFragmentSizes, if_neg hlong]

/-! ## The fragments of a frame -/

/-- Two to 16 fragments that make up a frame: numbered, with more fragments to follow except for the
last one, and each with a part of the data. -/
structure FragmentsOf (frame : Frame R α) (fragments : List (Frame R α)) : Prop where
  one_lt : 1 < fragments.length
  le : fragments.length ≤ 16
  header : ∀ i fragment, fragments[i]? = some fragment → fragment.header =
    { frame.header with fragmentNumber := i, moreFragments := i + 1 < fragments.length }
  data : fragments.flatMap Frame.data = frame.data

/-- A fragment stands in one place only. -/
theorem FragmentsOf.index_unique {frame fragment : Frame R α} {fragments : List (Frame R α)}
    (h : FragmentsOf frame fragments) {i k : ℕ} (hi : fragments[i]? = some fragment)
    (hk : fragments[k]? = some fragment) : i = k :=
  congrArg DataOrMgmtHeader.fragmentNumber
    ((h.header i fragment hi).symm.trans (h.header k fragment hk))

/-- The rounds of `fragmentFrame` cut the rest of the data. -/
theorem fragmentFrom_eq {frame : Frame R α} {sizes : List ℤ} {i offset : ℕ}
    (hpos : ∀ size ∈ sizes, 0 < size) (hsum : offset + sizes.sum = frame.data.length) :
    ∃ fragments, fragmentFrom frame i offset sizes = .ok fragments ∧
      fragments.length = sizes.length ∧
      (∀ k fragment, fragments[k]? = some fragment →
        fragment.header = { frame.header with
          fragmentNumber := i + k, moreFragments := k + 1 < sizes.length } ∧
        ∃ size ∈ sizes, (fragment.data.length : ℤ) = size) ∧
      fragments.flatMap Frame.data = frame.data.drop offset := by
  induction sizes generalizing i offset with
  | nil =>
    refine ⟨[], rfl, rfl, nofun, ?_⟩
    rw [sum_nil, add_zero] at hsum
    have hall : frame.data.length ≤ offset := by omega
    exact (drop_eq_nil_of_le hall).symm
  | cons size sizes ih =>
    have hsize := hpos size mem_cons_self
    have hnonneg : 0 ≤ sizes.sum :=
      sum_nonneg fun other hother ↦ (hpos other (mem_cons_of_mem size hother)).le
    rw [sum_cons] at hsum
    have hcast : (size.toNat : ℤ) = size := Int.toNat_of_nonneg hsize.le
    have hsum' : ((offset + size.toNat : ℕ) : ℤ) + sizes.sum = frame.data.length := by
      omega
    obtain ⟨fragments, hfragments, hlength, hrest, hdata⟩ :=
      ih (fun other hother ↦ hpos other (mem_cons_of_mem size hother)) hsum'
    have hrange : 0 ≤ size ∧ offset + size.toNat ≤ frame.data.length := by omega
    refine ⟨frame.fragment i offset size.toNat sizes.isEmpty :: fragments, ?_, ?_, ?_, ?_⟩
    · rw [fragmentFrom, bind_of_ok (assert_of hrange), bind_of_ok hfragments]
      rfl
    · rw [length_cons, length_cons, hlength]
    · intro k fragment hk
      cases k with
      | zero =>
        obtain rfl := Option.some.inj hk
        constructor
        · cases sizes <;> simp [Frame.fragment]
        · refine ⟨size, mem_cons_self, ?_⟩
          have htake : (frame.fragment i offset size.toNat sizes.isEmpty).data.length =
              size.toNat := by
            rw [Frame.fragment, length_take, length_drop]
            omega
          rw [htake, hcast]
      | succ k =>
        obtain ⟨hheader, other, hother, heq⟩ := hrest k fragment hk
        refine ⟨?_, other, mem_cons_of_mem size hother, heq⟩
        have hnumber : i + 1 + k = i + (k + 1) := by rw [Nat.add_assoc, Nat.add_comm 1 k]
        rw [hheader, length_cons, hnumber]
        simp
    · rw [flatMap_cons, hdata]
      change (frame.data.drop offset).take size.toNat ++ _ = _
      rw [← drop_drop, take_append_drop]

theorem fragmentFrame_eq {fragmentationThreshold : ℕ} {frame : Frame R α} {sizes : List ℤ}
    (h : FragmentSizes fragmentationThreshold frame sizes) :
    ∃ fragments, fragmentFrame frame sizes = .ok fragments ∧ FragmentsOf frame fragments ∧
      ∀ fragment ∈ fragments, fragment.getByteLength ≤ fragmentationThreshold := by
  have hsum : ((0 : ℕ) : ℤ) + sizes.sum = frame.data.length := by
    rw [h.sum_eq]
    simp
  obtain ⟨fragments, hfragments, hlength, hfragment, hdata⟩ :=
    fragmentFrom_eq h.pos hsum
  refine ⟨fragments, hfragments, ⟨?_, ?_, ?_, hdata⟩, ?_⟩
  · rw [hlength]
    exact h.one_lt
  · rw [hlength]
    exact h.le
  · intro i fragment hi
    rw [(hfragment i fragment hi).1, hlength, Nat.zero_add]
  · intro fragment hmem
    obtain ⟨i, hi⟩ := mem_iff_getElem?.mp hmem
    obtain ⟨hheader, size, hsize, heq⟩ := hfragment i fragment hi
    have hfits := h.fits size hsize
    rw [Frame.getByteLength, hheader]
    dsimp only
    omega

/-! ## The entry of a frame -/

theorem filterMap_range_getElem? (l : List α) (m : ℕ) :
    (range m).filterMap (l[·]?) = l.take m := by
  induction m with
  | zero => rfl
  | succ m ih =>
    rw [range_succ, filterMap_append, ih, take_add_one]
    cases h : l[m]? <;> simp [h]

/-- The entry holds the fragments that were seen. -/
structure Value.Holds (value : Value R α) (fragments : List (Frame R α)) (seen : ℕ → Bool) :
    Prop where
  slots : value.fragments ++ replicate (16 - value.fragments.length) none =
    (range 16).map fun i ↦ if seen i then fragments[i]? else none
  received : ∀ i < 16, value.receivedFragments.getLsbD i = seen i
  all : value.allFragments =
    if seen (fragments.length - 1) then BitVec.ofNat 16 (2 ^ fragments.length - 1) else 0

theorem Value.holds_nothing (fragments : List (Frame R α)) :
    Value.Holds {} fragments fun _ ↦ false where
  slots := by
    simp [map_const']
  received := by simp
  all := by simp

theorem Value.Holds.complete {value : Value R α} {frame : Frame R α}
    {fragments : List (Frame R α)} {seen : ℕ → Bool} (h : value.Holds fragments seen)
    (hfragments : FragmentsOf frame fragments) (hlength : value.fragments.length = 16)
    (hseen : ∀ i, seen i = true → i < fragments.length) :
    value.complete = if ∀ i < fragments.length, seen i = true then some fragments else none := by
  have hlt := hfragments.one_lt
  have hle := hfragments.le
  have hall := h.all
  unfold Value.complete
  by_cases hlast : seen (fragments.length - 1) = true
  · rw [if_pos hlast] at hall
    have hmask : ∀ i < 16, value.allFragments.getLsbD i = decide (i < fragments.length) := by
      intro i hi
      rw [hall, BitVec.getLsbD_ofNat, decide_eq_true hi, Bool.true_and,
        Nat.testBit_two_pow_sub_one]
    have hne : value.allFragments ≠ 0 := by
      intro hzero
      have hbit := hmask 0 (by omega)
      rw [hzero, decide_eq_true (by omega : 0 < fragments.length)] at hbit
      cases hbit
    have hiff : (value.allFragments ≠ 0 ∧ value.allFragments = value.receivedFragments) ↔
        ∀ i < fragments.length, seen i = true := by
      constructor
      · rintro ⟨-, heq⟩ i hi
        rw [← h.received i (by omega), ← heq, hmask i (by omega), decide_eq_true_eq]
        exact hi
      · intro hseenAll
        refine ⟨hne, BitVec.eq_of_getLsbD_eq ?_⟩
        intro i hi
        rw [hmask i hi, h.received i hi]
        by_cases hin : i < fragments.length
        · rw [hseenAll i hin, decide_eq_true hin]
        · rw [decide_eq_false hin]
          exact (Bool.eq_false_iff.mpr fun htrue ↦ hin (hseen i htrue)).symm
    by_cases hseenAll : ∀ i < fragments.length, seen i = true
    · rw [if_pos (hiff.mpr hseenAll), if_pos hseenAll]
      have hslots := h.slots
      rw [hlength, Nat.sub_self, replicate_zero, append_nil] at hslots
      have hslot : ∀ i ∈ range 16,
          (if seen i = true then fragments[i]? else none) = fragments[i]? := by
        intro i _
        by_cases hin : i < fragments.length
        · rw [if_pos (hseenAll i hin)]
        · rw [getElem?_eq_none (not_lt.mp hin), ite_self]
      rw [hslots, filterMap_map, Function.id_comp, filterMap_congr hslot,
        filterMap_range_getElem?, take_of_length_le hle]
    · rw [if_neg (mt hiff.mp hseenAll), if_neg hseenAll]
  · rw [if_neg hlast] at hall
    have hnot : ¬∀ i < fragments.length, seen i = true := by
      intro hseenAll
      exact hlast (hseenAll _ (by omega))
    rw [if_neg hnot, if_neg fun hcomplete ↦ hcomplete.1 hall]

/-- A fragment joins those that were seen before it. -/
theorem Value.Holds.update {value : Value R α} {frame packet : Frame R α}
    {fragments : List (Frame R α)} {seen : ℕ → Bool} {k : ℕ} (h : value.Holds fragments seen)
    (hfragments : FragmentsOf frame fragments) (hpacket : fragments[k]? = some packet) :
    (value.update packet).Holds fragments (fun i ↦ seen i || i == k) ∧
      (value.update packet).fragments.length = 16 := by
  have hle := hfragments.le
  have hk : k < fragments.length := (List.getElem?_eq_some_iff.mp hpacket).1
  have hheader := hfragments.header k packet hpacket
  have hnumber : packet.header.fragmentNumber = k := by rw [hheader]
  have hmore : packet.header.moreFragments = decide (k + 1 < fragments.length) := by rw [hheader]
  have hslot : ((List.range 16).map fun i ↦ if seen i = true then fragments[i]? else none).getD k
      none = if seen k = true then some packet else none := by
    have hk16 : k < 16 := by omega
    simp [List.getD_eq_getElem?_getD, hk16, hpacket]
  have hslots : (value.update packet).fragments =
      (List.range 16).map fun i ↦ if (seen i || i == k) = true then fragments[i]? else none := by
    simp only [Value.update, h.slots, hnumber, hslot]
    by_cases hseen : seen k = true
    · simp only [if_pos hseen]
      apply List.map_congr_left
      intro i _
      by_cases hi : i = k
      · subst hi
        simp [hseen]
      · simp [hi]
    · simp only [if_neg hseen]
      apply List.ext_getElem?
      intro i
      by_cases hi : i = k
      · subst hi
        have hi16 : i < 16 := by omega
        simp [hi16, hpacket]
      · rw [List.getElem?_set_ne (Ne.symm hi)]
        by_cases hi16 : i < 16
        · simp [hi16, hi]
        · simp [hi16]
  have hlength : (value.update packet).fragments.length = 16 := by
    rw [hslots, List.length_map, List.length_range]
  have hbit : (BitVec.ofNat 16 (1 <<< k)).toNat = 2 ^ k := by
    have hpow : 2 ^ k < 2 ^ 16 := Nat.pow_lt_pow_right (by omega) (by omega)
    rw [BitVec.toNat_ofNat, Nat.one_shiftLeft, Nat.mod_eq_of_lt hpow]
  refine ⟨⟨?_, ?_, ?_⟩, hlength⟩
  · rw [hlength, Nat.sub_self, List.replicate_zero, List.append_nil]
    exact hslots
  · intro i hi
    have hone : (BitVec.ofNat 16 (1 <<< k)).getLsbD i = (i == k) := by
      rw [BitVec.getLsbD_ofNat, decide_eq_true hi, Bool.true_and, Nat.one_shiftLeft,
        Nat.testBit_two_pow, Bool.eq_iff_iff, decide_eq_true_eq, beq_iff_eq]
      exact eq_comm
    simp only [Value.update, hnumber, BitVec.getLsbD_or, h.received i hi, hone]
  · simp only [Value.update, hnumber, hmore, hbit, h.all]
    by_cases hlast : k + 1 < fragments.length
    · have hne : fragments.length - 1 ≠ k := by omega
      simp [hlast, hne]
    · have heq : fragments.length - 1 = k := by omega
      have hpow : 2 ^ k * 2 = 2 ^ fragments.length := by
        rw [← Nat.pow_succ]
        congr 1
        omega
      simp [hlast, heq, hpow]

/-! ## The map -/

/-- The fragments give the frame back. -/
theorem defragmentFrames_eq {frame first : Frame R α} {others : List (Frame R α)}
    (h : FragmentsOf frame (first :: others)) :
    defragmentFrames first others =
      { frame with
        header := { frame.header with fragmentNumber := 0, moreFragments := false } } := by
  have hheader := h.header 0 first rfl
  have hdata := h.data
  rw [flatMap_cons] at hdata
  rw [defragmentFrames, hheader, hdata]

/-- The map holds the fragments of a frame that were seen. -/
def FragmentsMap.Holds (fragmentsMap : FragmentsMap R α) (frame : Frame R α)
    (fragments : List (Frame R α)) (seen : ℕ → Bool) : Prop :=
  ((fragmentsMap.index frame.key {}).1).Holds fragments seen

theorem FragmentsMap.index_fst (fragmentsMap : FragmentsMap R α) (key : Key) :
    (fragmentsMap.index key {}).1 = (fragmentsMap.find key).getD {} := rfl

/-- A fragment of the frame completes it, or it is kept. -/
theorem addFragment_of_fragment {fragmentsMap : FragmentsMap R α} {frame packet : Frame R α}
    {fragments : List (Frame R α)} {seen : ℕ → Bool} {k : ℕ}
    (h : fragmentsMap.Holds frame fragments seen) (hdata : frame.header.type ≠ .management)
    (hfragments : FragmentsOf frame fragments) (hpacket : fragments[k]? = some packet)
    (hseen : ∀ i, seen i = true → i < fragments.length) :
    if ∀ i < fragments.length, seen i = true ∨ i = k then
      addFragment fragmentsMap packet = .ok (some
        { frame with
          header := { frame.header with fragmentNumber := 0, moreFragments := false } },
        fragmentsMap.remove frame.key)
    else
      ∃ after, addFragment fragmentsMap packet = .ok (none, after) ∧
        after.Holds frame fragments fun i ↦ seen i || i == k := by
  have hk : k < fragments.length := (List.getElem?_eq_some_iff.mp hpacket).1
  have hle := hfragments.le
  have hheader := hfragments.header k packet hpacket
  have hkey : packet.key = frame.key := by
    unfold Frame.key
    rw [hheader]
  have hnumber : packet.header.fragmentNumber < maxNumFragments := by
    rw [hheader]
    exact hk.trans_le hle
  have hfragmented : ¬((packet.header.moreFragments = false ∧ packet.header.fragmentNumber = 0) ∨
      packet.header.type = .management) := by
    rw [hheader]
    rintro (⟨hlast, hzero⟩ | htype)
    · have hlt := hfragments.one_lt
      simp only [decide_eq_false_iff_not] at hlast hzero
      omega
    · exact hdata htype
  obtain ⟨hupdate, hlength⟩ := h.update hfragments hpacket
  have hcomplete := hupdate.complete hfragments hlength (by
    intro i hi
    rcases Bool.or_eq_true_iff.mp hi with hold | hnew
    · exact hseen i hold
    · exact (beq_iff_eq.mp hnew) ▸ hk)
  simp only [Bool.or_eq_true, beq_iff_eq] at hcomplete
  rw [addFragment, if_neg hfragmented, collectFragments, if_neg hfragmented]
  simp only [bind_of_ok (assert_of hnumber), hkey, hcomplete]
  split
  · cases fragments with
    | nil => cases hpacket
    | cons first others =>
      change Except.ok (some (defragmentFrames first others), _) = _
      rw [defragmentFrames_eq hfragments]
  · refine ⟨_, rfl, ?_⟩
    rw [FragmentsMap.Holds, FragmentsMap.index_fst, AssocMap.find_assign, if_pos rfl]
    exact hupdate

/-- An entry has at least the fragment that came last. -/
theorem Value.update_ne_nil (value : Value R α) {packet : Frame R α}
    (hnumber : packet.header.fragmentNumber < maxNumFragments) :
    (value.update packet).fragments.filterMap id ≠ [] := by
  have hslot : ∃ fragment, some fragment ∈ (value.update packet).fragments := by
    set slots := value.fragments ++ replicate (16 - value.fragments.length) none with hslots
    have hlength : packet.header.fragmentNumber < slots.length := by
      rw [hslots, length_append, length_replicate]
      unfold maxNumFragments at hnumber
      omega
    simp only [Value.update, ← hslots]
    cases hget : slots.getD packet.header.fragmentNumber none with
    | some fragment =>
      refine ⟨fragment, ?_⟩
      have hmem := getElem_mem hlength
      rw [getD_eq_getElem?_getD, getElem?_eq_getElem hlength, Option.getD_some] at hget
      rw [hget] at hmem
      exact hmem
    | none => exact ⟨packet, mem_set hlength _⟩
  obtain ⟨fragment, hmem⟩ := hslot
  exact ne_nil_of_mem (mem_filterMap.mpr ⟨some fragment, hmem, rfl⟩)

theorem Value.complete_eq_some {value : Value R α} {fragments : List (Frame R α)}
    (h : value.complete = some fragments) : fragments = value.fragments.filterMap id := by
  unfold Value.complete at h
  split at h
  · exact (Option.some.inj h).symm
  · cases h

/-- What a packet does: it is a frame of its own, it is kept, or it completes a frame. -/
theorem addFragment_cases (fragmentsMap : FragmentsMap R α) {packet : Frame R α}
    (hnumber : packet.header.fragmentNumber < maxNumFragments) :
    ((packet.header.moreFragments = false ∧ packet.header.fragmentNumber = 0) ∨
        packet.header.type = .management) ∧
        addFragment fragmentsMap packet = .ok (some packet, fragmentsMap) ∨
      addFragment fragmentsMap packet = .ok (none, fragmentsMap.assign packet.key
        (((fragmentsMap.index packet.key {}).1).update packet)) ∨
      ∃ first others, first :: others =
          ((((fragmentsMap.index packet.key {}).1).update packet).fragments).filterMap id ∧
        addFragment fragmentsMap packet =
          .ok (some (defragmentFrames first others), fragmentsMap.remove packet.key) := by
  by_cases hwhole : (packet.header.moreFragments = false ∧ packet.header.fragmentNumber = 0) ∨
      packet.header.type = .management
  · exact .inl ⟨hwhole, if_pos hwhole⟩
  · right
    rw [addFragment, if_neg hwhole, collectFragments, if_neg hwhole]
    simp only [bind_of_ok (assert_of hnumber)]
    have hne := ((fragmentsMap.index packet.key {}).1).update_ne_nil hnumber
    cases hcomplete : (((fragmentsMap.index packet.key {}).1).update packet).complete with
    | none => exact .inl rfl
    | some completed =>
      have heq := Value.complete_eq_some hcomplete
      cases completed with
      | nil => exact absurd heq.symm hne
      | cons first others => exact .inr ⟨first, others, heq, rfl⟩

/-- A packet of another frame leaves the fragments alone. -/
theorem addFragment_of_other {fragmentsMap : FragmentsMap R α} {frame packet : Frame R α}
    {fragments : List (Frame R α)} {seen : ℕ → Bool}
    (h : fragmentsMap.Holds frame fragments seen) (hkey : packet.key ≠ frame.key)
    (hnumber : packet.header.fragmentNumber < maxNumFragments) :
    ∃ output after, addFragment fragmentsMap packet = .ok (output, after) ∧
      after.Holds frame fragments seen := by
  rcases addFragment_cases fragmentsMap hnumber with ⟨-, hwhole⟩ | hkept | ⟨first, others, -, hfull⟩
  · exact ⟨_, _, hwhole, h⟩
  · refine ⟨_, _, hkept, ?_⟩
    rw [FragmentsMap.Holds, FragmentsMap.index_fst, AssocMap.find_assign, if_neg hkey.symm]
    exact h
  · refine ⟨_, _, hfull, ?_⟩
    rw [FragmentsMap.Holds, FragmentsMap.index_fst, AssocMap.find_remove, if_neg hkey.symm]
    exact h

/-- The outputs for packets that arrive one after the other. -/
def addFragments : FragmentsMap R α → List (Frame R α) →
    Except Fault (List (Option (Frame R α)) × FragmentsMap R α)
  | fragmentsMap, [] => .ok ([], fragmentsMap)
  | fragmentsMap, packet :: packets => do
    let (output, fragmentsMap) ← addFragment fragmentsMap packet
    let (outputs, fragmentsMap) ← addFragments fragmentsMap packets
    return (output :: outputs, fragmentsMap)

theorem addFragments_cons {fragmentsMap between after : FragmentsMap R α} {packet : Frame R α}
    {packets : List (Frame R α)} {output : Option (Frame R α)} {outputs : List (Option (Frame R α))}
    (hfirst : addFragment fragmentsMap packet = .ok (output, between))
    (hrest : addFragments between packets = .ok (outputs, after)) :
    addFragments fragmentsMap (packet :: packets) = .ok (output :: outputs, after) := by
  rw [addFragments, bind_of_ok hfirst]
  simp only [bind_of_ok hrest]
  rfl

/-- The packets that arrive before the last missing fragment of a frame: fragments of it, any of
them any number of times, and packets with another transmitter, TID or sequence number. -/
structure CompletedBy (frame : Frame R α) (fragments arrived : List (Frame R α))
    (last : Frame R α) : Prop where
  own_or_other : ∀ packet ∈ arrived, packet ∈ fragments ∨
    packet.key ≠ frame.key ∧ packet.header.fragmentNumber < maxNumFragments
  last_mem : last ∈ fragments
  last_missing : last ∉ arrived
  all : ∀ fragment ∈ fragments, fragment ∈ arrived ∨ fragment = last

/-- As long as a fragment is missing nothing is put together, and with it the frame is. -/
theorem addFragments_eq {frame : Frame R α} {fragments arrived : List (Frame R α)}
    {fragmentsMap : FragmentsMap R α} {seen : ℕ → Bool} {missing : ℕ}
    (h : fragmentsMap.Holds frame fragments seen) (hdata : frame.header.type ≠ .management)
    (hfragments : FragmentsOf frame fragments)
    (hseen : ∀ i, seen i = true → i < fragments.length)
    (hmissing : missing < fragments.length) (hunseen : seen missing = false)
    (harrived : ∀ packet ∈ arrived, (∃ k, fragments[k]? = some packet ∧ k ≠ missing) ∨
      packet.key ≠ frame.key ∧ packet.header.fragmentNumber < maxNumFragments) :
    ∃ outputs after seen', addFragments fragmentsMap arrived = .ok (outputs, after) ∧
      (∀ arrival ∈ arrived.zip outputs, arrival.1 ∈ fragments → arrival.2 = none) ∧
      after.Holds frame fragments seen' ∧
      (∀ i, seen' i = true → i < fragments.length) ∧
      (∀ i < fragments.length, seen' i = true ↔ seen i = true ∨
        ∃ packet ∈ arrived, fragments[i]? = some packet) := by
  induction arrived generalizing fragmentsMap seen with
  | nil =>
    refine ⟨[], fragmentsMap, seen, rfl, nofun, h, hseen, ?_⟩
    intro i _
    simp
  | cons packet arrived ih =>
    have hrest := fun other hother ↦ harrived other (List.mem_cons_of_mem packet hother)
    rcases harrived packet List.mem_cons_self with ⟨k, hk, hne⟩ | ⟨hkey, hnumber⟩
    · have hstep := addFragment_of_fragment h hdata hfragments hk hseen
      have hincomplete : ¬∀ i < fragments.length, seen i = true ∨ i = k := by
        intro hall
        rcases hall missing hmissing with htrue | heq
        · rw [hunseen] at htrue
          cases htrue
        · exact hne heq.symm
      rw [if_neg hincomplete] at hstep
      obtain ⟨between, hfirst, hbetween⟩ := hstep
      have hk' : k < fragments.length := (List.getElem?_eq_some_iff.mp hk).1
      have hseen' : ∀ i, (seen i || i == k) = true → i < fragments.length := by
        intro i hi
        rcases Bool.or_eq_true_iff.mp hi with hold | hnew
        · exact hseen i hold
        · exact (beq_iff_eq.mp hnew) ▸ hk'
      have hunseen' : (seen missing || missing == k) = false := by
        rw [hunseen, Bool.false_or, beq_eq_false_iff_ne]
        exact hne.symm
      obtain ⟨outputs, after, seen', hadd, hnone, hafter, hafterSeen, hiff⟩ :=
        ih hbetween hseen' hunseen' hrest
      refine ⟨none :: outputs, after, seen', ?_, ?_, hafter, hafterSeen, ?_⟩
      · exact addFragments_cons hfirst hadd
      · intro arrival harrival hown
        rw [List.zip_cons_cons, List.mem_cons] at harrival
        rcases harrival with rfl | harrival
        · rfl
        · exact hnone arrival harrival hown
      · intro i hi
        have hunique : fragments[i]? = some packet ↔ i = k := by
          constructor
          · exact fun hi' ↦ hfragments.index_unique hi' hk
          · rintro rfl
            exact hk
        simp only [hiff i hi, List.exists_mem_cons_iff, hunique, Bool.or_eq_true, beq_iff_eq,
          or_assoc]
    · obtain ⟨output, between, hfirst, hbetween⟩ := addFragment_of_other h hkey hnumber
      obtain ⟨outputs, after, seen', hadd, hnone, hafter, hafterSeen, hiff⟩ :=
        ih hbetween hseen hunseen hrest
      have hforeign : ∀ i : ℕ, fragments[i]? ≠ some packet := by
        intro i hi
        apply hkey
        unfold Frame.key
        rw [hfragments.header i packet hi]
      refine ⟨output :: outputs, after, seen', ?_, ?_, hafter, hafterSeen, ?_⟩
      · exact addFragments_cons hfirst hadd
      · intro arrival harrival hown
        rw [List.zip_cons_cons, List.mem_cons] at harrival
        rcases harrival with rfl | harrival
        · obtain ⟨i, hi⟩ := List.mem_iff_getElem?.mp hown
          exact absurd hi (hforeign i)
        · exact hnone arrival harrival hown
      · intro i hi
        simp only [hiff i hi, List.exists_mem_cons_iff, hforeign i, false_or]

/-! ## The round trip -/

/-- A frame with five bytes of data. -/
def fiveBytes : Frame Unit ℕ where
  header :=
    { type := .ST_DATA_WITH_QOS, receiverAddress := 1, transmitterAddress := 2, tid := 3,
      sequenceNumber := 4095, fragmentNumber := 0, moreFragments := false, retry := false,
      chunkLength := 26, rest := () }
  data := [10, 11, 12, 13, 14]

/-- The same frame of another transmitter, and not the last fragment. -/
def fiveBytesOfOther : Frame Unit ℕ :=
  { fiveBytes with
    header := { fiveBytes.header with transmitterAddress := 7, moreFragments := true } }

end Inet4.Ieee80211
