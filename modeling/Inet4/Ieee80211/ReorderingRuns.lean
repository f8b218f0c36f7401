import Inet4.Ieee80211.BlockAckReordering
import Mathlib.Data.List.Dedup
import Mathlib.Data.List.Flatten
import Mathlib.Data.List.Perm.Subperm

/-!
# Delivery in order

The buffer holds MSDUs whose sequence numbers are in the window that starts at the next expected
one. There the comparison of sequence numbers is an order, so that the map works and the rules by
which MSDUs are passed up deliver them in order.  The window leaves MPDUs behind when a BlockAckReq
moves it without passing up an MSDU: the preceding MPDUs are only released together with one.
-/

namespace Inet4.Ieee80211

open List Bool OrderedMap
open OrderedMap (Ascending Agrees)
open SequenceNumber
open List.Pairwise (sublist)

/-! ## Fragments of an MSDU -/

/-- Two MPDUs with one sequence number are fragments of one MSDU as far as their headers tell: only
the last fragment has no more fragments. -/
def Mpdu.Fits (a b : Mpdu) : Prop :=
  a.fragmentNumber = b.fragmentNumber ∨
    a.fragmentNumber < b.fragmentNumber ∧ a.moreFragments = true ∨
    b.fragmentNumber < a.fragmentNumber ∧ b.moreFragments = true

instance (a b : Mpdu) : Decidable (a.Fits b) := inferInstanceAs (Decidable (_ ∨ _))

theorem Mpdu.Fits.symm {a b : Mpdu} (h : a.Fits b) : b.Fits a := by
  rcases h with heq | hlt | hgt
  · exact .inl heq.symm
  · exact .inr (.inr hlt)
  · exact .inr (.inl hgt)

namespace Fragments

/-- Different fragments of one MSDU with a given sequence number. -/
structure OfMsdu (fragments : Fragments) (sequenceNumber : SequenceNumber) : Prop where
  sequenceNumber_eq : ∀ fragment ∈ fragments.toList, fragment.sequenceNumber = sequenceNumber
  nodup : (fragments.toList.map (·.fragmentNumber)).Nodup
  fits : ∀ a ∈ fragments.toList, ∀ b ∈ fragments.toList, a.Fits b

/-- All fragments of an MSDU, each of them once. -/
def Whole (fragments : Fragments) (sequenceNumber : SequenceNumber) : Prop :=
  ∃ last, (fragments.toList.map (·.fragmentNumber)).Perm (range (last + 1)) ∧
    ∀ fragment ∈ fragments.toList, fragment.sequenceNumber = sequenceNumber ∧
      (fragment.moreFragments = false ↔ fragment.fragmentNumber = last)

/-- The number that the loop of `isComplete` finds is that of a last fragment. -/
theorem exists_of_largestFragmentNumber {l : List Mpdu} {largest : ℤ}
    (hfold : l.foldl (fun largest fragment ↦
      if fragment.moreFragments then largest else fragment.fragmentNumber) (-1 : ℤ) = largest)
    (hne : largest ≠ -1) :
    ∃ fragment ∈ l, fragment.moreFragments = false ∧ (fragment.fragmentNumber : ℤ) = largest := by
  induction l using reverseRecOn with
  | nil => exact absurd hfold.symm hne
  | append_singleton l last ih =>
    rw [foldl_append, foldl_cons, foldl_nil] at hfold
    split at hfold
    · obtain ⟨fragment, hmem, hlast⟩ := ih hfold
      exact ⟨fragment, mem_append_left _ hmem, hlast⟩
    · rename_i hmore
      exact ⟨last, by simp, by simpa using hmore, hfold⟩

theorem OfMsdu.whole {fragments : Fragments} {sequenceNumber : SequenceNumber}
    (h : fragments.OfMsdu sequenceNumber) (hcomplete : fragments.isComplete = true) :
    fragments.Whole sequenceNumber := by
  unfold isComplete at hcomplete
  rw [decide_eq_true_eq, h.nodup.dedup, length_map] at hcomplete
  obtain ⟨hne, hcount⟩ := hcomplete
  obtain ⟨last, hlast, hmore, hnumber⟩ := exists_of_largestFragmentNumber rfl hne
  have hle : ∀ fragment ∈ fragments.toList, fragment.fragmentNumber ≤ last.fragmentNumber := by
    intro fragment hmem
    rcases h.fits fragment hmem last hlast with heq | hlt | hgt
    · exact heq.le
    · exact hlt.1.le
    · rw [hmore] at hgt
      exact absurd hgt.2 false_ne_true
  refine ⟨last.fragmentNumber, ?_, ?_⟩
  · have hsubset : fragments.toList.map (·.fragmentNumber) ⊆
        range (last.fragmentNumber + 1) := by
      intro number hmem
      obtain ⟨fragment, hfragment, rfl⟩ := mem_map.mp hmem
      exact mem_range.mpr (Nat.lt_succ_of_le (hle fragment hfragment))
    have hsubperm := subperm_of_subset h.nodup hsubset
    apply hsubperm.perm_of_length_le
    rw [length_range, length_map]
    omega
  · intro fragment hmem
    refine ⟨h.sequenceNumber_eq fragment hmem, ?_⟩
    constructor
    · intro hfalse
      rcases h.fits fragment hmem last hlast with heq | hlt | hgt
      · exact heq
      · rw [hfalse] at hlt
        exact absurd hlt.2 false_ne_true
      · rw [hmore] at hgt
        exact absurd hgt.2 false_ne_true
    · intro heq
      have hsame := inj_on_of_nodup_map h.nodup hmem hlast heq
      rw [hsame]
      exact hmore

theorem ofMsdu_single (mpdu : Mpdu) : OfMsdu ⟨mpdu, []⟩ mpdu.sequenceNumber where
  sequenceNumber_eq := by simp [toList]
  nodup := by simp [toList]
  fits := by simp [toList, Mpdu.Fits]

theorem toList_pushBack (fragments : Fragments) (mpdu : Mpdu) :
    (fragments.pushBack mpdu).toList = fragments.toList ++ [mpdu] := rfl

/-- A fragment with a new number that fits the others. -/
theorem OfMsdu.pushBack {fragments : Fragments} {mpdu : Mpdu}
    (h : fragments.OfMsdu mpdu.sequenceNumber)
    (hnew : ∀ fragment ∈ fragments.toList, fragment.fragmentNumber ≠ mpdu.fragmentNumber)
    (hfits : ∀ fragment ∈ fragments.toList, mpdu.Fits fragment) :
    (fragments.pushBack mpdu).OfMsdu mpdu.sequenceNumber where
  sequenceNumber_eq := by
    intro fragment hmem
    rw [toList_pushBack, mem_append, mem_singleton] at hmem
    rcases hmem with hmem | rfl
    · exact h.sequenceNumber_eq fragment hmem
    · rfl
  nodup := by
    rw [toList_pushBack, map_append, nodup_append]
    refine ⟨h.nodup, by simp, ?_⟩
    intro number hnumber other hother
    obtain ⟨fragment, hmem, rfl⟩ := mem_map.mp hnumber
    rw [map_singleton, mem_singleton] at hother
    rw [hother]
    exact hnew fragment hmem
  fits := by
    intro a ha b hb
    rw [toList_pushBack, mem_append, mem_singleton] at ha hb
    rcases ha with ha | rfl
    · rcases hb with hb | rfl
      · exact h.fits a ha b hb
      · exact (hfits a ha).symm
    · rcases hb with hb | rfl
      · exact hfits b hb
      · exact .inl rfl

end Fragments

/-! ## The window -/

/-- The MPDUs in a part of the buffer. -/
def mpdus (entries : ReorderBuffer) : List Mpdu := entries.flatMap fun it ↦ it.2.toList

@[simp]
theorem mpdus_append (a b : ReorderBuffer) : mpdus (a ++ b) = mpdus a ++ mpdus b :=
  flatMap_append

@[simp]
theorem mpdus_cons (it : SequenceNumber × Fragments) (entries : ReorderBuffer) :
    mpdus (it :: entries) = it.2.toList ++ mpdus entries :=
  flatMap_cons

theorem length_mpdus (entries : ReorderBuffer) :
    (mpdus entries).length = ReceiveBuffer.numMpdus entries := by
  rw [mpdus, length_flatMap]
  rfl

namespace ReceiveBuffer

theorem numMpdus_append (a b : ReorderBuffer) : numMpdus (a ++ b) = numMpdus a + numMpdus b := by
  simp [numMpdus]

theorem numMpdus_cons (it : SequenceNumber × Fragments) (entries : ReorderBuffer) :
    numMpdus (it :: entries) = it.2.size + numMpdus entries := by
  simp [numMpdus]

/-- The buffer ascends from the next expected sequence number and stays in the window, its entries
are parts of MSDUs, and the length counts its MPDUs. -/
structure InWindow (receiveBuffer : ReceiveBuffer) : Prop where
  bufferSize_lt : receiveBuffer.bufferSize < 1024
  ascending : Ascending (offset receiveBuffer.nextExpectedSequenceNumber) receiveBuffer.buffer
  window : ∀ it ∈ receiveBuffer.buffer,
    offset receiveBuffer.nextExpectedSequenceNumber it.1 < receiveBuffer.bufferSize
  msdus : ∀ it ∈ receiveBuffer.buffer, it.2.OfMsdu it.1
  counted : receiveBuffer.length = numMpdus receiveBuffer.buffer
  bounded : receiveBuffer.length ≤ receiveBuffer.bufferSize

variable {receiveBuffer : ReceiveBuffer}

/-- Sequence numbers up to half of the ring ahead are compared with those in the buffer as their
distances are. -/
theorem InWindow.less_iff (h : receiveBuffer.InWindow) {s : SequenceNumber}
    (hs : offset receiveBuffer.nextExpectedSequenceNumber s < 2048)
    {it : SequenceNumber × Fragments} (hit : it ∈ receiveBuffer.buffer) :
    (less it.1 s = true ↔ offset receiveBuffer.nextExpectedSequenceNumber it.1 <
      offset receiveBuffer.nextExpectedSequenceNumber s) ∧
    (less s it.1 = true ↔ offset receiveBuffer.nextExpectedSequenceNumber s <
      offset receiveBuffer.nextExpectedSequenceNumber it.1) := by
  have hwindow := h.window it hit
  have hsize := h.bufferSize_lt
  exact ⟨SequenceNumber.less_iff (by omega) (by omega),
    SequenceNumber.less_iff (by omega) (by omega)⟩

theorem InWindow.agrees (h : receiveBuffer.InWindow) {s : SequenceNumber}
    (hs : offset receiveBuffer.nextExpectedSequenceNumber s < 2048) :
    Agrees less (offset receiveBuffer.nextExpectedSequenceNumber) receiveBuffer.buffer s :=
  ⟨fun _ hit ↦ (h.less_iff hs hit).1, fun _ hit ↦ (h.less_iff hs hit).2,
    fun _ _ heq ↦ eq_of_offset_eq heq⟩

theorem InWindow.key_lt (h : receiveBuffer.InWindow) {it : SequenceNumber × Fragments}
    (hit : it ∈ receiveBuffer.buffer) :
    offset receiveBuffer.nextExpectedSequenceNumber it.1 < 2048 := by
  have hwindow := h.window it hit
  have hsize := h.bufferSize_lt
  omega

/-- The receive buffer with some of its entries and a new next expected sequence number. -/
def startAt (receiveBuffer : ReceiveBuffer) (next : SequenceNumber) (entries : ReorderBuffer) :
    ReceiveBuffer :=
  { receiveBuffer with
    buffer := entries, length := numMpdus entries, nextExpectedSequenceNumber := next }

/-- The window may be moved up to the first one of the entries that stay. -/
theorem InWindow.suffix (h : receiveBuffer.InWindow) {next : SequenceNumber}
    {entries : ReorderBuffer} (hsub : entries.Sublist receiveBuffer.buffer)
    (hnext : ∀ it ∈ entries, offset receiveBuffer.nextExpectedSequenceNumber next ≤
      offset receiveBuffer.nextExpectedSequenceNumber it.1) :
    (receiveBuffer.startAt next entries).InWindow where
  bufferSize_lt := h.bufferSize_lt
  ascending := by
    have hascending : entries.Pairwise fun a b ↦
        offset receiveBuffer.nextExpectedSequenceNumber a.1 <
          offset receiveBuffer.nextExpectedSequenceNumber b.1 :=
      sublist hsub h.ascending
    apply hascending.imp_of_mem
    intro a b ha hb hlt
    dsimp only [startAt]
    rw [offset_of_le (hnext a ha), offset_of_le (hnext b hb)]
    have hle := hnext a ha
    omega
  window := by
    intro it hit
    have hwindow := h.window it (hsub.subset hit)
    dsimp only [startAt]
    rw [offset_of_le (hnext it hit)]
    omega
  msdus it hit := h.msdus it (hsub.subset hit)
  counted := rfl
  bounded := by
    have hsize : numMpdus entries ≤ numMpdus receiveBuffer.buffer := by
      rw [← length_mpdus, ← length_mpdus]
      exact (hsub.flatMap _).length_le
    have hbounded := h.bounded
    rw [h.counted] at hbounded
    dsimp only [startAt]
    omega

/-! ## Insertion -/

/-- The fragment fits those of its sequence number that are in the buffer. -/
def FitsIn (receiveBuffer : ReceiveBuffer) (mpdu : Mpdu) : Prop :=
  ∀ it ∈ receiveBuffer.buffer, it.1 = mpdu.sequenceNumber →
    ∀ fragment ∈ it.2.toList, mpdu.Fits fragment

instance (receiveBuffer : ReceiveBuffer) (mpdu : Mpdu) : Decidable (receiveBuffer.FitsIn mpdu) :=
  inferInstanceAs (Decidable (∀ _ ∈ _, _))

/-- A buffer in which one entry was replaced or added. -/
theorem InWindow.replace (h : receiveBuffer.InWindow) {s : SequenceNumber} {fragments : Fragments}
    {before after old : ReorderBuffer} (hbuffer : receiveBuffer.buffer = before ++ old ++ after)
    (hascending : Ascending (offset receiveBuffer.nextExpectedSequenceNumber)
      (before ++ (s, fragments) :: after))
    (hmsdu : fragments.OfMsdu s) (hsize : fragments.size = numMpdus old + 1)
    (hs : offset receiveBuffer.nextExpectedSequenceNumber s < receiveBuffer.bufferSize)
    (hroom : receiveBuffer.length < receiveBuffer.bufferSize) :
    InWindow { receiveBuffer with
      buffer := before ++ (s, fragments) :: after, length := receiveBuffer.length + 1 } := by
  have hmem : ∀ it ∈ before ++ (s, fragments) :: after,
      it = (s, fragments) ∨ it ∈ receiveBuffer.buffer := by
    intro it hit
    rw [hbuffer]
    simp only [mem_append, mem_cons] at hit ⊢
    tauto
  refine ⟨h.bufferSize_lt, hascending, ?_, ?_, ?_, hroom⟩
  · intro it hit
    rcases hmem it hit with rfl | hit
    · exact hs
    · exact h.window it hit
  · intro it hit
    rcases hmem it hit with rfl | hit
    · exact hmsdu
    · exact h.msdus it hit
  · have hcounted := h.counted
    rw [hbuffer, numMpdus_append, numMpdus_append] at hcounted
    rw [numMpdus_append, numMpdus_cons]
    dsimp only
    omega

/-- An MPDU is rejected, or it joins the fragments of its sequence number. -/
theorem InWindow.insertFrame (h : receiveBuffer.InWindow) {mpdu : Mpdu}
    (hfits : receiveBuffer.FitsIn mpdu) :
    receiveBuffer.insertFrame mpdu = (false, receiveBuffer) ∨
      ∃ after, receiveBuffer.insertFrame mpdu = (true, after) ∧ after.InWindow ∧
        after.nextExpectedSequenceNumber = receiveBuffer.nextExpectedSequenceNumber ∧
        after.bufferSize = receiveBuffer.bufferSize ∧
        (mpdus after.buffer).Perm (mpdus receiveBuffer.buffer ++ [mpdu]) := by
  by_cases hroom : receiveBuffer.length < receiveBuffer.bufferSize ∧
      lessEq receiveBuffer.nextExpectedSequenceNumber mpdu.sequenceNumber = true ∧
      less mpdu.sequenceNumber (receiveBuffer.nextExpectedSequenceNumber +
        BitVec.ofNat 12 receiveBuffer.bufferSize) = true
  · have hsmall := h.bufferSize_lt
    have hahead := lessEq_iff_offset.mp hroom.2.1
    have hend := offset_add receiveBuffer.nextExpectedSequenceNumber receiveBuffer.bufferSize
    have hs : offset receiveBuffer.nextExpectedSequenceNumber mpdu.sequenceNumber <
        receiveBuffer.bufferSize := by
      have hlt : offset receiveBuffer.nextExpectedSequenceNumber mpdu.sequenceNumber <
          offset receiveBuffer.nextExpectedSequenceNumber
            (receiveBuffer.nextExpectedSequenceNumber +
              BitVec.ofNat 12 receiveBuffer.bufferSize) :=
        (SequenceNumber.less_iff (by omega) (by omega)).mp hroom.2.2
      omega
    obtain ⟨before, after, -, hassign, -, ⟨hsplit, hfind⟩ | ⟨fragments, hsplit, hfind⟩⟩ :=
      h.ascending.parts (h.agrees hahead)
    · right
      have hbuffer : receiveBuffer.buffer = before ++ [] ++ after := by simpa using hsplit
      have hinsert : receiveBuffer.insertFrame mpdu = (true,
          { receiveBuffer with
            buffer := before ++ (mpdu.sequenceNumber, ⟨mpdu, []⟩) :: after
            length := receiveBuffer.length + 1 }) := by
        rw [ReceiveBuffer.insertFrame, if_pos hroom, hfind, (hassign _).2]
      refine ⟨_, hinsert, ?_, rfl, rfl, ?_⟩
      · exact h.replace hbuffer (hassign _).1 (Fragments.ofMsdu_single mpdu) rfl hs hroom.1
      · rw [hsplit]
        simp only [mpdus_append, mpdus_cons, Fragments.toList, append_assoc]
        exact perm_append_comm.append_left _
    · have hentry : (mpdu.sequenceNumber, fragments) ∈ receiveBuffer.buffer := by
        rw [hsplit]
        simp
      have hmsdu := h.msdus _ hentry
      by_cases hduplicate : fragments.toList.any fun fragment ↦
          fragment.sequenceNumber = mpdu.sequenceNumber ∧
            fragment.fragmentNumber = mpdu.fragmentNumber
      · left
        rw [ReceiveBuffer.insertFrame, if_pos hroom, hfind]
        simp only [hduplicate, if_true]
      · right
        have hnew : ∀ fragment ∈ fragments.toList,
            fragment.fragmentNumber ≠ mpdu.fragmentNumber := by
          intro fragment hmem heq
          apply hduplicate
          rw [any_eq_true]
          exact ⟨fragment, hmem, by simp [heq, hmsdu.sequenceNumber_eq fragment hmem]⟩
        have hbuffer : receiveBuffer.buffer =
            before ++ [(mpdu.sequenceNumber, fragments)] ++ after := by simpa using hsplit
        have hinsert : receiveBuffer.insertFrame mpdu = (true,
            { receiveBuffer with
              buffer := before ++ (mpdu.sequenceNumber, fragments.pushBack mpdu) :: after
              length := receiveBuffer.length + 1 }) := by
          rw [ReceiveBuffer.insertFrame, if_pos hroom, hfind, ← (hassign _).2]
          exact if_neg hduplicate
        refine ⟨_, hinsert, ?_, rfl, rfl, ?_⟩
        · apply h.replace hbuffer (hassign _).1 _ _ hs hroom.1
          · exact hmsdu.pushBack hnew (hfits _ hentry rfl)
          · simp [Fragments.size, Fragments.toList_pushBack, numMpdus]
        · rw [hsplit]
          simp only [mpdus_append, mpdus_cons, Fragments.toList_pushBack, append_assoc]
          exact (perm_append_comm.append_left _).append_left _
  · left
    rw [ReceiveBuffer.insertFrame, if_neg hroom]

end ReceiveBuffer

/-! ## Passing up -/

namespace BlockAckReordering

open ReceiveBuffer

variable {receiveBuffer : ReceiveBuffer}

/-- An entry is passed up: it leaves the buffer with all that is before it, and the window starts
behind it. -/
theorem passedUp_of_mem (h : receiveBuffer.InWindow) (agreement : RecipientBlockAckAgreement)
    {s : SequenceNumber} {fragments : Fragments} {before after : ReorderBuffer}
    (hbuffer : receiveBuffer.buffer = before ++ (s, fragments) :: after) :
    passedUp agreement receiveBuffer s =
      .ok ({ agreement with blockAckRecord := agreement.blockAckRecord.removeAckStates s },
        receiveBuffer.startAt (s + 1) after) := by
  have hentry : (s, fragments) ∈ receiveBuffer.buffer := by
    rw [hbuffer]
    simp
  have hascending := h.ascending
  unfold Ascending at hascending
  rw [hbuffer, pairwise_append, pairwise_cons] at hascending
  have hbefore : ∀ e ∈ before, less e.1 s = true := by
    intro e he
    have hmem : e ∈ receiveBuffer.buffer := hbuffer ▸ mem_append_left _ he
    exact (h.less_iff (h.key_lt hentry) hmem).1.mpr (hascending.2.2 e he _ mem_cons_self)
  have hafter : ∀ e ∈ after, less e.1 s = false := by
    intro e he
    have hmem : e ∈ receiveBuffer.buffer :=
      hbuffer ▸ mem_append_right _ (mem_cons_of_mem _ he)
    rw [← not_eq_true, (h.less_iff (h.key_lt hentry) hmem).1]
    exact (hascending.2.1.1 e he).not_gt
  have hkept : receiveBuffer.buffer.filter (fun it ↦ !less it.1 s) = (s, fragments) :: after := by
    rw [hbuffer, filter_append, filter_eq_nil_iff.mpr (by simpa using hbefore),
      filter_eq_self.mpr]
    · rfl
    · intro e he
      rcases mem_cons.mp he with rfl | he
      · simp
      · simp [hafter e he]
  have hdropped : receiveBuffer.buffer.filter (fun it ↦ less it.1 s) = before := by
    rw [hbuffer, filter_append, filter_eq_self.mpr hbefore,
      filter_eq_nil_iff.mpr, append_nil]
    intro e he
    rcases mem_cons.mp he with rfl | he
    · simp
    · simp [hafter e he]
  have hfind : find less ((s, fragments) :: after) s = some (s, fragments) :=
    find_append_cons (forall_mem_nil _) (less_self s)
  have herase : erase less ((s, fragments) :: after) s = after :=
    erase_append_cons (forall_mem_nil _) (less_self s)
  have hlength : receiveBuffer.length - numMpdus before - fragments.size = numMpdus after := by
    have hcounted := h.counted
    rw [hbuffer, numMpdus_append, numMpdus_cons] at hcounted
    dsimp only at hcounted
    omega
  have hremove : ((receiveBuffer.setNextExpectedSequenceNumber (s + 1)).dropFramesUntil
      s).removeFrame s = .ok (receiveBuffer.startAt (s + 1) after) := by
    simp only [ReceiveBuffer.startAt, ReceiveBuffer.removeFrame, ReceiveBuffer.dropFramesUntil,
      ReceiveBuffer.setNextExpectedSequenceNumber, hkept, hdropped, hfind, herase, hlength]
  unfold passedUp
  rw [bind_of_ok hremove]
  rfl

/-- The window after an entry was passed up. -/
theorem inWindow_after (h : receiveBuffer.InWindow) {s : SequenceNumber} {fragments : Fragments}
    {before after : ReorderBuffer}
    (hbuffer : receiveBuffer.buffer = before ++ (s, fragments) :: after) :
    offset receiveBuffer.nextExpectedSequenceNumber (s + 1) =
        offset receiveBuffer.nextExpectedSequenceNumber s + 1 ∧
      (receiveBuffer.startAt (s + 1) after).InWindow := by
  have hentry : (s, fragments) ∈ receiveBuffer.buffer := by
    rw [hbuffer]
    simp
  have hkey : offset receiveBuffer.nextExpectedSequenceNumber s < 2048 := h.key_lt hentry
  have hnext : offset receiveBuffer.nextExpectedSequenceNumber (s + BitVec.ofNat 12 1) =
      offset receiveBuffer.nextExpectedSequenceNumber s + 1 :=
    offset_add_of_lt (by omega)
  refine ⟨hnext, h.suffix ?_ ?_⟩
  · rw [hbuffer]
    exact (sublist_cons_self _ _).trans (sublist_append_right _ _)
  · intro it hit
    have hascending := h.ascending
    unfold Ascending at hascending
    rw [hbuffer, pairwise_append, pairwise_cons] at hascending
    exact hnext.trans_le (hascending.2.1.1 it hit)

/-- Entries that are passed up in ascending order. -/
theorem releaseReceiveBuffer_of_subset {released : ReorderBuffer} :
    ∀ {receiveBuffer : ReceiveBuffer} (agreement : RecipientBlockAckAgreement),
      receiveBuffer.InWindow → released ⊆ receiveBuffer.buffer →
      Ascending (offset receiveBuffer.nextExpectedSequenceNumber) released →
      ∃ agreement' after,
        releaseReceiveBuffer agreement receiveBuffer released = .ok (agreement', after) ∧
        after.InWindow ∧ after.bufferSize = receiveBuffer.bufferSize ∧
        (released = [] → after = receiveBuffer) ∧
        (∀ it ∈ released.getLast?, after.nextExpectedSequenceNumber = it.1 + 1) ∧
        (released ++ after.buffer).Sublist receiveBuffer.buffer ∧
        ∀ e ∈ receiveBuffer.buffer, (∀ it ∈ released,
          offset receiveBuffer.nextExpectedSequenceNumber it.1 <
            offset receiveBuffer.nextExpectedSequenceNumber e.1) → e ∈ after.buffer := by
  induction released with
  | nil =>
    intro receiveBuffer agreement h _ _
    exact ⟨agreement, receiveBuffer, rfl, h, rfl, fun _ ↦ rfl, nofun, List.Sublist.refl _,
      fun e he _ ↦ he⟩
  | cons it released ih =>
    intro receiveBuffer agreement h hsubset hascending
    have hit := hsubset mem_cons_self
    obtain ⟨before, after, hbuffer⟩ := append_of_mem hit
    have hpassed := passedUp_of_mem h agreement hbuffer
    obtain ⟨hnext, hwindow⟩ := inWindow_after h hbuffer
    have hcons := pairwise_cons.mp hascending
    have horder := h.ascending
    unfold Ascending at horder
    rw [hbuffer, pairwise_append, pairwise_cons] at horder
    have hbehind : ∀ e ∈ receiveBuffer.buffer,
        offset receiveBuffer.nextExpectedSequenceNumber it.1 <
          offset receiveBuffer.nextExpectedSequenceNumber e.1 → e ∈ after := by
      intro e hmem hlt
      rw [hbuffer, mem_append, mem_cons] at hmem
      rcases hmem with hbefore | rfl | hafter
      · have hgt := horder.2.2 e hbefore it mem_cons_self
        omega
      · omega
      · exact hafter
    have hlater : released ⊆ after := fun e he ↦
      hbehind e (hsubset (mem_cons_of_mem it he)) (hcons.1 e he)
    have hle : ∀ e ∈ released, offset receiveBuffer.nextExpectedSequenceNumber (it.1 + 1) ≤
        offset receiveBuffer.nextExpectedSequenceNumber e.1 := by
      intro e he
      rw [hnext]
      exact hcons.1 e he
    have hmoved : Ascending (offset (it.1 + 1)) released := by
      apply hcons.2.imp_of_mem
      intro a b ha hb hlt
      rw [offset_of_le (hle a ha), offset_of_le (hle b hb)]
      have hlea := hle a ha
      omega
    obtain ⟨agreement', after', hrelease, hwindow', hsize, hnil, hlast, hsub, hkept⟩ :=
      ih { agreement with blockAckRecord := agreement.blockAckRecord.removeAckStates it.1 } hwindow
        hlater hmoved
    refine ⟨agreement', after', ?_, hwindow', hsize, nofun, ?_, ?_, ?_⟩
    · rw [releaseReceiveBuffer, foldlM_cons, bind_of_ok hpassed]
      exact hrelease
    · cases released with
      | nil =>
        rw [hnil rfl]
        intro e he
        obtain rfl := Option.some.inj he
        rfl
      | cons next released => simpa using hlast
    · rw [hbuffer]
      exact (hsub.cons_cons it).trans (sublist_append_right before _)
    · intro e he hall
      have hfirst := hall it mem_cons_self
      apply hkept e (hbehind e he hfirst)
      intro r hr
      have hlt := hall r (mem_cons_of_mem it hr)
      have hler := hle r hr
      have hlee : offset receiveBuffer.nextExpectedSequenceNumber (it.1 + 1) ≤
          offset receiveBuffer.nextExpectedSequenceNumber e.1 := hnext.trans_le hfirst
      change offset (it.1 + 1) r.1 < offset (it.1 + 1) e.1
      rw [offset_of_le hler, offset_of_le hlee]
      omega

/-- What a call may do to the receive buffer: MSDUs that are whole are passed up in the order of the
window, which moves behind them by less than half of the ring, and no MPDU comes from elsewhere than
the buffer and what was received. -/
structure Delivers (receiveBuffer : ReceiveBuffer) (received : List Mpdu) (frames : ReorderBuffer)
    (after : ReceiveBuffer) : Prop where
  inWindow : after.InWindow
  bufferSize_eq : after.bufferSize = receiveBuffer.bufferSize
  ascending : Ascending (offset receiveBuffer.nextExpectedSequenceNumber) frames
  whole : ∀ it ∈ frames, it.2.Whole it.1
  behind : ∀ it ∈ frames, offset receiveBuffer.nextExpectedSequenceNumber it.1 <
    offset receiveBuffer.nextExpectedSequenceNumber after.nextExpectedSequenceNumber
  move : offset receiveBuffer.nextExpectedSequenceNumber after.nextExpectedSequenceNumber < 2048
  once : (mpdus frames ++ mpdus after.buffer).Subperm (mpdus receiveBuffer.buffer ++ received)

/-- Complete entries that are released in ascending order are delivered. -/
theorem delivers_of_sublist (h : receiveBuffer.InWindow) {after : ReceiveBuffer}
    {released : ReorderBuffer} (hwindow : after.InWindow)
    (hsize : after.bufferSize = receiveBuffer.bufferSize)
    (hcomplete : ∀ it ∈ released, it.2.isComplete = true)
    (hnil : released = [] → after = receiveBuffer)
    (hlast : ∀ it ∈ released.getLast?, after.nextExpectedSequenceNumber = it.1 + 1)
    (hsub : (released ++ after.buffer).Sublist receiveBuffer.buffer) :
    Delivers receiveBuffer [] released after := by
  have hreleased := (sublist_append_left released after.buffer).trans hsub
  have hascending : Ascending (offset receiveBuffer.nextExpectedSequenceNumber) released :=
    sublist hreleased h.ascending
  have honce : (mpdus released ++ mpdus after.buffer).Subperm
    (mpdus receiveBuffer.buffer ++ []) := by
    rw [append_nil, ← mpdus_append]
    exact (hsub.flatMap _).subperm
  have hwhole : ∀ it ∈ released, it.2.Whole it.1 :=
    fun it hit ↦ (h.msdus it (hreleased.subset hit)).whole (hcomplete it hit)
  cases hend : released.getLast? with
  | none =>
    have hempty := getLast?_eq_none_iff.mp hend
    rw [hnil hempty] at hwindow honce ⊢
    refine ⟨hwindow, rfl, hascending, hwhole, ?_, ?_, honce⟩
    · rw [hempty]
      nofun
    · rw [offset_self]
      omega
  | some last =>
    have hmem := mem_of_getLast? hend
    have hbelow := h.window last (hreleased.subset hmem)
    have hsmall := h.bufferSize_lt
    have hnext : offset receiveBuffer.nextExpectedSequenceNumber (last.1 + BitVec.ofNat 12 1) =
        offset receiveBuffer.nextExpectedSequenceNumber last.1 + 1 :=
      offset_add_of_lt (by omega)
    have hmove : offset receiveBuffer.nextExpectedSequenceNumber after.nextExpectedSequenceNumber =
        offset receiveBuffer.nextExpectedSequenceNumber last.1 + 1 := by
      rw [hlast last hend]
      exact hnext
    refine ⟨hwindow, hsize, hascending, hwhole, ?_, by omega, honce⟩
    intro it hit
    obtain ⟨front, hfront⟩ := getLast?_eq_some_iff.mp hend
    unfold Ascending at hascending
    rw [hfront, pairwise_append] at hascending
    rw [hfront, mem_append, mem_singleton] at hit
    rcases hit with hit | rfl
    · have hlt := hascending.2.2 it hit last mem_cons_self
      omega
    · omega

/-! ## A received MPDU -/

/-- The search ends with the first complete entry of the map. -/
theorem getEarliestCompleteMsduOrAMsduIfExists_eq (h : receiveBuffer.InWindow) :
    getEarliestCompleteMsduOrAMsduIfExists receiveBuffer =
      (receiveBuffer.buffer.find? fun it ↦ it.2.isComplete).map (·.2) := by
  unfold getEarliestCompleteMsduOrAMsduIfExists
  cases hfind : receiveBuffer.buffer.find? fun it ↦ it.2.isComplete with
  | none => rfl
  | some entry =>
    have hentry := mem_of_find?_eq_some hfind
    have hkey : ∀ it ∈ receiveBuffer.buffer, it.2.first.sequenceNumber = it.1 :=
      fun it hit ↦ (h.msdus it hit).sequenceNumber_eq _ mem_cons_self
    have hearlier : ∀ it ∈ receiveBuffer.buffer,
        (less it.2.first.sequenceNumber entry.2.first.sequenceNumber && it.2.isComplete) =
          false := by
      intro it hit
      rw [hkey it hit, hkey entry hentry, ← not_eq_true, and_eq_true]
      rintro ⟨hless, hcomplete⟩
      have hlt := (h.less_iff (h.key_lt hentry) hit).1.mp hless
      obtain ⟨-, before, after, hbuffer, hbefore⟩ := find?_eq_some_iff_append.mp hfind
      have hascending := h.ascending
      unfold Ascending at hascending
      rw [hbuffer, pairwise_append, pairwise_cons] at hascending
      rw [hbuffer, mem_append, mem_cons] at hit
      rcases hit with hit | rfl | hit
      · simpa [hcomplete] using hbefore it hit
      · omega
      · have hgt := hascending.2.1.1 it hit
        omega
    rw [Option.map_some, Option.map_some]
    congr 1
    generalize receiveBuffer.buffer = entries at hearlier
    induction entries with
    | nil => rfl
    | cons it entries ih =>
      rw [foldl_cons, hearlier it mem_cons_self]
      exact ih fun it hit ↦ hearlier it (mem_cons_of_mem _ hit)

/-- After an insertion at most one MSDU is passed up. -/
theorem passUpEarliest_delivers (h : receiveBuffer.InWindow)
    (agreement : RecipientBlockAckAgreement) :
    ∃ frames agreement' after,
      passUpEarliest agreement receiveBuffer = .ok (frames, ⟨agreement', some after⟩) ∧
        Delivers receiveBuffer [] frames after := by
  have hstays : Delivers receiveBuffer [] [] receiveBuffer :=
    delivers_of_sublist h h rfl nofun (fun _ ↦ rfl) nofun (List.Sublist.refl _)
  unfold passUpEarliest
  rw [getEarliestCompleteMsduOrAMsduIfExists_eq h]
  cases hfind : receiveBuffer.buffer.find? fun it ↦ it.2.isComplete with
  | none => exact ⟨[], agreement, receiveBuffer, rfl, hstays⟩
  | some entry =>
    obtain ⟨hcomplete, before, after, hbuffer, -⟩ := find?_eq_some_iff_append.mp hfind
    have hentry := mem_of_find?_eq_some hfind
    have hkey : entry.2.first.sequenceNumber = entry.1 :=
      (h.msdus entry hentry).sequenceNumber_eq _ mem_cons_self
    have hfull : receiveBuffer.isFull =
        .ok (decide (receiveBuffer.length = receiveBuffer.bufferSize)) := by
      unfold ReceiveBuffer.isFull
      rw [bind_of_ok (assert_of h.bounded)]
      rfl
    simp only [Option.map_some, hkey]
    rw [bind_of_ok hfull]
    split
    · have hpassed := passedUp_of_mem h agreement hbuffer
      rw [bind_of_ok hpassed]
      refine ⟨[entry], _, _, rfl, ?_⟩
      apply delivers_of_sublist h (inWindow_after h hbuffer).2 rfl
      · simpa using hcomplete
      · nofun
      · simp [ReceiveBuffer.startAt]
      · rw [hbuffer]
        exact sublist_append_right before (entry :: after)
    · exact ⟨[], agreement, receiveBuffer, rfl, hstays⟩

theorem processReceivedQoSFrame_delivers {recipient : Recipient} {mpdu : Mpdu}
    (h : (createReceiveBufferIfNecessary recipient).InWindow)
    (hfits : (createReceiveBufferIfNecessary recipient).FitsIn mpdu) :
    ∃ frames recipient', processReceivedQoSFrame recipient mpdu = .ok (frames, recipient') ∧
      Delivers (createReceiveBufferIfNecessary recipient) [mpdu] frames
        (createReceiveBufferIfNecessary recipient') := by
  unfold processReceivedQoSFrame
  rcases h.insertFrame hfits with hrejected | ⟨inserted, hinserted, hwindow, hnext, hsize, hperm⟩
  · rw [hrejected]
    refine ⟨[], _, rfl, ?_⟩
    have hstays : Delivers (createReceiveBufferIfNecessary recipient) [] []
        (createReceiveBufferIfNecessary recipient) :=
      delivers_of_sublist h h rfl nofun (fun _ ↦ rfl) nofun (List.Sublist.refl _)
    exact { hstays with once := (sublist_append_left _ _).subperm }
  · rw [hinserted]
    obtain ⟨frames, agreement', after, hpass, hdelivers⟩ :=
      passUpEarliest_delivers hwindow
        (if mpdu.ackPolicy = .BLOCK_ACK then recipient.agreement.blockAckPolicyFrameReceived mpdu
          else recipient.agreement)
    refine ⟨frames, _, hpass, ?_⟩
    obtain ⟨hafter, hsize', hascending, hwhole, hbehind, hmove, honce⟩ := hdelivers
    rw [hnext] at hascending hbehind hmove
    refine ⟨hafter, hsize'.trans hsize, hascending, hwhole, hbehind, hmove, ?_⟩
    rw [append_nil] at honce
    exact honce.trans hperm.subperm

/-! ## A BlockAckReq -/

section

variable (h : receiveBuffer.InWindow)
include h

/-- The complete entries before the starting sequence number, in the order of the map. -/
theorem collectCompletePrecedingMpdus_eq (start : SequenceNumber) :
    collectCompletePrecedingMpdus receiveBuffer start =
      receiveBuffer.buffer.filter fun it ↦ less it.1 start && it.2.isComplete := by
  have hcollect : ∀ (rest collected : ReorderBuffer),
      (collected ++ rest).Pairwise (fun a b ↦ less a.1 b.1 = true) →
      rest.foldl (fun collected it ↦
        if less it.1 start && it.2.isComplete then
          assign less collected it.1 it.2
        else collected) collected =
          collected ++ rest.filter fun it ↦ less it.1 start && it.2.isComplete := by
    intro rest
    induction rest with
    | nil => simp
    | cons it rest ih =>
      intro collected hpairs
      rw [foldl_cons]
      by_cases hpasses : (less it.1 start && it.2.isComplete) = true
      · have hbefore : ∀ e ∈ collected, less e.1 it.1 = true := fun e he ↦
          (pairwise_append.mp hpairs).2.2 e he it mem_cons_self
        rw [if_pos hpasses, assign_last hbefore, filter_cons, if_pos hpasses,
          ih _ (by simpa using hpairs)]
        simp
      · have hskipped : (collected ++ rest).Pairwise fun a b ↦ less a.1 b.1 = true :=
          sublist ((sublist_cons_self it rest).append_left collected) hpairs
        rw [if_neg hpasses, filter_cons, if_neg hpasses, ih _ hskipped]
  have hpairs : receiveBuffer.buffer.Pairwise fun a b ↦ less a.1 b.1 = true := by
    apply h.ascending.imp_of_mem
    intro a b ha hb hlt
    exact (h.less_iff (h.key_lt hb) ha).1.mpr hlt
  exact hcollect receiveBuffer.buffer [] hpairs

/-- A round of the loop: the map is asked for a sequence number at most half of the ring ahead. -/
theorem addMsduIfComplete_eq_some {collected frames : ReorderBuffer} {s : SequenceNumber}
    (hs : offset receiveBuffer.nextExpectedSequenceNumber s < 2048)
    (hadd : addMsduIfComplete receiveBuffer collected s = some frames) :
    ∃ fragments, (s, fragments) ∈ receiveBuffer.buffer ∧ fragments.isComplete = true ∧
      frames = assign less collected s fragments := by
  unfold addMsduIfComplete at hadd
  cases hfind : find less receiveBuffer.buffer s with
  | none =>
    rw [hfind] at hadd
    cases hadd
  | some e =>
    obtain ⟨hmem, rfl⟩ := (h.ascending.find_eq_some_iff (h.agrees hs)).mp hfind
    rw [hfind] at hadd
    simp only [Option.ite_none_right_eq_some, Option.some.injEq] at hadd
    exact ⟨e.2, hmem, hadd.1, hadd.2.symm⟩

variable {start : SequenceNumber}

/-- The loop collects complete entries from the starting sequence number on. -/
theorem collectFrom_spec : ∀ (rounds i : ℕ) (collected : ReorderBuffer),
      offset receiveBuffer.nextExpectedSequenceNumber start + i < 2048 →
      (∀ e ∈ collected, e ∈ receiveBuffer.buffer ∧
        offset receiveBuffer.nextExpectedSequenceNumber e.1 <
          offset receiveBuffer.nextExpectedSequenceNumber start + i) →
      ∃ found, collectFrom receiveBuffer start rounds i collected = collected ++ found ∧
        found ⊆ receiveBuffer.buffer ∧
        Ascending (offset receiveBuffer.nextExpectedSequenceNumber) found ∧
        ∀ e ∈ found, e.2.isComplete = true ∧
          offset receiveBuffer.nextExpectedSequenceNumber start + i ≤
            offset receiveBuffer.nextExpectedSequenceNumber e.1 := by
  intro rounds
  induction rounds with
  | zero =>
    intro i collected _ _
    exact ⟨[], (append_nil collected).symm, nil_subset _, .nil, nofun⟩
  | succ rounds ih =>
    intro i collected hi hcollected
    have hs : offset receiveBuffer.nextExpectedSequenceNumber (start + BitVec.ofNat 12 i) =
        offset receiveBuffer.nextExpectedSequenceNumber start + i := offset_add_of_lt (by omega)
    unfold collectFrom
    cases hadd : addMsduIfComplete receiveBuffer collected (start + BitVec.ofNat 12 i) with
    | none => exact ⟨[], (append_nil collected).symm, nil_subset _, .nil, nofun⟩
    | some frames =>
      obtain ⟨fragments, hentry, hcomplete, rfl⟩ :=
        addMsduIfComplete_eq_some h (by omega) hadd
      have hbelow : offset receiveBuffer.nextExpectedSequenceNumber
          (start + BitVec.ofNat 12 i) < receiveBuffer.bufferSize := h.window _ hentry
      have hsize := h.bufferSize_lt
      have hless : ∀ e ∈ collected, less e.1 (start + BitVec.ofNat 12 i) = true := by
        intro e he
        obtain ⟨hmem, hlt⟩ := hcollected e he
        apply (h.less_iff (by omega) hmem).1.mpr
        omega
      have hnext : ∀ e ∈ collected ++ [(start + BitVec.ofNat 12 i, fragments)],
          e ∈ receiveBuffer.buffer ∧ offset receiveBuffer.nextExpectedSequenceNumber e.1 <
            offset receiveBuffer.nextExpectedSequenceNumber start + (i + 1) := by
        intro e he
        rw [mem_append, mem_singleton] at he
        rcases he with he | rfl
        · have hlt := (hcollected e he).2
          exact ⟨(hcollected e he).1, by omega⟩
        · exact ⟨hentry, by dsimp only; omega⟩
      obtain ⟨found, heq, hsubset, hascending, hfound⟩ := ih (i + 1) _ (by omega) hnext
      refine ⟨(start + BitVec.ofNat 12 i, fragments) :: found, ?_, ?_, ?_, ?_⟩
      · dsimp only
        rw [assign_last hless, heq, append_assoc]
        rfl
      · exact cons_subset.mpr ⟨hentry, hsubset⟩
      · apply pairwise_cons.mpr ⟨_, hascending⟩
        intro e he
        have hle := (hfound e he).2
        dsimp only
        omega
      · intro e he
        rcases mem_cons.mp he with rfl | he
        · exact ⟨hcomplete, by dsimp only; omega⟩
        · have hle := (hfound e he).2
          exact ⟨(hfound e he).1, by omega⟩

theorem find_of_mem {s : SequenceNumber} {fragments : Fragments}
    (hentry : (s, fragments) ∈ receiveBuffer.buffer) :
    find less receiveBuffer.buffer s = some (s, fragments) :=
  (h.ascending.find_eq_some_iff (h.agrees (h.key_lt hentry))).mpr ⟨hentry, rfl⟩

/-- A complete MSDU with the starting sequence number is collected. -/
theorem mem_collectConsecutiveCompleteFollowingMpdus
    {fragments : Fragments}
    (hentry : (start, fragments) ∈ receiveBuffer.buffer) (hcomplete : fragments.isComplete = true) :
    (start, fragments) ∈ collectConsecutiveCompleteFollowingMpdus receiveBuffer start := by
  have hbelow := h.window _ hentry
  have hkey := h.key_lt hentry
  have hsize := h.bufferSize_lt
  dsimp only at hbelow hkey
  have hzero : start + BitVec.ofNat 12 0 = start := BitVec.add_zero start
  have hadd : addMsduIfComplete receiveBuffer [] start = some [(start, fragments)] := by
    unfold addMsduIfComplete
    rw [find_of_mem h hentry]
    simp only [hcomplete, if_true]
    rfl
  obtain ⟨rounds, hrounds⟩ :=
    Nat.exists_eq_succ_of_ne_zero (by omega : receiveBuffer.bufferSize ≠ 0)
  unfold collectConsecutiveCompleteFollowingMpdus
  rw [hrounds, collectFrom, hzero, hadd]
  have hcollected : ∀ e ∈ [(start, fragments)], e ∈ receiveBuffer.buffer ∧
      offset receiveBuffer.nextExpectedSequenceNumber e.1 <
        offset receiveBuffer.nextExpectedSequenceNumber start + (0 + 1) := by
    intro e he
    obtain rfl := mem_singleton.mp he
    exact ⟨hentry, by dsimp only; omega⟩
  obtain ⟨found, heq, -⟩ := collectFrom_spec h rounds (0 + 1) _ (by omega) hcollected
  dsimp only
  rw [heq]
  exact mem_append_left _ mem_cons_self

/-- Nothing is collected without one. -/
theorem exists_of_collectConsecutiveCompleteFollowingMpdus
    (hstart : offset receiveBuffer.nextExpectedSequenceNumber start < 2048)
    (hne : collectConsecutiveCompleteFollowingMpdus receiveBuffer start ≠ []) :
    ∃ it ∈ receiveBuffer.buffer, it.1 = start ∧ it.2.isComplete = true := by
  have hzero : start + BitVec.ofNat 12 0 = start := BitVec.add_zero start
  unfold collectConsecutiveCompleteFollowingMpdus at hne
  cases hrounds : receiveBuffer.bufferSize with
  | zero =>
    rw [hrounds] at hne
    exact absurd rfl hne
  | succ rounds =>
    rw [hrounds, collectFrom, hzero] at hne
    cases hadd : addMsduIfComplete receiveBuffer [] start with
    | none =>
      rw [hadd] at hne
      exact absurd rfl hne
    | some frames =>
      obtain ⟨fragments, hentry, hcomplete, -⟩ := addMsduIfComplete_eq_some h hstart hadd
      exact ⟨_, hentry, rfl, hcomplete⟩

end

/-- A BlockAckReq leaves no MPDU behind: unless a complete MSDU is before the starting sequence
number or has it, no MPDU is before it. -/
def LeavesNone (receiveBuffer : ReceiveBuffer) (start : SequenceNumber) : Prop :=
  (∀ it ∈ receiveBuffer.buffer, it.2.isComplete = true → less it.1 start = false ∧ it.1 ≠ start) →
    ∀ it ∈ receiveBuffer.buffer, less it.1 start = false

instance (receiveBuffer : ReceiveBuffer) (start : SequenceNumber) :
    Decidable (LeavesNone receiveBuffer start) :=
  inferInstanceAs (Decidable (_ → _))

/-- Without an MSDU to pass up the window moves to the starting sequence number. -/
theorem moveWindow_delivers (h : receiveBuffer.InWindow) {start : SequenceNumber}
    (hstart : offset receiveBuffer.nextExpectedSequenceNumber start < 2048)
    (hnone : ∀ it ∈ receiveBuffer.buffer, less it.1 start = false) :
    Delivers receiveBuffer [] [] (moveWindow receiveBuffer start 0) := by
  unfold moveWindow
  split
  · have hmoved : receiveBuffer.setNextExpectedSequenceNumber start =
        receiveBuffer.startAt start receiveBuffer.buffer := by
      unfold ReceiveBuffer.startAt
      rw [← h.counted]
      rfl
    rw [hmoved]
    have hahead : ∀ it ∈ receiveBuffer.buffer,
        offset receiveBuffer.nextExpectedSequenceNumber start ≤
          offset receiveBuffer.nextExpectedSequenceNumber it.1 := by
      intro it hit
      have hnot := hnone it hit
      rw [← not_eq_true, (h.less_iff hstart hit).1] at hnot
      omega
    refine ⟨h.suffix (List.Sublist.refl _) hahead, rfl, .nil, nofun, nofun, hstart, ?_⟩
    rw [append_nil]
    exact List.Subperm.refl _
  · exact delivers_of_sublist h h rfl nofun (fun _ ↦ rfl) nofun (List.Sublist.refl _)

/-- What a BlockAckReq releases: the complete MSDUs before the starting sequence number, and the
complete ones that follow each other from it on.  The window moves only if there is none. -/
structure Releases (agreement : RecipientBlockAckAgreement) (receiveBuffer : ReceiveBuffer)
    (start : SequenceNumber) (released : ReorderBuffer) (agreement' : RecipientBlockAckAgreement)
    (after : ReceiveBuffer) : Prop where
  subset : released ⊆ receiveBuffer.buffer
  ascending : Ascending (offset receiveBuffer.nextExpectedSequenceNumber) released
  complete : ∀ it ∈ released, it.2.isComplete = true
  mem : ∀ it ∈ receiveBuffer.buffer, it.2.isComplete = true →
    less it.1 start = true ∨ it.1 = start → it ∈ released
  following : ∀ it ∈ released, less it.1 start = false →
    ∃ it ∈ receiveBuffer.buffer, it.1 = start ∧ it.2.isComplete = true
  after_eq : released = [] ∧ after = moveWindow receiveBuffer start 0 ∨
    released ≠ [] ∧ releaseReceiveBuffer agreement receiveBuffer released = .ok (agreement', after)

theorem exists_released (h : receiveBuffer.InWindow) (agreement : RecipientBlockAckAgreement)
    {start : SequenceNumber}
    (hstart : offset receiveBuffer.nextExpectedSequenceNumber start < 2048) :
    ∃ released agreement' after,
      processReceivedBlockAckReq ⟨agreement, some receiveBuffer⟩ start =
        .ok (released, ⟨agreement', some after⟩) ∧
      Releases agreement receiveBuffer start released agreement' after := by
  have hpreceding := collectCompletePrecedingMpdus_eq h start
  obtain ⟨found, hfound, hsubset, hascending, hcomplete⟩ :=
    collectFrom_spec h receiveBuffer.bufferSize 0 [] hstart nofun
  have hfollowing : collectConsecutiveCompleteFollowingMpdus receiveBuffer start = found := hfound
  have hbefore : ∀ it, it ∈ receiveBuffer.buffer.filter
    (fun it ↦ less it.1 start && it.2.isComplete)
      ↔ it ∈ receiveBuffer.buffer ∧ less it.1 start = true ∧ it.2.isComplete = true := by
    intro it
    rw [mem_filter, and_eq_true]
  have hsorted : Ascending (offset receiveBuffer.nextExpectedSequenceNumber)
      (receiveBuffer.buffer.filter fun it ↦ less it.1 start && it.2.isComplete) :=
    sublist filter_sublist h.ascending
  generalize receiveBuffer.buffer.filter (fun it ↦ less it.1 start && it.2.isComplete) = preceding
    at hpreceding hbefore hsorted
  have hreleased : preceding ++ found ⊆ receiveBuffer.buffer :=
    append_subset.mpr ⟨fun it hit ↦ ((hbefore it).mp hit).1, hsubset⟩
  have horder : Ascending (offset receiveBuffer.nextExpectedSequenceNumber)
    (preceding ++ found) := by
    apply pairwise_append.mpr ⟨hsorted, hascending, _⟩
    intro a ha b hb
    obtain ⟨hmem, hless, -⟩ := (hbefore a).mp ha
    have hlt := (h.less_iff hstart hmem).1.mp hless
    have hle := (hcomplete b hb).2
    omega
  have hmerged : insertAll less preceding found = preceding ++ found := by
    apply insertAll_of_pairwise
    apply horder.imp_of_mem
    intro a b ha hb hlt
    exact (h.less_iff (h.key_lt (hreleased hb)) (hreleased ha)).1.mpr hlt
  -- what the released MSDUs are does not depend on how they are released
  have hreleases : ∀ agreement' after,
      (preceding ++ found = [] ∧ after = moveWindow receiveBuffer start 0 ∨
        preceding ++ found ≠ [] ∧ releaseReceiveBuffer agreement receiveBuffer
          (preceding ++ found) =
          .ok (agreement', after)) →
      Releases agreement receiveBuffer start (preceding ++ found) agreement' after := by
    intro agreement' after hafter
    refine ⟨hreleased, horder, ?_, ?_, ?_, hafter⟩
    · intro it hit
      rcases mem_append.mp hit with hit | hit
      · exact ((hbefore it).mp hit).2.2
      · exact (hcomplete it hit).1
    · rintro it hit hwhole (hless | rfl)
      · exact mem_append_left _ ((hbefore it).mpr ⟨hit, hless, hwhole⟩)
      · rw [← hfollowing]
        exact mem_append_right _ (mem_collectConsecutiveCompleteFollowingMpdus h hit hwhole)
    · intro it hit hnot
      rcases mem_append.mp hit with hit | hit
      · rw [((hbefore it).mp hit).2.1] at hnot
        cases hnot
      · apply exists_of_collectConsecutiveCompleteFollowingMpdus h hstart
        rw [hfollowing]
        exact ne_nil_of_mem hit
  simp only [processReceivedBlockAckReq, hpreceding, hfollowing, hmerged]
  by_cases hnothing : preceding = [] ∧ found = []
  · obtain ⟨rfl, rfl⟩ := hnothing
    exact ⟨[], agreement, _, rfl, hreleases agreement _ (.inl ⟨rfl, rfl⟩)⟩
  · have hne : preceding ++ found ≠ [] := fun hnil ↦ hnothing (append_eq_nil_iff.mp hnil)
    have hstays : moveWindow receiveBuffer start (preceding.length + found.length) =
        receiveBuffer := by
      apply if_neg
      rintro ⟨hzero, -⟩
      apply hnothing
      exact ⟨length_eq_zero_iff.mp (by omega), length_eq_zero_iff.mp (by omega)⟩
    obtain ⟨agreement', after, hrelease, -⟩ :=
      releaseReceiveBuffer_of_subset agreement h hreleased horder
    have hwhole := hrelease
    rw [releaseReceiveBuffer, foldlM_append] at hrelease
    obtain ⟨state, hfirst, hsecond⟩ := bind_eq_ok hrelease
    have hfirst' : releaseReceiveBuffer agreement receiveBuffer preceding = .ok state := hfirst
    have hsecond' : releaseReceiveBuffer state.1 state.2 found = .ok (agreement', after) := hsecond
    rw [hstays, bind_of_ok hfirst', bind_of_ok hsecond']
    exact ⟨preceding ++ found, _, _, rfl, hreleases agreement' after (.inr ⟨hne, hwhole⟩)⟩

theorem processReceivedBlockAckReq_delivers {recipient : Recipient} {start : SequenceNumber}
    (h : (createReceiveBufferIfNecessary recipient).InWindow)
    (hstart : offset recipient.nextExpectedSequenceNumber start < 2048)
    (hleaves : LeavesNone (createReceiveBufferIfNecessary recipient) start) :
    ∃ frames recipient', processReceivedBlockAckReq recipient start = .ok (frames, recipient') ∧
      Delivers (createReceiveBufferIfNecessary recipient) [] frames
        (createReceiveBufferIfNecessary recipient') := by
  obtain ⟨agreement, _ | receiveBuffer⟩ := recipient
  · exact ⟨[], _, rfl,
      delivers_of_sublist h h rfl nofun (fun _ ↦ rfl) nofun (List.Sublist.refl _)⟩
  obtain ⟨released, agreement', after, hprocess, hreleases⟩ := exists_released h agreement hstart
  refine ⟨released, _, hprocess, ?_⟩
  rcases hreleases.after_eq with ⟨rfl, rfl⟩ | ⟨hne, hrelease⟩
  · apply moveWindow_delivers h hstart
    apply hleaves
    intro it hit hwhole
    constructor
    · rw [← not_eq_true]
      exact fun hless ↦ not_mem_nil (hreleases.mem it hit hwhole (.inl hless))
    · exact fun heq ↦ not_mem_nil (hreleases.mem it hit hwhole (.inr heq))
  · obtain ⟨_, _, hrelease', hwindow, hsize, hnil, hlast, hsub, -⟩ :=
      releaseReceiveBuffer_of_subset agreement h hreleases.subset hreleases.ascending
    obtain ⟨rfl, rfl⟩ := Prod.mk.inj (Except.ok.inj (hrelease'.symm.trans hrelease))
    exact delivers_of_sublist h hwindow hsize hreleases.complete hnil hlast hsub

end BlockAckReordering

/-! ## Runs -/

namespace History

open BlockAckReordering

/-- The side condition on events.  A BlockAckReq starts less than half of the ring ahead and leaves
no MPDU behind, and an MPDU fits the fragments of its sequence number that are in the buffer. -/
def Admissible (history : History) : Event → Prop
  | .qosFrame mpdu => (createReceiveBufferIfNecessary history.recipient).FitsIn mpdu
  | .blockAckReq start =>
    offset history.recipient.nextExpectedSequenceNumber start < 2048 ∧
      LeavesNone (createReceiveBufferIfNecessary history.recipient) start

/-- MSDUs are passed up in strictly increasing order of their positions, as a whole and each MPDU
once, and the buffer holds the MPDUs that its length counts, all in the window. -/
structure InOrder (history : History) (start : SequenceNumber) (bufferSize : ℕ) : Prop where
  increasing : history.passed.Pairwise fun a b ↦ a.position < b.position
  named : ∀ msdu ∈ history.passed,
    msdu.sequenceNumber = start + BitVec.ofInt 12 msdu.position
  whole : ∀ msdu ∈ history.passed, msdu.fragments.Whole msdu.sequenceNumber
  once : (history.passed.flatMap (·.fragments.toList) ++
    mpdus history.recipient.buffer).Subperm history.received
  counted : (createReceiveBufferIfNecessary history.recipient).length =
    (mpdus history.recipient.buffer).length
  bounded : (createReceiveBufferIfNecessary history.recipient).length ≤ bufferSize
  window : ∀ it ∈ history.recipient.buffer,
    offset history.recipient.nextExpectedSequenceNumber it.1 < bufferSize

/-- What a run keeps: the position is that of the next expected sequence number and behind all MSDUs
that were passed up. -/
structure Invariant (history : History) (start : SequenceNumber) (bufferSize : ℕ) : Prop where
  inWindow : (createReceiveBufferIfNecessary history.recipient).InWindow
  bufferSize_eq : (createReceiveBufferIfNecessary history.recipient).bufferSize = bufferSize
  base : history.recipient.nextExpectedSequenceNumber =
    start + BitVec.ofInt 12 history.position
  behind : ∀ msdu ∈ history.passed, msdu.position < history.position
  increasing : history.passed.Pairwise fun a b ↦ a.position < b.position
  named : ∀ msdu ∈ history.passed,
    msdu.sequenceNumber = start + BitVec.ofInt 12 msdu.position
  whole : ∀ msdu ∈ history.passed, msdu.fragments.Whole msdu.sequenceNumber
  once : (history.passed.flatMap (·.fragments.toList) ++
    mpdus history.recipient.buffer).Subperm history.received

variable {history : History} {start : SequenceNumber} {bufferSize : ℕ}

theorem Invariant.inOrder (h : history.Invariant start bufferSize) :
    history.InOrder start bufferSize where
  increasing := h.increasing
  named := h.named
  whole := h.whole
  once := h.once
  counted := by
    rw [length_mpdus]
    exact h.inWindow.counted
  bounded := by
    rw [← h.bufferSize_eq]
    exact h.inWindow.bounded
  window := by
    rw [← h.bufferSize_eq]
    exact h.inWindow.window

theorem invariant_initial (start : SequenceNumber) (bufferSize : BitVec 10) :
    (initial start bufferSize).Invariant start bufferSize.toNat where
  inWindow :=
    { bufferSize_lt := bufferSize.isLt
      ascending := .nil
      window := nofun
      msdus := nofun
      counted := rfl
      bounded := Int.natCast_nonneg _ }
  bufferSize_eq := rfl
  base := (BitVec.add_zero start).symm
  behind := nofun
  increasing := .nil
  named := nofun
  whole := nofun
  once := nil_subperm

/-- A move by less than half of the ring is a move forward. -/
theorem toInt_sub_eq {base s : SequenceNumber} (h : offset base s < 2048) :
    (s - base).toInt = offset base s :=
  BitVec.toInt_eq_toNat_of_lt (by unfold offset at h; omega)

/-- The sequence number at a distance from the next expected one has the position at this
distance. -/
theorem named_of_base {base s : SequenceNumber} {position : ℤ}
    (h : base = start + BitVec.ofInt 12 position) :
    s = start + BitVec.ofInt 12 (position + (s - base).toInt) := by
  rw [BitVec.ofInt_add, BitVec.ofInt_toInt, ← BitVec.add_assoc, ← h, BitVec.add_comm,
    BitVec.sub_add_cancel]

/-- A call that delivers keeps the invariant. -/
theorem Invariant.passUp (h : history.Invariant start bufferSize) {received : List Mpdu}
    {accepted : List SequenceControl} {frames : ReorderBuffer} {recipient : Recipient}
    (hdelivers : Delivers (createReceiveBufferIfNecessary history.recipient) received frames
      (createReceiveBufferIfNecessary recipient)) :
    ({ history with
        received := history.received ++ received, accepted }.passUp frames recipient).Invariant
      start bufferSize := by
  have hmove := toInt_sub_eq hdelivers.move
  have hplace : ∀ it ∈ frames, (it.1 - history.recipient.nextExpectedSequenceNumber).toInt =
      offset history.recipient.nextExpectedSequenceNumber it.1 := by
    intro it hit
    exact toInt_sub_eq ((hdelivers.behind it hit).trans hdelivers.move)
  constructor
  · exact hdelivers.inWindow
  · exact hdelivers.bufferSize_eq.trans h.bufferSize_eq
  · exact named_of_base h.base
  · intro msdu hmsdu
    change msdu.position < history.position + (recipient.nextExpectedSequenceNumber -
      history.recipient.nextExpectedSequenceNumber).toInt
    rcases mem_append.mp hmsdu with hold | hnew
    · have hlt := h.behind msdu hold
      rw [show (recipient.nextExpectedSequenceNumber -
        history.recipient.nextExpectedSequenceNumber).toInt = _ from hmove]
      omega
    · obtain ⟨it, hit, rfl⟩ := mem_map.mp hnew
      have hbehind := hdelivers.behind it hit
      have heq := hplace it hit
      change history.position + (it.1 - history.recipient.nextExpectedSequenceNumber).toInt < _
      rw [heq, show (recipient.nextExpectedSequenceNumber -
        history.recipient.nextExpectedSequenceNumber).toInt = _ from hmove]
      change offset history.recipient.nextExpectedSequenceNumber it.1 < _ at hbehind
      omega
  · apply pairwise_append.mpr
    refine ⟨h.increasing, pairwise_map.mpr ?_, ?_⟩
    · apply hdelivers.ascending.imp_of_mem
      intro a b ha hb hlt
      dsimp only
      rw [hplace a ha, hplace b hb]
      change offset history.recipient.nextExpectedSequenceNumber a.1 <
        offset history.recipient.nextExpectedSequenceNumber b.1 at hlt
      omega
    · intro msdu hold other hnew
      obtain ⟨it, hit, rfl⟩ := mem_map.mp hnew
      have hlt := h.behind msdu hold
      dsimp only
      rw [hplace it hit]
      omega
  · intro msdu hmsdu
    rcases mem_append.mp hmsdu with hold | hnew
    · exact h.named msdu hold
    · obtain ⟨it, hit, rfl⟩ := mem_map.mp hnew
      exact named_of_base h.base
  · intro msdu hmsdu
    rcases mem_append.mp hmsdu with hold | hnew
    · exact h.whole msdu hold
    · obtain ⟨it, hit, rfl⟩ := mem_map.mp hnew
      exact hdelivers.whole it hit
  · have hframes : (frames.map fun it ↦ (⟨history.position +
        (it.1 - history.recipient.nextExpectedSequenceNumber).toInt, it.1, it.2⟩ :
        PassedUp)).flatMap
          (·.fragments.toList) = mpdus frames := by
      rw [flatMap_map]
      rfl
    have hkept := (subperm_append_left (history.passed.flatMap (·.fragments.toList))).mpr
      hdelivers.once
    have hold := (subperm_append_right received).mpr h.once
    rw [append_assoc] at hold
    have honce := hkept.trans hold
    rw [← hframes, ← append_assoc, ← flatMap_append] at honce
    exact honce

/-- Every admissible event is handled, and the invariant is kept. -/
theorem Invariant.handle (h : history.Invariant start bufferSize) {event : Event}
    (hadmissible : history.Admissible event) :
    ∃ after, machine.handle history event = .ok after ∧ after.Invariant start bufferSize := by
  match event with
  | .qosFrame mpdu =>
    obtain ⟨frames, recipient, hprocess, hdelivers⟩ :=
      processReceivedQoSFrame_delivers h.inWindow hadmissible
    refine ⟨(history.receive mpdu).passUp frames recipient, ?_, h.passUp hdelivers⟩
    change (processReceivedQoSFrame history.recipient mpdu >>= fun result ↦
      pure ((history.receive mpdu).passUp result.1 result.2)) = _
    rw [bind_of_ok hprocess]
    rfl
  | .blockAckReq startingSequenceNumber =>
    obtain ⟨frames, recipient, hprocess, hdelivers⟩ :=
      processReceivedBlockAckReq_delivers h.inWindow hadmissible.1 hadmissible.2
    have hinvariant : ({ history with
        received := history.received ++ [],
        accepted := history.accepted }.passUp frames recipient).Invariant start bufferSize :=
      h.passUp hdelivers
    rw [append_nil] at hinvariant
    refine ⟨history.passUp frames recipient, ?_, hinvariant⟩
    change (processReceivedBlockAckReq history.recipient startingSequenceNumber >>= fun result ↦
      pure (history.passUp result.1 result.2)) = _
    rw [bind_of_ok hprocess]
    rfl

theorem invariant_of_run {start : SequenceNumber} {bufferSize : BitVec 10} {events : List Event}
    (hrun : (machine.restrict Admissible).Run (initial start bufferSize) events history) :
    history.Invariant start bufferSize.toNat := by
  apply hrun.invariant _ (invariant_initial start bufferSize)
  intro s event t hs hstep
  obtain ⟨hstep, hadmissible⟩ := Machine.step_restrict_iff.mp hstep
  obtain ⟨after, hhandle, hafter⟩ := hs.handle hadmissible
  obtain rfl := Except.ok.inj (hstep.2.symm.trans hhandle)
  exact hafter

/-- MSDUs are delivered in order in every run whose steps meet the side condition, and a step that
meets it does not fail. -/
theorem inOrder_of_run {start : SequenceNumber} {bufferSize : BitVec 10} {events : List Event}
    (hrun : (machine.restrict Admissible).Run (initial start bufferSize) events history) :
    history.InOrder start bufferSize.toNat ∧
      ∀ event, history.Admissible event → ∃ after, machine.handle history event = .ok after := by
  have hinvariant := invariant_of_run hrun
  refine ⟨hinvariant.inOrder, ?_⟩
  intro event hadmissible
  obtain ⟨after, hhandle, -⟩ := hinvariant.handle hadmissible
  exact ⟨after, hhandle⟩

/-! ## Concrete runs -/

instance (history : History) (event : Event) :
    Decidable ((machine.restrict Admissible).Enabled history event) :=
  match event with
  | .qosFrame mpdu => inferInstanceAs
      (Decidable (True ∧ (createReceiveBufferIfNecessary history.recipient).FitsIn mpdu))
  | .blockAckReq _ => inferInstanceAs (Decidable (True ∧ _ < 2048 ∧ LeavesNone _ _))

/-- A fragment that is received under the Block Ack policy. -/
def fragment (sequenceNumber : SequenceNumber) (number : FragmentNumber) (more : Bool) : Mpdu :=
  ⟨sequenceNumber, number, more, .BLOCK_ACK⟩

/-- Two fragments of one MSDU across the end of the sequence numbers, in the wrong order and with a
duplicate, and a request behind a lost MSDU. -/
theorem inOrder_of_run_wrap :
    ∃ history, (machine.restrict Admissible).Run (initial 4094 8)
        [.qosFrame (fragment 4095 1 false), .qosFrame (fragment 4095 1 false),
          .qosFrame (fragment 1 0 false), .qosFrame (fragment 4095 0 true), .blockAckReq 1]
        history ∧
      history.passed.map (·.sequenceNumber) = [4095, 1] ∧
      history.InOrder 4094 (8 : BitVec 10).toNat := by
  refine Machine.exists_run_and (by decide +kernel) fun history hrun hpassed ↦ ?_
  exact (inOrder_of_run hrun).1

/-- A fragment of an MSDU that does not get complete stays in the buffer when a BlockAckReq moves
the window behind it. -/
theorem not_inOrder_of_left_behind :
    ∃ history, machine.Run (initial 0 8) [.qosFrame (fragment 1 0 true), .blockAckReq 4] history ∧
      ¬ history.InOrder 0 (8 : BitVec 10).toNat := by
  refine Machine.exists_run_imp (fun history ↦ ∃ it ∈ history.recipient.buffer, ¬ offset
    history.recipient.nextExpectedSequenceNumber it.1 < (8 : BitVec 10).toNat)
    (by decide +kernel) ?_
  rintro history hrun ⟨it, hit, hbehind⟩
  exact fun h ↦ hbehind (h.window it hit)

end History

end Inet4.Ieee80211
