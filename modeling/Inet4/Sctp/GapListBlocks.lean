import Inet4.Blocks
import Inet4.Sctp.GapList

/-!
# The gap list as blocks of integers

The arrays of `SctpSimpleGapList` hold the TSNs of blocks of integers.  Each operation on the arrays
is an operation on the blocks.
-/

namespace Inet4.Sctp.SctpSimpleGapList

open Blocks List Function Nat Tsn

/-! ## What the loops do -/

/-- Elements are moved towards the beginning. -/
theorem moveDown_eq {advance rounds i : ℕ} {gapList : SctpSimpleGapList}
    (hrounds : 0 < rounds → i + rounds ≤ maxGapCount) (hadvance : 0 < advance)
    (hle : advance ≤ i) :
    moveDown advance rounds i gapList = .ok { gapList with
      gapStartList := fun k ↦ if i ≤ k + advance ∧ k + advance < i + rounds then
        gapList.gapStartList (k + advance) else gapList.gapStartList k
      gapStopList := fun k ↦ if i ≤ k + advance ∧ k + advance < i + rounds then
        gapList.gapStopList (k + advance) else gapList.gapStopList k } := by
  induction rounds generalizing i gapList with
  | zero =>
    have hnone : ∀ k, ¬(i ≤ k + advance ∧ k + advance < i + 0) := by omega
    simp only [moveDown, if_neg (hnone _)]
  | succ rounds ih =>
    have hbound : i < maxGapCount := by omega
    rw [moveDown, bind_of_ok (assert_of hbound), ih (by omega) (by omega)]
    have hmoved (list : ℕ → Tsn) :
        (fun k ↦ if i + 1 ≤ k + advance ∧ k + advance < i + 1 + rounds then
          update list (i - advance) (list i) (k + advance)
          else update list (i - advance) (list i) k) =
        fun k ↦ if i ≤ k + advance ∧ k + advance < i + (rounds + 1) then
          list (k + advance) else list k := by
      funext k
      by_cases hfirst : k + advance = i
      · have hk : k = i - advance := by omega
        rw [if_neg (by omega), if_pos (by omega), hk, update_self]
        congr 1
        omega
      · have hne : k ≠ i - advance := by omega
        rw [update_of_ne hne]
        by_cases hrange : i + 1 ≤ k + advance ∧ k + advance < i + 1 + rounds
        · have hlater : k + advance ≠ i - advance := by omega
          rw [if_pos hrange, if_pos (by omega), update_of_ne hlater]
        · rw [if_neg hrange, if_neg (by omega)]
    simp only [hmoved]

/-- Elements are moved towards the end. -/
theorem moveUp_eq {rounds j : ℕ} {gapList : SctpSimpleGapList}
    (hj : 0 < rounds → j < maxGapCount) (hrounds : rounds ≤ j) :
    moveUp rounds j gapList = .ok { gapList with
      gapStartList := fun k ↦ if j < k + rounds ∧ k ≤ j then
        gapList.gapStartList (k - 1) else gapList.gapStartList k
      gapStopList := fun k ↦ if j < k + rounds ∧ k ≤ j then
        gapList.gapStopList (k - 1) else gapList.gapStopList k } := by
  induction rounds generalizing j gapList with
  | zero =>
    have hnone : ∀ k, ¬(j < k + 0 ∧ k ≤ j) := by omega
    simp only [moveUp, if_neg (hnone _)]
  | succ rounds ih =>
    have hbound : j < maxGapCount := hj (succ_pos rounds)
    rw [moveUp, bind_of_ok (assert_of hbound), ih (by omega) (by omega)]
    have hmoved (list : ℕ → Tsn) :
        (fun k ↦ if j - 1 < k + rounds ∧ k ≤ j - 1 then
          update list j (list (j - 1)) (k - 1)
          else update list j (list (j - 1)) k) =
        fun k ↦ if j < k + (rounds + 1) ∧ k ≤ j then list (k - 1) else list k := by
      funext k
      by_cases hlast : k = j
      · rw [if_neg (by omega), if_pos (by omega), hlast, update_self]
      · rw [update_of_ne hlast]
        by_cases hrange : j - 1 < k + rounds ∧ k ≤ j - 1
        · have hne : k - 1 ≠ j := by omega
          rw [if_pos hrange, if_pos (by omega), update_of_ne hne]
        · rw [if_neg hrange, if_neg (by omega)]
    simp only [hmoved]

/-! ## Blocks in the arrays -/

/-- The arrays have the TSNs of the blocks from an element on. -/
def HoldsFrom (starts stops : ℕ → Tsn) : ℕ → List (ℤ × ℤ) → Prop
  | _, [] => True
  | i, block :: blocks =>
    (starts i = of block.1 ∧ stops i = of block.2) ∧ HoldsFrom starts stops (i + 1) blocks

variable {starts stops starts' stops' : ℕ → Tsn} {i i' : ℕ} {block : ℤ × ℤ}
variable {before blocks after : List (ℤ × ℤ)}

theorem holdsFrom_append : HoldsFrom starts stops i (before ++ blocks) ↔
    HoldsFrom starts stops i before ∧ HoldsFrom starts stops (i + before.length) blocks := by
  induction before generalizing i with
  | nil => simp [HoldsFrom]
  | cons first before ih =>
    have hlength : i + 1 + before.length = i + (before.length + 1) := by omega
    simp only [cons_append, HoldsFrom, ih, length_cons, hlength, and_assoc]

/-- The blocks are held where the elements are. -/
theorem HoldsFrom.congr (h : HoldsFrom starts stops i blocks)
    (heq : ∀ j < blocks.length, starts' (i' + j) = starts (i + j) ∧ stops' (i' + j) =
      stops (i + j)) :
    HoldsFrom starts' stops' i' blocks := by
  induction blocks generalizing i i' with
  | nil => trivial
  | cons block blocks ih =>
    have hfirst := heq 0 (succ_pos _)
    refine ⟨⟨hfirst.1.trans h.1.1, hfirst.2.trans h.1.2⟩, ih h.2 ?_⟩
    intro j hj
    have hnext := heq (j + 1) (succ_lt_succ hj)
    have hleft : i' + (j + 1) = i' + 1 + j := by omega
    have hright : i + (j + 1) = i + 1 + j := by omega
    rwa [hleft, hright] at hnext

/-- The list has blocks, with a cumulative TSN before them. -/
structure Represents (gapList : SctpSimpleGapList) (blocks : List (ℤ × ℤ)) : Prop where
  numGaps : gapList.numGaps = blocks.length
  holds : HoldsFrom gapList.gapStartList gapList.gapStopList 0 blocks

variable {gapList : SctpSimpleGapList} {s e s' e' t : ℤ}

theorem represents_append_cons : gapList.Represents (before ++ block :: after) ↔
    gapList.numGaps = before.length + 1 + after.length ∧
      HoldsFrom gapList.gapStartList gapList.gapStopList 0 before ∧
      (gapList.gapStartList before.length = of block.1 ∧
        gapList.gapStopList before.length = of block.2) ∧
      HoldsFrom gapList.gapStartList gapList.gapStopList (before.length + 1) after := by
  have hlength : (before ++ block :: after).length = before.length + 1 + after.length := by
    rw [length_append, length_cons]
    omega
  constructor
  · rintro ⟨hnum, hholds⟩
    rw [holdsFrom_append, zero_add] at hholds
    exact ⟨hnum.trans hlength, hholds⟩
  · rintro ⟨hnum, hholds⟩
    refine ⟨hnum.trans hlength.symm, ?_⟩
    rw [holdsFrom_append, zero_add]
    exact hholds

theorem Represents.setStart (h : gapList.Represents (before ++ (s, e) :: after)) (s' : ℤ) :
    ({ gapList with gapStartList :=
        Function.update gapList.gapStartList before.length (Tsn.of s') } :
      SctpSimpleGapList).Represents (before ++ (s', e) :: after) := by
  obtain ⟨hnum, hbefore, hblock, hafter⟩ := represents_append_cons.mp h
  refine represents_append_cons.mpr ⟨hnum, hbefore.congr ?_, ⟨?_, hblock.2⟩, hafter.congr ?_⟩
  · intro j hj
    have hne : 0 + j ≠ before.length := by omega
    exact ⟨update_of_ne hne _ _, rfl⟩
  · exact update_self _ _ _
  · intro j _
    have hne : before.length + 1 + j ≠ before.length := by omega
    exact ⟨update_of_ne hne _ _, rfl⟩

theorem Represents.setStop (h : gapList.Represents (before ++ (s, e) :: after)) (e' : ℤ) :
    ({ gapList with gapStopList :=
        Function.update gapList.gapStopList before.length (Tsn.of e') } :
      SctpSimpleGapList).Represents (before ++ (s, e') :: after) := by
  obtain ⟨hnum, hbefore, hblock, hafter⟩ := represents_append_cons.mp h
  refine represents_append_cons.mpr ⟨hnum, hbefore.congr ?_, ⟨hblock.1, ?_⟩, hafter.congr ?_⟩
  · intro j hj
    have hne : 0 + j ≠ before.length := by omega
    exact ⟨rfl, update_of_ne hne _ _⟩
  · exact update_self _ _ _
  · intro j _
    have hne : before.length + 1 + j ≠ before.length := by omega
    exact ⟨rfl, update_of_ne hne _ _⟩

/-- The block is taken out. -/
theorem Represents.closeGap (h : gapList.Represents (before ++ block :: after)) :
    ∃ closed, gapList.closeGap before.length = .ok closed ∧
      closed.Represents (before ++ after) := by
  obtain ⟨hnum, hbefore, -, hafter⟩ := represents_append_cons.mp h
  have hle := gapList.numGaps_le
  unfold SctpSimpleGapList.closeGap
  by_cases hlast : before.length = gapList.numGaps - 1
  · have hnil : after = [] := length_eq_zero_iff.mp (by omega)
    subst hnil
    rw [if_pos hlast]
    refine ⟨_, rfl, ⟨?_, ?_⟩⟩
    · simp only [hnum, append_nil, length_nil]
      omega
    · rw [append_nil]
      refine hbefore.congr ?_
      intro j hj
      have hne : 0 + j ≠ before.length := by omega
      exact ⟨update_of_ne hne _ _, update_of_ne hne _ _⟩
  · rw [if_neg hlast, moveDown_eq (by omega) one_pos (le_add_left 1 _)]
    refine ⟨_, rfl, ⟨?_, ?_⟩⟩
    · simp only [hnum, length_append]
      omega
    · rw [holdsFrom_append, zero_add]
      refine ⟨hbefore.congr ?_, hafter.congr ?_⟩
      · intro j hj
        have hout : ¬(before.length + 1 ≤ 0 + j + 1 ∧
            0 + j + 1 < before.length + 1 + (gapList.numGaps - 1 - before.length)) := by omega
        exact ⟨if_neg hout, if_neg hout⟩
      · intro j hj
        have hin : before.length + 1 ≤ before.length + j + 1 ∧ before.length + j + 1 <
            before.length + 1 + (gapList.numGaps - 1 - before.length) := by omega
        have hindex : before.length + 1 + j = before.length + j + 1 := by omega
        rw [hindex]
        exact ⟨if_pos hin, if_pos hin⟩

/-- Place is made for one more block. -/
theorem Represents.makePlace (h : gapList.Represents (before ++ after))
    (hlt : gapList.numGaps < maxGapCount) :
    ∃ moved, gapList.addGap.moveUp (gapList.addGap.numGaps - 1 - before.length)
        (gapList.addGap.numGaps - 1) = .ok moved ∧
      moved.numGaps = before.length + 1 + after.length ∧
      moved.gapStartList before.length = gapList.gapStartList before.length ∧
      HoldsFrom moved.gapStartList moved.gapStopList 0 before ∧
      HoldsFrom moved.gapStartList moved.gapStopList (before.length + 1) after := by
  have hnum := h.numGaps
  have hholds := h.holds
  rw [length_append] at hnum
  rw [holdsFrom_append, zero_add] at hholds
  have hadd : gapList.addGap.numGaps = gapList.numGaps + 1 := min_eq_left hlt
  rw [hadd, Nat.add_sub_cancel, moveUp_eq (fun _ ↦ hlt) (Nat.sub_le _ _)]
  refine ⟨_, rfl, ?_, ?_, hholds.1.congr ?_, hholds.2.congr ?_⟩
  · simp only [hadd, hnum]
    omega
  · exact if_neg (by omega)
  · intro j hj
    have hout : ¬(gapList.numGaps < 0 + j + (gapList.numGaps - before.length) ∧
        0 + j ≤ gapList.numGaps) := by omega
    exact ⟨if_neg hout, if_neg hout⟩
  · intro j hj
    have hin : gapList.numGaps < before.length + 1 + j + (gapList.numGaps - before.length) ∧
        before.length + 1 + j ≤ gapList.numGaps := by omega
    have hindex : before.length + j = before.length + 1 + j - 1 := by omega
    rw [hindex]
    exact ⟨if_pos hin, if_pos hin⟩

/-- One TSN is a block of its own. -/
theorem Represents.insertBlock (h : gapList.Represents (before ++ after))
    (hlt : gapList.numGaps < maxGapCount) (t : ℤ) :
    ∃ moved, gapList.addGap.moveUp (gapList.addGap.numGaps - 1 - before.length)
        (gapList.addGap.numGaps - 1) = .ok moved ∧
      ({ moved with
        gapStartList := update moved.gapStartList before.length (of t)
        gapStopList := update moved.gapStopList before.length (of t) } :
          SctpSimpleGapList).Represents (before ++ (t, t) :: after) := by
  obtain ⟨moved, hmoved, hnum, -, hbefore, hafter⟩ := h.makePlace hlt
  refine ⟨moved, hmoved, represents_append_cons.mpr ⟨hnum, hbefore.congr ?_, ?_, hafter.congr ?_⟩⟩
  · intro j hj
    have hne : 0 + j ≠ before.length := by omega
    exact ⟨update_of_ne hne _ _, update_of_ne hne _ _⟩
  · exact ⟨update_self _ _ _, update_self _ _ _⟩
  · intro j _
    have hne : before.length + 1 + j ≠ before.length := by omega
    exact ⟨update_of_ne hne _ _, update_of_ne hne _ _⟩

/-- A block is split up. -/
theorem Represents.split (h : gapList.Represents (before ++ (s, e) :: after))
    (hlt : gapList.numGaps < maxGapCount) (t : ℤ) :
    ∃ moved, gapList.addGap.moveUp (gapList.addGap.numGaps - 1 - before.length)
        (gapList.addGap.numGaps - 1) = .ok moved ∧
      before.length + 1 < moved.numGaps ∧
      ({ moved with
        gapStartList := update moved.gapStartList (before.length + 1) (of (t + 1))
        gapStopList := update moved.gapStopList before.length (of (t - 1)) } :
          SctpSimpleGapList).Represents (before ++ (s, t - 1) :: (t + 1, e) :: after) := by
  obtain ⟨-, -, hblock, -⟩ := represents_append_cons.mp h
  obtain ⟨moved, hmoved, hnum, hstart, hbefore, hafter⟩ := h.makePlace hlt
  rw [length_cons] at hnum
  refine ⟨moved, hmoved, by omega,
    represents_append_cons.mpr ⟨hnum, hbefore.congr ?_, ⟨?_, ?_⟩, ⟨?_, ?_⟩, hafter.2.congr ?_⟩⟩
  · intro j hj
    have hne : 0 + j ≠ before.length := by omega
    have hne' : 0 + j ≠ before.length + 1 := by omega
    exact ⟨update_of_ne hne' _ _, update_of_ne hne _ _⟩
  · exact (update_of_ne (succ_ne_self _).symm _ _).trans (hstart.trans hblock.1)
  · exact update_self _ _ _
  · exact update_self _ _ _
  · exact (update_of_ne (succ_ne_self _) _ _).trans hafter.1.2
  · intro j _
    have hne : before.length + 1 + 1 + j ≠ before.length := by omega
    have hne' : before.length + 1 + 1 + j ≠ before.length + 1 := by omega
    exact ⟨update_of_ne hne' _ _, update_of_ne hne _ _⟩

/-- The last TSN before a block. -/
def prevStop (gapList : SctpSimpleGapList) (cTsnAck : Tsn) (i : ℕ) : Tsn :=
  if i = 0 then cTsnAck else gapList.gapStopList (i - 1)

theorem HoldsFrom.prevStop (h : HoldsFrom gapList.gapStartList gapList.gapStopList 0 before)
    (ack : ℤ) :
    gapList.prevStop (of ack) before.length = of (last ack before) := by
  rcases eq_nil_or_concat before with rfl | ⟨front, block, rfl⟩
  · rfl
  · rw [concat_eq_append] at h ⊢
    rw [holdsFrom_append, zero_add] at h
    have hlength : (front ++ [block]).length = front.length + 1 := by simp
    rw [SctpSimpleGapList.prevStop, hlength, if_neg (Nat.succ_ne_zero _), Nat.add_sub_cancel,
      last_append_cons]
    exact h.2.1.2

/-! ## Addition -/

variable {ack a l : ℤ}

/-- Behind the place of a TSN the loop finds no gap for it. -/
theorem search_of_le (h : HoldsFrom gapList.gapStartList gapList.gapStopList i blocks)
    (hapart : Apart a blocks) (hl : l ≤ a) (ht : t ≤ l) (hnear : last a blocks - t < 2 ^ 31) :
    ∃ l', gapList.search (of t) blocks.length i (of (l + 1)) = .atEnd (of (l' + 1)) ∧
      t ≤ l' ∧ l' ≤ last a blocks := by
  induction blocks generalizing a l i with
  | nil => exact ⟨l, rfl, ht, hl⟩
  | cons block blocks ih =>
    have hle := hapart.2.2.le_last
    have hstart := hapart.1
    have hblock := hapart.2.1
    simp only [last] at hnear ⊢
    rw [length_cons, search, h.1.1, h.1.2, ← of_add_one]
    have hnot : ¬tsnBetween (of (l + 1)) (of t) (of block.1 - 1) = true := by
      rw [tsnBetween, Bool.and_eq_true, tsnGe_of_iff (by omega) (by omega)]
      omega
    by_cases hzero : 0 < of block.1
    · rw [if_pos hzero, if_neg hnot]
      exact ih h.2 hapart.2.2 le_rfl (by omega) hnear
    · rw [if_neg hzero]
      exact ih h.2 hapart.2.2 (by omega) ht hnear

/-- The loop finds the gap of a TSN when it does not come to a block that begins at TSN 0. -/
theorem search_of_lt (h : HoldsFrom gapList.gapStartList gapList.gapStopList i blocks)
    (hapart : Apart a blocks) (ht : a < t) (hdistance : t - a < 2 ^ 31)
    (hnear : last a blocks - t < 2 ^ 31)
    (hzero : ∀ before block after, blocks = before ++ block :: after → of block.1 = 0 →
      t ≤ last a before) :
    (∃ before block after, blocks = before ++ block :: after ∧ last a before < t ∧ t < block.1 ∧
        gapList.search (of t) blocks.length i (of (a + 1)) =
          .before (i + before.length) (of (last a before + 1))) ∨
      (∃ l, gapList.search (of t) blocks.length i (of (a + 1)) = .atEnd (of (l + 1)) ∧
        t ≤ l ∧ l ≤ last a blocks ∧ t ∈ covered a blocks) ∨
      last a blocks < t ∧ gapList.search (of t) blocks.length i (of (a + 1)) =
        .atEnd (of (last a blocks + 1)) := by
  induction blocks generalizing a i with
  | nil => exact .inr (.inr ⟨ht, rfl⟩)
  | cons block blocks ih =>
    have hle := hapart.2.2.le_last
    have hstart := hapart.1
    have hblock := hapart.2.1
    simp only [last] at hnear ⊢
    have hpos : 0 < of block.1 := by
      rw [pos_iff_ne_zero]
      intro heq
      have hbefore := hzero [] block blocks rfl heq
      simp only [last] at hbefore
      omega
    rw [length_cons, search, h.1.1, h.1.2, ← of_add_one, ← of_sub_one, if_pos hpos]
    have hbetween : tsnBetween (of (a + 1)) (of t) (of (block.1 - 1)) = true ↔
        a + 1 ≤ t ∧ t ≤ block.1 - 1 :=
      tsnBetween_of_iff (by omega) (by omega) (by omega) (by omega)
    by_cases hlt : t < block.1
    · left
      rw [if_pos (hbetween.mpr (by omega))]
      exact ⟨[], block, blocks, rfl, ht, hlt, rfl⟩
    · have hnot : ¬tsnBetween (of (a + 1)) (of t) (of (block.1 - 1)) = true := by
        rw [hbetween]
        omega
      rw [if_neg hnot]
      by_cases hin : t ≤ block.2
      · obtain ⟨l, hsearch, hl, hlast⟩ := search_of_le h.2 hapart.2.2 le_rfl hin hnear
        refine .inr (.inl ⟨l, hsearch, hl, hlast, ?_⟩)
        exact .inr ⟨block, mem_cons_self, not_lt.mp hlt, hin⟩
      · have hzero' : ∀ before next after, blocks = before ++ next :: after → of next.1 = 0 →
            t ≤ last block.2 before := by
          intro before next after heq hnext
          exact hzero (block :: before) next after (congrArg (block :: ·) heq) hnext
        rcases ih h.2 hapart.2.2 (not_le.mp hin) (by omega) hnear hzero' with
          ⟨before, next, after, heq, hlast, hnext, hsearch⟩ | ⟨l, hsearch, hl, hlast,
            hmem⟩ | hbeyond
        · left
          refine ⟨block :: before, next, after, congrArg (block :: ·) heq, hlast, hnext, ?_⟩
          have hindex : i + (block :: before).length = i + 1 + before.length := by
            rw [length_cons]
            omega
          rw [hindex]
          exact hsearch
        · refine .inr (.inl ⟨l, hsearch, hl, hlast, ?_⟩)
          rcases hmem with hle | ⟨other, hother, hin'⟩
          · omega
          · exact .inr ⟨other, mem_cons_of_mem block hother, hin'⟩
        · exact .inr (.inr hbeyond)

/-- The list has blocks after the cumulative TSN whose TSNs are those in a set. -/
structure Refines (gapList : SctpSimpleGapList) (cTsnAck : Tsn) (tsns : Set ℤ) (ack : ℤ)
    (blocks : List (ℤ × ℤ)) : Prop where
  cTsnAck : cTsnAck = of ack
  represents : gapList.Represents blocks
  apart : Apart ack blocks
  covered : covered ack blocks = tsns

section FillGap

variable (h : gapList.Represents (before ++ (s, e) :: after))
variable (hapart : Apart ack (before ++ (s, e) :: after))

include h hapart

/-- A gap of more than one TSN gets smaller, or it is parted. -/
theorem Represents.fillGap_of_wide (hlast : last ack before < t) (hlt : t < s)
    (hnear : s - ack < 2 ^ 31) (hwide : last ack before + 1 < s - 1)
    (hspace : gapList.numGaps < maxGapCount ∨ t = last ack before + 1 ∨ t = s - 1) :
    ∃ filled cTsnAck' ack' blocks',
      gapList.fillGap before.length (of (last ack before + 1)) (of t) (of ack) =
        .ok (filled, cTsnAck') ∧
      filled.Refines cTsnAck' (Insert.insert t (Blocks.covered ack (before ++ (s, e) :: after)))
        ack' blocks' := by
  obtain ⟨hbefore, -, hse, hafter⟩ := apart_append_cons.mp hapart
  obtain ⟨-, -, hblock, -⟩ := represents_append_cons.mp h
  have hle := hbefore.le_last
  have hgap : (1 : Tsn) < of (s - 1) - of (last ack before + 1) + 1 := by
    have hone : (1 : Tsn).toNat = 1 := rfl
    rw [← of_sub, ← of_add_one, BitVec.lt_def, of, BitVec.toNat_ofInt]
    omega
  have heq : ∀ x : ℤ, ack < x → x < s → (of t = of x ↔ t = x) :=
    fun x _ _ ↦ of_eq_of_iff (by omega) (by omega)
  unfold SctpSimpleGapList.fillGap
  simp only [hblock.1, ← of_sub_one, ← of_add_one ack, hgap, if_true,
    heq (s - 1) (by omega) (by omega), heq (last ack before + 1) (by omega) (by omega),
    heq (ack + 1) (by omega) (by omega)]
  by_cases hhi : t = s - 1
  · obtain rfl : s = t + 1 := by omega
    rw [if_pos hhi]
    refine ⟨_, _, ack, before ++ (t, e) :: after, rfl, rfl, h.setStart t, ?_, covered_start hse⟩
    exact apart_append_cons.mpr ⟨hbefore, by omega, by omega, hafter⟩
  · rw [if_neg hhi]
    by_cases hlo : t = last ack before + 1
    · rw [if_pos hlo]
      by_cases hnext : t = ack + 1
      · obtain rfl := hbefore.eq_nil_of_last_le (by omega)
        rw [if_pos hnext, hnext]
        exact ⟨_, _, ack + 1, _, rfl, rfl, h, ⟨by omega, hse, hafter⟩, covered_point⟩
      · rw [if_neg hnext]
        rcases eq_nil_or_concat before with rfl | ⟨front, ⟨s', e'⟩, rfl⟩
        · exact absurd hlo hnext
        · rw [concat_eq_append] at *
          rw [last_append_cons, last] at hlo
          obtain ⟨hfront, hfirst, hle', -⟩ := apart_append_cons.mp hbefore
          have hlength : (front ++ [(s', e')]).length - 1 = front.length := by simp
          rw [bind_of_ok (assert_of (by simp)), hlength, hlo]
          rw [append_assoc, singleton_append] at h ⊢
          refine ⟨_, _, ack, _, rfl, rfl, h.setStop (e' + 1), ?_, covered_stop hle'⟩
          exact apart_append_cons.mpr ⟨hfront, hfirst, by omega, by omega, hse, hafter⟩
    · rw [if_neg hlo]
      have hfree : gapList.numGaps < maxGapCount := by
        rcases hspace with hfree | hlo' | hhi'
        · exact hfree
        · exact absurd hlo' hlo
        · exact absurd hhi' hhi
      obtain ⟨moved, hmoved, hrepresents⟩ := h.insertBlock hfree t
      simp only [bind_of_ok hmoved]
      refine ⟨_, _, ack, _, rfl, rfl, hrepresents, ?_, covered_insert⟩
      exact apart_append_cons.mpr ⟨hbefore, by omega, le_rfl, by omega, hse, hafter⟩

/-- A gap of one TSN is closed. -/
theorem Represents.fillGap_of_narrow (hlast : last ack before + 1 = t) (hs : s = t + 1)
    (hnear : s - ack < 2 ^ 31) :
    ∃ filled cTsnAck' ack' blocks',
      gapList.fillGap before.length (of (last ack before + 1)) (of t) (of ack) =
        .ok (filled, cTsnAck') ∧
      filled.Refines cTsnAck' (Insert.insert t (Blocks.covered ack (before ++ (s, e) :: after)))
        ack' blocks' := by
  obtain ⟨hbefore, -, hse, hafter⟩ := apart_append_cons.mp hapart
  obtain ⟨-, -, hblock, -⟩ := represents_append_cons.mp h
  have hle := hbefore.le_last
  have hgap : ¬(1 : Tsn) < of (s - 1) - of (last ack before + 1) + 1 := by
    have hone : (1 : Tsn).toNat = 1 := rfl
    rw [← of_sub, ← of_add_one, BitVec.lt_def, of, BitVec.toNat_ofInt]
    omega
  have heq : of (last ack before + 1) = of (ack + 1) ↔
      last ack before + 1 = ack + 1 := of_eq_of_iff (by omega) (by omega)
  unfold SctpSimpleGapList.fillGap
  simp only [hblock.1, hblock.2, ← of_sub_one, ← of_add_one ack, hgap, if_false, heq]
  subst hs
  by_cases hfirst : last ack before + 1 = ack + 1
  · obtain rfl := hbefore.eq_nil_of_last_le (by omega)
    obtain ⟨closed, hclosed, hrepresents⟩ := h.closeGap
    obtain rfl : t = ack + 1 := by omega
    rw [if_pos hfirst, bind_of_ok hclosed]
    exact ⟨_, _, e, after, rfl, rfl, hrepresents, hafter, covered_absorb hse⟩
  · rcases eq_nil_or_concat before with rfl | ⟨front, ⟨s', e'⟩, rfl⟩
    · exact absurd rfl hfirst
    · rw [concat_eq_append] at *
      rw [last_append_cons, last] at hlast
      obtain ⟨hfront, hstart, hle', -⟩ := apart_append_cons.mp hbefore
      have hlength : (front ++ [(s', e')]).length - 1 = front.length := by simp
      obtain rfl : t = e' + 1 := by omega
      rw [if_neg hfirst, bind_of_ok (assert_of (by simp)), hlength]
      have hset : gapList.Represents (front ++ (s', e') :: (e' + 1 + 1, e) :: after) := by
        rw [← singleton_append, ← append_assoc]
        exact h
      have hclose := hset.setStop e
      rw [← singleton_append, ← append_assoc] at hclose
      have hlength' : (front ++ [(s', e)]).length = (front ++ [(s', e')]).length := by simp
      obtain ⟨closed, hclosed, hrepresents⟩ := hclose.closeGap
      rw [hlength'] at hclosed
      rw [bind_of_ok hclosed]
      rw [append_assoc, singleton_append] at hrepresents ⊢
      refine ⟨_, _, ack, _, rfl, rfl, hrepresents, ?_, covered_merge hle' hse⟩
      exact apart_append_cons.mpr ⟨hfront, hstart, hle'.trans (by omega), hafter⟩

end FillGap

/-- A TSN comes after all blocks. -/
theorem Represents.appendGap (h : gapList.Represents blocks) (hapart : Apart ack blocks)
    (hlast : last ack blocks < t) (hnear : t - ack < 2 ^ 31)
    (hspace : gapList.numGaps < maxGapCount ∨ t = last ack blocks + 1) (new : Bool) :
    ∃ appended cTsnAck' ack' blocks',
      gapList.appendGap (of (last ack blocks + 1)) (of t) (of ack) new =
        .ok (appended, cTsnAck', true) ∧
      appended.Refines cTsnAck' (Insert.insert t (Blocks.covered ack blocks)) ack' blocks' := by
  have hle := hapart.le_last
  have heq : ∀ x : ℤ, ack < x → x ≤ t → (of t = of x ↔ t = x) :=
    fun x _ _ ↦ of_eq_of_iff (by omega) (by omega)
  unfold SctpSimpleGapList.appendGap
  simp only [heq (last ack blocks + 1) (by omega) (by omega), ← of_add_one ack,
    heq (ack + 1) (by omega) (by omega)]
  by_cases hnext : t = last ack blocks + 1
  · rw [if_pos hnext]
    by_cases hfirst : t = ack + 1
    · obtain rfl := hapart.eq_nil_of_last_le (by omega)
      rw [if_pos hfirst, hfirst]
      exact ⟨_, _, ack + 1, [], rfl, rfl, h, trivial, covered_point⟩
    · rw [if_neg hfirst]
      rcases eq_nil_or_concat blocks with rfl | ⟨front, ⟨s', e'⟩, rfl⟩
      · exact absurd hnext hfirst
      · rw [concat_eq_append] at *
        obtain ⟨hfront, hstart, hle', -⟩ := apart_append_cons.mp hapart
        obtain ⟨hnum, -, hblock, -⟩ := represents_append_cons.mp h
        rw [last_append_cons, last] at hnext
        have hpos : 0 < gapList.numGaps := by omega
        have hindex : gapList.numGaps - 1 = front.length := by
          rw [length_nil] at hnum
          omega
        rw [bind_of_ok (assert_of hpos), hindex, hblock.2, ← of_add_one, hnext]
        refine ⟨_, _, ack, _, rfl, rfl, h.setStop (e' + 1), ?_, covered_stop hle'⟩
        exact apart_append_cons.mpr ⟨hfront, hstart, by omega, trivial⟩
  · have hfree : gapList.numGaps < maxGapCount := by
      rcases hspace with hfree | hnext'
      · exact hfree
      · exact absurd hnext' hnext
    have hbeyond : gapList.numGaps = 0 ∨
        tsnGt (of t) (gapList.gapStopList (gapList.numGaps - 1) + 1) = true := by
      rw [or_iff_not_imp_left]
      intro hne
      have hstop := h.holds.prevStop ack
      rw [SctpSimpleGapList.prevStop, ← h.numGaps, if_neg hne] at hstop
      rw [hstop, ← of_add_one, tsnGt_of_iff (by omega) (by omega)]
      omega
    rw [if_neg hnext, if_pos hbeyond, dif_pos hfree]
    have hrepresents : ({
        numGaps := gapList.numGaps + 1
        gapStartList := update gapList.gapStartList gapList.numGaps (of t)
        gapStopList := update gapList.gapStopList gapList.numGaps (of t)
        numGaps_le := hfree } : SctpSimpleGapList).Represents (blocks ++ [(t, t)]) := by
      have hnum := h.numGaps
      refine represents_append_cons.mpr ⟨?_, h.holds.congr ?_, ?_, trivial⟩
      · exact congrArg (· + 1) hnum
      · intro j hj
        have hne : 0 + j ≠ gapList.numGaps := by omega
        exact ⟨update_of_ne hne _ _, update_of_ne hne _ _⟩
      · rw [← hnum]
        exact ⟨update_self _ _ _, update_self _ _ _⟩
    refine ⟨_, _, ack, _, rfl, rfl, hrepresents, ?_, ?_⟩
    · exact apart_append_cons.mpr ⟨hapart, by omega, le_rfl, trivial⟩
    · rw [covered_insert, append_nil]

/-- A TSN in a block changes nothing. -/
theorem Represents.appendGap_of_mem (h : gapList.Represents blocks)
    (hmem : t ∈ Blocks.covered ack blocks) (hold : ack < t) (hl : t ≤ l)
    (hlast : l ≤ last ack blocks) (hnear : last ack blocks - t < 2 ^ 31) (new : Bool) :
    gapList.appendGap (of (l + 1)) (of t) (of ack) new =
      .ok (gapList, of ack, new) := by
  have hne : gapList.numGaps ≠ 0 := by
    rw [h.numGaps]
    rcases hmem with hle | ⟨block, hblock, -⟩
    · omega
    · exact (length_pos_of_mem hblock).ne'
  have hstop := h.holds.prevStop ack
  rw [SctpSimpleGapList.prevStop, ← h.numGaps, if_neg hne] at hstop
  have hbeyond : ¬(gapList.numGaps = 0 ∨
      tsnGt (of t) (gapList.gapStopList (gapList.numGaps - 1) + 1) = true) := by
    rw [or_iff_right hne, hstop, ← of_add_one, tsnGt_of_iff (by omega) (by omega)]
    omega
  have hlo : ¬of t = of (l + 1) := by
    rw [of_eq_of_iff (by omega) (by omega)]
    omega
  rw [SctpSimpleGapList.appendGap, if_neg hlo, if_neg hbeyond]

/-- A TSN that is near is added to the set. -/
theorem Refines.updateGapList {cTsnAck : Tsn} {tsns : Set ℤ}
    (h : gapList.Refines cTsnAck tsns ack blocks)
    (hwindow : last ack blocks - ack < 2 ^ 31) (hback : ack - t < 2 ^ 31)
    (hahead : t - ack < 2 ^ 31)
    (hnear : last ack blocks - t < 2 ^ 31)
    (hzero : ∀ i < gapList.numGaps, gapList.gapStartList i = 0 →
      tsnLe (of t) (gapList.prevStop cTsnAck i) = true)
    (hspace : gapList.numGaps < maxGapCount ∨ t ≤ ack + 1 ∨
      ∃ block ∈ blocks, block.1 - 1 ≤ t ∧ t ≤ block.2 + 1) (new : Bool) :
    ∃ returned updated cTsnAck' new' ack' blocks',
      gapList.updateGapList (of t) cTsnAck new = .ok (returned, updated, cTsnAck', new') ∧
      (new' = true ↔ new = true ∨ t ∉ tsns) ∧
      updated.Refines cTsnAck' (Insert.insert t tsns) ack' blocks' := by
  obtain ⟨rfl, hrepresents, hapart, rfl⟩ := h
  unfold SctpSimpleGapList.updateGapList
  have hle : tsnLe (of t) (of ack) = true ↔ t ≤ ack := tsnLe_of_iff (by omega) (by omega)
  have hcovered : t ∈ Blocks.covered ack blocks → (new = true ↔ new = true ∨
      t ∉ Blocks.covered ack blocks) ∧ gapList.Refines (of ack)
        (Insert.insert t (Blocks.covered ack blocks)) ack blocks := by
    intro hmem
    refine ⟨?_, rfl, hrepresents, hapart, (Set.insert_eq_of_mem hmem).symm⟩
    rw [or_iff_left (not_not.mpr hmem)]
  have hbeyond : t ∉ Blocks.covered ack blocks →
      (true = true ↔ new = true ∨ t ∉ Blocks.covered ack blocks) :=
    fun hmem ↦ ⟨fun _ ↦ .inr hmem, fun _ ↦ rfl⟩
  by_cases hold : t ≤ ack
  · rw [if_pos (hle.mpr hold)]
    exact ⟨_, _, _, _, _, _, rfl, hcovered (.inl hold)⟩
  · rw [if_neg (mt hle.mp hold), hrepresents.numGaps, ← of_add_one]
    have hzero' : ∀ before block after, blocks = before ++ block :: after → of block.1 = 0 →
        t ≤ last ack before := by
      rintro before block after rfl hblock
      obtain ⟨hnum, hbefore, hstart, -⟩ := represents_append_cons.mp hrepresents
      obtain ⟨hapartBefore, hlt, hle', hafter⟩ := apart_append_cons.mp hapart
      have hprev := hzero before.length (by omega) (hstart.1.trans hblock)
      have hlast := hafter.le_last
      have hlast' := hapartBefore.le_last
      rw [last_append_cons] at hwindow hnear
      rw [hbefore.prevStop ack, tsnLe_of_iff (by omega) (by omega)] at hprev
      exact hprev
    rcases search_of_lt hrepresents.holds hapart (not_le.mp hold) hahead hnear hzero' with
      ⟨before, block, after, rfl, hlast, hlt, hsearch⟩ | ⟨l, hsearch, hl, hlast, hmem⟩ |
        ⟨hlast, hsearch⟩
    · obtain ⟨hbefore, -, hle', hafter⟩ := apart_append_cons.mp hapart
      have hlast' := hbefore.le_last
      have hafter' := hafter.le_last
      rw [last_append_cons] at hwindow
      have hfill : ∃ filled cTsnAck' ack' blocks',
          gapList.fillGap before.length (of (last ack before + 1)) (of t) (of ack) =
            .ok (filled, cTsnAck') ∧
          filled.Refines cTsnAck'
            (Insert.insert t (Blocks.covered ack (before ++ block :: after))) ack' blocks' := by
        by_cases hwide : last ack before + 1 < block.1 - 1
        · refine hrepresents.fillGap_of_wide hapart hlast hlt (by omega) hwide ?_
          rcases hspace with hfree | hfirst | ⟨other, hother, hge, hle''⟩
          · exact .inl hfree
          · exact .inr (.inl (by omega))
          · rcases mem_append.mp hother with hmem | hmem
            · have hbounds := hbefore.bounds hmem
              exact .inr (.inl (by omega))
            · rcases mem_cons.mp hmem with rfl | hmem
              · exact .inr (.inr (by omega))
              · have hbounds := hafter.bounds hmem
                omega
        · exact hrepresents.fillGap_of_narrow hapart (by omega) (by omega) (by omega)
      obtain ⟨filled, cTsnAck', ack', blocks', hfill, hrefines⟩ := hfill
      rw [hsearch, zero_add]
      simp only [bind_of_ok hfill]
      exact ⟨_, _, _, _, _, _, rfl, hbeyond (hapart.not_mem_between hlast hlt), hrefines⟩
    · have happend := hrepresents.appendGap_of_mem hmem (not_le.mp hold) hl hlast hnear new
      rw [hsearch]
      simp only [bind_of_ok happend]
      exact ⟨_, _, _, _, _, _, rfl, hcovered hmem⟩
    · have hspace' : gapList.numGaps < maxGapCount ∨ t = last ack blocks + 1 := by
        rcases hspace with hfree | hfirst | ⟨other, hother, -, hle'⟩
        · exact .inl hfree
        · have hle' := hapart.le_last
          exact .inr (by omega)
        · have hbounds := hapart.bounds hother
          exact .inr (by omega)
      obtain ⟨appended, cTsnAck', ack', blocks', happend, hrefines⟩ :=
        hrepresents.appendGap hapart hlast hahead hspace' new
      rw [hsearch]
      simp only [bind_of_ok happend]
      exact ⟨_, _, _, _, _, _, rfl, hbeyond (hapart.not_mem_after hlast), hrefines⟩

/-! ## Removal -/

/-- The block with a TSN is found. -/
theorem findBlock_eq (h : HoldsFrom gapList.gapStartList gapList.gapStopList 0 blocks)
    (hapart : Apart ack blocks) (hahead : t - ack ≤ 2 ^ 31) (hnear : last ack blocks - t < 2 ^ 31) :
    (∃ before s e after, blocks = before ++ (s, e) :: after ∧ s ≤ t ∧ t ≤ e ∧
        gapList.findBlock (of t) blocks.length = some before.length) ∨
      (¬∃ block ∈ blocks, block.1 ≤ t ∧ t ≤ block.2) ∧
        gapList.findBlock (of t) blocks.length = none := by
  induction blocks using reverseRecOn with
  | nil => exact .inr ⟨nofun, rfl⟩
  | append_singleton front block ih =>
    obtain ⟨hfront, hlast, hle, -⟩ := apart_append_cons.mp hapart
    have hle' := hfront.le_last
    rw [last_append_cons, last] at hnear
    rw [holdsFrom_append, zero_add] at h
    have hlength : (front ++ [block]).length = front.length + 1 := by simp
    have hbetween : tsnBetween (of block.1) (of t) (of block.2) = true ↔
        block.1 ≤ t ∧ t ≤ block.2 :=
      tsnBetween_of_iff (by omega) (by omega) (by omega) (by omega)
    rw [hlength, findBlock, h.2.1.1, h.2.1.2]
    simp only [hbetween]
    by_cases hin : block.1 ≤ t ∧ t ≤ block.2
    · rw [if_pos hin]
      exact .inl ⟨front, block.1, block.2, [], rfl, hin.1, hin.2, rfl⟩
    · rw [if_neg hin]
      rcases ih h.1 hfront (by omega) with
        ⟨before, s, e, after, rfl, hs, he, hfind⟩ | ⟨hnone, hfind⟩
      · refine .inl ⟨before, s, e, after ++ [block], ?_, hs, he, hfind⟩
        rw [append_assoc, cons_append]
      · refine .inr ⟨?_, hfind⟩
        rintro ⟨other, hother, hin'⟩
        rcases mem_append.mp hother with hmem | hmem
        · exact hnone ⟨other, hmem, hin'⟩
        · exact hin (mem_singleton.mp hmem ▸ hin')

/-- A TSN in a block is taken out. -/
theorem Represents.removeFromGapList {s e : ℤ}
    (h : gapList.Represents (before ++ (s, e) :: after))
    (hapart : Apart ack (before ++ (s, e) :: after)) (hs : s ≤ t) (he : t ≤ e)
    (hwindow : last ack (before ++ (s, e) :: after) - ack < 2 ^ 31)
    (hfind : gapList.findBlock (of t) gapList.numGaps = some before.length)
    (hspace : gapList.numGaps < maxGapCount ∨ (s = t ∨ t = e) ∧ s ≠ e) :
    ∃ removed blocks', gapList.removeFromGapList (of t) = .ok removed ∧
      removed.Refines (of ack) (Blocks.covered ack (before ++ (s, e) :: after) \ {t})
        ack blocks' := by
  obtain ⟨hnum, hbefore, hblock, hafter⟩ := represents_append_cons.mp h
  obtain ⟨hbefore', hlt, hle, hafter'⟩ := apart_append_cons.mp hapart
  have hlast := hafter'.le_last
  have hlast' := hbefore'.le_last
  rw [last_append_cons] at hwindow
  have hsize : (of e - of s + 1).toInt = e - s + 1 := by
    rw [← of_sub, ← of_add_one, of, BitVec.toInt_ofInt, Int.bmod_eq_of_le] <;> omega
  have heq : ∀ x : ℤ, s ≤ x → x ≤ e → (of x = of t ↔ x = t) :=
    fun x _ _ ↦ of_eq_of_iff (by omega) (by omega)
  unfold SctpSimpleGapList.removeFromGapList
  simp only [hfind, hblock.1, hblock.2, hsize, heq e hle le_rfl, heq s le_rfl hle]
  by_cases hlong : e - s + 1 > 1
  · rw [if_pos hlong]
    by_cases hstop : e = t
    · rw [if_pos hstop, ← of_sub_one, ← hstop]
      refine ⟨_, _, rfl, rfl, h.setStop (e - 1), ?_, hapart.covered_diff_stop⟩
      exact apart_append_cons.mpr ⟨hbefore', hlt, by omega, hafter'.mono (by omega)⟩
    · rw [if_neg hstop]
      by_cases hstart : s = t
      · rw [if_pos hstart, ← of_add_one, ← hstart]
        refine ⟨_, _, rfl, rfl, h.setStart (s + 1), ?_, hapart.covered_diff_start⟩
        exact apart_append_cons.mpr ⟨hbefore', by omega, by omega, hafter'⟩
      · have hfree : gapList.numGaps < maxGapCount := by
          rcases hspace with hfree | ⟨hend, -⟩
          · exact hfree
          · omega
        obtain ⟨moved, hmoved, hindex, hrepresents⟩ := h.split hfree t
        rw [if_neg hstart]
        simp only [bind_of_ok hmoved, if_pos hindex, ← of_add_one, ← of_sub_one]
        refine ⟨_, _, rfl, rfl, hrepresents, ?_, hapart.covered_diff_split hs he⟩
        exact apart_append_cons.mpr ⟨hbefore', hlt, by omega, by omega, by omega, hafter'⟩
  · have hfree : gapList.numGaps < maxGapCount := by
      rcases hspace with hfree | ⟨-, hne⟩
      · exact hfree
      · omega
    obtain rfl : s = t := by omega
    obtain rfl : e = s := by omega
    rw [if_neg hlong, bind_of_ok (moveDown_eq (by omega) one_pos (le_add_left 1 _))]
    refine ⟨_, before ++ after, rfl, rfl, ⟨?_, ?_⟩, ?_, hapart.covered_diff_block⟩
    · simp only [hnum, length_append]
      omega
    · rw [holdsFrom_append, zero_add]
      refine ⟨hbefore.congr ?_, hafter.congr ?_⟩
      · intro j hj
        have hne : 0 + j ≠ gapList.numGaps - 1 := by omega
        have hout : ¬(before.length + 1 ≤ 0 + j + 1 ∧
            0 + j + 1 < before.length + 1 + (gapList.numGaps - before.length)) := by omega
        exact ⟨(update_of_ne hne _ _).trans (if_neg hout),
          (update_of_ne hne _ _).trans (if_neg hout)⟩
      · intro j hj
        have hne : before.length + j ≠ gapList.numGaps - 1 := by omega
        have hin : before.length + 1 ≤ before.length + j + 1 ∧ before.length + j + 1 <
            before.length + 1 + (gapList.numGaps - before.length) := by omega
        have hindex : before.length + 1 + j = before.length + j + 1 := by omega
        rw [hindex]
        exact ⟨(update_of_ne hne _ _).trans (if_pos hin),
          (update_of_ne hne _ _).trans (if_pos hin)⟩
    · exact hapart.remove

/-- A TSN that is near is taken out unless the cumulative TSN covers it. -/
theorem Refines.removeFromGapList {cTsnAck : Tsn} {tsns : Set ℤ}
    (h : gapList.Refines cTsnAck tsns ack blocks) (hwindow : last ack blocks - ack < 2 ^ 31)
    (hahead : t - ack < 2 ^ 31) (hnear : last ack blocks - t < 2 ^ 31)
    (hspace : gapList.numGaps < maxGapCount ∨ ∀ block ∈ blocks, block.1 ≤ t → t ≤ block.2 →
      (block.1 = t ∨ t = block.2) ∧ block.1 ≠ block.2) :
    ∃ removed blocks', gapList.removeFromGapList (of t) = .ok removed ∧
      removed.Refines cTsnAck {x ∈ tsns | x ≠ t ∨ ∀ y ≤ x, y ∈ tsns} ack blocks' := by
  obtain ⟨rfl, hrepresents, hapart, rfl⟩ := h
  have hfind := findBlock_eq hrepresents.holds hapart hahead.le hnear
  rw [← hrepresents.numGaps] at hfind
  simp only [hapart.forall_le_mem_iff]
  rcases hfind with ⟨before, s, e, after, rfl, hs, he, hfind⟩ | ⟨hnone, hfind⟩
  · have hspace' : gapList.numGaps < maxGapCount ∨ (s = t ∨ t = e) ∧ s ≠ e := by
      rcases hspace with hfree | hall
      · exact .inl hfree
      · exact .inr (hall (s, e) (mem_append_right before mem_cons_self) hs he)
    obtain ⟨removed, blocks', hremoved, hrefines⟩ :=
      hrepresents.removeFromGapList hapart hs he hwindow hfind hspace'
    refine ⟨removed, blocks', hremoved, ?_⟩
    have hbounds := hapart.bounds (mem_append_right before mem_cons_self)
    have hset : {x ∈ Blocks.covered ack (before ++ (s, e) :: after) | x ≠ t ∨ x ≤ ack} =
        Blocks.covered ack (before ++ (s, e) :: after) \ {t} := by
      ext x
      grind
    rw [hset]
    exact hrefines
  · have hset : {x ∈ Blocks.covered ack blocks | x ≠ t ∨ x ≤ ack} = Blocks.covered ack blocks := by
      ext x
      simp only [Set.mem_ofPred_eq, and_iff_left_iff_imp]
      rintro (hle | hin)
      · exact .inr hle
      · left
        rintro rfl
        exact hnone hin
    rw [SctpSimpleGapList.removeFromGapList, hfind, hset]
    exact ⟨_, blocks, rfl, rfl, hrepresents, hapart, rfl⟩

/-! ## The cumulative TSN -/

/-- The blocks up to a TSN are counted when the TSN after it is in none of them. -/
theorem countAdvance_eq {c : ℤ} (h : HoldsFrom gapList.gapStartList gapList.gapStopList i blocks)
    (hapart : Apart a blocks) (hahead : c - a < 2 ^ 31) (hnear : last a blocks - c < 2 ^ 31)
    (hcut : ¬∃ block ∈ blocks, block.1 ≤ c + 1 ∧ c + 1 ≤ block.2) :
    ∃ before after, blocks = before ++ after ∧
      gapList.countAdvance (of c) blocks.length i = before.length ∧
      (∀ block ∈ before, block.2 ≤ c) ∧ Apart c after := by
  induction blocks generalizing a i with
  | nil => exact ⟨[], [], rfl, rfl, nofun, trivial⟩
  | cons block blocks ih =>
    have hstart := hapart.1
    have hblock := hapart.2.1
    have hlast := hapart.2.2.le_last
    simp only [last] at hnear
    rw [exists_mem_cons_iff, not_or] at hcut
    have hge : tsnGe (of c) (of block.1) = true ↔ block.1 ≤ c :=
      tsnGe_of_iff (by omega) (by omega)
    rw [length_cons, countAdvance, h.1.1]
    simp only [hge]
    by_cases hle : block.1 ≤ c
    · obtain ⟨before, after, rfl, hcount, hbefore, hafter⟩ :=
        ih h.2 hapart.2.2 (by omega) hnear hcut.2
      rw [if_pos hle, hcount]
      refine ⟨block :: before, after, rfl, rfl, ?_, hafter⟩
      intro other hother
      rcases mem_cons.mp hother with rfl | hmem
      · omega
      · exact hbefore other hmem
    · rw [if_neg hle]
      exact ⟨[], block :: blocks, rfl, rfl, nofun, by omega, hblock, hapart.2.2⟩

/-- The cumulative TSN is moved to a TSN that is near, when the TSN after it is in no block. -/
theorem Refines.forwardCumAckTsn {cTsnAck : Tsn} {tsns : Set ℤ} {c : ℤ}
    (h : gapList.Refines cTsnAck tsns ack blocks) (hle : ack ≤ c) (hahead : c - ack < 2 ^ 31)
    (hnear : last ack blocks - c < 2 ^ 31)
    (hcut : ¬∃ block ∈ blocks, block.1 ≤ c + 1 ∧ c + 1 ≤ block.2) :
    ∃ forwarded blocks', gapList.forwardCumAckTsn (of c) = .ok forwarded ∧
      forwarded.Refines (of c) (tsns ∪ {x | x ≤ c}) c blocks' := by
  obtain ⟨-, hrepresents, hapart, rfl⟩ := h
  obtain ⟨before, after, rfl, hcount, hbefore, hafter⟩ :=
    countAdvance_eq hrepresents.holds hapart hahead hnear hcut
  rw [← hrepresents.numGaps] at hcount
  have hnum := hrepresents.numGaps
  have hholds := hrepresents.holds
  rw [length_append] at hnum
  rw [holdsFrom_append, zero_add] at hholds
  have hcovered : Blocks.covered c after =
      Blocks.covered ack (before ++ after) ∪ {x | x ≤ c} := by
    ext x
    simp only [mem_covered, Set.mem_union, Set.mem_ofPred_eq, mem_append, or_and_right,
      exists_or]
    constructor
    · rintro (hx | hx)
      · exact .inr hx
      · exact .inl (.inr (.inr hx))
    · rintro ((hx | ⟨block, hblock, -, hx⟩ | hx) | hx)
      · exact .inl (hx.trans hle)
      · exact .inl (hx.trans (hbefore block hblock))
      · exact .inr hx
      · exact .inl hx
  rw [← hcovered]
  have hmax := gapList.numGaps_le
  simp only [SctpSimpleGapList.forwardCumAckTsn, hcount]
  by_cases hpos : 0 < before.length
  · rw [if_pos hpos, bind_of_ok (moveDown_eq (by omega) hpos le_rfl)]
    refine ⟨_, after, rfl, rfl, ⟨?_, ?_⟩, hafter, rfl⟩
    · simp only [hnum]
      omega
    · refine hholds.2.congr ?_
      intro j hj
      have hin : before.length ≤ 0 + j + before.length ∧
          0 + j + before.length < before.length + (gapList.numGaps - before.length) := by omega
      have hindex : before.length + j = 0 + j + before.length := by omega
      rw [hindex]
      exact ⟨if_pos hin, if_pos hin⟩
  · obtain rfl : before = [] := length_eq_zero_iff.mp (by omega)
    exact ⟨_, after, rfl, rfl, hrepresents, hafter, rfl⟩

/-- No block follows the cumulative TSN. -/
theorem Refines.tryToAdvanceCumAckTsn {cTsnAck : Tsn} {tsns : Set ℤ}
    (h : gapList.Refines cTsnAck tsns ack blocks) (hwindow : last ack blocks - ack < 2 ^ 31) :
    gapList.tryToAdvanceCumAckTsn cTsnAck = .ok (false, gapList, cTsnAck) := by
  have hne : 0 < gapList.numGaps → cTsnAck + 1 ≠ gapList.gapStartList 0 := by
    intro hpos
    cases blocks with
    | nil => exact absurd h.represents.numGaps hpos.ne'
    | cons block blocks =>
      have hstart := h.represents.holds.1.1
      have hbounds := h.apart.bounds mem_cons_self
      rw [h.cTsnAck, hstart, ← of_add_one, Ne, of_eq_of_iff (by omega) (by omega)]
      omega
  have hloop : ∀ rounds ≤ gapList.numGaps,
      advanceLoop rounds gapList cTsnAck false = .ok (false, gapList, cTsnAck) := by
    intro rounds hrounds
    induction rounds with
    | zero => rfl
    | succ rounds ih =>
      rw [advanceLoop, if_neg (hne (by omega))]
      exact ih (by omega)
  exact hloop gapList.numGaps le_rfl

/-! ## Assertions and lookups -/

/-- The assertions hold. -/
theorem Refines.check {cTsnAck : Tsn} {tsns : Set ℤ} (h : gapList.Refines cTsnAck tsns ack blocks)
    (hwindow : last ack blocks - ack < 2 ^ 31) : gapList.check cTsnAck = true := by
  obtain ⟨rfl, hrepresents, hapart, -⟩ := h
  rw [SctpSimpleGapList.check, all_eq_true]
  intro i hi
  rw [mem_range, hrepresents.numGaps] at hi
  have hsplit : blocks = blocks.take i ++ blocks[i] :: blocks.drop (i + 1) := by
    rw [getElem_cons_drop, take_append_drop]
  have hlength : (blocks.take i).length = i := by
    rw [length_take]
    omega
  rw [hsplit] at hrepresents hapart
  obtain ⟨-, hbefore, hblock, -⟩ := represents_append_cons.mp hrepresents
  obtain ⟨hapartBefore, hlt, hle, hafter⟩ := apart_append_cons.mp hapart
  have hprev := hbefore.prevStop ack
  rw [hlength] at hprev hblock
  have hlast := hapartBefore.le_last
  have hlast' := hafter.le_last
  rw [hsplit, last_append_cons] at hwindow
  have hstart : (if i = 0 then tsnGt (gapList.gapStartList i) (of ack + 1)
      else tsnGt (gapList.gapStartList i) (gapList.gapStopList (i - 1) + 1)) =
      tsnGt (gapList.gapStartList i) (gapList.prevStop (of ack) i + 1) := by
    rw [SctpSimpleGapList.prevStop]
    split <;> rfl
  rw [hstart, hprev, hblock.1, hblock.2, ← of_add_one, Bool.and_eq_true,
    tsnGt_of_iff (by omega) (by omega), tsnLe_of_iff (by omega) (by omega)]
  exact ⟨hlt, hle⟩

theorem tsnInGapList_eq (gapList : SctpSimpleGapList) (tsn : Tsn) :
    gapList.tsnInGapList tsn = (gapList.findBlock tsn gapList.numGaps).isSome := by
  have hany : ∀ n, ((range n).any fun i ↦
      tsnBetween (gapList.gapStartList i) tsn (gapList.gapStopList i)) =
        (gapList.findBlock tsn n).isSome := by
    intro n
    induction n with
    | zero => rfl
    | succ n ih =>
      rw [range_succ, any_append, ih, findBlock]
      split
      · rename_i hin
        simp [hin]
      · rename_i hout
        simp [hout]
  exact hany gapList.numGaps

/-- A TSN that is near is in the list when its integer is in a block. -/
theorem Represents.tsnInGapList (h : gapList.Represents blocks) (hapart : Apart ack blocks)
    (hahead : t - ack ≤ 2 ^ 31) (hnear : last ack blocks - t < 2 ^ 31) :
    gapList.tsnInGapList (of t) = true ↔ ∃ block ∈ blocks, block.1 ≤ t ∧ t ≤ block.2 := by
  rw [tsnInGapList_eq, h.numGaps]
  rcases findBlock_eq h.holds hapart hahead hnear with
    ⟨before, s, e, after, rfl, hs, he, hfind⟩ | ⟨hnone, hfind⟩
  · rw [hfind]
    refine ⟨fun _ ↦ ?_, fun _ ↦ rfl⟩
    exact ⟨(s, e), mem_append_right before mem_cons_self, hs, he⟩
  · rw [hfind]
    exact ⟨nofun, fun hin ↦ absurd hin hnone⟩

/-- A TSN that is near is covered when its integer is in the set. -/
theorem Refines.covered_iff {cTsnAck : Tsn} {tsns : Set ℤ}
    (h : gapList.Refines cTsnAck tsns ack blocks) (hback : ack - t < 2 ^ 31)
    (hahead : t - ack < 2 ^ 31) (hnear : last ack blocks - t < 2 ^ 31) :
    (tsnLe (of t) cTsnAck || gapList.tsnInGapList (of t)) = true ↔ t ∈ tsns := by
  obtain ⟨rfl, hrepresents, hapart, rfl⟩ := h
  rw [Bool.or_eq_true, tsnLe_of_iff (by omega) (by omega),
    hrepresents.tsnInGapList hapart hahead.le hnear]
  exact Iff.rfl

end Inet4.Sctp.SctpSimpleGapList
