import Inet4.Kernel
import Inet4.SparseStore
import Mathlib.Data.List.TakeWhile
import Mathlib.Tactic.Linarith

/-!
# Chunk buffers

`ChunkBuffer` stores chunks at offsets and overwrites what was there before.  A chunk is modelled by
the list of its positions (bits, or bytes where all offsets and lengths are byte aligned), so that
`peek` is a sublist and the three ways in which `mergeRegions` joins two chunks are one
concatenation.  Of the two regions that are joined one is left without data and erased by
`eraseEmptyRegions`; which one depends on the types of the chunks and makes no difference to the
regions that remain.

`sliceRegions` removes the positions of the new region from the old ones.  It looks only at the old
regions between two binary searches; in a separated list the others are apart from the new region,
so that the window can be forgotten (`sliceRegions_eq`).
-/

namespace Inet4.ChunkBuffer

open List Nat Option Region

variable {α : Type}

/-- The body of the loop of `sliceRegions`, from one old region on. -/
def sliceLoop (new : Region α) : List (Region α) → List (Region α)
  | [] => []
  | old :: rest =>
    if new.Apart old then
      old :: sliceLoop new rest
    else if new.getStartOffset ≤ old.getStartOffset ∧ old.getEndOffset ≤ new.getEndOffset then
      -- new totally covers old
      sliceLoop new rest
    else if old.getStartOffset < new.getStartOffset ∧ new.getEndOffset < old.getEndOffset then
      -- new splits old into two parts
      ⟨old.offset, old.data.take (new.getStartOffset - old.getStartOffset)⟩ ::
        ⟨new.getEndOffset, old.data.drop (new.getEndOffset - old.getStartOffset)⟩ :: rest
    else if old.getEndOffset ≤ new.getEndOffset then
      -- new cuts end of old
      ⟨old.offset, old.data.take (new.getStartOffset - old.getStartOffset)⟩ :: sliceLoop new rest
    else
      -- new cuts beginning of old
      ⟨new.getEndOffset, old.data.drop (new.getEndOffset - old.getStartOffset)⟩ ::
        sliceLoop new rest

/-- `sliceRegions`.  The searches are `std::lower_bound` by start offset and `std::upper_bound` by
end offset, each moved by one region outwards. -/
def sliceRegions (regions : List (Region α)) (new : Region α) : List (Region α) :=
  let lower := (regions.takeWhile fun r ↦ r.getStartOffset < new.getStartOffset).length - 1
  let upper := (regions.takeWhile fun r ↦ ¬new.getEndOffset < r.getEndOffset).length + 1
  regions.take lower ++ sliceLoop new ((regions.take upper).drop lower) ++
    regions.drop (max lower upper)

/-- `mergeRegions` followed by `eraseEmptyRegions`. -/
def mergeRegions (previous next : Region α) : List (Region α) :=
  if previous.getEndOffset = next.getStartOffset then
    [⟨previous.offset, previous.data ++ next.data⟩]
  else [previous, next]

/-- Two lists of regions side by side, with the regions that meet merged. -/
def joinRegions (left right : List (Region α)) : List (Region α) :=
  match left.getLast?, right with
  | some previous, next :: rest => left.dropLast ++ mergeRegions previous next ++ rest
  | _, _ => left ++ right

/-- `replace`.  The offset is not negative; an empty chunk fails the check of the usage. -/
def replace (regions : List (Region α)) (offset : ℕ) (chunk : List α) :
    Except Fault (List (Region α)) :=
  if chunk = [] then .error .runtimeError
  else
    let new : Region α := ⟨offset, chunk⟩
    let regions := sliceRegions regions new
    match regions.getLast?, regions.head? with
    | some back, some front =>
      if back.getEndOffset ≤ offset then
        .ok (joinRegions regions [new])
      else if offset + chunk.length ≤ front.getStartOffset then
        .ok (joinRegions [new] regions)
      else
        -- `std::upper_bound` by start offset
        let before := regions.takeWhile fun r ↦ ¬new.getStartOffset < r.getStartOffset
        .ok (joinRegions (joinRegions before [new]) (regions.drop before.length))
    | _, _ => .ok [new]

/-! ## Slicing -/

variable {new old r : Region α} {regions left right : List (Region α)} {x : ℕ}

theorem sliceLoop_of_apart (h : ∀ r ∈ regions, new.Apart r) : sliceLoop new regions = regions := by
  induction regions with
  | nil => rfl
  | cons old rest ih =>
    have hrest := ih fun r hr ↦ h r (mem_cons_of_mem old hr)
    simp only [sliceLoop, h old mem_cons_self, if_true, hrest]

theorem sliceLoop_append_left (h : ∀ r ∈ left, new.Apart r) :
    sliceLoop new (left ++ right) = left ++ sliceLoop new right := by
  induction left with
  | nil => rfl
  | cons old rest ih =>
    have hrest := ih fun r hr ↦ h r (mem_cons_of_mem old hr)
    simp only [cons_append, sliceLoop, h old mem_cons_self, if_true, hrest]

theorem sliceLoop_append_right (h : ∀ r ∈ right, new.Apart r) :
    sliceLoop new (left ++ right) = sliceLoop new left ++ right := by
  induction left with
  | nil => exact sliceLoop_of_apart h
  | cons old rest ih =>
    simp only [cons_append, sliceLoop, ih]
    split
    · rfl
    · split
      · rfl
      · split
        · rfl
        · split <;> rfl

/-- The regions before the window end before the new region starts. -/
theorem apart_of_mem_take (h : Separated regions)
    (hr : r ∈ regions.take
      ((regions.takeWhile fun r ↦ r.getStartOffset < new.getStartOffset).length - 1)) :
    new.Apart r := by
  set first := regions.takeWhile fun r ↦ r.getStartOffset < new.getStartOffset with hfirst
  have hprefix : first <+: regions := takeWhile_prefix _
  have htake : regions.take (first.length - 1) = first.dropLast := by
    rw [dropLast_eq_take]
    conv_rhs => rw [prefix_iff_eq_take.mp hprefix]
    rw [take_take]
    congr 1
    have hle := hprefix.length_le
    simp only [length_take]
    omega
  rw [htake] at hr
  have hne : first ≠ [] := by
    rintro hnil
    rw [hnil] at hr
    cases hr
  have hpairwise := h.ordered.sublist hprefix.sublist
  rw [← dropLast_append_getLast hne, pairwise_append] at hpairwise
  have hend := hpairwise.2.2 r hr _ (mem_singleton_self _)
  have hstart : (first.getLast hne).getStartOffset < new.getStartOffset := by
    have hmem : first.getLast hne ∈ regions.takeWhile
        fun r ↦ r.getStartOffset < new.getStartOffset := getLast_mem hne
    simpa using mem_takeWhile_imp hmem
  exact .inr (by omega)

/-- The regions behind the window start after the new region ends. -/
theorem apart_of_mem_drop (h : Separated regions)
    (hr : r ∈ regions.drop
      ((regions.takeWhile fun r ↦ ¬new.getEndOffset < r.getEndOffset).length + 1)) :
    new.Apart r := by
  set first := regions.takeWhile fun r ↦ ¬new.getEndOffset < r.getEndOffset with hfirst
  have hsplit : first ++ regions.dropWhile (fun r ↦ ¬new.getEndOffset < r.getEndOffset) =
      regions := takeWhile_append_dropWhile
  cases hrest : regions.dropWhile (fun r ↦ ¬new.getEndOffset < r.getEndOffset) with
  | nil =>
    rw [hrest, append_nil] at hsplit
    rw [← hsplit, drop_eq_nil_of_le (le_succ _)] at hr
    cases hr
  | cons next rest =>
    have hlt : new.getEndOffset < next.getEndOffset := by
      have hnot := head_dropWhile_not (p := fun r : Region α ↦
        decide (¬new.getEndOffset < r.getEndOffset)) (l := regions) (by rw [hrest]; simp)
      simp only [hrest, head_cons] at hnot
      simpa using hnot
    rw [hrest] at hsplit
    rw [← hsplit, drop_append, drop_eq_nil_of_le (Nat.le_succ _)] at hr
    simp only [Nat.add_sub_cancel_left, drop_one, tail_cons, nil_append] at hr
    have hordered := h.ordered
    rw [← hsplit, pairwise_append, pairwise_cons] at hordered
    have hstart := hordered.2.1.1 r hr
    exact .inl (by omega)

/-- In a separated list only the regions in the window meet the new region. -/
theorem sliceRegions_eq (h : Separated regions) :
    sliceRegions regions new = sliceLoop new regions := by
  unfold sliceRegions
  set lower := (regions.takeWhile fun r ↦ r.getStartOffset < new.getStartOffset).length - 1
  set upper := (regions.takeWhile fun r ↦ ¬new.getEndOffset < r.getEndOffset).length + 1
  have hleft : ∀ r ∈ regions.take lower, new.Apart r := fun r hr ↦ apart_of_mem_take h hr
  have hright : ∀ r ∈ regions.drop (max lower upper), new.Apart r := by
    intro r hr
    apply apart_of_mem_drop h
    exact (drop_sublist_drop_left regions (le_max_right lower upper)).subset hr
  have hsplit : regions.take lower ++ ((regions.take upper).drop lower ++
      regions.drop (max lower upper)) = regions := by
    rcases le_total lower upper with hle | hle
    · have hmiddle : (regions.take upper).take lower = regions.take lower := by
        rw [take_take, min_eq_left hle]
      rw [max_eq_right hle, ← append_assoc, ← hmiddle, take_append_drop,
        take_append_drop]
    · have hempty : (regions.take upper).drop lower = [] := by
        apply drop_eq_nil_of_le
        simp only [length_take]
        omega
      rw [max_eq_left hle, hempty, nil_append, take_append_drop]
  conv_rhs => rw [← hsplit]
  rw [sliceLoop_append_left hleft, sliceLoop_append_right hright, append_assoc]

/-! ## What slicing leaves -/

/-- The part of a region before a position. -/
theorem valueAt_take {offset n : ℕ} {data : List α} :
    valueAt ⟨offset, data.take n⟩ x =
      if x < offset + n then valueAt ⟨offset, data⟩ x else none := by
  simp only [valueAt, getElem?_take]
  split <;> split <;> first | rfl | omega | (split <;> first | rfl | omega)

/-- The part of a region from a position on. -/
theorem valueAt_drop {offset n : ℕ} {data : List α} :
    valueAt ⟨offset + n, data.drop n⟩ x =
      if offset + n ≤ x then valueAt ⟨offset, data⟩ x else none := by
  simp only [valueAt, getElem?_drop]
  split
  · rename_i hle
    rw [if_pos (by omega)]
    congr 1
    omega
  · rfl

/-- The parts of a region that lie outside the new one. -/
def cut (new old : Region α) : List (Region α) :=
  if new.Apart old then [old]
  else
    (if old.getStartOffset < new.getStartOffset then
      [⟨old.offset, old.data.take (new.getStartOffset - old.getStartOffset)⟩] else []) ++
    (if new.getEndOffset < old.getEndOffset then
      [⟨new.getEndOffset, old.data.drop (new.getEndOffset - old.getStartOffset)⟩] else [])

/-- What a part of a region outside the new one is like. -/
structure IsPart (new old r : Region α) : Prop where
  start : old.getStartOffset ≤ r.getStartOffset
  finish : r.getEndOffset ≤ old.getEndOffset
  nonempty : r.data ≠ []
  apart : new.Apart r

theorem isPart_of_mem_cut (hold : old.data ≠ []) (hr : r ∈ cut new old) : IsPart new old r := by
  unfold cut at hr
  split at hr
  · rename_i hapart
    obtain rfl := mem_singleton.mp hr
    exact ⟨le_refl _, le_refl _, hold, hapart⟩
  · rename_i hmeet
    simp only [Apart, getStartOffset, getEndOffset] at hmeet
    rcases mem_append.mp hr with hr | hr
    · split at hr
      · rename_i hlt
        obtain rfl := mem_singleton.mp hr
        simp only [getStartOffset] at hlt
        refine ⟨?_, ?_, ?_, ?_⟩
        · exact le_refl _
        · simp only [getEndOffset, length_take]
          omega
        · rw [← length_pos_iff, length_take, getStartOffset,
            getStartOffset]
          omega
        · right
          simp only [getStartOffset, getEndOffset, length_take]
          omega
      · cases hr
    · split at hr
      · rename_i hlt
        obtain rfl := mem_singleton.mp hr
        simp only [getEndOffset] at hlt
        refine ⟨?_, ?_, ?_, ?_⟩
        · simp only [getStartOffset, getEndOffset]
          omega
        · simp only [getStartOffset, getEndOffset, length_drop]
          omega
        · rw [← length_pos_iff, length_drop, getStartOffset,
            getEndOffset]
          omega
        · left
          exact le_refl _
      · cases hr

/-- The two parts of a region that is split do not touch. -/
theorem separated_cut (hnew : new.data ≠ []) (hold : old.data ≠ []) : Separated (cut new old) := by
  have hlen : 0 < new.data.length := length_pos_of_ne_nil hnew
  refine ⟨?_, fun r hr ↦ (isPart_of_mem_cut hold hr).nonempty⟩
  unfold cut
  split
  · exact pairwise_singleton _ _
  · rename_i hmeet
    split <;> split
    · rename_i hstart hend
      simp only [singleton_append, pairwise_cons, mem_singleton, forall_eq,
        not_mem_nil, false_imp_iff, implies_true, List.Pairwise.nil, and_true]
      simp only [getStartOffset, getEndOffset, length_take] at *
      omega
    · exact pairwise_singleton _ _
    · exact pairwise_singleton _ _
    · exact List.Pairwise.nil

theorem read_left_part : readRegions (if old.getStartOffset < new.getStartOffset then
      [⟨old.offset, old.data.take (new.getStartOffset - old.getStartOffset)⟩] else []) x =
    if x < new.getStartOffset then old.valueAt x else none := by
  split
  · rename_i hlt
    have hoffset : old.offset + (new.getStartOffset - old.getStartOffset) = new.getStartOffset := by
      simp only [getStartOffset] at hlt ⊢
      omega
    simp only [readRegions, or_none, valueAt_take, hoffset]
  · rename_i hge
    split
    · rename_i hx
      refine (valueAt_eq_none_iff.mpr (.inl ?_)).symm
      simp only [getStartOffset] at hge hx
      omega
    · rfl

theorem read_right_part (hmeet : ¬new.Apart old) :
    readRegions (if new.getEndOffset < old.getEndOffset then
      [⟨new.getEndOffset, old.data.drop (new.getEndOffset - old.getStartOffset)⟩] else []) x =
    if new.getEndOffset ≤ x then old.valueAt x else none := by
  split
  · have hoffset : new.getEndOffset = old.offset + (new.getEndOffset - old.getStartOffset) := by
      simp only [Apart, getStartOffset, getEndOffset] at hmeet ⊢
      omega
    simp only [readRegions, or_none]
    rw [show (⟨new.getEndOffset, old.data.drop (new.getEndOffset - old.getStartOffset)⟩ :
      Region α) = ⟨old.offset + (new.getEndOffset - old.getStartOffset),
        old.data.drop (new.getEndOffset - old.getStartOffset)⟩ by rw [← hoffset], valueAt_drop,
      ← hoffset]
  · rename_i hge
    split
    · rename_i hx
      refine (valueAt_eq_none_iff.mpr (.inr ?_)).symm
      omega
    · rfl

theorem read_cut (hnew : new.data ≠ []) : readRegions (cut new old) x =
    if new.getStartOffset ≤ x ∧ x < new.getEndOffset then none else old.valueAt x := by
  have hlen : 0 < new.data.length := length_pos_of_ne_nil hnew
  unfold cut
  split
  · rename_i hapart
    simp only [readRegions, or_none]
    split
    · rename_i hx
      exact valueAt_eq_none_of_apart (Or.symm hapart) hx.1 hx.2
    · rfl
  · rename_i hmeet
    rw [readRegions_append, read_left_part, read_right_part hmeet]
    have hlt : new.getStartOffset < new.getEndOffset := by
      simp only [getStartOffset, getEndOffset]
      omega
    by_cases hleft : x < new.getStartOffset
    · rw [if_pos hleft, if_neg (by omega), if_neg (by omega), or_none]
    · rw [if_neg hleft, none_or]
      by_cases hright : new.getEndOffset ≤ x
      · rw [if_pos hright, if_neg (by omega)]
      · rw [if_neg hright, if_pos (by omega)]

/-- In a separated list the loop replaces each region by its parts. -/
theorem sliceLoop_eq (h : Separated regions) :
    sliceLoop new regions = regions.flatMap (cut new) := by
  induction regions with
  | nil => rfl
  | cons old rest ih =>
    rw [flatMap_cons, ← ih h.tail]
    rw [sliceLoop, cut]
    split
    · rfl
    · rename_i hmeet
      split
      · rename_i hcover
        rw [if_neg (by omega), if_neg (by omega)]
        rfl
      · rename_i hcover
        split
        · rename_i hsplit
          have hrest : sliceLoop new rest = rest := by
            apply sliceLoop_of_apart
            intro r hr
            have hlt := h.head_lt r hr
            exact .inl (by omega)
          rw [if_pos hsplit.1, if_pos hsplit.2, hrest]
          rfl
        · rename_i hsplit
          split
          · rw [if_pos (by omega), if_neg (by omega)]
            rfl
          · rw [if_neg (by omega), if_pos (by omega)]
            rfl

/-- Slicing keeps the regions separated. -/
theorem separated_sliceRegions (h : Separated regions) (hnew : new.data ≠ []) :
    Separated (sliceRegions regions new) := by
  rw [sliceRegions_eq h, sliceLoop_eq h]
  induction regions with
  | nil => exact Separated.nil
  | cons old rest ih =>
    have hold := h.nonempty old mem_cons_self
    refine (separated_cut hnew hold).append (ih h.tail) ?_
    intro r hr s hs
    obtain ⟨later, hlater, hs⟩ := mem_flatMap.mp hs
    have hpart := isPart_of_mem_cut hold hr
    have hpart' := isPart_of_mem_cut (h.tail.nonempty later hlater) hs
    have hlt := h.head_lt later hlater
    have hfinish := hpart.finish
    have hstart := hpart'.start
    omega

/-- Slicing leaves nothing at the positions of the new region. -/
theorem apart_of_mem_sliceRegions (h : Separated regions) (hr : r ∈ sliceRegions regions new) :
    new.Apart r := by
  rw [sliceRegions_eq h, sliceLoop_eq h] at hr
  obtain ⟨old, hold, hr⟩ := mem_flatMap.mp hr
  exact (isPart_of_mem_cut (h.nonempty old hold) hr).apart

/-- Slicing changes nothing at other positions. -/
theorem read_sliceRegions (h : Separated regions) (hnew : new.data ≠ []) :
    readRegions (sliceRegions regions new) x =
      if new.getStartOffset ≤ x ∧ x < new.getEndOffset then none else readRegions regions x := by
  rw [sliceRegions_eq h, sliceLoop_eq h]
  induction regions with
  | nil => simp
  | cons old rest ih =>
    rw [flatMap_cons, readRegions_append, read_cut hnew, ih h.tail]
    split
    · rfl
    · rfl

/-! ## Merging -/

theorem separated_mergeRegions (hr : r.data ≠ []) (hold : old.data ≠ [])
    (hle : r.getEndOffset ≤ old.getStartOffset) : Separated (mergeRegions r old) := by
  unfold mergeRegions
  split
  · exact Separated.singleton (by simp [hr])
  · rename_i hne
    refine Separated.cons hr ?_ (Separated.singleton hold)
    intro s hs
    obtain rfl := mem_singleton.mp hs
    omega

theorem read_mergeRegions : readRegions (mergeRegions r old) x =
    (r.valueAt x).or (old.valueAt x) := by
  unfold mergeRegions
  split
  · rename_i heq
    simp only [getEndOffset, getStartOffset] at heq
    simp only [readRegions, or_none]
    by_cases hx : x < old.offset
    · have hnone : old.valueAt x = none := valueAt_eq_none_iff.mpr (.inl hx)
      rw [hnone, or_none]
      simp only [valueAt]
      split
      · rw [getElem?_append_left (by omega)]
      · rfl
    · have hnone : r.valueAt x = none :=
        valueAt_eq_none_iff.mpr (.inr (by simp only [getEndOffset]; omega))
      rw [hnone, none_or]
      simp only [valueAt]
      rw [if_pos (by omega), if_pos (by omega), getElem?_append_right (by omega)]
      congr 1
      omega
  · simp only [readRegions, or_none]

/-- The left list ends before the right one starts. -/
def Before (left right : List (Region α)) : Prop :=
  ∀ r ∈ left, ∀ s ∈ right, r.getEndOffset ≤ s.getStartOffset

@[simp]
theorem joinRegions_nil_right (left : List (Region α)) : joinRegions left [] = left := by
  simp [joinRegions]

@[simp]
theorem joinRegions_nil_left (right : List (Region α)) : joinRegions [] right = right := by
  simp [joinRegions]

theorem joinRegions_concat (previous next : Region α) :
    joinRegions (left ++ [previous]) (next :: right) =
      left ++ mergeRegions previous next ++ right := by
  simp [joinRegions]

theorem read_joinRegions :
    readRegions (joinRegions left right) x = (readRegions left x).or (readRegions right x) := by
  cases right with
  | nil => simp [joinRegions]
  | cons next rest =>
    rcases eq_nil_or_concat left with rfl | ⟨init, previous, rfl⟩
    · simp [joinRegions]
    · rw [concat_eq_append, joinRegions_concat]
      simp only [readRegions_append, read_mergeRegions, readRegions, or_none,
        Option.or_assoc]

theorem mem_mergeRegions {s : Region α} (h : s ∈ mergeRegions r old) :
    (s.getStartOffset = r.getStartOffset ∨ s = old) ∧
      (s.getEndOffset = old.getEndOffset ∨ s = r) := by
  unfold mergeRegions at h
  split at h
  · rename_i heq
    obtain rfl := mem_singleton.mp h
    simp only [getStartOffset, getEndOffset, length_append] at *
    exact ⟨.inl trivial, .inl (by omega)⟩
  · rcases mem_cons.mp h with rfl | h
    · exact ⟨.inl rfl, .inr rfl⟩
    · obtain rfl := mem_singleton.mp h
      exact ⟨.inr rfl, .inl rfl⟩

theorem separated_joinRegions (hleft : Separated left) (hright : Separated right)
    (h : Before left right) : Separated (joinRegions left right) := by
  cases right with
  | nil => simpa [joinRegions] using hleft
  | cons next rest =>
    rcases eq_nil_or_concat left with rfl | ⟨init, previous, rfl⟩
    · simpa [joinRegions] using hright
    · rw [concat_eq_append] at *
      rw [joinRegions_concat]
      obtain ⟨hinit, hprevious, hgap⟩ := hleft.of_append
      have hle := h previous (by simp) next mem_cons_self
      have hdata := hprevious.nonempty previous (mem_singleton_self _)
      have hmerged := separated_mergeRegions hdata (hright.nonempty next mem_cons_self) hle
      refine (hinit.append hmerged ?_).append hright.tail ?_
      · intro r hr s hs
        have hlt := hgap r hr previous (mem_singleton_self _)
        rcases (mem_mergeRegions hs).1 with hstart | rfl
        · omega
        · simp only [getStartOffset, getEndOffset] at *
          omega
      · intro r hr s hs
        have hlt := hright.head_lt s hs
        rcases mem_append.mp hr with hr | hr
        · have hlt' := hgap r hr previous (mem_singleton_self _)
          simp only [getStartOffset, getEndOffset] at *
          omega
        · rcases (mem_mergeRegions hr).2 with hend | rfl
          · omega
          · simp only [getStartOffset, getEndOffset] at *
            omega

theorem exists_endOffset_of_mem_joinRegions (h : r ∈ joinRegions left right) :
    ∃ s ∈ left ++ right, r.getEndOffset = s.getEndOffset := by
  cases right with
  | nil =>
    exact ⟨r, by simpa using h, rfl⟩
  | cons next rest =>
    rcases eq_nil_or_concat left with rfl | ⟨init, previous, rfl⟩
    · exact ⟨r, by simpa [joinRegions] using h, rfl⟩
    · rw [concat_eq_append] at *
      rw [joinRegions_concat] at h
      rcases mem_append.mp h with h | h
      · rcases mem_append.mp h with h | h
        · exact ⟨r, by simp [h], rfl⟩
        · rcases (mem_mergeRegions h).2 with hend | rfl
          · exact ⟨next, by simp, hend⟩
          · exact ⟨r, by simp, rfl⟩
      · exact ⟨r, by simp [h], rfl⟩

/-- Behind the prefix that `takeWhile` takes of a sorted list the predicate fails throughout. -/
theorem not_of_mem_dropWhile {p : Region α → Bool} (h : regions.Pairwise fun r s ↦ p s → p r)
    (hr : r ∈ regions.dropWhile p) : ¬p r := by
  induction regions with
  | nil => cases hr
  | cons first rest ih =>
    obtain ⟨hfirst, hrest⟩ := pairwise_cons.mp h
    rw [dropWhile_cons] at hr
    split at hr
    · exact ih hrest hr
    · rename_i hnot
      rcases mem_cons.mp hr with rfl | hr
      · exact hnot
      · exact fun hp ↦ hnot (hfirst r hr hp)

/-! ## Writing -/

theorem exists_replace_ok (regions : List (Region α)) (offset : ℕ) {chunk : List α}
    (h : chunk ≠ []) : ∃ regions', replace regions offset chunk = .ok regions' := by
  unfold replace
  simp only [if_neg h]
  split
  · split
    · exact ⟨_, rfl⟩
    · split <;> exact ⟨_, rfl⟩
  · exact ⟨_, rfl⟩

theorem ne_nil_of_replace_ok {offset : ℕ} {chunk : List α} {regions' : List (Region α)}
    (h : replace regions offset chunk = .ok regions') : chunk ≠ [] := by
  rintro rfl
  simp [replace] at h

/-- A region that is put between the regions before it and the regions behind it. -/
theorem insert_spec {before after : List (Region α)} (hnew : new.data ≠ [])
    (h : Separated (before ++ after)) (hbefore : Before before [new])
    (hafter : Before [new] after) :
    Separated (joinRegions (joinRegions before [new]) after) ∧
      ∀ x, readRegions (joinRegions (joinRegions before [new]) after) x =
        if new.getStartOffset ≤ x ∧ x < new.getEndOffset then new.valueAt x
        else readRegions (before ++ after) x := by
  obtain ⟨hsepBefore, hsepAfter, hgap⟩ := h.of_append
  refine ⟨?_, ?_⟩
  · have hfirst := separated_joinRegions hsepBefore (Separated.singleton hnew) hbefore
    refine separated_joinRegions hfirst hsepAfter ?_
    intro r hr s hs
    obtain ⟨old, hold, hend⟩ := exists_endOffset_of_mem_joinRegions hr
    rw [hend]
    rcases mem_append.mp hold with hold | hold
    · exact le_of_lt (hgap old hold s hs)
    · exact hafter old hold s hs
  · intro x
    simp only [read_joinRegions, readRegions_append, readRegions, or_none]
    split
    · rename_i hx
      have hnone : readRegions before x = none := by
        apply readRegions_eq_none
        intro r hr
        have hle := hbefore r hr new (mem_singleton_self _)
        exact valueAt_eq_none_iff.mpr (.inr (by omega))
      have hsome : (new.valueAt x).isSome := by
        rw [isSome_iff_ne_none, Ne, valueAt_eq_none_iff]
        simp only [getStartOffset] at hx
        omega
      rw [hnone, none_or, or_of_isSome hsome]
    · rename_i hx
      have hnone : new.valueAt x = none := by
        rw [valueAt_eq_none_iff]
        simp only [getStartOffset] at hx
        omega
      rw [hnone, or_none]

/-- `replace` accepts every chunk that is not empty.  The regions stay separated, and the store
reads as the chunk at the positions of the chunk and as before at all others. -/
theorem replace_spec (offset : ℕ) {chunk : List α} (h : Separated regions) (hchunk : chunk ≠ []) :
    ∃ regions', replace regions offset chunk = .ok regions' ∧ Separated regions' ∧
      ∀ x, readRegions regions' x =
        if offset ≤ x ∧ x < offset + chunk.length then chunk[x - offset]?
        else readRegions regions x := by
  set new : Region α := ⟨offset, chunk⟩ with hnew
  obtain ⟨sliced, hsliced⟩ : ∃ sliced, sliceRegions regions new = sliced := ⟨_, rfl⟩
  have hsep : Separated sliced := hsliced ▸ separated_sliceRegions h hchunk
  have hapart : ∀ r ∈ sliced, new.Apart r := by
    intro r hr
    rw [← hsliced] at hr
    exact apart_of_mem_sliceRegions h hr
  -- it remains to split the sliced regions and to put the new one between the two parts
  suffices hsplit : ∃ before after, sliced = before ++ after ∧
      replace regions offset chunk = .ok (joinRegions (joinRegions before [new]) after) ∧
      (∀ r ∈ before, r.getStartOffset ≤ offset) ∧ (∀ r ∈ after, offset < r.getStartOffset) by
    obtain ⟨before, after, heq, hok, hbefore, hafter⟩ := hsplit
    obtain ⟨hresult, hread⟩ := insert_spec (show new.data ≠ [] from hchunk)
      (heq ▸ hsep)
      (by
        intro r hr s hs
        obtain rfl := mem_singleton.mp hs
        exact (hapart r (by simp [heq, hr])).before hchunk (hbefore r hr))
      (by
        intro s hs r hr
        obtain rfl := mem_singleton.mp hs
        exact (hapart r (by simp [heq, hr])).behind (hafter r hr))
    refine ⟨_, hok, hresult, ?_⟩
    intro x
    rw [hread, ← heq, ← hsliced, read_sliceRegions h hchunk]
    simp only [getStartOffset, getEndOffset, valueAt, hnew]
    split
    · rename_i hx
      rw [if_pos hx.1]
    · rfl
  unfold replace
  simp only [if_neg hchunk, ← hnew, hsliced]
  cases hlast : sliced.getLast? with
  | none =>
    obtain rfl := getLast?_eq_none_iff.mp hlast
    exact ⟨[], [], rfl, rfl, by simp, by simp⟩
  | some back =>
    cases hhead : sliced.head? with
    | none =>
      obtain rfl := head?_eq_none_iff.mp hhead
      cases hlast
    | some front =>
      dsimp only
      split
      · rename_i hbehind
        refine ⟨sliced, [], by simp, by simp, ?_, by simp⟩
        intro r hr
        have hle : r.getEndOffset ≤ back.getEndOffset := hsep.endOffset_le_getLast hlast hr
        have hstart := r.startOffset_le_endOffset
        omega
      · split
        · rename_i hbefore
          refine ⟨[], sliced, by simp, by simp, by simp, ?_⟩
          intro r hr
          have hle : front.getStartOffset ≤ r.getStartOffset := hsep.head_le_startOffset hhead hr
          have hlen : 0 < chunk.length := length_pos_of_ne_nil hchunk
          omega
        · have hprefix : sliced.takeWhile (fun r ↦ ¬offset < r.getStartOffset) <+: sliced :=
            takeWhile_prefix _
          refine ⟨_, _, (prefix_iff_eq_append.mp hprefix).symm, rfl, ?_, ?_⟩
          · intro r hr
            simpa using mem_takeWhile_imp hr
          · intro r hr
            have hdrop := append_cancel_left ((prefix_iff_eq_append.mp hprefix).trans
              takeWhile_append_dropWhile.symm)
            rw [hdrop] at hr
            have hsorted : sliced.Pairwise fun r s ↦
                decide (¬offset < s.getStartOffset) → decide (¬offset < r.getStartOffset) := by
              refine hsep.ordered.imp ?_
              intro r s hlt hs
              have hstart := r.startOffset_le_endOffset
              simp only [decide_eq_true_eq] at hs ⊢
              omega
            simpa using not_of_mem_dropWhile hsorted hr

end Inet4.ChunkBuffer
