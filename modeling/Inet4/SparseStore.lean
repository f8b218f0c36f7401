import Mathlib.Data.List.Basic

/-!
# Sparse stores as lists of regions

A sparse store is a partial map from positions to values.  It is represented by a list of regions,
each a run of values that starts at an offset.  In a separated list the regions are ordered, are not
empty and do not touch, so that each maximal run of defined positions is one region.  A separated
list is determined by the partial map it represents (`eq_of_read_eq`): two stores that read the same
are the same list.
-/

namespace Inet4

open List Option

/-- Values at consecutive positions. -/
structure Region (α : Type*) where
  offset : ℕ
  data : List α

namespace Region

variable {α : Type*}

def getStartOffset (r : Region α) : ℕ := r.offset

def getEndOffset (r : Region α) : ℕ := r.offset + r.data.length

/-- The value at a position. -/
def valueAt (r : Region α) (x : ℕ) : Option α :=
  if r.offset ≤ x then r.data[x - r.offset]? else none

/-- The regions have no position in common. -/
def Apart (r s : Region α) : Prop :=
  r.getEndOffset ≤ s.getStartOffset ∨ s.getEndOffset ≤ r.getStartOffset

instance (r s : Region α) : Decidable (r.Apart s) := inferInstanceAs (Decidable (_ ∨ _))

variable {r s : Region α} {x : ℕ}

theorem startOffset_le_endOffset (r : Region α) : r.getStartOffset ≤ r.getEndOffset :=
  Nat.le_add_right _ _

/-- Of two regions that are apart the one that does not start later ends first. -/
theorem Apart.before (h : r.Apart s) (hr : r.data ≠ [])
    (hle : s.getStartOffset ≤ r.getStartOffset) : s.getEndOffset ≤ r.getStartOffset := by
  have hlen : 0 < r.data.length := length_pos_of_ne_nil hr
  simp only [Apart, getStartOffset, getEndOffset] at *
  omega

theorem Apart.behind (h : r.Apart s) (hlt : r.getStartOffset < s.getStartOffset) :
    r.getEndOffset ≤ s.getStartOffset := by
  simp only [Apart, getStartOffset, getEndOffset] at *
  omega

theorem valueAt_eq_none_iff : r.valueAt x = none ↔ x < r.offset ∨ r.getEndOffset ≤ x := by
  unfold valueAt getEndOffset
  split
  · rw [getElem?_eq_none_iff]
    omega
  · simp
    omega

theorem valueAt_eq_none_of_apart (h : r.Apart s) (hx : s.getStartOffset ≤ x)
    (hx' : x < s.getEndOffset) : r.valueAt x = none := by
  rw [valueAt_eq_none_iff]
  simp only [Apart, getStartOffset, getEndOffset] at *
  omega

end Region

/-- The partial map that a list of regions represents. -/
def readRegions {α : Type*} : List (Region α) → ℕ → Option α
  | [], _ => none
  | r :: rest, x => (r.valueAt x).or (readRegions rest x)

/-- The regions are ordered, not empty, and do not touch. -/
structure Separated {α : Type*} (regions : List (Region α)) : Prop where
  ordered : regions.Pairwise fun r s ↦ r.getEndOffset < s.getStartOffset
  nonempty : ∀ r ∈ regions, r.data ≠ []

namespace Separated

variable {α : Type*} {r s : Region α} {rs ss : List (Region α)} {x : ℕ}

theorem nil : Separated ([] : List (Region α)) := ⟨List.Pairwise.nil, by simp⟩

theorem singleton (h : r.data ≠ []) : Separated [r] :=
  ⟨pairwise_singleton _ r, by simpa using h⟩

theorem tail (h : Separated (r :: rs)) : Separated rs :=
  ⟨(pairwise_cons.mp h.ordered).2, fun s hs ↦ h.nonempty s (mem_cons_of_mem r hs)⟩

theorem head_lt (h : Separated (r :: rs)) : ∀ s ∈ rs, r.getEndOffset < s.getStartOffset :=
  (pairwise_cons.mp h.ordered).1

theorem cons (hr : r.data ≠ []) (hlt : ∀ s ∈ rs, r.getEndOffset < s.getStartOffset)
    (h : Separated rs) : Separated (r :: rs) := by
  refine ⟨pairwise_cons.mpr ⟨hlt, h.ordered⟩, ?_⟩
  intro s hs
  rcases mem_cons.mp hs with rfl | hs
  · exact hr
  · exact h.nonempty s hs

theorem append (hr : Separated rs) (hs : Separated ss)
    (hlt : ∀ r ∈ rs, ∀ s ∈ ss, r.getEndOffset < s.getStartOffset) : Separated (rs ++ ss) := by
  refine ⟨pairwise_append.mpr ⟨hr.ordered, hs.ordered, hlt⟩, ?_⟩
  intro r hmem
  rcases mem_append.mp hmem with hmem | hmem
  · exact hr.nonempty r hmem
  · exact hs.nonempty r hmem

theorem of_append (h : Separated (rs ++ ss)) : Separated rs ∧ Separated ss ∧
    ∀ r ∈ rs, ∀ s ∈ ss, r.getEndOffset < s.getStartOffset := by
  obtain ⟨hr, hs, hlt⟩ := pairwise_append.mp h.ordered
  exact ⟨⟨hr, fun r hmem ↦ h.nonempty r (mem_append_left ss hmem)⟩,
    ⟨hs, fun s hmem ↦ h.nonempty s (mem_append_right rs hmem)⟩, hlt⟩

theorem endOffset_le_getLast (h : Separated rs) {last : Region α} (hlast : rs.getLast? = some last)
    (hr : r ∈ rs) : r.getEndOffset ≤ last.getEndOffset := by
  obtain ⟨init, rfl⟩ := getLast?_eq_some_iff.mp hlast
  rcases mem_append.mp hr with hr | hr
  · have hlt := h.of_append.2.2 r hr last (mem_singleton_self last)
    simp only [Region.getStartOffset, Region.getEndOffset] at *
    omega
  · obtain rfl := mem_singleton.mp hr
    exact Nat.le_refl _

theorem head_le_startOffset (h : Separated rs) {first : Region α} (hfirst : rs.head? = some first)
    (hr : r ∈ rs) : first.getStartOffset ≤ r.getStartOffset := by
  obtain ⟨rest, rfl⟩ := head?_eq_some_iff.mp hfirst
  rcases mem_cons.mp hr with rfl | hr
  · exact Nat.le_refl _
  · have hlt := h.head_lt r hr
    simp only [Region.getStartOffset, Region.getEndOffset] at *
    omega

end Separated

section Read

variable {α : Type*} {r s : Region α} {rs ss : List (Region α)} {x : ℕ}

@[simp]
theorem readRegions_nil : readRegions ([] : List (Region α)) x = none := rfl

theorem readRegions_append : readRegions (rs ++ ss) x =
    (readRegions rs x).or (readRegions ss x) := by
  induction rs with
  | nil => simp
  | cons r rs ih => simp only [cons_append, readRegions, ih, Option.or_assoc]

theorem readRegions_eq_none (h : ∀ r ∈ rs, r.valueAt x = none) : readRegions rs x = none := by
  induction rs with
  | nil => rfl
  | cons r rs ih =>
    simp only [readRegions, h r mem_cons_self, none_or]
    exact ih fun s hs ↦ h s (mem_cons_of_mem r hs)

/-- Nothing is stored before the first region. -/
theorem readRegions_eq_none_of_lt (h : ∀ r ∈ rs, x < r.getStartOffset) :
    readRegions rs x = none :=
  readRegions_eq_none fun r hr ↦ Region.valueAt_eq_none_iff.mpr (.inl (h r hr))

/-- Something is stored exactly at the positions of the regions. -/
theorem readRegions_ne_none_iff :
    readRegions rs x ≠ none ↔ ∃ r ∈ rs, r.getStartOffset ≤ x ∧ x < r.getEndOffset := by
  induction rs with
  | nil => simp
  | cons r rs ih =>
    have hr : r.valueAt x ≠ none ↔ r.getStartOffset ≤ x ∧ x < r.getEndOffset := by
      rw [Ne, Region.valueAt_eq_none_iff, Region.getStartOffset]
      omega
    simp only [readRegions, ne_eq, or_eq_none_iff, not_and_or, exists_mem_cons_iff,
      ← hr, ← ih]

/-- A region is not empty at its first position. -/
theorem valueAt_offset_ne_none (h : r.data ≠ []) : r.valueAt r.offset ≠ none := by
  have hpos : 0 < r.data.length := length_pos_of_ne_nil h
  rw [Ne, Region.valueAt_eq_none_iff, Region.getEndOffset]
  omega

end Read

section Unique

variable {α : Type*} {r s : Region α} {rs ss : List (Region α)}

/-- Reading a separated list finds the first position at the offset of the first region. -/
theorem offset_le_of_read (h : Separated (r :: rs)) {x : ℕ}
    (hx : readRegions (r :: rs) x ≠ none) : r.offset ≤ x := by
  by_contra hlt
  apply hx
  apply readRegions_eq_none_of_lt
  intro s hs
  rcases mem_cons.mp hs with rfl | hs
  · exact Nat.not_le.mp hlt
  · have hend := h.head_lt s hs
    simp only [Region.getEndOffset] at hend
    omega

/-- The position behind the first region of a separated list is empty. -/
theorem read_endOffset (h : Separated (r :: rs)) : readRegions (r :: rs) r.getEndOffset = none := by
  apply readRegions_eq_none
  intro s hs
  rw [Region.valueAt_eq_none_iff]
  rcases mem_cons.mp hs with rfl | hs
  · exact .inr (Nat.le_refl _)
  · exact .inl (h.head_lt s hs)

theorem read_head (rs : List (Region α)) (h : r.data ≠ []) :
    readRegions (r :: rs) r.offset ≠ none := by
  have hne := valueAt_offset_ne_none h
  simp only [readRegions, ne_eq, or_eq_none_iff, not_and]
  exact fun hnone ↦ absurd hnone hne

/-- Within the first region the first region is read. -/
theorem read_of_lt {x : ℕ} (hx : r.offset ≤ x) (hx' : x < r.getEndOffset) :
    readRegions (r :: rs) x = r.data[x - r.offset]? := by
  have hsome : (r.valueAt x).isSome := by
    rw [isSome_iff_ne_none, Ne, Region.valueAt_eq_none_iff]
    omega
  simp only [readRegions, or_of_isSome hsome]
  simp [Region.valueAt, hx]

/-- Lists that read alike have first regions that end at the same position. -/
theorem endOffset_le (hr : Separated (r :: rs)) (hoffset : r.offset = s.offset)
    (hread : ∀ x, readRegions (r :: rs) x = readRegions (s :: ss) x) :
    s.getEndOffset ≤ r.getEndOffset := by
  by_contra hlt
  have hnone := read_endOffset hr
  have hle : s.offset ≤ r.getEndOffset := by
    simp only [Region.getEndOffset]
    omega
  rw [hread, read_of_lt hle (Nat.not_le.mp hlt), getElem?_eq_none_iff] at hnone
  simp only [Region.getEndOffset] at hnone hlt
  omega

theorem eq_of_read_eq (hr : Separated rs) (hs : Separated ss)
    (hread : ∀ x, readRegions rs x = readRegions ss x) : rs = ss := by
  induction rs generalizing ss with
  | nil =>
    cases ss with
    | nil => rfl
    | cons s ss =>
      have hhead := read_head ss (hs.nonempty s mem_cons_self)
      rw [← hread] at hhead
      exact absurd rfl hhead
  | cons r rs ih =>
    cases ss with
    | nil =>
      have hhead := read_head rs (hr.nonempty r mem_cons_self)
      rw [hread] at hhead
      exact absurd rfl hhead
    | cons s ss =>
      have hoffset : r.offset = s.offset := by
        have hrs := offset_le_of_read hr (x := s.offset) (by
          rw [hread]
          exact read_head ss (hs.nonempty s mem_cons_self))
        have hsr := offset_le_of_read hs (x := r.offset) (by
          rw [← hread]
          exact read_head rs (hr.nonempty r mem_cons_self))
        exact Nat.le_antisymm hrs hsr
      have hend : r.getEndOffset = s.getEndOffset := by
        apply Nat.le_antisymm
        · exact endOffset_le hs hoffset.symm fun x ↦ (hread x).symm
        · exact endOffset_le hr hoffset hread
      have hdata : r.data = s.data := by
        apply ext_getElem?
        intro i
        by_cases hi : i < r.data.length
        · have hx := hread (r.offset + i)
          have hlt : r.offset + i < s.getEndOffset := by
            rw [← hend]
            simp only [Region.getEndOffset]
            omega
          rw [read_of_lt (by omega) (by simp only [Region.getEndOffset]; omega), hoffset,
            read_of_lt (by omega) (by rwa [← hoffset])] at hx
          simpa using hx
        · simp only [Region.getEndOffset] at hend
          rw [getElem?_eq_none (by omega), getElem?_eq_none (by omega)]
      have heq : r = s := by
        cases r
        cases s
        simp_all
      subst heq
      congr 1
      apply ih hr.tail hs.tail
      intro x
      by_cases hx : x < r.getEndOffset
      · rw [readRegions_eq_none_of_lt fun s hmem ↦ Nat.lt_trans hx (hr.head_lt s hmem),
          readRegions_eq_none_of_lt fun s hmem ↦ Nat.lt_trans hx (hs.head_lt s hmem)]
      · have hnone : r.valueAt x = none :=
          Region.valueAt_eq_none_iff.mpr (.inr (Nat.not_lt.mp hx))
        have hx' := hread x
        simpa only [readRegions, hnone, none_or] using hx'

end Unique

section Runs

variable {α : Type*} {r : Region α} {left right regions : List (Region α)} {x offset length : ℕ}

/-- The positions from `offset` on, `length` of them, are a maximal run of stored positions. -/
structure IsRun (stored : ℕ → Option α) (offset length : ℕ) : Prop where
  within : ∀ x, offset ≤ x → x < offset + length → stored x ≠ none
  before : ∀ x, x + 1 = offset → stored x = none
  behind : stored (offset + length) = none

/-- Each region of a separated list is a maximal run. -/
theorem isRun_of_mem (h : Separated regions) (hr : r ∈ regions) :
    IsRun (readRegions regions) r.offset r.data.length := by
  obtain ⟨left, right, rfl⟩ := append_of_mem hr
  obtain ⟨-, hright, hgap⟩ := h.of_append
  have hlt := hright.head_lt
  refine ⟨fun x hle hx ↦ readRegions_ne_none_iff.mpr ⟨r, hr, hle, hx⟩, fun x hx ↦ ?_, ?_⟩
  all_goals
    apply readRegions_eq_none
    intro s hs
    rw [Region.valueAt_eq_none_iff]
    rcases mem_append.mp hs with hs | hs
    · have hend := hgap s hs r mem_cons_self
      simp only [Region.getStartOffset] at hend
      omega
    · rcases mem_cons.mp hs with rfl | hs
      · simp only [Region.getEndOffset]
        omega
      · have hend := hlt s hs
        simp only [Region.getStartOffset, Region.getEndOffset] at hend
        omega

/-- Each maximal run is a region. -/
theorem exists_mem_of_isRun (h : Separated regions) (hlength : 0 < length)
    (hrun : IsRun (readRegions regions) offset length) :
    ∃ r ∈ regions, r.offset = offset ∧ r.data.length = length := by
  have hfirst := hrun.within offset (Nat.le_refl _) (by omega)
  obtain ⟨r, hr, hstart, hend⟩ := readRegions_ne_none_iff.mp hfirst
  have hregion := isRun_of_mem h hr
  simp only [Region.getStartOffset, Region.getEndOffset] at hstart hend
  have hoffset : r.offset = offset := by
    by_contra hne
    obtain ⟨x, rfl⟩ : ∃ x, x + 1 = offset := ⟨offset - 1, by omega⟩
    exact hregion.within x (by omega) (by omega) (hrun.before x rfl)
  refine ⟨r, hr, hoffset, ?_⟩
  rcases Nat.lt_trichotomy r.data.length length with hlt | heq | hlt
  · exact absurd hregion.behind (hrun.within _ (by omega) (by omega))
  · exact heq
  · exact absurd hrun.behind (hregion.within _ (by omega) (by omega))

/-- Without one of its regions a separated list stores nothing at the positions of the region. -/
theorem read_remove (h : Separated (left ++ r :: right)) :
    readRegions (left ++ right) x =
      if r.getStartOffset ≤ x ∧ x < r.getEndOffset then none
      else readRegions (left ++ r :: right) x := by
  obtain ⟨-, hright, hgap⟩ := h.of_append
  simp only [readRegions_append, readRegions]
  split
  · rename_i hx
    have hleft : readRegions left x = none := by
      apply readRegions_eq_none
      intro s hs
      have hlt := hgap s hs r mem_cons_self
      exact Region.valueAt_eq_none_iff.mpr (.inr (by omega))
    have hright' : readRegions right x = none := by
      apply readRegions_eq_none_of_lt
      intro s hs
      have hlt := hright.head_lt s hs
      omega
    rw [hleft, hright', none_or]
  · rename_i hx
    have hnone : r.valueAt x = none := by
      rw [Region.valueAt_eq_none_iff]
      simp only [Region.getStartOffset] at hx
      omega
    rw [hnone, none_or]

theorem Separated.remove (h : Separated (left ++ r :: right)) : Separated (left ++ right) := by
  obtain ⟨hleft, hright, hgap⟩ := h.of_append
  exact hleft.append hright.tail fun s hs t ht ↦ hgap s hs t (mem_cons_of_mem r ht)

end Runs

end Inet4
