import Mathlib.Data.List.Basic
import Mathlib.Data.Set.Insert

/-!
# Blocks of integers

A set that has every integer up to a point and a number of blocks after it.  The blocks are listed
in order, each by its first and its last integer, and no two of them are adjacent.
-/

namespace Inet4.Blocks

open List

/-- The last integer of the last block, or the point when there is no block. -/
def last : ℤ → List (ℤ × ℤ) → ℤ
  | a, [] => a
  | _, block :: blocks => last block.2 blocks

/-- The blocks follow the point and each other with a gap in between. -/
def Apart : ℤ → List (ℤ × ℤ) → Prop
  | _, [] => True
  | a, block :: blocks => a + 1 < block.1 ∧ block.1 ≤ block.2 ∧ Apart block.2 blocks

/-- The integers up to the point and those in the blocks. -/
def covered (a : ℤ) (blocks : List (ℤ × ℤ)) : Set ℤ :=
  {x | x ≤ a ∨ ∃ block ∈ blocks, block.1 ≤ x ∧ x ≤ block.2}

variable {a b x : ℤ} {block : ℤ × ℤ} {before blocks after : List (ℤ × ℤ)}

@[simp]
theorem last_append_cons : last a (before ++ block :: after) = last block.2 after := by
  induction before generalizing a with
  | nil => rfl
  | cons first before ih => exact ih

theorem apart_append_cons : Apart a (before ++ block :: after) ↔
    Apart a before ∧ last a before + 1 < block.1 ∧ block.1 ≤ block.2 ∧ Apart block.2 after := by
  induction before generalizing a with
  | nil => simp [Apart, last]
  | cons first before ih => simp only [cons_append, Apart, ih, last, and_assoc]

theorem mem_covered : x ∈ covered a blocks ↔ x ≤ a ∨ ∃ block ∈ blocks, block.1 ≤ x ∧ x ≤ block.2 :=
  Iff.rfl

theorem mem_covered_append_cons : x ∈ covered a (before ++ block :: after) ↔
    x ∈ covered a before ∨ (block.1 ≤ x ∧ x ≤ block.2) ∨
      ∃ block ∈ after, block.1 ≤ x ∧ x ≤ block.2 := by
  simp only [mem_covered, mem_append, mem_cons, or_and_right, exists_or, exists_eq_left,
    or_assoc]

theorem Apart.le_last (h : Apart a blocks) : a ≤ last a blocks := by
  induction blocks generalizing a with
  | nil => exact le_refl a
  | cons block blocks ih =>
    have hlast := ih h.2.2
    have hstart := h.1
    have hblock := h.2.1
    simp only [last]
    omega

theorem Apart.bounds (h : Apart a blocks) (hblock : block ∈ blocks) :
    a + 1 < block.1 ∧ block.1 ≤ block.2 ∧ block.2 ≤ last a blocks := by
  induction blocks generalizing a with
  | nil => cases hblock
  | cons first blocks ih =>
    have hstart := h.1
    have hfirst := h.2.1
    rcases mem_cons.mp hblock with rfl | hmem
    · exact ⟨hstart, hfirst, h.2.2.le_last⟩
    · obtain ⟨hlt, hle, hlast⟩ := ih h.2.2 hmem
      refine ⟨?_, hle, hlast⟩
      omega

theorem Apart.mono (h : Apart a blocks) (hle : b ≤ a) : Apart b blocks := by
  cases blocks with
  | nil => trivial
  | cons block blocks =>
    have hstart := h.1
    refine ⟨?_, h.2⟩
    omega

theorem Apart.remove (h : Apart a (before ++ block :: after)) : Apart a (before ++ after) := by
  obtain ⟨hbefore, hlt, hle, hafter⟩ := apart_append_cons.mp h
  cases after with
  | nil =>
    rw [append_nil]
    exact hbefore
  | cons next after =>
    have hnext := hafter.1
    exact apart_append_cons.mpr ⟨hbefore, by omega, hafter.2⟩

theorem Apart.le_last_of_mem (h : Apart a blocks) (hx : x ∈ covered a blocks) :
    x ≤ last a blocks := by
  rcases hx with hle | ⟨block, hblock, -, hle⟩
  · exact hle.trans h.le_last
  · exact hle.trans (h.bounds hblock).2.2

/-- No block after the point is reached by what is not beyond the next integer. -/
theorem Apart.not_mem_blocks (h : Apart a blocks) (hx : x ≤ a + 1) :
    ¬∃ block ∈ blocks, block.1 ≤ x ∧ x ≤ block.2 := by
  rintro ⟨block, hblock, hle, -⟩
  have hlt := (h.bounds hblock).1
  omega

theorem Apart.mem_iff_of_le (h : Apart a blocks) (hx : x ≤ a + 1) : x ∈ covered a blocks ↔
    x ≤ a := by
  rw [mem_covered, or_iff_left (h.not_mem_blocks hx)]

/-- What is between two blocks is not covered. -/
theorem Apart.not_mem_between (h : Apart a (before ++ block :: after)) (hlast : last a before < x)
    (hlt : x < block.1) : x ∉ covered a (before ++ block :: after) := by
  obtain ⟨hbefore, -, hle, hafter⟩ := apart_append_cons.mp h
  rw [mem_covered_append_cons]
  rintro (hx | hx | hx)
  · have hle := hbefore.le_last_of_mem hx
    omega
  · omega
  · exact hafter.not_mem_blocks (by omega) hx

theorem Apart.not_mem_after (h : Apart a blocks) (hlast : last a blocks < x) :
    x ∉ covered a blocks := by
  intro hx
  have hle := h.le_last_of_mem hx
  omega

theorem last_mem_covered (h : Apart a blocks) : last a blocks ∈ covered a blocks := by
  rcases eq_nil_or_concat blocks with rfl | ⟨before, block, rfl⟩
  · exact .inl le_rfl
  · rw [concat_eq_append] at h ⊢
    rw [mem_covered_append_cons, last_append_cons]
    exact .inr (.inl ⟨(apart_append_cons.mp h).2.2.1, le_rfl⟩)

/-- Only the point itself is not before the blocks. -/
theorem Apart.eq_nil_of_last_le (h : Apart a blocks) (hle : last a blocks ≤ a + 1) :
    blocks = [] := by
  cases blocks with
  | nil => rfl
  | cons block blocks =>
    have hblock := h.bounds mem_cons_self
    omega

/-- The integers that everything before is covered with are those up to the point. -/
theorem Apart.forall_le_mem_iff (h : Apart a blocks) :
    (∀ y ≤ x, y ∈ covered a blocks) ↔ x ≤ a := by
  constructor
  · intro hall
    by_contra hlt
    have hmem := hall (a + 1) (by omega)
    rw [h.mem_iff_of_le le_rfl] at hmem
    omega
  · exact fun hle y hy ↦ .inl (hy.trans hle)

/-- The covered integers from the point on are those that are not after covered ones only. -/
theorem Apart.exists_not_mem_iff (h : Apart a blocks) :
    (∃ y ≤ x + 1, y ∉ covered a blocks) ↔ a ≤ x := by
  constructor
  · rintro ⟨y, hle, hy⟩
    by_contra hlt
    exact hy (.inl (by omega))
  · intro hle
    refine ⟨a + 1, by omega, ?_⟩
    rw [h.mem_iff_of_le le_rfl]
    omega

variable {s e t : ℤ}

/-- The point moves by one. -/
theorem covered_point : covered (a + 1) blocks = insert (a + 1) (covered a blocks) := by
  ext x
  simp only [mem_covered, Set.mem_insert_iff]
  grind

/-- The point moves to the end of the first block, over the integer before it. -/
theorem covered_absorb (h : a + 1 + 1 ≤ e) :
    covered e after = insert (a + 1) (covered a ((a + 1 + 1, e) :: after)) := by
  ext x
  simp only [mem_covered, Set.mem_insert_iff, exists_mem_cons_iff]
  grind

/-- A block begins one integer earlier. -/
theorem covered_start (h : t + 1 ≤ e) : covered a (before ++ (t, e) :: after) =
    insert t (covered a (before ++ (t + 1, e) :: after)) := by
  ext x
  simp only [mem_covered_append_cons, Set.mem_insert_iff]
  grind

/-- A block ends one integer later. -/
theorem covered_stop (h : s ≤ e) : covered a (before ++ (s, e + 1) :: after) =
    insert (e + 1) (covered a (before ++ (s, e) :: after)) := by
  ext x
  simp only [mem_covered_append_cons, Set.mem_insert_iff]
  grind

/-- An integer is a block of its own. -/
theorem covered_insert : covered a (before ++ (t, t) :: after) =
    insert t (covered a (before ++ after)) := by
  ext x
  simp only [mem_covered, Set.mem_insert_iff, mem_append, mem_cons, or_and_right,
    exists_or, exists_eq_left]
  grind

/-- Two blocks become one. -/
theorem covered_merge {e' : ℤ} (h : s ≤ e) (h' : e + 1 + 1 ≤ e') :
    covered a (before ++ (s, e') :: after) =
      insert (e + 1) (covered a (before ++ (s, e) :: (e + 1 + 1, e') :: after)) := by
  ext x
  simp only [mem_covered_append_cons, Set.mem_insert_iff, exists_mem_cons_iff]
  grind

/-- An integer in a block is in no other block. -/
theorem Apart.mem_diff (h : Apart a (before ++ (s, e) :: after)) (hs : s ≤ t) (he : t ≤ e) :
    x ∈ covered a (before ++ (s, e) :: after) \ {t} ↔
      x ∈ covered a before ∨ (s ≤ x ∧ x ≤ e ∧ x ≠ t) ∨
        ∃ block ∈ after, block.1 ≤ x ∧ x ≤ block.2 := by
  obtain ⟨hbefore, hlt, -, hafter⟩ := apart_append_cons.mp h
  have hnot : t ∉ covered a before := hbefore.not_mem_after (by simp only at hlt; omega)
  have hnot' := hafter.not_mem_blocks (x := t) (by simp only; omega)
  simp only [Set.mem_sdiff, Set.mem_singleton_iff, mem_covered_append_cons]
  constructor
  · rintro ⟨hx | hx | hx, hne⟩
    · exact .inl hx
    · exact .inr (.inl ⟨hx.1, hx.2, hne⟩)
    · exact .inr (.inr hx)
  · rintro (hx | hx | hx)
    · exact ⟨.inl hx, fun heq ↦ hnot (heq ▸ hx)⟩
    · exact ⟨.inr (.inl ⟨hx.1, hx.2.1⟩), hx.2.2⟩
    · exact ⟨.inr (.inr hx), fun heq ↦ hnot' (heq ▸ hx)⟩

/-- The last integer of a block is taken out. -/
theorem Apart.covered_diff_stop (h : Apart a (before ++ (s, e) :: after)) :
    covered a (before ++ (s, e - 1) :: after) = covered a (before ++ (s, e) :: after) \ {e} := by
  have hse := (apart_append_cons.mp h).2.2.1
  ext x
  rw [h.mem_diff hse le_rfl, mem_covered_append_cons]
  grind

/-- The first integer of a block is taken out. -/
theorem Apart.covered_diff_start (h : Apart a (before ++ (s, e) :: after)) :
    covered a (before ++ (s + 1, e) :: after) = covered a (before ++ (s, e) :: after) \ {s} := by
  have hse := (apart_append_cons.mp h).2.2.1
  ext x
  rw [h.mem_diff le_rfl hse, mem_covered_append_cons]
  grind

/-- A block of one integer is taken out. -/
theorem Apart.covered_diff_block (h : Apart a (before ++ (t, t) :: after)) :
    covered a (before ++ after) = covered a (before ++ (t, t) :: after) \ {t} := by
  ext x
  rw [h.mem_diff le_rfl le_rfl]
  simp only [mem_covered, mem_append, or_and_right, exists_or]
  grind

/-- An integer inside of a block is taken out. -/
theorem Apart.covered_diff_split (h : Apart a (before ++ (s, e) :: after)) (hs : s ≤ t)
    (he : t ≤ e) : covered a (before ++ (s, t - 1) :: (t + 1, e) :: after) =
      covered a (before ++ (s, e) :: after) \ {t} := by
  ext x
  rw [h.mem_diff hs he, mem_covered_append_cons, exists_mem_cons_iff]
  grind

end Inet4.Blocks
