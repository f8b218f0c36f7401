import Mathlib.Data.List.Basic
import Mathlib.Order.Lattice

/-!
# Ordered maps

`std::map` as the list of its elements in the order of iteration.  Keys are compared by a given
function only: two of them are the same key when neither comes before the other.  The comparison
need not be an order on the whole type.  A map is used well as long as it agrees with a rank on the
keys that are in it and the one that is looked for, and then the list ascends in rank.
-/

namespace Inet4

open List

/-- `std::map`. -/
abbrev OrderedMap (K V : Type*) := List (K × V)

namespace OrderedMap

variable {K V : Type*} (lessThan : K → K → Bool)
variable (m : OrderedMap K V)

/-- The elements before the lower bound of a key. -/
def below (k : K) : OrderedMap K V := m.takeWhile fun e ↦ lessThan e.1 k

/-- The elements from the lower bound of a key on. -/
def fromLowerBound (k : K) : OrderedMap K V :=
  m.dropWhile fun e ↦ lessThan e.1 k

def find (k : K) : Option (K × V) :=
  match fromLowerBound lessThan m k with
  | [] => none
  | e :: _ => if lessThan k e.1 then none else some e

/-- `m[k] = v`.  An element keeps the key it was inserted with. -/
def assign (k : K) (v : V) : OrderedMap K V :=
  match fromLowerBound lessThan m k with
  | [] => below lessThan m k ++ [(k, v)]
  | e :: after =>
    if lessThan k e.1 then below lessThan m k ++ (k, v) :: e :: after
    else below lessThan m k ++ (e.1, v) :: after

def erase (k : K) : OrderedMap K V :=
  match fromLowerBound lessThan m k with
  | [] => m
  | e :: after => if lessThan k e.1 then m else below lessThan m k ++ after

/-- `insert` of one element, which does nothing when the key is in the map. -/
def insert (k : K) (v : V) : OrderedMap K V :=
  if (find lessThan m k).isSome then m else assign lessThan m k v

/-- `insert` of a range of elements. -/
def insertAll (m l : OrderedMap K V) : OrderedMap K V :=
  l.foldl (fun m e ↦ insert lessThan m e.1 e.2) m

/-! ## A map that is split at a key -/

section Split

variable {lessThan} {k : K} {v w : V} {before after : OrderedMap K V}

section

variable (hbefore : ∀ e ∈ before, lessThan e.1 k = true)
include hbefore

theorem below_append (hafter : ∀ e ∈ after.head?, lessThan e.1 k = false) :
    below lessThan (before ++ after) k = before := by
  unfold below
  rw [takeWhile_append_of_pos hbefore]
  cases after with
  | nil => simp
  | cons e after =>
    have hstop := hafter e rfl
    simp [hstop]

theorem fromLowerBound_append (hafter : ∀ e ∈ after.head?, lessThan e.1 k = false) :
    fromLowerBound lessThan (before ++ after) k = after := by
  unfold fromLowerBound
  rw [dropWhile_append_of_pos hbefore]
  cases after with
  | nil => rfl
  | cons e after =>
    have hstop := hafter e rfl
    simp [hstop]

theorem find_append_cons (hself : lessThan k k = false) :
    find lessThan (before ++ (k, v) :: after) k = some (k, v) := by
  unfold find
  rw [fromLowerBound_append hbefore (by simpa using hself)]
  simp [hself]

theorem assign_append_cons (hself : lessThan k k = false) :
    assign lessThan (before ++ (k, v) :: after) k w = before ++ (k, w) :: after := by
  have hafter : ∀ e ∈ ((k, v) :: after).head?, lessThan e.1 k = false := by simpa using hself
  unfold assign
  rw [fromLowerBound_append hbefore hafter, below_append hbefore hafter]
  simp [hself]

theorem erase_append_cons (hself : lessThan k k = false) :
    erase lessThan (before ++ (k, v) :: after) k = before ++ after := by
  have hafter : ∀ e ∈ ((k, v) :: after).head?, lessThan e.1 k = false := by simpa using hself
  unfold erase
  rw [fromLowerBound_append hbefore hafter, below_append hbefore hafter]
  simp [hself]

theorem find_append (hafter : ∀ e ∈ after, lessThan e.1 k = false ∧ lessThan k e.1 = true) :
    find lessThan (before ++ after) k = none := by
  unfold find
  rw [fromLowerBound_append hbefore fun e he ↦ (hafter e (mem_of_mem_head? he)).1]
  cases after with
  | nil => rfl
  | cons e after => simp [(hafter e mem_cons_self).2]

theorem assign_append (hafter : ∀ e ∈ after, lessThan e.1 k = false ∧ lessThan k e.1 = true) :
    assign lessThan (before ++ after) k v = before ++ (k, v) :: after := by
  have hhead : ∀ e ∈ after.head?, lessThan e.1 k = false :=
    fun e he ↦ (hafter e (mem_of_mem_head? he)).1
  unfold assign
  rw [fromLowerBound_append hbefore hhead, below_append hbefore hhead]
  cases after with
  | nil => rfl
  | cons e after => simp [(hafter e mem_cons_self).2]

theorem assign_last : assign lessThan before k v = before ++ [(k, v)] := by
  have hsplit : assign lessThan (before ++ []) k v = before ++ [(k, v)] :=
    assign_append hbefore nofun
  rwa [append_nil] at hsplit

end

/-- Elements that are inserted in ascending order stand in this order. -/
theorem insertAll_of_pairwise {m l : OrderedMap K V}
    (h : (m ++ l).Pairwise fun a b ↦ lessThan a.1 b.1 = true) :
    insertAll lessThan m l = m ++ l := by
  induction l generalizing m with
  | nil => exact (append_nil m).symm
  | cons e l ih =>
    have hbefore : ∀ a ∈ m, lessThan a.1 e.1 = true := by
      intro a ha
      exact (pairwise_append.mp h).2.2 a ha e mem_cons_self
    have hinsert : insert lessThan m e.1 e.2 = m ++ [e] := by
      have hfind : find lessThan (m ++ []) e.1 = none := find_append hbefore nofun
      rw [append_nil] at hfind
      rw [insert, hfind, assign_last hbefore]
      rfl
    calc
      insertAll lessThan m (e :: l) = insertAll lessThan (m ++ [e]) l := by
        rw [← hinsert]
        rfl
      _ = (m ++ [e]) ++ l := by
        apply ih
        simpa using h
      _ = m ++ e :: l := (append_cons m e l).symm

theorem mem_assign {m : OrderedMap K V} {e : K × V} (he : e ∈ assign lessThan m k v) :
    e.1 = k ∨ ∃ e' ∈ m, e'.1 = e.1 := by
  have hbelow : below lessThan m k ⊆ m := ( takeWhile_prefix _).subset
  have hfrom : fromLowerBound lessThan m k ⊆ m := (dropWhile_suffix _).subset
  unfold assign at he
  cases hafter : fromLowerBound lessThan m k with
  | nil =>
    simp only [hafter, mem_append, mem_singleton] at he
    rcases he with he | rfl
    · exact .inr ⟨e, hbelow he, rfl⟩
    · exact .inl rfl
  | cons next after =>
    rw [hafter] at hfrom
    simp only [hafter] at he
    split at he
    · rw [mem_append, mem_cons] at he
      rcases he with he | rfl | he
      · exact .inr ⟨e, hbelow he, rfl⟩
      · exact .inl rfl
      · exact .inr ⟨e, hfrom he, rfl⟩
    · rw [mem_append, mem_cons] at he
      rcases he with he | rfl | he
      · exact .inr ⟨e, hbelow he, rfl⟩
      · exact .inr ⟨next, hfrom mem_cons_self, rfl⟩
      · exact .inr ⟨e, hfrom (mem_cons_of_mem next he), rfl⟩

theorem not_less_of_fromLowerBound {m : OrderedMap K V} {e : K × V}
    (h : fromLowerBound lessThan m k = e :: after) : lessThan e.1 k = false := by
  have hhead := head?_dropWhile_not (fun e : K × V ↦ lessThan e.1 k) m
  unfold fromLowerBound at h
  rw [h] at hhead
  simpa using hhead

/-- The element that is found is in the map, and neither it nor the key is before the other. -/
theorem find_eq_some {m : OrderedMap K V} {e : K × V}
    (hfind : find lessThan m k = some e) :
    e ∈ m ∧ lessThan e.1 k = false ∧ lessThan k e.1 = false := by
  unfold find at hfind
  cases hafter : fromLowerBound lessThan m k with
  | nil =>
    rw [hafter] at hfind
    cases hfind
  | cons next after =>
    rw [hafter] at hfind
    simp only [Option.ite_none_left_eq_some, Bool.not_eq_true, Option.some.injEq] at hfind
    obtain ⟨hless, rfl⟩ := hfind
    have hmem : next ∈ fromLowerBound lessThan m k := hafter ▸ mem_cons_self
    exact ⟨(dropWhile_suffix _).subset hmem, not_less_of_fromLowerBound hafter, hless⟩

variable (lessThan) in
theorem below_append_fromLowerBound (m : OrderedMap K V) (k : K) :
    below lessThan m k ++ fromLowerBound lessThan m k = m :=
  takeWhile_append_dropWhile

/-- An assignment to a key that is found changes one element and keeps its key. -/
theorem assign_of_find {m : OrderedMap K V} {e : K × V} (hfind : find lessThan m k = some e)
    (v : V) : ∃ before after, m = before ++ e :: after ∧
      assign lessThan m k v = before ++ (e.1, v) :: after := by
  unfold find at hfind
  cases hafter : fromLowerBound lessThan m k with
  | nil =>
    rw [hafter] at hfind
    cases hfind
  | cons next after =>
    rw [hafter] at hfind
    simp only [Option.ite_none_left_eq_some, Option.some.injEq] at hfind
    obtain ⟨hless, rfl⟩ := hfind
    refine ⟨below lessThan m k, after, ?_, ?_⟩
    · rw [← hafter, below_append_fromLowerBound]
    · simp only [assign, hafter, if_neg hless]

/-- The elements after an assignment: old ones and one with the new value, whose key is the one that
was assigned to or counts as the same. -/
theorem mem_or_of_mem_assign {m : OrderedMap K V} {e : K × V} (he : e ∈ assign lessThan m k v) :
    e ∈ m ∨ e.2 = v ∧ (e.1 = k ∨ lessThan e.1 k = false ∧ lessThan k e.1 = false) := by
  have hsplit := below_append_fromLowerBound lessThan m k
  unfold assign at he
  cases hafter : fromLowerBound lessThan m k with
  | nil =>
    simp only [hafter, mem_append, mem_singleton] at he
    rw [← hsplit]
    rcases he with he | rfl
    · exact .inl (mem_append_left _ he)
    · exact .inr ⟨rfl, .inl rfl⟩
  | cons next after =>
    have hnot := not_less_of_fromLowerBound hafter
    rw [hafter] at hsplit
    simp only [hafter] at he
    rw [← hsplit]
    split at he
    · rw [mem_append, mem_cons] at he
      rcases he with he | rfl | he
      · exact .inl (mem_append_left _ he)
      · exact .inr ⟨rfl, .inl rfl⟩
      · exact .inl (mem_append_right _ he)
    · rename_i hless
      rw [mem_append, mem_cons] at he
      rcases he with he | rfl | he
      · exact .inl (mem_append_left _ he)
      · exact .inr ⟨rfl, .inr ⟨hnot, Bool.eq_false_iff.mpr hless⟩⟩
      · exact .inl (mem_append_right _ (mem_cons_of_mem next he))

theorem erase_sublist (m : OrderedMap K V) (k : K) : (erase lessThan m k).Sublist m := by
  unfold erase
  cases hafter : fromLowerBound lessThan m k with
  | nil => exact List.Sublist.refl m
  | cons next after =>
    simp only
    split
    · exact List.Sublist.refl m
    · calc
        (below lessThan m k ++ after).Sublist (below lessThan m k ++ next :: after) :=
          (List.Sublist.refl _).append (sublist_cons_self next after)
        _ = m := by rw [← hafter, below_append_fromLowerBound]

end Split

/-! ## Maps that ascend in rank -/

section Rank

variable {β : Type*} [LinearOrder β] (rank : K → β)

/-- The elements ascend in rank. -/
def Ascending (m : OrderedMap K V) : Prop := m.Pairwise fun a b ↦ rank a.1 < rank b.1

/-- The comparison of a key with the elements of a map is that of the ranks, and only the same key
has the same rank. -/
structure Agrees (m : OrderedMap K V) (k : K) : Prop where
  less : ∀ e ∈ m, lessThan e.1 k = true ↔ rank e.1 < rank k
  greater : ∀ e ∈ m, lessThan k e.1 = true ↔ rank k < rank e.1
  eq : ∀ e ∈ m, rank e.1 = rank k → e.1 = k

variable {lessThan rank} {m : OrderedMap K V} {k : K}

/-- A map is split at each key: the key is in it at this place or it is not in it. -/
theorem Ascending.split (h : Ascending rank m) (hagrees : Agrees lessThan rank m k) :
    ∃ before after, (∀ e ∈ before, lessThan e.1 k = true) ∧
      (∀ e ∈ after, lessThan e.1 k = false ∧ lessThan k e.1 = true) ∧
      (m = before ++ after ∨ ∃ v, m = before ++ (k, v) :: after) := by
  induction m with
  | nil => exact ⟨[], [], nofun, nofun, .inl rfl⟩
  | cons e m ih =>
    have hcons := pairwise_cons.mp h
    rcases lt_trichotomy (rank e.1) (rank k) with hlt | heq | hgt
    · have hrest : Agrees lessThan rank m k :=
        ⟨fun e' he' ↦ hagrees.less e' (mem_cons_of_mem e he'),
          fun e' he' ↦ hagrees.greater e' (mem_cons_of_mem e he'),
          fun e' he' ↦ hagrees.eq e' (mem_cons_of_mem e he')⟩
      obtain ⟨before, after, hbefore, hafter, hsplit⟩ := ih hcons.2 hrest
      refine ⟨e :: before, after, ?_, hafter, ?_⟩
      · intro e' he'
        rcases mem_cons.mp he' with rfl | he'
        · exact (hagrees.less e' mem_cons_self).mpr hlt
        · exact hbefore e' he'
      · rcases hsplit with rfl | ⟨v, rfl⟩
        · exact .inl rfl
        · exact .inr ⟨v, rfl⟩
    · have hafter : ∀ e' ∈ m, lessThan e'.1 k = false ∧ lessThan k e'.1 = true := by
        intro e' he'
        have hmem := mem_cons_of_mem e he'
        have hrank : rank k < rank e'.1 := heq ▸ hcons.1 e' he'
        refine ⟨?_, (hagrees.greater e' hmem).mpr hrank⟩
        rw [← Bool.not_eq_true, hagrees.less e' hmem]
        exact hrank.not_gt
      have hkey := hagrees.eq e mem_cons_self heq
      exact ⟨[], m, nofun, hafter, .inr ⟨e.2, by rw [← hkey]; rfl⟩⟩
    · refine ⟨[], e :: m, nofun, ?_, .inl rfl⟩
      intro e' he'
      have hrank : rank k < rank e'.1 := by
        rcases mem_cons.mp he' with rfl | hmem
        · exact hgt
        · exact hgt.trans (hcons.1 e' hmem)
      refine ⟨?_, (hagrees.greater e' he').mpr hrank⟩
      rw [← Bool.not_eq_true, hagrees.less e' he']
      exact hrank.not_gt

variable {e : K × V} {v : V}

/-- The parts of a map before and behind a key, and what the operations make of them. -/
theorem Ascending.parts (h : Ascending rank m) (hagrees : Agrees lessThan rank m k) :
    ∃ before after, (∀ e ∈ before ++ after, e.1 ≠ k) ∧
      (∀ v, Ascending rank (before ++ (k, v) :: after) ∧
        assign lessThan m k v = before ++ (k, v) :: after) ∧
      erase lessThan m k = before ++ after ∧
      (m = before ++ after ∧ find lessThan m k = none ∨
        ∃ v, m = before ++ (k, v) :: after ∧ find lessThan m k = some (k, v)) := by
  obtain ⟨before, after, hbefore, hafter, hsplit⟩ := h.split hagrees
  have hmem : ∀ e ∈ before ++ after, e ∈ m := by
    intro e he
    rcases hsplit with rfl | ⟨v, rfl⟩
    · exact he
    · simp only [mem_append, mem_cons] at he ⊢
      exact he.imp_right .inr
  have hbelow : ∀ e ∈ before, rank e.1 < rank k := fun e he ↦
    (hagrees.less e (hmem e (mem_append_left _ he))).mp (hbefore e he)
  have habove : ∀ e ∈ after, rank k < rank e.1 := fun e he ↦
    (hagrees.greater e (hmem e (mem_append_right _ he))).mp (hafter e he).2
  have hparts : (before ++ after).Pairwise fun a b ↦ rank a.1 < rank b.1 := by
    rcases hsplit with rfl | ⟨v, rfl⟩
    · exact h
    · exact h.sublist ((List.Sublist.refl before).append (sublist_cons_self _ after))
  have hascending (v : V) : Ascending rank (before ++ (k, v) :: after) := by
    simp only [Ascending, pairwise_append, pairwise_cons, mem_cons] at hparts ⊢
    refine ⟨hparts.1, ⟨habove, hparts.2.1⟩, fun a ha b hb ↦ ?_⟩
    rcases hb with rfl | hb
    · exact hbelow a ha
    · exact hparts.2.2 a ha b hb
  refine ⟨before, after, fun e he hkey ↦ ?_, ?_⟩
  · rcases mem_append.mp he with he | he
    · exact (hbelow e he).ne (congrArg rank hkey)
    · exact (habove e he).ne' (congrArg rank hkey)
  · rcases hsplit with rfl | ⟨v, rfl⟩
    · have herase : erase lessThan (before ++ after) k = before ++ after := by
        unfold erase
        rw [fromLowerBound_append hbefore fun e he ↦ (hafter e (mem_of_mem_head? he)).1]
        cases after with
        | nil => rfl
        | cons e after => simp [(hafter e mem_cons_self).2]
      exact ⟨fun v ↦ ⟨hascending v, assign_append hbefore hafter⟩, herase,
        .inl ⟨rfl, find_append hbefore hafter⟩⟩
    · have hself : lessThan k k = false := by
        rw [← Bool.not_eq_true, hagrees.less (k, v) (mem_append_right _ mem_cons_self)]
        exact lt_irrefl (rank k)
      exact ⟨fun w ↦ ⟨hascending w, assign_append_cons hbefore hself⟩,
        erase_append_cons hbefore hself, .inr ⟨v, rfl, find_append_cons hbefore hself⟩⟩

theorem Ascending.find_eq_some_iff (h : Ascending rank m) (hagrees : Agrees lessThan rank m k) :
    find lessThan m k = some e ↔ e ∈ m ∧ e.1 = k := by
  obtain ⟨before, after, hother, -, -, ⟨rfl, hfind⟩ | ⟨v, rfl, hfind⟩⟩ := h.parts hagrees
  all_goals
    grind

theorem Ascending.assign (h : Ascending rank m) (hagrees : Agrees lessThan rank m k) (v : V) :
    Ascending rank (assign lessThan m k v) := by
  obtain ⟨before, after, -, hassign, -⟩ := h.parts hagrees
  rw [(hassign v).2]
  exact (hassign v).1

/-- An assignment puts one element in the place of those of its key. -/
theorem Ascending.mem_assign_iff (h : Ascending rank m) (hagrees : Agrees lessThan rank m k) :
    e ∈ OrderedMap.assign lessThan m k v ↔ e = (k, v) ∨ e ∈ m ∧ e.1 ≠ k := by
  obtain ⟨before, after, hother, hassign, -, ⟨rfl, -⟩ | ⟨w, rfl, -⟩⟩ := h.parts hagrees
  all_goals
    grind

theorem Ascending.mem_erase_iff (h : Ascending rank m) (hagrees : Agrees lessThan rank m k) :
    e ∈ erase lessThan m k ↔ e ∈ m ∧ e.1 ≠ k := by
  obtain ⟨before, after, hother, -, herase, ⟨rfl, -⟩ | ⟨w, rfl, -⟩⟩ := h.parts hagrees
  all_goals
    grind

end Rank

end OrderedMap

end Inet4
