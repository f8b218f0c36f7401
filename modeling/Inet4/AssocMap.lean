import Mathlib.Data.List.AList
import Mathlib.Data.List.Count
import Mathlib.Data.List.MinMax

/-!
# Associative containers with unique keys

The operations of an associative container with unique keys, on Mathlib's duplicate-free
association lists: insertion that keeps an existing entry, assignment that overwrites it, removal,
and the number of entries.  Each operation comes with the equation for `find` and, where the number
of entries changes, for `size`; proofs about a container use these equations only.
-/

namespace Inet4

open List Option

/-- A finite map.  The duplicate-free key list is part of the type. -/
abbrev AssocMap (K V : Type*) := AList fun _ : K ↦ V

namespace AssocMap

variable {K V : Type*} [DecidableEq K]
variable (m : AssocMap K V)

/-- The value stored under a key. -/
def find (k : K) : Option V := m.lookup k

/-- Insert a pair unless the key is present already. -/
def emplace (k : K) (v : V) : AssocMap K V :=
  if k ∈ m then m else m.insert k v

/-- Set the value of a key, whether or not it is present. -/
def assign (k : K) (v : V) : AssocMap K V := m.insert k v

/-- Read through the index operator: a missing key is first inserted with the default value. -/
def index (k : K) (default : V) : V × AssocMap K V :=
  ((m.find k).getD default, m.emplace k default)

/-- Remove a key. -/
def remove (k : K) : AssocMap K V := m.erase k

/-- Remove the entries whose values have a property. -/
def removeIf (p : V → Bool) : AssocMap K V :=
  ⟨m.entries.filter fun entry ↦ !p entry.2, m.nodupKeys.sublist filter_sublist⟩

/-- Change or remove the value of every entry. -/
def updateAll (f : K → V → Option V) : AssocMap K V where
  entries := m.entries.filterMap fun entry ↦ (f entry.1 entry.2).map fun v ↦ ⟨entry.1, v⟩
  nodupKeys := by
    refine List.Nodup.sublist ?_ m.nodupKeys
    simp only [keys, map_filterMap]
    have hkeys : ∀ entries : List (Sigma fun _ : K ↦ V),
        (entries.filterMap fun entry ↦
          ((f entry.1 entry.2).map fun v ↦ (⟨entry.1, v⟩ : Sigma fun _ : K ↦ V)).map
            Sigma.fst).Sublist (entries.map Sigma.fst) := by
      intro entries
      induction entries with
      | nil => exact List.Sublist.slnil
      | cons entry entries ih =>
        cases hf : f entry.1 entry.2 with
        | none => simpa [hf] using ih.cons entry.1
        | some v => simpa [hf] using ih.cons_cons entry.1
    exact hkeys m.entries

/-- The first entry in the order of the keys whose value has a property. -/
def findFirst (rank : K → ℕ) (p : V → Bool) : Option (K × V) :=
  ((m.entries.filter fun entry ↦ p entry.2).argmin fun entry ↦ rank entry.1).map
    fun entry ↦ (entry.1, entry.2)

/-- The number of entries. -/
def size : ℕ := m.keys.length

variable {m} {k k' : K} {v : V}

theorem mem_iff_find : k ∈ m ↔ ∃ v, m.find k = some v := by
  rw [← AList.lookup_isSome, isSome_iff_exists]
  rfl

theorem find_eq_none : m.find k = none ↔ k ∉ m := AList.lookup_eq_none

@[simp]
theorem find_empty (k : K) : (∅ : AssocMap K V).find k = none := rfl

@[simp]
theorem find_assign : (m.assign k v).find k' = if k' = k then some v else m.find k' := by
  by_cases h : k' = k
  · subst h
    simp [find, assign, AList.lookup_insert]
  · simp [find, assign, AList.lookup_insert_ne h, h]

@[simp]
theorem mem_assign : k' ∈ m.assign k v ↔ k' = k ∨ k' ∈ m := AList.mem_insert m

theorem size_assign_of_notMem (h : k ∉ m) : (m.assign k v).size = m.size + 1 := by
  have hkey : k ∉ m.keys := h
  simp [size, assign, AList.keys_insert, erase_of_not_mem hkey]

theorem emplace_of_notMem (h : k ∉ m) : m.emplace k v = m.assign k v := by
  simp [emplace, assign, h]

theorem emplace_of_mem (h : k ∈ m) : m.emplace k v = m := by
  simp [emplace, h]

theorem find_emplace_of_notMem (h : k ∉ m) :
    (m.emplace k v).find k' = if k' = k then some v else m.find k' := by
  rw [emplace_of_notMem h, find_assign]

@[simp]
theorem mem_emplace : k' ∈ m.emplace k v ↔ k' = k ∨ k' ∈ m := by
  by_cases h : k ∈ m
  · rw [emplace_of_mem h]
    constructor
    · exact Or.inr
    · rintro (rfl | h')
      · exact h
      · exact h'
  · rw [emplace_of_notMem h, mem_assign]

theorem index_of_find {w : V} (h : m.find k = some w) : m.index k v = (w, m) := by
  have hk : k ∈ m := mem_iff_find.mpr ⟨w, h⟩
  simp [index, h, emplace_of_mem hk]

theorem size_emplace_of_notMem (h : k ∉ m) : (m.emplace k v).size = m.size + 1 := by
  rw [emplace_of_notMem h, size_assign_of_notMem h]

@[simp]
theorem find_remove : (m.remove k).find k' = if k' = k then none else m.find k' := by
  by_cases h : k' = k
  · subst h
    simp [find, remove, AList.lookup_erase]
  · simp [find, remove, AList.lookup_erase_ne h, h]

@[simp]
theorem mem_remove : k' ∈ m.remove k ↔ k' ≠ k ∧ k' ∈ m := AList.mem_erase

theorem find_removeIf (m : AssocMap K V) (p : V → Bool) (k : K) :
    (m.removeIf p).find k = (m.find k).filter fun v ↦ !p v := by
  ext v
  rw [filter_eq_some_iff, find, find, AList.lookup, AList.lookup]
  have hentry (m : AssocMap K V) : dlookup k m.entries = some v ↔ ⟨k, v⟩ ∈ m.entries :=
    mem_dlookup_iff m.nodupKeys
  rw [hentry, hentry]
  exact mem_filter

theorem size_remove_of_mem (h : k ∈ m) : (m.remove k).size + 1 = m.size := by
  have hkey : k ∈ m.keys := AList.mem_keys.mp h
  have hpos : 0 < m.keys.length := length_pos_of_mem hkey
  simp only [size, remove, AList.keys_erase, length_erase_of_mem hkey]
  omega

theorem find_eq_some_iff : m.find k = some v ↔ ⟨k, v⟩ ∈ m.entries :=
  mem_dlookup_iff m.nodupKeys

theorem find_updateAll (f : K → V → Option V) : (m.updateAll f).find k = (m.find k).bind (f k) := by
  have hentry : ∀ v, (m.updateAll f).find k = some v ↔ (m.find k).bind (f k) = some v := by
    intro v
    rw [find_eq_some_iff, bind_eq_some_iff]
    constructor
    · intro hmem
      obtain ⟨⟨k', v'⟩, hmem', heq⟩ := mem_filterMap.mp hmem
      obtain ⟨w, hw, heq⟩ := map_eq_some_iff.mp heq
      cases heq
      exact ⟨v', find_eq_some_iff.mpr hmem', hw⟩
    · rintro ⟨v', hfind, hf⟩
      refine mem_filterMap.mpr ⟨⟨k, v'⟩, find_eq_some_iff.mp hfind, ?_⟩
      simp only [hf, map_some]
  exact ext hentry

variable {rank : K → ℕ} {p : V → Bool}

theorem findFirst_eq_some (h : m.findFirst rank p = some (k, v)) :
    m.find k = some v ∧ p v = true ∧
      ∀ k' v', m.find k' = some v' → p v' = true → rank k ≤ rank k' := by
  obtain ⟨entry, hentry, heq⟩ := map_eq_some_iff.mp h
  obtain ⟨rfl, rfl⟩ := Prod.mk.inj heq
  obtain ⟨hmem, hp⟩ := mem_filter.mp (argmin_mem hentry)
  refine ⟨find_eq_some_iff.mpr hmem, hp, ?_⟩
  intro k' v' hfind hp'
  have hmem' : ⟨k', v'⟩ ∈ m.entries.filter fun entry ↦ p entry.2 :=
    mem_filter.mpr ⟨find_eq_some_iff.mp hfind, hp'⟩
  have hle := le_of_mem_argmin hmem' (f := fun entry ↦ rank entry.1) hentry
  exact hle

theorem findFirst_eq_none :
    m.findFirst rank p = none ↔ ∀ k v, m.find k = some v → p v = false := by
  rw [findFirst, map_eq_none_iff, argmin_eq_none, filter_eq_nil_iff]
  constructor
  · intro h k v hfind
    exact Bool.eq_false_iff.mpr (h ⟨k, v⟩ (find_eq_some_iff.mp hfind))
  · rintro h ⟨k, v⟩ hmem
    exact Bool.eq_false_iff.mp (h k v (find_eq_some_iff.mpr hmem))

/-- The first entry is the only one. -/
theorem findFirst_eq_of_unique (hfind : m.find k = some v) (hp : p v = true)
    (hunique : ∀ k' v', m.find k' = some v' → p v' = true → k' = k) :
    m.findFirst rank p = some (k, v) := by
  cases h : m.findFirst rank p with
  | none =>
    have hfalse := findFirst_eq_none.mp h k v hfind
    rw [hp] at hfalse
    cases hfalse
  | some entry =>
    obtain ⟨k', v'⟩ := entry
    obtain ⟨hfind', hp', -⟩ := findFirst_eq_some h
    obtain rfl := hunique k' v' hfind' hp'
    rw [hfind] at hfind'
    rw [some.inj hfind']

theorem count_keys_of_mem (h : k ∈ m) : m.keys.count k = 1 :=
  count_eq_one_of_mem m.keys_nodup (AList.mem_keys.mp h)

theorem count_keys_of_notMem (h : k ∉ m) : m.keys.count k = 0 :=
  count_eq_zero_of_not_mem h

theorem count_keys_emplace_of_notMem (h : k ∉ m) :
    (m.emplace k v).keys.count k' = m.keys.count k' + if k' = k then 1 else 0 := by
  have hkey : k ∉ m.keys := h
  rw [emplace_of_notMem h, assign, AList.keys_insert, erase_of_not_mem hkey,
    count_cons]
  simp only [beq_iff_eq, eq_comm (a := k)]

theorem count_keys_remove :
    (m.remove k).keys.count k' = if k' = k then 0 else m.keys.count k' := by
  split
  · rename_i hk
    exact count_keys_of_notMem (by simp [hk])
  · rename_i hk
    rw [remove, AList.keys_erase, count_erase_of_ne hk]

end AssocMap

end Inet4
