import Mathlib

/-!
# Flooding of versioned records

Replicas keep one record for each key.  A replica that is offered a record takes it in when it has
none with this key, or an older one, and passes on what it has taken in.  As long as everything that
a replica has is also with its neighbours or on the way to them, all replicas have the same records
once nothing is on the way.
-/

namespace Inet4.Flooding

open List

/-- What is read of a record. -/
structure Versioned (R K V : Type*) where
  key : R → K
  version : R → V

namespace Versioned

variable {R K V : Type*} [LinearOrder V] {c : Versioned R K V}
variable {store store' store'' records : List R} {r r' x : R}

/-- A store has a record with the same key that is not older. -/
def Covers (c : Versioned R K V) (store : List R) (r : R) : Prop :=
  ∃ r' ∈ store, c.key r' = c.key r ∧ c.version r ≤ c.version r'

/-- Nothing of a store is missing or older in another one. -/
def Grows (c : Versioned R K V) (store store' : List R) : Prop := ∀ r ∈ store, c.Covers store' r

theorem covers_of_mem (h : r ∈ store) : c.Covers store r := ⟨r, h, rfl, le_rfl⟩

theorem Covers.grows (h : c.Covers store r) (hgrows : c.Grows store store') :
    c.Covers store' r := by
  obtain ⟨r', hmem, hkey, hle⟩ := h
  obtain ⟨r'', hmem', hkey', hle'⟩ := hgrows r' hmem
  exact ⟨r'', hmem', hkey'.trans hkey, hle.trans hle'⟩

theorem grows_of_subset (h : store ⊆ store') : c.Grows store store' :=
  fun _ hmem ↦ covers_of_mem (h hmem)

theorem Grows.refl (store : List R) : c.Grows store store := fun _ hmem ↦ covers_of_mem hmem

theorem Grows.trans (h : c.Grows store store') (h' : c.Grows store' store'') :
    c.Grows store store'' := fun _ hmem ↦ (h _ hmem).grows h'

omit [LinearOrder V] in
theorem eq_of_key_eq (hnodup : (store.map c.key).Nodup) (hr : r ∈ store) (hr' : r' ∈ store)
    (hkey : c.key r = c.key r') : r = r' := inj_on_of_nodup_map hnodup hr hr' hkey

section Offer

variable [DecidableEq K]

/-- The store after it has taken in a record; `none` when it has one that is not older. -/
def offer (c : Versioned R K V) : List R → R → Option (List R)
  | [], r => some [r]
  | r' :: rest, r =>
    if c.key r' = c.key r then
      if c.version r' < c.version r then some (r :: rest) else none
    else (offer c rest r).map (r' :: ·)

theorem covers_of_offer_eq_none (h : c.offer store r = none) : c.Covers store r := by
  induction store with
  | nil => cases h
  | cons r' rest ih =>
    rw [offer] at h
    split_ifs at h with hkey hversion
    · exact ⟨r', mem_cons_self, hkey, not_lt.mp hversion⟩
    · exact (ih (Option.map_eq_none_iff.mp h)).grows
        (grows_of_subset (subset_cons_self r' rest))

/-- What a store is after it has taken in a record. -/
structure Accepted (c : Versioned R K V) (store : List R) (r : R) (store' : List R) : Prop where
  mem : r ∈ store'
  of_mem : ∀ x ∈ store', x = r ∨ x ∈ store
  keys : ∀ x ∈ store', c.key x = c.key r ∨ ∃ x' ∈ store, c.key x' = c.key x
  grows : c.Grows store store'
  nodup : (store.map c.key).Nodup → (store'.map c.key).Nodup

theorem accepted_of_offer (h : c.offer store r = some store') : c.Accepted store r store' := by
  induction store generalizing store' with
  | nil =>
    cases h
    constructor
    · exact mem_singleton_self r
    · exact fun x hmem ↦ .inl (mem_singleton.mp hmem)
    · exact fun x hmem ↦ .inl (congrArg c.key (mem_singleton.mp hmem))
    · exact grows_of_subset (nil_subset [r])
    · exact fun _ ↦ nodup_singleton (c.key r)
  | cons r' rest ih =>
    rw [offer] at h
    split_ifs at h with hkey hversion
    · cases h
      constructor
      · exact mem_cons_self
      · intro x hmem
        cases hmem with
        | head => exact .inl rfl
        | tail _ hrest => exact .inr (mem_cons_of_mem r' hrest)
      · intro x hmem
        cases hmem with
        | head => exact .inl rfl
        | tail _ hrest => exact .inr ⟨x, mem_cons_of_mem r' hrest, rfl⟩
      · intro x hmem
        cases hmem with
        | head => exact ⟨r, mem_cons_self, hkey.symm, hversion.le⟩
        | tail _ hrest => exact covers_of_mem (mem_cons_of_mem r hrest)
      · intro hnodup
        rw [map_cons, ← hkey, ← map_cons]
        exact hnodup
    · obtain ⟨taken, htaken, rfl⟩ := Option.map_eq_some_iff.mp h
      have hrest := ih htaken
      constructor
      · exact mem_cons_of_mem r' hrest.mem
      · intro x hmem
        cases hmem with
        | head => exact .inr mem_cons_self
        | tail _ hmem => exact (hrest.of_mem x hmem).imp_right (mem_cons_of_mem r')
      · intro x hmem
        cases hmem with
        | head => exact .inr ⟨r', mem_cons_self, rfl⟩
        | tail _ hmem =>
          refine (hrest.keys x hmem).imp_right ?_
          rintro ⟨x', hx', hsame⟩
          exact ⟨x', mem_cons_of_mem r' hx', hsame⟩
      · intro x hmem
        cases hmem with
        | head => exact covers_of_mem mem_cons_self
        | tail _ hmem => exact (hrest.grows x hmem).grows (grows_of_subset (subset_cons_self _ _))
      · intro hnodup
        obtain ⟨hnew, hnodup'⟩ := nodup_cons.mp hnodup
        refine nodup_cons.mpr ⟨?_, hrest.nodup hnodup'⟩
        intro hmem
        obtain ⟨x, hx, hsame⟩ := mem_map.mp hmem
        rcases hrest.keys x hx with heq | ⟨x', hx', heq⟩
        · exact hkey (hsame.symm.trans heq)
        · exact hnew (mem_map.mpr ⟨x', hx', heq.trans hsame⟩)

/-- One more record offered; the second list has those that were taken in. -/
def take (c : Versioned R K V) (taken : List R × List R) (r : R) : List R × List R :=
  match c.offer taken.1 r with
  | none => taken
  | some store' => (store', taken.2 ++ [r])

/-- What is left when some records were offered one after another. -/
structure Taken (c : Versioned R K V) (store records : List R) (taken : List R × List R) :
    Prop where
  covers : ∀ r ∈ records, c.Covers taken.1 r
  of_mem : ∀ x ∈ taken.1, x ∈ store ∨ x ∈ taken.2
  mem : ∀ x ∈ taken.2, x ∈ records
  grows : c.Grows store taken.1
  nodup : (store.map c.key).Nodup → (taken.1.map c.key).Nodup

omit [DecidableEq K] in
theorem taken_nil (store : List R) : c.Taken store [] (store, []) where
  covers := fun r hmem ↦ by cases hmem
  of_mem := fun x hmem ↦ .inl hmem
  mem := fun x hmem ↦ by cases hmem
  grows := Grows.refl store
  nodup := id

theorem Taken.take {taken : List R × List R} (h : c.Taken store records taken) (r : R) :
    c.Taken store (records ++ [r]) (c.take taken r) := by
  unfold Versioned.take
  split
  · rename_i hoffer
    refine ⟨?_, h.of_mem, fun x hmem ↦ mem_append_left _ (h.mem x hmem), h.grows, h.nodup⟩
    intro x hmem
    rcases mem_append.mp hmem with hold | hnew
    · exact h.covers x hold
    · rw [mem_singleton.mp hnew]
      exact covers_of_offer_eq_none hoffer
  · rename_i store' hoffer
    have haccepted := accepted_of_offer hoffer
    constructor
    · intro x hmem
      rcases mem_append.mp hmem with hold | hnew
      · exact (h.covers x hold).grows haccepted.grows
      · rw [mem_singleton.mp hnew]
        exact covers_of_mem haccepted.mem
    · intro x hmem
      rcases haccepted.of_mem x hmem with rfl | hold
      · exact .inr (mem_append_right _ (mem_singleton_self x))
      · exact (h.of_mem x hold).imp_right (mem_append_left _)
    · intro x hmem
      rcases mem_append.mp hmem with hold | hnew
      · exact mem_append_left _ (h.mem x hold)
      · exact mem_append_right _ hnew
    · exact h.grows.trans haccepted.grows
    · exact fun hnodup ↦ haccepted.nodup (h.nodup hnodup)

theorem Taken.foldl {taken : List R × List R} (h : c.Taken store records taken)
    (more : List R) : c.Taken store (records ++ more) (more.foldl c.take taken) := by
  induction more generalizing records taken with
  | nil =>
    rw [append_nil]
    exact h
  | cons r rest ih =>
    have hnext := ih (h.take r)
    rw [append_assoc] at hnext
    exact hnext

/-- All records offered one after another. -/
theorem taken_foldl (store records : List R) :
    c.Taken store records (records.foldl c.take (store, [])) := (taken_nil store).foldl records

end Offer

end Versioned

section Replicas

variable {R K V N : Type*} [LinearOrder V] {c : Versioned R K V} {store : N → List R}
variable {arriving : N → R → Prop} {started : N → Prop} {neighbour : N → N → Prop} {n m : N} {r : R}

/-- What a replica has is also with its neighbours or on the way to them. -/
def Spread (c : Versioned R K V) (store : N → List R) (arriving : N → R → Prop)
    (started : N → Prop) (neighbour : N → N → Prop) : Prop :=
  ∀ n m, neighbour n m → started n → ∀ r ∈ store n,
    c.Covers (store m) r ∨
      ∃ r', arriving m r' ∧ c.key r' = c.key r ∧ c.version r ≤ c.version r'

theorem Spread.grows_of_path (h : Spread c store arriving started neighbour)
    (hstarted : ∀ n, started n) (hquiet : ∀ m r, ¬arriving m r)
    (hpath : Relation.ReflTransGen neighbour n m) : c.Grows (store n) (store m) := by
  induction hpath with
  | refl => exact .refl _
  | tail _ hnext ih =>
    refine ih.trans ?_
    intro r hmem
    rcases h _ _ hnext (hstarted _) r hmem with hcovers | ⟨r', harriving, -⟩
    · exact hcovers
    · exact absurd harriving (hquiet _ r')

/-- Records with the same key and the same version are the same. -/
def Determined (c : Versioned R K V) (holds : R → Prop) : Prop :=
  ∀ r r', holds r → holds r' → c.key r = c.key r' → c.version r = c.version r' → r = r'

/-- Stores that have nothing older than each other have the same records. -/
theorem mem_of_grows {holds : R → Prop} (hdetermined : Determined c holds)
    (hholds : ∀ n, ∀ r ∈ store n, holds r) (hnodup : ∀ n, ((store n).map c.key).Nodup)
    (hgrows : ∀ n m, c.Grows (store n) (store m)) (hmem : r ∈ store n) : r ∈ store m := by
  obtain ⟨r', hmem', hkey, hle⟩ := hgrows n m r hmem
  obtain ⟨r'', hmem'', hkey', hle'⟩ := hgrows m n r' hmem'
  have hback : r'' = r := Versioned.eq_of_key_eq (hnodup n) hmem'' hmem (hkey'.trans hkey)
  rw [hback] at hle'
  have hsame := hdetermined r' r (hholds m r' hmem') (hholds n r hmem) hkey (le_antisymm hle' hle)
  rw [← hsame]
  exact hmem'

/-- Replicas agree once nothing is on the way. -/
theorem Spread.mem_iff {holds : R → Prop} (h : Spread c store arriving started neighbour)
    (hdetermined : Determined c holds) (hholds : ∀ n, ∀ r ∈ store n, holds r)
    (hnodup : ∀ n, ((store n).map c.key).Nodup) (hstarted : ∀ n, started n)
    (hquiet : ∀ m r, ¬arriving m r) (hconnected : ∀ n m, Relation.ReflTransGen neighbour n m)
    (n m : N) : r ∈ store n ↔ r ∈ store m := by
  have hgrows : ∀ n m, c.Grows (store n) (store m) :=
    fun n m ↦ h.grows_of_path hstarted hquiet (hconnected n m)
  constructor
  · exact mem_of_grows hdetermined hholds hnodup hgrows
  · exact mem_of_grows hdetermined hholds hnodup hgrows

end Replicas

end Inet4.Flooding
