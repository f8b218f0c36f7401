import Inet4.Machine
import Inet4.Packet.ChunkBuffer

/-!
# Erasing from a chunk buffer, and its contents over a run

`clear` erases a region that matches exactly, and otherwise slices the regions with a
`ByteCountChunk` of the given length.  Offsets and lengths are bits, but a `ByteCountChunk` counts
bytes, and the conversion of a length that is not a whole number of bytes throws.  Apart from that
the buffer stores what was written last and not erased since.

The number of positions in a byte is a parameter: it is 8 where positions are bits and 1 where they
are bytes.
-/

namespace Inet4.ChunkBuffer

open Machine List

variable {α : Type} {regions regions' : List (Region α)} {offset length x perByte : ℕ}

/-- The first region matches exactly. -/
def matchesExactly (offset length : ℕ) (region : Region α) : Bool :=
  region.offset = offset ∧ region.data.length = length

/-- `clear`.  What the `ByteCountChunk` contains makes no difference. -/
def clear [Inhabited α] (perByte : ℕ) (regions : List (Region α)) (offset length : ℕ) :
    Except Fault (List (Region α)) :=
  if regions.any (matchesExactly offset length) then
    .ok (regions.eraseP (matchesExactly offset length))
  else if length % perByte ≠ 0 then .error .runtimeError
  else .ok (sliceRegions regions ⟨offset, replicate length default⟩)

/-- A call of the buffer. -/
inductive Call (α : Type)
  | replace (offset : ℕ) (chunk : List α)
  | clear (offset length : ℕ)

/-- The chunk, or the part that is cleared, has a positive length. -/
def Call.Positive : Call α → Prop
  | .replace _ chunk => chunk ≠ []
  | .clear _ length => 0 < length

instance : DecidablePred (Call.Positive (α := α)) := fun call ↦
  match call with
  | .replace .. => inferInstanceAs (Decidable (_ ≠ _))
  | .clear .. => inferInstanceAs (Decidable (_ < _))

/-- The buffer and its callers. -/
def machine [Inhabited α] (perByte : ℕ) : Machine (List (Region α)) (Call α) Fault where
  Enabled _ call := call.Positive
  handle regions call :=
    match call with
    | .replace offset chunk => replace regions offset chunk
    | .clear offset length => clear perByte regions offset length

instance [Inhabited α] (perByte : ℕ) (regions : List (Region α)) (call : Call α) :
    Decidable ((machine perByte).Enabled regions call) :=
  inferInstanceAs (Decidable call.Positive)

/-- A partial map with one write or erasure applied, position by position. -/
def Call.update (stored : ℕ → Option α) : Call α → ℕ → Option α
  | .replace offset chunk, x =>
    if offset ≤ x ∧ x < offset + chunk.length then chunk[x - offset]? else stored x
  | .clear offset length, x => if offset ≤ x ∧ x < offset + length then none else stored x

/-- The partial map that remains of a sequence of calls. -/
def contents (stored : ℕ → Option α) (calls : List (Call α)) : ℕ → Option α :=
  calls.foldl Call.update stored

/-- The buffer stores a partial map in regions that are sorted, disjoint and not adjacent. -/
def Stores (regions : List (Region α)) (stored : ℕ → Option α) : Prop :=
  Separated regions ∧ ∀ x, readRegions regions x = stored x

/-- A length in whole bytes is cleared, or a maximal run of stored positions. -/
def Call.Clearable (perByte : ℕ) (stored : ℕ → Option α) : Call α → Prop
  | .replace .. => True
  | .clear offset length => perByte ∣ length ∨ IsRun stored offset length

/-- Each call of a sequence can be made when its turn comes. -/
def AllClearable (perByte : ℕ) : (ℕ → Option α) → List (Call α) → Prop
  | _, [] => True
  | stored, call :: calls =>
    call.Clearable perByte stored ∧ AllClearable perByte (call.update stored) calls

theorem any_matchesExactly_iff (h : Separated regions) (hlength : 0 < length) :
    regions.any (matchesExactly offset length) ↔ IsRun (readRegions regions) offset length := by
  simp only [any_eq_true, matchesExactly, decide_eq_true_eq]
  constructor
  · rintro ⟨r, hr, rfl, rfl⟩
    exact isRun_of_mem h hr
  · exact exists_mem_of_isRun h hlength

variable [Inhabited α]

/-- `clear` succeeds exactly on whole bytes and on maximal runs. -/
theorem clear_ok_iff (h : Separated regions) (hlength : 0 < length) :
    (∃ regions', clear perByte regions offset length = .ok regions') ↔
      perByte ∣ length ∨ IsRun (readRegions regions) offset length := by
  rw [← any_matchesExactly_iff h hlength, Nat.dvd_iff_mod_eq_zero]
  unfold clear
  split
  · rename_i hmatch
    simp [hmatch]
  · rename_i hmatch
    split
    · rename_i hodd
      simp [hmatch, hodd]
    · rename_i hwhole
      simpa using .inl (not_not.mp hwhole)

/-- When it succeeds, the regions stay separated, and nothing is left at the positions that are
cleared. -/
theorem clear_spec (h : Separated regions) (hlength : 0 < length)
    (hclear : clear perByte regions offset length = .ok regions') :
    Separated regions' ∧ ∀ x, readRegions regions' x =
      if offset ≤ x ∧ x < offset + length then none else readRegions regions x := by
  unfold clear at hclear
  split at hclear
  · rename_i hmatch
    obtain ⟨r, hr, hexact⟩ := any_eq_true.mp hmatch
    obtain ⟨first, left, right, -, hfirst, rfl, herase⟩ := exists_of_eraseP hr hexact
    obtain rfl := Except.ok.inj hclear
    obtain ⟨rfl, rfl⟩ : first.offset = offset ∧ first.data.length = length := by
      simpa [matchesExactly] using hfirst
    rw [herase]
    exact ⟨h.remove, fun x ↦ read_remove h⟩
  · split at hclear
    · cases hclear
    · obtain rfl := Except.ok.inj hclear
      have hdata : replicate length (default : α) ≠ [] := by
        simpa using Nat.ne_of_gt hlength
      refine ⟨separated_sliceRegions h hdata, fun x ↦ ?_⟩
      rw [read_sliceRegions h hdata]
      simp [Region.getStartOffset, Region.getEndOffset]

/-- Each call that succeeds changes what is stored as it should. -/
theorem stores_of_step {stored : ℕ → Option α} {call : Call α} (h : Stores regions stored)
    (hstep : (machine perByte).Step regions call regions') :
    Stores regions' (call.update stored) := by
  obtain ⟨hseparated, hread⟩ := h
  obtain rfl : readRegions regions = stored := funext hread
  obtain ⟨hpositive, hhandle⟩ := hstep
  cases call with
  | replace offset chunk =>
    obtain ⟨next, hreplace, hstores⟩ := replace_spec offset hseparated hpositive
    obtain rfl := Except.ok.inj (hreplace.symm.trans hhandle)
    exact hstores
  | clear offset length => exact clear_spec hseparated hpositive hhandle

/-- A call succeeds exactly when it can be made, and changes what is stored as it should. -/
theorem step_iff (perByte : ℕ) {stored : ℕ → Option α} {call : Call α} (h : Stores regions stored)
    (hpositive : call.Positive) :
    (∃ regions', (machine perByte).Step regions call regions' ∧
      Stores regions' (call.update stored)) ↔ call.Clearable perByte stored := by
  constructor
  · rintro ⟨regions', hstep, -⟩
    cases call with
    | replace offset chunk => trivial
    | clear offset length =>
      obtain rfl : readRegions regions = stored := funext h.2
      exact (clear_ok_iff h.1 hpositive).mp ⟨regions', hstep.2⟩
  · intro hclearable
    obtain ⟨regions', hhandle⟩ : ∃ regions', (machine perByte).handle regions call =
      .ok regions' := by
      cases call with
      | replace offset chunk =>
        obtain ⟨regions', hreplace, -⟩ := replace_spec offset h.1 hpositive
        exact ⟨regions', hreplace⟩
      | clear offset length =>
        obtain rfl : readRegions regions = stored := funext h.2
        exact (clear_ok_iff h.1 hpositive).mpr hclearable
    have hstep : (machine perByte).Step regions call regions' := ⟨hpositive, hhandle⟩
    exact ⟨regions', hstep, stores_of_step h hstep⟩

/-- A sequence of calls succeeds exactly when each of them can be made when its turn comes, and then
the buffer stores what remains. -/
theorem stores_iff_of_stores {stored : ℕ → Option α} {calls : List (Call α)}
    (h : Stores regions stored) (hpositive : ∀ call ∈ calls, call.Positive) :
    (∃ regions', (machine perByte).Run regions calls regions' ∧
      Stores regions' (contents stored calls)) ↔ AllClearable perByte stored calls := by
  induction calls generalizing regions stored with
  | nil => simpa [contents, AllClearable] using h
  | cons call calls ih =>
    obtain ⟨hcall, hcalls⟩ := forall_mem_cons.mp hpositive
    have hfirst := step_iff perByte h hcall
    rw [AllClearable, ← hfirst]
    constructor
    · rintro ⟨last, hrun, hlast⟩
      obtain ⟨next, hstep, hrest⟩ := run_cons_iff.mp hrun
      have hnext := stores_of_step h hstep
      exact ⟨⟨next, hstep, hnext⟩, (ih hnext hcalls).mp ⟨last, hrest, hlast⟩⟩
    · rintro ⟨⟨next, hstep, hnext⟩, hclearable⟩
      obtain ⟨last, hrest, hlast⟩ := (ih hnext hcalls).mpr hclearable
      exact ⟨last, run_cons_iff.mpr ⟨next, hstep, hrest⟩, hlast⟩

/-- The buffer of bits stores what was written last and not erased since, exactly when each call
that erases has a length of whole bytes or erases a maximal run. -/
theorem replays_iff_allClearable (calls : List (Call Bool))
    (hpositive : ∀ call ∈ calls, call.Positive) :
    (∃ regions, (machine 8).Run [] calls regions ∧ Stores regions (contents (fun _ ↦ none) calls)) ↔
      AllClearable 8 (fun _ ↦ none) calls :=
  stores_iff_of_stores ⟨Separated.nil, fun _ ↦ rfl⟩ hpositive

/-- Two writes, of which the second fills the first up, and an erasure of whole bytes within. -/
theorem replays_iff_allClearable_writes :
    (∃ regions, (machine 8).Run []
        [.replace 0 [true, false], .replace 2 (replicate 22 true), .clear 3 8] regions ∧
      Stores regions (contents (fun _ ↦ none)
        [.replace 0 [true, false], .replace 2 (replicate 22 true), .clear 3 8])) :=
  (replays_iff_allClearable _ (by simp [Call.Positive])).mpr
    ⟨trivial, trivial, .inl ⟨1, rfl⟩, trivial⟩

/-- Four bits that are erased within sixteen end the program. -/
theorem not_replays_clear_of_four_bits :
    ¬∀ calls : List (Call Bool), (∀ call ∈ calls, call.Positive) →
      ∃ regions, (machine 8).Run [] calls regions ∧
        Stores regions (contents (fun _ ↦ none) calls) := by
  intro h
  obtain ⟨regions, hrun, -⟩ := h [.replace 0 (replicate 16 true), .clear 4 4]
    (by simp [Call.Positive])
  have hexec := exec_of_run hrun
  have hnone : (machine 8).exec ([] : List (Region Bool))
      [.replace 0 (replicate 16 true), .clear 4 4] = none := by
    decide +kernel
  cases hexec

end Inet4.ChunkBuffer
