import Inet4.Packet.ChunkBufferRuns

/-!
# The reorder buffer

`ReorderBuffer` is a chunk buffer with the offset of the data that is expected next.  Offsets and
lengths count bytes here.
-/

namespace Inet4

structure ReorderBuffer (α : Type) where
  regions : List (Region α)
  /-- The offset of the next expected data. -/
  expectedOffset : ℕ

namespace ReorderBuffer

variable {α : Type} [Inhabited α]

/-- What is popped of the data of a region. -/
def peekData (data : List α) : (length : Option ℕ) → Except Fault (List α)
  | none => .ok data
  | some length => if length ≤ data.length then .ok (data.take length) else .error .runtimeError

def popAvailableData (buffer : ReorderBuffer α) (length : Option ℕ) :
    Except Fault (Option (List α) × ReorderBuffer α) :=
  match buffer.regions with
  | [] => .ok (none, buffer)
  | region :: _ =>
    if region.offset = buffer.expectedOffset then do
      let data ← peekData region.data length
      let regions ← ChunkBuffer.clear 1 buffer.regions buffer.expectedOffset data.length
      return (some data, ⟨regions, buffer.expectedOffset + data.length⟩)
    else .ok (none, buffer)

/-- A part of the first region is popped when that region is expected. -/
theorem popAvailableData_spec {buffer : ReorderBuffer α} {region : Region α}
    {rest : List (Region α)} {length : ℕ} (h : Separated buffer.regions)
    (hregions : buffer.regions = region :: rest) (hoffset : region.offset = buffer.expectedOffset)
    (hpos : 0 < length) (hlength : length ≤ region.data.length) :
    ∃ regions, buffer.popAvailableData (some length) =
        .ok (some (region.data.take length), ⟨regions, buffer.expectedOffset + length⟩) ∧
      Separated regions ∧ ∀ x, readRegions regions x =
        if buffer.expectedOffset ≤ x ∧ x < buffer.expectedOffset + length then none
        else readRegions buffer.regions x := by
  have hdata : (region.data.take length).length = length := by
    rw [List.length_take, Nat.min_eq_left hlength]
  have hpeek : peekData region.data (some length) = .ok (region.data.take length) := if_pos hlength
  have hclearable : 1 ∣ length ∨ IsRun (readRegions buffer.regions) buffer.expectedOffset length :=
    .inl (Nat.one_dvd length)
  obtain ⟨regions, hclear⟩ := (ChunkBuffer.clear_ok_iff h hpos).mpr hclearable
  refine ⟨regions, ?_, ChunkBuffer.clear_spec h hpos hclear⟩
  rw [popAvailableData, hregions]
  simp only
  rw [if_pos hoffset, bind_of_ok hpeek, hdata, ← hregions, bind_of_ok hclear]
  rfl

end ReorderBuffer

end Inet4
