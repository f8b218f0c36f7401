import Inet4.Icn.Packet
import Inet4.Packet.ChunkBuffer

/-!
# The reassembly buffer of a node

`ColorFragBuf` collects the fragments of a SID in a `ReassemblyBuffer`.  All offsets and lengths are
byte aligned, so that the buffer is modelled in bytes.  `addFragment` takes the part of the packet
behind the header whose length is `totalLength` less the header length.
-/

namespace Inet4.Icn

/-- `ReassemblyBuffer`; `expectedLength` starts at an impossible value. -/
structure ReassemblyBuffer where
  regions : List (Region Byte) := []
  expectedLength : ℤ := -1

namespace ReassemblyBuffer

/-- `isComplete` and `getReassembledData`: the data when they are complete. -/
def reassembledData (buf : ReassemblyBuffer) : Option (List Byte) :=
  match buf.regions with
  | [region] =>
    if region.offset = 0 ∧ region.data.length = buf.expectedLength then some region.data else none
  | _ => none

end ReassemblyBuffer

/-- `ColorFragBuf::DatagramBuffer`. -/
structure DatagramBuffer where
  buf : ReassemblyBuffer := {}
  packet : Option DataPacket := none

abbrev ColorFragBuf := AssocMap SID DatagramBuffer

namespace ColorFragBuf

variable (packet : DataPacket)

/-- `packet->peekDataAt(B(78), bytes)`. -/
def peekPayload (bytes : ℤ) : Except Fault (List Byte) :=
  if bytes < 0 ∨ packet.dataLength < headerLength + bytes then .error .runtimeError
  else .ok (packet.payload.take bytes.toNat)

/-- The `expectedLength` of the buffer once a packet is in it. -/
def expectedAfter (curBuf : DatagramBuffer) (dataHead : Data) : ℤ :=
  if !dataHead.moreFragments then dataHead.offset + (dataHead.totalLength - headerLength)
  else curBuf.buf.expectedLength

/-- The second half of `addFragment`, once the regions of the buffer are updated. -/
def finishFragment (bufs : ColorFragBuf) (packet : DataPacket) (regions : List (Region Byte)) :
    Option DataPacket × ColorFragBuf :=
  let dataHead := packet.head
  let curBuf := (bufs.find dataHead.sid).getD {}
  let first :=
    match curBuf.packet with
    | none => packet
    | some first => if dataHead.offset = 0 then packet else first
  let buf : ReassemblyBuffer := { regions, expectedLength := expectedAfter curBuf dataHead }
  match buf.reassembledData with
  | some payload =>
    let hdr : Data :=
      { first.head with
        totalLength := headerLength + payload.length, offset := 0, moreFragments := false }
    (some ⟨hdr, payload⟩, bufs.remove dataHead.sid)
  | none => (none, bufs.assign dataHead.sid { buf, packet := some first })

def addFragment (bufs : ColorFragBuf) (packet : DataPacket) :
    Except Fault (Option DataPacket × ColorFragBuf) := do
  let dataHead := packet.head
  let curBuf := (bufs.find dataHead.sid).getD {}
  let chunk ← peekPayload packet (dataHead.totalLength - headerLength)
  let regions ← ChunkBuffer.replace curBuf.buf.regions dataHead.offset chunk
  return bufs.finishFragment packet regions

/-- The `totalLength` of a packet describes a non-empty part of it. -/
def Collectable : Prop :=
  headerLength < packet.head.totalLength ∧ packet.head.totalLength ≤ packet.dataLength

/-- The part of the payload that `totalLength` describes. -/
def chunkOf : List Byte :=
  packet.payload.take (packet.head.totalLength - headerLength).toNat

variable {bufs : ColorFragBuf} {packet}

theorem chunkOf_ne_nil (h : Collectable packet) : chunkOf packet ≠ [] := by
  have hlen : packet.dataLength = headerLength + packet.payload.length := rfl
  obtain ⟨hlt, hle⟩ := h
  rw [chunkOf, ← List.length_pos_iff, List.length_take]
  omega

/-- The buffer is complete when it holds one region that starts at 0 and has the expected length. -/
theorem reassembledData_eq_some {buf : ReassemblyBuffer} {data : List Byte} :
    buf.reassembledData = some data ↔ buf.regions = [⟨0, data⟩] ∧
      (data.length : ℤ) = buf.expectedLength := by
  unfold ReassemblyBuffer.reassembledData
  split
  · rename_i region hregions
    rw [hregions]
    constructor
    · intro h
      split at h
      · rename_i hcomplete
        obtain rfl := Option.some.inj h
        refine ⟨?_, hcomplete.2⟩
        rw [← hcomplete.1]
      · cases h
    · rintro ⟨hregion, hlength⟩
      obtain rfl := (List.cons.inj hregion).1
      exact if_pos ⟨rfl, hlength⟩
  · rename_i hregions
    constructor
    · intro h
      cases h
    · rintro ⟨hregion, -⟩
      exact absurd hregion (hregions _)

/-- A complete content is returned, and its buffer is given up. -/
theorem finishFragment_some {regions : List (Region Byte)} {payload : List Byte}
    (h : ReassemblyBuffer.reassembledData ⟨regions,
      expectedAfter ((bufs.find packet.head.sid).getD {}) packet.head⟩ = some payload) :
    ∃ full, bufs.finishFragment packet regions = (some full, bufs.remove packet.head.sid) ∧
      full.payload = payload := by
  unfold finishFragment
  simp only [h]
  exact ⟨_, rfl, rfl⟩

/-- An incomplete content stays in its buffer. -/
theorem finishFragment_none {regions : List (Region Byte)}
    (h : ReassemblyBuffer.reassembledData ⟨regions,
      expectedAfter ((bufs.find packet.head.sid).getD {}) packet.head⟩ = none) :
    ∃ first, bufs.finishFragment packet regions = (none, bufs.assign packet.head.sid
      ⟨⟨regions, expectedAfter ((bufs.find packet.head.sid).getD {}) packet.head⟩, first⟩) := by
  unfold finishFragment
  simp only [h]
  exact ⟨_, rfl⟩

theorem length_chunkOf (h : Collectable packet) :
    ((chunkOf packet).length : ℤ) = packet.head.totalLength - headerLength := by
  have hlen : packet.dataLength = headerLength + packet.payload.length := rfl
  obtain ⟨hlt, hle⟩ := h
  rw [chunkOf, List.length_take]
  omega

theorem addFragment_eq (h : Collectable packet) {regions : List (Region Byte)}
    (hregions : ChunkBuffer.replace ((bufs.find packet.head.sid).getD {}).buf.regions
      packet.head.offset (chunkOf packet) = .ok regions) :
    bufs.addFragment packet = .ok (bufs.finishFragment packet regions) := by
  obtain ⟨hlt, hle⟩ := h
  have hgood : ¬(packet.head.totalLength - headerLength < 0 ∨
      packet.dataLength < headerLength + (packet.head.totalLength - headerLength)) := by
    omega
  simp only [addFragment, peekPayload, if_neg hgood, bind, Except.bind, pure, Except.pure]
  rw [chunkOf] at hregions
  simp only [hregions]

/-- `addFragment` accepts exactly the packets whose `totalLength` describes a non-empty part. -/
theorem addFragment_ok_iff (bufs : ColorFragBuf) (packet : DataPacket) :
    (∃ result, bufs.addFragment packet = .ok result) ↔ Collectable packet := by
  constructor
  · rintro ⟨result, h⟩
    obtain ⟨chunk, hchunk, h⟩ := bind_eq_ok h
    obtain ⟨regions, hregions, -⟩ := bind_eq_ok h
    have hne : chunk ≠ [] := ChunkBuffer.ne_nil_of_replace_ok hregions
    unfold peekPayload at hchunk
    split at hchunk
    · cases hchunk
    · rename_i hgood
      obtain rfl := Except.ok.inj hchunk
      rw [← List.length_pos_iff, List.length_take] at hne
      exact ⟨by omega, by omega⟩
  · intro h
    obtain ⟨regions, hregions⟩ := ChunkBuffer.exists_replace_ok
      ((bufs.find packet.head.sid).getD {}).buf.regions packet.head.offset (chunkOf_ne_nil h)
    exact ⟨_, addFragment_eq h hregions⟩

end ColorFragBuf

end Inet4.Icn
