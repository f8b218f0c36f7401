import Inet4.Icn.FragBuf
import Inet4.Ipv4.Fragmentation

/-!
# The reassembly buffers of IPv4

`Ipv4FragBuf` keeps a `ReassemblyBuffer` for each identification, source and destination; the
protocol is not part of the key.  The header of a complete datagram is made from that of the last
packet with offset 0 or, before one has arrived, of the first packet.
-/

namespace Inet4.Ipv4

open Icn (Byte ReassemblyBuffer)

/-- `Ipv4FragBuf::Key`. -/
structure Key where
  id : BitVec 16
  src : Ipv4Address
  dest : Ipv4Address
deriving DecidableEq

def Ipv4Header.key (header : Ipv4Header) : Key :=
  ⟨header.identification, header.srcAddress, header.destAddress⟩

/-- `Ipv4FragBuf::DatagramBuffer`. -/
structure DatagramBuffer where
  buf : ReassemblyBuffer := {}
  packet : Option Datagram := none
  lastupdate : SimTime := 0

abbrev Ipv4FragBuf := AssocMap Key DatagramBuffer

namespace Ipv4FragBuf

/-- `packet->peekDataAt(headerLength, bytes)`. -/
def peekDataAt (packet : Datagram) (bytes : ℕ) : Except Fault (List Byte) :=
  if bytes ≤ packet.payload.length then .ok (packet.payload.take bytes) else .error .runtimeError

/-- The number of bytes behind the header, as the header has it. -/
def bytesOf (header : Ipv4Header) : ℕ := header.totalLengthField - header.headerLength

/-- The `expectedLength` of the buffer once a packet is in it. -/
def expectedAfter (curBuf : DatagramBuffer) (header : Ipv4Header) : ℤ :=
  if !header.moreFragments then header.fragmentOffset + bytesOf header
  else curBuf.buf.expectedLength

/-- The packet that the buffer keeps. -/
def keptPacket (curBuf : DatagramBuffer) (packet : Datagram) : Datagram :=
  match curBuf.packet with
  | none => packet
  | some kept => if packet.header.fragmentOffset = 0 then packet else kept

/-- The complete datagram. -/
def reassembled (kept : Datagram) (payload : List Byte) : Datagram where
  header :=
    { kept.header with
      totalLengthField := kept.header.headerLength + payload.length
      fragmentOffset := 0
      moreFragments := false }
  payload := payload

variable (bufs : Ipv4FragBuf)

/-- The second half of `addFragment`, once the regions of the buffer are updated. -/
def finishFragment (packet : Datagram) (now : SimTime)
    (regions : List (Region Byte)) : Option Datagram × Ipv4FragBuf :=
  let key := packet.header.key
  let curBuf := (bufs.find key).getD {}
  let buf : ReassemblyBuffer :=
    { regions, expectedLength := expectedAfter curBuf packet.header }
  match buf.reassembledData with
  | some payload => (some (reassembled (keptPacket curBuf packet) payload), bufs.remove key)
  | none => (none, bufs.assign key
      { buf, packet := some (keptPacket curBuf packet), lastupdate := now })

def addFragment (packet : Datagram) (now : SimTime) :
    Except Fault (Option Datagram × Ipv4FragBuf) := do
  let curBuf := (bufs.find packet.header.key).getD {}
  assert (packet.header.headerLength < packet.header.totalLengthField)
  let data ← peekDataAt packet (bytesOf packet.header)
  let regions ← ChunkBuffer.replace curBuf.buf.regions packet.header.fragmentOffset data
  return bufs.finishFragment packet now regions

/-- Incomplete datagrams whose last packet arrived before a time are given up. -/
def purgeStaleFragments (lastupdate : SimTime) : Ipv4FragBuf :=
  bufs.removeIf fun buf ↦ buf.lastupdate < lastupdate

/-- The packet has a payload, and a header that describes it. -/
def Collectable (packet : Datagram) : Prop :=
  packet.header.headerLength < packet.header.totalLengthField ∧
    packet.header.totalLengthField ≤ packet.byteLength

instance : DecidablePred Collectable := fun _ ↦ inferInstanceAs (Decidable (_ ∧ _))

variable {bufs} {packet : Datagram} {now : SimTime}

/-- The part of the payload that the header describes. -/
def dataOf (packet : Datagram) : List Byte := packet.payload.take (bytesOf packet.header)

theorem length_dataOf (h : Collectable packet) :
    (dataOf packet).length = bytesOf packet.header := by
  have hle := h.2
  rw [Datagram.byteLength] at hle
  rw [dataOf, List.length_take, bytesOf]
  omega

theorem dataOf_ne_nil (h : Collectable packet) : dataOf packet ≠ [] := by
  apply List.ne_nil_of_length_pos
  rw [length_dataOf h, bytesOf]
  exact Nat.sub_pos_of_lt h.1

/-- A packet with a payload is stored at its offset. -/
theorem addFragment_eq (h : Collectable packet) {regions : List (Region Byte)}
    (hregions : ChunkBuffer.replace ((bufs.find packet.header.key).getD {}).buf.regions
      packet.header.fragmentOffset (dataOf packet) = .ok regions) :
    bufs.addFragment packet now = .ok (bufs.finishFragment packet now regions) := by
  have hpeek : peekDataAt packet (bytesOf packet.header) = .ok (dataOf packet) := by
    have hle := h.2
    rw [Datagram.byteLength] at hle
    apply if_pos
    rw [bytesOf]
    omega
  rw [addFragment, bind_of_ok (assert_of h.1), bind_of_ok hpeek, bind_of_ok hregions]
  rfl

section Finish

variable {regions : List (Region Byte)} {payload : List Byte}

/-- A complete datagram is returned, and its buffer is given up. -/
theorem finishFragment_some (h : ReassemblyBuffer.reassembledData ⟨regions,
      expectedAfter ((bufs.find packet.header.key).getD {}) packet.header⟩ = some payload) :
    bufs.finishFragment packet now regions =
      (some (reassembled (keptPacket ((bufs.find packet.header.key).getD {}) packet) payload),
        bufs.remove packet.header.key) := by
  unfold finishFragment
  simp only [h]

/-- An incomplete datagram stays in its buffer. -/
theorem finishFragment_none (h : ReassemblyBuffer.reassembledData ⟨regions,
      expectedAfter ((bufs.find packet.header.key).getD {}) packet.header⟩ = none) :
    bufs.finishFragment packet now regions =
      (none, bufs.assign packet.header.key ⟨⟨regions,
        expectedAfter ((bufs.find packet.header.key).getD {}) packet.header⟩,
        some (keptPacket ((bufs.find packet.header.key).getD {}) packet), now⟩) := by
  unfold finishFragment
  simp only [h]

end Finish

/-- Only the buffer of the packet's key changes. -/
theorem find_finishFragment_of_ne {regions : List (Region Byte)} {key : Key}
    (hne : key ≠ packet.header.key) :
    (bufs.finishFragment packet now regions).2.find key = bufs.find key := by
  unfold finishFragment
  dsimp only
  split
  · rw [AssocMap.find_remove, if_neg hne]
  · rw [AssocMap.find_assign, if_neg hne]

/-- A packet with a payload is accepted and leaves the buffers of the other keys as they are. -/
theorem addFragment_of_ne (h : Collectable packet) {key : Key} (hne : key ≠ packet.header.key) :
    ∃ result bufs', bufs.addFragment packet now = .ok (result, bufs') ∧
      bufs'.find key = bufs.find key := by
  obtain ⟨regions, hregions⟩ := ChunkBuffer.exists_replace_ok
    ((bufs.find packet.header.key).getD {}).buf.regions packet.header.fragmentOffset
    (dataOf_ne_nil h)
  exact ⟨_, _, addFragment_eq h hregions, find_finishFragment_of_ne hne⟩

end Ipv4FragBuf

end Inet4.Ipv4
