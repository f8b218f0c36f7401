import Inet4.Serialization.ByteStream
import Inet4.TcpIpChecksum
import Inet4.Udp.Demultiplexing

/-!
# The UDP checksum

A sender that computes checksums serializes the pseudo header, the header with an empty checksum
field and the payload.  The receiver serializes them with the field filled in, for as many bytes
behind the header as the length field tells, and cuts off what lower layers have padded.

Two slips of the receiver remain.  It cuts only where the length field, which counts the header, is
less than the length of the data, which does not count it: up to eight bytes of padding stay.  And
it peeks the payload without allowing an empty one, which the sender does.
-/

namespace Inet4

open BitPacking Serialization List MemoryOutputStream OnesComplement TcpIpChecksum
open BitVec (ofInt ofNat toNat_inj)
open Except (ok)

/-- The address with the halves `hi` and `lo`, which are one value here. -/
def Serialization.Ipv6Address.ofHalves (addr : BitVec 128) : Ipv6Address where
  d k := (addr >>> (96 - 32 * k.val)).setWidth 32

namespace L3Address

def toIpv6 : L3Address → Except SimulationError Ipv6Address
  | NONE => .ok ⟨fun _ ↦ 0#32⟩
  | IPv6 addr => .ok (.ofHalves addr)
  | _ => .error (.runtimeError "Address is not of the given type")

end L3Address

namespace Udp

/-- The network protocols that `computeCrc` tells apart. -/
inductive NetworkProtocol
  | ipv4
  | ipv6
  | other
deriving DecidableEq

/-- `UdpHeader`, with the length field in bytes. -/
structure UdpHeader where
  sourcePort : BitVec 16
  destinationPort : BitVec 16
  totalLengthField : ℤ
  crc : BitVec 16 := 0#16
  crcMode : CrcMode := .CRC_MODE_UNDEFINED
  isCorrect : Bool := true
deriving DecidableEq

structure TransportPseudoHeader where
  srcAddress : L3Address
  destAddress : L3Address
  networkProtocol : NetworkProtocol
  protocolId : BitVec 8
  /-- In bytes. -/
  packetLength : ℤ
  chunkLength : ℕ

/-- A packet from the network layer: its tags, its UDP header and the bytes behind the header. -/
structure Datagram where
  networkProtocol : NetworkProtocol
  srcAddress : L3Address
  destAddress : L3Address
  header : UdpHeader
  data : List (BitVec 8)
  dataIsCorrect : Bool := true

def IP_PROT_UDP : BitVec 8 := 17

variable (stream : MemoryOutputStream)

/-- `TransportPseudoHeaderSerializer::serialize`. -/
def serializePseudoHeader (header : TransportPseudoHeader) :
    Except SimulationError MemoryOutputStream :=
  match header.networkProtocol with
  | .ipv4 => do
    throwIf (header.chunkLength ≠ 12)
      (.assertion "transportPseudoHeader->getChunkLength() == B(12)")
    let srcAddress ← header.srcAddress.toIpv4
    let destAddress ← header.destAddress.toIpv4
    let stream := (stream.writeIpv4Address srcAddress).writeIpv4Address destAddress
    let stream := (stream.writeByte 0).writeByte header.protocolId
    return stream.writeUint16Be (ofInt 16 header.packetLength)
  | .ipv6 => do
    throwIf (header.chunkLength ≠ 40)
      (.assertion "transportPseudoHeader->getChunkLength() == B(40)")
    let srcAddress ← header.srcAddress.toIpv6
    let destAddress ← header.destAddress.toIpv6
    let stream := (stream.writeIpv6Address srcAddress).writeIpv6Address destAddress
    let stream := stream.writeUint32Be (ofInt 32 header.packetLength)
    let stream := ((stream.writeByte 0).writeByte 0).writeByte 0
    return stream.writeByte header.protocolId
  | .other => .error (.runtimeError "Unknown network protocol: %d")

/-- `UdpHeaderSerializer::serialize`. -/
def serializeHeader (header : UdpHeader) : Except SimulationError MemoryOutputStream := do
  let stream := stream.writeUint16Be header.sourcePort
  let stream := stream.writeUint16Be header.destinationPort
  let stream := stream.writeUint16Be (ofInt 16 header.totalLengthField)
  throwIf (header.crcMode ≠ .CRC_DISABLED ∧ header.crcMode ≠ .CRC_COMPUTED)
    (.runtimeError ("Cannot serialize UDP header without turned off or properly computed CRC, " ++
      "try changing the value of crcMode parameter for Udp"))
  return stream.writeUint16Be header.crc

/-- `BytesChunkSerializer::serialize`. -/
def serializeBytes (bytes : List (BitVec 8)) : Except SimulationError MemoryOutputStream :=
  match stream.writeBytes bytes with
  | .ok stream => .ok stream
  | .error _ => .error (.assertion "isByteAligned()")

/-- The length of the chunk of a pseudo header. -/
def pseudoHeaderLength : NetworkProtocol → Except SimulationError ℕ
  | .ipv4 => .ok 12
  | .ipv6 => .ok 40
  | .other => .error (.runtimeError "Unknown network protocol: %s")

def computeCrc (networkProtocol : NetworkProtocol) (srcAddress destAddress : L3Address)
    (udpHeader : UdpHeader) (udpData : List (BitVec 8)) :
    Except SimulationError (BitVec 16) := do
  let chunkLength ← pseudoHeaderLength networkProtocol
  let pseudoHeader : TransportPseudoHeader :=
    { srcAddress := srcAddress
      destAddress := destAddress
      networkProtocol := networkProtocol
      protocolId := IP_PROT_UDP
      packetLength := UDP_HEADER_LENGTH + udpData.length
      chunkLength := chunkLength }
  let stream ← serializePseudoHeader .empty pseudoHeader
  let stream ← serializeHeader stream udpHeader
  let stream ← serializeBytes stream udpData
  let crc ← checksum stream.data
  return if crc = 0#16 then 0xFFFF#16 else crc

/-- `insertCrc`; returns the header with its checksum. -/
def insertCrc (networkProtocol : NetworkProtocol) (srcAddress destAddress : L3Address)
    (udpHeader : UdpHeader) (udpPayload : List (BitVec 8)) : Except SimulationError UdpHeader :=
  match udpHeader.crcMode with
  | .CRC_DISABLED => .ok { udpHeader with crc := 0#16 }
  | .CRC_DECLARED_CORRECT => .ok { udpHeader with crc := 0xC00D#16 }
  | .CRC_DECLARED_INCORRECT => .ok { udpHeader with crc := 0xBAAD#16 }
  | .CRC_COMPUTED => do
    let blank := { udpHeader with crc := 0#16, crcMode := .CRC_DISABLED }
    let crc ← computeCrc networkProtocol srcAddress destAddress blank udpPayload
    return { udpHeader with crc := crc, crcMode := .CRC_COMPUTED }
  | .CRC_MODE_UNDEFINED => .error (.runtimeError "Unknown CRC mode: %d")

namespace Datagram

variable (packet : Datagram)

/-- `packet->peekDataAt(B(0), length, Chunk::PF_ALLOW_INCORRECT)`, behind the header. -/
def peekDataAt (length : ℤ) : Except SimulationError (List (BitVec 8)) := do
  throwIf (¬(0 ≤ length ∧ length ≤ packet.data.length))
    (.runtimeError "Error: length is invalid")
  throwIf (length = 0)
    (.runtimeError "Returning an empty chunk is not allowed according to the flags: %x")
  return packet.data.take length.toNat

def verifyCrc : Except SimulationError Bool :=
  match packet.header.crcMode with
  | .CRC_DISABLED => .ok (packet.header.crc = 0#16)
  | .CRC_DECLARED_CORRECT => do
    let _ ← packet.peekDataAt (packet.header.totalLengthField - UDP_HEADER_LENGTH)
    return packet.header.isCorrect ∧ packet.dataIsCorrect
  | .CRC_DECLARED_INCORRECT => .ok false
  | .CRC_COMPUTED =>
    if packet.header.crc = 0#16 then .ok true
    else do
      let udpData ← packet.peekDataAt (packet.header.totalLengthField - UDP_HEADER_LENGTH)
      let computedCrc ← computeCrc packet.networkProtocol packet.srcAddress packet.destAddress
        packet.header udpData
      return computedCrc = 0xFFFF#16 ∧ packet.header.isCorrect ∧ packet.dataIsCorrect
  | .CRC_MODE_UNDEFINED => .error (.runtimeError "Unknown CRC mode")

def hasIncorrectLength : Bool :=
  packet.header.totalLengthField < UDP_HEADER_LENGTH ∨
    packet.header.totalLengthField > UDP_HEADER_LENGTH + packet.data.length

/-- `hasIncorrectLength || !verifyCrc(networkProtocol, udpHeader, udpPacket)`. -/
def isDiscarded : Except SimulationError Bool :=
  if packet.hasIncorrectLength then .ok true
  else do
    let passes ← packet.verifyCrc
    return !passes

/-- The data of the packet after the removal of lower layer paddings. -/
def trimmedData : List (BitVec 8) :=
  if packet.header.totalLengthField < packet.data.length then
    packet.data.take (packet.header.totalLengthField - UDP_HEADER_LENGTH).toNat
  else packet.data

/-- What the search for the sockets reads of the packet. -/
def toUdpPacket (crcCorrect : Bool) : UdpPacket where
  srcAddr := packet.srcAddress
  srcPort := packet.header.sourcePort.toNat
  destAddr := packet.destAddress
  destPort := packet.header.destinationPort.toNat
  totalLength := packet.header.totalLengthField
  dataLength := packet.data.length
  crcCorrect := crcCorrect

/-- `processUDPPacket`: what is sent, and the data that is sent with it. -/
def process (udp : Udp) : Except SimulationError (List Output × List (BitVec 8)) := do
  let discarded ← packet.isDiscarded
  let outputs ← udp.processUDPPacket (packet.toUdpPacket !discarded)
  return (outputs, packet.trimmedData)

end Datagram

/-- Two addresses of one network protocol that has a pseudo header. -/
inductive AddressPair
  | ipv4 (src dest : Ipv4.Ipv4Address)
  | ipv6 (src dest : BitVec 128)
deriving DecidableEq

namespace AddressPair

def networkProtocol : AddressPair → NetworkProtocol
  | ipv4 .. => .ipv4
  | ipv6 .. => .ipv6

def srcAddress : AddressPair → L3Address
  | ipv4 src _ => .IPv4 src
  | ipv6 src _ => .IPv6 src

def destAddress : AddressPair → L3Address
  | ipv4 _ dest => .IPv4 dest
  | ipv6 _ dest => .IPv6 dest

def chunkLength : AddressPair → ℕ
  | ipv4 .. => 12
  | ipv6 .. => 40

def pseudoHeader (pair : AddressPair) (packetLength : ℤ) : TransportPseudoHeader where
  srcAddress := pair.srcAddress
  destAddress := pair.destAddress
  networkProtocol := pair.networkProtocol
  protocolId := IP_PROT_UDP
  packetLength := packetLength
  chunkLength := pair.chunkLength

/-- The bytes of an IPv6 address. -/
def ipv6Bytes (addr : BitVec 128) : List (BitVec 8) :=
  [96, 64, 32, 0].flatMap fun shift ↦ bytesAt [24, 16, 8, 0] ((addr >>> shift).setWidth 32)

/-- The bytes of the pseudo header. -/
def pseudoBytes (packetLength : ℤ) : AddressPair → List (BitVec 8)
  | ipv4 src dest =>
    bytesAt [24, 16, 8, 0] src ++ bytesAt [24, 16, 8, 0] dest ++ [0, IP_PROT_UDP] ++
      bytesAt [8, 0] (ofInt 16 packetLength)
  | ipv6 src dest =>
    ipv6Bytes src ++ ipv6Bytes dest ++
      bytesAt [24, 16, 8, 0] (ofInt 32 packetLength) ++ [0, 0, 0, IP_PROT_UDP]

end AddressPair

/-- The bytes of a header before its checksum. -/
def UdpHeader.leadingBytes (header : UdpHeader) : List (BitVec 8) :=
  bytesAt [8, 0] header.sourcePort ++ bytesAt [8, 0] header.destinationPort ++
    bytesAt [8, 0] (ofInt 16 header.totalLengthField)

/-- The bytes of the pseudo header, the header and the data. -/
def coveredBytes (pair : AddressPair) (header : UdpHeader) (data : List (BitVec 8)) :
    List (BitVec 8) :=
  pair.pseudoBytes (UDP_HEADER_LENGTH + data.length) ++
    (header.leadingBytes ++ (bytesAt [8, 0] header.crc ++ data))

variable (bytes : List (BitVec 8))

/-- The checksum field for bytes with a blank one. -/
def crcOf : BitVec 16 :=
  let crc := ~~~ofNat 16 (TcpIpChecksum.onesComplementSum bytes)
  if crc = 0#16 then 0xFFFF#16 else crc

variable {pair : AddressPair} {header : UdpHeader} {data : List (BitVec 8)}

theorem pseudoHeaderLength_eq (pair : AddressPair) :
    pseudoHeaderLength pair.networkProtocol = .ok pair.chunkLength := by
  cases pair with
  | ipv4 src dest | ipv6 src dest => rfl

theorem writeIpv6Address_eq (addr : BitVec 128) :
    stream.writeIpv6Address (.ofHalves addr) = stream.append (AddressPair.ipv6Bytes addr) :=
  foldl_append_eq (bytesAt [24, 16, 8, 0]) (Ipv6Address.ofHalves addr).words
    stream

theorem serializePseudoHeader_eq (pair : AddressPair) (packetLength : ℤ) :
    serializePseudoHeader .empty (pair.pseudoHeader packetLength) =
      .ok (empty.append (pair.pseudoBytes packetLength)) := by
  cases pair with
  | ipv4 src dest =>
    have hlength : ¬AddressPair.chunkLength (.ipv4 src dest) ≠ 12 := not_not.mpr rfl
    refine (bind_of_ok (throwIf_of_not hlength)).trans ?_
    refine (bind_of_ok (a := src) rfl).trans ?_
    refine (bind_of_ok (a := dest) rfl).trans ?_
    apply congrArg ok
    simp only [AddressPair.pseudoBytes, AddressPair.pseudoHeader, append_append,
      writeIpv4Address_eq_append, writeByte_eq_append,
      MemoryOutputStream.writeUint16Be_eq_append, append_assoc, cons_append,
      nil_append]
  | ipv6 src dest =>
    have hlength : ¬AddressPair.chunkLength (.ipv6 src dest) ≠ 40 := not_not.mpr rfl
    refine (bind_of_ok (throwIf_of_not hlength)).trans ?_
    refine (bind_of_ok (a := Ipv6Address.ofHalves src) rfl).trans ?_
    refine (bind_of_ok (a := Ipv6Address.ofHalves dest) rfl).trans ?_
    apply congrArg ok
    simp only [AddressPair.pseudoBytes, AddressPair.pseudoHeader, writeIpv6Address_eq,
      append_append, writeByte_eq_append,
      MemoryOutputStream.writeUint32Be_eq_append, append_assoc, cons_append,
      nil_append]

theorem serializeHeader_eq (hmode : header.crcMode = .CRC_DISABLED ∨ header.crcMode = .CRC_COMPUTED)
    :
    serializeHeader stream header =
      .ok (stream.append (header.leadingBytes ++ bytesAt [8, 0] header.crc)) := by
  have hnot : ¬(header.crcMode ≠ .CRC_DISABLED ∧ header.crcMode ≠ .CRC_COMPUTED) := by
    intro hneither
    exact hmode.elim hneither.1 hneither.2
  unfold serializeHeader
  rw [bind_of_ok (throwIf_of_not hnot)]
  rfl

theorem serializeBytes_eq {stream : MemoryOutputStream} (haligned : stream.length % 8 = 0)
    (bytes : List (BitVec 8)) : serializeBytes stream bytes = .ok (stream.append bytes) := by
  rw [serializeBytes, writeBytes_eq_append bytes haligned]

theorem aligned_append : (MemoryOutputStream.empty.append bytes).length % 8 = 0 := by
  have hempty : empty.length = 0 := rfl
  rw [MemoryOutputStream.length_append, hempty]
  omega

theorem data_append_empty : (empty.append bytes).data = bytes :=
  data_append bytes rfl

/-- `computeCrc` takes the checksum of the covered bytes. -/
theorem computeCrc_eq (pair : AddressPair) (data : List (BitVec 8))
    (hmode : header.crcMode = .CRC_DISABLED ∨ header.crcMode = .CRC_COMPUTED) :
    computeCrc pair.networkProtocol pair.srcAddress pair.destAddress header data =
      .ok (crcOf (coveredBytes pair header data)) := by
  have hpseudo := serializePseudoHeader_eq pair (UDP_HEADER_LENGTH + data.length)
  have hheader := serializeHeader_eq
    (empty.append (pair.pseudoBytes (UDP_HEADER_LENGTH + data.length))) hmode
  rw [append_append] at hheader
  have hdata : ∀ bytes, serializeBytes (empty.append bytes) data =
      .ok (empty.append (bytes ++ data)) := by
    intro bytes
    rw [serializeBytes_eq (aligned_append bytes), append_append]
  unfold computeCrc
  rw [bind_of_ok (pseudoHeaderLength_eq pair)]
  refine (bind_of_ok hpseudo).trans ?_
  refine (bind_of_ok hheader).trans ?_
  refine (bind_of_ok (hdata _)).trans ?_
  rw [data_append_empty, TcpIpChecksum.checksum_eq, coveredBytes,
    append_assoc, append_assoc]
  rfl

theorem words_bytesAt_two (value : BitVec 16) (rest : List (BitVec 8)) :
    words (bytesAt [8, 0] value ++ rest) =
      value.toNat :: words rest := by
  have hhigh : ((value >>> 8).setWidth 8).toNat = value.toNat / 256 := by
    have hlt := value.isLt
    rw [BitVec.toNat_setWidth, BitVec.toNat_ushiftRight, Nat.shiftRight_eq_div_pow]
    exact Nat.mod_eq_of_lt (by omega)
  have hlow : ((value >>> 0).setWidth 8).toNat = value.toNat % 256 := by
    rw [BitVec.toNat_setWidth, BitVec.toNat_ushiftRight, Nat.shiftRight_zero]
  have hword : value.toNat / 256 * 256 + value.toNat % 256 = value.toNat :=
    Nat.div_add_mod' value.toNat 256
  change (_ * 256 + _) :: _ = _
  rw [hhigh, hlow, hword]
  rfl

theorem length_pseudoBytes (pair : AddressPair) (packetLength : ℤ) :
    (pair.pseudoBytes packetLength).length = pair.chunkLength := by
  cases pair with
  | ipv4 src dest | ipv6 src dest => rfl

theorem pseudoBytes_even (pair : AddressPair) (packetLength : ℤ) :
    (pair.pseudoBytes packetLength).length % 2 = 0 := by
  rw [length_pseudoBytes]
  cases pair with
  | ipv4 src dest | ipv6 src dest => simp [AddressPair.chunkLength]

theorem length_leadingBytes (header : UdpHeader) : header.leadingBytes.length = 6 := rfl

/-- The sum of what does not depend on the checksum field. -/
def blankSum (pair : AddressPair) (header : UdpHeader) (data : List (BitVec 8)) : ℕ :=
  (words (coveredBytes pair { header with crc := 0#16 } data)).sum

theorem sum_words_coveredBytes (pair : AddressPair) (header : UdpHeader) (data : List (BitVec 8)) :
    (words (coveredBytes pair header data)).sum =
      (words (pair.pseudoBytes (UDP_HEADER_LENGTH + data.length))).sum +
        ((words header.leadingBytes).sum + (header.crc.toNat + (words data).sum)) := by
  have hleading : header.leadingBytes.length % 2 = 0 := by rw [length_leadingBytes]
  rw [coveredBytes, words_append (pseudoBytes_even pair _), words_append hleading,
    words_bytesAt_two, sum_append, sum_append, sum_cons]

theorem sum_coveredBytes (pair : AddressPair) (header : UdpHeader) (data : List (BitVec 8)) :
    (words (coveredBytes pair header data)).sum =
      blankSum pair header data + header.crc.toNat := by
  have hblank : UdpHeader.leadingBytes { header with crc := 0#16 } = header.leadingBytes := rfl
  have hzero : (0#16).toNat = 0 := rfl
  rw [blankSum, sum_words_coveredBytes, sum_words_coveredBytes, hblank, hzero]
  omega

theorem mem_pseudoBytes (pair : AddressPair) (packetLength : ℤ) :
    IP_PROT_UDP ∈ pair.pseudoBytes packetLength := by
  cases pair with
  | ipv4 src dest | ipv6 src dest => simp [AddressPair.pseudoBytes]

/-- The protocol number keeps every sum from being zero. -/
theorem blankSum_ne_zero (pair : AddressPair) (header : UdpHeader) (data : List (BitVec 8)) :
    blankSum pair header data ≠ 0 := by
  have hmem : IP_PROT_UDP ∈ coveredBytes pair { header with crc := 0#16 } data :=
    mem_append_left _ (mem_pseudoBytes pair _)
  have hprotocol : IP_PROT_UDP ≠ 0 := by decide
  exact (sum_words_pos hmem hprotocol).ne'

theorem onesComplementSum_coveredBytes (pair : AddressPair) (header : UdpHeader)
    (data : List (BitVec 8)) :
    onesComplementSum (coveredBytes pair header data) =
      digit (2 ^ 16) (blankSum pair header data + header.crc.toNat) := by
  rw [onesComplementSum_eq_digit, sum_coveredBytes]

theorem onesComplementSum_ne_zero (pair : AddressPair) (header : UdpHeader)
    (data : List (BitVec 8)) :
    onesComplementSum (coveredBytes pair header data) ≠ 0 := by
  have hblank := blankSum_ne_zero pair header data
  rw [onesComplementSum_coveredBytes, Ne, digit_eq_zero]
  omega

/-- Bytes pass when their sum is the second zero. -/
theorem crcOf_eq_iff {bytes : List (BitVec 8)} (hsum : onesComplementSum bytes ≠ 0) :
    crcOf bytes = 0xFFFF#16 ↔ TcpIpChecksum.onesComplementSum bytes = 2 ^ 16 - 1 := by
  have hlt := onesComplementSum_lt bytes
  have hnot := toNat_not_ofNat hlt
  rw [crcOf, ← toNat_inj]
  split
  · rename_i hzero
    rw [hzero] at hnot
    have hfull : 0 = 2 ^ 16 - 1 - onesComplementSum bytes := hnot
    constructor
    · intro _
      omega
    · intro _
      rfl
  · rename_i hzero
    rw [← toNat_inj, hnot] at hzero
    have hempty : (0#16).toNat = 0 := rfl
    have hones : (0xFFFF#16).toNat = 2 ^ 16 - 1 := rfl
    rw [hnot, hones]
    omega

theorem toNat_crcOf {bytes : List (BitVec 8)}
    (hsum : onesComplementSum bytes ≠ 2 ^ 16 - 1) :
    (crcOf bytes).toNat = 2 ^ 16 - 1 - TcpIpChecksum.onesComplementSum bytes := by
  have hlt := onesComplementSum_lt bytes
  have hnot := toNat_not_ofNat hlt
  have hne : ~~~ofNat 16 (TcpIpChecksum.onesComplementSum bytes) ≠ 0#16 := by
    intro hzero
    rw [hzero] at hnot
    have hfull : 0 = 2 ^ 16 - 1 - onesComplementSum bytes := hnot
    omega
  rw [crcOf, if_neg hne, hnot]

/-- With its checksum filled in, every datagram has the second zero for its sum. -/
theorem sum_with_crcOf (pair : AddressPair) (header : UdpHeader) (data : List (BitVec 8)) :
    onesComplementSum (coveredBytes pair
        { header with crc := crcOf (coveredBytes pair { header with crc := 0#16 } data) } data) =
      2 ^ 16 - 1 := by
  have hne := onesComplementSum_ne_zero pair { header with crc := 0#16 } data
  have hblank : blankSum pair header data ≠ 0 := blankSum_ne_zero pair header data
  have hsum : onesComplementSum (coveredBytes pair { header with crc := 0#16 } data) =
      digit (2 ^ 16) (blankSum pair header data) :=
    onesComplementSum_eq_digit _
  refine (onesComplementSum_coveredBytes pair _ data).trans ?_
  by_cases hfull : onesComplementSum
      (coveredBytes pair { header with crc := 0#16 } data) = 2 ^ 16 - 1
  · have hcrc : (crcOf (coveredBytes pair { header with crc := 0#16 } data)).toNat =
      2 ^ 16 - 1 := by
      rw [(crcOf_eq_iff hne).mpr hfull]
      rfl
    rw [hcrc]
    exact (digit_add_last hblank).trans (hsum.symm.trans hfull)
  · rw [toNat_crcOf hfull, hsum]
    exact digit_add_complement (by decide) _

theorem crcOf_ne_zero : crcOf bytes ≠ 0#16 := by
  by_cases hzero : ~~~ofNat 16 (TcpIpChecksum.onesComplementSum bytes) = 0#16
  · rw [crcOf, if_pos hzero]
    decide
  · rw [crcOf, if_neg hzero]
    exact hzero

/-- The header of a packet from the application, before `insertCrc`. -/
def sentHeader (sourcePort destinationPort : BitVec 16) (payload : List (BitVec 8)) :
    UdpHeader where
  sourcePort := sourcePort
  destinationPort := destinationPort
  totalLengthField := UDP_HEADER_LENGTH + payload.length
  crcMode := .CRC_COMPUTED

/-- A packet that arrives with the addresses of a pair. -/
def AddressPair.datagram (pair : AddressPair) (header : UdpHeader) (data : List (BitVec 8))
    (dataIsCorrect : Bool) : Datagram where
  networkProtocol := pair.networkProtocol
  srcAddress := pair.srcAddress
  destAddress := pair.destAddress
  header := header
  data := data
  dataIsCorrect := dataIsCorrect

/-- The one's complement sum of what the length field makes the receiver look at. -/
def receivedSum (pair : AddressPair) (header : UdpHeader) (data : List (BitVec 8)) : ℕ :=
  onesComplementSum (coveredBytes pair header
    (data.take (header.totalLengthField - UDP_HEADER_LENGTH).toNat))

/-- Where a packet goes that passes: up to a socket of its port that matches, to each that matches
if it is for many, and back as an error if there is none. -/
inductive GoesTo (udp : Udp) (packet : UdpPacket) : List Output → Prop
  | unicast (hmulticast : packet.destAddr.isMulticast = .ok false)
      (hbroadcast : packet.destAddr.isBroadcast = .ok false) {sd : SockDesc}
      (hmem : sd ∈ udp.socketsAt packet.destPort)
      (hmatches : matchesUnicast sd packet.destAddr packet.srcAddr packet.srcPort = true) :
      GoesTo udp packet [.sendUp sd.sockId packet]
  | nobody (hmulticast : packet.destAddr.isMulticast = .ok false)
      (hbroadcast : packet.destAddr.isBroadcast = .ok false)
      (hnone : ∀ sd ∈ udp.socketsAt packet.destPort,
        matchesUnicast sd packet.destAddr packet.srcAddr packet.srcPort = false) :
      GoesTo udp packet [.portUnreachable packet]
  | many {isMulticast isBroadcast : Bool}
    (hmulticast : packet.destAddr.isMulticast = .ok isMulticast)
      (hbroadcast : packet.destAddr.isBroadcast = .ok isBroadcast)
      (hmany : isMulticast = true ∨ isBroadcast = true) {sds : List SockDesc} (hne : sds ≠ [])
      (hfilter : sds = (udp.socketsAt packet.destPort).filter fun sd ↦
        matchesMcastBcast sd packet.destAddr packet.srcAddr packet.srcPort isBroadcast) :
      GoesTo udp packet (sds.map fun sd ↦ .sendUp sd.sockId packet)
  | nobodyOfMany {isMulticast isBroadcast : Bool}
      (hmulticast : packet.destAddr.isMulticast = .ok isMulticast)
      (hbroadcast : packet.destAddr.isBroadcast = .ok isBroadcast)
      (hmany : isMulticast = true ∨ isBroadcast = true)
      (hnone : ∀ sd ∈ udp.socketsAt packet.destPort,
        matchesMcastBcast sd packet.destAddr packet.srcAddr packet.srcPort isBroadcast = false) :
      GoesTo udp packet [.portUnreachable packet]

/-- The datagram passes, and goes where it should with the payload as its data. -/
structure HandsUp (packet : Datagram) (udp : Udp) (payload : List (BitVec 8)) : Prop where
  passes : packet.verifyCrc = .ok true
  handsUp : ∃ outputs, GoesTo udp (packet.toUdpPacket true) outputs ∧
    packet.process udp = .ok (outputs, payload)

theorem insertCrc_sentHeader (pair : AddressPair) (sourcePort destinationPort : BitVec 16)
    (payload : List (BitVec 8)) :
    insertCrc pair.networkProtocol pair.srcAddress pair.destAddress
        (sentHeader sourcePort destinationPort payload) payload =
      .ok { sentHeader sourcePort destinationPort payload with
        crc := crcOf (coveredBytes pair
        (sentHeader sourcePort destinationPort payload) payload) } := by
  have hmode : (.CRC_DISABLED : CrcMode) = .CRC_DISABLED ∨ (.CRC_DISABLED : CrcMode) =
    .CRC_COMPUTED :=
    .inl rfl
  exact bind_of_ok (computeCrc_eq pair payload hmode)

namespace Datagram

variable {packet : Datagram} {length : ℤ} {part : List (BitVec 8)}

theorem peekDataAt_eq (packet : Datagram) (hpos : 0 < length) (hle : length ≤ packet.data.length) :
    packet.peekDataAt length = .ok (packet.data.take length.toNat) := by
  have hvalid : ¬¬(0 ≤ length ∧ length ≤ packet.data.length) := not_not.mpr ⟨hpos.le, hle⟩
  unfold peekDataAt
  rw [bind_of_ok (throwIf_of_not hvalid), bind_of_ok (throwIf_of_not hpos.ne')]
  rfl

theorem of_peekDataAt (h : packet.peekDataAt length = .ok part) :
    0 < length ∧ length ≤ packet.data.length := by
  obtain ⟨_, hvalid, h⟩ := bind_eq_ok h
  obtain ⟨_, hpart, _⟩ := bind_eq_ok h
  have hrange := not_not.mp (of_throwIf hvalid)
  have hne := of_throwIf hpart
  omega

theorem verifyCrc_of_computed (hmode : packet.header.crcMode = .CRC_COMPUTED)
    (hcrc : packet.header.crc ≠ 0#16) :
    packet.verifyCrc = do
      let udpData ← packet.peekDataAt (packet.header.totalLengthField - UDP_HEADER_LENGTH)
      let computedCrc ← computeCrc packet.networkProtocol packet.srcAddress packet.destAddress
        packet.header udpData
      return computedCrc = 0xFFFF#16 ∧ packet.header.isCorrect ∧ packet.dataIsCorrect := by
  simp only [verifyCrc, hmode, if_neg hcrc]

end Datagram

variable {correct : Bool}

/-- The check in computed mode, where the length field fits. -/
theorem verifyCrc_datagram (hmode : header.crcMode = .CRC_COMPUTED) (hcrc : header.crc ≠ 0#16)
    (hlt : UDP_HEADER_LENGTH < header.totalLengthField)
    (hle : header.totalLengthField ≤ UDP_HEADER_LENGTH + data.length) :
    (pair.datagram header data correct).verifyCrc =
      .ok (receivedSum pair header data = 2 ^ 16 - 1 ∧ header.isCorrect ∧ correct) := by
  have hlength : header.totalLengthField - UDP_HEADER_LENGTH ≤ (data.length : ℤ) := by omega
  have hpeek := (pair.datagram header data correct).peekDataAt_eq (by omega) hlength
  have hcompute := computeCrc_eq pair
    (data.take (header.totalLengthField - UDP_HEADER_LENGTH).toNat) (.inr hmode)
  have hcheck := crcOf_eq_iff (onesComplementSum_ne_zero pair header
    (data.take (header.totalLengthField - UDP_HEADER_LENGTH).toNat))
  refine (Datagram.verifyCrc_of_computed hmode hcrc).trans ?_
  refine (bind_of_ok hpeek).trans ?_
  refine (bind_of_ok hcompute).trans ?_
  exact congrArg ok (decide_eq_decide.mpr (and_congr hcheck Iff.rfl))

/-- A datagram with another sum never passes. -/
theorem verifyCrc_ne_true (hmode : header.crcMode = .CRC_COMPUTED) (hcrc : header.crc ≠ 0#16)
    (hsum : receivedSum pair header data ≠ 2 ^ 16 - 1) :
    (pair.datagram header data correct).verifyCrc ≠ .ok true := by
  intro hpasses
  have hcomputed := hpasses
  rw [Datagram.verifyCrc_of_computed hmode hcrc] at hcomputed
  obtain ⟨part, hpeek, _⟩ := bind_eq_ok hcomputed
  have hrange := Datagram.of_peekDataAt hpeek
  have hle : header.totalLengthField - UDP_HEADER_LENGTH ≤ (data.length : ℤ) := hrange.2
  have hpos : 0 < header.totalLengthField - UDP_HEADER_LENGTH := hrange.1
  rw [verifyCrc_datagram hmode hcrc (by omega) (by omega)] at hpasses
  have hall := of_decide_eq_true (ok.inj hpasses)
  exact hsum hall.1

/-- The search for the sockets fails only on addresses that have no type. -/
theorem exists_goesTo {packet : UdpPacket} {isMulticast isBroadcast : Bool} (udp : Udp)
    (hlength : packet.hasIncorrectLength = false) (hcrc : packet.crcCorrect = true)
    (hmulticast : packet.destAddr.isMulticast = .ok isMulticast)
    (hbroadcast : packet.destAddr.isBroadcast = .ok isBroadcast) :
    ∃ outputs, udp.processUDPPacket packet = .ok outputs ∧ GoesTo udp packet outputs := by
  have hpasses : ¬(packet.hasIncorrectLength = true ∨ (!packet.crcCorrect) = true) := by
    simp [hlength, hcrc]
  unfold Udp.processUDPPacket
  rw [if_neg hpasses, bind_of_ok hmulticast, bind_of_ok hbroadcast]
  by_cases hunicast : isMulticast = false ∧ isBroadcast = false
  · obtain ⟨rfl, rfl⟩ := hunicast
    cases hfound : udp.findSocketForUnicastPacket packet.destAddr packet.destPort packet.srcAddr
        packet.srcPort with
    | none =>
      refine ⟨_, rfl, .nobody hmulticast hbroadcast ?_⟩
      intro sd hsd
      exact selectSocket_eq_none hfound sd (mem_reverse.mpr hsd)
    | some sd =>
      rcases (selectSocket_eq_some hfound).1 with ⟨hmem, hmatches⟩ | hnone
      · exact ⟨_, rfl, .unicast hmulticast hbroadcast (mem_reverse.mp hmem) hmatches⟩
      · cases hnone
  · have hmany : isMulticast = true ∨ isBroadcast = true := by
      rw [not_and_or, Bool.not_eq_false, Bool.not_eq_false] at hunicast
      exact hunicast
    have hgroup : ¬((!isMulticast) = true ∧ (!isBroadcast) = true) := by simpa using hunicast
    rw [if_neg hgroup]
    cases hfound : udp.findSocketsForMcastBcastPacket packet.destAddr packet.destPort
        packet.srcAddr packet.srcPort isBroadcast with
    | nil =>
      refine ⟨_, rfl, .nobodyOfMany hmulticast hbroadcast hmany ?_⟩
      intro sd hsd
      exact Bool.eq_false_iff.mpr (filter_eq_nil_iff.mp hfound sd hsd)
    | cons sd sds =>
      exact ⟨_, rfl, .many hmulticast hbroadcast hmany (cons_ne_nil sd sds) hfound.symm⟩

/-- The header that `insertCrc` fills in. -/
def filledHeader (pair : AddressPair) (sourcePort destinationPort : BitVec 16)
    (payload : List (BitVec 8)) : UdpHeader :=
  { sentHeader sourcePort destinationPort payload with
    crc := crcOf (coveredBytes pair (sentHeader sourcePort destinationPort payload) payload) }

variable {sourcePort destinationPort : BitVec 16} {payload padding : List (BitVec 8)}

theorem length_filledHeader :
    (filledHeader pair sourcePort destinationPort payload).totalLengthField =
      UDP_HEADER_LENGTH + payload.length := rfl

theorem toNat_payloadLength :
    ((filledHeader pair sourcePort destinationPort payload).totalLengthField -
      UDP_HEADER_LENGTH).toNat = payload.length := by
  rw [length_filledHeader]
  omega

/-- The receiver looks at the payload only. -/
theorem receivedSum_filledHeader (pair : AddressPair) (sourcePort destinationPort : BitVec 16)
    (payload padding : List (BitVec 8)) :
    receivedSum pair (filledHeader pair sourcePort destinationPort payload) (payload ++ padding) =
      2 ^ 16 - 1 := by
  rw [receivedSum, toNat_payloadLength, take_left]
  exact sum_with_crcOf pair (sentHeader sourcePort destinationPort payload) payload

/-- A datagram that was not altered passes unless its payload is empty. -/
theorem verifyCrc_filledHeader_iff :
    (pair.datagram (filledHeader pair sourcePort destinationPort payload) (payload ++ padding)
      true).verifyCrc = .ok true ↔ payload ≠ [] := by
  have hcrc := crcOf_ne_zero
    (coveredBytes pair (sentHeader sourcePort destinationPort payload) payload)
  constructor
  · rintro hpasses hempty
    rw [Datagram.verifyCrc_of_computed rfl hcrc] at hpasses
    obtain ⟨part, hpeek, _⟩ := bind_eq_ok hpasses
    have hpos := (Datagram.of_peekDataAt hpeek).1
    change 0 < (UDP_HEADER_LENGTH + payload.length : ℤ) - UDP_HEADER_LENGTH at hpos
    rw [hempty, length_nil] at hpos
    omega
  · intro hne
    have hpos : 0 < payload.length := length_pos_iff.mpr hne
    have hsum := receivedSum_filledHeader pair sourcePort destinationPort payload padding
    have hlength : (payload ++ padding).length = payload.length + padding.length :=
      length_append
    rw [verifyCrc_datagram rfl hcrc (by rw [length_filledHeader]; omega)
      (by rw [length_filledHeader, hlength]; omega)]
    exact congrArg ok (decide_eq_true ⟨hsum, rfl, rfl⟩)

/-- Padding is cut off from nine bytes on. -/
theorem trimmedData_filledHeader :
    (pair.datagram (filledHeader pair sourcePort destinationPort payload) (payload ++ padding)
      correct).trimmedData = if 8 < padding.length then payload else payload ++ padding := by
  have hlength : (payload ++ padding).length = payload.length + padding.length :=
    length_append
  have hlong : (filledHeader pair sourcePort destinationPort payload).totalLengthField <
      ((payload ++ padding).length : ℤ) ↔ 8 < padding.length := by
    have height : UDP_HEADER_LENGTH = 8 := rfl
    rw [length_filledHeader, hlength, height]
    omega
  exact if_congr hlong (take_left' toNat_payloadLength.symm) rfl

theorem process_of_passes {packet : Datagram} {udp : Udp} {outputs : List Output}
    (hlength : packet.hasIncorrectLength = false) (hpasses : packet.verifyCrc = .ok true)
    (houtputs : udp.processUDPPacket (packet.toUdpPacket true) = .ok outputs) :
    packet.process udp = .ok (outputs, packet.trimmedData) := by
  have hdiscarded : packet.isDiscarded = .ok false := by
    unfold Datagram.isDiscarded
    rw [hlength, hpasses]
    rfl
  unfold Datagram.process
  rw [bind_of_ok hdiscarded]
  exact bind_of_ok houtputs

theorem not_hasIncorrectLength :
    (pair.datagram (filledHeader pair sourcePort destinationPort payload) (payload ++ padding)
      correct).hasIncorrectLength = false := by
  have hlength : (payload ++ padding).length = payload.length + padding.length :=
    length_append
  apply decide_eq_false
  rintro (hshort | hlong)
  · change (UDP_HEADER_LENGTH + payload.length : ℤ) < UDP_HEADER_LENGTH at hshort
    omega
  · change (UDP_HEADER_LENGTH + payload.length : ℤ) >
      UDP_HEADER_LENGTH + ((payload ++ padding).length : ℤ) at hlong
    omega

/-- What was sent is taken in by the search for the sockets. -/
theorem exists_goesTo_filledHeader (udp : Udp) :
    ∃ outputs, udp.processUDPPacket ((pair.datagram
        (filledHeader pair sourcePort destinationPort payload) (payload ++ padding)
        correct).toUdpPacket true) = .ok outputs ∧
      GoesTo udp ((pair.datagram (filledHeader pair sourcePort destinationPort payload)
        (payload ++ padding) correct).toUdpPacket true) outputs := by
  have hlength : (pair.datagram (filledHeader pair sourcePort destinationPort payload)
      (payload ++ padding) correct).hasIncorrectLength = false := not_hasIncorrectLength
  cases pair with
  | ipv4 src dest | ipv6 src dest => exact exists_goesTo udp hlength rfl rfl rfl

theorem trimmed_eq_payload_iff (payload padding : List (BitVec 8)) :
    (if 8 < padding.length then payload else payload ++ padding) = payload ↔
      padding = [] ∨ 8 < padding.length := by
  split
  · rename_i hlong
    exact iff_of_true rfl (.inr hlong)
  · rename_i hshort
    rw [append_right_eq_self]
    exact (or_iff_left hshort).symm

theorem handsUp_filledHeader_iff (udp : Udp) :
    HandsUp (pair.datagram (filledHeader pair sourcePort destinationPort payload)
        (payload ++ padding) true) udp payload ↔
      payload ≠ [] ∧ (padding = [] ∨ 8 < padding.length) := by
  obtain ⟨outputs, houtputs, hgoes⟩ : ∃ outputs, udp.processUDPPacket ((pair.datagram
      (filledHeader pair sourcePort destinationPort payload) (payload ++ padding)
      true).toUdpPacket true) = .ok outputs ∧ _ := exists_goesTo_filledHeader udp
  rw [← trimmed_eq_payload_iff payload padding]
  constructor
  · intro h
    have hne := verifyCrc_filledHeader_iff.mp h.passes
    obtain ⟨sent, _, hsent⟩ := h.handsUp
    rw [process_of_passes not_hasIncorrectLength h.passes houtputs,
      trimmedData_filledHeader] at hsent
    exact ⟨hne, congrArg Prod.snd (ok.inj hsent)⟩
  · rintro ⟨hne, htrimmed⟩
    have hpasses : (pair.datagram (filledHeader pair sourcePort destinationPort payload)
        (payload ++ padding) true).verifyCrc = .ok true := verifyCrc_filledHeader_iff.mpr hne
    refine ⟨hpasses, outputs, hgoes, ?_⟩
    rw [process_of_passes not_hasIncorrectLength hpasses houtputs, trimmedData_filledHeader,
      htrimmed]

/-- A payload that is not altered goes up to the sockets it is for exactly when it is not empty and
lower layers pad the datagram by nothing or by more than eight bytes.  An altered datagram does not
pass.  Both sums are the one's complement sum. -/
theorem handsUp_iff (udp : Udp) (pair : AddressPair) (sourcePort destinationPort : BitVec 16)
    (payload padding : List (BitVec 8)) :
    ∃ header, insertCrc pair.networkProtocol pair.srcAddress pair.destAddress
        (sentHeader sourcePort destinationPort payload) payload = .ok header ∧
      (HandsUp (pair.datagram header (payload ++ padding) true) udp payload ↔
        payload ≠ [] ∧ (padding = [] ∨ 8 < padding.length)) ∧
      (∀ (pair' : AddressPair) (header' : UdpHeader) (data' : List (BitVec 8)) (correct' : Bool),
        header'.crcMode = .CRC_COMPUTED → header'.crc ≠ 0#16 →
        receivedSum pair' header' data' ≠ receivedSum pair header (payload ++ padding) →
        (pair'.datagram header' data' correct').verifyCrc ≠ .ok true ∧
          (UDP_HEADER_LENGTH < header'.totalLengthField →
            header'.totalLengthField ≤ UDP_HEADER_LENGTH + data'.length →
            (pair'.datagram header' data' correct').verifyCrc = .ok false)) ∧
      ∀ bytes : List (BitVec 8),
        checksumAt bytes =
            .ok (ofNat 16 (TcpIpChecksum.onesComplementSum bytes)) ∧
          checksumOf bytes =
            .ok (ofNat 16 (TcpIpChecksum.onesComplementSum bytes)) := by
  refine ⟨filledHeader pair sourcePort destinationPort payload,
    insertCrc_sentHeader pair sourcePort destinationPort payload, ?_, ?_, ?_⟩
  · exact handsUp_filledHeader_iff udp
  · intro pair' header' data' correct' hmode hcrc hsum
    rw [receivedSum_filledHeader] at hsum
    refine ⟨verifyCrc_ne_true hmode hcrc hsum, ?_⟩
    intro hlt hle
    rw [verifyCrc_datagram hmode hcrc hlt hle]
    exact congrArg ok (decide_eq_false fun hall ↦ hsum hall.1)
  · intro bytes
    exact ⟨checksumAt_eq bytes, checksumOf_eq bytes⟩

/-- A module with one socket, bound to port 2000. -/
def oneSocket : Udp where
  socketsByIdMap := AssocMap.assign ∅ 1
    { sockId := 1
      isBound := true
      onlyLocalPortIsSet := true
      localPort := 2000 }
  socketsByPortMap := AssocMap.assign ∅ 2000 [1]
  ift := ⟨[]⟩

/-- The addresses 10.0.0.1 and 10.0.0.2. -/
def neighbours : AddressPair := .ipv4 0x0A000001#32 0x0A000002#32

/-- A datagram between the neighbours. -/
def neighbourHeader (payload : List (BitVec 8)) (crc : BitVec 16) : UdpHeader :=
  { sentHeader 1000 2000 payload with crc := crc }

/-- One byte of padding goes up to the socket behind the payload, and an empty payload is an
error. -/
theorem not_handsUp_padded :
    insertCrc neighbours.networkProtocol neighbours.srcAddress neighbours.destAddress
        (sentHeader 1000 2000 [1, 2, 3]) [1, 2, 3] =
      .ok (neighbourHeader [1, 2, 3] 0xDC1B#16) ∧
    (neighbours.datagram (neighbourHeader [1, 2, 3] 0xDC1B#16) ([1, 2, 3] ++ [0]) true).verifyCrc =
      .ok true ∧
    (neighbours.datagram (neighbourHeader [1, 2, 3] 0xDC1B#16) ([1, 2, 3] ++ [0]) true).process
      oneSocket =
      .ok ([.sendUp 1
          { srcAddr := neighbours.srcAddress
            srcPort := 1000
            destAddr := neighbours.destAddress
            destPort := 2000
            totalLength := 11
            dataLength := 4 }], [1, 2, 3, 0]) ∧
    insertCrc neighbours.networkProtocol neighbours.srcAddress neighbours.destAddress
        (sentHeader 1000 2000 []) [] = .ok (neighbourHeader [] 0xE023#16) ∧
    (neighbours.datagram (neighbourHeader [] 0xE023#16) [] true).verifyCrc =
      .error (.runtimeError
        "Returning an empty chunk is not allowed according to the flags: %x") := by
  decide +kernel

/-- An altered payload of the same length passes exactly if the sum of its words is the same, modulo
`2 ^ 16 - 1`. -/
theorem verifyCrc_altered_iff {n : ℕ} (payload altered : Fin (n + 1) → BitVec 8) :
    ∃ header, insertCrc pair.networkProtocol pair.srcAddress pair.destAddress
        (sentHeader sourcePort destinationPort (ofFn payload)) (ofFn payload) = .ok header ∧
      ((pair.datagram header (ofFn altered) true).verifyCrc = .ok true ↔
        (words (ofFn altered)).sum % (2 ^ 16 - 1) = (words (ofFn payload)).sum % (2 ^ 16 - 1)) := by
  refine ⟨_, insertCrc_sentHeader pair sourcePort destinationPort (ofFn payload), ?_⟩
  have hsent := receivedSum_filledHeader pair sourcePort destinationPort (ofFn payload) []
  rw [verifyCrc_datagram rfl (crcOf_ne_zero _) (by simp [sentHeader]) (by simp [sentHeader]),
    ← filledHeader]
  generalize hheader : filledHeader pair sourcePort destinationPort (ofFn payload) = header at *
  have hreceived (data : Fin (n + 1) → BitVec 8) :
    receivedSum pair header (ofFn data) = 2 ^ 16 - 1 ↔
      (words (coveredBytes pair header (ofFn data))).sum % (2 ^ 16 - 1) = 0 := by
    have hne := onesComplementSum_ne_zero pair header (ofFn data)
    rw [onesComplementSum_eq_digit, Ne, digit_eq_zero] at hne
    rw [receivedSum, ← hheader, toNat_payloadLength, take_of_length_le (by simp), hheader,
      onesComplementSum_eq_digit, digit_of_ne_zero hne]
    omega
  have hcorrect : header.isCorrect = true := hheader ▸ rfl
  rw [append_nil, hreceived, sum_words_coveredBytes, length_ofFn] at hsent
  simp only [ok.injEq, decide_eq_true_eq, hreceived, sum_words_coveredBytes, length_ofFn, hcorrect,
    and_true]
  omega

end Udp

end Inet4
