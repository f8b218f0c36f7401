import Inet4.Serialization.ByteStream

/-!
# The IPv4 header on the wire

`Ipv4HeaderSerializer` writes the fixed part of a header through the memory image of `struct ip`,
then the options one after another, and fills the header with the end-of-options byte.  The reader
goes through the options by their own lengths.  A timestamp option that holds timestamps only is
the exception: the reader leaves its timestamps unread, so that they are taken for options, and a
timestamp option without entries is read as a raw option.
-/

namespace Inet4.Ipv4.Ipv4HeaderSerializer

open BitPacking Serialization List Prod SimTime
open MemoryInputStream (advance_advance ofOutput advance readIpv4Address seek)
open MemoryOutputStream (append_append empty writeByte writeIpv4Address writeByte_eq_append
  writeUint32Be_eq_append data_append foldl_append_eq)
open BitVec (ofInt twoPow getLsbD_twoPow toNat_ofNat setWidth_eq ofNat_toNat getLsbD_and)
open Except (ok)

inductive TimestampFlag
  | IP_TIMESTAMP_TIMESTAMP_ONLY
  | IP_TIMESTAMP_WITH_ADDRESS
  | IP_TIMESTAMP_SENDER_INIT_ADDRESS
  deriving DecidableEq, Repr

namespace TimestampFlag

def value : TimestampFlag → BitVec 32
  | IP_TIMESTAMP_TIMESTAMP_ONLY => 0
  | IP_TIMESTAMP_WITH_ADDRESS => 1
  | IP_TIMESTAMP_SENDER_INIT_ADDRESS => 3

/-- The number of bytes of an entry. -/
def bytes (flag : TimestampFlag) : ℕ := if flag = IP_TIMESTAMP_TIMESTAMP_ONLY then 4 else 8

end TimestampFlag

/-- The subclasses of `TlvOptionBase` with their own fields. -/
inductive TlvOptionClass
  | Ipv4OptionEnd
  | Ipv4OptionNop
  | Ipv4OptionStreamId (streamId : BitVec 16)
  | Ipv4OptionTimestamp (flag : TimestampFlag) (overflow nextIdx : BitVec 16)
      (recordAddress : List Ipv4Address) (recordTimestamp : List SimTime)
  | Ipv4OptionRecordRoute (nextAddressIdx : BitVec 16) (recordAddress : List Ipv4Address)
  | Ipv4OptionRouterAlert (routerAlert : BitVec 16)
  | TlvOptionRaw (bytes : List (BitVec 8))
  deriving DecidableEq, Repr

/-- `TlvOptionBase`: its type, its length in bytes and what its subclass adds. -/
structure TlvOption where
  type : BitVec 16
  length : BitVec 16
  content : TlvOptionClass
  deriving DecidableEq, Repr

/-- `Ipv4Header`, lengths in bytes. -/
structure Ipv4Header where
  version : BitVec 16
  headerLength : ℕ
  typeOfService : BitVec 16
  totalLengthField : ℕ
  identification : BitVec 16
  reservedBit : Bool
  moreFragments : Bool
  dontFragment : Bool
  fragmentOffset : BitVec 16
  timeToLive : BitVec 16
  protocolId : BitVec 32
  crc : BitVec 16
  crcMode : CrcMode
  srcAddress : Ipv4Address
  destAddress : Ipv4Address
  options : List TlvOption
  deriving DecidableEq, Repr

/-- `IPv4_MIN_HEADER_LENGTH`, in bytes. -/
def IPv4_MIN_HEADER_LENGTH : ℕ := 20

/-- `IPv4_MAX_HEADER_LENGTH`, in bytes. -/
def IPv4_MAX_HEADER_LENGTH : ℕ := 60

/-! ## The memory image of the fixed part -/

/-- `struct ip`.  The fields of two and four bytes hold the values that `ntohs` and `ntohl` give. -/
structure ip where
  ip_v : BitVec 4
  ip_hl : BitVec 4
  ip_tos : BitVec 8
  ip_len : BitVec 16
  ip_id : BitVec 16
  ip_off : BitVec 16
  ip_ttl : BitVec 8
  ip_p : BitVec 8
  ip_sum : BitVec 16
  ip_src : BitVec 32
  ip_dst : BitVec 32
  deriving DecidableEq, Repr

namespace ip

/-- The bytes of the structure. -/
def image (iphdr : ip) : List (BitVec 8) :=
  [iphdr.ip_v ++ iphdr.ip_hl, iphdr.ip_tos] ++ bytesAt [8, 0] iphdr.ip_len ++
    bytesAt [8, 0] iphdr.ip_id ++ bytesAt [8, 0] iphdr.ip_off ++ [iphdr.ip_ttl, iphdr.ip_p] ++
    bytesAt [8, 0] iphdr.ip_sum ++ bytesAt [24, 16, 8, 0] iphdr.ip_src ++
    bytesAt [24, 16, 8, 0] iphdr.ip_dst

/-- The structure that lies in a buffer. -/
def ofImage : List (BitVec 8) → Except Fault ip
  | [v_hl, tos, l1, l0, i1, i0, o1, o0, ttl, p, c1, c0, s3, s2, s1, s0, d3, d2, d1, d0] =>
    .ok
      { ip_v := v_hl.extractLsb' 4 4
        ip_hl := v_hl.extractLsb' 0 4
        ip_tos := tos
        ip_len := orBytes 0 [8, 0] [l1, l0]
        ip_id := orBytes 0 [8, 0] [i1, i0]
        ip_off := orBytes 0 [8, 0] [o1, o0]
        ip_ttl := ttl
        ip_p := p
        ip_sum := orBytes 0 [8, 0] [c1, c0]
        ip_src := orBytes 0 [24, 16, 8, 0] [s3, s2, s1, s0]
        ip_dst := orBytes 0 [24, 16, 8, 0] [d3, d2, d1, d0] }
  | _ => .error .undefinedBehaviour

theorem ofImage_image (iphdr : ip) : ofImage iphdr.image = .ok iphdr := by
  have hv : (iphdr.ip_v ++ iphdr.ip_hl).extractLsb' 4 4 = iphdr.ip_v :=
    BitVec.extractLsb'_append_eq_left
  have hhl : (iphdr.ip_v ++ iphdr.ip_hl).extractLsb' 0 4 = iphdr.ip_hl :=
    BitVec.extractLsb'_append_eq_right
  have htwo := orBytes_bytesAt_two
  have hfour := orBytes_bytesAt_four
  simp only [bytesAt, map_cons, map_nil] at htwo hfour
  simp only [image, bytesAt, map_cons, map_nil, cons_append, nil_append,
    ofImage, htwo, hfour, hv, hhl]

end ip

def IP_RF : BitVec 16 := 0x8000
def IP_DF : BitVec 16 := 0x4000
def IP_MF : BitVec 16 := 0x2000
def IP_OFFMASK : BitVec 16 := 0x1fff

/-! ## Writing -/

def IPOPTION_END_OF_OPTIONS : BitVec 16 := 0
def IPOPTION_NO_OPTION : BitVec 16 := 1
def IPOPTION_RECORD_ROUTE : BitVec 16 := 7
def IPOPTION_TIMESTAMP : BitVec 16 := 68
def IPOPTION_LOOSE_SOURCE_ROUTING : BitVec 16 := 131
def IPOPTION_STREAM_ID : BitVec 16 := 136
def IPOPTION_STRICT_SOURCE_ROUTING : BitVec 16 := 137
def IPOPTION_ROUTER_ALERT : BitVec 16 := 148

variable (type : BitVec 16)

/-- The three types of a record route option. -/
def IsRecordRoute : Prop :=
  type = IPOPTION_RECORD_ROUTE ∨ type = IPOPTION_LOOSE_SOURCE_ROUTING ∨
    type = IPOPTION_STRICT_SOURCE_ROUTING

instance : DecidablePred IsRecordRoute := fun _ ↦ inferInstanceAs (Decidable (_ ∨ _))

/-- `inUnit(SIMTIME_MS)`, as an unsigned integer of 32 bits. -/
def inMillis (t : SimTime) : BitVec 32 := ofInt 32 (t.tdiv 1000000000)

/-- The entries of a timestamp option; reading an address past the end of the array is an error. -/
def writeRecords (withAddress : Bool) : List Ipv4Address → List SimTime → MemoryOutputStream →
    Except Fault MemoryOutputStream
  | _, [], stream => .ok stream
  | recordAddress, timestamp :: recordTimestamp, stream =>
    if withAddress then
      match recordAddress with
      | [] => .error .runtimeError
      | address :: recordAddress =>
        writeRecords withAddress recordAddress recordTimestamp
          ((stream.writeIpv4Address address).writeUint32Be (inMillis timestamp))
    else
      writeRecords withAddress recordAddress recordTimestamp
        (stream.writeUint32Be (inMillis timestamp))

/-- A failed `check_and_cast` and a type that the switch does not know are errors. -/
def serializeOption (stream : MemoryOutputStream) (option : TlvOption) :
    Except Fault MemoryOutputStream := do
  let type := option.type
  let length := option.length.toNat
  let stream := stream.writeByte (type.setWidth 8)
  let stream := if length > 1 then stream.writeByte (option.length.setWidth 8) else stream
  match option.content with
  | .TlvOptionRaw bytes =>
    assert (length = 2 + bytes.length)
    pure (bytes.foldl writeByte stream)
  | .Ipv4OptionEnd =>
    assert (type = IPOPTION_END_OF_OPTIONS)
    assert (length = 1)
    pure stream
  | .Ipv4OptionNop =>
    assert (type = IPOPTION_NO_OPTION)
    assert (length = 1)
    pure stream
  | .Ipv4OptionStreamId streamId =>
    assert (type = IPOPTION_STREAM_ID)
    assert (length = 4)
    pure (stream.writeUint16Be streamId)
  | .Ipv4OptionTimestamp flag overflow nextIdx recordAddress recordTimestamp =>
    assert (type = IPOPTION_TIMESTAMP)
    assert (length = 4 + flag.bytes * recordTimestamp.length)
    let pointer := ofInt 8 (5 + nextIdx.toInt * flag.bytes)
    let flagbyte := ((overflow.signExtend 32 <<< 4) ||| flag.value).setWidth 8
    writeRecords (flag.bytes = 8) recordAddress recordTimestamp
      ((stream.writeByte pointer).writeByte flagbyte)
  | .Ipv4OptionRecordRoute nextAddressIdx recordAddress =>
    assert (IsRecordRoute type)
    assert (length = 3 + 4 * recordAddress.length)
    let pointer := ofInt 8 (4 + nextAddressIdx.toInt * 4)
    pure (recordAddress.foldl writeIpv4Address (stream.writeByte pointer))
  | .Ipv4OptionRouterAlert routerAlert =>
    assert (type = IPOPTION_ROUTER_ALERT)
    assert (length = 4)
    pure (stream.writeUint16Be routerAlert)

def serializeOptions (stream : MemoryOutputStream) :
    List TlvOption → Except Fault MemoryOutputStream
  | [] => .ok stream
  | option :: options => do
    let stream ← serializeOption stream option
    serializeOptions stream options

/-- The sum of the lengths of the options. -/
def optionsLength (options : List TlvOption) : ℕ :=
  (options.map fun option ↦ option.length.toNat).sum

def serialize (stream : MemoryOutputStream) (ipv4Header : Ipv4Header) :
    Except Fault MemoryOutputStream := do
  let startPosition := stream.length
  let headerLength := ipv4Header.headerLength
  assert (headerLength % 4 = 0 ∧ IPv4_MIN_HEADER_LENGTH ≤ headerLength ∧
    headerLength ≤ IPv4_MAX_HEADER_LENGTH)
  assert (headerLength ≤ ipv4Header.totalLengthField)
  assert (ipv4Header.fragmentOffset &&& 7 = 0)
  let ip_off := (ipv4Header.fragmentOffset / 8) &&& IP_OFFMASK
  let ip_off := if ipv4Header.reservedBit then ip_off ||| IP_RF else ip_off
  let ip_off := if ipv4Header.moreFragments then ip_off ||| IP_MF else ip_off
  let ip_off := if ipv4Header.dontFragment then ip_off ||| IP_DF else ip_off
  assert (ipv4Header.crcMode = .CRC_COMPUTED)
  let iphdr : ip :=
    { ip_v := ipv4Header.version.setWidth 4
      ip_hl := BitVec.ofNat 4 (headerLength / 4)
      ip_tos := ipv4Header.typeOfService.setWidth 8
      ip_len := BitVec.ofNat 16 ipv4Header.totalLengthField
      ip_id := ipv4Header.identification
      ip_off := ip_off
      ip_ttl := ipv4Header.timeToLive.setWidth 8
      ip_p := ipv4Header.protocolId.setWidth 8
      ip_sum := ipv4Header.crc
      ip_src := ipv4Header.srcAddress
      ip_dst := ipv4Header.destAddress }
  let stream ← stream.writeBytes iphdr.image
  if headerLength > IPv4_MIN_HEADER_LENGTH then do
    let stream ← serializeOptions stream ipv4Header.options
    assert (IPv4_MIN_HEADER_LENGTH + optionsLength ipv4Header.options ≤ headerLength)
    let writtenLength := (stream.length - startPosition) / 8
    pure (stream.writeByteRepeatedly (IPOPTION_END_OF_OPTIONS.setWidth 8)
      (headerLength - writtenLength))
  else pure stream

/-! ## Reading -/

variable (stream : MemoryInputStream)

/-- One entry of a timestamp option with its address. -/
def readRecord : Except Fault ((Ipv4Address × SimTime) × MemoryInputStream) := do
  let (address, stream) ← stream.readIpv4Address
  let (millis, stream) ← stream.readUint32Be
  pure ((address, ofMillis millis.toNat), stream)

/-- A loop that reads `count` items. -/
def readItems {α : Type} (read : MemoryInputStream → Except Fault (α × MemoryInputStream)) :
    ℕ → MemoryInputStream → Except Fault (List α × MemoryInputStream)
  | 0, stream => .ok ([], stream)
  | count + 1, stream => do
    let (item, stream) ← read stream
    let (items, stream) ← readItems read count stream
    pure (item :: items, stream)

/-- The end of `deserializeOption`: the option is read again, as a raw one. -/
def deserializeRaw (position : ℕ) : Except Fault (TlvOption × MemoryInputStream) := do
  let stream ← stream.seek position
  let (type, stream) ← stream.readByte
  let (length, stream) ← stream.readByte
  let (bytes, stream) ← stream.readBytewise (length.toNat - 2)
  pure (⟨type.setWidth 16, length.setWidth 16, .TlvOptionRaw bytes⟩, stream)

/-- The flag with a given value in the lower half of the flag byte. -/
def flagOfValue (value : BitVec 8) : Option TimestampFlag :=
  if value = 0 then some .IP_TIMESTAMP_TIMESTAMP_ONLY
  else if value = 1 then some .IP_TIMESTAMP_WITH_ADDRESS
  else if value = 3 then some .IP_TIMESTAMP_SENDER_INIT_ADDRESS
  else none

def deserializeTimestamp (position : ℕ) : Except Fault (TlvOption × MemoryInputStream) := do
  let (length, stream) ← stream.readByte
  let (pointer, stream) ← stream.readByte
  let (flagbyte, stream) ← stream.readByte
  let overflow := flagbyte >>> 4
  match flagOfValue (flagbyte &&& 0x0f) with
  | none => deserializeRaw stream position
  | some flag =>
    if length.toNat > 4 ∧ (length.toNat - 4) % flag.bytes = 0 ∧ pointer.toNat ≥ 5 ∧
        (pointer.toNat - 5) % flag.bytes = 0 then do
      let size := (length.toNat - 4) / flag.bytes
      let nextIdx := BitVec.ofNat 16 ((pointer.toNat - 5) / flag.bytes)
      -- The loop runs over the addresses, of which there are none without an address in the entry.
      let recordAddressArraySize := if flag.bytes = 8 then size else 0
      let (records, stream) ← readItems readRecord recordAddressArraySize stream
      let recordTimestamp := records.map snd ++ replicate (size - records.length) 0
      pure (⟨IPOPTION_TIMESTAMP, length.setWidth 16,
        .Ipv4OptionTimestamp flag (overflow.setWidth 16) nextIdx (records.map fst)
          recordTimestamp⟩, stream)
    else deserializeRaw stream position

def deserializeRecordRoute (stream : MemoryInputStream) (position : ℕ) :
    Except Fault (TlvOption × MemoryInputStream) := do
  let (length, stream) ← stream.readByte
  let (pointer, stream) ← stream.readByte
  if length.toNat > 3 ∧ length.toNat % 4 = 3 ∧ pointer.toNat ≥ 4 ∧ pointer.toNat % 4 = 0 then do
    let nextAddressIdx := BitVec.ofNat 16 ((pointer.toNat - 4) / 4)
    let (recordAddress, stream) ←
      readItems readIpv4Address ((length.toNat - 3) / 4) stream
    pure (⟨type, length.setWidth 16, .Ipv4OptionRecordRoute nextAddressIdx recordAddress⟩, stream)
  else deserializeRaw stream position

/-- The options that hold one value of 16 bits. -/
def deserializeUint16Option (content : BitVec 16 → TlvOptionClass)
    (stream : MemoryInputStream) (position : ℕ) : Except Fault (TlvOption × MemoryInputStream) := do
  let (length, stream) ← stream.readByte
  if length = 4 then do
    let (value, stream) ← stream.readUint16Be
    pure (⟨type, 4, content value⟩, stream)
  else deserializeRaw stream position

/-- The switch of `deserializeOption`, after the type is read. -/
def deserializeContent (stream : MemoryInputStream) (position : ℕ) :
    Except Fault (TlvOption × MemoryInputStream) :=
  if type = IPOPTION_END_OF_OPTIONS then pure (⟨type, 1, .Ipv4OptionEnd⟩, stream)
  else if type = IPOPTION_NO_OPTION then pure (⟨type, 1, .Ipv4OptionNop⟩, stream)
  else if type = IPOPTION_STREAM_ID then
    deserializeUint16Option type .Ipv4OptionStreamId stream position
  else if type = IPOPTION_TIMESTAMP then deserializeTimestamp stream position
  else if IsRecordRoute type then deserializeRecordRoute type stream position
  else if type = IPOPTION_ROUTER_ALERT then
    deserializeUint16Option type .Ipv4OptionRouterAlert stream position
  else do
    let (_, stream) ← stream.readByte
    deserializeRaw stream position

def deserializeOption : Except Fault (TlvOption × MemoryInputStream) := do
  let position := stream.position
  let (byte, stream) ← stream.readByte
  deserializeContent (byte.setWidth 16) stream position

/-- The loop over the options, up to the bit at `stop`.  Each round reads at least one byte, and
`fuel` bytes are left up to `stop`. -/
def deserializeOptions (stop : ℕ) : ℕ → MemoryInputStream →
    Except Fault (List TlvOption × MemoryInputStream)
  | 0, stream =>
    if stream.getRemainingLength > 0 ∧ stream.position < stop then .error .notReturned
    else .ok ([], stream)
  | fuel + 1, stream =>
    if stream.getRemainingLength > 0 ∧ stream.position < stop then do
      let (option, stream) ← deserializeOption stream
      let (options, stream) ← deserializeOptions stop fuel stream
      pure (option :: options, stream)
    else .ok ([], stream)

/-- The header that `deserialize` returns, with the marks of the chunk. -/
structure Deserialized where
  header : Ipv4Header
  incorrect : Bool
  incomplete : Bool
  stream : MemoryInputStream

def deserialize : Except Fault Deserialized := do
  let position := stream.position
  let bufsize := stream.getRemainingLength
  let (buffer, stream) ← stream.readBytes IPv4_MIN_HEADER_LENGTH
  let iphdr ← ip.ofImage buffer
  let totalLength := iphdr.ip_len.toNat
  let short := decide (iphdr.ip_hl.toNat * 4 < IPv4_MIN_HEADER_LENGTH)
  let headerLength := if short then IPv4_MIN_HEADER_LENGTH else iphdr.ip_hl.toNat * 4
  let (options, stream) ←
    if headerLength > IPv4_MIN_HEADER_LENGTH then
      deserializeOptions (position + 8 * headerLength) headerLength stream
    else pure ([], stream)
  pure
    { header :=
        { version := iphdr.ip_v.setWidth 16
          headerLength := headerLength
          typeOfService := iphdr.ip_tos.setWidth 16
          totalLengthField := totalLength
          identification := iphdr.ip_id
          reservedBit := iphdr.ip_off &&& IP_RF ≠ 0
          moreFragments := iphdr.ip_off &&& IP_MF ≠ 0
          dontFragment := iphdr.ip_off &&& IP_DF ≠ 0
          fragmentOffset := (iphdr.ip_off &&& IP_OFFMASK) * 8
          timeToLive := iphdr.ip_ttl.setWidth 16
          protocolId := iphdr.ip_p.setWidth 32
          crc := iphdr.ip_sum
          crcMode := .CRC_COMPUTED
          srcAddress := iphdr.ip_src
          destAddress := iphdr.ip_dst
          options := options }
      incorrect := iphdr.ip_v ≠ 4 ∨ short ∨ totalLength < headerLength
      incomplete := bufsize < 8 * headerLength
      stream := stream }

/-! ## The bytes of an option -/

/-- The types that have a class of their own. -/
def knownTypes : List (BitVec 16) :=
  [IPOPTION_END_OF_OPTIONS, IPOPTION_NO_OPTION, IPOPTION_RECORD_ROUTE, IPOPTION_TIMESTAMP,
    IPOPTION_LOOSE_SOURCE_ROUTING, IPOPTION_STREAM_ID, IPOPTION_STRICT_SOURCE_ROUTING,
    IPOPTION_ROUTER_ALERT]

/-- The options other than the end of the options, with the type and the length of their class and
values within their widths: the pointers fit a byte, and the timestamps are whole milliseconds. -/
def WellFormed (option : TlvOption) : Prop :=
  match option.content with
  | .Ipv4OptionEnd => False
  | .Ipv4OptionNop => option.type = IPOPTION_NO_OPTION ∧ option.length = 1
  | .Ipv4OptionStreamId _ => option.type = IPOPTION_STREAM_ID ∧ option.length = 4
  | .Ipv4OptionTimestamp flag overflow nextIdx recordAddress recordTimestamp =>
    option.type = IPOPTION_TIMESTAMP ∧
      option.length.toNat = 4 + flag.bytes * recordTimestamp.length ∧
      recordAddress.length = (if flag.bytes = 8 then recordTimestamp.length else 0) ∧
      overflow.toNat < 2 ^ 4 ∧ 5 + flag.bytes * nextIdx.toNat < 2 ^ 8 ∧
      ∀ t ∈ recordTimestamp, ∃ millis : BitVec 32, t = ofMillis millis.toNat
  | .Ipv4OptionRecordRoute nextAddressIdx recordAddress =>
    IsRecordRoute option.type ∧ option.length.toNat = 3 + 4 * recordAddress.length ∧
      recordAddress ≠ [] ∧ 4 + 4 * nextAddressIdx.toNat < 2 ^ 8
  | .Ipv4OptionRouterAlert _ => option.type = IPOPTION_ROUTER_ALERT ∧ option.length = 4
  | .TlvOptionRaw bytes =>
    option.type.toNat < 2 ^ 8 ∧ option.type ∉ knownTypes ∧ option.length.toNat = 2 + bytes.length

def recordBytes (record : Ipv4Address × SimTime) : List (BitVec 8) :=
  bytesAt [24, 16, 8, 0] record.1 ++ bytesAt [24, 16, 8, 0] (inMillis record.2)

/-- The bytes of the entries of a timestamp option. -/
def recordsBytes (flag : TimestampFlag) (recordAddress : List Ipv4Address)
    (recordTimestamp : List SimTime) : List (BitVec 8) :=
  if flag.bytes = 8 then (recordAddress.zip recordTimestamp).flatMap recordBytes
  else recordTimestamp.flatMap fun t ↦ bytesAt [24, 16, 8, 0] (inMillis t)

/-- The pointer and the flags of a timestamp option. -/
def timestampFront (flag : TimestampFlag) (overflow nextIdx : BitVec 16) : List (BitVec 8) :=
  [ofInt 8 (5 + nextIdx.toInt * flag.bytes),
    ((overflow.signExtend 32 <<< 4) ||| flag.value).setWidth 8]

/-- What follows the type and the length of an option. -/
def contentBytes : TlvOptionClass → List (BitVec 8)
  | .Ipv4OptionStreamId streamId => bytesAt [8, 0] streamId
  | .Ipv4OptionTimestamp flag overflow nextIdx recordAddress recordTimestamp =>
    timestampFront flag overflow nextIdx ++ recordsBytes flag recordAddress recordTimestamp
  | .Ipv4OptionRecordRoute nextAddressIdx recordAddress =>
    [ofInt 8 (4 + nextAddressIdx.toInt * 4)] ++
      recordAddress.flatMap fun address ↦ bytesAt [24, 16, 8, 0] address
  | .Ipv4OptionRouterAlert routerAlert => bytesAt [8, 0] routerAlert
  | .TlvOptionRaw bytes => bytes
  | _ => []

/-- The bytes of an option. -/
def optionBytes (option : TlvOption) : List (BitVec 8) :=
  [option.type.setWidth 8] ++
    ((if option.length.toNat > 1 then [option.length.setWidth 8] else []) ++
      contentBytes option.content)

variable {option : TlvOption} {bytes : List (BitVec 8)} {stream}
  {flag : TimestampFlag} {recordAddress : List Ipv4Address} {recordTimestamp : List SimTime}

theorem length_flatMap_of_forall {α β : Type} {items : List α} {f : α → List β} {n : ℕ}
    (h : ∀ item, (f item).length = n) : (items.flatMap f).length = n * items.length := by
  induction items with
  | nil => rfl
  | cons item items ih =>
    rw [flatMap_cons, length_append, h, ih, length_cons, Nat.mul_succ, Nat.add_comm]

theorem length_recordsBytes
    (haddresses : recordAddress.length = (if flag.bytes = 8 then recordTimestamp.length else 0)) :
    (recordsBytes flag recordAddress recordTimestamp).length =
      flag.bytes * recordTimestamp.length := by
  unfold recordsBytes
  by_cases hbytes : flag.bytes = 8
  · rw [if_pos hbytes] at haddresses ⊢
    have hrecord : ∀ record, (recordBytes record).length = 8 := fun _ ↦ rfl
    rw [length_flatMap_of_forall hrecord, length_zip, haddresses, Nat.min_self, hbytes]
  · have hfour : flag.bytes = 4 := by
      cases flag
      · rfl
      · exact absurd rfl hbytes
      · exact absurd rfl hbytes
    have hentry : ∀ t, (bytesAt [24, 16, 8, 0] (inMillis t)).length = 4 := fun _ ↦ rfl
    rw [if_neg hbytes, length_flatMap_of_forall hentry, hfour]

theorem length_optionBytes (h : WellFormed option) :
    (optionBytes option).length = option.length.toNat := by
  obtain ⟨type, length, content⟩ := option
  cases content with
  | Ipv4OptionEnd => exact h.elim
  | Ipv4OptionNop | Ipv4OptionStreamId streamId | Ipv4OptionRouterAlert routerAlert =>
    obtain ⟨-, rfl⟩ := h
    rfl
  | Ipv4OptionTimestamp flag overflow nextIdx recordAddress recordTimestamp =>
    obtain ⟨-, hlength, haddresses, -⟩ := h
    change length.toNat = _ at hlength
    have hlong : length.toNat > 1 := by omega
    have hfront : (timestampFront flag overflow nextIdx).length = 2 := rfl
    simp only [optionBytes, if_pos hlong, contentBytes, length_append, length_singleton,
      length_recordsBytes haddresses, hfront]
    omega
  | Ipv4OptionRecordRoute nextAddressIdx recordAddress =>
    obtain ⟨-, hlength, -⟩ := h
    change length.toNat = _ at hlength
    have hlong : length.toNat > 1 := by omega
    have haddresses : (recordAddress.flatMap fun address ↦ bytesAt [24, 16, 8, 0] address).length =
        4 * recordAddress.length :=
      length_flatMap_of_forall fun _ ↦ rfl
    simp only [optionBytes, if_pos hlong, contentBytes, length_append, length_singleton,
      haddresses]
    omega
  | TlvOptionRaw bytes =>
    obtain ⟨-, -, hlength⟩ := h
    change length.toNat = _ at hlength
    have hlong : length.toNat > 1 := by omega
    simp only [optionBytes, if_pos hlong, contentBytes, length_append, length_singleton]
    omega

/-! ## Options are written -/

theorem writeRecords_eq
    (haddresses : recordAddress.length = (if flag.bytes = 8 then recordTimestamp.length else 0))
    (stream : MemoryOutputStream) :
    writeRecords (flag.bytes = 8) recordAddress recordTimestamp stream =
      .ok (stream.append (recordsBytes flag recordAddress recordTimestamp)) := by
  by_cases hbytes : flag.bytes = 8
  · simp only [recordsBytes, hbytes, if_true, decide_true] at haddresses ⊢
    induction recordTimestamp generalizing recordAddress stream with
    | nil =>
      rw [zip_nil_right]
      rfl
    | cons t recordTimestamp ih =>
      cases recordAddress with
      | nil => exact absurd haddresses (by simp)
      | cons address recordAddress =>
        rw [writeRecords, if_pos rfl]
        simp only [MemoryOutputStream.writeIpv4Address_eq_append,
          writeUint32Be_eq_append, append_append]
        rw [ih _ (Nat.succ.inj haddresses), append_append, zip_cons_cons,
          flatMap_cons, recordBytes]
  · simp only [recordsBytes, hbytes, if_false, decide_false] at haddresses ⊢
    obtain rfl := eq_nil_of_length_eq_zero haddresses
    induction recordTimestamp generalizing stream with
    | nil => rfl
    | cons t recordTimestamp ih =>
      rw [writeRecords, if_neg Bool.false_ne_true, ih,
        writeUint32Be_eq_append, append_append,
        flatMap_cons]

theorem serializeOption_eq (h : WellFormed option) (stream : MemoryOutputStream) :
    serializeOption stream option = .ok (stream.append (optionBytes option)) := by
  have hfront : (if option.length.toNat > 1 then
        (stream.writeByte (option.type.setWidth 8)).writeByte (option.length.setWidth 8)
      else stream.writeByte (option.type.setWidth 8)) =
      stream.append ([option.type.setWidth 8] ++
        (if option.length.toNat > 1 then [option.length.setWidth 8] else [])) := by
    split <;> simp
  obtain ⟨type, length, content⟩ := option
  simp only [serializeOption, hfront, optionBytes]
  cases content with
  | Ipv4OptionEnd => exact h.elim
  | Ipv4OptionNop | Ipv4OptionStreamId streamId | Ipv4OptionRouterAlert routerAlert =>
    obtain ⟨rfl, rfl⟩ := h
    rfl
  | Ipv4OptionTimestamp flag overflow nextIdx recordAddress recordTimestamp =>
    obtain ⟨rfl, hlength, haddresses, -⟩ := h
    have hassert : assert (length.toNat = 4 + flag.bytes * recordTimestamp.length) = .ok () :=
      if_pos hlength
    apply (bind_of_ok (if_pos rfl)).trans
    apply (bind_of_ok hassert).trans
    simp only [writeByte_eq_append, append_append]
    rw [writeRecords_eq haddresses, append_append]
    simp only [contentBytes, timestampFront, append_assoc]
    rfl
  | Ipv4OptionRecordRoute nextAddressIdx recordAddress =>
    obtain ⟨hroute, hlength, -⟩ := h
    have hassert : assert (length.toNat = 3 + 4 * recordAddress.length) = .ok () := if_pos hlength
    have hroute' : assert (IsRecordRoute type) = .ok () := if_pos hroute
    have haddresses : ∀ stream : MemoryOutputStream,
        recordAddress.foldl writeIpv4Address stream =
          stream.append (recordAddress.flatMap fun address ↦ bytesAt [24, 16, 8, 0] address) :=
      foldl_append_eq _ recordAddress
    apply (bind_of_ok hroute').trans
    apply (bind_of_ok hassert).trans
    simp only [haddresses, writeByte_eq_append, append_append,
      contentBytes, append_assoc]
    rfl
  | TlvOptionRaw bytes =>
    obtain ⟨-, -, hlength⟩ := h
    have hbytes : ∀ stream : MemoryOutputStream,
        bytes.foldl writeByte stream = stream.append bytes := fun _ ↦ rfl
    simp only [assert, hlength, if_true, hbytes, append_append,
      append_assoc]
    rfl

/-! ## Options are read -/

theorem readItems_eq {α : Type} {read : MemoryInputStream → Except Fault (α × MemoryInputStream)}
    {itemBytes : α → List (BitVec 8)} {items : List α}
    (hread : ∀ item ∈ items, ∀ (stream : MemoryInputStream) (rest : List (BitVec 8)),
      stream.Upcoming (itemBytes item ++ rest) →
        read stream = .ok (item, stream.advance (8 * (itemBytes item).length)))
    (h : stream.Upcoming (items.flatMap itemBytes ++ bytes)) :
    readItems read items.length stream =
      .ok (items, stream.advance (8 * (items.flatMap itemBytes).length)) := by
  induction items generalizing stream with
  | nil => rfl
  | cons item items ih =>
    have h' : stream.Upcoming (itemBytes item ++ (items.flatMap itemBytes ++ bytes)) := by
      rw [← append_assoc, ← flatMap_cons]
      exact h
    have hhead := hread item mem_cons_self stream _ h'
    have hrest := ih (fun item' hmem ↦ hread item' (mem_cons_of_mem _ hmem)) h'.advance
    rw [length_cons, readItems, bind_of_ok hhead, flatMap_cons, length_append,
      Nat.mul_add, ← advance_advance]
    exact bind_of_ok hrest

theorem inMillis_ofMillis (millis : BitVec 32) : inMillis (ofMillis millis.toNat) = millis := by
  have hdiv : (ofMillis millis.toNat).tdiv 1000000000 = (millis.toNat : ℤ) := by
    rw [ofMillis, Int.mul_tdiv_cancel _ (by decide)]
  rw [inMillis, hdiv, BitVec.ofInt_natCast, ofNat_toNat, setWidth_eq]

theorem readRecord_eq {record : Ipv4Address × SimTime}
    (hmillis : ∃ millis : BitVec 32, record.2 = ofMillis millis.toNat)
    (h : stream.Upcoming (recordBytes record ++ bytes)) :
    readRecord stream = .ok (record, stream.advance 64) := by
  obtain ⟨address, t⟩ := record
  obtain ⟨millis, rfl⟩ := hmillis
  have haddress : stream.Upcoming (bytesAt [24, 16, 8, 0] address ++
      (bytesAt [24, 16, 8, 0] millis ++ bytes)) := by
    rw [← append_assoc]
    simpa only [recordBytes, inMillis_ofMillis] using h
  have hthen : (stream.advance 32).Upcoming (bytesAt [24, 16, 8, 0] millis ++ bytes) :=
    haddress.advance
  have hvalue : (stream.advance 32).readUint32Be = .ok (millis, stream.advance 64) := by
    rw [hthen.readUint32Be, advance_advance]
  rw [readRecord, bind_of_ok haddress.readIpv4Address]
  simp only [bind_of_ok hvalue]
  rfl

theorem flagbyte_eq {overflow : BitVec 16} (hoverflow : overflow.toNat < 2 ^ 4)
    (flag : TimestampFlag) :
    flagOfValue (((overflow.signExtend 32 <<< 4) ||| flag.value).setWidth 8 &&& 0x0f) = some flag ∧
      ((((overflow.signExtend 32 <<< 4) ||| flag.value).setWidth 8) >>> 4).setWidth 16 =
        overflow := by
  have hall : ∀ o < 16,
      (flagOfValue ((((BitVec.ofNat 16 o).signExtend 32 <<< 4) ||| flag.value).setWidth 8 &&&
        0x0f) =
        some flag) ∧
      (((((BitVec.ofNat 16 o).signExtend 32 <<< 4) ||| flag.value).setWidth 8) >>> 4).setWidth 16 =
        BitVec.ofNat 16 o := by
    cases flag <;> decide
  have heq : BitVec.ofNat 16 overflow.toNat = overflow := by
    rw [ofNat_toNat, setWidth_eq]
  have h := hall overflow.toNat hoverflow
  rwa [heq] at h

theorem bytes_pos (flag : TimestampFlag) : 0 < flag.bytes := by
  cases flag <;> decide

/-- The pointer of an option leads back to the index. -/
theorem pointer_eq {base width : ℕ} {index : BitVec 16} (hwidth : 0 < width)
    (hpointer : base + width * index.toNat < 2 ^ 8) :
    (ofInt 8 (base + index.toInt * width)).toNat = base + width * index.toNat ∧
      BitVec.ofNat 16 (((base + width * index.toNat) - base) / width) = index := by
  have hindex : index.toNat ≤ width * index.toNat := Nat.le_mul_of_pos_left _ hwidth
  have hint : index.toInt = index.toNat := by
    rw [BitVec.toInt_eq_toNat_cond, if_pos (by omega)]
  have hsum : (base : ℤ) + index.toInt * width = ((base + width * index.toNat : ℕ) : ℤ) := by
    rw [hint]
    push_cast
    ring
  constructor
  · rw [hsum, BitVec.ofInt_natCast, toNat_ofNat, Nat.mod_eq_of_lt hpointer]
  · rw [Nat.add_sub_cancel_left, Nat.mul_div_cancel_left _ hwidth, ofNat_toNat,
      setWidth_eq]

theorem deserializeOption_of_type {type : BitVec 16} (htype : type.toNat < 2 ^ 8)
    (h : stream.Upcoming (type.setWidth 8 :: bytes)) :
    deserializeOption stream = deserializeContent type (stream.advance 8) stream.position := by
  have hback : (type.setWidth 8).setWidth 16 = type := setWidth_setWidth_of_lt htype
  rw [deserializeOption, bind_of_ok h.readByte]
  simp only [hback]

theorem seek_back (h : stream.Upcoming bytes) (n : ℕ) :
    (stream.advance n).seek stream.position = .ok stream := by
  exact bind_of_ok (if_pos h.position_le)

theorem deserializeRaw_eq {type length : BitVec 8} {content : List (BitVec 8)}
    (hlength : length.toNat = 2 + content.length)
    (h : stream.Upcoming (type :: length :: (content ++ bytes))) (n : ℕ) :
    deserializeRaw (stream.advance n) stream.position =
      .ok (⟨type.setWidth 16, length.setWidth 16, .TlvOptionRaw content⟩,
        stream.advance (8 * length.toNat)) := by
  have hsecond : (stream.advance 8).readByte = .ok (length, stream.advance 16) := h.readByte_second
  have hnext := h.advance_two
  have hcount : length.toNat - 2 = content.length := by omega
  have hsum : 8 + 8 + 8 * content.length = 8 * length.toNat := by omega
  have hbytes : (stream.advance 16).readBytewise (length.toNat - 2) =
      .ok (content, stream.advance (8 * length.toNat)) := by
    rw [hcount, hnext.readBytewise, advance_advance, hsum]
  rw [deserializeRaw, bind_of_ok (seek_back h n), bind_of_ok h.readByte]
  simp only [bind_of_ok hsecond]
  exact bind_of_ok hbytes

theorem deserializeUint16Option_eq {type value : BitVec 16} {content : BitVec 16 → TlvOptionClass}
    (h : stream.Upcoming (4#8 :: (bytesAt [8, 0] value ++ bytes))) (position : ℕ) :
    deserializeUint16Option type content stream position =
      .ok (⟨type, 4, content value⟩, stream.advance 24) := by
  have hvalue : (stream.advance 8).readUint16Be = .ok (value, stream.advance 24) := by
    rw [h.advance_one.readUint16Be, advance_advance]
  rw [deserializeUint16Option, bind_of_ok h.readByte]
  simp only [bind_of_ok hvalue]
  rfl

theorem deserializeRecordRoute_eq {type length nextAddressIdx : BitVec 16}
    (hlength : length.toNat = 3 + 4 * recordAddress.length) (hsmall : length.toNat < 2 ^ 8)
    (hne : recordAddress ≠ []) (hpointer : 4 + 4 * nextAddressIdx.toNat < 2 ^ 8)
    (h : stream.Upcoming (length.setWidth 8 :: ofInt 8 (4 + nextAddressIdx.toInt * 4) ::
      ((recordAddress.flatMap fun address ↦ bytesAt [24, 16, 8, 0] address) ++ bytes)))
    (position : ℕ) :
    deserializeRecordRoute type stream position =
      .ok (⟨type, length, .Ipv4OptionRecordRoute nextAddressIdx recordAddress⟩,
        stream.advance (8 * (length.toNat - 1))) := by
  have hpos : 0 < recordAddress.length := length_pos_iff.mpr hne
  have hbyte := toNat_setWidth_of_lt hsmall
  have hback : (length.setWidth 8).setWidth 16 = length := setWidth_setWidth_of_lt hsmall
  obtain ⟨hvalue, hindex⟩ := pointer_eq (Nat.succ_pos 3) hpointer
  have hsecond : (stream.advance 8).readByte =
      .ok (ofInt 8 (4 + nextAddressIdx.toInt * 4), stream.advance 16) := h.readByte_second
  have hnext := h.advance_two
  have hcount : ((length.setWidth 8).toNat - 3) / 4 = recordAddress.length := by omega
  have hitems : readItems readIpv4Address (((length.setWidth 8).toNat - 3) / 4)
      (stream.advance 16) = .ok (recordAddress, stream.advance (8 * (length.toNat - 1))) := by
    have hread : readItems readIpv4Address recordAddress.length
        (stream.advance 16) = _ :=
      readItems_eq (fun address _ stream rest hup ↦ hup.readIpv4Address) hnext
    have hfour : ∀ address : Ipv4Address, (bytesAt [24, 16, 8, 0] address).length = 4 :=
      fun _ ↦ rfl
    have hsum : 8 + 8 + 8 * (4 * recordAddress.length) = 8 * (length.toNat - 1) := by omega
    rw [hcount, hread, length_flatMap_of_forall hfour, advance_advance, hsum]
  have hguard : (length.setWidth 8).toNat > 3 ∧ (length.setWidth 8).toNat % 4 = 3 ∧
      (ofInt 8 (4 + nextAddressIdx.toInt * 4)).toNat ≥ 4 ∧
      (ofInt 8 (4 + nextAddressIdx.toInt * 4)).toNat % 4 = 0 := by
    push_cast at hvalue
    omega
  have hpointerIndex : BitVec.ofNat 16
      (((ofInt 8 (4 + nextAddressIdx.toInt * 4)).toNat - 4) / 4) = nextAddressIdx := by
    push_cast at hvalue
    rw [hvalue]
    exact hindex
  rw [deserializeRecordRoute, bind_of_ok h.readByte]
  simp only [bind_of_ok hsecond, if_pos hguard, bind_of_ok hitems, hback, hpointerIndex]
  rfl

variable {length overflow nextIdx : BitVec 16}

/-- An option with `recordTimestamp.length` entries, at least one: the reader takes the entries only
when they have addresses, and otherwise leaves that many zeros. -/
theorem deserializeTimestamp_eq (hlength : length.toNat = 4 + flag.bytes * recordTimestamp.length)
    (hsmall : length.toNat < 2 ^ 8) (hne : recordTimestamp ≠ [])
    (hoverflow : overflow.toNat < 2 ^ 4)
    (hpointer : 5 + flag.bytes * nextIdx.toNat < 2 ^ 8)
    (h : stream.Upcoming (length.setWidth 8 :: (timestampFront flag overflow nextIdx ++ bytes)))
    (position : ℕ) :
    deserializeTimestamp stream position = (do
      let (records, stream) ← readItems readRecord
        (if flag.bytes = 8 then recordTimestamp.length else 0) (stream.advance 24)
      pure (⟨IPOPTION_TIMESTAMP, length,
        .Ipv4OptionTimestamp flag overflow nextIdx (records.map fst)
          (records.map snd ++
            replicate (recordTimestamp.length - records.length) 0)⟩, stream)) := by
  have hwidth := bytes_pos flag
  have hpos : 0 < recordTimestamp.length := length_pos_iff.mpr hne
  have hmul : 0 < flag.bytes * recordTimestamp.length := Nat.mul_pos hwidth hpos
  have hbyte := toNat_setWidth_of_lt hsmall
  have hback : (length.setWidth 8).setWidth 16 = length := setWidth_setWidth_of_lt hsmall
  obtain ⟨hflag, hover⟩ := flagbyte_eq hoverflow flag
  obtain ⟨hvalue, hindex⟩ := pointer_eq hwidth hpointer
  push_cast at hvalue
  have hsub : (length.setWidth 8).toNat - 4 = flag.bytes * recordTimestamp.length := by omega
  have hsize : ((length.setWidth 8).toNat - 4) / flag.bytes = recordTimestamp.length := by
    rw [hsub, Nat.mul_div_cancel_left _ hwidth]
  have hsecond : (stream.advance 8).readByte =
      .ok (ofInt 8 (5 + nextIdx.toInt * flag.bytes), stream.advance 16) := h.readByte_second
  have hthird : (stream.advance 16).readByte =
      .ok (((overflow.signExtend 32 <<< 4) ||| flag.value).setWidth 8, stream.advance 24) := by
    have hnext := h.advance_two
    rw [hnext.readByte, advance_advance]
  have hguard : (length.setWidth 8).toNat > 4 ∧
      ((length.setWidth 8).toNat - 4) % flag.bytes = 0 ∧
      (ofInt 8 (5 + nextIdx.toInt * flag.bytes)).toNat ≥ 5 ∧
      ((ofInt 8 (5 + nextIdx.toInt * flag.bytes)).toNat - 5) % flag.bytes = 0 := by
    refine ⟨by omega, ?_, by omega, ?_⟩
    · rw [hsub, Nat.mul_mod_right]
    · rw [hvalue, Nat.add_sub_cancel_left, Nat.mul_mod_right]
  have hpointerIndex : BitVec.ofNat 16
      (((ofInt 8 (5 + nextIdx.toInt * flag.bytes)).toNat - 5) / flag.bytes) = nextIdx := by
    rw [hvalue]
    exact hindex
  rw [deserializeTimestamp, bind_of_ok h.readByte]
  simp only [bind_of_ok hsecond, bind_of_ok hthird, hflag, if_pos hguard, hback, hover, hsize,
    hpointerIndex]

/-- The end-of-options option. -/
def endOption : TlvOption := ⟨IPOPTION_END_OF_OPTIONS, 1, .Ipv4OptionEnd⟩

theorem deserializeOption_end (h : stream.Upcoming (0#8 :: bytes)) :
    deserializeOption stream = .ok (endOption, stream.advance 8) := by
  rw [deserializeOption, bind_of_ok h.readByte]
  rfl

/-- An option after its type and its length. -/
theorem upcoming_optionBytes (hlong : option.length.toNat > 1)
    (h : stream.Upcoming (optionBytes option ++ bytes)) :
    stream.Upcoming (option.type.setWidth 8 :: option.length.setWidth 8 ::
      (contentBytes option.content ++ bytes)) := by
  simp only [optionBytes, if_pos hlong] at h
  exact h

/-- Every option but a timestamp option is read as it was written, and so is a timestamp option
with entries that have addresses. -/
def ReadsBack (option : TlvOption) : Prop :=
  match option.content with
  | .Ipv4OptionTimestamp flag _ _ _ recordTimestamp =>
    recordTimestamp ≠ [] ∧ flag ≠ .IP_TIMESTAMP_TIMESTAMP_ONLY
  | _ => True

theorem deserializeOption_timestamp (h : WellFormed ⟨IPOPTION_TIMESTAMP, length,
      .Ipv4OptionTimestamp flag overflow nextIdx recordAddress recordTimestamp⟩)
    (hsmall : length.toNat < 2 ^ 8) (hne : recordTimestamp ≠ [])
    (hup : stream.Upcoming (optionBytes ⟨IPOPTION_TIMESTAMP, length,
      .Ipv4OptionTimestamp flag overflow nextIdx recordAddress recordTimestamp⟩ ++ bytes)) :
    deserializeOption stream = (do
      let (records, stream) ← readItems readRecord
        (if flag.bytes = 8 then recordTimestamp.length else 0) (stream.advance 32)
      pure (⟨IPOPTION_TIMESTAMP, length,
        .Ipv4OptionTimestamp flag overflow nextIdx (records.map fst)
          (records.map snd ++
            replicate (recordTimestamp.length - records.length) 0)⟩, stream)) ∧
      (stream.advance 32).Upcoming (recordsBytes flag recordAddress recordTimestamp ++ bytes) := by
  obtain ⟨-, hlength, haddresses, hoverflow, hpointer, hmillis⟩ := h
  change length.toNat = _ at hlength
  have hlong : length.toNat > 1 := by omega
  have hfront : stream.Upcoming (IPOPTION_TIMESTAMP.setWidth 8 :: length.setWidth 8 ::
      ((timestampFront flag overflow nextIdx ++ recordsBytes flag recordAddress recordTimestamp) ++
        bytes)) :=
    upcoming_optionBytes hlong hup
  rw [append_assoc] at hfront
  have hcontent := deserializeTimestamp_eq hlength hsmall hne hoverflow hpointer
    hfront.advance_one stream.position
  have hthen := hfront.advance_two
  have hrecords := hthen.advance
  rw [deserializeOption_of_type (by decide) hfront]
  exact ⟨hcontent, hrecords⟩

theorem deserializeOption_eq (h : WellFormed option) (hreads : ReadsBack option)
    (hsmall : option.length.toNat < 2 ^ 8) (hup : stream.Upcoming (optionBytes option ++ bytes)) :
    deserializeOption stream = .ok (option, stream.advance (8 * option.length.toNat)) := by
  obtain ⟨type, length, content⟩ := option
  cases content with
  | Ipv4OptionEnd => exact h.elim
  | Ipv4OptionNop =>
    obtain ⟨rfl, rfl⟩ := h
    have hfront : stream.Upcoming (1#8 :: bytes) := hup
    rw [deserializeOption, bind_of_ok hfront.readByte]
    rfl
  | Ipv4OptionStreamId streamId =>
    obtain ⟨rfl, rfl⟩ := h
    have hfront : stream.Upcoming
        (IPOPTION_STREAM_ID.setWidth 8 :: 4#8 :: (bytesAt [8, 0] streamId ++ bytes)) := hup
    rw [deserializeOption_of_type (by decide) hfront]
    exact deserializeUint16Option_eq hfront.advance_one stream.position
  | Ipv4OptionTimestamp flag overflow nextIdx recordAddress recordTimestamp =>
    obtain ⟨hne, hflag⟩ := hreads
    have hwell := h
    obtain ⟨rfl, hlength, haddresses, -, -, hmillis⟩ := h
    have hbytes : flag.bytes = 8 := if_neg hflag
    change length.toNat = _ at hlength
    rw [hbytes, if_pos rfl] at haddresses
    rw [hbytes] at hlength
    obtain ⟨hoption, hrecords⟩ := deserializeOption_timestamp hwell hsmall hne hup
    rw [recordsBytes, if_pos hbytes] at hrecords
    have hzip : (recordAddress.zip recordTimestamp).length = recordTimestamp.length := by
      rw [length_zip, haddresses, Nat.min_self]
    have hitems : readItems readRecord recordTimestamp.length (stream.advance 32) =
        .ok (recordAddress.zip recordTimestamp, stream.advance (8 * length.toNat)) := by
      have hread : readItems readRecord (recordAddress.zip recordTimestamp).length
          (stream.advance 32) = _ :=
        readItems_eq (fun record hmem stream rest hup ↦
          readRecord_eq (hmillis record.2 (of_mem_zip hmem).2) hup) hrecords
      have height : ∀ record, (recordBytes record).length = 8 := fun _ ↦ rfl
      have hsum : 32 + 8 * (8 * recordTimestamp.length) = 8 * length.toNat := by omega
      rw [hzip, length_flatMap_of_forall height, hzip, advance_advance,
        hsum] at hread
      exact hread
    have hfst : (recordAddress.zip recordTimestamp).map fst = recordAddress :=
      map_fst_zip (Nat.le_of_eq haddresses)
    have hsnd : (recordAddress.zip recordTimestamp).map snd = recordTimestamp :=
      map_snd_zip (Nat.le_of_eq haddresses.symm)
    rw [hoption]
    simp only [if_pos hbytes, bind_of_ok hitems, hfst, hsnd, hzip, Nat.sub_self,
      replicate_zero, append_nil]
    rfl
  | Ipv4OptionRecordRoute nextAddressIdx recordAddress =>
    obtain ⟨hroute, hlength, hne, hpointer⟩ := h
    change length.toNat = _ at hlength
    have hlong : length.toNat > 1 := by omega
    have hfront := upcoming_optionBytes hlong hup
    have htype : type.toNat < 2 ^ 8 := by
      rcases hroute with rfl | rfl | rfl <;> decide
    have hdispatch : deserializeContent type (stream.advance 8) stream.position =
        deserializeRecordRoute type (stream.advance 8) stream.position := by
      rcases hroute with rfl | rfl | rfl <;> rfl
    have hcontent : deserializeRecordRoute type (stream.advance 8) stream.position = _ :=
      deserializeRecordRoute_eq hlength hsmall hne hpointer hfront.advance_one stream.position
    have hsum : 8 + 8 * (length.toNat - 1) = 8 * length.toNat := by omega
    rw [advance_advance, hsum] at hcontent
    rw [deserializeOption_of_type htype hfront, hdispatch, hcontent]
  | Ipv4OptionRouterAlert routerAlert =>
    obtain ⟨rfl, rfl⟩ := h
    have hfront : stream.Upcoming
        (IPOPTION_ROUTER_ALERT.setWidth 8 :: 4#8 :: (bytesAt [8, 0] routerAlert ++ bytes)) := hup
    rw [deserializeOption_of_type (by decide) hfront]
    exact deserializeUint16Option_eq hfront.advance_one stream.position
  | TlvOptionRaw content =>
    obtain ⟨htype, hunknown, hlength⟩ := h
    change length.toNat = _ at hlength
    have hlong : length.toNat > 1 := by omega
    have hfront := upcoming_optionBytes hlong hup
    have hbyte := toNat_setWidth_of_lt hsmall
    have hback : (length.setWidth 8).setWidth 16 = length := setWidth_setWidth_of_lt hsmall
    have htypeBack : (type.setWidth 8).setWidth 16 = type := setWidth_setWidth_of_lt htype
    have hraw := deserializeRaw_eq (hbyte.trans hlength) hfront 16
    rw [hback, htypeBack, hbyte] at hraw
    simp only [knownTypes, mem_cons, not_mem_nil, or_false, not_or] at hunknown
    obtain ⟨hend, hnop, hroute, htimestamp, hloose, hstream, hstrict, halert⟩ := hunknown
    have hnoRoute : ¬IsRecordRoute type := by
      rintro (heq | heq | heq)
      · exact hroute heq
      · exact hloose heq
      · exact hstrict heq
    rw [deserializeOption_of_type htype hfront, deserializeContent, if_neg hend, if_neg hnop,
      if_neg hstream, if_neg htimestamp, if_neg hnoRoute, if_neg halert,
      bind_of_ok hfront.advance_one.readByte]
    exact hraw

/-! ## Timestamp options that do not come back -/

/-- A timestamp option without entries is read as a raw option. -/
theorem deserializeOption_noEntries (h : WellFormed ⟨IPOPTION_TIMESTAMP, length,
      .Ipv4OptionTimestamp flag overflow nextIdx recordAddress []⟩)
    (hup : stream.Upcoming (optionBytes ⟨IPOPTION_TIMESTAMP, length,
      .Ipv4OptionTimestamp flag overflow nextIdx recordAddress []⟩ ++ bytes)) :
    deserializeOption stream =
      .ok (⟨IPOPTION_TIMESTAMP, length, .TlvOptionRaw (timestampFront flag overflow nextIdx)⟩,
        stream.advance 32) := by
  obtain ⟨-, hlength, haddresses, hoverflow, -, -⟩ := h
  have hlength' : length = 4 := BitVec.eq_of_toNat_eq hlength
  subst hlength'
  have hrecords : recordsBytes flag recordAddress [] = [] := by
    unfold recordsBytes
    rw [zip_nil_right]
    split <;> rfl
  have hfront : stream.Upcoming (IPOPTION_TIMESTAMP.setWidth 8 :: 4#8 ::
      (timestampFront flag overflow nextIdx ++ bytes)) := by
    have hlong : (4#16).toNat > 1 := by decide
    have hcontent := upcoming_optionBytes hlong hup
    simp only [contentBytes, hrecords, append_nil] at hcontent
    exact hcontent
  have hlengthByte : (stream.advance 8).readByte = .ok (4#8, stream.advance 16) :=
    hfront.readByte_second
  have hnext := hfront.advance_two
  have hpointerByte : (stream.advance 16).readByte =
      .ok (ofInt 8 (5 + nextIdx.toInt * flag.bytes), stream.advance 24) := by
    rw [hnext.readByte, advance_advance]
  have hflagByte : (stream.advance 24).readByte =
      .ok (((overflow.signExtend 32 <<< 4) ||| flag.value).setWidth 8, stream.advance 32) := by
    have hthen := hnext.advance_one
    rw [advance_advance] at hthen
    rw [hthen.readByte, advance_advance]
  obtain ⟨hflag, -⟩ := flagbyte_eq hoverflow flag
  have hraw : deserializeRaw (stream.advance 32) stream.position = _ :=
    deserializeRaw_eq (by rfl) hfront 32
  have hguard : ¬((4#8).toNat > 4 ∧ ((4#8).toNat - 4) % flag.bytes = 0 ∧
      (ofInt 8 (5 + nextIdx.toInt * flag.bytes)).toNat ≥ 5 ∧
      ((ofInt 8 (5 + nextIdx.toInt * flag.bytes)).toNat - 5) % flag.bytes = 0) := by
    rintro ⟨hlong, -⟩
    exact absurd hlong (by decide)
  have hdispatch : deserializeContent IPOPTION_TIMESTAMP (stream.advance 8) stream.position =
      deserializeTimestamp (stream.advance 8) stream.position := rfl
  rw [deserializeOption_of_type (by decide) hfront, hdispatch, deserializeTimestamp,
    bind_of_ok hlengthByte]
  simp only [bind_of_ok hpointerByte, bind_of_ok hflagByte, hflag, if_neg hguard]
  exact hraw

/-- An option with timestamps only is read with zeros for its timestamps, which are left unread. -/
theorem deserializeOption_timestampOnly
    (h : WellFormed ⟨IPOPTION_TIMESTAMP, length, .Ipv4OptionTimestamp
      .IP_TIMESTAMP_TIMESTAMP_ONLY overflow nextIdx recordAddress recordTimestamp⟩)
    (hsmall : length.toNat < 2 ^ 8) (hne : recordTimestamp ≠ [])
    (hup : stream.Upcoming (optionBytes ⟨IPOPTION_TIMESTAMP, length, .Ipv4OptionTimestamp
      .IP_TIMESTAMP_TIMESTAMP_ONLY overflow nextIdx recordAddress recordTimestamp⟩ ++ bytes)) :
    deserializeOption stream =
      .ok (⟨IPOPTION_TIMESTAMP, length, .Ipv4OptionTimestamp .IP_TIMESTAMP_TIMESTAMP_ONLY overflow
        nextIdx recordAddress (replicate recordTimestamp.length 0)⟩, stream.advance 32) ∧
      (stream.advance 32).Upcoming
        ((recordTimestamp.flatMap fun t ↦ bytesAt [24, 16, 8, 0] (inMillis t)) ++ bytes) := by
  obtain ⟨hoption, hrecords⟩ := deserializeOption_timestamp h hsmall hne hup
  have hnil : recordAddress = [] := eq_nil_of_length_eq_zero h.2.2.1
  subst hnil
  exact ⟨hoption, hrecords⟩

/-! ## Whole lists of options -/

variable {options : List TlvOption} {fuel stop : ℕ} {stream' : MemoryInputStream}

theorem optionsLength_cons (option : TlvOption) (options : List TlvOption) :
    optionsLength (option :: options) = option.length.toNat + optionsLength options := rfl

theorem serializeOptions_eq (h : ∀ option ∈ options, WellFormed option)
    (stream : MemoryOutputStream) :
    serializeOptions stream options = .ok (stream.append (options.flatMap optionBytes)) := by
  induction options generalizing stream with
  | nil => rfl
  | cons option options ih =>
    rw [serializeOptions, bind_of_ok (serializeOption_eq (h option mem_cons_self) stream),
      ih fun option' hmem ↦ h option' (mem_cons_of_mem _ hmem),
      append_append, flatMap_cons]

theorem length_flatMap_optionBytes (h : ∀ option ∈ options, WellFormed option) :
    (options.flatMap optionBytes).length = optionsLength options := by
  induction options with
  | nil => rfl
  | cons option options ih =>
    rw [flatMap_cons, length_append, length_optionBytes (h option mem_cons_self),
      ih fun option' hmem ↦ h option' (mem_cons_of_mem _ hmem), optionsLength_cons]

theorem length_pos (h : WellFormed option) : 0 < option.length.toNat := by
  rw [← length_optionBytes h, optionBytes, length_append, length_singleton]
  exact Nat.lt_of_lt_of_le Nat.one_pos (Nat.le_add_right _ _)

/-- The list of options comes back, with nothing behind it but ends of the options. -/
def ListReadsBack : List TlvOption → Prop
  | [] => True
  | option :: options =>
    (match option.content with
      | .Ipv4OptionTimestamp flag _ _ _ recordTimestamp =>
        recordTimestamp ≠ [] ∧ (flag = .IP_TIMESTAMP_TIMESTAMP_ONLY →
          options = [] ∧ ∀ t ∈ recordTimestamp, t = 0)
      | _ => True) ∧ ListReadsBack options

theorem deserializeOptions_stop (fuel : ℕ) (h : stop ≤ stream.position) :
    deserializeOptions stop fuel stream = .ok ([], stream) := by
  have hstop : ¬(stream.getRemainingLength > 0 ∧ stream.position < stop) :=
    fun hgo ↦ Nat.not_lt_of_le h hgo.2
  cases fuel with
  | zero | succ fuel => exact if_neg hstop

theorem deserializeOptions_go (hremaining : stream.getRemainingLength > 0)
    (hposition : stream.position < stop) :
    deserializeOptions stop (fuel + 1) stream = (do
      let (option, stream) ← deserializeOption stream
      let (options, stream) ← deserializeOptions stop fuel stream
      pure (option :: options, stream)) :=
  if_pos ⟨hremaining, hposition⟩

theorem getRemainingLength_pos {byte : BitVec 8} (h : stream.Upcoming (byte :: bytes)) :
    stream.getRemainingLength > 0 := by
  rw [h.getRemainingLength_eq, length_cons]
  omega

/-- Zero bytes up to the end of the header are ends of the options. -/
theorem deserializeOptions_padding (count : ℕ) (hfuel : count ≤ fuel)
    (hstop : stop = stream.position + 8 * count)
    (h : stream.Upcoming (replicate count 0#8)) :
    ∃ stream', deserializeOptions stop fuel stream =
      .ok (replicate count endOption, stream') := by
  induction count generalizing stream fuel with
  | zero => exact ⟨stream, deserializeOptions_stop fuel (by omega)⟩
  | succ count ih =>
    cases fuel with
    | zero => omega
    | succ fuel =>
      have hstop' : stop = (stream.advance 8).position + 8 * count := by
        simp only [advance]
        omega
      obtain ⟨stream', hrest⟩ := ih (Nat.le_of_succ_le_succ hfuel) hstop' h.advance_one
      refine ⟨stream', ?_⟩
      rw [deserializeOptions_go (getRemainingLength_pos h) (by omega),
        bind_of_ok (deserializeOption_end h), replicate_succ]
      exact bind_of_ok hrest

theorem flatMap_zero_timestamps (h : ∀ t ∈ recordTimestamp, t = 0) :
    (recordTimestamp.flatMap fun t ↦ bytesAt [24, 16, 8, 0] (inMillis t)) =
      replicate (4 * recordTimestamp.length) 0#8 := by
  induction recordTimestamp with
  | nil => rfl
  | cons t recordTimestamp ih =>
    have hzero : bytesAt [24, 16, 8, 0] (inMillis 0) = replicate 4 0#8 := by decide
    rw [flatMap_cons, h t mem_cons_self, hzero,
      ih fun t' hmem ↦ h t' (mem_cons_of_mem _ hmem), replicate_append_replicate,
      length_cons, Nat.mul_succ, Nat.add_comm]

/-- The options, then the padding. -/
theorem deserializeOptions_eq (h : ∀ option ∈ options, WellFormed option)
    (hreads : ListReadsBack options) (hsmall : optionsLength options < 2 ^ 8) (padding : ℕ)
    (hfuel : optionsLength options + padding ≤ fuel)
    (hstop : stop = stream.position + 8 * (optionsLength options + padding))
    (hup : stream.Upcoming (options.flatMap optionBytes ++ replicate padding 0#8)) :
    ∃ count stream', deserializeOptions stop fuel stream =
      .ok (options ++ replicate count endOption, stream') := by
  induction options generalizing stream fuel with
  | nil =>
    have hzero : optionsLength [] = 0 := rfl
    rw [hzero, Nat.zero_add] at hfuel hstop
    obtain ⟨stream', hpadding⟩ := deserializeOptions_padding padding hfuel hstop hup
    exact ⟨padding, stream', hpadding⟩
  | cons option options ih =>
    have hoption := h option mem_cons_self
    have hpos := length_pos hoption
    rw [optionsLength_cons] at hsmall hfuel hstop
    have hup' : stream.Upcoming
        (optionBytes option ++ (options.flatMap optionBytes ++ replicate padding 0#8)) := by
      rw [← append_assoc, ← flatMap_cons]
      exact hup
    have hremaining : stream.getRemainingLength > 0 := getRemainingLength_pos hup'
    have hsmall' : option.length.toNat < 2 ^ 8 := by omega
    cases fuel with
    | zero => omega
    | succ fuel =>
      have hgo : deserializeOptions stop (fuel + 1) stream = _ :=
        deserializeOptions_go hremaining (by omega)
      by_cases hplain : ReadsBack option
      · have hhead := deserializeOption_eq hoption hplain hsmall' hup'
        have hthen := hup'.advance
        rw [length_optionBytes hoption] at hthen
        have hstop' : stop = (stream.advance (8 * option.length.toNat)).position +
            8 * (optionsLength options + padding) := by
          simp only [advance]
          omega
        have hfuel' : optionsLength options + padding ≤ fuel := by omega
        obtain ⟨count, stream', hrest⟩ := ih
          (fun option' hmem ↦ h option' (mem_cons_of_mem _ hmem)) hreads.2 (by omega) hfuel'
          hstop' hthen
        refine ⟨count, stream', ?_⟩
        rw [hgo, bind_of_ok hhead]
        exact bind_of_ok hrest
      · -- The timestamps that the reader leaves behind are zero and read as ends of the options.
        obtain ⟨type, length, content⟩ := option
        cases content with
        | Ipv4OptionTimestamp flag overflow nextIdx recordAddress recordTimestamp =>
          obtain ⟨hne, honly⟩ := hreads.1
          have hflag : flag = .IP_TIMESTAMP_TIMESTAMP_ONLY := by
            by_contra hother
            exact hplain ⟨hne, hother⟩
          obtain ⟨rfl, hzero⟩ := honly hflag
          subst hflag
          obtain ⟨rfl, hlength, -⟩ := id hoption
          change length.toNat = 4 + 4 * recordTimestamp.length at hlength
          have htimestamps : recordTimestamp = replicate recordTimestamp.length 0 :=
            eq_replicate_of_mem hzero
          obtain ⟨hhead, hthen⟩ := deserializeOption_timestampOnly hoption hsmall' hne hup'
          rw [← htimestamps] at hhead
          rw [flatMap_zero_timestamps hzero, flatMap_nil, nil_append,
            replicate_append_replicate] at hthen
          have hnil : optionsLength [] = 0 := rfl
          have hfuel' : 4 * recordTimestamp.length + padding ≤ fuel := by
            change length.toNat + optionsLength [] + padding ≤ fuel + 1 at hfuel
            omega
          have hstop' : stop = (stream.advance 32).position +
              8 * (4 * recordTimestamp.length + padding) := by
            change stop = stream.position + 8 * (length.toNat + optionsLength [] + padding) at hstop
            simp only [advance]
            omega
          obtain ⟨stream', hrest⟩ := deserializeOptions_padding _ hfuel' hstop' hthen
          refine ⟨4 * recordTimestamp.length + padding, stream', ?_⟩
          rw [hgo, bind_of_ok hhead]
          exact bind_of_ok hrest
        | _ => exact absurd trivial hplain

/-- Lists of options that come back satisfy the condition. -/
theorem listReadsBack_of_deserializeOptions (h : ∀ option ∈ options, WellFormed option)
    (hsmall : optionsLength options < 2 ^ 8) (hfuel : optionsLength options ≤ fuel)
    (hstop : stream.position + 8 * optionsLength options ≤ stop) {count : ℕ}
    (hup : stream.Upcoming (options.flatMap optionBytes ++ bytes))
    (hread : deserializeOptions stop fuel stream =
      .ok (options ++ replicate count endOption, stream')) : ListReadsBack options := by
  induction options generalizing stream fuel stream' with
  | nil => trivial
  | cons option options ih =>
    have hoption := h option mem_cons_self
    have hpos := length_pos hoption
    rw [optionsLength_cons] at hsmall hfuel hstop
    have hup' : stream.Upcoming (optionBytes option ++ (options.flatMap optionBytes ++ bytes)) := by
      rw [← append_assoc, ← flatMap_cons]
      exact hup
    have hsmall' : option.length.toNat < 2 ^ 8 := by omega
    cases fuel with
    | zero => omega
    | succ fuel =>
      rw [deserializeOptions_go (getRemainingLength_pos hup') (by omega)] at hread
      obtain ⟨⟨option', next⟩, hhead, htail⟩ := bind_eq_ok hread
      obtain ⟨⟨rest, last⟩, hrest, heq⟩ := bind_eq_ok htail
      have hlists := (mk.inj (ok.inj heq)).1
      obtain ⟨hsame, hrestEq⟩ := cons.inj hlists
      subst hsame hrestEq
      by_cases hplain : ReadsBack option'
      · have hread' := deserializeOption_eq hoption hplain hsmall' hup'
        obtain ⟨-, rfl⟩ := mk.inj (ok.inj (hread'.symm.trans hhead))
        have hthen := hup'.advance
        rw [length_optionBytes hoption] at hthen
        have hstop' : (stream.advance (8 * option'.length.toNat)).position +
            8 * optionsLength options ≤ stop := by
          simp only [advance]
          omega
        have hfuel' : optionsLength options ≤ fuel := by omega
        refine ⟨?_, ih (fun option hmem ↦ h option (mem_cons_of_mem _ hmem)) (by omega) hfuel'
          hstop' hthen hrest⟩
        obtain ⟨type, length, content⟩ := option'
        cases content with
        | Ipv4OptionTimestamp flag overflow nextIdx recordAddress recordTimestamp =>
          exact ⟨hplain.1, fun honly ↦ absurd honly hplain.2⟩
        | _ => trivial
      · obtain ⟨type, length, content⟩ := option'
        cases content with
        | Ipv4OptionTimestamp flag overflow nextIdx recordAddress recordTimestamp =>
          obtain ⟨rfl, hlength, -⟩ := id hoption
          by_cases hne : recordTimestamp = []
          · subst hne
            have hraw := deserializeOption_noEntries hoption hup'
            have hcontent := congrArg TlvOption.content
              (mk.inj (ok.inj (hraw.symm.trans hhead))).1
            cases hcontent
          have hflag : flag = .IP_TIMESTAMP_TIMESTAMP_ONLY := by
            by_contra hother
            exact hplain ⟨hne, hother⟩
          subst hflag
          change length.toNat = 4 + 4 * recordTimestamp.length at hlength
          change length.toNat + optionsLength options ≤ fuel + 1 at hfuel
          change stream.position + 8 * (length.toNat + optionsLength options) ≤ stop at hstop
          obtain ⟨hhead', hthen⟩ := deserializeOption_timestampOnly hoption hsmall' hne hup'
          obtain ⟨hsame, rfl⟩ := mk.inj (ok.inj (hhead'.symm.trans hhead))
          have hcontent := congrArg TlvOption.content hsame
          simp only [TlvOptionClass.Ipv4OptionTimestamp.injEq, true_and] at hcontent
          have hzero : ∀ t ∈ recordTimestamp, t = 0 := by
            rw [← hcontent]
            exact fun t hmem ↦ eq_of_mem_replicate hmem
          have hpos' : 0 < recordTimestamp.length := length_pos_iff.mpr hne
          have hnil : options = [] := by
            -- The reader goes on with a zero byte of a timestamp, an end of the options.
            obtain ⟨n, hn⟩ := Nat.exists_eq_succ_of_ne_zero
              (Nat.mul_ne_zero (by decide : 4 ≠ 0) (Nat.ne_of_gt hpos'))
            rw [flatMap_zero_timestamps hzero, hn, replicate_succ] at hthen
            obtain ⟨fuel, rfl⟩ : ∃ n, fuel = n + 1 := ⟨fuel - 1, by omega⟩
            have hposition : (stream.advance 32).position < stop := by
              simp only [advance]
              omega
            rw [deserializeOptions_go (getRemainingLength_pos hthen) hposition,
              bind_of_ok (deserializeOption_end hthen)] at hrest
            obtain ⟨⟨others, last'⟩, -, heq'⟩ := bind_eq_ok hrest
            have hlists' := (mk.inj (ok.inj heq')).1
            cases options with
            | nil => rfl
            | cons second options =>
              have hsecond := h second (mem_cons_of_mem _ mem_cons_self)
              have hend : endOption = second := (cons.inj hlists').1
              subst hend
              exact hsecond.elim
          subst hnil
          exact ⟨⟨hne, fun _ ↦ ⟨rfl, hzero⟩⟩, trivial⟩
        | _ => exact absurd trivial hplain

/-! ## The fixed part -/

variable (ipv4Header : Ipv4Header)

/-- `ip_off` with the fragment offset and the three flags. -/
def offsetField : BitVec 16 :=
  let ip_off := (ipv4Header.fragmentOffset / 8) &&& IP_OFFMASK
  let ip_off := if ipv4Header.reservedBit then ip_off ||| IP_RF else ip_off
  let ip_off := if ipv4Header.moreFragments then ip_off ||| IP_MF else ip_off
  if ipv4Header.dontFragment then ip_off ||| IP_DF else ip_off

theorem getLsbD_offmask (i : ℕ) : IP_OFFMASK.getLsbD i = decide (i < 13) := by
  have hones : IP_OFFMASK = (BitVec.allOnes 13).setWidth 16 := rfl
  rw [hones, BitVec.getLsbD_setWidth, BitVec.getLsbD_allOnes, ← Bool.decide_and, decide_eq_decide]
  omega

theorem getLsbD_offsetField (i : ℕ) : (offsetField ipv4Header).getLsbD i =
      ((decide (i < 13) && ipv4Header.fragmentOffset.getLsbD (3 + i)) ||
        (decide (i = 15) && ipv4Header.reservedBit) ||
        (decide (i = 13) && ipv4Header.moreFragments) ||
        (decide (i = 14) && ipv4Header.dontFragment)) := by
  have hdiv : ipv4Header.fragmentOffset / (8 : BitVec 16) = ipv4Header.fragmentOffset >>> 3 :=
    BitVec.udiv_twoPow_eq_of_lt (k := 3) (by decide)
  have hrf : IP_RF.getLsbD i = decide (i = 15) := by
    have htwo : IP_RF = twoPow 16 15 := rfl
    rw [htwo, getLsbD_twoPow]
    simp [eq_comm]
  have hmf : IP_MF.getLsbD i = decide (i = 13) := by
    have htwo : IP_MF = twoPow 16 13 := rfl
    rw [htwo, getLsbD_twoPow]
    simp [eq_comm]
  have hdf : IP_DF.getLsbD i = decide (i = 14) := by
    have htwo : IP_DF = twoPow 16 14 := rfl
    rw [htwo, getLsbD_twoPow]
    simp [eq_comm]
  simp only [offsetField, hdiv]
  cases ipv4Header.reservedBit <;> cases ipv4Header.moreFragments <;>
    cases ipv4Header.dontFragment <;>
    simp [hrf, hmf, hdf, getLsbD_offmask, Bool.and_comm]

theorem and_flag_ne_zero (value : BitVec 16) {k : ℕ} (hk : k < 16) :
    decide (value &&& twoPow 16 k ≠ 0) = value.getLsbD k := by
  have hne : twoPow 16 k ≠ 0 := by
    intro hzero
    have hbit : (twoPow 16 k).getLsbD k = (0#16).getLsbD k := congrArg (·.getLsbD k) hzero
    simp [hk] at hbit
  rw [BitVec.and_twoPow]
  cases value.getLsbD k with
  | false => simp
  | true => simpa using hne

theorem offset_of_offsetField {ipv4Header : Ipv4Header} (h : ipv4Header.fragmentOffset &&& 7 = 0) :
    (offsetField ipv4Header &&& IP_OFFMASK) * 8 = ipv4Header.fragmentOffset := by
  have hmul : (offsetField ipv4Header &&& IP_OFFMASK) * (8 : BitVec 16) =
      (offsetField ipv4Header &&& IP_OFFMASK) <<< 3 :=
    BitVec.mul_twoPow_eq_shiftLeft _ 3
  rw [hmul]
  apply BitVec.eq_of_getLsbD_eq
  intro i hi
  rw [BitVec.getLsbD_shiftLeft, getLsbD_and, getLsbD_offmask]
  by_cases hlow : i < 3
  · have hbit : (ipv4Header.fragmentOffset &&& 7).getLsbD i = (0#16).getLsbD i :=
      congrArg (·.getLsbD i) h
    have hmask : ∀ i < 3, (7#16).getLsbD i = true := by decide
    have hseven : (7 : BitVec 16).getLsbD i = true := hmask i hlow
    rw [getLsbD_and, hseven, Bool.and_true, BitVec.getLsbD_zero] at hbit
    simp [hlow, hbit]
  · have hsum : 3 + (i - 3) = i := by omega
    have hsmall : i - 3 < 13 := by omega
    have h13 : i - 3 ≠ 13 := by omega
    have h14 : i - 3 ≠ 14 := by omega
    have h15 : i - 3 ≠ 15 := by omega
    rw [getLsbD_offsetField, hsum]
    simp [hlow, hi, hsmall, h13, h14, h15]

theorem flags_of_offsetField :
    (offsetField ipv4Header &&& IP_RF ≠ 0 ↔ ipv4Header.reservedBit = true) ∧
      (offsetField ipv4Header &&& IP_MF ≠ 0 ↔ ipv4Header.moreFragments = true) ∧
      (offsetField ipv4Header &&& IP_DF ≠ 0 ↔ ipv4Header.dontFragment = true) := by
  have hflag {k : ℕ} (hk : k < 16) : offsetField ipv4Header &&& twoPow 16 k ≠ 0 ↔
      (offsetField ipv4Header).getLsbD k = true := by
    rw [← and_flag_ne_zero _ hk, decide_eq_true_iff]
  have hrf : IP_RF = twoPow 16 15 := rfl
  have hmf : IP_MF = twoPow 16 13 := rfl
  have hdf : IP_DF = twoPow 16 14 := rfl
  rw [hrf, hmf, hdf, hflag (by decide), hflag (by decide), hflag (by decide),
    getLsbD_offsetField, getLsbD_offsetField, getLsbD_offsetField]
  simp

/-- The image of the fixed part of a header. -/
def fixedPart : ip where
  ip_v := ipv4Header.version.setWidth 4
  ip_hl := BitVec.ofNat 4 (ipv4Header.headerLength / 4)
  ip_tos := ipv4Header.typeOfService.setWidth 8
  ip_len := BitVec.ofNat 16 ipv4Header.totalLengthField
  ip_id := ipv4Header.identification
  ip_off := offsetField ipv4Header
  ip_ttl := ipv4Header.timeToLive.setWidth 8
  ip_p := ipv4Header.protocolId.setWidth 8
  ip_sum := ipv4Header.crc
  ip_src := ipv4Header.srcAddress
  ip_dst := ipv4Header.destAddress

/-! ## Whole headers -/

variable {header : Ipv4Header}

/-- Field values within their widths, and well-formed options that fit the header length. -/
structure WithinWidths (header : Ipv4Header) : Prop where
  version : header.version.toNat < 2 ^ 4
  typeOfService : header.typeOfService.toNat < 2 ^ 8
  totalLengthField : header.totalLengthField < 2 ^ 16
  timeToLive : header.timeToLive.toNat < 2 ^ 8
  protocolId : header.protocolId.toNat < 2 ^ 8
  options : ∀ option ∈ header.options, WellFormed option
  fitting : IPv4_MIN_HEADER_LENGTH + optionsLength header.options ≤ header.headerLength

/-- What the assertions and the guard of `serialize` demand. -/
structure Accepted (header : Ipv4Header) : Prop where
  headerLength : header.headerLength % 4 = 0 ∧ IPv4_MIN_HEADER_LENGTH ≤ header.headerLength ∧
    header.headerLength ≤ IPv4_MAX_HEADER_LENGTH
  totalLengthField : header.headerLength ≤ header.totalLengthField
  fragmentOffset : header.fragmentOffset &&& 7 = 0
  crcMode : header.crcMode = .CRC_COMPUTED

theorem accepted_of_serialize {output stream : MemoryOutputStream}
    (h : serialize stream header = .ok output) : Accepted header := by
  obtain ⟨_, hlength, h⟩ := bind_eq_ok h
  obtain ⟨_, htotal, h⟩ := bind_eq_ok h
  obtain ⟨_, hoffset, h⟩ := bind_eq_ok h
  obtain ⟨_, hcrc, -⟩ := bind_eq_ok h
  exact ⟨of_assert hlength, of_assert htotal, of_assert hoffset, of_assert hcrc⟩

theorem options_eq_nil (h : ∀ option ∈ options, WellFormed option)
    (hzero : optionsLength options = 0) : options = [] := by
  cases options with
  | nil => rfl
  | cons option options =>
    have hpos := length_pos (h option mem_cons_self)
    rw [optionsLength_cons] at hzero
    omega

/-- The number of bytes that fill the header. -/
def paddingLength (header : Ipv4Header) : ℕ :=
  header.headerLength - (IPv4_MIN_HEADER_LENGTH + optionsLength header.options)

theorem serialize_eq (hwithin : WithinWidths header) (haccepted : Accepted header) :
    serialize .empty header =
      .ok (empty.append ((fixedPart header).image ++
        (header.options.flatMap optionBytes ++ replicate (paddingLength header) 0#8))) := by
  have hfitting := hwithin.fitting
  have hlengths : assert (header.headerLength % 4 = 0 ∧
      IPv4_MIN_HEADER_LENGTH ≤ header.headerLength ∧
      header.headerLength ≤ IPv4_MAX_HEADER_LENGTH) = .ok () := if_pos haccepted.headerLength
  have htotal : assert (header.headerLength ≤ header.totalLengthField) = .ok () :=
    if_pos haccepted.totalLengthField
  have hoffset : assert (header.fragmentOffset &&& 7 = 0) = .ok () :=
    if_pos haccepted.fragmentOffset
  have hcrc : assert (header.crcMode = .CRC_COMPUTED) = .ok () := if_pos haccepted.crcMode
  have himage : empty.writeBytes (fixedPart header).image =
      .ok (empty.append (fixedPart header).image) :=
    MemoryOutputStream.writeBytes_eq_append _ rfl
  rw [serialize, bind_of_ok hlengths, bind_of_ok htotal, bind_of_ok hoffset, bind_of_ok hcrc]
  apply (bind_of_ok himage).trans
  by_cases hlong : header.headerLength > IPv4_MIN_HEADER_LENGTH
  · have hfits : assert (IPv4_MIN_HEADER_LENGTH + optionsLength header.options ≤
        header.headerLength) = .ok () := if_pos hfitting
    have hwritten : (empty.append
        ((fixedPart header).image ++ header.options.flatMap optionBytes)).length =
          8 * (IPv4_MIN_HEADER_LENGTH + optionsLength header.options) := by
      rw [MemoryOutputStream.length_append, length_append,
        length_flatMap_optionBytes hwithin.options]
      exact Nat.zero_add _
    have hcount : header.headerLength -
        (8 * (IPv4_MIN_HEADER_LENGTH + optionsLength header.options) -
          empty.length) / 8 = paddingLength header := by
      simp only [empty, Nat.sub_zero, paddingLength]
      omega
    rw [if_pos hlong, bind_of_ok (serializeOptions_eq hwithin.options _), bind_of_ok hfits,
      append_append]
    simp only [hwritten, hcount, MemoryOutputStream.writeByteRepeatedly_eq_append,
      append_append, append_assoc]
    rfl
  · have hnil : header.options = [] := options_eq_nil hwithin.options (by omega)
    have hpadding : paddingLength header = 0 := by
      unfold paddingLength
      omega
    rw [if_neg hlong, hnil, hpadding, flatMap_nil, replicate_zero, append_nil,
      append_nil]
    rfl

/-- The reader restores the fixed part and goes on with the options. -/
theorem deserialize_eq (hwithin : WithinWidths header) (haccepted : Accepted header)
    {output : MemoryOutputStream} (hserialize : serialize .empty header = .ok output) :
    ((ofOutput output).advance 160).Upcoming
        (header.options.flatMap optionBytes ++ replicate (paddingLength header) 0#8) ∧
      ∃ incorrect incomplete, deserialize (.ofOutput output) = (do
        let (options, stream) ← deserializeOptions (8 * header.headerLength) header.headerLength
          ((ofOutput output).advance 160)
        pure ⟨{ header with options := options }, incorrect, incomplete, stream⟩) := by
  obtain ⟨-, hlow, hhigh⟩ := haccepted.headerLength
  have hfour := haccepted.headerLength.1
  simp only [IPv4_MAX_HEADER_LENGTH] at hhigh
  obtain rfl := ok.inj ((serialize_eq hwithin haccepted).symm.trans hserialize)
  generalize houtput : empty.append ((fixedPart header).image ++
    (header.options.flatMap optionBytes ++ replicate (paddingLength header) 0#8)) = output
  have haligned : output.length % 8 = 0 := by
    rw [← houtput, MemoryOutputStream.length_append]
    simp only [empty]
    omega
  have hdata : output.data = (fixedPart header).image ++
      (header.options.flatMap optionBytes ++ replicate (paddingLength header) 0#8) := by
    rw [← houtput, data_append _ rfl]
    rfl
  have hup := MemoryInputStream.upcoming_ofOutput haligned
  rw [hdata] at hup
  refine ⟨hup.advance, ?_⟩
  have himage : (ofOutput output).readBytes IPv4_MIN_HEADER_LENGTH =
      .ok ((fixedPart header).image, (ofOutput output).advance 160) :=
    hup.readBytes
  have hhl : (fixedPart header).ip_hl.toNat * 4 = header.headerLength := by
    simp only [fixedPart, toNat_ofNat]
    omega
  have hshort : decide (header.headerLength < IPv4_MIN_HEADER_LENGTH) = false :=
    decide_eq_false (Nat.not_lt_of_le hlow)
  have hposition : (ofOutput output).position = 0 := rfl
  have hshortest (hlong : ¬header.headerLength > IPv4_MIN_HEADER_LENGTH) :
      deserializeOptions (8 * header.headerLength) header.headerLength
        ((ofOutput output).advance 160) =
          .ok ([], (ofOutput output).advance 160) := by
    apply deserializeOptions_stop
    simp only [IPv4_MIN_HEADER_LENGTH] at hlong
    simp only [advance, hposition]
    omega
  have hlen : (BitVec.ofNat 16 header.totalLengthField).toNat = header.totalLengthField := by
    rw [toNat_ofNat, Nat.mod_eq_of_lt hwithin.totalLengthField]
  obtain ⟨hrf, hmf, hdf⟩ := flags_of_offsetField header
  have hversion : (header.version.setWidth 4).setWidth 16 = header.version :=
    setWidth_setWidth_of_lt hwithin.version
  have htos : (header.typeOfService.setWidth 8).setWidth 16 = header.typeOfService :=
    setWidth_setWidth_of_lt hwithin.typeOfService
  have httl : (header.timeToLive.setWidth 8).setWidth 16 = header.timeToLive :=
    setWidth_setWidth_of_lt hwithin.timeToLive
  have hp : (header.protocolId.setWidth 8).setWidth 32 = header.protocolId :=
    setWidth_setWidth_of_lt hwithin.protocolId
  have hcrc := haccepted.crcMode
  refine ⟨decide ((header.version.setWidth 4) ≠ 4 ∨ false = true ∨
      header.totalLengthField < header.headerLength),
    decide ((ofOutput output).getRemainingLength < 8 * header.headerLength), ?_⟩
  rw [deserialize, bind_of_ok himage]
  apply (bind_of_ok (ip.ofImage_image _)).trans
  simp only [hhl, hshort, Bool.false_eq_true, if_false, hposition, Nat.zero_add]
  simp only [fixedPart, hlen, hversion, htos, httl, hp, ← hcrc,
    offset_of_offsetField haccepted.fragmentOffset, hrf, hmf, hdf, Bool.decide_eq_true]
  split
  · rfl
  · rename_i hlong
    rw [hshortest hlong]
    rfl

/-- The header is written, and the header that is read from what was written has the same fields and
the same options, followed by ends of the options only. -/
def RoundTrip (header : Ipv4Header) : Prop :=
  ∃ stream result count, serialize .empty header = .ok stream ∧
    deserialize (.ofOutput stream) = .ok result ∧
    result.header = { header with options := header.options ++ replicate count endOption }

theorem optionsLength_lt (hwithin : WithinWidths header) (haccepted : Accepted header) :
    optionsLength header.options < 2 ^ 8 := by
  have hfitting := hwithin.fitting
  obtain ⟨-, -, hhigh⟩ := haccepted.headerLength
  simp only [IPv4_MAX_HEADER_LENGTH] at hhigh
  omega

theorem roundTrip_of_listReadsBack (hwithin : WithinWidths header) (haccepted : Accepted header)
    (hreads : ListReadsBack header.options) : RoundTrip header := by
  have hserialize := serialize_eq hwithin haccepted
  obtain ⟨hup, incorrect, incomplete, hread⟩ := deserialize_eq hwithin haccepted hserialize
  have hfitting := hwithin.fitting
  have hlength : optionsLength header.options + paddingLength header + IPv4_MIN_HEADER_LENGTH =
      header.headerLength := by
    unfold paddingLength
    omega
  simp only [IPv4_MIN_HEADER_LENGTH] at hlength
  have hfuel : optionsLength header.options + paddingLength header ≤ header.headerLength :=
    hlength ▸ Nat.le_add_right _ _
  have hstop : 8 * header.headerLength = 160 +
      8 * (optionsLength header.options + paddingLength header) := by
    omega
  obtain ⟨count, stream', hoptions⟩ := deserializeOptions_eq hwithin.options hreads
    (optionsLength_lt hwithin haccepted) _ hfuel hstop hup
  rw [hoptions] at hread
  exact ⟨_, _, count, hserialize, hread, rfl⟩

theorem listReadsBack_of_roundTrip (hwithin : WithinWidths header) (haccepted : Accepted header)
    (hround : RoundTrip header) : ListReadsBack header.options := by
  obtain ⟨stream, result, count, hserialize, hresult, hheader⟩ := hround
  obtain ⟨hup, incorrect, incomplete, hread⟩ := deserialize_eq hwithin haccepted hserialize
  have hfitting := hwithin.fitting
  simp only [IPv4_MIN_HEADER_LENGTH] at hfitting
  have hfuel : optionsLength header.options ≤ header.headerLength := by omega
  have hstop : 160 + 8 * optionsLength header.options ≤ 8 * header.headerLength := by omega
  obtain ⟨⟨options, stream'⟩, hoptions, hpure⟩ := bind_eq_ok (hread.symm.trans hresult)
  obtain rfl := ok.inj hpure
  have heq : options = header.options ++ replicate count endOption :=
    congrArg Ipv4Header.options hheader
  rw [heq] at hoptions
  exact listReadsBack_of_deserializeOptions hwithin.options (optionsLength_lt hwithin haccepted)
    hfuel hstop hup hoptions

/-- An accepted header comes back exactly when every timestamp option has entries, and one with
timestamps only is the last option and has all timestamps zero. -/
theorem ipv4Header_roundTrip_iff (hwithin : WithinWidths header)
    (haccepted : ∃ stream, serialize .empty header = .ok stream) :
    RoundTrip header ↔ ListReadsBack header.options := by
  obtain ⟨stream, hserialize⟩ := haccepted
  have haccepted := accepted_of_serialize hserialize
  constructor
  · exact listReadsBack_of_roundTrip hwithin haccepted
  · exact roundTrip_of_listReadsBack hwithin haccepted

/-- A header of 52 bytes with a recorded route, timestamps with addresses and a stream. -/
def recordingHeader : Ipv4Header where
  version := 4
  headerLength := 52
  typeOfService := 0
  totalLengthField := 84
  identification := 7
  reservedBit := false
  moreFragments := false
  dontFragment := true
  fragmentOffset := 0
  timeToLive := 32
  protocolId := 17
  crc := 0xbeef
  crcMode := .CRC_COMPUTED
  srcAddress := 0x0a000001
  destAddress := 0x0a000002
  options :=
    [⟨IPOPTION_NO_OPTION, 1, .Ipv4OptionNop⟩,
      ⟨IPOPTION_TIMESTAMP, 12, .Ipv4OptionTimestamp .IP_TIMESTAMP_WITH_ADDRESS 0 1 [0x0a000003]
        [ofMillis 1500]⟩,
      ⟨IPOPTION_RECORD_ROUTE, 11, .Ipv4OptionRecordRoute 1 [0x0a000003, 0]⟩,
      ⟨IPOPTION_STREAM_ID, 4, .Ipv4OptionStreamId 42⟩]

theorem recordingHeader_withinWidths : WithinWidths recordingHeader where
  version := by decide
  typeOfService := by decide
  totalLengthField := by decide
  timeToLive := by decide
  protocolId := by decide
  fitting := by decide
  options := by
    have hmillis : ∀ t ∈ [ofMillis 1500], ∃ millis : BitVec 32,
        t = ofMillis millis.toNat := by
      intro t ht
      exact ⟨1500, mem_singleton.mp ht⟩
    have hnop : WellFormed ⟨IPOPTION_NO_OPTION, 1, .Ipv4OptionNop⟩ := ⟨rfl, rfl⟩
    have htimestamp : WellFormed ⟨IPOPTION_TIMESTAMP, 12, .Ipv4OptionTimestamp
        .IP_TIMESTAMP_WITH_ADDRESS 0 1 [0x0a000003] [ofMillis 1500]⟩ :=
      ⟨rfl, rfl, rfl, by decide, by decide, hmillis⟩
    have hroute : WellFormed ⟨IPOPTION_RECORD_ROUTE, 11, .Ipv4OptionRecordRoute 1
        [0x0a000003, 0]⟩ := ⟨.inl rfl, rfl, by decide, by decide⟩
    have hstream : WellFormed ⟨IPOPTION_STREAM_ID, 4, .Ipv4OptionStreamId 42⟩ := ⟨rfl, rfl⟩
    simp only [recordingHeader, forall_mem_cons]
    exact ⟨hnop, htimestamp, hroute, hstream, fun _ h ↦ absurd h not_mem_nil⟩

theorem recordingHeader_accepted : Accepted recordingHeader where
  headerLength := by decide
  totalLengthField := by decide
  fragmentOffset := rfl
  crcMode := rfl

theorem ipv4Header_roundTrip_iff_recordingHeader :
    WithinWidths recordingHeader ∧ (∃ stream, serialize .empty recordingHeader = .ok stream) ∧
      RoundTrip recordingHeader := by
  have haccepted : ∃ stream, serialize .empty recordingHeader = .ok stream :=
    ⟨_, serialize_eq recordingHeader_withinWidths recordingHeader_accepted⟩
  have hreads : ListReadsBack recordingHeader.options := by
    refine ⟨trivial, ⟨by decide, ?_⟩, trivial, trivial, trivial⟩
    intro hflag
    cases hflag
  exact ⟨recordingHeader_withinWidths, haccepted,
    (ipv4Header_roundTrip_iff recordingHeader_withinWidths haccepted).mpr hreads⟩

/-- A header of 28 bytes with one timestamp and no addresses. -/
def timestampHeader : Ipv4Header where
  version := 4
  headerLength := 28
  typeOfService := 0
  totalLengthField := 84
  identification := 7
  reservedBit := false
  moreFragments := false
  dontFragment := false
  fragmentOffset := 0
  timeToLive := 32
  protocolId := 17
  crc := 0xbeef
  crcMode := .CRC_COMPUTED
  srcAddress := 0x0a000001
  destAddress := 0x0a000002
  options := [⟨IPOPTION_TIMESTAMP, 8,
    .Ipv4OptionTimestamp .IP_TIMESTAMP_TIMESTAMP_ONLY 0 1 [] [ofMillis 1500]⟩]

/-- The timestamp of an option without addresses is not read back. -/
theorem not_roundTrip_timestampHeader :
    WithinWidths timestampHeader ∧ (∃ stream, serialize .empty timestampHeader = .ok stream) ∧
      ¬RoundTrip timestampHeader := by
  have hmillis : ∀ t ∈ [ofMillis 1500], ∃ millis : BitVec 32,
      t = ofMillis millis.toNat := by
    intro t ht
    exact ⟨1500, mem_singleton.mp ht⟩
  have hoption : WellFormed ⟨IPOPTION_TIMESTAMP, 8,
      .Ipv4OptionTimestamp .IP_TIMESTAMP_TIMESTAMP_ONLY 0 1 [] [ofMillis 1500]⟩ :=
    ⟨rfl, rfl, rfl, by decide, by decide, hmillis⟩
  have hwithin : WithinWidths timestampHeader :=
    ⟨by decide, by decide, by decide, by decide, by decide,
      forall_mem_singleton.mpr hoption, by decide⟩
  have haccepted : Accepted timestampHeader := ⟨by decide, by decide, rfl, rfl⟩
  refine ⟨hwithin, ⟨_, serialize_eq hwithin haccepted⟩, ?_⟩
  intro hround
  obtain ⟨⟨-, honly⟩, -⟩ := listReadsBack_of_roundTrip hwithin haccepted hround
  have hzero : ofMillis 1500 = 0 := (honly rfl).2 _ mem_cons_self
  exact absurd hzero (by decide)

end Inet4.Ipv4.Ipv4HeaderSerializer
