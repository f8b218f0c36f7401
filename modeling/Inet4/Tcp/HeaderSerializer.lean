import Inet4.Serialization.ByteStream

/-!
# The TCP header on the wire

`TcpHeaderSerializer` writes a header through the memory image of `struct tcphdr` and writes and
reads the options one after another.  A header whose length fits its options comes back with all of
its fields when its CRC is computed, without which it is refused, and neither of the two congestion
flags is set: the mask of the flags in the image leaves these two out.
-/

namespace Inet4.Tcp

open BitPacking Serialization List
open MemoryOutputStream (empty append_append writeByte writeUint32Be_eq_append data_append
  foldl_append_eq)
open MemoryInputStream (ofOutput)

structure SackItem where
  start : BitVec 32
  finish : BitVec 32
  deriving DecidableEq, Repr

/-- The subclasses of `TcpOption` with their own fields. -/
inductive TcpOptionClass
  | TcpOptionEnd
  | TcpOptionNop
  | TcpOptionMaxSegmentSize (maxSegmentSize : BitVec 16)
  | TcpOptionWindowScale (windowScale : BitVec 16)
  | TcpOptionSackPermitted
  | TcpOptionSack (sackItem : List SackItem)
  | TcpOptionTimestamp (senderTimestamp echoedTimestamp : BitVec 32)
  | TcpOptionUnknown (bytes : List (BitVec 8))
  deriving DecidableEq, Repr

/-- `TcpOption`: its kind, its length in bytes and what its subclass adds. -/
structure TcpOption where
  kind : BitVec 32
  length : BitVec 16
  content : TcpOptionClass
  deriving DecidableEq, Repr

/-- `TcpHeader`, the header length in bytes. -/
structure TcpHeader where
  srcPort : BitVec 16
  destPort : BitVec 16
  sequenceNo : BitVec 32
  ackNo : BitVec 32
  headerLength : ℕ
  cwrBit : Bool
  eceBit : Bool
  urgBit : Bool
  ackBit : Bool
  pshBit : Bool
  rstBit : Bool
  synBit : Bool
  finBit : Bool
  window : BitVec 16
  urgentPointer : BitVec 16
  crc : BitVec 16
  crcMode : CrcMode
  headerOption : List TcpOption
  deriving DecidableEq, Repr

/-- `TCP_MIN_HEADER_LENGTH`, in bytes. -/
def TCP_MIN_HEADER_LENGTH : ℕ := 20

/-! ## The memory image of the fixed part -/

/-- `struct tcphdr`.  The fields of two and four bytes hold the values that `ntohs` and `ntohl`
give. -/
structure tcphdr where
  th_sport : BitVec 16
  th_dport : BitVec 16
  th_seq : BitVec 32
  th_ack : BitVec 32
  th_offs : BitVec 4
  th_x2 : BitVec 4
  th_flags : BitVec 8
  th_win : BitVec 16
  th_sum : BitVec 16
  th_urp : BitVec 16
  deriving DecidableEq, Repr

namespace tcphdr

/-- The bytes of the structure. -/
def image (tcp : tcphdr) : List (BitVec 8) :=
  bytesAt [8, 0] tcp.th_sport ++ bytesAt [8, 0] tcp.th_dport ++ bytesAt [24, 16, 8, 0] tcp.th_seq ++
    bytesAt [24, 16, 8, 0] tcp.th_ack ++ [tcp.th_offs ++ tcp.th_x2, tcp.th_flags] ++
    bytesAt [8, 0] tcp.th_win ++ bytesAt [8, 0] tcp.th_sum ++ bytesAt [8, 0] tcp.th_urp

/-- The structure that lies in a buffer. -/
def ofImage : List (BitVec 8) → Except Fault tcphdr
  | [s1, s0, d1, d0, q3, q2, q1, q0, a3, a2, a1, a0, offs_x2, flags, w1, w0, c1, c0, u1, u0] =>
    .ok
      { th_sport := orBytes 0 [8, 0] [s1, s0]
        th_dport := orBytes 0 [8, 0] [d1, d0]
        th_seq := orBytes 0 [24, 16, 8, 0] [q3, q2, q1, q0]
        th_ack := orBytes 0 [24, 16, 8, 0] [a3, a2, a1, a0]
        th_offs := offs_x2.extractLsb' 4 4
        th_x2 := offs_x2.extractLsb' 0 4
        th_flags := flags
        th_win := orBytes 0 [8, 0] [w1, w0]
        th_sum := orBytes 0 [8, 0] [c1, c0]
        th_urp := orBytes 0 [8, 0] [u1, u0] }
  | _ => .error .undefinedBehaviour

theorem ofImage_image (tcp : tcphdr) : ofImage tcp.image = .ok tcp := by
  have hoffs : (tcp.th_offs ++ tcp.th_x2).extractLsb' 4 4 = tcp.th_offs :=
    BitVec.extractLsb'_append_eq_left
  have hx2 : (tcp.th_offs ++ tcp.th_x2).extractLsb' 0 4 = tcp.th_x2 :=
    BitVec.extractLsb'_append_eq_right
  have htwo := orBytes_bytesAt_two
  have hfour := orBytes_bytesAt_four
  simp only [bytesAt, map_cons, map_nil] at htwo hfour
  simp only [image, bytesAt, map_cons, map_nil, cons_append, nil_append,
    ofImage, htwo, hfour, hoffs, hx2]

end tcphdr

/-! ## The flags -/

def TH_FIN : BitVec 8 := 0x01
def TH_SYN : BitVec 8 := 0x02
def TH_RST : BitVec 8 := 0x04
def TH_PUSH : BitVec 8 := 0x08
def TH_ACK : BitVec 8 := 0x10
def TH_URG : BitVec 8 := 0x20
def TH_ECE : BitVec 8 := 0x40
def TH_CWR : BitVec 8 := 0x80
def TH_FLAGS : BitVec 8 := 0x3F

/-- The flags that `serialize` collects. -/
def TcpHeader.flags (tcpHeader : TcpHeader) : BitVec 8 :=
  (if tcpHeader.finBit then TH_FIN else 0) ||| (if tcpHeader.synBit then TH_SYN else 0) |||
    (if tcpHeader.rstBit then TH_RST else 0) ||| (if tcpHeader.pshBit then TH_PUSH else 0) |||
    (if tcpHeader.ackBit then TH_ACK else 0) ||| (if tcpHeader.urgBit then TH_URG else 0) |||
    (if tcpHeader.eceBit then TH_ECE else 0) ||| (if tcpHeader.cwrBit then TH_CWR else 0)

namespace TcpHeaderSerializer

/-! ## Writing -/

def TCPOPTION_END_OF_OPTION_LIST : BitVec 32 := 0
def TCPOPTION_NO_OPERATION : BitVec 32 := 1
def TCPOPTION_MAXIMUM_SEGMENT_SIZE : BitVec 32 := 2
def TCPOPTION_WINDOW_SCALE : BitVec 32 := 3
def TCPOPTION_SACK_PERMITTED : BitVec 32 := 4
def TCPOPTION_SACK : BitVec 32 := 5
def TCPOPTION_TIMESTAMP : BitVec 32 := 8

def writeSackItem (stream : MemoryOutputStream) (si : SackItem) : MemoryOutputStream :=
  (stream.writeUint32Be si.start).writeUint32Be si.finish

/-- A failed `check_and_cast` and a kind that the switch does not know are errors. -/
def serializeOption (stream : MemoryOutputStream) (option : TcpOption) :
    Except Fault MemoryOutputStream := do
  let kind := option.kind
  let length := option.length.toNat
  let stream := stream.writeByte (kind.setWidth 8)
  let stream := if length > 1 then stream.writeByte (option.length.setWidth 8) else stream
  match option.content with
  | .TcpOptionUnknown bytes =>
    assert (length = 2 + bytes.length)
    pure (bytes.foldl writeByte stream)
  | .TcpOptionEnd =>
    assert (kind = TCPOPTION_END_OF_OPTION_LIST)
    assert (length = 1)
    pure stream
  | .TcpOptionNop =>
    assert (kind = TCPOPTION_NO_OPERATION)
    assert (length = 1)
    pure stream
  | .TcpOptionMaxSegmentSize maxSegmentSize =>
    assert (kind = TCPOPTION_MAXIMUM_SEGMENT_SIZE)
    assert (length = 4)
    pure (stream.writeUint16Be maxSegmentSize)
  | .TcpOptionWindowScale windowScale =>
    assert (kind = TCPOPTION_WINDOW_SCALE)
    assert (length = 3)
    pure (stream.writeByte (windowScale.setWidth 8))
  | .TcpOptionSackPermitted =>
    assert (kind = TCPOPTION_SACK_PERMITTED)
    assert (length = 2)
    pure stream
  | .TcpOptionSack sackItem =>
    assert (kind = TCPOPTION_SACK)
    assert (length = 2 + sackItem.length * 8)
    pure (sackItem.foldl writeSackItem stream)
  | .TcpOptionTimestamp senderTimestamp echoedTimestamp =>
    assert (kind = TCPOPTION_TIMESTAMP)
    assert (length = 10)
    pure ((stream.writeUint32Be senderTimestamp).writeUint32Be echoedTimestamp)

def serializeOptions (stream : MemoryOutputStream) :
    List TcpOption → Except Fault MemoryOutputStream
  | [] => .ok stream
  | option :: options => do
    let stream ← serializeOption stream option
    serializeOptions stream options

/-- The sum of the lengths of the options. -/
def optionsLength (options : List TcpOption) : ℕ :=
    (options.map fun option ↦ option.length.toNat).sum

def serialize (stream : MemoryOutputStream) (tcpHeader : TcpHeader) :
    Except Fault MemoryOutputStream := do
  assert (tcpHeader.crcMode = .CRC_COMPUTED)
  assert (tcpHeader.headerLength % 4 = 0)
  let tcp : tcphdr :=
    { th_sport := tcpHeader.srcPort
      th_dport := tcpHeader.destPort
      th_seq := tcpHeader.sequenceNo
      th_ack := tcpHeader.ackNo
      th_offs := BitVec.ofNat 4 (tcpHeader.headerLength / 4)
      th_x2 := 0
      th_flags := TH_FLAGS &&& tcpHeader.flags
      th_win := tcpHeader.window
      th_sum := tcpHeader.crc
      th_urp := tcpHeader.urgentPointer }
  let stream ← stream.writeBytes tcp.image
  let stream ← serializeOptions stream tcpHeader.headerOption
  let length := optionsLength tcpHeader.headerOption
  let stream :=
    if length % 4 ≠ 0 then stream.writeByteRepeatedly 0 (4 - length % 4) else stream
  assert (tcpHeader.headerLength = TCP_MIN_HEADER_LENGTH + length)
  pure stream

/-! ## Reading -/

variable (stream : MemoryInputStream)

def readSackItem : Except Fault (SackItem × MemoryInputStream) := do
  let (start, stream) ← stream.readUint32Be
  let (finish, stream) ← stream.readUint32Be
  pure (⟨start, finish⟩, stream)

def readSackItems (stream : MemoryInputStream) :
    ℕ → Except Fault (List SackItem × MemoryInputStream)
  | 0 => .ok ([], stream)
  | count + 1 => do
    let (si, stream) ← readSackItem stream
    let (items, stream) ← readSackItems stream count
    pure (si :: items, stream)

/-- The end of `deserializeOption`, for kinds that the switch does not know and for lengths that do
not belong to the kind. -/
def deserializeUnknown (kind : BitVec 32) (length : BitVec 8) (stream : MemoryInputStream) :
    Except Fault (TcpOption × MemoryInputStream) := do
  let (bytes, stream) ← stream.readBytewise (length.toNat - 2)
  pure (⟨kind, length.setWidth 16, .TcpOptionUnknown bytes⟩, stream)

def deserializeOption :
    Except Fault (TcpOption × MemoryInputStream) := do
  let (byte, stream) ← stream.readByte
  let kind := byte.setWidth 32
  if kind = TCPOPTION_END_OF_OPTION_LIST then pure (⟨kind, 1, .TcpOptionEnd⟩, stream)
  else if kind = TCPOPTION_NO_OPERATION then pure (⟨kind, 1, .TcpOptionNop⟩, stream)
  else do
    let (length, stream) ← stream.readByte
    if kind = TCPOPTION_MAXIMUM_SEGMENT_SIZE ∧ length = 4 then do
      let (maxSegmentSize, stream) ← stream.readUint16Be
      pure (⟨kind, 4, .TcpOptionMaxSegmentSize maxSegmentSize⟩, stream)
    else if kind = TCPOPTION_WINDOW_SCALE ∧ length = 3 then do
      let (windowScale, stream) ← stream.readByte
      pure (⟨kind, 3, .TcpOptionWindowScale (windowScale.setWidth 16)⟩, stream)
    else if kind = TCPOPTION_SACK_PERMITTED ∧ length = 2 then
      pure (⟨kind, 2, .TcpOptionSackPermitted⟩, stream)
    else if kind = TCPOPTION_SACK ∧ length.toNat > 2 ∧ length.toNat % 8 = 2 then do
      let (sackItem, stream) ← readSackItems stream (length.toNat / 8)
      pure (⟨kind, length.setWidth 16, .TcpOptionSack sackItem⟩, stream)
    else if kind = TCPOPTION_TIMESTAMP ∧ length = 10 then do
      let (senderTimestamp, stream) ← stream.readUint32Be
      let (echoedTimestamp, stream) ← stream.readUint32Be
      pure (⟨kind, 10, .TcpOptionTimestamp senderTimestamp echoedTimestamp⟩, stream)
    else deserializeUnknown kind length stream

/-- The loop over the options, up to the bit at `stop`.  Each round reads at least one byte, except
at the end of the stream, where the loop goes on for ever; `fuel` bytes are left up to `stop`. -/
def deserializeOptions (stop : ℕ) : ℕ → MemoryInputStream →
    Except Fault (List TcpOption × MemoryInputStream)
  | 0, stream => if stop ≤ stream.position then .ok ([], stream) else .error .notReturned
  | fuel + 1, stream =>
    if stop ≤ stream.position then .ok ([], stream)
    else do
      let (option, stream) ← deserializeOption stream
      let (options, stream) ← deserializeOptions stop fuel stream
      pure (option :: options, stream)

def deserialize : Except Fault (TcpHeader × MemoryInputStream) := do
  let position := stream.position
  let (buffer, stream) ← stream.readBytes TCP_MIN_HEADER_LENGTH
  let tcp ← tcphdr.ofImage buffer
  let headerLength := tcp.th_offs.toNat * 4
  let (headerOption, stream) ← deserializeOptions (position + 8 * headerLength) headerLength stream
  pure (
    { srcPort := tcp.th_sport
      destPort := tcp.th_dport
      sequenceNo := tcp.th_seq
      ackNo := tcp.th_ack
      headerLength := headerLength
      cwrBit := tcp.th_flags &&& TH_CWR = TH_CWR
      eceBit := tcp.th_flags &&& TH_ECE = TH_ECE
      urgBit := tcp.th_flags &&& TH_URG = TH_URG
      ackBit := tcp.th_flags &&& TH_ACK = TH_ACK
      pshBit := tcp.th_flags &&& TH_PUSH = TH_PUSH
      rstBit := tcp.th_flags &&& TH_RST = TH_RST
      synBit := tcp.th_flags &&& TH_SYN = TH_SYN
      finBit := tcp.th_flags &&& TH_FIN = TH_FIN
      window := tcp.th_win
      urgentPointer := tcp.th_urp
      crc := tcp.th_sum
      crcMode := .CRC_COMPUTED
      headerOption := headerOption }, stream)

/-! ## Options come back -/

/-- The kinds that have a class of their own. -/
def knownKinds : List (BitVec 32) :=
  [TCPOPTION_END_OF_OPTION_LIST, TCPOPTION_NO_OPERATION, TCPOPTION_MAXIMUM_SEGMENT_SIZE,
    TCPOPTION_WINDOW_SCALE, TCPOPTION_SACK_PERMITTED, TCPOPTION_SACK, TCPOPTION_TIMESTAMP]

/-- The options with the kind and the length of their class, and values within their widths. -/
def WellFormed (option : TcpOption) : Prop :=
  match option.content with
  | .TcpOptionEnd => option.kind = TCPOPTION_END_OF_OPTION_LIST ∧ option.length = 1
  | .TcpOptionNop => option.kind = TCPOPTION_NO_OPERATION ∧ option.length = 1
  | .TcpOptionMaxSegmentSize _ => option.kind = TCPOPTION_MAXIMUM_SEGMENT_SIZE ∧ option.length = 4
  | .TcpOptionWindowScale windowScale =>
    option.kind = TCPOPTION_WINDOW_SCALE ∧ option.length = 3 ∧ windowScale.toNat < 2 ^ 8
  | .TcpOptionSackPermitted => option.kind = TCPOPTION_SACK_PERMITTED ∧ option.length = 2
  | .TcpOptionSack sackItem =>
    option.kind = TCPOPTION_SACK ∧ option.length.toNat = 2 + 8 * sackItem.length ∧ sackItem ≠ []
  | .TcpOptionTimestamp _ _ => option.kind = TCPOPTION_TIMESTAMP ∧ option.length = 10
  | .TcpOptionUnknown bytes =>
    option.kind.toNat < 2 ^ 8 ∧ option.kind ∉ knownKinds ∧ option.length.toNat = 2 + bytes.length

def sackItemBytes (si : SackItem) : List (BitVec 8) :=
  bytesAt [24, 16, 8, 0] si.start ++ bytesAt [24, 16, 8, 0] si.finish

/-- What follows the kind and the length of an option. -/
def contentBytes : TcpOptionClass → List (BitVec 8)
  | .TcpOptionMaxSegmentSize maxSegmentSize => bytesAt [8, 0] maxSegmentSize
  | .TcpOptionWindowScale windowScale => [windowScale.setWidth 8]
  | .TcpOptionSack sackItem => sackItem.flatMap sackItemBytes
  | .TcpOptionTimestamp senderTimestamp echoedTimestamp =>
    bytesAt [24, 16, 8, 0] senderTimestamp ++ bytesAt [24, 16, 8, 0] echoedTimestamp
  | .TcpOptionUnknown bytes => bytes
  | _ => []

/-- The bytes of an option. -/
def optionBytes (option : TcpOption) : List (BitVec 8) :=
  [option.kind.setWidth 8] ++
    ((if option.length.toNat > 1 then [option.length.setWidth 8] else []) ++
      contentBytes option.content)

variable {option : TcpOption} {bytes : List (BitVec 8)} {stream}
variable (sackItem : List SackItem)

theorem length_flatMap_sackItemBytes :
    (sackItem.flatMap sackItemBytes).length = 8 * sackItem.length := by
  induction sackItem with
  | nil => rfl
  | cons si sackItem ih =>
    have hitem : (sackItemBytes si).length = 8 := rfl
    rw [flatMap_cons, length_append, ih, hitem, length_cons]
    omega

theorem length_optionBytes (h : WellFormed option) :
    (optionBytes option).length = option.length.toNat := by
  obtain ⟨kind, length, content⟩ := option
  cases content with
  | TcpOptionEnd | TcpOptionNop | TcpOptionMaxSegmentSize maxSegmentSize | TcpOptionSackPermitted
  | TcpOptionTimestamp senderTimestamp echoedTimestamp =>
    obtain ⟨-, rfl⟩ := h
    rfl
  | TcpOptionWindowScale windowScale =>
    obtain ⟨-, rfl, -⟩ := h
    rfl
  | TcpOptionSack sackItem =>
    obtain ⟨-, hlength, -⟩ := h
    have hlong : length.toNat > 1 := by
      change length.toNat = _ at hlength
      omega
    simp only [optionBytes, if_pos hlong, contentBytes, length_append, length_singleton,
      length_flatMap_sackItemBytes]
    change length.toNat = _ at hlength
    omega
  | TcpOptionUnknown bytes =>
    obtain ⟨-, -, hlength⟩ := h
    change length.toNat = _ at hlength
    have hlong : length.toNat > 1 := by omega
    simp only [optionBytes, if_pos hlong, contentBytes, length_append, length_singleton]
    omega

theorem writeSackItems_eq (stream : MemoryOutputStream) :
    sackItem.foldl writeSackItem stream = stream.append (sackItem.flatMap sackItemBytes) := by
  have hitem : ∀ (stream : MemoryOutputStream) (si : SackItem),
      writeSackItem stream si = stream.append (sackItemBytes si) := by
    intro stream si
    rw [writeSackItem, writeUint32Be_eq_append,
      writeUint32Be_eq_append, append_append, sackItemBytes]
  rw [← foldl_append_eq]
  exact congrArg (fun write ↦ sackItem.foldl write stream) (funext₂ hitem)

theorem serializeOption_eq (h : WellFormed option) (stream : MemoryOutputStream) :
    serializeOption stream option = .ok (stream.append (optionBytes option)) := by
  have hfront : (if option.length.toNat > 1 then
        (stream.writeByte (option.kind.setWidth 8)).writeByte (option.length.setWidth 8)
      else stream.writeByte (option.kind.setWidth 8)) =
      stream.append ([option.kind.setWidth 8] ++
        (if option.length.toNat > 1 then [option.length.setWidth 8] else [])) := by
    split <;> simp
  obtain ⟨kind, length, content⟩ := option
  simp only [serializeOption, hfront, optionBytes]
  cases content with
  | TcpOptionSack sackItem =>
    obtain ⟨rfl, hlength, -⟩ := h
    have hlength' : length.toNat = 2 + sackItem.length * 8 := by
      rw [Nat.mul_comm]
      exact hlength
    simp only [assert, hlength', if_true, writeSackItems_eq,
      append_append, append_assoc]
    rfl
  | TcpOptionUnknown bytes =>
    obtain ⟨-, -, hlength⟩ := h
    have hbytes : ∀ stream : MemoryOutputStream,
        bytes.foldl writeByte stream = stream.append bytes := fun _ ↦ rfl
    simp only [assert, hlength, if_true, hbytes, append_append,
      append_assoc]
    rfl
  | TcpOptionWindowScale windowScale =>
    obtain ⟨rfl, rfl, -⟩ := h
    rfl
  | TcpOptionEnd | TcpOptionNop | TcpOptionMaxSegmentSize maxSegmentSize | TcpOptionSackPermitted
  | TcpOptionTimestamp senderTimestamp echoedTimestamp =>
    obtain ⟨rfl, rfl⟩ := h
    rfl

theorem readSackItems_eq
    (h : stream.Upcoming (sackItem.flatMap sackItemBytes ++ bytes)) :
    readSackItems stream sackItem.length =
      .ok (sackItem, stream.advance (64 * sackItem.length)) := by
  induction sackItem generalizing stream with
  | nil => rfl
  | cons si sackItem ih =>
    have hitem : stream.Upcoming
      (sackItemBytes si ++ (sackItem.flatMap sackItemBytes ++ bytes)) := by
      rw [← append_assoc, ← flatMap_cons]
      exact h
    have hstart : stream.Upcoming (bytesAt [24, 16, 8, 0] si.start ++
        (bytesAt [24, 16, 8, 0] si.finish ++ (sackItem.flatMap sackItemBytes ++ bytes))) := by
      rw [← append_assoc]
      exact hitem
    have hthen : (stream.advance 32).Upcoming (bytesAt [24, 16, 8, 0] si.finish ++
        (sackItem.flatMap sackItemBytes ++ bytes)) := hstart.advance
    have hfinish : (stream.advance 32).readUint32Be = .ok (si.finish, stream.advance 64) := by
      rw [hthen.readUint32Be, MemoryInputStream.advance_advance]
    have hread : readSackItem stream = .ok (si, stream.advance 64) := by
      rw [readSackItem, bind_of_ok hstart.readUint32Be]
      exact bind_of_ok hfinish
    have hrest := ih hitem.advance
    have hlength : 64 + 64 * sackItem.length = 64 * (sackItem.length + 1) := by omega
    rw [length_cons, readSackItems, bind_of_ok hread, ← hlength,
      ← MemoryInputStream.advance_advance]
    exact bind_of_ok hrest

/-- What `deserializeOption` does after the kind and the length of an option. -/
theorem deserializeOption_of_length {kind length : BitVec 8}
    (h : stream.Upcoming (kind :: length :: bytes))
    (hend : kind.setWidth 32 ≠ TCPOPTION_END_OF_OPTION_LIST)
    (hnop : kind.setWidth 32 ≠ TCPOPTION_NO_OPERATION) :
    deserializeOption stream = (do
      let kind := kind.setWidth 32
      let stream := stream.advance 16
      if kind = TCPOPTION_MAXIMUM_SEGMENT_SIZE ∧ length = 4 then do
        let (maxSegmentSize, stream) ← stream.readUint16Be
        pure (⟨kind, 4, .TcpOptionMaxSegmentSize maxSegmentSize⟩, stream)
      else if kind = TCPOPTION_WINDOW_SCALE ∧ length = 3 then do
        let (windowScale, stream) ← stream.readByte
        pure (⟨kind, 3, .TcpOptionWindowScale (windowScale.setWidth 16)⟩, stream)
      else if kind = TCPOPTION_SACK_PERMITTED ∧ length = 2 then
        pure (⟨kind, 2, .TcpOptionSackPermitted⟩, stream)
      else if kind = TCPOPTION_SACK ∧ length.toNat > 2 ∧ length.toNat % 8 = 2 then do
        let (sackItem, stream) ← readSackItems stream (length.toNat / 8)
        pure (⟨kind, length.setWidth 16, .TcpOptionSack sackItem⟩, stream)
      else if kind = TCPOPTION_TIMESTAMP ∧ length = 10 then do
        let (senderTimestamp, stream) ← stream.readUint32Be
        let (echoedTimestamp, stream) ← stream.readUint32Be
        pure (⟨kind, 10, .TcpOptionTimestamp senderTimestamp echoedTimestamp⟩, stream)
      else deserializeUnknown kind length stream) := by
  have hlength : (stream.advance 8).readByte = .ok (length, stream.advance 16) := h.readByte_second
  rw [deserializeOption, bind_of_ok h.readByte]
  simp only [if_neg hend, if_neg hnop]
  rw [bind_of_ok hlength]

/-- An option of at most 255 bytes is read as it was written. -/
theorem deserializeOption_eq (h : WellFormed option) (hlength : option.length.toNat < 2 ^ 8)
    (hup : stream.Upcoming (optionBytes option ++ bytes)) :
    deserializeOption stream = .ok (option, stream.advance (8 * option.length.toNat)) := by
  obtain ⟨kind, length, content⟩ := option
  cases content with
  | TcpOptionEnd =>
    obtain ⟨rfl, rfl⟩ := h
    have hkind : stream.Upcoming (0#8 :: bytes) := hup
    rw [deserializeOption, bind_of_ok hkind.readByte]
    rfl
  | TcpOptionNop =>
    obtain ⟨rfl, rfl⟩ := h
    have hkind : stream.Upcoming (1#8 :: bytes) := hup
    rw [deserializeOption, bind_of_ok hkind.readByte]
    rfl
  | TcpOptionMaxSegmentSize maxSegmentSize =>
    obtain ⟨rfl, rfl⟩ := h
    have hfront : stream.Upcoming (2#8 :: 4#8 :: (bytesAt [8, 0] maxSegmentSize ++ bytes)) := hup
    have hvalue : (stream.advance 16).readUint16Be = .ok (maxSegmentSize, stream.advance 32) := by
      have hnext := hfront.advance_two
      rw [hnext.readUint16Be, MemoryInputStream.advance_advance]
    rw [deserializeOption_of_length hfront (by decide) (by decide)]
    exact bind_of_ok hvalue
  | TcpOptionWindowScale windowScale =>
    obtain ⟨rfl, rfl, hvalue⟩ := h
    have hfront : stream.Upcoming (3#8 :: 3#8 :: windowScale.setWidth 8 :: bytes) := hup
    have hread : (stream.advance 16).readByte =
        .ok (windowScale.setWidth 8, stream.advance 24) := by
      have hnext := hfront.advance_two
      rw [hnext.readByte, MemoryInputStream.advance_advance]
    rw [deserializeOption_of_length hfront (by decide) (by decide)]
    have hback : (windowScale.setWidth 8).setWidth 16 = windowScale :=
      setWidth_setWidth_of_lt hvalue
    apply (bind_of_ok hread).trans
    simp only [hback]
    rfl
  | TcpOptionSackPermitted =>
    obtain ⟨rfl, rfl⟩ := h
    have hfront : stream.Upcoming (4#8 :: 2#8 :: bytes) := hup
    rw [deserializeOption_of_length hfront (by decide) (by decide)]
    rfl
  | TcpOptionSack sackItem =>
    obtain ⟨rfl, hitems, hne⟩ := h
    change length.toNat = 2 + 8 * sackItem.length at hitems
    change length.toNat < 2 ^ 8 at hlength
    have hpos : 0 < sackItem.length := length_pos_iff.mpr hne
    have hlong : length.toNat > 1 := by omega
    have hfront : stream.Upcoming
        (5#8 :: length.setWidth 8 :: (sackItem.flatMap sackItemBytes ++ bytes)) := by
      simp only [optionBytes, if_pos hlong] at hup
      exact hup
    have hbyte := toNat_setWidth_of_lt hlength
    have hdiv : (length.setWidth 8).toNat / 8 = sackItem.length := by omega
    have hguard : (length.setWidth 8).toNat > 2 ∧ (length.setWidth 8).toNat % 8 = 2 := by omega
    have hread : readSackItems (stream.advance 16) ((length.setWidth 8).toNat / 8) =
        .ok (sackItem, stream.advance (8 * length.toNat)) := by
      have hnext := hfront.advance_two
      have hsum : 8 + 8 + 64 * sackItem.length = 8 * length.toNat := by omega
      rw [hdiv, readSackItems_eq sackItem hnext, MemoryInputStream.advance_advance, hsum]
    have hback : (length.setWidth 8).setWidth 16 = length := setWidth_setWidth_of_lt hlength
    have hkind : (5#8).setWidth 32 = TCPOPTION_SACK := rfl
    rw [deserializeOption_of_length hfront (by decide) (by decide)]
    have hmss : TCPOPTION_SACK ≠ TCPOPTION_MAXIMUM_SEGMENT_SIZE := by decide
    have hws : TCPOPTION_SACK ≠ TCPOPTION_WINDOW_SCALE := by decide
    have hpermitted : TCPOPTION_SACK ≠ TCPOPTION_SACK_PERMITTED := by decide
    simp only [hkind, hmss, hws, hpermitted, false_and, if_false, hguard, and_self, if_true, hback]
    exact bind_of_ok hread
  | TcpOptionTimestamp senderTimestamp echoedTimestamp =>
    obtain ⟨rfl, rfl⟩ := h
    have hfront : stream.Upcoming (8#8 :: 10#8 :: (bytesAt [24, 16, 8, 0] senderTimestamp ++
        (bytesAt [24, 16, 8, 0] echoedTimestamp ++ bytes))) := hup
    have hnext := hfront.advance_two
    have hsender : (stream.advance 16).readUint32Be =
        .ok (senderTimestamp, stream.advance 48) := by
      rw [hnext.readUint32Be, MemoryInputStream.advance_advance]
    have hechoed : (stream.advance 48).readUint32Be =
        .ok (echoedTimestamp, stream.advance 80) := by
      have hthen : (stream.advance 48).Upcoming
          (bytesAt [24, 16, 8, 0] echoedTimestamp ++ bytes) := hnext.advance
      rw [hthen.readUint32Be, MemoryInputStream.advance_advance]
    rw [deserializeOption_of_length hfront (by decide) (by decide)]
    apply (bind_of_ok hsender).trans
    exact bind_of_ok hechoed
  | TcpOptionUnknown content =>
    obtain ⟨hkind, hunknown, hcontent⟩ := h
    change length.toNat = 2 + content.length at hcontent
    change length.toNat < 2 ^ 8 at hlength
    have hlong : length.toNat > 1 := by omega
    have hfront : stream.Upcoming
        (kind.setWidth 8 :: length.setWidth 8 :: (content ++ bytes)) := by
      simp only [optionBytes, if_pos hlong] at hup
      exact hup
    have hkindBack : (kind.setWidth 8).setWidth 32 = kind := setWidth_setWidth_of_lt hkind
    have hback : (length.setWidth 8).setWidth 16 = length := setWidth_setWidth_of_lt hlength
    have hcount : (length.setWidth 8).toNat - 2 = content.length := by
      rw [toNat_setWidth_of_lt hlength]
      omega
    have hread : (stream.advance 16).readBytewise ((length.setWidth 8).toNat - 2) =
        .ok (content, stream.advance (8 * length.toNat)) := by
      have hnext := hfront.advance_two
      have hsum : 8 + 8 + 8 * content.length = 8 * length.toNat := by omega
      rw [hcount, hnext.readBytewise, MemoryInputStream.advance_advance, hsum]
    simp only [knownKinds, mem_cons, not_mem_nil, or_false, not_or] at hunknown
    obtain ⟨hend, hnop, hmss, hws, hpermitted, hsack, htimestamp⟩ := hunknown
    rw [deserializeOption_of_length hfront (by rwa [hkindBack]) (by rwa [hkindBack])]
    simp only [hkindBack, hmss, hws, hpermitted, hsack, htimestamp, false_and, if_false]
    rw [deserializeUnknown]
    apply (bind_of_ok hread).trans
    simp only [hback]
    rfl

/-! ## Whole headers come back -/

theorem length_pos (h : WellFormed option) : 0 < option.length.toNat := by
  rw [← length_optionBytes h, optionBytes, length_append, length_singleton]
  exact Nat.lt_of_lt_of_le Nat.one_pos (Nat.le_add_right _ _)

variable {options : List TcpOption} {header : TcpHeader}

theorem serializeOptions_eq (h : ∀ option ∈ options, WellFormed option)
    (stream : MemoryOutputStream) :
    serializeOptions stream options = .ok (stream.append (options.flatMap optionBytes)) := by
  induction options generalizing stream with
  | nil => rfl
  | cons option options ih =>
    rw [serializeOptions, bind_of_ok (serializeOption_eq (h option mem_cons_self) stream),
      ih fun option' hmem ↦ h option' (mem_cons_of_mem _ hmem),
      append_append, flatMap_cons]

theorem optionsLength_cons (option : TcpOption) (options : List TcpOption) :
    optionsLength (option :: options) = option.length.toNat + optionsLength options := rfl

theorem deserializeOptions_eq (h : ∀ option ∈ options, WellFormed option)
    (hsmall : optionsLength options < 2 ^ 8) {fuel stop : ℕ}
    (hfuel : optionsLength options ≤ fuel)
    (hstop : stop = stream.position + 8 * optionsLength options)
    (hup : stream.Upcoming (options.flatMap optionBytes ++ bytes)) :
    deserializeOptions stop fuel stream =
      .ok (options, stream.advance (8 * optionsLength options)) := by
  induction options generalizing stream fuel with
  | nil =>
    have hend : stop ≤ stream.position := Nat.le_of_eq hstop
    cases fuel with
    | zero => exact if_pos hend
    | succ fuel => exact if_pos hend
  | cons option options ih =>
    have hoption := h option mem_cons_self
    have hpos := length_pos hoption
    rw [optionsLength_cons] at hsmall hfuel hstop
    have hgo : ¬stop ≤ stream.position := by omega
    have hup' : stream.Upcoming
        (optionBytes option ++ (options.flatMap optionBytes ++ bytes)) := by
      rw [← append_assoc, ← flatMap_cons]
      exact hup
    have hhead := deserializeOption_eq hoption (by omega) hup'
    have hthen := hup'.advance
    rw [length_optionBytes hoption] at hthen
    cases fuel with
    | zero => omega
    | succ fuel =>
      have hstop' : stop =
          (stream.advance (8 * option.length.toNat)).position + 8 * optionsLength options := by
        simp only [MemoryInputStream.advance]
        omega
      have hrest : deserializeOptions stop fuel (stream.advance (8 * option.length.toNat)) = _ :=
        ih (fun option' hmem ↦ h option' (mem_cons_of_mem _ hmem)) (by omega) (by omega)
          hstop' hthen
      have hsum : 8 * option.length.toNat + 8 * optionsLength options =
          8 * (option.length.toNat + optionsLength options) := by
        omega
      rw [MemoryInputStream.advance_advance, hsum] at hrest
      rw [deserializeOptions, if_neg hgo]
      apply (bind_of_ok hhead).trans
      rw [optionsLength_cons]
      exact bind_of_ok hrest

/-- The header length fits the options, and the options fill whole words. -/
structure TcpHeaderWellFormed (header : TcpHeader) : Prop where
  headerOption : ∀ option ∈ header.headerOption, WellFormed option
  headerLength_eq :
    header.headerLength = TCP_MIN_HEADER_LENGTH + optionsLength header.headerOption
  headerLength_le : header.headerLength ≤ 60
  words : optionsLength header.headerOption % 4 = 0

/-- The image of the fixed part of a header. -/
def fixedPart (header : TcpHeader) : tcphdr where
  th_sport := header.srcPort
  th_dport := header.destPort
  th_seq := header.sequenceNo
  th_ack := header.ackNo
  th_offs := BitVec.ofNat 4 (header.headerLength / 4)
  th_x2 := 0
  th_flags := TH_FLAGS &&& header.flags
  th_win := header.window
  th_sum := header.crc
  th_urp := header.urgentPointer

theorem serialize_eq (h : TcpHeaderWellFormed header) (hcrc : header.crcMode = .CRC_COMPUTED) :
    serialize .empty header =
      .ok (empty.append
        ((fixedPart header).image ++ header.headerOption.flatMap optionBytes)) := by
  have hlength := h.headerLength_eq
  have hwords := h.words
  have hcomputed : assert (header.crcMode = .CRC_COMPUTED) = .ok () := if_pos hcrc
  have hfour : assert (header.headerLength % 4 = 0) = .ok () := by
    apply if_pos
    simp only [TCP_MIN_HEADER_LENGTH] at hlength
    omega
  have hfits : assert (header.headerLength =
      TCP_MIN_HEADER_LENGTH + optionsLength header.headerOption) = .ok () := if_pos hlength
  have himage : empty.writeBytes (fixedPart header).image =
      .ok (empty.append (fixedPart header).image) :=
    MemoryOutputStream.writeBytes_eq_append _ rfl
  have hpadding : ¬optionsLength header.headerOption % 4 ≠ 0 := fun hne ↦ hne hwords
  rw [serialize, bind_of_ok hcomputed, bind_of_ok hfour]
  apply (bind_of_ok himage).trans
  rw [bind_of_ok (serializeOptions_eq h.headerOption _), append_append]
  simp only [if_neg hpadding, hfits]
  rfl

theorem flags_masked (header : TcpHeader) :
    ((TH_FLAGS &&& header.flags) &&& TH_CWR = TH_CWR ↔ False) ∧
    ((TH_FLAGS &&& header.flags) &&& TH_ECE = TH_ECE ↔ False) ∧
    ((TH_FLAGS &&& header.flags) &&& TH_URG = TH_URG ↔ header.urgBit = true) ∧
    ((TH_FLAGS &&& header.flags) &&& TH_ACK = TH_ACK ↔ header.ackBit = true) ∧
    ((TH_FLAGS &&& header.flags) &&& TH_PUSH = TH_PUSH ↔ header.pshBit = true) ∧
    ((TH_FLAGS &&& header.flags) &&& TH_RST = TH_RST ↔ header.rstBit = true) ∧
    ((TH_FLAGS &&& header.flags) &&& TH_SYN = TH_SYN ↔ header.synBit = true) ∧
    ((TH_FLAGS &&& header.flags) &&& TH_FIN = TH_FIN ↔ header.finBit = true) := by
  unfold TcpHeader.flags
  generalize header.finBit = finBit
  generalize header.synBit = synBit
  generalize header.rstBit = rstBit
  generalize header.pshBit = pshBit
  generalize header.ackBit = ackBit
  generalize header.urgBit = urgBit
  generalize header.eceBit = eceBit
  generalize header.cwrBit = cwrBit
  revert finBit synBit rstBit pshBit ackBit urgBit eceBit cwrBit
  decide +kernel

/-- What is read is the header that was written, but for the two flags that the mask leaves out. -/
theorem deserialize_eq (h : TcpHeaderWellFormed header) (hcrc : header.crcMode = .CRC_COMPUTED) :
    ∃ rest, deserialize (.ofOutput (empty.append
        ((fixedPart header).image ++ header.headerOption.flatMap optionBytes))) =
      .ok ({ header with cwrBit := false, eceBit := false }, rest) := by
  have hlength := h.headerLength_eq
  have hle := h.headerLength_le
  have hwords := h.words
  simp only [TCP_MIN_HEADER_LENGTH] at hlength
  generalize houtput : empty.append
    ((fixedPart header).image ++ header.headerOption.flatMap optionBytes) = output
  have haligned : output.length % 8 = 0 := by
    rw [← houtput, MemoryOutputStream.length_append]
    simp only [empty]
    omega
  have hdata : output.data =
      (fixedPart header).image ++ (header.headerOption.flatMap optionBytes ++ []) := by
    rw [← houtput, data_append _ rfl, append_nil]
    rfl
  have hup := MemoryInputStream.upcoming_ofOutput haligned
  rw [hdata] at hup
  have himage : (ofOutput output).readBytes TCP_MIN_HEADER_LENGTH =
      .ok ((fixedPart header).image, (ofOutput output).advance 160) :=
    hup.readBytes
  have hoffs : (fixedPart header).th_offs.toNat * 4 = header.headerLength := by
    simp only [fixedPart, BitVec.toNat_ofNat]
    omega
  have hread : deserializeOptions (0 + 8 * header.headerLength) header.headerLength
      ((ofOutput output).advance 160) = _ :=
    deserializeOptions_eq h.headerOption (by omega) (by omega)
      (by simp only [ofOutput, MemoryInputStream.advance]; omega) hup.advance
  obtain ⟨hcwr, hece, hurg, hack, hpsh, hrst, hsyn, hfin⟩ := flags_masked header
  refine ⟨((ofOutput output).advance 160).advance
    (8 * optionsLength header.headerOption), ?_⟩
  rw [deserialize, bind_of_ok himage]
  apply (bind_of_ok (tcphdr.ofImage_image _)).trans
  simp only [hoffs]
  apply (bind_of_ok hread).trans
  simp only [fixedPart, hcwr, hece, hurg, hack, hpsh, hrst, hsyn, hfin, ← hcrc, decide_false,
    Bool.decide_eq_true]
  rfl

/-- The header is written, and the same header is read from what was written. -/
def RoundTrip (header : TcpHeader) : Prop :=
  ∃ stream rest, serialize .empty header = .ok stream ∧
    deserialize (.ofOutput stream) = .ok (header, rest)

/-- A header comes back exactly when its CRC is computed and both congestion flags are clear. -/
theorem tcpHeader_roundTrip_iff (h : TcpHeaderWellFormed header) :
    RoundTrip header ↔
      header.crcMode = .CRC_COMPUTED ∧ header.eceBit = false ∧ header.cwrBit = false := by
  constructor
  · intro ⟨stream, rest, hwrite, hread⟩
    have hcrc : header.crcMode = .CRC_COMPUTED := by
      by_contra hne
      have hrefused : assert (header.crcMode = .CRC_COMPUTED) = .error .runtimeError := if_neg hne
      rw [serialize, hrefused] at hwrite
      cases hwrite
    rw [serialize_eq h hcrc] at hwrite
    obtain rfl := Except.ok.inj hwrite
    obtain ⟨rest', hback⟩ := deserialize_eq h hcrc
    have heq := (Prod.mk.inj (Except.ok.inj (hback.symm.trans hread))).1
    have hece := congrArg TcpHeader.eceBit heq
    have hcwr := congrArg TcpHeader.cwrBit heq
    exact ⟨hcrc, hece.symm, hcwr.symm⟩
  · intro ⟨hcrc, hece, hcwr⟩
    obtain ⟨rest, hback⟩ := deserialize_eq h hcrc
    have heq : { header with cwrBit := false, eceBit := false } = header := by
      cases header
      simp only at hece hcwr
      rw [hece, hcwr]
    rw [heq] at hback
    exact ⟨_, rest, serialize_eq h hcrc, hback⟩

/-- A SYN with the options of a connection that supports selective acknowledgements. -/
def synHeader : TcpHeader where
  srcPort := 1025
  destPort := 80
  sequenceNo := 0x01020304
  ackNo := 0
  headerLength := 40
  cwrBit := false
  eceBit := false
  urgBit := false
  ackBit := false
  pshBit := false
  rstBit := false
  synBit := true
  finBit := false
  window := 14600
  urgentPointer := 0
  crc := 0xbeef
  crcMode := .CRC_COMPUTED
  headerOption :=
    [⟨2, 4, .TcpOptionMaxSegmentSize 1460⟩, ⟨4, 2, .TcpOptionSackPermitted⟩,
      ⟨8, 10, .TcpOptionTimestamp 7 0⟩, ⟨1, 1, .TcpOptionNop⟩, ⟨3, 3, .TcpOptionWindowScale 6⟩]

theorem synHeader_wellFormed : TcpHeaderWellFormed synHeader where
  headerOption := by
    simp only [synHeader, forall_mem_cons, not_mem_nil, false_imp_iff, implies_true,
      and_true]
    exact ⟨⟨rfl, rfl⟩, ⟨rfl, rfl⟩, ⟨rfl, rfl⟩, ⟨rfl, rfl⟩, rfl, rfl, by decide⟩
  headerLength_eq := rfl
  headerLength_le := by decide
  words := rfl

theorem tcpHeader_roundTrip_iff_synHeader : TcpHeaderWellFormed synHeader ∧ RoundTrip synHeader :=
  ⟨synHeader_wellFormed, (tcpHeader_roundTrip_iff synHeader_wellFormed).mpr ⟨rfl, rfl, rfl⟩⟩

/-- The SYN of a connection that asks for explicit congestion notification. -/
theorem not_roundTrip_ecnSetup :
    TcpHeaderWellFormed { synHeader with eceBit := true, cwrBit := true } ∧
      ¬RoundTrip { synHeader with eceBit := true, cwrBit := true } := by
  have hwell : TcpHeaderWellFormed { synHeader with eceBit := true, cwrBit := true } :=
    ⟨synHeader_wellFormed.headerOption, rfl, by decide, rfl⟩
  refine ⟨hwell, ?_⟩
  intro ⟨stream, rest, hwrite, hread⟩
  rw [serialize_eq hwell rfl] at hwrite
  obtain rfl := Except.ok.inj hwrite
  obtain ⟨rest', hback⟩ := deserialize_eq hwell rfl
  have heq := (Prod.mk.inj (Except.ok.inj (hback.symm.trans hread))).1
  exact Bool.false_ne_true (congrArg TcpHeader.eceBit heq)

end TcpHeaderSerializer

end Inet4.Tcp
