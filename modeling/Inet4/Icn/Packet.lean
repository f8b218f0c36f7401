import Inet4.Icn.Field
import Inet4.Kernel

/-!
# GET and Data packets

The headers `Get` and `Data`, restricted to the fields that a modelled function reads or returns
(the routing trace, QoS, key and statistics fields are left out), and packets that consist of one
header and a payload of bytes.  Both headers have a chunk length of 78 B, which is also the
`HeaderLength` of `Data`; no code changes it.
-/

namespace Inet4.Icn

abbrev MacAddress := BitVec 48

/-- `MacAddress::BROADCAST_ADDRESS`. -/
def BROADCAST_ADDRESS : MacAddress := BitVec.allOnes 48

/-- `Port_t`. -/
abbrev Port := BitVec 32

abbrev Byte := BitVec 8

/-- The header `Get`. -/
structure Get where
  nexthop : NID := default
  timeToLive : ℤ := 2
  portNumber1 : Port := 0
  sid : SID
  source : NID := default
  lastHop : NID := default
  MAC : MacAddress := 0
  mustBeFresh : Bool := false
  nonce : ℤ := 0
  deriving DecidableEq

/-- The header `Data`; lengths are in bytes. -/
structure Data where
  timeToLive : ℤ := 8
  moreFragments : Bool := false
  totalLength : ℤ := 0
  portNumber2 : Port := 0
  sid : SID
  nid : NID := default
  MAC : MacAddress := 0
  offset : ℕ := 0
  lastHop : NID := default
  comeFromSource : Bool := false
  congestionLevel : ℤ := 0
  routeLifetime : SimTime := 0
  routeMetric : ℤ := 0
  deriving DecidableEq

/-- `getChunkLength` of both headers, in bytes; the `HeaderLength` of every `Data`. -/
def headerLength : ℤ := 78

/-- A packet whose first chunk is a `Get`. -/
structure GetPacket where
  head : Get
  payload : List Byte := []
  deriving DecidableEq

/-- A packet whose first chunk is a `Data`. -/
structure DataPacket where
  head : Data
  payload : List Byte
  deriving DecidableEq

/-- `getDataLength`, in bytes. -/
def DataPacket.dataLength (packet : DataPacket) : ℤ := headerLength + packet.payload.length

inductive Packet
  | get (packet : GetPacket)
  | data (packet : DataPacket)
  deriving DecidableEq

namespace Packet

/-- `peekAtFront<Get>` fails on a chunk of another type. -/
def peekGet : Packet → Except Fault Get
  | .get packet => .ok packet.head
  | .data _ => .error .runtimeError

/-- `peekAtFront<Data>` fails on a chunk of another type. -/
def peekData : Packet → Except Fault Data
  | .data packet => .ok packet.head
  | .get _ => .error .runtimeError

end Packet

/-- `TYPE` of `colorfields.msg`. -/
inductive TYPE
  | GET
  | DATA
  deriving DecidableEq

end Inet4.Icn
