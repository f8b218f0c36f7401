import Inet4.Icn.NoCluster
import Inet4.Pccp.Alg

/-!
# The congestion indicator

`PccpIndicator` stands in front of a queue of the link layer.  Every Data packet carries the tag
`PitInd` to it; the indicator updates its averages of the length of the queue and of the table of
pending GETs, computes a congestion level from them, and raises the level in the packet's header.

The averages are `double`s, and their arithmetic is a parameter as in `PccpAlg`.  What the indicator
reads from its queue is an argument.  Signals are left out, and so is the parameter `p0`, which no
code reads.
-/

namespace Inet4.Pccp

open Icn

/-- The further operations of `double` that the indicator uses. -/
class DoubleMath (W : Type) extends DoubleArith W where
  le : W → W → Bool
  pow : W → W → W
  /-- `SIMTIME_DBL`, in seconds. -/
  simtimeDbl : SimTime → W

/-- Rational arithmetic.  The power is exact for whole exponents. -/
instance : DoubleMath ℚ where
  le x y := x ≤ y
  pow x y := x ^ y.floor
  simtimeDbl t := t / 1000000000000

/-- The value of `PccpClCode`. -/
def PccpClCode.toInt : PccpClCode → ℤ
  | .FREE => 0
  | .BUSY_1 => 1
  | .BUSY_2 => 2
  | .CONGESTED => 3

/-- The values of the parameter `algorithm`; `undefined` is any other string. -/
inductive IndicatorAlgorithm
  | ECP
  | CCS
  | PCCP
  | undefined

structure PccpIndicator (W : Type) where
  wq : W
  g : W
  CI_FREE : W
  CI_BUSY : W
  CI_CONG : W
  algorithm : IndicatorAlgorithm
  avgDataQueueLength : W
  avgPitLength : W
  /-- The congestion index. -/
  ci : W
  q_time : SimTime := 0

/-- What an indicator reads from the queue behind it. -/
structure Collection where
  numPackets : ℤ
  maxNumPackets : ℤ

namespace PccpIndicator

variable {W : Type} [DoubleMath W]

open DoubleArith DoubleMath

def min (a b : W) : W := if lt b a then b else a

variable (ind : PccpIndicator W)

def updateAverageQueueLengthAndCI (now : SimTime) (collection : Collection)
    (pitLength pitCapacity : ℤ) : PccpIndicator W :=
  let one : W := ofRat 1
  let dataQLength : W := ofRat collection.numPackets
  let dataQCapacity : W := ofRat collection.maxNumPackets
  let avgDataQueueLength :=
    if collection.numPackets > 0 then
      add (mul (sub one ind.wq) ind.avgDataQueueLength) (mul ind.wq dataQLength)
    else
      let m := div (simtimeDbl (now - ind.q_time)) (ofRat 0.0005)
      mul (pow (sub one ind.wq) m) ind.avgDataQueueLength
  let avgPitLength := add (mul (sub one ind.wq) ind.avgPitLength) (mul ind.wq (ofRat pitLength))
  let ci :=
    match ind.algorithm with
    | .ECP => div avgPitLength (ofRat pitCapacity)
    | .CCS => div avgDataQueueLength dataQCapacity
    | .PCCP =>
      add (div (mul (sub one ind.g) avgDataQueueLength) dataQCapacity)
        (mul ind.g (min (div avgPitLength dataQCapacity) one))
    | .undefined => ind.ci
  { ind with avgDataQueueLength, avgPitLength, ci }

def calculateCongestionLevel : PccpClCode :=
  if le ind.ci ind.CI_FREE then .FREE
  else if le ind.CI_CONG ind.ci then .CONGESTED
  else if lt ind.CI_FREE ind.ci && le ind.ci ind.CI_BUSY then .BUSY_1
  else .BUSY_2

/-- `setPccpCl`, on the header of the Data.  In the queues of the IEEE 802.11 MAC every packet has
the protocol `ieee80211Mac`. -/
def setPccpCl (data : Data) (cl : PccpClCode) : Data :=
  if cl.toInt > data.congestionLevel then { data with congestionLevel := cl.toInt } else data

/-- `matchesPacket`, with the level that is computed for a packet with the tag `PitInd`. -/
def matchesPacket (now : SimTime) (collection : Collection) (datagram : Datagram)
    : Option PccpClCode × PccpIndicator W × Packet :=
  match datagram.pitInd with
  | none => (none, ind, datagram.packet)
  | some pitInd =>
    let ind :=
      ind.updateAverageQueueLengthAndCI now collection pitInd.pitLength pitInd.pitCapacity
    let cl := ind.calculateCongestionLevel
    let packet : Packet :=
      match datagram.packet with
      | .data packet => .data { packet with head := setPccpCl packet.head cl }
      | .get packet => .get packet
    (some cl, ind, packet)

/-- The end of `pushOrSendPacket`, once the packet is in the queue. -/
def pushOrSendPacket (now : SimTime) (collection : Collection) : PccpIndicator W :=
  if collection.numPackets = 0 then { ind with q_time := now } else ind

/-- The level of a header is raised to the computed level, and never lowered. -/
theorem congestionLevel_setPccpCl (data : Data) (cl : PccpClCode) :
    (setPccpCl data cl).congestionLevel = max data.congestionLevel cl.toInt := by
  unfold setPccpCl
  split
  · rename_i hlt
    exact (max_eq_right hlt.le).symm
  · rename_i hle
    exact (max_eq_left (not_lt.mp hle)).symm

end PccpIndicator

end Inet4.Pccp
