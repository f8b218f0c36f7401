import Inet4.Icn.Packet
import Inet4.Machine

/-!
# A node that chooses its cluster head

`SimpleCluster` makes each node a cluster head or finds it one: the node with the largest `NID` of
its neighbourhood becomes head, the others wait for the CALL of a head and step in when none
comes.  The authentication of other nodes, the displays and the record files are left out; the
static member `change` is counted for each node.  The parameters `waitingTime` and `collectTime` are
those of the module, and a value drawn by `uniform` is an argument of the function that draws it.
-/

namespace Inet4.Icn

/-- `operator<` compares the words in their order. -/
instance : LT NID := ⟨fun lhs rhs ↦ lhs.value < rhs.value⟩

instance (lhs rhs : NID) : Decidable (lhs < rhs) :=
  inferInstanceAs (Decidable (_ < _))

inductive PacketType
  | INIT
  | CALL
  | ACK
  deriving DecidableEq

structure SimpleClusterPacket where
  type : PacketType
  nid : NID
  MAC : MacAddress
  nodeIndex : ℤ
  deriving DecidableEq

/-- `ClusterEntry`, without `clusterhead`, by which the entries are ordered: a hash of the
identifier of the head, as the constructor initialises it from a parameter that is not `const`. -/
structure ClusterEntry where
  headAddr : MacAddress
  lastUpdate : SimTime
  deriving DecidableEq

inductive ClusterState
  | INI
  | PREHEAD
  | HEAD
  | MEMBER
  | GATEWAY
  deriving DecidableEq

/-- The timer messages of a node. -/
inductive ClusterTimer
  | wait
  | startTimer
  | hello
  | collect
  | retry
  | iniTimer
  | neighborsClear
  | prehead
  deriving DecidableEq

/-- The members that only `initialize` sets, and the constructor `NID(T &)`. -/
structure ClusterModule where
  hash : NID → NID
  nid : NID
  nodeIndex : ℤ
  /-- The address of `ie5`. -/
  macAddress : MacAddress
  waitingTime : SimTime
  collectingTime : SimTime

structure SimpleCluster where
  state : ClusterState := .INI
  maxNeighbor : NID
  neighbors : Finset ℤ := ∅
  clusterHeads : Finset ℤ := ∅
  clusterTable : AssocMap NID ClusterEntry := ∅
  retryTimes : ℕ
  change : ℕ := 0
  timers : SelfMessages ClusterTimer := ∅
  /-- What has been sent to `ifOut`, latest first. -/
  ifOut : List SimpleClusterPacket := []

namespace SimpleCluster

def iniTime : SimTime := SimTime.ofMillis 1000

def nbClearInterval : SimTime := SimTime.ofMillis 500

variable (own : ClusterModule)

def preHeadChange : SimTime := own.waitingTime

def cancelEvent (node : SimpleCluster) (timer : ClusterTimer) : SimpleCluster :=
  { node with timers := node.timers.cancelEvent timer }

def scheduleAt (node : SimpleCluster) (now at_ : SimTime) (timer : ClusterTimer) :
    Except Fault SimpleCluster := do
  let timers ← node.timers.scheduleAt now timer at_
  return { node with timers }

variable (node : SimpleCluster)

def sendCluster (type : PacketType) : SimpleCluster :=
  { node with ifOut := ⟨type, own.nid, own.macAddress, own.nodeIndex⟩ :: node.ifOut }

variable (now time : SimTime)

/-- `scheduleHello`; `time` is drawn from `uniform(0, helloTime)`. -/
def scheduleHello : Except Fault SimpleCluster :=
  ((node.cancelEvent .hello).sendCluster own .CALL).scheduleAt now (now + time) .hello

def scheduleWait (now : SimTime) : Except Fault SimpleCluster :=
  (node.cancelEvent .wait).scheduleAt now (now + own.waitingTime) .wait

/-- `scheduleRetry`; `time` is drawn from `uniform(0, interval)`. -/
def scheduleRetry : Except Fault SimpleCluster :=
  if node.retryTimes > 0 then
    ({ node with retryTimes := node.retryTimes - 1 }.sendCluster own .INIT).scheduleAt
      now (now + time) .retry
  else .ok node

def becomeMember (now : SimTime) : Except Fault SimpleCluster := do
  let node := (node.cancelEvent .prehead).cancelEvent .neighborsClear
  let node ← node.scheduleAt now (now + nbClearInterval) .neighborsClear
  let node ← (node.cancelEvent .hello).scheduleWait own now
  return { node with state := .MEMBER }

def becomeGateway (now : SimTime) : Except Fault SimpleCluster := do
  let node ← (node.cancelEvent .neighborsClear).scheduleAt now (now + nbClearInterval)
    .neighborsClear
  let node ← (node.cancelEvent .hello).scheduleWait own now
  return { node with state := .GATEWAY }

def becomePrehead : Except Fault SimpleCluster := do
  let node ← (node.cancelEvent .wait).scheduleAt now (now + preHeadChange own) .prehead
  { node with state := .PREHEAD }.scheduleHello own now time

def becomeHead : Except Fault SimpleCluster :=
  let node := { node.cancelEvent .wait with state := .HEAD }
  let change := if now > own.collectingTime + own.waitingTime then node.change + 1 else node.change
  { node with change }.scheduleHello own now time

def isMax : Bool := own.nid = node.maxNeighbor

/-- The branches on the state for a CALL; none of them throws, since there are no other states. -/
def called (now : SimTime) (head : SimpleClusterPacket) : Except Fault SimpleCluster :=
  match node.state with
  | .INI => do
    let node ← node.becomeMember own now
    return (node.cancelEvent .retry).cancelEvent .collect
  | .MEMBER =>
    if node.clusterHeads.card > 1 then do
      let node ← node.becomeGateway own now
      node.scheduleWait own now
    else node.scheduleWait own now
  | .GATEWAY =>
    if node.clusterHeads.card = 1 then do
      let node ← node.becomeMember own now
      node.scheduleWait own now
    else node.scheduleWait own now
  | .PREHEAD => if own.nodeIndex < head.nodeIndex then node.becomeMember own now else .ok node
  | .HEAD => .ok node

def processClusterPacket (now : SimTime) (head : SimpleClusterPacket)
    : Except Fault SimpleCluster :=
  let node := node.cancelEvent .iniTimer
  match head.type with
  | .INIT =>
    .ok { node with
      neighbors := insert head.nodeIndex node.neighbors
      maxNeighbor := if node.maxNeighbor < head.nid then head.nid else node.maxNeighbor }
  | .CALL => do
    let node := { node with clusterHeads := insert head.nodeIndex node.clusterHeads }
    let node ← node.called own now head
    let clusterhead := own.hash head.nid
    return { node with clusterTable := node.clusterTable.emplace clusterhead ⟨head.MAC, now⟩ }
  | .ACK => .ok node

/-- `handleSelfMessage`, for a message that the kernel has taken out of the future event set.  A
node that starts later than at time 0 only authenticates itself. -/
def handleSelfMessage (msg : ClusterTimer) : Except Fault SimpleCluster :=
  match msg with
  | .startTimer =>
    if now > 0 then .ok node
    else do
      let node ← (node.sendCluster own .INIT).scheduleAt now iniTime .iniTimer
      let node ← node.scheduleAt now (now + own.collectingTime) .collect
      node.scheduleRetry own now time
  | .collect =>
    let node := node.cancelEvent .retry
    if node.isMax own then node.becomeHead own now time else node.scheduleWait own now
  | .retry => if node.retryTimes > 1 then node.scheduleRetry own now time else .ok node
  | .wait =>
    if node.state = .INI ∨ now < SimTime.ofMillis 1000 then node.becomePrehead own now time
    else node.becomeHead own now time
  | .hello => node.scheduleHello own now time
  | .iniTimer => .ok node
  | .neighborsClear =>
    { node with clusterHeads := ∅ }.scheduleAt now (now + nbClearInterval) .neighborsClear
  | .prehead => node.becomeHead own now time

/-- The node after `initialize`, with the parameters `retry` and `startTime`. -/
def initialized (retry : ℕ) (startTime : SimTime) : SimpleCluster where
  maxNeighbor := own.nid
  retryTimes := retry
  timers := (∅ : SelfMessages ClusterTimer).assign .startTimer startTime

end SimpleCluster

end Inet4.Icn
