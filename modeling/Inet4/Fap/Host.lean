import Inet4.Fap.BloomFilter
import Inet4.Machine

/-!
# A host that configures its address

`Fap` chooses an address, announces it in AREQ messages, and assigns it when no other host has
announced the same one in time; hosts with different filters merge their partitions.  The state
holds the members that the handlers read, and `log` records what the host does.  The record files,
the routing table and the member `buffer`, which no code reads, are left out.

The random draws of the code are arguments of the handlers: the numbers that `generateIPADDR` draws
one after the other, and the interval with which a timer is set.
-/

namespace Inet4

open SimTime (ofMillis)
open Except (ok)

namespace Fap

inductive FAPmsgType
  | HELLO
  | AREQ
  | AF
  | PARTITION
  deriving DecidableEq

structure FAPhead where
  fapType : FAPmsgType
  R : Bool := false
  I : Bool := false
  M : Bool := false
  counter : ℤ := 0
  seq : ℤ := 0
  source : Ipv4Address := 0
  dest : Ipv4Address := 0
  idNumber : BitVec 32 := 0
  filterValue : CString := []
  filterM : BitVec 32 := 0
  filterK : BitVec 32 := 0
  signature1 : BitVec 64 := 0
  signature2 : BitVec 64 := 0
  deriving DecidableEq

inductive HostState
  | IDLE
  | WAIT
  | INI
  | STEADY
  | MERGE
  | DEPART
  deriving DecidableEq

/-- The timer messages. -/
inductive Timer
  | Random
  | timerTL
  | timerTP
  | timerTW
  | timerTH
  | timerTC
  | timerts
  | timerTM
  | timerTF
  | startTimer
  | AreqTimer
  | timerTS
  deriving DecidableEq

/-- What a host does. -/
inductive Deed
  /-- `sendToUdp`, to all hosts. -/
  | sends (head : FAPhead)
  /-- `ChooseIpAddr`. -/
  | chooses (addr : Ipv4Address)
  /-- `SetIpAddr`. -/
  | assigns (addr : Ipv4Address)
  deriving DecidableEq

/-- `uniform(1, 256)`, converted to an integer. -/
abbrev RandNum := { randNum : BitVec 32 // 1 ≤ randNum.toNat ∧ randNum.toNat < 256 }

/-- MAX.time listening to the medium. -/
def TL : SimTime := ofMillis 1000

/-- Partition merging min.interval. -/
def TP : SimTime := ofMillis 3000

/-- AREQ waiting time. -/
def TW : SimTime := ofMillis 1200

/-- Waiting time before changing address. -/
def TC : SimTime := ofMillis 300

/-- Generated-filter-signature storage time. -/
def TS : SimTime := ofMillis 500

/-- Merge change to Steady. -/
def TM : SimTime := ofMillis 2500

end Fap

open Fap

structure Fap where
  xID : BitVec 32
  /-- `BloomFilter::hashfunc1`. -/
  hashfunc1 : CString → BitVec 64
  /-- The address of the interface. -/
  ipAddress : Ipv4Address := 0
  hostState : HostState := .IDLE
  /-- `0.0.0.1`, as long as no address is chosen. -/
  selectedAddr : Ipv4Address := 1
  ipAddrRecord : AssocMap Ipv4Address (BitVec 32) := ∅
  nodeCounter : BitVec 32 := 0
  filter : BloomFilter := {}
  waitLock : Bool := false
  mergeLock : Bool := false
  filterLock : Bool := false
  /-- Transmission times of a AREQ. -/
  NF : ℤ := 3
  /-- Neighbor reply threshold. -/
  NT : BitVec 32 := 2
  timers : SelfMessages Timer := ∅
  /-- The socket is bound. -/
  bound : Bool := false
  /-- What the host has done, latest first. -/
  log : List Deed := []

namespace Fap

def cancelEvent (node : Fap) (timer : Timer) : Fap :=
  { node with timers := node.timers.cancelEvent timer }

variable (node : Fap) (now : SimTime)
variable (timer : Timer)

/-- `scheduleAt(simTime() + delay, timer)`. -/
def schedule (delay : SimTime) : Except Fault Fap := do
  let timers ← node.timers.scheduleAt now timer (now + delay)
  return { node with timers }

/-- What `scheduleTP` and its siblings do. -/
def reschedule (delay : SimTime) : Except Fault Fap :=
  (node.cancelEvent timer).schedule now timer delay

def scheduleTP : Except Fault Fap := node.reschedule now .timerTP TP

def scheduleTW : Except Fault Fap := node.reschedule now .timerTW TW

def scheduleTM : Except Fault Fap := node.reschedule now .timerTM TM

def scheduleTC : Except Fault Fap := node.reschedule now .timerTC TC

/-- `scheduleTH`, which draws the interval. -/
def scheduleTH (now interval : SimTime) : Except Fault Fap :=
  node.reschedule now .timerTH interval

/-- `timerTS` is rescheduled without a function of its own. -/
def scheduleTS : Except Fault Fap := node.reschedule now .timerTS TS

def getFilterSignature : BitVec 32 := node.filter.getSignature node.hashfunc1

def sendToUdp (head : FAPhead) : Fap := { node with log := .sends head :: node.log }

def sendHello : Fap :=
  node.sendToUdp
    { fapType := .HELLO
      source := node.selectedAddr
      signature1 := node.getFilterSignature.zeroExtend 64 }

/-- `sendAREQ` for the address and the identifier of a host. -/
def sendAREQ (R : Bool) (select : Ipv4Address) (ID : BitVec 32) : Fap :=
  node.sendToUdp { fapType := .AREQ, R, source := select, idNumber := ID }

/-- `Ipv4Address::ALLONES_ADDRESS`. -/
def ALLONES_ADDRESS : Ipv4Address := BitVec.allOnes 32

def sendAF (dest : Ipv4Address) (I R : Bool) : Fap :=
  let af : FAPhead :=
    { fapType := .AF
      I
      R
      counter := node.nodeCounter.toInt
      source := node.selectedAddr
      dest }
  if R = false ∧ I = true then node.sendToUdp af
  else
    node.sendToUdp { af with
      filterValue := node.filter.invert
      filterM := node.filter.m
      filterK := node.filter.k
      signature1 := node.getFilterSignature.zeroExtend 64 }

def sendPartition (m : Bool) (head : FAPhead) : Fap :=
  node.sendToUdp
    { fapType := .PARTITION
      counter := head.counter
      M := m
      seq := node.xID.toInt
      source := node.selectedAddr
      filterValue := head.filterValue
      filterM := head.filterM
      filterK := head.filterK
      signature1 := node.getFilterSignature.zeroExtend 64
      signature2 := (head.signature1.truncate 32).zeroExtend 64 }

/-- `ADDRPool.prefix`. -/
def poolPrefix : Ipv4Address := 0xc0a80000

def generateIPADDR (randNum : RandNum) : Ipv4Address := poolPrefix + randNum.val

/-- The condition of the loop of `ChooseIpAddr`. -/
def isTaken (ipAddrRecord : AssocMap Ipv4Address (BitVec 32)) (filter : BloomFilter)
    (addr : Ipv4Address) : Except Fault Bool :=
  if addr ∈ ipAddrRecord then .ok true else filter.check addr

/-- The address at which the loop of `ChooseIpAddr` ends. -/
def freeAddr (ipAddrRecord : AssocMap Ipv4Address (BitVec 32)) (filter : BloomFilter) :
    List RandNum → Except Fault Ipv4Address
  | [] => .error .notReturned
  | randNum :: draws => do
    let addr := generateIPADDR randNum
    let taken ← isTaken ipAddrRecord filter addr
    if taken then freeAddr ipAddrRecord filter draws else return addr

variable (draws : List RandNum)

def chooseIpAddr : Except Fault Fap := do
  let addr ← freeAddr node.ipAddrRecord node.filter draws
  return { node with selectedAddr := addr, log := .chooses addr :: node.log }

def insertADDR (addr : Ipv4Address) : Except Fault Fap := do
  let filter ← node.filter.insert addr
  return { node with filter }

/-- `insertADDR` for each address of a list. -/
def insertAll (node : Fap) : List Ipv4Address → Except Fault Fap
  | [] => .ok node
  | addr :: addrs => do
    let node ← node.insertADDR addr
    node.insertAll addrs

def setIpAddr (addr : Ipv4Address) : Except Fault Fap :=
  { node with ipAddress := addr, log := .assigns addr :: node.log }.insertADDR addr

/-- `UpdateFilter`, the first parameter of which is an `int`. -/
def updateFilter (m : BitVec 32) (k : BitVec 32) (f : CString) : Except Fault Fap := do
  let filter ← { node.filter with k }.resizeFilter m.toInt
  let filter ← filter.convert f
  return { node with filter }

def initialConfigure2 : Except Fault Fap := do
  let node ← node.chooseIpAddr draws
  node.schedule now .AreqTimer 0

def initialConfigure : Except Fault Fap := do
  let node ← node.initialConfigure2 now draws
  node.scheduleTW now

def changeToIni : Except Fault Fap :=
  { node with hostState := .INI }.initialConfigure now draws

/-- `prossesFAPmessage`, case `HELLO`. -/
def prossesHELLO (head : FAPhead) : Except Fault Fap :=
  if node.hostState = .WAIT ∧ node.waitLock = false then
    let node := { node.cancelEvent .timerTL with waitLock := true }
    .ok (node.sendAF head.source true false)
  else if node.hostState = .STEADY then
    if head.signature1 ≠ node.getFilterSignature.zeroExtend 64 ∧ node.mergeLock = false then do
      let node ← node.scheduleTP now
      let node := { node with mergeLock := true }
      if head.source < node.ipAddress then return node.sendAF head.source false false
      else return node
    else .ok node
  else .ok node

/-- An AREQ for an address that is recorded for another host. -/
def isContested (head : FAPhead) : Bool :=
  match node.ipAddrRecord.find head.source with
  | some ID => ID ≠ head.idNumber
  | none => false

/-- An AREQ is recorded, unless its address is contested or recorded already. -/
def recordAREQ (head : FAPhead) : Fap :=
  if node.isContested head then
    { node with ipAddrRecord := node.ipAddrRecord.remove head.source }
  else
    { node with ipAddrRecord := node.ipAddrRecord.emplace head.source head.idNumber }

/-- `prossesFAPmessage`, case `AREQ`, in the state `INI`. -/
def prossesAREQ_INI (head : FAPhead) : Except Fault Fap :=
  let node := node.cancelEvent .timerTL
  if head.source = node.selectedAddr ∧ head.idNumber ≠ node.xID then do
    let node := (node.cancelEvent .timerTC).cancelEvent .AreqTimer
    let node ← node.scheduleTC now
    return { node with selectedAddr := 1 }
  else .ok (node.recordAREQ head)

/-- `prossesFAPmessage`, case `AREQ`, in the state `STEADY`. -/
def prossesAREQ_STEADY (head : FAPhead) : Except Fault Fap := do
  let node ← node.scheduleTS now
  if node.isContested head ∨ head.source ∈ node.ipAddrRecord then
    return node.recordAREQ head
  else do
    let node ← node.scheduleTS now
    return (node.recordAREQ head).sendAREQ false head.source head.idNumber

/-- `prossesFAPmessage`, case `AREQ`, in the state `MERGE`. -/
def prossesAREQ_MERGE (head : FAPhead) : Except Fault Fap :=
  if node.isContested head then .ok (node.recordAREQ head)
  else do
    let node ← node.scheduleTS now
    return (node.recordAREQ head).sendAREQ false head.source head.idNumber

/-- `prossesFAPmessage`, case `AREQ`. -/
def prossesAREQ (head : FAPhead) (draws : List RandNum) : Except Fault Fap :=
  match node.hostState with
  | .WAIT => node.changeToIni now draws
  | .INI => node.prossesAREQ_INI now head
  | .STEADY => node.prossesAREQ_STEADY now head
  | .MERGE => node.prossesAREQ_MERGE now head
  | _ => .ok node

/-- The filter that a message carries. -/
def carriedFilter (head : FAPhead) : Except Fault BloomFilter :=
  (BloomFilter.ofParameters head.filterM head.filterK).convert head.filterValue

/-- `filter = filter + f2`. -/
def mergeFilter (f2 : BloomFilter) : Except Fault Fap := do
  let filter ← node.filter.add f2
  return { node with filter }

/-- `prossesFAPmessage`, case `AF`, where the partition of the sender is merged; `m` decides which
side keeps its addresses. -/
def mergePartition (head : FAPhead) (m : Bool) : Except Fault Fap := do
  let node := node.sendPartition m head
  let f2 ← carriedFilter head
  let node ← node.mergeFilter f2
  let node ← node.scheduleTM now
  return { node with nodeCounter := node.nodeCounter + BitVec.ofInt 32 head.counter }

/-- `prossesFAPmessage`, case `AF`. -/
def prossesAF (head : FAPhead) (draws : List RandNum) : Except Fault Fap :=
  if node.hostState = .WAIT ∧ head.I ∧ head.R then do
    let counter ← addInt head.counter 1
    let node := { node with hostState := .INI, nodeCounter := BitVec.ofInt 32 counter }
    let node ← node.updateFilter head.filterM head.filterK head.filterValue
    node.changeToIni now draws
  else if head.I ∧ ¬head.R then
    .ok (node.sendAF ALLONES_ADDRESS true true)
  else if node.hostState = .STEADY ∧ head.signature1 ≠ node.getFilterSignature.zeroExtend 64 ∧
      ¬head.I then
    let node := { node with hostState := .MERGE }.cancelEvent .timerTH
    let counter : BitVec 32 := BitVec.ofInt 32 head.counter
    if ¬head.R then
      let node := node.sendAF ALLONES_ADDRESS false true
      node.mergePartition now head (decide ¬node.nodeCounter < counter)
    else node.mergePartition now head (decide ¬node.nodeCounter ≤ counter)
  else .ok node

/-- A PARTITION message is meant for the partition of the host. -/
def acceptsPartition (head : FAPhead) : Prop :=
  node.hostState = .STEADY ∧ head.signature1 = node.getFilterSignature.zeroExtend 64 ∧
    node.filterLock = false

instance (node : Fap) (head : FAPhead) : Decidable (node.acceptsPartition head) :=
  inferInstanceAs (Decidable (_ ∧ _))

/-- A host of the partition that gives way chooses a new address if the other one has its own. -/
def giveWay (f2 : BloomFilter) (draws : List RandNum) : Except Fault Fap := do
  let found ← f2.check node.selectedAddr
  if found then initialConfigure2 { node with hostState := .INI } now draws
  else return node

/-- `prossesFAPmessage`, case `PARTITION`. -/
def prossesPARTITION (head : FAPhead) (draws : List RandNum) : Except Fault Fap :=
  if node.acceptsPartition head then do
    let node := { node with hostState := .MERGE }
    let node ← node.scheduleTP now
    let node := { node with filterLock := true }.cancelEvent .timerTH
    let node ← node.scheduleTM now
    let node := { node with nodeCounter := node.nodeCounter + BitVec.ofInt 32 head.counter }
    let f2 ← carriedFilter head
    let node ← node.mergeFilter f2
    if head.M = false then node.giveWay now f2 draws else return node
  else .ok node

def prossesFAPmessage (head : FAPhead) (draws : List RandNum) : Except Fault Fap :=
  match head.fapType with
  | .HELLO => node.prossesHELLO now head
  | .AREQ => node.prossesAREQ now head draws
  | .AF => node.prossesAF now head draws
  | .PARTITION => node.prossesPARTITION now head draws

/-- The addresses that are recorded. -/
def recordedAddrs : List Ipv4Address := node.ipAddrRecord.keys

/-- `handleTimer` for `timerTW`. -/
def handleTW (now interval : SimTime) : Except Fault Fap := do
  let node ← node.setIpAddr node.selectedAddr
  let recorded := node.recordedAddrs
  let node ← node.insertAll recorded
  let nodeCounter := node.nodeCounter + BitVec.ofNat 32 recorded.length
  let node := { node with nodeCounter, hostState := .STEADY, ipAddrRecord := ∅ }
  node.scheduleTH now interval

/-- `handleTimer` for `timerTH`. -/
def handleTH (now interval : SimTime) : Except Fault Fap :=
  if node.hostState = .STEADY then do
    let node ← node.scheduleTH now interval
    return node.sendHello
  else .ok (node.cancelEvent .timerTH)

/-- `handleTimer` for `timerTC`. -/
def handleTC : Except Fault Fap := do
  let node := ((node.cancelEvent .timerTC).cancelEvent .AreqTimer).cancelEvent .timerTW
  node.initialConfigure now draws

/-- `handleTimer` for `timerTS`. -/
def handleTS : Except Fault Fap := do
  let recorded := node.recordedAddrs
  let node ← node.insertAll recorded
  let nodeCounter := node.nodeCounter + BitVec.ofNat 32 recorded.length
  return { node with nodeCounter, ipAddrRecord := ∅ }

/-- `handleTimer` for `timerTM`. -/
def handleTM (now interval : SimTime) : Except Fault Fap := do
  let node ← node.insertAll node.recordedAddrs
  let node := { node with hostState := .STEADY, ipAddrRecord := ∅ }
  node.scheduleTH now interval

/-- `handleTimer` for `timerTF`.  `NT` is unsigned, and the test `NT >= 0` always succeeds. -/
def handleTF (now interval : SimTime) : Except Fault Fap :=
  { node with NT := node.NT - 1 }.schedule now .timerTF interval

/-- `handleTimer` for `startTimer`. -/
def handleStart : Except Fault Fap := do
  let node := { node.cancelEvent .startTimer with bound := true }
  let node ← node.schedule now .timerTL TL
  return { node with hostState := .WAIT }

/-- `handleTimer` for `AreqTimer`. -/
def handleAreqTimer (now interval : SimTime) : Except Fault Fap := do
  let NF ← addInt node.NF (-1)
  let node := { node with NF }
  if 0 ≤ NF then do
    let node ← node.schedule now .AreqTimer interval
    return node.sendAREQ false node.selectedAddr node.xID
  else return node

/-- `handleTimer`, for a timer that the kernel has taken out of the future event set. -/
def handleTimer (draws : List RandNum) (interval : SimTime) : Except Fault Fap :=
  let node := node.cancelEvent timer
  match timer with
  | .timerTL => node.changeToIni now draws
  | .timerTP => .ok { node with mergeLock := false, filterLock := false }
  | .timerTW => node.handleTW now interval
  | .timerTH => node.handleTH now interval
  | .timerTC => node.handleTC now draws
  | .timerTS => node.handleTS
  | .timerTM => node.handleTM now interval
  | .timerTF => node.handleTF now interval
  | .startTimer => node.handleStart now
  | .AreqTimer => node.handleAreqTimer now interval
  | .timerts => .ok node
  | .Random => .ok node

section Parts

variable {node node' : Fap} {now delay : SimTime} {timer : Timer} {head : FAPhead}
variable {draws : List RandNum} {addr : Ipv4Address}

theorem schedule_eq_ok (h : node.schedule now timer delay = .ok node') :
    timer ∉ node.timers ∧ node' =
      { node with timers := node.timers.assign timer (now + delay) } := by
  obtain ⟨timers, htimers, h⟩ := bind_eq_ok h
  obtain ⟨hfree, -, rfl⟩ := SelfMessages.scheduleAt_eq_ok htimers
  exact ⟨hfree, (ok.inj h).symm⟩

theorem reschedule_eq_ok (h : node.reschedule now timer delay = .ok node') :
    node' = { node with timers := (node.timers.cancelEvent timer).assign timer (now + delay) } :=
  (schedule_eq_ok h).2

theorem reschedule_ok (node : Fap) (now : SimTime) (timer : Timer) (hdelay : 0 ≤ delay) :
    node.reschedule now timer delay =
      .ok { node with timers := (node.timers.cancelEvent timer).assign timer (now + delay) } := by
  have hlater : now ≤ now + delay := Int.le_add_of_nonneg_right hdelay
  exact bind_of_ok (SelfMessages.scheduleAt_cancelEvent hlater)

theorem chooseIpAddr_ok (h : freeAddr node.ipAddrRecord node.filter draws = .ok addr) :
    node.chooseIpAddr draws =
      .ok { node with selectedAddr := addr, log := .chooses addr :: node.log } :=
  bind_of_ok h

theorem chooseIpAddr_eq_ok (h : node.chooseIpAddr draws = .ok node') :
    ∃ addr, freeAddr node.ipAddrRecord node.filter draws = .ok addr ∧
      node' = { node with selectedAddr := addr, log := .chooses addr :: node.log } := by
  obtain ⟨addr, hfree, h⟩ := bind_eq_ok h
  exact ⟨addr, hfree, (ok.inj h).symm⟩

theorem insertADDR_eq_ok (h : node.insertADDR addr = .ok node') :
    ∃ filter, node' = { node with filter } := by
  obtain ⟨filter, -, h⟩ := bind_eq_ok h
  exact ⟨filter, (ok.inj h).symm⟩

theorem insertAll_eq_ok {addrs : List Ipv4Address} (h : node.insertAll addrs = .ok node') :
    ∃ filter, node' = { node with filter } := by
  induction addrs generalizing node with
  | nil => exact ⟨node.filter, (ok.inj h).symm⟩
  | cons addr addrs ih =>
    obtain ⟨mid, hmid, h⟩ := bind_eq_ok h
    obtain ⟨filter, rfl⟩ := insertADDR_eq_ok hmid
    obtain ⟨filter', rfl⟩ := ih h
    exact ⟨filter', rfl⟩

theorem setIpAddr_eq_ok (h : node.setIpAddr addr = .ok node') :
    ∃ filter, node' =
      { node with filter, ipAddress := addr, log := .assigns addr :: node.log } :=
  insertADDR_eq_ok h

theorem updateFilter_eq_ok {m k : BitVec 32} {f : CString}
    (h : node.updateFilter m k f = .ok node') : ∃ filter, node' = { node with filter } := by
  obtain ⟨resized, -, h⟩ := bind_eq_ok h
  obtain ⟨filter, -, h⟩ := bind_eq_ok h
  exact ⟨filter, (ok.inj h).symm⟩

theorem mergeFilter_ok {f2 filter : BloomFilter} (h : node.filter.add f2 = .ok filter) :
    node.mergeFilter f2 = .ok { node with filter } :=
  bind_of_ok h

theorem mergeFilter_eq_ok {f2 : BloomFilter} (h : node.mergeFilter f2 = .ok node') :
    ∃ filter, node.filter.add f2 = .ok filter ∧ node' = { node with filter } := by
  obtain ⟨filter, hadd, h⟩ := bind_eq_ok h
  exact ⟨filter, hadd, (ok.inj h).symm⟩

theorem recordAREQ_eq (node : Fap) (head : FAPhead) :
    ∃ ipAddrRecord, node.recordAREQ head = { node with ipAddrRecord } := by
  unfold recordAREQ
  split <;> exact ⟨_, rfl⟩

end Parts

/-- What drives a host. -/
inductive FapAction
  | receive (head : FAPhead)
  | expire (timer : Timer)

/-- An action, the clock reading at which it happens, and what the handler draws. -/
structure FapEvent where
  now : SimTime
  action : FapAction
  draws : List RandNum := []
  interval : SimTime := 0

/-- What a handler does. -/
def handle (event : FapEvent) : Except Fault Fap :=
  match event.action with
  | .receive head => node.prossesFAPmessage event.now head event.draws
  | .expire timer => node.handleTimer event.now timer event.draws event.interval

/-- The intervals that can be drawn when a timer expires. -/
def CanDraw (interval : SimTime) : Prop :=
  match timer with
  | .AreqTimer => 0 ≤ interval ∧ interval < ofMillis 400
  | .timerTF => 0 ≤ interval ∧ interval < ofMillis 300
  | .timerTW | .timerTH | .timerTM =>
    ofMillis 500 ≤ interval ∧ interval < ofMillis 1500
  | _ => True

/-- Messages reach a host once its socket is bound, and timers expire when they are due. -/
def Enabled (event : FapEvent) : Prop :=
  (∀ msg ∈ node.timers.entries, event.now ≤ msg.2) ∧
    match event.action with
    | .receive _ => node.bound
    | .expire timer =>
      node.timers.find timer = some event.now ∧ CanDraw timer event.interval

/-- A host in its environment. -/
def machine : Machine Fap FapEvent Fault where
  Enabled := Enabled
  handle := handle

instance (timer : Timer) (interval : SimTime) : Decidable (CanDraw timer interval) :=
  match timer with
  | .AreqTimer | .timerTF | .timerTW | .timerTH | .timerTM => inferInstanceAs (Decidable (_ ∧ _))
  | .Random | .timerTL | .timerTP | .timerTC | .timerts | .startTimer | .timerTS => isTrue trivial

instance (node : Fap) (event : FapEvent) : Decidable (machine.Enabled node event) :=
  match event with
  | ⟨_, .receive _, _, _⟩ | ⟨_, .expire _, _, _⟩ => inferInstanceAs (Decidable (_ ∧ _))

/-- `handleStartOperation`, with the address of the interface and the time for which `startTimer` is
scheduled. -/
def initial (xID : BitVec 32) (hashfunc1 : CString → BitVec 64) (ipAddress : Ipv4Address)
    (start : SimTime) : Fap where
  xID
  hashfunc1
  ipAddress
  timers := AssocMap.assign ∅ .startTimer start

end Fap

end Inet4
