import Inet4.BridgeElection
import Inet4.Kernel
import Mathlib.Data.BitVec

/-!
# The spanning tree protocol of a bridge

A bridge stores for each of its ports the best configuration BPDU that has arrived there, the cost
of the link added.  Without information about a better root it takes itself for the root and all its
ports are designated.  Otherwise the port with the best information is the root port, and the other
ports are designated when what the bridge would send is better than what they have stored.

Ports are named by their positions in the interface table; their interface ids, which are unique,
are what the BPDUs carry as port numbers.
-/

namespace Inet4.Ieee8021d

abbrev MacAddress := BitVec 48

/-- `Ieee8021dInterfaceData::PortRole`. -/
inductive PortRole
  | ALTERNATE | NOTASSIGNED | DISABLED | DESIGNATED | BACKUP | ROOT
  deriving DecidableEq, Repr

/-- `Ieee8021dInterfaceData::PortState`. -/
inductive PortState
  | DISCARDING | LEARNING | FORWARDING
  deriving DecidableEq, Repr

/-- `Ieee8021dInterfaceData`, with the values of the constructor of `PortInfo`. -/
structure Ieee8021dInterfaceData where
  priority : BitVec 32 := 0
  linkCost : BitVec 32 := 1
  state : PortState := .FORWARDING
  role : PortRole := .NOTASSIGNED
  rootPriority : BitVec 32 := 0
  rootAddress : MacAddress := 0
  rootPathCost : BitVec 32 := 0
  bridgePriority : BitVec 32 := 0
  bridgeAddress : MacAddress := 0
  portPriority : BitVec 32 := 0
  portNum : BitVec 32 := -1
  age : SimTime := 0
  maxAge : SimTime := 0
  fdWhile : SimTime := 0
  fwdDelay : SimTime := 0
  helloTime : SimTime := 0
  lostBPDU : BitVec 32 := 0
  deriving DecidableEq, Repr

/-- `BpduCfg`; the priorities of bridges have two bytes. -/
structure BpduCfg where
  tcaFlag : Bool
  tcFlag : Bool
  rootPriority : BitVec 16
  rootAddress : MacAddress
  rootPathCost : BitVec 32
  bridgePriority : BitVec 16
  bridgeAddress : MacAddress
  portPriority : BitVec 32
  portNum : BitVec 32
  messageAge : SimTime
  maxAge : SimTime
  helloTime : SimTime
  forwardDelay : SimTime
  deriving DecidableEq, Repr

/-- The ids of the interfaces, in the order of the interface table. -/
structure InterfaceTable (numPorts : ℕ) where
  interfaceId : Fin numPorts → BitVec 32
  interfaceId_injective : Function.Injective interfaceId

structure Stp (numPorts : ℕ) where
  ifTable : InterfaceTable numPorts
  bridgePriority : BitVec 32
  bridgeAddress : MacAddress
  maxAge : SimTime
  helloTime : SimTime
  forwardDelay : SimTime
  isRoot : Bool
  rootInterfaceId : BitVec 32
  desPorts : List (Fin numPorts)
  rootPathCost : BitVec 32
  rootPriority : BitVec 32
  rootAddress : MacAddress
  currentMaxAge : SimTime
  currentFwdDelay : SimTime
  currentHelloTime : SimTime
  topologyChangeNotification : Bool
  topologyChangeRecvd : Bool
  /-- The protocol data of the interfaces. -/
  ports : Fin numPorts → Ieee8021dInterfaceData

/-- `compareBridgeIDs`: positive when the first one is superior. -/
def compareBridgeIDs (aPriority : BitVec 32) (aAddress : MacAddress) (bPriority : BitVec 32)
    (bAddress : MacAddress) : ℤ :=
  if aPriority < bPriority then 1
  else if aPriority > bPriority then -1
  else if aAddress < bAddress then 1
  else if aAddress > bAddress then -1
  else 0

def comparePortIDs (aPriority aNum bPriority bNum : BitVec 32) : ℤ :=
  if aPriority < bPriority then 1
  else if aPriority > bPriority then -1
  else if aNum < bNum then 1
  else if aNum > bNum then -1
  else 0

def comparePorts (portA portB : Ieee8021dInterfaceData) : ℤ :=
  let result := compareBridgeIDs portA.rootPriority portA.rootAddress portB.rootPriority
    portB.rootAddress
  if result ≠ 0 then result
  else if portA.rootPathCost < portB.rootPathCost then 1
  else if portA.rootPathCost > portB.rootPathCost then -1
  else
    let result := compareBridgeIDs portA.bridgePriority portA.bridgeAddress portB.bridgePriority
      portB.bridgeAddress
    if result ≠ 0 then result
    else comparePortIDs portA.portPriority portA.portNum portB.portPriority portB.portNum

namespace Stp

variable {numPorts : ℕ}
variable (stp : Stp numPorts)
variable (port : Fin numPorts)

/-- `generateBPDU`: what is sent on a port. -/
def generateBPDU (tcFlag tcaFlag : Bool) : BpduCfg where
  tcFlag := stp.topologyChangeNotification && (stp.isRoot || tcFlag)
  tcaFlag := stp.topologyChangeNotification && !(stp.isRoot || tcFlag) && tcaFlag
  bridgeAddress := stp.bridgeAddress
  bridgePriority := stp.bridgePriority.setWidth 16
  rootPathCost := stp.rootPathCost
  rootAddress := stp.rootAddress
  rootPriority := stp.rootPriority.setWidth 16
  portNum := stp.ifTable.interfaceId port
  portPriority := (stp.ports port).priority
  messageAge := 0
  maxAge := stp.currentMaxAge
  helloTime := stp.currentHelloTime
  forwardDelay := stp.currentFwdDelay

/-- `xBpdu` of `isSuperiorBPDU`: what a port would store. -/
def xBpdu (port : Ieee8021dInterfaceData) (bpdu : BpduCfg) : Ieee8021dInterfaceData :=
  { rootPriority := bpdu.rootPriority.setWidth 32
    rootAddress := bpdu.rootAddress
    rootPathCost := bpdu.rootPathCost + port.linkCost
    bridgePriority := bpdu.bridgePriority.setWidth 32
    bridgeAddress := bpdu.bridgeAddress
    portPriority := bpdu.portPriority
    portNum := bpdu.portNum }

def setSuperiorBPDU (portData : Ieee8021dInterfaceData) (bpdu : BpduCfg) : Ieee8021dInterfaceData :=
  if bpdu.messageAge ≥ bpdu.maxAge then portData
  else
    { portData with
      rootPriority := bpdu.rootPriority.setWidth 32
      rootAddress := bpdu.rootAddress
      rootPathCost := bpdu.rootPathCost + portData.linkCost
      bridgePriority := bpdu.bridgePriority.setWidth 32
      bridgeAddress := bpdu.bridgeAddress
      portPriority := bpdu.portPriority
      portNum := bpdu.portNum
      maxAge := bpdu.maxAge
      fwdDelay := bpdu.forwardDelay
      helloTime := bpdu.helloTime
      age := 0 }

def setPort (data : Ieee8021dInterfaceData) : Stp numPorts :=
  { stp with ports := Function.update stp.ports port data }

/-- `isSuperiorBPDU`: whether the BPDU is not inferior to what the port has stored, and what is
stored then. -/
def isSuperiorBPDU (bpdu : BpduCfg) : Bool × Stp numPorts :=
  let portData := stp.ports port
  let result := comparePorts portData (xBpdu portData bpdu)
  if result > 0 then (false, stp)
  else if result < 0 then
    (true, stp.setPort port
      (setSuperiorBPDU { portData with fdWhile := 0, state := .DISCARDING } bpdu))
  else (true, stp.setPort port (setSuperiorBPDU portData bpdu))

def checkRootEligibility : Bool :=
  decide (∀ port, ¬compareBridgeIDs (stp.ports port).rootPriority (stp.ports port).rootAddress
    stp.bridgePriority stp.bridgeAddress > 0)

def setAllDesignated : Stp numPorts :=
  { stp with
    desPorts := (List.finRange numPorts).filter fun port ↦ (stp.ports port).role ≠ .DISABLED
    ports := fun port ↦
      if (stp.ports port).role = .DISABLED then stp.ports port
      else { stp.ports port with role := .DESIGNATED } }

/-- Whether the search for the root port prefers a port to the best one so far. -/
def preferred (ports : Fin numPorts → Ieee8021dInterfaceData) (port best : Fin numPorts) : Bool :=
  let result := comparePorts (ports port) (ports best)
  if result > 0 then true
  else if result < 0 then false
  else (ports port).priority < (ports best).priority

/-- The search for the root port, which starts at the first port. -/
def bestPort (ports : Fin numPorts → Ieee8021dInterfaceData) (first : Fin numPorts) :
    Fin numPorts :=
  (List.finRange numPorts).foldl
    (fun best port ↦ if preferred ports port best then port else best) first

def selectRootPort : Except Fault (Stp numPorts) :=
  if h : 0 < numPorts then
    let xRoot := bestPort stp.ports ⟨0, h⟩
    let best := stp.ports xRoot
    let xRootInterfaceId := stp.ifTable.interfaceId xRoot
    pure
      { stp with
        desPorts := []
        topologyChangeNotification :=
          stp.topologyChangeNotification || stp.rootInterfaceId ≠ xRootInterfaceId
        rootInterfaceId := xRootInterfaceId
        ports := fun port ↦
          { stp.ports port with role := if port = xRoot then .ROOT else .NOTASSIGNED }
        rootPathCost := best.rootPathCost
        rootAddress := best.rootAddress
        rootPriority := best.rootPriority
        currentMaxAge := best.maxAge
        currentFwdDelay := best.fwdDelay
        currentHelloTime := best.helloTime }
  else throw .runtimeError

/-- `bridgeGlobal` of `selectDesignatedPorts`: what the bridge offers on a port. -/
def bridgeGlobal : Ieee8021dInterfaceData :=
  { bridgePriority := stp.bridgePriority
    bridgeAddress := stp.bridgeAddress
    rootAddress := stp.rootAddress
    rootPriority := stp.rootPriority
    portPriority := (stp.ports port).priority
    portNum := stp.ifTable.interfaceId port
    rootPathCost := stp.rootPathCost + (stp.ports port).linkCost }

def selectDesignatedPorts : Stp numPorts :=
  let skipped port := (stp.ports port).role = .ROOT ∨ (stp.ports port).role = .DISABLED
  let result port := comparePorts (stp.bridgeGlobal port) (stp.ports port)
  { stp with
    desPorts := (List.finRange numPorts).filter fun port ↦ ¬skipped port ∧ result port > 0
    ports := fun port ↦
      if skipped port then stp.ports port
      else if result port > 0 then { stp.ports port with role := .DESIGNATED }
      else if result port < 0 then { stp.ports port with role := .ALTERNATE }
      else stp.ports port }

def tryRoot : Except Fault (Stp numPorts) := do
  if stp.checkRootEligibility then
    pure
      { { stp with isRoot := true }.setAllDesignated with
        rootPriority := stp.bridgePriority
        rootAddress := stp.bridgeAddress
        rootPathCost := 0
        currentHelloTime := stp.helloTime
        currentMaxAge := stp.maxAge
        currentFwdDelay := stp.forwardDelay }
  else
    let stp ← { stp with isRoot := false }.selectRootPort
    pure stp.selectDesignatedPorts

/-- `handleBPDU`: the new state and the BPDUs that are sent. -/
def handleBPDU (arrival : Fin numPorts) (bpdu : BpduCfg) :
    Except Fault (Stp numPorts × List (Fin numPorts × BpduCfg)) := do
  let stp :=
    if bpdu.tcaFlag then
      { stp with topologyChangeRecvd := true, topologyChangeNotification := false }
    else stp
  let (superior, stp) := stp.isSuperiorBPDU arrival bpdu
  let sent :=
    if !superior then
      if (stp.ports arrival).role = .DESIGNATED then
        [(arrival, stp.generateBPDU arrival false false)]
      else []
    else if (stp.ports arrival).role = .ROOT then
      stp.desPorts.map fun port ↦ (port, stp.generateBPDU port bpdu.tcFlag false)
    else []
  let stp ← stp.tryRoot
  pure (stp, sent)

def initInterfacedata (ifd : Ieee8021dInterfaceData) : Ieee8021dInterfaceData :=
  { ifd with
    role := .NOTASSIGNED
    state := .DISCARDING
    rootPriority := stp.bridgePriority
    rootAddress := stp.bridgeAddress
    rootPathCost := 0
    age := 0
    bridgePriority := stp.bridgePriority
    bridgeAddress := stp.bridgeAddress
    portPriority := -1
    portNum := -1
    lostBPDU := 0 }

def start : Except Fault (Stp numPorts) :=
  if h : 0 < numPorts then
    pure
      { stp with
        ports := fun port ↦ stp.initInterfacedata (stp.ports port)
        isRoot := true
        topologyChangeNotification := true
        topologyChangeRecvd := true
        rootPriority := stp.bridgePriority
        rootAddress := stp.bridgeAddress
        rootPathCost := 0
        rootInterfaceId := stp.ifTable.interfaceId ⟨0, h⟩
        currentHelloTime := stp.helloTime
        currentMaxAge := stp.maxAge
        currentFwdDelay := stp.forwardDelay
        helloTime := 0 : Stp numPorts }.setAllDesignated
  else throw .runtimeError

end Stp

/-- Positive when the first key is lower. -/
def compareKeys {α : Type*} [LT α] [DecidableLT α] (a b : α) : ℤ :=
  if a < b then 1 else if b < a then -1 else 0

section compareKeys

variable {α β : Type*} [LinearOrder α] [LinearOrder β]

theorem compareKeys_pos {a b : α} : compareKeys a b > 0 ↔ a < b := by
  unfold compareKeys
  split
  · simp_all
  · split <;> simp_all

theorem compareKeys_neg {a b : α} : compareKeys a b < 0 ↔ b < a := by
  unfold compareKeys
  split
  · rename_i hlt
    simp [hlt.le]
  · split <;> simp_all

/-- Pairs compare by their first components first. -/
theorem compareKeys_toLex {a a' : α} {b b' : β} :
    compareKeys (toLex (a, b)) (toLex (a', b')) =
      if compareKeys a a' ≠ 0 then compareKeys a a' else compareKeys b b' := by
  rcases lt_trichotomy a a' with hlt | rfl | hlt
  · have hpos := compareKeys_pos.mpr hlt
    have hlex : toLex (a, b) < toLex (a', b') := Prod.Lex.toLex_lt_toLex.mpr (.inl hlt)
    rw [if_pos hpos.ne', compareKeys, compareKeys, if_pos hlex, if_pos hlt]
  · rw [if_neg (not_not.mpr (by simp [compareKeys])), compareKeys, compareKeys]
    simp only [Prod.Lex.toLex_lt_toLex, lt_irrefl, false_or, true_and]
  · have hneg := compareKeys_neg.mpr hlt
    have hlex : toLex (a', b') < toLex (a, b) := Prod.Lex.toLex_lt_toLex.mpr (.inl hlt)
    rw [if_pos hneg.ne, compareKeys, compareKeys, if_neg hlex.not_gt, if_pos hlex,
      if_neg hlt.not_gt, if_pos hlt]

end compareKeys

/-- A priority and an address. -/
abbrev BridgeId := ℕ ×ₗ ℕ

def bridgeId (priority : BitVec 32) (address : MacAddress) : BridgeId :=
  toLex (priority.toNat, address.toNat)

/-- A priority and a port number. -/
abbrev PortId := ℕ ×ₗ ℕ

def portId (priority num : BitVec 32) : PortId := toLex (priority.toNat, num.toNat)

/-- What a port has stored, or what a bridge offers, as an offer of an election. -/
def Ieee8021dInterfaceData.offer (data : Ieee8021dInterfaceData) : Offer BridgeId PortId :=
  .mk (bridgeId data.rootPriority data.rootAddress) data.rootPathCost.toNat
    (bridgeId data.bridgePriority data.bridgeAddress) (portId data.portPriority data.portNum)

theorem compareBridgeIDs_eq (aPriority : BitVec 32) (aAddress : MacAddress) (bPriority : BitVec 32)
    (bAddress : MacAddress) : compareBridgeIDs aPriority aAddress bPriority bAddress =
      compareKeys (bridgeId aPriority aAddress) (bridgeId bPriority bAddress) := by
  rw [bridgeId, bridgeId, compareKeys_toLex, compareBridgeIDs, compareKeys, compareKeys]
  simp only [← BitVec.lt_def, gt_iff_lt]
  split
  · simp
  · split <;> simp

theorem comparePortIDs_eq (aPriority aNum bPriority bNum : BitVec 32) :
    comparePortIDs aPriority aNum bPriority bNum =
      compareKeys (portId aPriority aNum) (portId bPriority bNum) := by
  rw [portId, portId, compareKeys_toLex, comparePortIDs, compareKeys, compareKeys]
  simp only [← BitVec.lt_def, gt_iff_lt]
  split
  · simp
  · split <;> simp

theorem comparePorts_eq (portA portB : Ieee8021dInterfaceData) :
    comparePorts portA portB = compareKeys portA.offer portB.offer := by
  rw [Ieee8021dInterfaceData.offer, Ieee8021dInterfaceData.offer, Offer.mk, Offer.mk,
    compareKeys_toLex, compareKeys_toLex, compareKeys_toLex, ← compareBridgeIDs_eq,
    ← compareBridgeIDs_eq, ← comparePortIDs_eq, comparePorts]
  simp only [compareKeys, ← BitVec.lt_def, gt_iff_lt]
  split
  · rfl
  · split
    · simp
    · split <;> simp

theorem comparePorts_pos {portA portB : Ieee8021dInterfaceData} :
    comparePorts portA portB > 0 ↔ portA.offer < portB.offer := by
  rw [comparePorts_eq, compareKeys_pos]

theorem comparePorts_neg {portA portB : Ieee8021dInterfaceData} :
    comparePorts portA portB < 0 ↔ portB.offer < portA.offer := by
  rw [comparePorts_eq, compareKeys_neg]

namespace Stp

variable {numPorts : ℕ} {stp before : Stp numPorts}

/-- The identifier of the bridge itself. -/
def id (stp : Stp numPorts) : BridgeId := bridgeId stp.bridgePriority stp.bridgeAddress

/-- The root that the bridge knows of. -/
def rootId (stp : Stp numPorts) : BridgeId := bridgeId stp.rootPriority stp.rootAddress

theorem checkRootEligibility_iff : stp.checkRootEligibility = true ↔
    ∀ port, stp.id ≤ (stp.ports port).offer.root := by
  simp only [checkRootEligibility, decide_eq_true_eq, compareBridgeIDs_eq, compareKeys_pos, not_lt]
  rfl

theorem offer_le_of_preferred {ports : Fin numPorts → Ieee8021dInterfaceData}
    {port best : Fin numPorts} (h : preferred ports port best = true) :
    (ports port).offer ≤ (ports best).offer := by
  rw [← not_lt, ← comparePorts_neg]
  intro hneg
  simp only [preferred, if_neg hneg.not_gt, if_pos hneg, Bool.false_eq_true] at h

theorem offer_le_of_not_preferred {ports : Fin numPorts → Ieee8021dInterfaceData}
    {port best : Fin numPorts} (h : ¬preferred ports port best = true) :
    (ports best).offer ≤ (ports port).offer := by
  rw [← not_lt, ← comparePorts_pos]
  intro hpos
  simp only [preferred, if_pos hpos, not_true_eq_false] at h

theorem offer_foldl_le (ports : Fin numPorts → Ieee8021dInterfaceData)
    (candidates : List (Fin numPorts)) (best : Fin numPorts) :
    (ports (candidates.foldl (fun best port ↦ if preferred ports port best then port else best)
        best)).offer ≤ (ports best).offer ∧
      ∀ port ∈ candidates, (ports (candidates.foldl
        (fun best port ↦ if preferred ports port best then port else best) best)).offer ≤
          (ports port).offer := by
  induction candidates generalizing best with
  | nil => exact ⟨le_rfl, fun _ h ↦ absurd h List.not_mem_nil⟩
  | cons port candidates ih =>
    obtain ⟨hbest, hcandidates⟩ := ih (if preferred ports port best then port else best)
    have hstep : (ports (if preferred ports port best then port else best)).offer ≤
        (ports best).offer ∧
        (ports (if preferred ports port best then port else best)).offer ≤ (ports port).offer := by
      split
      · rename_i h
        exact ⟨offer_le_of_preferred h, le_rfl⟩
      · rename_i h
        exact ⟨le_rfl, offer_le_of_not_preferred h⟩
    refine ⟨hbest.trans hstep.1, ?_⟩
    intro other hother
    rcases List.mem_cons.mp hother with rfl | hother
    · exact hbest.trans hstep.2
    · exact hcandidates other hother

/-- The root port is one with the best information. -/
theorem offer_bestPort_le (ports : Fin numPorts → Ieee8021dInterfaceData)
    (first port : Fin numPorts) : (ports (bestPort ports first)).offer ≤ (ports port).offer :=
  (offer_foldl_le ports _ first).2 port (List.mem_finRange port)

/-- The state of a bridge that takes itself for the root. -/
structure RootRoles (stp : Stp numPorts) : Prop where
  isRoot : stp.isRoot = true
  rootId : stp.rootId = stp.id
  rootPathCost : stp.rootPathCost = 0
  role : ∀ port, (stp.ports port).role = .DESIGNATED
  id_le : ∀ port, stp.id ≤ (stp.ports port).offer.root

/-- The state of another bridge, with the position of its root port. -/
structure OtherRoles (stp : Stp numPorts) (xRoot : Fin numPorts) : Prop where
  isRoot : stp.isRoot = false
  role_iff : ∀ port, (stp.ports port).role = .ROOT ↔ port = xRoot
  offer_le : ∀ port, (stp.ports xRoot).offer ≤ (stp.ports port).offer
  rootPriority : stp.rootPriority = (stp.ports xRoot).rootPriority
  rootAddress : stp.rootAddress = (stp.ports xRoot).rootAddress
  rootPathCost : stp.rootPathCost = (stp.ports xRoot).rootPathCost
  rootId_lt : stp.rootId < stp.id
  designated_iff : ∀ port, port ≠ xRoot →
    ((stp.ports port).role = .DESIGNATED ↔
      (stp.bridgeGlobal port).offer < (stp.ports port).offer)

theorem rootRoles_of_tryRoot (heligible : before.checkRootEligibility = true)
    (hroles : ∀ port, (before.ports port).role ≠ .DISABLED) (h : before.tryRoot = .ok stp) :
    stp.RootRoles := by
  rw [tryRoot, if_pos heligible] at h
  obtain rfl := Except.ok.inj h
  refine ⟨rfl, rfl, rfl, fun port ↦ ?_, fun port ↦ ?_⟩
  · simp only [setAllDesignated, if_neg (hroles port)]
  · simp only [setAllDesignated, if_neg (hroles port)]
    exact checkRootEligibility_iff.mp heligible port

/-- Only roles are changed. -/
theorem exists_ports_selectDesignatedPorts (stp : Stp numPorts) (port : Fin numPorts) :
    ∃ role, stp.selectDesignatedPorts.ports port = { stp.ports port with role := role } := by
  simp only [selectDesignatedPorts]
  split_ifs
  · exact ⟨_, rfl⟩
  · exact ⟨_, rfl⟩
  · exact ⟨_, rfl⟩
  · exact ⟨_, rfl⟩

theorem offer_selectDesignatedPorts (port : Fin numPorts) :
    (stp.selectDesignatedPorts.ports port).offer = (stp.ports port).offer := by
  obtain ⟨role, hports⟩ := stp.exists_ports_selectDesignatedPorts port
  rw [hports]
  rfl

theorem role_selectDesignatedPorts_of_root {port : Fin numPorts}
    (h : (stp.ports port).role = .ROOT) :
    (stp.selectDesignatedPorts.ports port).role = .ROOT := by
  simp only [selectDesignatedPorts, h, true_or, if_true]

theorem role_selectDesignatedPorts {port : Fin numPorts}
    (h : (stp.ports port).role = .NOTASSIGNED) :
    (stp.selectDesignatedPorts.ports port).role ≠ .ROOT ∧
      ((stp.selectDesignatedPorts.ports port).role = .DESIGNATED ↔
        (stp.bridgeGlobal port).offer < (stp.ports port).offer) := by
  simp only [selectDesignatedPorts, h, reduceCtorEq, or_self, if_false, ← comparePorts_pos]
  split_ifs with hpos <;> simp [h, hpos]

theorem bridgeGlobal_selectDesignatedPorts (port : Fin numPorts) :
    stp.selectDesignatedPorts.bridgeGlobal port = stp.bridgeGlobal port := by
  obtain ⟨role, hports⟩ := stp.exists_ports_selectDesignatedPorts port
  rw [bridgeGlobal, hports]
  rfl

theorem otherRoles_of_tryRoot (heligible : ¬before.checkRootEligibility = true)
    (h : before.tryRoot = .ok stp) : ∃ xRoot, stp.OtherRoles xRoot := by
  rw [tryRoot, if_neg heligible, selectRootPort] at h
  rw [checkRootEligibility_iff, not_forall] at heligible
  obtain ⟨better, hbetter⟩ := heligible
  rw [dif_pos (Fin.pos better)] at h
  obtain rfl := Except.ok.inj h
  have hbest := offer_bestPort_le before.ports ⟨0, Fin.pos better⟩
  generalize bestPort before.ports ⟨0, Fin.pos better⟩ = xRoot at hbest
  refine ⟨xRoot, rfl, fun port ↦ ?_, fun port ↦ ?_, ?_, ?_, ?_, ?_, fun port hport ↦ ?_⟩
  · by_cases hport : port = xRoot
    · simp only [hport, iff_true]
      exact role_selectDesignatedPorts_of_root (if_pos rfl)
    · simp only [hport, iff_false]
      exact (role_selectDesignatedPorts (if_neg hport)).1
  · rw [offer_selectDesignatedPorts, offer_selectDesignatedPorts]
    exact hbest port
  · simp [selectDesignatedPorts]
  · simp [selectDesignatedPorts]
  · simp [selectDesignatedPorts]
  · calc
      bridgeId (before.ports xRoot).rootPriority (before.ports xRoot).rootAddress ≤
          (before.ports better).offer.root := Offer.root_le_of_le (hbest better)
      _ < before.id := not_le.mp hbetter
  · rw [offer_selectDesignatedPorts, bridgeGlobal_selectDesignatedPorts]
    exact (role_selectDesignatedPorts (if_neg hport)).2

/-- What the bridge offers on a port is what it sends, to a port with the same link cost. -/
theorem offer_xBpdu_generateBPDU (stp : Stp numPorts) (port : Fin numPorts)
    (data : Ieee8021dInterfaceData) (hbridge : stp.bridgePriority.toNat < 2 ^ 16)
    (hroot : stp.rootPriority.toNat < 2 ^ 16) (tcFlag tcaFlag : Bool) :
    (xBpdu data (stp.generateBPDU port tcFlag tcaFlag)).offer =
      .mk stp.rootId ((stp.rootPathCost.toNat + data.linkCost.toNat) % 2 ^ 32) stp.id
        (portId (stp.ports port).priority (stp.ifTable.interfaceId port)) := by
  have hwidth {value : BitVec 32} (h : value.toNat < 2 ^ 16) :
      ((value.setWidth 16).setWidth 32).toNat = value.toNat := by
    rw [BitVec.toNat_setWidth, BitVec.toNat_setWidth, Nat.mod_eq_of_lt h,
      Nat.mod_eq_of_lt value.isLt]
  simp only [Ieee8021dInterfaceData.offer, xBpdu, generateBPDU, bridgeId, rootId, id,
    hwidth hbridge,
    hwidth hroot, BitVec.toNat_add]

end Stp

end Inet4.Ieee8021d
