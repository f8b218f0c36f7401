import Inet4.Ieee8021d.Stp

/-!
# Converged networks of bridges

Bridges joined by point-to-point links, in a state in which the roles are those of `tryRoot` and
what is stored at the ports is what the other ends of the links would send.  A port that is
designated is exempt from this, since it need not hear anything; but two designated ports on one
link hear each other, and the state is settled only when neither of them has to learn what the
other one sends.  In a settled state the roles are those of a spanning tree of least-cost paths to
the bridge with the lowest identifier.
-/

namespace Inet4.Ieee8021d

open Finset

/-- The bridges of a network with their present states, and the links between their ports. -/
structure StpNetwork (B : Type) where
  numPorts : B → ℕ
  bridge : (b : B) → Stp (numPorts b)
  /-- The other end of the link of a port, if there is a link. -/
  peer : (Σ b, Fin (numPorts b)) → Option (Σ b, Fin (numPorts b))
  peer_symm : ∀ {p q}, peer p = some q → peer q = some p
  owner_ne : ∀ {p q}, peer p = some q → p.1 ≠ q.1
  linkCost_pos : ∀ b port, 0 < ((bridge b).ports port).linkCost.toNat
  id_injective : Function.Injective fun b ↦ ((bridge b).bridgePriority, (bridge b).bridgeAddress)

namespace StpNetwork

variable {B : Type} (network : StpNetwork B)

abbrev Port := Σ b, Fin (network.numPorts b)

variable {network} in
def data (p : network.Port) : Ieee8021dInterfaceData := (network.bridge p.1).ports p.2

variable {network} in
/-- The BPDU that a port would send. -/
def bpdu (p : network.Port) : BpduCfg := (network.bridge p.1).generateBPDU p.2 false false

def links : BridgeNetwork B network.Port where
  owner := Sigma.fst
  peer := network.peer
  linkCost p := (data p).linkCost.toNat
  peer_symm := network.peer_symm
  owner_ne := network.owner_ne
  linkCost_pos p := network.linkCost_pos p.1 p.2

/-- The roles are those of `tryRoot`, which no role `DISABLED` precedes, and a port that is not
designated has stored what the other end of its link would send. -/
structure Converged : Prop where
  tryRoot : ∀ b, ∃ before : Stp (network.numPorts b),
    (∀ port, (before.ports port).role ≠ .DISABLED) ∧ before.tryRoot = .ok (network.bridge b)
  stored : ∀ p, (data p).role ≠ .DESIGNATED →
    ∃ q, network.peer p = some q ∧ (data p).offer = (Stp.xBpdu (data p) (bpdu q)).offer

/-- Of two designated ports on a link neither has to learn what the other one sends. -/
def Settled : Prop :=
  ∀ p q, network.peer p = some q → (data p).role = .DESIGNATED → (data q).role = .DESIGNATED →
    ¬comparePorts (data p) (Stp.xBpdu (data p) (bpdu q)) < 0

/-- The spanning tree of the roles. -/
def IsSpanningTree : Prop :=
  network.links.IsSpanningTree (fun b ↦ (network.bridge b).id)
    (fun b ↦ (network.bridge b).isRoot = true) (fun p ↦ (data p).role = .ROOT)
    (fun p ↦ (data p).role = .DESIGNATED)

/-! ## The election of the network -/

section election

variable {network} {p q : network.Port} {b : B}

/-- The views and the roles of the bridges, with a choice of root ports. -/
def election (rootPort : B → network.Port) : Election network.links BridgeId PortId where
  id b := (network.bridge b).id
  portId p := portId (data p).priority ((network.bridge p.1).ifTable.interfaceId p.2)
  modulus := 2 ^ 32
  root b := (network.bridge b).rootId
  rootPathCost b := (network.bridge b).rootPathCost.toNat
  isRoot b := (network.bridge b).isRoot = true
  rootPort := rootPort
  designated p := (data p).role = .DESIGNATED
  heard p := (data p).offer

theorem stpId_injective : Function.Injective fun b ↦ (network.bridge b).id := by
  intro b b' heq
  have hpair : ((network.bridge b).bridgePriority.toNat, (network.bridge b).bridgeAddress.toNat) =
      ((network.bridge b').bridgePriority.toNat, (network.bridge b').bridgeAddress.toNat) := heq
  obtain ⟨hpriority, haddress⟩ := Prod.mk.inj hpair
  exact network.id_injective
    (Prod.ext (BitVec.eq_of_toNat_eq hpriority) (BitVec.eq_of_toNat_eq haddress))

theorem roles (h : network.Converged) (b : B) : (network.bridge b).RootRoles ∨
    ∃ xRoot, (network.bridge b).OtherRoles xRoot := by
  obtain ⟨before, hroles, htryRoot⟩ := h.tryRoot b
  by_cases heligible : before.checkRootEligibility = true
  · exact .inl (Stp.rootRoles_of_tryRoot heligible hroles htryRoot)
  · exact .inr (Stp.otherRoles_of_tryRoot heligible htryRoot)

theorem rootRoles_of_isRoot (h : network.Converged) (hb : (network.bridge b).isRoot = true) :
    (network.bridge b).RootRoles := by
  rcases roles h b with hroles | ⟨xRoot, hroles⟩
  · exact hroles
  · exact absurd hb (by rw [hroles.isRoot]; exact Bool.false_ne_true)

theorem exists_otherRoles (h : network.Converged) (hb : ¬(network.bridge b).isRoot = true) :
    ∃ xRoot, (network.bridge b).OtherRoles xRoot := by
  rcases roles h b with hroles | hroles
  · exact absurd hroles.isRoot hb
  · exact hroles

/-- Root priorities fit the two bytes of the BPDU. -/
theorem rootPriority_lt (h : network.Converged)
    (hpriority : ∀ b, (network.bridge b).bridgePriority.toNat < 2 ^ 16) (b : B) :
    (network.bridge b).rootPriority.toNat < 2 ^ 16 := by
  by_cases hb : (network.bridge b).isRoot = true
  · have hroot : (toLex ((network.bridge b).rootPriority.toNat, _) : BridgeId) =
        toLex ((network.bridge b).bridgePriority.toNat, _) := (rootRoles_of_isRoot h hb).rootId
    rw [(Prod.mk.inj (toLex.injective hroot)).1]
    exact hpriority b
  · obtain ⟨xRoot, hroles⟩ := exists_otherRoles h hb
    have hrole : (data ⟨b, xRoot⟩).role = .ROOT := (hroles.role_iff xRoot).mpr rfl
    have hnot : (data ⟨b, xRoot⟩).role ≠ .DESIGNATED := by
      rw [hrole]
      exact nofun
    obtain ⟨q, -, hstored⟩ := h.stored ⟨b, xRoot⟩ hnot
    have hroot : (toLex ((data ⟨b, xRoot⟩).rootPriority.toNat, _) : BridgeId) =
        toLex (((bpdu q).rootPriority.setWidth 32).toNat, _) := congrArg Offer.root hstored
    calc
      (network.bridge b).rootPriority.toNat = (data ⟨b, xRoot⟩).rootPriority.toNat :=
        congrArg BitVec.toNat hroles.rootPriority
      _ = ((bpdu q).rootPriority.setWidth 32).toNat := (Prod.mk.inj (toLex.injective hroot)).1
      _ ≤ (bpdu q).rootPriority.toNat := by
        rw [BitVec.toNat_setWidth]
        exact Nat.mod_le _ _
      _ < 2 ^ 16 := (bpdu q).rootPriority.isLt

/-- What the other end of a link would send is its offer, the cost of the link added. -/
theorem offer_xBpdu (h : network.Converged)
    (hpriority : ∀ b, (network.bridge b).bridgePriority.toNat < 2 ^ 16)
    (rootPort : B → network.Port) (p q : network.Port) :
    (Stp.xBpdu (data p) (bpdu q)).offer =
      (election rootPort).offerAt q (network.links.linkCost p) :=
  Stp.offer_xBpdu_generateBPDU _ _ _ (hpriority q.1) (rootPriority_lt h hpriority q.1) _ _

theorem converged_election [Fintype B] (h : network.Converged) (hsettled : network.Settled)
    (hsum : ∑ p : network.Port, (data p).linkCost.toNat < 2 ^ 32)
    (hpriority : ∀ b, (network.bridge b).bridgePriority.toNat < 2 ^ 16)
    {rootPort : B → network.Port}
    (hrootPort : ∀ b, ¬(network.bridge b).isRoot = true →
      ∃ xRoot, rootPort b = ⟨b, xRoot⟩ ∧ (network.bridge b).OtherRoles xRoot) :
    (election rootPort).Converged where
  id_injective := stpId_injective
  sum_linkCost := hsum
  root_of_isRoot b hb := (rootRoles_of_isRoot h hb).rootId
  rootPathCost_of_isRoot b hb := congrArg BitVec.toNat (rootRoles_of_isRoot h hb).rootPathCost
  designated_of_isRoot p hb := (rootRoles_of_isRoot h hb).role p.2
  id_le_of_isRoot p hb := (rootRoles_of_isRoot h hb).id_le p.2
  owner_rootPort b hb := by
    obtain ⟨xRoot, hport, -⟩ := hrootPort b hb
    exact congrArg Sigma.fst hport
  not_designated_rootPort b hb := by
    obtain ⟨xRoot, hport, hroles⟩ := hrootPort b hb
    have hrole : (data ⟨b, xRoot⟩).role = .ROOT := (hroles.role_iff xRoot).mpr rfl
    change (data (rootPort b)).role ≠ .DESIGNATED
    rw [hport, hrole]
    exact nofun
  heard_rootPort_le p hb := by
    obtain ⟨xRoot, hport, hroles⟩ := hrootPort p.1 hb
    change (data (rootPort p.1)).offer ≤ (data p).offer
    rw [hport]
    exact hroles.offer_le p.2
  root_eq_heard b hb := by
    obtain ⟨xRoot, hport, hroles⟩ := hrootPort b hb
    change bridgeId _ _ = (data (rootPort b)).offer.root
    rw [hport, hroles.rootPriority, hroles.rootAddress]
    rfl
  rootPathCost_eq_heard b hb := by
    obtain ⟨xRoot, hport, hroles⟩ := hrootPort b hb
    change (network.bridge b).rootPathCost.toNat = (data (rootPort b)).offer.cost
    rw [hport, hroles.rootPathCost]
    rfl
  root_lt_id b hb := by
    obtain ⟨xRoot, -, hroles⟩ := hrootPort b hb
    exact hroles.rootId_lt
  designated_iff p hb hp := by
    obtain ⟨xRoot, hport, hroles⟩ := hrootPort p.1 hb
    have hne : p.2 ≠ xRoot := by
      rintro rfl
      exact hp hport.symm
    exact hroles.designated_iff p.2 hne
  heard_eq p hp := by
    obtain ⟨q, hpeer, hstored⟩ := h.stored p hp
    exact ⟨q, hpeer, hstored.trans (offer_xBpdu h hpriority rootPort p q)⟩
  settled p q hpeer hp hq hlt := by
    apply hsettled p q hpeer hp hq
    rw [comparePorts_neg, offer_xBpdu h hpriority rootPort]
    exact hlt

/-- Without ports every bridge takes itself for the root. -/
theorem isRoot_of_isEmpty [IsEmpty network.Port] (h : network.Converged) (b : B) :
    (network.bridge b).isRoot = true := by
  by_contra hb
  obtain ⟨xRoot, -⟩ := exists_otherRoles h hb
  exact isEmptyElim (⟨b, xRoot⟩ : network.Port)

theorem role_eq_root_iff (h : network.Converged) {rootPort : B → network.Port}
    (hrootPort : ∀ b, ¬(network.bridge b).isRoot = true →
      ∃ xRoot, rootPort b = ⟨b, xRoot⟩ ∧ (network.bridge b).OtherRoles xRoot)
    (p : network.Port) : (data p).role = .ROOT ↔
      ¬(network.bridge p.1).isRoot = true ∧ p = rootPort p.1 := by
  by_cases hb : (network.bridge p.1).isRoot = true
  · have hrole : (data p).role = .DESIGNATED := (rootRoles_of_isRoot h hb).role p.2
    simp [hb, hrole]
  · obtain ⟨xRoot, hport, hroles⟩ := hrootPort p.1 hb
    have hiff : (data p).role = .ROOT ↔ p.2 = xRoot := hroles.role_iff p.2
    rw [hiff, hport]
    constructor
    · rintro rfl
      exact ⟨hb, rfl⟩
    · rintro ⟨-, heq⟩
      exact eq_of_heq (Sigma.mk.inj heq).2

end election

/-- In a settled state the roles are those of a spanning tree, as long as no path cost overflows and
the bridge priorities fit the BPDU. -/
theorem isSpanningTree_of_converged [Fintype B] (hconnected : network.links.graph.Connected)
    (h : network.Converged) (hsettled : network.Settled)
    (hsum : ∑ p : network.Port, (data p).linkCost.toNat < 2 ^ 32)
    (hpriority : ∀ b, (network.bridge b).bridgePriority.toNat < 2 ^ 16) :
    network.IsSpanningTree := by
  classical
  rcases isEmpty_or_nonempty network.Port with hempty | hnonempty
  · exact network.links.isSpanningTree_of_isEmpty _ _ hconnected (isRoot_of_isEmpty h)
  · let rootPort (b : B) : network.Port :=
      if hb : ∃ xRoot, (network.bridge b).OtherRoles xRoot then ⟨b, hb.choose⟩
      else Classical.arbitrary _
    have hrootPort (b : B) (hb : ¬(network.bridge b).isRoot = true) :
        ∃ xRoot, rootPort b = ⟨b, xRoot⟩ ∧ (network.bridge b).OtherRoles xRoot := by
      have hroles := exists_otherRoles h hb
      exact ⟨hroles.choose, dif_pos hroles, hroles.choose_spec⟩
    exact (converged_election h hsettled hsum hpriority hrootPort).isSpanningTree
      (role_eq_root_iff h hrootPort) hconnected

/-! ## Two bridges with parallel links -/

/-- Two bridges joined by links between their ports at the same positions. -/
def parallel {numPorts : ℕ} (a b : Stp numPorts)
    (hcost : ∀ port, 0 < (a.ports port).linkCost.toNat ∧ 0 < (b.ports port).linkCost.toNat)
    (hid : (a.bridgePriority, a.bridgeAddress) ≠ (b.bridgePriority, b.bridgeAddress)) :
    StpNetwork Bool where
  numPorts _ := numPorts
  bridge second := if second then b else a
  peer p := some ⟨!p.1, p.2⟩
  peer_symm := by
    rintro ⟨second, port⟩ q hpeer
    obtain rfl := Option.some.inj hpeer
    rw [Bool.not_not]
  owner_ne := by
    rintro ⟨second, port⟩ q hpeer
    obtain rfl := Option.some.inj hpeer
    exact (Bool.not_ne_self second).symm
  linkCost_pos second port := by
    cases second
    · exact (hcost port).1
    · exact (hcost port).2
  id_injective := by
    intro second second' heq
    cases second <;> cases second'
    · rfl
    · exact absurd heq hid
    · exact absurd heq.symm hid
    · rfl

theorem connected_parallel {numPorts : ℕ} (a b : Stp (numPorts + 1))
    (hcost : ∀ port, 0 < (a.ports port).linkCost.toNat ∧ 0 < (b.ports port).linkCost.toNat)
    (hid : (a.bridgePriority, a.bridgeAddress) ≠ (b.bridgePriority, b.bridgeAddress)) :
    (parallel a b hcost hid).links.graph.Connected := by
  have hadj : (parallel a b hcost hid).links.graph.Adj false true := by
    exact ⟨Bool.false_ne_true, .inl ⟨⟨false, (0 : Fin (numPorts + 1))⟩,
      ⟨true, (0 : Fin (numPorts + 1))⟩, rfl, rfl, rfl⟩⟩
  refine ⟨?_⟩
  intro second second'
  cases second <;> cases second'
  · exact .refl _
  · exact hadj.reachable
  · exact hadj.symm.reachable
  · exact .refl _

section parallel

variable {numPorts : ℕ} {a b : Stp numPorts}
  {hcost : ∀ port, 0 < (a.ports port).linkCost.toNat ∧ 0 < (b.ports port).linkCost.toNat}
  {hid : (a.bridgePriority, a.bridgeAddress) ≠ (b.bridgePriority, b.bridgeAddress)}

theorem converged_parallel (beforeA beforeB : Stp numPorts)
    (hbeforeA : ∀ port, (beforeA.ports port).role ≠ .DISABLED) (ha : beforeA.tryRoot = .ok a)
    (hbeforeB : ∀ port, (beforeB.ports port).role ≠ .DISABLED) (hb : beforeB.tryRoot = .ok b)
    (hstoredA : ∀ port, (a.ports port).role ≠ .DESIGNATED → (a.ports port).offer =
      (Stp.xBpdu (a.ports port) (b.generateBPDU port false false)).offer)
    (hstoredB : ∀ port, (b.ports port).role ≠ .DESIGNATED → (b.ports port).offer =
      (Stp.xBpdu (b.ports port) (a.generateBPDU port false false)).offer) :
    (parallel a b hcost hid).Converged where
  tryRoot second := by
    cases second
    · exact ⟨beforeA, hbeforeA, ha⟩
    · exact ⟨beforeB, hbeforeB, hb⟩
  stored := by
    intro ⟨second, port⟩ hrole
    cases second
    · exact ⟨⟨true, port⟩, rfl, hstoredA port hrole⟩
    · exact ⟨⟨false, port⟩, rfl, hstoredB port hrole⟩

theorem settled_parallel (h : ∀ port, (a.ports port).role = .DESIGNATED →
    (b.ports port).role ≠ .DESIGNATED) : (parallel a b hcost hid).Settled := by
  intro ⟨second, port⟩ q hpeer hp hq
  obtain rfl := Option.some.inj hpeer
  cases second
  · exact absurd hq (h port hp)
  · exact absurd hp (h port hq)

end parallel

/-- A bridge before it starts, with ports of one link cost. -/
def newBridge (numPorts : ℕ) (bridgePriority : BitVec 32) (bridgeAddress : MacAddress)
    (linkCost : BitVec 32) (ifTable : InterfaceTable numPorts) : Stp numPorts where
  ifTable := ifTable
  bridgePriority := bridgePriority
  bridgeAddress := bridgeAddress
  maxAge := SimTime.ofMillis 20000
  helloTime := SimTime.ofMillis 2000
  forwardDelay := SimTime.ofMillis 15000
  isRoot := false
  rootInterfaceId := 0
  desPorts := []
  rootPathCost := 0
  rootPriority := 0
  rootAddress := 0
  currentMaxAge := 0
  currentFwdDelay := 0
  currentHelloTime := 0
  topologyChangeNotification := false
  topologyChangeRecvd := false
  ports _ := { priority := 128, linkCost := linkCost }

/-- The state that a handler has left, or the one before when it has failed. -/
def after {numPorts : ℕ} (stp : Stp numPorts) (result : Except Fault (Stp numPorts)) :
    Stp numPorts :=
  match result with
  | .ok stp => stp
  | .error _ => stp

def onePort : InterfaceTable 1 := ⟨fun _ ↦ 101, fun _ _ _ ↦ Subsingleton.elim _ _⟩

/-- A bridge with one port that has started. -/
def started (bridgePriority : BitVec 32) (bridgeAddress : MacAddress) : Stp 1 :=
  let stp := newBridge 1 bridgePriority bridgeAddress 19 onePort
  after stp stp.start

/-- The root and another bridge that has received its BPDU. -/
def rootBridge : Stp 1 := after (started 32768 1) (started 32768 1).tryRoot

def otherBridge : Stp 1 :=
  let stp := ((started 32768 2).isSuperiorBPDU 0 (rootBridge.generateBPDU 0 false false)).2
  after stp stp.tryRoot

def settledNetwork : StpNetwork Bool :=
  parallel rootBridge otherBridge (by decide) (by decide)

theorem settledNetwork_converged : settledNetwork.Converged :=
  converged_parallel (started 32768 1)
    ((started 32768 2).isSuperiorBPDU 0 (rootBridge.generateBPDU 0 false false)).2
    (by decide) rfl (by decide) rfl (fun _ hrole ↦ absurd rfl hrole)
    fun port _ ↦ by rw [Fin.fin_one_eq_zero port]; rfl

theorem settledNetwork_settled : settledNetwork.Settled := settled_parallel (by decide)

theorem isSpanningTree_settledNetwork : settledNetwork.links.graph.Connected ∧
    settledNetwork.Converged ∧ settledNetwork.Settled ∧
      ∑ p : settledNetwork.Port, (data p).linkCost.toNat < 2 ^ 32 ∧
        (∀ b, (settledNetwork.bridge b).bridgePriority.toNat < 2 ^ 16) ∧
          settledNetwork.IsSpanningTree := by
  have hconnected : settledNetwork.links.graph.Connected := connected_parallel _ _ _ _
  have hsum : ∑ p : settledNetwork.Port, (data p).linkCost.toNat < 2 ^ 32 := by decide
  have hpriority (b : Bool) : (settledNetwork.bridge b).bridgePriority.toNat < 2 ^ 16 := by
    cases b <;> decide
  exact ⟨hconnected, settledNetwork_converged, settledNetwork_settled, hsum, hpriority,
    settledNetwork.isSpanningTree_of_converged hconnected settledNetwork_converged
      settledNetwork_settled hsum hpriority⟩

/-! ## States that are not settled -/

/-- Two bridges that have started and not heard each other. -/
def bootNetwork : StpNetwork Bool :=
  parallel rootBridge (after (started 32768 2) (started 32768 2).tryRoot) (by decide) (by decide)

theorem bootNetwork_converged : bootNetwork.Converged :=
  converged_parallel (started 32768 1) (started 32768 2) (by decide) rfl (by decide) rfl
    (fun _ hrole ↦ absurd rfl hrole) fun _ hrole ↦ absurd rfl hrole

theorem not_isSpanningTree_bootNetwork : ¬bootNetwork.IsSpanningTree := by
  intro htree
  obtain ⟨root, -, hunique⟩ := htree.existsUnique_isRoot
  exact Bool.false_ne_true ((hunique false rfl).trans (hunique true rfl).symm)

/-- A bridge whose priority exceeds two bytes, and one with a lower priority that believes it. -/
def wideBridge : Stp 1 := after (started 65537 1) (started 65537 1).tryRoot

def deceivedBridge : Stp 1 :=
  let stp := ((started 5 2).isSuperiorBPDU 0 (wideBridge.generateBPDU 0 false false)).2
  after stp stp.tryRoot

def wideNetwork : StpNetwork Bool :=
  parallel wideBridge deceivedBridge (by decide) (by decide)

theorem wideNetwork_converged : wideNetwork.Converged :=
  converged_parallel (started 65537 1)
    ((started 5 2).isSuperiorBPDU 0 (wideBridge.generateBPDU 0 false false)).2
    (by decide) rfl (by decide) rfl (fun _ hrole ↦ absurd rfl hrole)
    fun port _ ↦ by rw [Fin.fin_one_eq_zero port]; rfl

theorem wideNetwork_settled : wideNetwork.Settled := settled_parallel (by decide)

theorem not_isSpanningTree_wideNetwork : ¬wideNetwork.IsSpanningTree := by
  intro htree
  have hle := (htree.isRoot_iff false).mp rfl true
  exact absurd hle (by decide)

def twoPorts : InterfaceTable 2 := ⟨fun port ↦ if port.val = 0 then 101 else 102, by decide⟩

/-- A bridge with two ports of link cost 2 ^ 31, one of which has heard of a root with address 0. -/
def haunted (bridgeAddress heardFrom : MacAddress) (port : Fin 2) (heardCost : BitVec 32) : Stp 2 :=
  let stp := newBridge 2 32768 bridgeAddress (2 ^ 31) twoPorts
  let stp := after stp stp.start
  stp.setPort port
    { stp.ports port with
      rootPriority := 32768
      rootAddress := 0
      rootPathCost := heardCost
      bridgePriority := 32768
      bridgeAddress := heardFrom
      portPriority := 128
      portNum := twoPorts.interfaceId port }

def firstHaunted : Stp 2 := haunted 1 2 ⟨0, Nat.zero_lt_two⟩ 0

def secondHaunted : Stp 2 := haunted 2 1 ⟨1, Nat.one_lt_two⟩ (2 ^ 31)

/-- Each bridge has the other one for its way to a root that does not exist. -/
def hauntedNetwork : StpNetwork Bool :=
  parallel (after firstHaunted firstHaunted.tryRoot) (after secondHaunted secondHaunted.tryRoot)
    (by decide) (by decide)

theorem hauntedNetwork_converged : hauntedNetwork.Converged := by
  apply converged_parallel firstHaunted secondHaunted (by decide) rfl (by decide) rfl
  · intro port hrole
    fin_cases port
    · rfl
    · exact absurd rfl hrole
  · intro port hrole
    fin_cases port
    · exact absurd rfl hrole
    · rfl

theorem hauntedNetwork_settled : hauntedNetwork.Settled := settled_parallel (by decide)

theorem not_isSpanningTree_hauntedNetwork : ¬hauntedNetwork.IsSpanningTree := by
  intro htree
  obtain ⟨root, hroot, -⟩ := htree.existsUnique_isRoot
  cases root
  · exact Bool.false_ne_true hroot
  · exact Bool.false_ne_true hroot

/-- No tree results before the bridges have heard each other, with a priority of more than two
bytes, or when a path cost overflows. -/
theorem exists_converged_not_isSpanningTree :
    (bootNetwork.links.graph.Connected ∧ bootNetwork.Converged ∧ ¬bootNetwork.IsSpanningTree) ∧
      (wideNetwork.links.graph.Connected ∧ wideNetwork.Converged ∧ wideNetwork.Settled ∧
        ¬wideNetwork.IsSpanningTree) ∧
      (hauntedNetwork.links.graph.Connected ∧ hauntedNetwork.Converged ∧ hauntedNetwork.Settled ∧
        ¬hauntedNetwork.IsSpanningTree) :=
  ⟨⟨connected_parallel _ _ _ _, bootNetwork_converged, not_isSpanningTree_bootNetwork⟩,
    ⟨connected_parallel _ _ _ _, wideNetwork_converged, wideNetwork_settled,
      not_isSpanningTree_wideNetwork⟩,
    ⟨connected_parallel _ _ _ _, hauntedNetwork_converged, hauntedNetwork_settled,
      not_isSpanningTree_hauntedNetwork⟩⟩

end StpNetwork

end Inet4.Ieee8021d
