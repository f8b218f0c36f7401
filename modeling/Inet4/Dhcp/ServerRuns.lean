import Inet4.Dhcp.Server

/-!
# Who holds an address

An acknowledgement is sent for the lease that a request leads to, and the client that sent the
request takes it for its own.  As long as no client is offered an address that is outside the pool
or on record, and no client asks for an address that is on record for another one, the record of an
address never changes its owner.
-/

namespace Inet4.Dhcp

open AssocMap List
open DhcpServer (setLease searchPool createLease seconds)

open Ipv4 (Ipv4Address)

/-- An acknowledgement: the client that sent the request, and what the message says. -/
structure Acknowledgement where
  client : MacAddress
  chaddr : MacAddress
  yiaddr : Ipv4Address
deriving DecidableEq

/-- The address is acknowledged to the client that asked and to the one that the message names. -/
def Acknowledgement.To (ack : Acknowledgement) (mac : MacAddress) : Prop :=
  mac = ack.client ∨ mac = ack.chaddr

/-- The server and the acknowledgements that it has sent. -/
structure History where
  server : DhcpServer
  acks : List Acknowledgement := []

/-- A message that arrives. -/
structure Arrival where
  now : SimTime
  inputInterfaceId : ℤ
  dhcpMsg : DhcpMessage
deriving DecidableEq

/-- The acknowledgements among the messages that are sent for a message. -/
def acknowledgements (dhcpMsg : DhcpMessage) (sent : List Datagram) : List Acknowledgement :=
  (sent.filter fun datagram ↦ datagram.message.options.messageType = .DHCPACK).map fun datagram ↦
    ⟨dhcpMsg.chaddr, datagram.message.chaddr, datagram.message.yiaddr⟩

namespace History

def handle (history : History) (arrival : Arrival) : History :=
  let result := history.server.processDhcpMessage arrival.now arrival.inputInterfaceId
    arrival.dhcpMsg
  ⟨result.1, history.acks ++ acknowledgements arrival.dhcpMsg result.2⟩

def machine : Machine History Arrival Fault where
  Enabled _ _ := True
  handle history arrival := .ok (history.handle arrival)

/-- No address is acknowledged to two clients, the addresses are those of the configured pool and on
record for their clients, and there are no more leases than clients are allowed. -/
structure Lawful (configured : DhcpServer) (history : History) : Prop where
  unique : ∀ a ∈ history.acks, ∀ b ∈ history.acks, a.yiaddr = b.yiaddr →
    ∀ mac mac', a.To mac → b.To mac' → mac = mac'
  inPool : ∀ ack ∈ history.acks, ack.yiaddr ∈ configured.pool
  recorded : ∀ ack ∈ history.acks, ∀ mac, ack.To mac →
    ∃ lease, history.server.leased.find ack.yiaddr = some lease ∧ lease.mac = mac
  size_le : history.server.leased.size ≤ configured.maxNumOfClients.toNat

/-- A discover of a client without a lease asks for no address, or for a free one of the pool. -/
def DiscoversFree (server : DhcpServer) (dhcpMsg : DhcpMessage) : Prop :=
  server.getLeaseByMac dhcpMsg.chaddr = none →
    dhcpMsg.options.requestedIp.isUnspecified = false →
      dhcpMsg.options.requestedIp ∈ server.pool ∧ dhcpMsg.options.requestedIp ∉ server.leased

/-- A request that does not name the server asks for no address of another client. -/
def RequestsOwn (server : DhcpServer) (dhcpMsg : DhcpMessage) : Prop :=
  dhcpMsg.options.serverIdentifier ≠ server.ie.ipAddress →
    ∀ lease ∈ server.leased.find (if dhcpMsg.ciaddr.isUnspecified then dhcpMsg.options.requestedIp
      else dhcpMsg.ciaddr), lease.mac = dhcpMsg.chaddr

/-- The side condition on a message that is not dropped. -/
def Proper (history : History) (arrival : Arrival) : Prop :=
  arrival.inputInterfaceId = history.server.ie.interfaceId → arrival.dhcpMsg.op = .BOOTREQUEST →
    (arrival.dhcpMsg.options.messageType = .DHCPDISCOVER →
      DiscoversFree history.server arrival.dhcpMsg) ∧
    (arrival.dhcpMsg.options.messageType = .DHCPREQUEST →
      RequestsOwn history.server arrival.dhcpMsg)

/-- Every record is that of its own address, in the pool, and in use. -/
structure Recorded (pool : List Ipv4Address) (ip : Ipv4Address) (lease : DhcpLease) : Prop where
  ip_eq : lease.ip = ip
  mem_pool : ip ∈ pool
  leased_eq : lease.leased = true

def Tidy (server : DhcpServer) : Prop :=
  ∀ ip lease, server.leased.find ip = some lease → Recorded server.pool ip lease

/-- What a step may do to the records: it keeps the configuration and the owners, and adds or renews
one record. -/
structure Keeps (server server' : DhcpServer) : Prop where
  pool_eq : server'.pool = server.pool
  max_eq : server'.maxNumOfClients = server.maxNumOfClients
  tidy : Tidy server'
  owner : ∀ ip lease, server.leased.find ip = some lease →
    ∃ lease', server'.leased.find ip = some lease' ∧ lease'.mac = lease.mac

variable {server server' server'' : DhcpServer} {ip : Ipv4Address} {lease : DhcpLease}
    {now : SimTime}
variable {dhcpMsg : DhcpMessage}

theorem Tidy.keeps_refl (h : Tidy server) : Keeps server server :=
  ⟨rfl, rfl, h, fun _ lease hfind ↦ ⟨lease, hfind, rfl⟩⟩

/-- Only the configuration and what is found under an address matter. -/
theorem Keeps.of_find (h : Keeps server server') (hpool : server''.pool = server'.pool)
    (hmax : server''.maxNumOfClients = server'.maxNumOfClients)
    (hfind : ∀ ip, server''.leased.find ip = server'.leased.find ip) : Keeps server server'' := by
  refine ⟨hpool.trans h.pool_eq, hmax.trans h.max_eq, ?_, ?_⟩
  · intro ip lease hlease
    rw [hpool]
    exact h.tidy ip lease ((hfind ip).symm.trans hlease)
  · intro ip lease hlease
    rw [hfind]
    exact h.owner ip lease hlease

/-- A record is written that agrees with the one under the address, if there is one. -/
theorem Tidy.keeps_setLease (h : Tidy server) (hrecorded : Recorded server.pool ip lease)
    (howner : ∀ old, server.leased.find ip = some old → lease.mac = old.mac) :
    Keeps server (server.setLease ip lease) := by
  refine ⟨rfl, rfl, ?_, ?_⟩
  · intro ip' lease' hfind
    rw [setLease, find_assign] at hfind
    split at hfind
    · rename_i heq
      obtain rfl := Option.some.inj hfind
      rw [heq]
      exact hrecorded
    · exact h ip' lease' hfind
  · intro ip' old hfind
    rw [setLease, find_assign]
    by_cases heq : ip' = ip
    · rw [if_pos heq]
      exact ⟨lease, rfl, howner old (heq ▸ hfind)⟩
    · rw [if_neg heq]
      exact ⟨old, hfind, rfl⟩

theorem Tidy.keeps_sendLease (h : Tidy server) (hrecorded : Recorded server.pool ip lease)
    (howner : ∀ old, server.leased.find ip = some old → lease.mac = old.mac)
    (message : DhcpMessage) : Keeps server (server.sendLease now ip lease message dhcpMsg).1 :=
  have hnoted : Recorded server.pool ip { lease with leaseTime := now } :=
    ⟨hrecorded.ip_eq, hrecorded.mem_pool, hrecorded.leased_eq⟩
  (h.keeps_setLease hnoted howner).of_find rfl rfl fun _ ↦ rfl

theorem getLeaseByMac_eq_some {mac : MacAddress} (h : server.getLeaseByMac mac = some (ip, lease)) :
    server.leased.find ip = some lease ∧ lease.mac = mac := by
  obtain ⟨hfind, hmac, -⟩ := findFirst_eq_some h
  exact ⟨hfind, of_decide_eq_true hmac⟩

/-- The loop ends at a free address of the pool: a record that is not in use does not exist. -/
theorem Tidy.searchPool_cases (h : Tidy server) (ips : List Ipv4Address) :
    server.searchPool ips = (none, server) ∨
      ∃ ip ∈ ips, server.leased.find ip = none ∧
        server.searchPool ips = (some ip, server.createLease ip) := by
  induction ips with
  | nil => exact .inl rfl
  | cons ip ips ih =>
    cases hfind : server.leased.find ip with
    | none => exact .inr ⟨ip, mem_cons_self, hfind, by rw [searchPool, hfind]⟩
    | some lease =>
      have hstep : server.searchPool (ip :: ips) = server.searchPool ips := by
        rw [searchPool, hfind]
        simp [(h ip lease hfind).leased_eq]
      rw [hstep]
      rcases ih with hnone | ⟨ip', hmem, hfind', heq⟩
      · exact .inl hnone
      · exact .inr ⟨ip', mem_cons_of_mem ip hmem, hfind', heq⟩

/-- A client without a lease gets a new record of a free address of the pool, or none. -/
theorem Tidy.getAvailableLease_cases (h : Tidy server)
    (hfree : DiscoversFree server dhcpMsg) (hnew : server.getLeaseByMac dhcpMsg.chaddr = none) :
    server.getAvailableLease dhcpMsg.options.requestedIp = (none, server) ∨
      ∃ ip ∈ server.pool, server.leased.find ip = none ∧
        server.getAvailableLease dhcpMsg.options.requestedIp =
          (some ip, server.createLease ip) := by
  unfold DhcpServer.getAvailableLease
  cases hunspecified : dhcpMsg.options.requestedIp.isUnspecified with
  | true => exact h.searchPool_cases server.pool
  | false =>
    obtain ⟨hpool, hnone⟩ := hfree hnew hunspecified
    have hfind := find_eq_none.mpr hnone
    exact .inr ⟨dhcpMsg.options.requestedIp, hpool, hfind, by simp [hfind]⟩

theorem Tidy.processDiscover (h : Tidy server) (now : SimTime)
    (hfree : DiscoversFree server dhcpMsg) :
    Keeps server (server.processDiscover now dhcpMsg).1 ∧
      acknowledgements dhcpMsg (server.processDiscover now dhcpMsg).2 = [] := by
  unfold DhcpServer.processDiscover
  cases hmac : server.getLeaseByMac dhcpMsg.chaddr with
  | some entry =>
    obtain ⟨ip, lease⟩ := entry
    obtain ⟨hfind, -⟩ := getLeaseByMac_eq_some hmac
    obtain ⟨hip, hpool, hleased⟩ := h ip lease hfind
    have hrecorded : Recorded server.pool ip { lease with xid := dhcpMsg.xid.toNat } :=
      ⟨hip, hpool, hleased⟩
    refine ⟨h.keeps_sendLease hrecorded ?_ _, rfl⟩
    intro old hold
    obtain rfl := Option.some.inj (hfind.symm.trans hold)
    rfl
  | none =>
    rcases h.getAvailableLease_cases hfree hmac with heq | ⟨ip, hpool, hfind, heq⟩
    · rw [heq]
      exact ⟨h.keeps_refl, rfl⟩
    · rw [heq]
      refine ⟨?_, rfl⟩
      have hcreated : (server.createLease ip).leased.find ip =
          some { ip := ip, gateway := server.gateway, subnetMask := server.subnetMask } := by
        rw [createLease, setLease, find_assign, if_pos rfl]
      simp only [hcreated, Option.getD_some]
      set lease : DhcpLease :=
        { ip := ip, gateway := server.gateway, subnetMask := server.subnetMask,
          mac := dhcpMsg.chaddr, xid := dhcpMsg.xid.toNat, leased := true, leaseTime := now }
        with hlease
      have hrecorded : Recorded server.pool ip lease := ⟨rfl, hpool, rfl⟩
      have hkeeps : Keeps server (server.setLease ip lease) := by
        apply h.keeps_setLease hrecorded
        intro old hold
        rw [hfind] at hold
        cases hold
      -- of the two writes to the key only the second one is seen
      refine hkeeps.of_find rfl rfl ?_
      intro ip'
      calc
        _ = (((server.createLease ip).setLease ip lease).leased).find ip' := rfl
        _ = (server.setLease ip lease).leased.find ip' := by
          simp only [createLease, setLease, find_assign]
          split <;> rfl

/-- The acknowledgement of a record under its address is for the owner of the record. -/
theorem Tidy.acknowledge (h : Tidy server) (now : SimTime)
    (hfind : server.leased.find ip = some lease) (hmac : lease.mac = dhcpMsg.chaddr) :
    Keeps server (server.acknowledge now ip lease dhcpMsg).1 ∧
      ∀ ack ∈ acknowledgements dhcpMsg (server.acknowledge now ip lease dhcpMsg).2,
        ack.yiaddr = ip ∧ ack.chaddr = lease.mac ∧ ack.client = lease.mac := by
  obtain ⟨hip, hpool, hleased⟩ := h ip lease hfind
  constructor
  · have hrecorded : Recorded server.pool ip
        { lease with
          xid := dhcpMsg.xid.toNat
          leaseTime := seconds server.leaseTime.toNat
          leased := true } := ⟨hip, hpool, rfl⟩
    refine h.keeps_sendLease hrecorded ?_ _
    intro old hold
    obtain rfl := Option.some.inj (hfind.symm.trans hold)
    rfl
  · intro ack hack
    obtain rfl := mem_singleton.mp hack
    exact ⟨hip, rfl, hmac.symm⟩

/-- What a message that meets the side condition leads to. -/
structure Replies (server server' : DhcpServer) (acks : List Acknowledgement) : Prop where
  keeps : Keeps server server'
  acks : ∀ ack ∈ acks, ∃ lease, server.leased.find ack.yiaddr = some lease ∧
    ack.chaddr = lease.mac ∧ ack.client = lease.mac

theorem Tidy.replies_acknowledge (h : Tidy server) (hfind : server.leased.find ip = some lease)
    (hmac : lease.mac = dhcpMsg.chaddr) :
    Replies server (server.acknowledge now ip lease dhcpMsg).1
      (acknowledgements dhcpMsg (server.acknowledge now ip lease dhcpMsg).2) := by
  obtain ⟨hkeeps, hacks⟩ := h.acknowledge now hfind hmac
  refine ⟨hkeeps, ?_⟩
  intro ack hack
  obtain ⟨hip, hchaddr, hclient⟩ := hacks ack hack
  exact ⟨lease, hip ▸ hfind, hchaddr, hclient⟩

theorem Tidy.replies_sendNak (h : Tidy server) :
    Replies server (server.sendNak dhcpMsg).1
      (acknowledgements dhcpMsg (server.sendNak dhcpMsg).2) :=
  ⟨h.keeps_refl.of_find rfl rfl fun _ ↦ rfl, fun _ hack ↦ absurd hack not_mem_nil⟩

theorem Tidy.replies_nothing (h : Tidy server) : Replies server server [] :=
  ⟨h.keeps_refl, fun _ hack ↦ absurd hack not_mem_nil⟩

theorem Tidy.processRequest (h : Tidy server) (hown : RequestsOwn server dhcpMsg) :
    Replies server (server.processRequest now dhcpMsg).1
      (acknowledgements dhcpMsg (server.processRequest now dhcpMsg).2) := by
  unfold DhcpServer.processRequest
  by_cases hserver : dhcpMsg.options.serverIdentifier = server.ie.ipAddress
  · rw [if_pos hserver]
    cases hmac : server.getLeaseByMac dhcpMsg.chaddr with
    | none => exact h.replies_sendNak
    | some entry =>
      obtain ⟨hfind, hmac⟩ := getLeaseByMac_eq_some hmac
      simp only
      split
      · exact h.replies_sendNak
      · exact h.replies_acknowledge hfind hmac
  · rw [if_neg hserver]
    have howner := hown hserver
    by_cases hciaddr : dhcpMsg.ciaddr.isUnspecified
    · rw [if_pos hciaddr] at howner ⊢
      cases hfind : server.leased.find dhcpMsg.options.requestedIp with
      | none =>
        simp only [hfind]
        exact h.replies_nothing
      | some lease =>
        simp only [hfind]
        split
        · exact h.replies_acknowledge hfind (howner lease hfind)
        · exact h.replies_sendNak
    · rw [if_neg hciaddr] at howner ⊢
      cases hfind : server.leased.find dhcpMsg.ciaddr with
      | none => exact h.replies_sendNak
      | some lease => exact h.replies_acknowledge hfind (howner lease hfind)

theorem Replies.received {acks : List Acknowledgement} (h : Replies server server' acks) :
    Replies server { server' with numReceived := server'.numReceived + 1 } acks :=
  ⟨h.keeps.of_find rfl rfl fun _ ↦ rfl, h.acks⟩

theorem Tidy.replies {history : History} {arrival : Arrival} (h : Tidy history.server)
    (hproper : Proper history arrival) :
    Replies history.server (history.handle arrival).server
      (acknowledgements arrival.dhcpMsg (history.server.processDhcpMessage arrival.now
        arrival.inputInterfaceId arrival.dhcpMsg).2) := by
  unfold handle DhcpServer.processDhcpMessage
  by_cases hinterface : arrival.inputInterfaceId = history.server.ie.interfaceId
  · rw [if_neg (not_not.mpr hinterface)]
    have hproper' := hproper hinterface
    cases hop : arrival.dhcpMsg.op with
    | BOOTREPLY => exact h.replies_nothing.received
    | BOOTREQUEST =>
      obtain ⟨hdiscover, hrequest⟩ := hproper' hop
      cases htype : arrival.dhcpMsg.options.messageType with
      | DHCPDISCOVER =>
        obtain ⟨hkeeps, hnone⟩ := h.processDiscover arrival.now (hdiscover htype)
        refine Replies.received ⟨hkeeps, ?_⟩
        simp only [hnone]
        exact fun _ hack ↦ absurd hack not_mem_nil
      | DHCPREQUEST => exact (h.processRequest (hrequest htype)).received
      | DHCPOFFER | DHCPDECLINE | DHCPACK | DHCPNAK | DHCPRELEASE
      | DHCPINFORM => exact h.replies_nothing.received
  · rw [if_pos hinterface]
    exact h.replies_nothing

/-- The configuration is the same, every record is tidy, and every acknowledgement is on record for
its client. -/
structure Invariant (configured : DhcpServer) (history : History) : Prop where
  pool_eq : history.server.pool = configured.pool
  max_eq : history.server.maxNumOfClients = configured.maxNumOfClients
  tidy : Tidy history.server
  acks : ∀ ack ∈ history.acks, ∃ lease, history.server.leased.find ack.yiaddr = some lease ∧
    ack.chaddr = lease.mac ∧ ack.client = lease.mac

variable {configured : DhcpServer} {history : History} {arrival : Arrival}

theorem invariant_initial (hempty : configured.leased = ∅) :
    Invariant configured ⟨configured, []⟩ := by
  refine ⟨rfl, rfl, ?_, fun _ hack ↦ absurd hack not_mem_nil⟩
  intro ip lease hfind
  rw [hempty, find_empty] at hfind
  cases hfind

theorem Invariant.handle (h : history.Invariant configured) (hproper : history.Proper arrival) :
    (history.handle arrival).Invariant configured := by
  obtain ⟨hkeeps, hacks⟩ := h.tidy.replies hproper
  refine ⟨hkeeps.pool_eq.trans h.pool_eq, hkeeps.max_eq.trans h.max_eq, hkeeps.tidy, ?_⟩
  have hbefore : ∀ ack : Acknowledgement, (∃ lease,
      history.server.leased.find ack.yiaddr = some lease ∧ ack.chaddr = lease.mac ∧
        ack.client = lease.mac) →
      ∃ lease, (history.handle arrival).server.leased.find ack.yiaddr = some lease ∧
        ack.chaddr = lease.mac ∧ ack.client = lease.mac := by
    rintro ack ⟨lease, hfind, hchaddr, hclient⟩
    obtain ⟨lease', hfind', hmac⟩ := hkeeps.owner _ lease hfind
    exact ⟨lease', hfind', hchaddr.trans hmac.symm, hclient.trans hmac.symm⟩
  intro ack hack
  rcases mem_append.mp hack with hold | hnew
  · exact hbefore ack (h.acks ack hold)
  · exact hbefore ack (hacks ack hnew)

/-- The records are of different addresses of the pool. -/
theorem Tidy.size_le {server : DhcpServer} (h : Tidy server) :
    server.leased.size ≤ server.maxNumOfClients.toNat := by
  have hsubset : server.leased.keys ⊆ server.pool := by
    intro ip hkey
    obtain ⟨lease, hfind⟩ := mem_iff_find.mp (AList.mem_keys.mpr hkey)
    exact (h ip lease hfind).mem_pool
  calc
    server.leased.size ≤ server.pool.length :=
      (subperm_of_subset server.leased.keys_nodup hsubset).length_le
    _ = server.maxNumOfClients.toNat := by rw [DhcpServer.pool, length_map, length_range]

theorem Invariant.lawful (h : history.Invariant configured) : history.Lawful configured := by
  have hrecorded : ∀ ack ∈ history.acks, ∀ mac, ack.To mac →
      ∃ lease, history.server.leased.find ack.yiaddr = some lease ∧ lease.mac = mac := by
    intro ack hack mac hto
    obtain ⟨lease, hfind, hchaddr, hclient⟩ := h.acks ack hack
    refine ⟨lease, hfind, ?_⟩
    rcases hto with rfl | rfl
    · exact hclient.symm
    · exact hchaddr.symm
  refine ⟨?_, ?_, hrecorded, ?_⟩
  · intro a ha b hb heq mac mac' hmac hmac'
    obtain ⟨lease, hfind, rfl⟩ := hrecorded a ha mac hmac
    obtain ⟨lease', hfind', rfl⟩ := hrecorded b hb mac' hmac'
    rw [heq, hfind'] at hfind
    rw [Option.some.inj hfind]
  · intro ack hack
    obtain ⟨lease, hfind, -⟩ := h.acks ack hack
    rw [← h.pool_eq]
    exact (h.tidy _ lease hfind).mem_pool
  · rw [← h.max_eq]
    exact h.tidy.size_le

/-- Whatever messages arrive at a server without leases, the acknowledgements are lawful as long as
every message meets the side condition. -/
theorem addresses_lawful_of_run (hempty : configured.leased = ∅) {arrivals : List Arrival}
    (hrun : (machine.restrict Proper).Run ⟨configured, []⟩ arrivals history) :
    history.Lawful configured := by
  apply Invariant.lawful
  apply hrun.invariant _ (invariant_initial hempty)
  intro before arrival after hbefore hstep
  obtain ⟨hstep, hproper⟩ := Machine.step_restrict_iff.mp hstep
  obtain rfl := Except.ok.inj hstep.2
  exact hbefore.handle hproper

instance (history : History) (arrival : Arrival) : Decidable (machine.Enabled history arrival) :=
  isTrue trivial

instance (server : DhcpServer) (dhcpMsg : DhcpMessage) : Decidable (DiscoversFree server dhcpMsg) :=
  inferInstanceAs (Decidable (_ → _))

instance (server : DhcpServer) (dhcpMsg : DhcpMessage) : Decidable (RequestsOwn server dhcpMsg) :=
  inferInstanceAs (Decidable (_ → _))

instance (history : History) (arrival : Arrival) :
    Decidable ((machine.restrict Proper).Enabled history arrival) :=
  inferInstanceAs (Decidable (True ∧ (_ → _ → (_ → _) ∧ (_ → _))))

/-- A server at 10.0.0.1 with a pool of two addresses from 10.0.0.100 on. -/
def twoAddresses : DhcpServer where
  maxNumOfClients := 2
  leaseTime := 3600
  subnetMask := 0xffffff00
  gateway := 0x0a000001
  ipAddressStart := 0x0a000064
  ie := ⟨101, 0x0a000001, 0xffffff00⟩

/-- A discover of a client that asks for an address. -/
def discover (chaddr : MacAddress) (requestedIp : Ipv4Address) : Arrival where
  now := 0
  inputInterfaceId := 101
  dhcpMsg :=
    { op := .BOOTREQUEST
      xid := 1
      chaddr := chaddr
      options := { messageType := .DHCPDISCOVER, requestedIp := requestedIp } }

/-- A request of a client for an address that names a server. -/
def request (chaddr : MacAddress) (requestedIp serverIdentifier : Ipv4Address) : Arrival where
  now := 0
  inputInterfaceId := 101
  dhcpMsg :=
    { op := .BOOTREQUEST
      xid := 2
      chaddr := chaddr
      options :=
        { messageType := .DHCPREQUEST
          requestedIp := requestedIp
          serverIdentifier := serverIdentifier } }

theorem addresses_lawful_of_run_twoClients : twoAddresses.leased = ∅ ∧ ∃ history,
    (machine.restrict Proper).Run ⟨twoAddresses, []⟩
      [discover 1 0x0a000065, discover 2 0, request 1 0x0a000065 0x0a000001,
        request 2 0x0a000064 0x0a000001, request 2 0x0a000064 0] history ∧
      history.Lawful twoAddresses := by
  refine ⟨rfl, ?_⟩
  refine Machine.exists_run_imp (fun _ ↦ True) (by decide +kernel) ?_
  intro history hrun _
  exact addresses_lawful_of_run rfl hrun

theorem exists_run_not_lawful {p : History → Prop} [DecidablePred p] {arrivals : List Arrival}
    (hnot : ∀ history, p history → ¬history.Lawful twoAddresses)
    (h : (machine.exec ⟨twoAddresses, []⟩ arrivals).any fun history ↦ decide (p history)) :
    ∃ history, machine.Run ⟨twoAddresses, []⟩ arrivals history ∧ ¬history.Lawful twoAddresses := by
  obtain ⟨history, hrun, hp⟩ := Machine.exists_run_of_exec h
  exact ⟨history, hrun, hnot history hp⟩

/-- A second client gets the address of the first one by asking for it, a client gets an address
outside the pool, three clients get more addresses than the pool has, and a client that starts again
with the address of another one is told that it may use it. -/
theorem not_addresses_lawful :
    (∃ history, machine.Run ⟨twoAddresses, []⟩
      [discover 1 0x0a000064, request 1 0x0a000064 0x0a000001, discover 2 0x0a000064,
        request 2 0x0a000064 0x0a000001] history ∧ ¬history.Lawful twoAddresses) ∧
    (∃ history, machine.Run ⟨twoAddresses, []⟩
      [discover 1 0x0b000001, request 1 0x0b000001 0x0a000001] history ∧
        ¬history.Lawful twoAddresses) ∧
    (∃ history, machine.Run ⟨twoAddresses, []⟩
      [discover 1 0, discover 2 0, discover 3 0x0a000066] history ∧
        ¬history.Lawful twoAddresses) ∧
    ∃ history, machine.Run ⟨twoAddresses, []⟩
      [discover 1 0, request 1 0x0a000064 0x0a000001, request 2 0x0a000064 0] history ∧
        ¬history.Lawful twoAddresses := by
  refine ⟨?_, ?_, ?_, ?_⟩
  · refine exists_run_not_lawful (p := fun history ↦ ∃ a ∈ history.acks, ∃ b ∈ history.acks,
      a.yiaddr = b.yiaddr ∧ a.chaddr ≠ b.chaddr) ?_ (by decide +kernel)
    rintro history ⟨a, ha, b, hb, heq, hne⟩ hlawful
    exact hne (hlawful.unique a ha b hb heq _ _ (.inr rfl) (.inr rfl))
  · refine exists_run_not_lawful (p := fun history ↦ ∃ ack ∈ history.acks,
      ack.yiaddr ∉ twoAddresses.pool) ?_ (by decide +kernel)
    rintro history ⟨ack, hack, hnot⟩ hlawful
    exact hnot (hlawful.inPool ack hack)
  · refine exists_run_not_lawful (p := fun history ↦
      twoAddresses.maxNumOfClients.toNat < history.server.leased.size) ?_ (by decide +kernel)
    intro history hlt hlawful
    exact hlt.not_ge hlawful.size_le
  · refine exists_run_not_lawful (p := fun history ↦ ∃ ack ∈ history.acks,
      ack.client ≠ ack.chaddr) ?_ (by decide +kernel)
    rintro history ⟨ack, hack, hne⟩ hlawful
    exact hne (hlawful.unique ack hack ack hack rfl _ _ (.inl rfl) (.inr rfl))

end History

end Inet4.Dhcp
