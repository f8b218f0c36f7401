import Inet4.Icn.Packet
import Inet4.MultiMap

/-!
# The routing table

`ColorRoutingTable` stores the routes to a node in the order of their insertion.  `CreateEntry`
renews the lifetime of a route it knows and inserts a route that is better than all others;
`findRoute` returns the best live route, looking no further than the first expired one, which it
erases.  Link qualities are whole numbers in every call.
-/

namespace Inet4.Icn

/-- `Croute`.  The interface number is 24 in every call. -/
structure Croute where
  nextHop : NID
  nextMac : MacAddress
  lifeTime : SimTime
  linkQlt : ℤ
  deriving DecidableEq

abbrev ColorRoutingTable := MultiMap NID Croute

namespace ColorRoutingTable

/-- The loop of `CreateEntry`, which returns when it meets the same route or one that is at least as
good; `none` when it runs to its end. -/
def renew (now : SimTime) (nextHop : NID) (mac : MacAddress) (ttl : SimTime) (linkQ : ℤ) :
    List Croute → Option (List Croute)
  | [] => none
  | iter :: rest =>
    if iter.nextHop = nextHop ∧ iter.nextMac = mac then
      let lifeTime := if ttl + now > iter.lifeTime then ttl + now else iter.lifeTime
      some ({ iter with lifeTime } :: rest)
    else if iter.linkQlt ≥ linkQ then
      some (iter :: rest)
    else
      (renew now nextHop mac ttl linkQ rest).map (iter :: ·)

variable (table : ColorRoutingTable)

def createEntry (now : SimTime) (dest nextHop : NID)
    (mac : MacAddress) (ttl : SimTime) (linkQ : ℤ) : ColorRoutingTable :=
  match renew now nextHop mac ttl linkQ (table.equalRange dest) with
  | some range => table.setRange dest range
  | none => table.insert dest ⟨nextHop, mac, ttl + now, linkQ⟩

/-- The loop of `findRoute`: the best route so far, and the routes from the current one on. -/
def findLoop (now : SimTime) : Option Croute → List Croute → Option Croute × List Croute
  | result, [] => (result, [])
  | result, iter :: rest =>
    if iter.lifeTime > now then
      let result :=
        match result with
        | none => some iter
        | some best => if best.linkQlt < iter.linkQlt then some iter else some best
      let (result, rest) := findLoop now result rest
      (result, iter :: rest)
    else
      (result, rest)

def findRoute (now : SimTime) (dest : NID) :
    Option Croute × ColorRoutingTable :=
  let (result, range) := findLoop now none (table.equalRange dest)
  (result, table.setRange dest range)

/-- The present contents of a route that was found earlier.  A table holds at most one route to a
destination with the same next hop and address, and a route keeps both. -/
def reread (dest : NID) (route : Croute) : Croute :=
  ((table.equalRange dest).find? fun iter ↦
    iter.nextHop = route.nextHop ∧ iter.nextMac = route.nextMac).getD route

end ColorRoutingTable

end Inet4.Icn
