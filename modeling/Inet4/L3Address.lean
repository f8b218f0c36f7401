import Inet4.Ipv4.RoutingTable

/-!
# Network layer addresses

`L3Address` is one type for the addresses of all network layers.  An address that has not been set
has no type; asking it for more than `isUnspecified` is an error.
-/

namespace Inet4

open Ipv4 (Ipv4Address)

namespace Ipv4.Ipv4Address

def isMulticast (addr : Ipv4Address) : Bool := addr &&& 0xF0000000#32 = 0xE0000000#32

def isLimitedBroadcastAddress (addr : Ipv4Address) : Bool := addr = 0xFFFFFFFF#32

end Ipv4.Ipv4Address

/-- `L3Address`.  A CLNS address is left out: every predicate below fails on it. -/
inductive L3Address
  | NONE
  | IPv4 (addr : Ipv4Address)
  | IPv6 (addr : BitVec 128)
  | MAC (addr : BitVec 48)
  | MODULEPATH (id : ℤ)
  | MODULEID (id : ℤ)
deriving DecidableEq

namespace L3Address

def isUnspecified : L3Address → Bool
  | NONE => true
  | IPv4 addr => addr.isUnspecified
  | IPv6 addr => addr = 0#128
  | MAC addr => addr = 0#48
  | MODULEPATH id => id = 0
  | MODULEID id => id = 0

def isMulticast : L3Address → Except SimulationError Bool
  | NONE => .error (.runtimeError "Address contains no value")
  | IPv4 addr => .ok addr.isMulticast
  | IPv6 addr => .ok (addr.extractLsb' 120 8 = 0xFF#8)
  -- the first byte on the wire is the highest one
  | MAC addr => .ok (addr.getLsbD 40)
  | MODULEPATH id => .ok (id < -1)
  | MODULEID id => .ok (id < -1)

def isBroadcast : L3Address → Except SimulationError Bool
  | NONE => .error (.runtimeError "Address contains no value")
  | IPv4 addr => .ok addr.isLimitedBroadcastAddress
  | IPv6 _ => .ok false
  | MAC addr => .ok (addr = BitVec.allOnes 48)
  | MODULEPATH id => .ok (id = -1)
  | MODULEID id => .ok (id = -1)

def toIpv4 : L3Address → Except SimulationError Ipv4Address
  | NONE => .ok 0#32
  | IPv4 addr => .ok addr
  | _ => .error (.runtimeError "Address is not of the given type")

/-- The number of the type in `L3Address::AddressType`. -/
def typeNumber : L3Address → ℕ
  | NONE => 0
  | IPv4 _ => 1
  | IPv6 _ => 2
  | MAC _ => 4
  | MODULEPATH _ => 5
  | MODULEID _ => 6

/-- The number that addresses of one type are compared by. -/
def value : L3Address → ℤ
  | NONE => 0
  | IPv4 addr => addr.toNat
  | IPv6 addr => addr.toNat
  | MAC addr => addr.toNat
  | MODULEPATH id => id
  | MODULEID id => id

/-- `operator<`. -/
def lessThan (first second : L3Address) : Bool :=
  first.typeNumber < second.typeNumber ∨
    first.typeNumber = second.typeNumber ∧ first.value < second.value

variable {first second third : L3Address}

theorem eq_of_value_eq (htype : first.typeNumber = second.typeNumber)
    (hvalue : first.value = second.value) : first = second := by
  cases first <;> cases second <;> simp_all [typeNumber, value, BitVec.toNat_inj]

theorem lessThan_irrefl (address : L3Address) : address.lessThan address = false := by
  simp [lessThan]

theorem lessThan_trans (hfirst : first.lessThan second = true)
    (hsecond : second.lessThan third = true) : first.lessThan third = true := by
  simp only [lessThan, decide_eq_true_eq] at *
  omega

/-- Two addresses neither of which comes before the other are the same. -/
theorem eq_of_not_lessThan (hfirst : first.lessThan second = false)
    (hsecond : second.lessThan first = false) : first = second := by
  simp only [lessThan, decide_eq_false_iff_not] at hfirst hsecond
  apply eq_of_value_eq
  · omega
  · omega

end L3Address

end Inet4
