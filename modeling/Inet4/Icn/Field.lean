import Mathlib.Data.BitVec

/-!
# Identifiers of the information-centric network layer

`NID` names a node by four 32-bit words, `SID` names a content item by the `NID` of its source and
a tail of five words.  The program compares identifiers word by word, so each is the bit vector of
its words.  The `test` members of the two classes hold debugging output and take no part in any
comparison.
-/

namespace Inet4.Icn

structure NID where
  value : BitVec 128
  deriving DecidableEq, Repr

/-- `NID::isDefault`: all words are zero, as the default constructor leaves them. -/
def NID.isDefault (nid : NID) : Bool := nid.value = 0

/-- `NID::NID()`. -/
instance : Inhabited NID := ⟨⟨0⟩⟩

structure SID where
  nidHeader : NID
  sidTail : BitVec 160
  deriving DecidableEq, Repr

/-- `SID::SID()`. -/
instance : Inhabited SID := ⟨⟨default, 0⟩⟩

def SID.getNidHead (sid : SID) : NID := sid.nidHeader

end Inet4.Icn
