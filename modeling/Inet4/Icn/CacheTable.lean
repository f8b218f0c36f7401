import Inet4.Icn.Packet

/-!
# The content store

`ColorCacheTable` keeps one `ContentBlock` of Data packets for each SID.  It allocates a timer with
each block but schedules none, so that nothing is ever evicted; timers and block sizes are left out.
-/

namespace Inet4.Icn

/-- The member `packets` of a `ContentBlock`. -/
abbrev ContentBlock := List DataPacket

/-- `ContentBlock::hasThisPacket` compares the offset and the total length. -/
def ContentBlock.hasThisPacket (block : ContentBlock) (packet : DataPacket) : Bool :=
  block.any fun p ↦
    p.head.offset = packet.head.offset ∧ p.head.totalLength = packet.head.totalLength

abbrev ColorCacheTable := AssocMap SID ContentBlock

namespace ColorCacheTable

variable (ct : ColorCacheTable)

/-- `getBlock`; `none` is the null pointer. -/
def getBlock (sid : SID) : Option ContentBlock := ct.find sid

def createBlock (sid : SID) : ColorCacheTable := ct.assign sid []

/-- `ContentBlock::InsterPacket` on the block of a SID. -/
def insterPacket (sid : SID) (packet : DataPacket) : ColorCacheTable :=
  ct.assign sid ((ct.getBlock sid).getD [] ++ [packet])

def cachePacket (sid : SID) (packet : DataPacket) : ColorCacheTable :=
  match ct.getBlock sid with
  | some _ => ct.insterPacket sid packet
  | none => (ct.createBlock sid).insterPacket sid packet

def hasThisPacket (ct : ColorCacheTable) (packet : DataPacket) (sid : SID) : Bool :=
  match ct.getBlock sid with
  | none => false
  | some block => block.hasThisPacket packet

variable {ct} {sid sid' : SID} {packet : DataPacket}

theorem getBlock_insterPacket : (ct.insterPacket sid packet).getBlock sid' =
    if sid' = sid then some ((ct.getBlock sid).getD [] ++ [packet]) else ct.getBlock sid' :=
  AssocMap.find_assign

/-- Whether or not the block exists, `CachePacket` appends to it. -/
theorem getBlock_cachePacket : (ct.cachePacket sid packet).getBlock sid' =
    if sid' = sid then some ((ct.getBlock sid).getD [] ++ [packet]) else ct.getBlock sid' := by
  unfold cachePacket
  split
  · exact getBlock_insterPacket
  · rename_i hnone
    rw [getBlock_insterPacket]
    have hcreated : ∀ sid', (ct.createBlock sid).getBlock sid' =
        if sid' = sid then some [] else ct.getBlock sid' := fun _ ↦ AssocMap.find_assign
    simp only [hcreated, hnone, if_true, Option.getD_some, Option.getD_none]
    split <;> rfl

end ColorCacheTable

end Inet4.Icn
