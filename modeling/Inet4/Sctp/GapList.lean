import Inet4.Kernel
import Inet4.Sctp.Tsn

/-!
# The gap list of SCTP

`SctpSimpleGapList` keeps the blocks of TSNs that were received after the cumulative TSN, in two
arrays of fixed size for the first and the last TSN of each block.
-/

namespace Inet4.Sctp

open Function

def maxGapCount : ℕ := 500

structure SctpSimpleGapList where
  numGaps : ℕ
  /-- The arrays, of which the elements from `maxGapCount` on do not exist. -/
  gapStartList : ℕ → Tsn
  gapStopList : ℕ → Tsn
  numGaps_le : numGaps ≤ maxGapCount

namespace SctpSimpleGapList

/-- The constructor. -/
def new : SctpSimpleGapList where
  numGaps := 0
  gapStartList _ := 0xffff00ff
  gapStopList _ := 0xffff0000
  numGaps_le := Nat.zero_le maxGapCount

variable (gapList : SctpSimpleGapList)

/-- Whether the assertions of `check` hold. -/
def check (cTsnAck : Tsn) : Bool :=
  (List.range gapList.numGaps).all fun i ↦
    (if i = 0 then tsnGt (gapList.gapStartList i) (cTsnAck + 1)
      else tsnGt (gapList.gapStartList i) (gapList.gapStopList (i - 1) + 1)) &&
    tsnLe (gapList.gapStartList i) (gapList.gapStopList i)

def tsnInGapList (tsn : Tsn) : Bool :=
  (List.range gapList.numGaps).any fun i ↦
    tsnBetween (gapList.gapStartList i) tsn (gapList.gapStopList i)

/-- Element `i` and the ones after it are copied to the elements that are `advance` before them. -/
def moveDown (advance : ℕ) : (rounds i : ℕ) → SctpSimpleGapList → Except Fault SctpSimpleGapList
  | 0, _, gapList => .ok gapList
  | rounds + 1, i, gapList => do
    assert (i < maxGapCount)
    moveDown advance rounds (i + 1)
      { gapList with
        gapStartList :=
          update gapList.gapStartList (i - advance) (gapList.gapStartList i)
        gapStopList := update gapList.gapStopList (i - advance) (gapList.gapStopList i) }

/-- Element `j` and the ones before it are overwritten by the elements before them. -/
def moveUp : (rounds j : ℕ) → SctpSimpleGapList → Except Fault SctpSimpleGapList
  | 0, _, gapList => .ok gapList
  | rounds + 1, j, gapList => do
    assert (j < maxGapCount)
    moveUp rounds (j - 1)
      { gapList with
        gapStartList := update gapList.gapStartList j (gapList.gapStartList (j - 1))
        gapStopList := update gapList.gapStopList j (gapList.gapStopList (j - 1)) }

/-- The number of blocks from `counter` on that do not begin after the cumulative TSN. -/
def countAdvance (gapList : SctpSimpleGapList) (cTsnAck : Tsn) : (rounds counter : ℕ) → ℕ
  | 0, _ => 0
  | rounds + 1, counter =>
    if tsnGe cTsnAck (gapList.gapStartList counter) then
      gapList.countAdvance cTsnAck rounds (counter + 1) + 1
    else 0

def forwardCumAckTsn (cTsnAck : Tsn) : Except Fault SctpSimpleGapList := do
  let advance := gapList.countAdvance cTsnAck gapList.numGaps 0
  if 0 < advance then
    let moved ← gapList.moveDown advance (gapList.numGaps - advance) advance
    return { moved with
      numGaps := gapList.numGaps - advance
      numGaps_le := le_trans (Nat.sub_le _ _) gapList.numGaps_le }
  else return gapList

/-- The loop of `tryToAdvanceCumAckTsn`. -/
def advanceLoop : (rounds : ℕ) → SctpSimpleGapList → Tsn → (progress : Bool) →
    Except Fault (Bool × SctpSimpleGapList × Tsn)
  | 0, gapList, cTsnAck, progress => .ok (progress, gapList, cTsnAck)
  | rounds + 1, gapList, cTsnAck, progress =>
    if cTsnAck + 1 = gapList.gapStartList 0 then do
      let moved ← gapList.moveDown 1 (gapList.numGaps - 1) 1
      advanceLoop rounds moved (gapList.gapStopList 0) true
    else advanceLoop rounds gapList cTsnAck progress

def tryToAdvanceCumAckTsn (cTsnAck : Tsn) : Except Fault (Bool × SctpSimpleGapList × Tsn) :=
  advanceLoop gapList.numGaps gapList cTsnAck false

/-- The last of the first blocks that has a TSN. -/
def findBlock (gapList : SctpSimpleGapList) (tsn : Tsn) : ℕ → Option ℕ
  | 0 => none
  | i + 1 =>
    if tsnBetween (gapList.gapStartList i) tsn (gapList.gapStopList i) then some i
    else gapList.findBlock tsn i

/-- One more block, up to the limit. -/
def addGap : SctpSimpleGapList :=
  { gapList with
    numGaps := min (gapList.numGaps + 1) maxGapCount
    numGaps_le := min_le_right _ _ }

def removeFromGapList (removedTsn : Tsn) : Except Fault SctpSimpleGapList :=
  match gapList.findBlock removedTsn gapList.numGaps with
  | none => .ok gapList
  | some i =>
    let gapsize := (gapList.gapStopList i - gapList.gapStartList i + 1).toInt
    if gapsize > 1 then
      if gapList.gapStopList i = removedTsn then
        .ok { gapList with
          gapStopList := update gapList.gapStopList i (gapList.gapStopList i - 1) }
      else if gapList.gapStartList i = removedTsn then
        .ok { gapList with
          gapStartList := update gapList.gapStartList i (gapList.gapStartList i + 1) }
      else do
        -- the block has to be split up
        let split := gapList.addGap
        let split ← split.moveUp (split.numGaps - 1 - i) (split.numGaps - 1)
        return { split with
          gapStartList :=
            if i + 1 < split.numGaps then update split.gapStartList (i + 1) (removedTsn + 1)
            else split.gapStartList
          gapStopList := update split.gapStopList i (removedTsn - 1) }
    else do
      let moved ← gapList.moveDown 1 (gapList.numGaps - i) (i + 1)
      return {
        numGaps := gapList.numGaps - 1
        gapStartList := update moved.gapStartList (gapList.numGaps - 1) 0
        gapStopList := update moved.gapStopList (gapList.numGaps - 1) 0
        numGaps_le := le_trans (Nat.sub_le _ _) gapList.numGaps_le }

/-- Where the loop of `updateGapList` finds a TSN, together with its `lo`. -/
inductive Place
  /-- In the gap before a block. -/
  | before (i : ℕ) (lo : Tsn)
  /-- In no gap before a block. -/
  | atEnd (lo : Tsn)

/-- The loop of `updateGapList` from block `i` on. -/
def search (gapList : SctpSimpleGapList) (receivedTsn : Tsn) : (rounds i : ℕ) → (lo : Tsn) → Place
  | 0, _, lo => .atEnd lo
  | rounds + 1, i, lo =>
    if 0 < gapList.gapStartList i then
      if tsnBetween lo receivedTsn (gapList.gapStartList i - 1) then .before i lo
      else gapList.search receivedTsn rounds (i + 1) (gapList.gapStopList i + 1)
    else gapList.search receivedTsn rounds (i + 1) lo

/-- Block `i` is taken out of the arrays. -/
def closeGap (i : ℕ) : Except Fault SctpSimpleGapList := do
  let moved ←
    if i = gapList.numGaps - 1 then
      .ok { gapList with
        gapStartList := update gapList.gapStartList i 0
        gapStopList := update gapList.gapStopList i 0 }
    else gapList.moveDown 1 (gapList.numGaps - 1 - i) (i + 1)
  return { moved with
    numGaps := gapList.numGaps - 1
    numGaps_le := le_trans (Nat.sub_le _ _) gapList.numGaps_le }

/-- The TSN is put into the gap before block `i`. -/
def fillGap (i : ℕ) (lo receivedTsn cTsnAck : Tsn) : Except Fault (SctpSimpleGapList × Tsn) :=
  let hi := gapList.gapStartList i - 1
  let gapsize := hi - lo + 1
  if 1 < gapsize then
    if receivedTsn = hi then
      .ok ({ gapList with
        gapStartList := update gapList.gapStartList i receivedTsn }, cTsnAck)
    else if receivedTsn = lo then
      if receivedTsn = cTsnAck + 1 then .ok (gapList, cTsnAck + 1)
      else do
        assert (0 < i)
        return ({ gapList with
          gapStopList := update gapList.gapStopList (i - 1) receivedTsn }, cTsnAck)
    else do
      -- a block in between
      let added := gapList.addGap
      let added ← added.moveUp (added.numGaps - 1 - i) (added.numGaps - 1)
      return ({ added with
        gapStartList := update added.gapStartList i receivedTsn
        gapStopList := update added.gapStopList i receivedTsn }, cTsnAck)
  else if lo = cTsnAck + 1 then do
    let closed ← gapList.closeGap i
    return (closed, gapList.gapStopList i)
  else do
    assert (0 < i)
    let closed ← { gapList with
      gapStopList := update gapList.gapStopList (i - 1) (gapList.gapStopList i) }.closeGap i
    return (closed, cTsnAck)

/-- The TSN is put after the last block. -/
def appendGap (lo receivedTsn cTsnAck : Tsn) (newChunkReceived : Bool)
    : Except Fault (SctpSimpleGapList × Tsn × Bool) :=
  if receivedTsn = lo then
    if receivedTsn = cTsnAck + 1 then .ok (gapList, receivedTsn, true)
    else do
      assert (0 < gapList.numGaps)
      return ({ gapList with
        gapStopList := update gapList.gapStopList (gapList.numGaps - 1)
          (gapList.gapStopList (gapList.numGaps - 1) + 1) }, cTsnAck, true)
  else if gapList.numGaps = 0 ∨
      tsnGt receivedTsn (gapList.gapStopList (gapList.numGaps - 1) + 1) then
    if h : gapList.numGaps < maxGapCount then
      .ok ({
        numGaps := gapList.numGaps + 1
        gapStartList := update gapList.gapStartList gapList.numGaps receivedTsn
        gapStopList := update gapList.gapStopList gapList.numGaps receivedTsn
        numGaps_le := h }, cTsnAck, true)
    else .ok (gapList, cTsnAck, newChunkReceived)
  else .ok (gapList, cTsnAck, newChunkReceived)

/-- What is returned, the list, `cTsnAck` and `newChunkReceived` after the call. -/
def updateGapList (receivedTsn cTsnAck : Tsn) (newChunkReceived : Bool)
    : Except Fault (Bool × SctpSimpleGapList × Tsn × Bool) :=
  if tsnLe receivedTsn cTsnAck then .ok (false, gapList, cTsnAck, newChunkReceived)
  else
    match gapList.search receivedTsn gapList.numGaps 0 (cTsnAck + 1) with
    | .before i lo => do
      let (gapList, cTsnAck) ← gapList.fillGap i lo receivedTsn cTsnAck
      return (true, gapList, cTsnAck, true)
    | .atEnd lo => do
      let (gapList, cTsnAck, newChunkReceived) ←
        gapList.appendGap lo receivedTsn cTsnAck newChunkReceived
      return (true, gapList, cTsnAck, newChunkReceived)

end SctpSimpleGapList

end Inet4.Sctp
