import Inet4.Tcp.Sender

/-!
# The SACK scoreboard of a TCP connection

`processSACKOption` marks the blocks that a peer reports, `isLost` judges from the marks whether a
byte is lost, `setPipe` estimates the number of bytes in the network, and `nextSeg` selects what to
send next during loss recovery.  A failed `ASSERT` ends the simulation.

Left out are the signals and log messages, among them the detection of D-SACK blocks, which is only
logged.
-/

namespace Inet4.Tcp

/-- `process_CLOSE` while the connection is open: a FIN is sent right away if no data is pending,
else with the last data. -/
def Sender.process_CLOSE {α : Type} (s : Sender α) : Sender α :=
  let s :=
    if s.snd_max = s.sendQueue.end then
      let s := Sender.sendFin { s with snd_nxt := s.snd_max }
      { s with snd_nxt := advance s.snd_nxt 1, snd_max := advance s.snd_nxt 1 }
    else s
  { s with send_fin := true, snd_fin_seq := s.sendQueue.end }

/-- A block of a SACK option. -/
structure Sack where
  start : SeqNum
  «end» : SeqNum
deriving DecidableEq

structure TcpOptionSack where
  length : ℕ
  sackItem : List Sack
deriving DecidableEq

/-- A sender with the variables of its scoreboard. -/
structure SackSender (α : Type) extends Sender α where
  /-- The end of the highest region that was sent again. -/
  highRxt : SeqNum
  /-- The estimate of the bytes in the network. -/
  pipe : BitVec 32
  rcv_sacks : BitVec 32
  sackedBytes_old : BitVec 32
  sackedBytes : BitVec 32
deriving DecidableEq

namespace SackSender

def DUPTHRESH : ℕ := 3

variable {α : Type} (s : SackSender α)

/-- A block of an option: only its end is compared with the two acknowledgement numbers. -/
def applySack (ackNo : SeqNum) (rexmitQueue : SackRexmitQueue) (tmp : Sack) :
    Except Fault SackRexmitQueue :=
  if seqGreater tmp.end ackNo ∧ seqGreater tmp.end s.snd_una then
    rexmitQueue.setSackedBit tmp.start tmp.end
  else .ok rexmitQueue

/-- The states in which SACK options are processed. -/
def AcceptsSacks : TcpState → Bool
  | .synRcvd | .established | .finWait1 | .finWait2 => true
  | _ => false

def processSACKOption (ackNo : SeqNum) (option : TcpOptionSack) :
    Except Fault (Bool × SackSender α) :=
  if option.length % 8 ≠ 2 then .ok (false, s)
  else do
    assert (option.length = 2 + option.sackItem.length * 8)
    if ¬s.options.sack_enabled then return (false, s)
    else if ¬AcceptsSacks s.options.fsm then return (false, s)
    else if 0 < option.sackItem.length then
      let rexmitQueue ← option.sackItem.foldlM (s.applySack ackNo) s.rexmitQueue
      return (true, { s with
        rexmitQueue
        rcv_sacks := s.rcv_sacks + BitVec.ofNat 32 option.sackItem.length
        sackedBytes_old := s.sackedBytes
        sackedBytes := rexmitQueue.getTotalAmountOfSackedBytes })
    else return (true, s)

def isLost (seqNum : SeqNum) : Except Fault Bool := do
  assert s.options.sack_enabled
  assert (seqGE seqNum s.snd_una)
  let sacks ← s.rexmitQueue.getNumOfDiscontiguousSacks seqNum
  if DUPTHRESH ≤ sacks.toNat then return true
  else
    let bytes ← s.rexmitQueue.getAmountOfSackedBytes seqNum
    return decide (DUPTHRESH * s.snd_mss % 2 ^ 32 ≤ bytes.toNat)

/-- Adds a block to the estimate. -/
def addBlock (highRxt s1 : SeqNum) (block : SackRexmitQueue.SackBlock) (pipe : BitVec 32) :
    Except Fault (BitVec 32) :=
  if block.sacked then .ok pipe
  else do
    let lost ← s.isLost s1
    let pipe := if lost then pipe else pipe + block.length
    return if seqLess s1 highRxt then pipe + block.length else pipe

/-- The loop of `setPipe`, from a block on. -/
def addBlocks (highRxt : SeqNum) : (fuel : ℕ) → (s1 : SeqNum) → (pipe : BitVec 32) →
    Except Fault (BitVec 32)
  | 0, _, _ => .error .notReturned
  | fuel + 1, s1, pipe =>
    if seqLess s1 s.snd_max then do
      let block ← s.rexmitQueue.checkSackBlock s1
      let pipe ← s.addBlock highRxt s1 block pipe
      addBlocks highRxt fuel (s1 + block.length) pipe
    else .ok pipe

def setPipe : Except Fault (SackSender α) := do
  assert s.options.sack_enabled
  let highRxt := s.rexmitQueue.getHighestRexmittedSeqNum
  let pipe ← s.addBlocks highRxt (distance s.snd_una s.snd_max + 1) s.snd_una 0
  return { s with highRxt, pipe }

/-- The loops of `nextSeg` over the blocks below the highest sacked one: the first block that is not
sacked.  The step is the length that `checkSackBlock` has stored in `shift`. -/
def firstUnsacked (highestSackedSeqNum : SeqNum) : (fuel : ℕ) → (s2 : SeqNum) →
    Except Fault (Option SeqNum)
  | 0, _ => .error .notReturned
  | fuel + 1, s2 =>
    if seqLess s2 s.snd_max ∧ seqLess s2 highestSackedSeqNum then do
      let block ← s.rexmitQueue.checkSackBlock s2
      if block.sacked then firstUnsacked highestSackedSeqNum fuel (s2 + block.length)
      else return some s2
    else .ok none

/-- Rule (1), which leaves its loop at the first block that is not sacked. -/
def firstLost (highRxt highestSackedSeqNum : SeqNum) : Except Fault (Option SeqNum) := do
  let s2 ← s.firstUnsacked highestSackedSeqNum (distance highRxt s.snd_max + 1) highRxt
  match s2 with
  | some s2 =>
    let lost ← s.isLost s2
    return if lost then some s2 else none
  | none => return none

/-- The window of rule (2), the difference of two `ulong`s. -/
def effectiveWindow : ℕ := (s.snd_wnd + (2 ^ 64 - s.pipe.toNat)) % 2 ^ 64

/-- `nextSeg`, which returns the number through its argument. -/
def nextSeg : Except Fault (Option SeqNum × SackSender α) := do
  assert s.options.sack_enabled
  let highRxt := s.rexmitQueue.getHighestRexmittedSeqNum
  let highestSackedSeqNum := s.rexmitQueue.getHighestSackedSeqNum
  let s2 ← s.firstLost highRxt highestSackedSeqNum
  if s2.isSome then return (s2, { s with highRxt })
  else if 0 < s.sendQueue.getBytesAvailable s.snd_max ∧ s.snd_mss ≤ s.effectiveWindow then
    return (some s.snd_max, { s with highRxt })
  else
    let s3 ← s.firstUnsacked highestSackedSeqNum (distance highRxt s.snd_max + 1) highRxt
    return (s3, { s with highRxt })

end SackSender

end Inet4.Tcp
