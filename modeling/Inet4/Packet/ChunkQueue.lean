import Inet4.Machine
import Inet4.Packet.ChunkPeek

/-!
# Chunk queues

A `ChunkQueue` keeps its content in one chunk and the head of the queue as an iterator into it.  The
chunk is cut only when the iterator has passed its middle.  The bits that are stored are those from
the iterator on, and the queue is a first in, first out stream of bits.

Usage checks are made in debug mode only.  With them, `pop` without a length is always refused:
it replaces the length by `Chunk::unspecifiedLength`, and the `peek` that it calls admits no
negative length but -1.
-/

namespace Inet4.Packet

structure ChunkQueue where
  pushedLength : ℕ
  poppedLength : ℕ
  content : Chunk
  iterator : Iterator
deriving DecidableEq

/-- `Chunk::unspecifiedLength`. -/
def unspecifiedLength : ℤ := -(2 ^ 63 - 1)

/-- A length as `Chunk::peek` understands it. -/
def Length.ofArgument (length : ℤ) : Length :=
  if length = unspecifiedLength then .unspecified else .ofInt length

/-- `Chunk::Iterator` from a position. -/
def Iterator.ofPosition (position : ℕ) : Iterator :=
  ⟨position, if position = 0 then some 0 else none⟩

/-- `CHUNK_CHECK_USAGE`. -/
def checkUsage (debug : Bool) (condition : Prop) [Decidable condition] : Except Fault Unit :=
  if debug ∧ ¬condition then .error .runtimeError else .ok ()

namespace ChunkQueue

def initial : ChunkQueue := ⟨0, 0, .empty, ⟨0, some 0⟩⟩

def getLength (q : ChunkQueue) : ℤ := q.content.getChunkLength - q.iterator.position

section Operations

variable (ptr : PointerEq) (debug : Bool) (q : ChunkQueue)

/-- The content that `remove` leaves. -/
def removeFromContent (content : Chunk) (length : ℕ) : Except Fault Chunk :=
  if content.getChunkLength = length then .ok .empty
  else if content.canRemoveAtFront length then content.removeAtFront length
  else do
    match ← content.peek ptr (.ofPosition length) (.exactly (content.getChunkLength - length))
      ⟨false, false⟩ with
    | some rest => .ok rest
    | none => .error .undefinedBehaviour

def remove (length : ℕ) : Except Fault ChunkQueue := do
  let content ← removeFromContent ptr q.content length
  return { q with
    content := content
    iterator := content.seekIterator (q.iterator.position - length) }

def moveIteratorOrRemove (length : ℕ) : Except Fault ChunkQueue :=
  let moved := { q with
    poppedLength := q.poppedLength + length
    iterator := q.content.moveIterator q.iterator length }
  if q.content.getChunkLength / 2 < moved.iterator.position then
    moved.remove ptr moved.iterator.position
  else .ok moved

def peek (length : ℤ) (flags : PeekFlags) : Except Fault (Option Chunk) := do
  checkUsage debug (-1 ≤ length ∧ length ≤ q.getLength)
  q.content.peek ptr q.iterator
    (.ofArgument (if length = -1 then unspecifiedLength else length)) flags

def peekAt (offset : ℕ) (length : ℤ) (flags : PeekFlags) : Except Fault (Option Chunk) := do
  checkUsage debug (offset ≤ q.getLength)
  checkUsage debug (-1 ≤ length ∧ offset + length ≤ q.getLength)
  q.content.peek ptr ⟨q.iterator.position + offset, none⟩
    (.ofArgument (if length = -1 then unspecifiedLength else length)) flags

def pop (length : ℤ) (flags : PeekFlags) : Except Fault (ChunkQueue × Option Chunk) := do
  checkUsage debug (-1 ≤ length ∧ length ≤ q.getLength)
  match ← q.peek ptr debug (if length = -1 then unspecifiedLength else length) flags with
  | none => return (q, none)
  | some chunk =>
    let moved ← q.moveIteratorOrRemove ptr chunk.getChunkLength
    return (moved, some chunk)

def clear : ChunkQueue :=
  { q with
    poppedLength := q.poppedLength + q.getLength.toNat
    iterator := q.content.seekIterator 0
    content := .empty }

/-- `push` behind its usage checks. -/
def pushChunk (chunk : Chunk) : ChunkQueue :=
  let pushed := { q with pushedLength := q.pushedLength + chunk.getChunkLength }
  if q.content = .empty then { pushed with content := chunk }
  else if q.content.canInsertAtBack ptr chunk then
    { pushed with content := q.content.insertAtBack ptr chunk }
  else
    let sequenceChunk : Chunk := .sequence
      (Chunk.insertIntoSequence ptr (Chunk.insertIntoSequence ptr [] q.content) chunk)
    { pushed with
      content := sequenceChunk
      iterator := sequenceChunk.seekIterator q.iterator.position }

def push (chunk : Chunk) : Except Fault ChunkQueue := do
  checkUsage debug (0 < chunk.getChunkLength)
  return q.pushChunk ptr chunk

end Operations

end ChunkQueue

/-- A call of the queue. -/
inductive Call
  | push (chunk : Chunk)
  | peek (length : ℤ) (flags : PeekFlags)
  | peekAt (offset : ℕ) (length : ℤ) (flags : PeekFlags)
  | pop (length : ℤ) (flags : PeekFlags)
  | clear

/-- A queue, the bits that were pushed and popped so far, and the last answer. -/
structure State where
  queue : ChunkQueue
  pushed : List Bit
  popped : List Bit
  reply : Option Chunk

/-- The bits of a chunk that is returned. -/
def replyContent (reply : Option Chunk) : List Bit := reply.elim [] Chunk.content

/-- The bits in the queue. -/
def ChunkQueue.stored (q : ChunkQueue) : List Bit := q.content.content.drop q.iterator.position

def State.initial : State := ⟨.initial, [], [], none⟩

/-- A part is admitted: its length is -1 or not negative, it lies within the queue, and the flags
allow it to be empty if it is. -/
def AdmitsPart (q : ChunkQueue) (offset : ℕ) (length : ℤ) (flags : PeekFlags) : Prop :=
  offset ≤ q.getLength ∧ -1 ≤ length ∧ offset + length ≤ q.getLength ∧
    (length = 0 ∨ offset = q.getLength → flags.allowNullptr ∨ flags.allowEmpty)

instance (q : ChunkQueue) (offset : ℕ) (length : ℤ) (flags : PeekFlags) :
    Decidable (AdmitsPart q offset length flags) := inferInstanceAs (Decidable (_ ∧ _))

/-- The calls that the interface admits. -/
def Admitted (s : State) : Call → Prop
  | .push chunk => AllValid chunk.elements ∧ chunk.elements ≠ []
  | .peek length flags => AdmitsPart s.queue 0 length flags
  | .peekAt offset length flags => AdmitsPart s.queue offset length flags
  | .pop length flags => AdmitsPart s.queue 0 length flags
  | .clear => True

instance (s : State) (call : Call) : Decidable (Admitted s call) :=
  match call with
  | .push _ => inferInstanceAs (Decidable (_ ∧ _))
  | .peek .. => inferInstanceAs (Decidable (AdmitsPart ..))
  | .peekAt .. => inferInstanceAs (Decidable (AdmitsPart ..))
  | .pop .. => inferInstanceAs (Decidable (AdmitsPart ..))
  | .clear => isTrue trivial

/-- The part splits no byte of a count of bytes, and if it has no length, it does not begin inside a
slice. -/
def ServesPart (q : ChunkQueue) (offset : ℕ) (length : ℤ) : Prop :=
  let position := q.iterator.position + offset
  let argument := Length.ofArgument (if length = -1 then unspecifiedLength else length)
  AllowsCut q.content.elements position
      (position + argument.count q.content.elements position) ∧
    (length = -1 → OutsideSlices q.content.elements position)

instance (q : ChunkQueue) (offset : ℕ) (length : ℤ) : Decidable (ServesPart q offset length) :=
  inferInstanceAs (Decidable (_ ∧ _))

/-- The calls that the queue serves. -/
def Served (debug : Bool) (s : State) : Call → Prop
  | .push _ => True
  | .peek length _ => ServesPart s.queue 0 length
  | .peekAt offset length _ => ServesPart s.queue offset length
  | .pop length _ => ServesPart s.queue 0 length ∧ (length = -1 → debug = false)
  | .clear => True

instance (debug : Bool) (s : State) (call : Call) : Decidable (Served debug s call) :=
  match call with
  | .push _ | .clear => isTrue trivial
  | .peek .. => inferInstanceAs (Decidable (ServesPart ..))
  | .peekAt .. => inferInstanceAs (Decidable (ServesPart ..))
  | .pop .. => inferInstanceAs (Decidable (_ ∧ _))

/-- The queue and its users. -/
def machine (ptr : PointerEq) (debug : Bool) : Machine State Call Fault where
  Enabled := Admitted
  handle s call :=
    match call with
    | .push chunk => do
      let queue ← s.queue.push ptr debug chunk
      return { s with queue := queue, pushed := s.pushed ++ chunk.content }
    | .peek length flags => do
      let reply ← s.queue.peek ptr debug length flags
      return { s with reply := reply }
    | .peekAt offset length flags => do
      let reply ← s.queue.peekAt ptr debug offset length flags
      return { s with reply := reply }
    | .pop length flags => do
      let result ← s.queue.pop ptr debug length flags
      return { s with
        queue := result.1, popped := s.popped ++ replyContent result.2, reply := result.2 }
    | .clear => return { s with queue := s.queue.clear, popped := s.popped ++ s.queue.stored }

instance (ptr : PointerEq) (debug : Bool) (s : State) (call : Call) :
    Decidable ((machine ptr debug).Enabled s call) := inferInstanceAs (Decidable (Admitted s call))

/-- The bits that an answer to a part consists of: as many as asked for, or some if there are
any. -/
def Selects (available : List Bit) (length : ℤ) (reply : Option Chunk) : Prop :=
  replyContent reply <+: available ∧
    if length = -1 then available ≠ [] → replyContent reply ≠ []
    else ((replyContent reply).length : ℤ) = length

/-- The queue is a first in, first out stream. -/
structure Fifo (s : State) : Prop where
  stream : s.popped ++ s.queue.stored = s.pushed
  length : s.queue.getLength = s.pushed.length - s.popped.length
  pushedLength : s.queue.pushedLength = s.pushed.length
  poppedLength : s.queue.poppedLength = s.popped.length

/-- What a call returns and does to the stored bits. -/
def Replies (ptr : PointerEq) (debug : Bool) (s : State) (call : Call) (t : State) : Prop :=
  match call with
  | .push chunk => t.queue.stored = s.queue.stored ++ chunk.content
  | .peek length _ => Selects s.queue.stored length t.reply ∧ t.queue = s.queue
  | .peekAt offset length _ =>
    Selects (s.queue.stored.drop offset) length t.reply ∧ t.queue = s.queue
  | .pop length flags =>
    Selects s.queue.stored length t.reply ∧ s.queue.peek ptr debug length flags = .ok t.reply ∧
      s.queue.stored = replyContent t.reply ++ t.queue.stored
  | .clear => t.queue.stored = []

end Inet4.Packet
