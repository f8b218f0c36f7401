import Inet4.Kernel

/-!
# Chunks

A chunk represents a sequence of bits.  Modelled are the chunks that the chunk API itself makes:
bits, bytes, counts of bits and bytes whose data is irrelevant, whole headers and packets that
cannot be changed, slices of these and of bytes, and sequences of all of them.  They are complete,
correct and properly represented.  Chunks are peeked without a conversion.

Two slices can be merged when they refer to the same chunk object.  Whether two equal chunks are
one object is left open (`PointerEq`).
-/

namespace Inet4.Packet

/-- A bit, or `none` where the data is irrelevant. -/
abbrev Bit := Option Bool

/-- A chunk that slices can refer to: bytes, or the fields of a header or a packet. -/
structure Whole where
  isBytes : Bool
  bits : List Bool
deriving DecidableEq

/-- A chunk that is not a sequence. -/
inductive Element
  | bitCount (length : ℕ)
  | bits (data : List Bool)
  | byteCount (length : ℕ)
  | whole (chunk : Whole)
  | slice (chunk : Whole) (offset length : ℕ)
deriving DecidableEq

/-- A chunk as the content of a queue. -/
inductive Chunk
  | empty
  | single (element : Element)
  | sequence (chunks : List Element)
deriving DecidableEq

/-- Equality of the pointers to two chunks. -/
structure PointerEq where
  same : Whole → Whole → Bool
  eq_of_same : ∀ c d, same c d → c = d

/-- Equal chunks are one object. -/
def structuralEq : PointerEq := ⟨fun c d ↦ decide (c = d), fun _ _ h ↦ of_decide_eq_true h⟩

/-- The length argument of `peek`: not negative, negative, or `Chunk::unspecifiedLength`. -/
inductive Length
  | exactly (n : ℕ)
  | atMost (n : ℕ)
  | unspecified
deriving DecidableEq

/-- The flags of `peek` for empty parts. -/
structure PeekFlags where
  allowNullptr : Bool
  allowEmpty : Bool
deriving DecidableEq

/-- A forward iterator; `none` stands for the index -1. -/
structure Iterator where
  position : ℕ
  index : Option ℕ
deriving DecidableEq

namespace Length

/-- A length that is computed. -/
def ofInt (n : ℤ) : Length :=
  if 0 ≤ n then exactly n.toNat else atMost (-n).toNat

/-- `length < b(0)`. -/
def IsNegative : Length → Prop
  | exactly _ => False
  | _ => True

instance : DecidablePred IsNegative := fun length ↦
  match length with
  | exactly _ => isFalse id
  | atMost _ => isTrue trivial
  | unspecified => isTrue trivial

/-- `-length >= chunkLength || length == chunkLength`. -/
def Covers (chunkLength : ℕ) : Length → Prop
  | exactly n => n = chunkLength
  | atMost n => chunkLength ≤ n
  | unspecified => True

instance (chunkLength : ℕ) : DecidablePred (Covers chunkLength) := fun length ↦
  match length with
  | exactly n => inferInstanceAs (Decidable (n = chunkLength))
  | atMost n => inferInstanceAs (Decidable (chunkLength ≤ n))
  | unspecified => isTrue trivial

/-- `length < b(0) || length.get() % 8 == 0`. -/
def IsWholeBytes : Length → Prop
  | exactly n => n % 8 = 0
  | _ => True

instance : DecidablePred IsWholeBytes := fun length ↦
  match length with
  | exactly n => inferInstanceAs (Decidable (n % 8 = 0))
  | atMost _ => isTrue trivial
  | unspecified => isTrue trivial

/-- `-length >= elementChunkLength || position + length <= endOffset`, where the position lies
before the end offset. -/
def EndsBy (position endOffset : ℕ) : Length → Prop
  | exactly n => position + n ≤ endOffset
  | _ => True

instance (position endOffset : ℕ) : DecidablePred (EndsBy position endOffset) := fun length ↦
  match length with
  | exactly n => inferInstanceAs (Decidable (position + n ≤ endOffset))
  | atMost _ => isTrue trivial
  | unspecified => isTrue trivial

/-- `length < b(0) ? std::min(-length, rest) : length`. -/
def cap (rest : ℕ) : Length → ℕ
  | exactly n => n
  | atMost n => min n rest
  | unspecified => rest

/-- `std::min(-length, rest)` of a negative length, where `rest` may be negative. -/
def negMin (rest : ℤ) : Length → ℤ
  | exactly n => min (-n) rest
  | atMost n => min n rest
  | unspecified => rest

end Length

/-- `EmptyChunk::getEmptyChunk`; a null pointer is `none`. -/
def getEmptyChunk (flags : PeekFlags) : Except Fault (Option Chunk) :=
  if flags.allowNullptr then .ok none
  else if flags.allowEmpty then .ok (some .empty)
  else .error .runtimeError

/-- The positions that are peeked are empty. -/
def PeeksEmpty (position chunkLength : ℕ) (length : Length) : Prop :=
  length = .exactly 0 ∨ position = chunkLength ∧ length.IsNegative

instance (position chunkLength : ℕ) (length : Length) :
    Decidable (PeeksEmpty position chunkLength length) := inferInstanceAs (Decidable (_ ∨ _))

/-- The constructor of `SliceChunk`. -/
def sliceOf (chunk : Whole) (offset : ℕ) (length : ℤ) : Element :=
  if length < 0 then .slice chunk offset (min (-length) (chunk.bits.length - offset)).toNat
  else .slice chunk offset length.toNat

/-- `SliceChunk::convertChunk`. -/
def convertToSlice (chunk : Whole) (offset : ℕ) (length : Length) : Element :=
  match length with
  | .exactly n => sliceOf chunk offset n
  | _ => sliceOf chunk offset (length.negMin chunk.bits.length - offset)

namespace Whole

/-- `peekUnchecked` of a `BytesChunk`, a `FieldsChunk` or a `cPacketChunk`. -/
def peekUnchecked (chunk : Whole) (position : ℕ) (length : Length) (flags : PeekFlags) :
    Except Fault (Option Chunk) :=
  let chunkLength := chunk.bits.length
  if PeeksEmpty position chunkLength length then getEmptyChunk flags
  else if position = 0 ∧ length.Covers chunkLength then .ok (some (.single (.whole chunk)))
  else if chunk.isBytes ∧ position % 8 = 0 ∧ length.IsWholeBytes then
    -- the end offset is converted to bytes
    let endOffset := position + length.cap (chunkLength - position)
    if endOffset % 8 ≠ 0 then .error .runtimeError
    else .ok (some (.single (.whole ⟨true, (chunk.bits.take endOffset).drop position⟩)))
  else .ok (some (.single (convertToSlice chunk position length)))

end Whole

namespace Element

/-- `getChunkLength`, in bits. -/
def getChunkLength : Element → ℕ
  | bitCount length => length
  | bits data => data.length
  | byteCount length => 8 * length
  | whole chunk => chunk.bits.length
  | slice _ _ length => length

/-- The bits that the chunk represents. -/
def content : Element → List Bit
  | bitCount length => List.replicate length none
  | bits data => data.map some
  | byteCount length => List.replicate (8 * length) none
  | whole chunk => chunk.bits.map some
  | slice chunk offset length => ((chunk.bits.map some).drop offset).take length

/-- `simplify`, that is `peek` of the whole chunk. -/
def simplify : Element → Element
  | slice chunk offset length =>
    if offset = 0 ∧ length = chunk.bits.length then whole chunk else slice chunk offset length
  | element => element

/-- `peekUnchecked` without a conversion. -/
def peekUnchecked (element : Element) (position : ℕ) (length : Length) (flags : PeekFlags) :
    Except Fault (Option Chunk) :=
  let chunkLength := element.getChunkLength
  if PeeksEmpty position chunkLength length then getEmptyChunk flags
  else if position = 0 ∧ length.Covers chunkLength then .ok (some (.single element.simplify))
  else
    match element with
    | bitCount _ => .ok (some (.single (.bitCount (length.cap (chunkLength - position)))))
    | bits data =>
      .ok (some (.single (.bits
        ((data.take (position + length.cap (chunkLength - position))).drop position))))
    | byteCount _ =>
      -- the length is converted to bytes
      let resultLength := length.cap (chunkLength - position)
      if resultLength % 8 ≠ 0 then .error .runtimeError
      else .ok (some (.single (.byteCount (resultLength / 8))))
    | whole chunk => chunk.peekUnchecked position length flags
    | slice chunk offset _ =>
      let length' := match length with
        | .exactly n => .exactly n
        | _ => Length.ofInt (-length.negMin (chunkLength - offset))
      chunk.peekUnchecked (position + offset) length' flags

/-- `canInsertAtBack` of a chunk that is not a sequence. -/
def canInsertAtBack (ptr : PointerEq) : Element → Element → Bool
  | bitCount _, bitCount _ => true
  | bits _, bits _ => true
  | byteCount _, byteCount _ => true
  | whole c, whole d => c.isBytes && d.isBytes
  | slice c offset length, slice d offset' _ => ptr.same c d && offset + length = offset'
  | _, _ => false

/-- `doInsertAtBack` of a chunk that is not a sequence. -/
def insertAtBack : Element → Element → Element
  | bitCount length, bitCount length' => bitCount (length + length')
  | bits data, bits data' => bits (data ++ data')
  | byteCount length, byteCount length' => byteCount (length + length')
  | whole c, whole d => whole ⟨c.isBytes, c.bits ++ d.bits⟩
  | slice c offset length, slice _ _ length' => slice c offset (length + length')
  | element, _ => element

def canRemoveAtFront (length : ℕ) : Element → Bool
  | bitCount _ => true
  | bits _ => true
  | byteCount _ => length % 8 = 0
  | whole chunk => chunk.isBytes && length % 8 = 0
  | slice .. => false

/-- `doRemoveAtFront`. -/
def removeAtFront (length : ℕ) : Element → Element
  | bitCount n => bitCount (n - length)
  | bits data => bits (data.drop length)
  | byteCount n => byteCount (n - length / 8)
  | whole chunk => whole ⟨chunk.isBytes, chunk.bits.drop length⟩
  | slice chunk offset n => slice chunk (offset + length) (n - length)

end Element

section Sequence

variable (ptr : PointerEq)
variable (chunks : List Element)

/-- The length of a list of elements. -/
def totalLength : ℕ := (chunks.map Element.getChunkLength).sum

/-- `SequenceChunk::doInsertChunkAtBack`. -/
def doInsertChunkAtBack (chunk : Element) : List Element :=
  match chunks.getLast? with
  | none => [chunk]
  | some lastChunk =>
    if lastChunk.canInsertAtBack ptr chunk then
      chunks.dropLast ++ [(lastChunk.insertAtBack chunk).simplify]
    else chunks ++ [chunk]

/-- `SequenceChunk::doInsertSequenceChunkAtBack`. -/
def doInsertSequenceChunkAtBack (chunks others : List Element) : List Element :=
  others.foldl (doInsertChunkAtBack ptr) chunks

/-- The element that `elementChunk->peek` returns for a part that is not empty. -/
def peekElement (element : Element) (position length : ℕ) : Except Fault Element := do
  match ← element.peekUnchecked position (.exactly length) ⟨false, false⟩ with
  | some (.single part) => .ok part
  | _ => .error .runtimeError

/-- The part of an element that begins at `chunkBegin` that
`SequenceChunk::doInsertSliceChunkAtBack` inserts. -/
def slicedPart (sliceChunkBegin sliceChunkEnd chunkBegin : ℕ) (elementChunk : Element) :
    Except Fault (Option Element) :=
  let chunkEnd := chunkBegin + elementChunk.getChunkLength
  if sliceChunkBegin ≤ chunkBegin ∧ chunkEnd ≤ sliceChunkEnd then .ok (some elementChunk)
  else if chunkBegin < sliceChunkBegin ∧ sliceChunkEnd < chunkEnd then do
    return some (← peekElement elementChunk (sliceChunkBegin - chunkBegin)
      (sliceChunkEnd - sliceChunkBegin))
  else if chunkBegin < sliceChunkBegin ∧ sliceChunkBegin < chunkEnd then do
    return some (← peekElement elementChunk (sliceChunkBegin - chunkBegin)
      (chunkEnd - sliceChunkBegin))
  else if chunkBegin < sliceChunkEnd ∧ sliceChunkEnd < chunkEnd then do
    return some (← peekElement elementChunk 0 (sliceChunkEnd - chunkBegin))
  else
    -- the element chunk is out of the slice
    .ok none

/-- The loop of `SequenceChunk::doInsertSliceChunkAtBack` over the elements of the sliced
sequence. -/
def doInsertSliceChunkAtBack (sliceChunkBegin sliceChunkEnd : ℕ) :
    (offset : ℕ) → (chunks elements : List Element) → Except Fault (List Element)
  | _, chunks, [] => .ok chunks
  | offset, chunks, elementChunk :: rest => do
    let part ← slicedPart sliceChunkBegin sliceChunkEnd offset elementChunk
    doInsertSliceChunkAtBack sliceChunkBegin sliceChunkEnd (offset + elementChunk.getChunkLength)
      (part.elim chunks (doInsertChunkAtBack ptr chunks)) rest

/-- The loop of `SequenceChunk::peekUnchecked` that looks for an element with the part, from the
element at `position` on. -/
def peekInElement (iterator : Iterator) (length : Length) (flags : PeekFlags) :
    (position : ℕ) → List Element → Option (Except Fault (Option Chunk))
  | _, [] => none
  | position, chunk :: rest =>
    let elementChunkLength := chunk.getChunkLength
    if iterator.position = position ∧ length.Covers elementChunkLength then
      some (.ok (some (.single chunk)))
    else if position ≤ iterator.position ∧ iterator.position < position + elementChunkLength ∧
        length.EndsBy iterator.position (position + elementChunkLength) then
      some (chunk.peekUnchecked (iterator.position - position) length flags)
    else peekInElement iterator length flags (position + elementChunkLength) rest

/-- `SequenceChunk::peekUnchecked` without a conversion. -/
def peekSequence (iterator : Iterator) (length : Length)
    (flags : PeekFlags) : Except Fault (Option Chunk) :=
  let chunkLength := totalLength chunks
  if PeeksEmpty iterator.position chunkLength length then getEmptyChunk flags
  else if iterator.position = 0 ∧ length = .exactly chunkLength then
    .ok (some (.sequence chunks))
  else
    match iterator.index.bind (chunks[·]?) with
    | some chunk =>
      if length.Covers chunk.getChunkLength then .ok (some (.single chunk))
      else peekRest chunkLength
    | none => peekRest chunkLength
where
  /-- What is left when the index does not help. -/
  peekRest (chunkLength : ℕ) : Except Fault (Option Chunk) :=
    match peekInElement iterator length flags 0 chunks with
    | some result => result
    | none => do
      let sliceLength := length.cap (chunkLength - iterator.position)
      let parts ← doInsertSliceChunkAtBack ptr iterator.position (iterator.position + sliceLength)
        0 [] chunks
      return some (.sequence parts)

/-- `SequenceChunk::doRemoveAtFront`. -/
def doRemoveAtFront : (length : ℕ) → List Element → Except Fault (List Element)
  | _, [] => .ok []
  | length, chunk :: rest =>
    let chunkLength := chunk.getChunkLength
    if chunkLength ≤ length then
      if length - chunkLength = 0 then .ok rest
      else doRemoveAtFront (length - chunkLength) rest
    else do
      let part ← peekElement chunk length (chunkLength - length)
      return part :: rest

/-- The loop of `SequenceChunk::seekIterator`, from the element with an index on. -/
def seekIndex (offset : ℕ) : (p i : ℕ) → List Element → Option ℕ
  | _, _, [] => none
  | p, i, chunk :: rest =>
    let p := p + chunk.getChunkLength
    if p = offset then some (i + 1)
    else if offset < p then none
    else seekIndex offset p (i + 1) rest

end Sequence

namespace Chunk

def getChunkLength : Chunk → ℕ
  | empty => 0
  | single element => element.getChunkLength
  | sequence chunks => totalLength chunks

/-- The elements of a chunk. -/
def elements : Chunk → List Element
  | empty => []
  | single element => [element]
  | sequence chunks => chunks

/-- The bits that the chunk represents. -/
def content (chunk : Chunk) : List Bit := chunk.elements.flatMap Element.content

def peek (ptr : PointerEq) (chunk : Chunk) (iterator : Iterator) (length : Length)
    (flags : PeekFlags) : Except Fault (Option Chunk) :=
  match chunk with
  | empty => getEmptyChunk flags
  | single element => element.peekUnchecked iterator.position length flags
  | sequence chunks => peekSequence ptr chunks iterator length flags

def canInsertAtBack (ptr : PointerEq) : Chunk → Chunk → Bool
  | single element, single other => element.canInsertAtBack ptr other
  | sequence _, _ => true
  | _, _ => false

/-- `SequenceChunk::doInsertAtBack`. -/
def insertIntoSequence (ptr : PointerEq) (chunks : List Element) : Chunk → List Element
  | empty => chunks
  | single element => doInsertChunkAtBack ptr chunks element
  | sequence others => doInsertSequenceChunkAtBack ptr chunks others

/-- `insertAtBack`, followed by `simplify`. -/
def insertAtBack (ptr : PointerEq) : Chunk → Chunk → Chunk
  | single element, single other => single (element.insertAtBack other).simplify
  | sequence chunks, other => sequence (insertIntoSequence ptr chunks other)
  | chunk, _ => chunk

def canRemoveAtFront (length : ℕ) : Chunk → Bool
  | empty => false
  | single element => element.canRemoveAtFront length
  | sequence _ => true

def removeAtFront (length : ℕ) : Chunk → Except Fault Chunk
  | empty => .error .runtimeError
  | single element => .ok (single (element.removeAtFront length))
  | sequence chunks => sequence <$> doRemoveAtFront length chunks

def seekIterator (chunk : Chunk) (offset : ℕ) : Iterator :=
  match chunk with
  | sequence chunks => ⟨offset, if offset = 0 then some 0 else seekIndex offset 0 0 chunks⟩
  | _ => ⟨offset, if offset = 0 then some 0 else none⟩

def moveIterator (chunk : Chunk) (iterator : Iterator) (length : ℕ) : Iterator :=
  let position := iterator.position + length
  match chunk with
  | sequence chunks =>
    match iterator.index with
    | none => ⟨position, none⟩
    | some i =>
      match chunks[i]? with
      | none => ⟨position, none⟩
      | some element =>
        ⟨position, if element.getChunkLength = length then some (i + 1) else none⟩
  | _ => ⟨position, if position = 0 then some 0 else none⟩

end Chunk

end Inet4.Packet
