import Inet4.Packet.ChunkPeek

/-!
# Editing sequences of chunks

`SequenceChunk` inserts a chunk, the parts of a slice of a sequence, or the elements of a sequence
at either end, where an element may be merged with its neighbour, and it removes bits at either end,
where the element at the boundary is cut.  These operations use of the elements what `ElementChunk`
lists. They are stated for any such elements: an edit concatenates or drops bits at an end, unless
it cuts an element where that does not allow it, and then it fails (`Lawful.yields_iff`).
-/

namespace Inet4.Packet

open List

/-- What a sequence uses of its elements. -/
structure ElementChunk (E : Type) where
  content : E → List Bit
  getChunkLength : E → ℕ
  canInsertAtFront : E → E → Bool
  canInsertAtBack : E → E → Bool
  /-- `insertAtFront`, followed by `simplify`. -/
  insertAtFront : E → E → E
  /-- `insertAtBack`, followed by `simplify`. -/
  insertAtBack : E → E → E
  /-- `peek` of a part that is not empty. -/
  peek : E → (position length : ℕ) → Except Fault E

/-- What is inserted into a sequence. -/
inductive Insertion (E : Type)
  | element (e : E)
  /-- A slice of a sequence. -/
  | slice (chunks : List E) (offset length : ℕ)
  | sequence (chunks : List E)

/-- An edit of a sequence. -/
inductive Edit (E : Type)
  | insertAtFront (x : Insertion E)
  | insertAtBack (x : Insertion E)
  | removeAtFront (length : ℕ)
  | removeAtBack (length : ℕ)

namespace ElementChunk

variable {E : Type} (ops : ElementChunk E)

def totalLength (chunks : List E) : ℕ := (chunks.map ops.getChunkLength).sum

/-- `SequenceChunk::doInsertChunkAtFront`. -/
def doInsertChunkAtFront (chunks : List E) (chunk : E) : List E :=
  match chunks with
  | [] => [chunk]
  | firstChunk :: rest =>
    if ops.canInsertAtFront firstChunk chunk then ops.insertAtFront firstChunk chunk :: rest
    else chunk :: firstChunk :: rest

/-- `SequenceChunk::doInsertChunkAtBack`. -/
def doInsertChunkAtBack (chunks : List E) (chunk : E) : List E :=
  match chunks.getLast? with
  | none => [chunk]
  | some lastChunk =>
    if ops.canInsertAtBack lastChunk chunk then
      chunks.dropLast ++ [ops.insertAtBack lastChunk chunk]
    else chunks ++ [chunk]

/-- The part of an element that begins at `chunkBegin` that is inserted of a slice. -/
def slicedPart (sliceChunkBegin sliceChunkEnd chunkBegin : ℕ) (elementChunk : E) :
    Except Fault (Option E) :=
  let chunkEnd := chunkBegin + ops.getChunkLength elementChunk
  if sliceChunkBegin ≤ chunkBegin ∧ chunkEnd ≤ sliceChunkEnd then .ok (some elementChunk)
  else if chunkBegin < sliceChunkBegin ∧ sliceChunkEnd < chunkEnd then
    some <$> ops.peek elementChunk (sliceChunkBegin - chunkBegin) (sliceChunkEnd - sliceChunkBegin)
  else if chunkBegin < sliceChunkBegin ∧ sliceChunkBegin < chunkEnd then
    some <$> ops.peek elementChunk (sliceChunkBegin - chunkBegin) (chunkEnd - sliceChunkBegin)
  else if chunkBegin < sliceChunkEnd ∧ sliceChunkEnd < chunkEnd then
    some <$> ops.peek elementChunk 0 (sliceChunkEnd - chunkBegin)
  else
    -- the element chunk is out of the slice
    .ok none

/-- The loop of `SequenceChunk::doInsertSliceChunkAtBack` over the elements of the sliced
sequence. -/
def doInsertSliceChunkAtBack (sliceChunkBegin sliceChunkEnd : ℕ) :
    (offset : ℕ) → (chunks elements : List E) → Except Fault (List E)
  | _, chunks, [] => .ok chunks
  | offset, chunks, elementChunk :: rest => do
    let part ← ops.slicedPart sliceChunkBegin sliceChunkEnd offset elementChunk
    doInsertSliceChunkAtBack sliceChunkBegin sliceChunkEnd
      (offset + ops.getChunkLength elementChunk)
      (part.elim chunks (ops.doInsertChunkAtBack chunks)) rest

/-- The loop of `SequenceChunk::doInsertSliceChunkAtFront` over the elements of the sliced sequence,
from the last one on. -/
def doInsertSliceChunkAtFront (sliceChunkBegin sliceChunkEnd : ℕ) :
    (offset : ℕ) → (chunks elements : List E) → Except Fault (List E)
  | _, chunks, [] => .ok chunks
  | offset, chunks, elementChunk :: rest => do
    let offset := offset - ops.getChunkLength elementChunk
    let part ← ops.slicedPart sliceChunkBegin sliceChunkEnd offset elementChunk
    doInsertSliceChunkAtFront sliceChunkBegin sliceChunkEnd offset
      (part.elim chunks (ops.doInsertChunkAtFront chunks)) rest

/-- `SequenceChunk::doInsertAtFront`. -/
def doInsertAtFront (chunks : List E) : Insertion E → Except Fault (List E)
  | .element chunk => .ok (ops.doInsertChunkAtFront chunks chunk)
  | .slice others offset length =>
    ops.doInsertSliceChunkAtFront offset (offset + length) (ops.totalLength others) chunks
      others.reverse
  | .sequence others => .ok (others.reverse.foldl ops.doInsertChunkAtFront chunks)

/-- `SequenceChunk::doInsertAtBack`. -/
def doInsertAtBack (chunks : List E) : Insertion E → Except Fault (List E)
  | .element chunk => .ok (ops.doInsertChunkAtBack chunks chunk)
  | .slice others offset length =>
    ops.doInsertSliceChunkAtBack offset (offset + length) 0 chunks others
  | .sequence others => .ok (others.foldl ops.doInsertChunkAtBack chunks)

/-- `SequenceChunk::doRemoveAtFront`. -/
def doRemoveAtFront : (length : ℕ) → List E → Except Fault (List E)
  | _, [] => .ok []
  | length, chunk :: rest =>
    let chunkLength := ops.getChunkLength chunk
    if chunkLength ≤ length then
      if length - chunkLength = 0 then .ok rest else doRemoveAtFront (length - chunkLength) rest
    else do
      let part ← ops.peek chunk length (chunkLength - length)
      return part :: rest

/-- The loop of `SequenceChunk::doRemoveAtBack` over the elements from the last one on. -/
def removeFromLast : (length : ℕ) → List E → Except Fault (List E)
  | _, [] => .ok []
  | length, chunk :: rest =>
    let chunkLength := ops.getChunkLength chunk
    if chunkLength ≤ length then
      if length - chunkLength = 0 then .ok rest else removeFromLast (length - chunkLength) rest
    else do
      let part ← ops.peek chunk 0 (chunkLength - length)
      return part :: rest

/-- `SequenceChunk::doRemoveAtBack`. -/
def doRemoveAtBack (length : ℕ) (chunks : List E) : Except Fault (List E) :=
  reverse <$> ops.removeFromLast length chunks.reverse

/-- An edit of the elements of a sequence. -/
def run (chunks : List E) : Edit E → Except Fault (List E)
  | .insertAtFront x => ops.doInsertAtFront chunks x
  | .insertAtBack x => ops.doInsertAtBack chunks x
  | .removeAtFront length => ops.doRemoveAtFront length chunks
  | .removeAtBack length => ops.doRemoveAtBack length chunks

/-- Merging concatenates, and a part is peeked where it lies, or refused. -/
structure Lawful (Valid : E → Prop) (AllowsPart : E → ℕ → ℕ → Prop) : Prop where
  length_pos : ∀ e, Valid e → 0 < ops.getChunkLength e
  length_content : ∀ e, Valid e → (ops.content e).length = ops.getChunkLength e
  insertAtFront : ∀ e d, Valid e → Valid d → ops.canInsertAtFront e d →
    Valid (ops.insertAtFront e d) ∧ ops.content (ops.insertAtFront e d) =
      ops.content d ++ ops.content e
  insertAtBack : ∀ e d, Valid e → Valid d → ops.canInsertAtBack e d →
    Valid (ops.insertAtBack e d) ∧ ops.content (ops.insertAtBack e d) =
      ops.content e ++ ops.content d
  allowsPart_whole : ∀ e, AllowsPart e 0 (ops.getChunkLength e)
  peek : ∀ e position n, Valid e → 0 < n → position + n ≤ ops.getChunkLength e →
    AllowsPart e position n → ∃ part, ops.peek e position n = .ok part ∧ Valid part ∧
      ops.content part = ((ops.content e).drop position).take n
  refuse : ∀ e position n, Valid e → 0 < n → position + n ≤ ops.getChunkLength e →
    ¬AllowsPart e position n → ∃ fault, ops.peek e position n = .error fault

/-- The bits of a list of elements. -/
def contentOf (chunks : List E) : List Bit := chunks.flatMap ops.content

variable (AllowsPart : E → ℕ → ℕ → Prop)

/-- The bits from `first` to `last` can be cut off an element, unless there are none. -/
def AllowsPartOf (e : E) (first last : ℕ) : Prop :=
  first < min (ops.getChunkLength e) last →
    AllowsPart e first (min (ops.getChunkLength e) last - first)

/-- A list of elements can be cut at `first` and at `last`. -/
def AllowsCut (AllowsPart : E → ℕ → ℕ → Prop) : List E → (first last : ℕ) → Prop
  | [], _, _ => True
  | e :: rest, first, last =>
    ops.AllowsPartOf AllowsPart e first last ∧
      AllowsCut AllowsPart rest (first - ops.getChunkLength e) (last - ops.getChunkLength e)

variable (Valid : E → Prop)

/-- What is inserted is not empty, and a slice lies within its sequence. -/
def IsValid : Insertion E → Prop
  | .element e => Valid e
  | .slice chunks offset length =>
    (∀ e ∈ chunks, Valid e) ∧ 0 < length ∧ offset + length ≤ ops.totalLength chunks
  | .sequence chunks => (∀ e ∈ chunks, Valid e) ∧ chunks ≠ []

/-- The bits of what is inserted. -/
def insertedContent : Insertion E → List Bit
  | .element e => ops.content e
  | .slice chunks offset length => ((ops.contentOf chunks).drop offset).take length
  | .sequence chunks => ops.contentOf chunks

/-- What is inserted is not empty, and no more is removed than there is. -/
def Admits (chunks : List E) : Edit E → Prop
  | .insertAtFront x | .insertAtBack x => ops.IsValid Valid x
  | .removeAtFront length | .removeAtBack length => length ≤ ops.totalLength chunks

/-- What an edit makes of the bits of a sequence. -/
def edited (bits : List Bit) : Edit E → List Bit
  | .insertAtFront x => ops.insertedContent x ++ bits
  | .insertAtBack x => bits ++ ops.insertedContent x
  | .removeAtFront length => bits.drop length
  | .removeAtBack length => bits.take (bits.length - length)

/-- A slice of a sequence can be cut off it. -/
def AllowsInsertion : Insertion E → Prop
  | .slice chunks offset length => ops.AllowsCut AllowsPart chunks offset (offset + length)
  | _ => True

/-- The elements can be cut as an edit does it. -/
def AllowsEdit (chunks : List E) : Edit E → Prop
  | .insertAtFront x | .insertAtBack x => ops.AllowsInsertion AllowsPart x
  | .removeAtFront length => ops.AllowsCut AllowsPart chunks length (ops.totalLength chunks)
  | .removeAtBack length => ops.AllowsCut AllowsPart chunks 0 (ops.totalLength chunks - length)

/-- A list of elements that are not empty, with the given bits and as long as they are. -/
structure Represents (Valid : E → Prop) (bits : List Bit) (chunks : List E) : Prop where
  valid : ∀ e ∈ chunks, Valid e
  content : ops.contentOf chunks = bits
  pos : ∀ e ∈ chunks, 0 < ops.getChunkLength e
  length : ops.totalLength chunks = bits.length

/-- An edit succeeds, with the given bits. -/
def Yields (bits : List Bit) (answer : Except Fault (List E)) : Prop :=
  ∃ chunks, answer = .ok chunks ∧ ops.Represents Valid bits chunks

variable {ops} {Valid} {AllowsPart}
variable {chunks others : List E} {e d : E} {bits : List Bit} {first last offset n : ℕ}

@[simp]
theorem contentOf_nil : ops.contentOf [] = [] := rfl

@[simp]
theorem contentOf_cons : ops.contentOf (e :: chunks) = ops.content e ++ ops.contentOf chunks := rfl

@[simp]
theorem contentOf_append :
    ops.contentOf (chunks ++ others) = ops.contentOf chunks ++ ops.contentOf others :=
  flatMap_append

@[simp]
theorem totalLength_nil : ops.totalLength [] = 0 := rfl

@[simp]
theorem totalLength_cons :
    ops.totalLength (e :: chunks) = ops.getChunkLength e + ops.totalLength chunks := rfl

@[simp]
theorem totalLength_append :
    ops.totalLength (chunks ++ others) = ops.totalLength chunks + ops.totalLength others := by
  simp [totalLength]

theorem allowsCut_append :
    ops.AllowsCut AllowsPart (chunks ++ others) first last ↔
      ops.AllowsCut AllowsPart chunks first last ∧
        ops.AllowsCut AllowsPart others (first - ops.totalLength chunks)
          (last - ops.totalLength chunks) := by
  induction chunks generalizing first last with
  | nil => simp [AllowsCut]
  | cons e chunks ih =>
    simp only [cons_append, AllowsCut, ih, totalLength_cons, Nat.sub_sub, and_assoc]

/-- An element within the part that is removed is not cut. -/
theorem allowsCut_cons_of_le (hle : ops.getChunkLength e ≤ n) :
    ops.AllowsCut AllowsPart (e :: chunks) n (ops.totalLength (e :: chunks)) ↔
      ops.AllowsCut AllowsPart chunks (n - ops.getChunkLength e) (ops.totalLength chunks) := by
  rw [AllowsCut, totalLength_cons, Nat.add_sub_cancel_left]
  exact and_iff_right fun hoverlap ↦ by omega

/-- The last element is removed. -/
theorem allowsCut_concat_of_le (hle : ops.getChunkLength e ≤ n) :
    ops.AllowsCut AllowsPart (chunks ++ [e]) 0 (ops.totalLength (chunks ++ [e]) - n) ↔
      ops.AllowsCut AllowsPart chunks 0
        (ops.totalLength chunks - (n - ops.getChunkLength e)) := by
  have hlast : ops.totalLength (chunks ++ [e]) - n =
      ops.totalLength chunks - (n - ops.getChunkLength e) := by
    rw [totalLength_append, totalLength_cons, totalLength_nil]
    omega
  rw [allowsCut_append, hlast]
  refine and_iff_left ⟨fun hoverlap ↦ ?_, trivial⟩
  omega

/-- An edit that fails when it cuts an element where this is not allowed. -/
theorem yields_iff_of {answer : Except Fault (List E)} {allowed : Prop}
    (hyields : allowed → ops.Yields Valid bits answer)
    (hfails : ¬allowed → ∃ fault, answer = .error fault) :
    ops.Yields Valid bits answer ↔ allowed := by
  refine ⟨fun hanswer ↦ ?_, hyields⟩
  by_contra hnot
  obtain ⟨chunks, hok, -⟩ := hanswer
  obtain ⟨fault, herror⟩ := hfails hnot
  rw [hok] at herror
  cases herror

namespace Lawful

variable (h : ops.Lawful Valid AllowsPart)

include h

theorem length_contentOf (hvalid : ∀ e ∈ chunks, Valid e) :
    (ops.contentOf chunks).length = ops.totalLength chunks := by
  induction chunks with
  | nil => rfl
  | cons e chunks ih =>
    obtain ⟨he, hchunks⟩ := forall_mem_cons.mp hvalid
    rw [contentOf_cons, totalLength_cons, length_append, h.length_content e he, ih hchunks]

theorem represents (hvalid : ∀ e ∈ chunks, Valid e) (hcontent : ops.contentOf chunks = bits) :
    ops.Represents Valid bits chunks where
  valid := hvalid
  content := hcontent
  pos := fun e he ↦ h.length_pos e (hvalid e he)
  length := by rw [← hcontent, h.length_contentOf hvalid]

theorem take_drop_contentOf_cons (he : Valid e) :
    ((ops.contentOf (e :: chunks)).take last).drop first =
      ((ops.content e).take last).drop first ++
        ((ops.contentOf chunks).take (last - ops.getChunkLength e)).drop
          (first - ops.getChunkLength e) := by
  rw [contentOf_cons, take_append, drop_append, length_take, h.length_content e he]
  rcases Nat.le_total (ops.getChunkLength e) last with hle | hle
  · rw [Nat.min_eq_right hle]
  · rw [Nat.sub_eq_zero_of_le hle, take_zero, drop_nil, drop_nil]

theorem take_drop_contentOf_append (hvalid : ∀ e ∈ chunks, Valid e) :
    ((ops.contentOf (chunks ++ others)).take last).drop first =
      ((ops.contentOf chunks).take last).drop first ++
        ((ops.contentOf others).take (last - ops.totalLength chunks)).drop
          (first - ops.totalLength chunks) := by
  induction chunks generalizing first last with
  | nil => simp
  | cons e chunks ih =>
    obtain ⟨he, hchunks⟩ := forall_mem_cons.mp hvalid
    rw [cons_append, h.take_drop_contentOf_cons he, h.take_drop_contentOf_cons he, ih hchunks,
      totalLength_cons, Nat.sub_sub, Nat.sub_sub, append_assoc]

theorem insertChunkAtBack (hchunks : ops.Represents Valid bits chunks) (he : Valid e) :
    ops.Represents Valid (bits ++ ops.content e) (ops.doInsertChunkAtBack chunks e) := by
  obtain ⟨hvalid, rfl, -, -⟩ := hchunks
  unfold doInsertChunkAtBack
  split
  · rename_i hnone
    rw [getLast?_eq_none_iff.mp hnone]
    exact h.represents (by simpa using he) (by simp)
  · rename_i lastChunk hlast
    obtain ⟨front, rfl⟩ := getLast?_eq_some_iff.mp hlast
    obtain ⟨hfront, hlastChunk⟩ := forall_mem_append.mp hvalid
    rw [forall_mem_singleton] at hlastChunk
    split
    · rename_i hinsert
      obtain ⟨hmerged, hcontent⟩ := h.insertAtBack lastChunk e hlastChunk he hinsert
      rw [dropLast_concat]
      apply h.represents
      · exact forall_mem_append.mpr ⟨hfront, by simpa using hmerged⟩
      · simp [hcontent]
    · apply h.represents
      · exact forall_mem_append.mpr ⟨hvalid, by simpa using he⟩
      · simp

theorem insertChunkAtFront (hchunks : ops.Represents Valid bits chunks) (he : Valid e) :
    ops.Represents Valid (ops.content e ++ bits) (ops.doInsertChunkAtFront chunks e) := by
  obtain ⟨hvalid, rfl, -, -⟩ := hchunks
  unfold doInsertChunkAtFront
  cases chunks with
  | nil => exact h.represents (by simpa using he) (by simp)
  | cons firstChunk rest =>
    obtain ⟨hfirstChunk, hrest⟩ := forall_mem_cons.mp hvalid
    dsimp only
    split
    · rename_i hinsert
      obtain ⟨hmerged, hcontent⟩ := h.insertAtFront firstChunk e hfirstChunk he hinsert
      apply h.represents
      · exact forall_mem_cons.mpr ⟨hmerged, hrest⟩
      · simp [hcontent]
    · apply h.represents
      · exact forall_mem_cons.mpr ⟨he, hvalid⟩
      · rfl

theorem insertSequenceAtBack (hothers : ∀ e ∈ others, Valid e)
    (hchunks : ops.Represents Valid bits chunks) :
    ops.Represents Valid (bits ++ ops.contentOf others)
      (others.foldl ops.doInsertChunkAtBack chunks) := by
  induction others generalizing bits chunks with
  | nil => simpa using hchunks
  | cons e others ih =>
    obtain ⟨he, hrest⟩ := forall_mem_cons.mp hothers
    rw [contentOf_cons, ← append_assoc]
    exact ih hrest (h.insertChunkAtBack hchunks he)

theorem insertSequenceAtFront (hothers : ∀ e ∈ others, Valid e)
    (hchunks : ops.Represents Valid bits chunks) :
    ops.Represents Valid (ops.contentOf others ++ bits)
      (others.reverse.foldl ops.doInsertChunkAtFront chunks) := by
  rw [foldl_reverse]
  induction others with
  | nil => simpa using hchunks
  | cons e others ih =>
    obtain ⟨he, hrest⟩ := forall_mem_cons.mp hothers
    rw [contentOf_cons, append_assoc]
    exact h.insertChunkAtFront (ih hrest) he

/-- The four overlap cases of a slice and an element, as one part. -/
theorem slicedPart_eq (he : Valid e) (hlt : first < last) :
    ops.slicedPart first last offset e =
      if first - offset < min (ops.getChunkLength e) (last - offset) then
        if first ≤ offset ∧ offset + ops.getChunkLength e ≤ last then .ok (some e)
        else some <$> ops.peek e (first - offset)
          (min (ops.getChunkLength e) (last - offset) - (first - offset))
      else .ok none := by
  have hpos := h.length_pos e he
  unfold slicedPart
  dsimp only
  split_ifs with hinside hmiddle hmiddle' hright hright' hleft hleft'
  any_goals omega
  any_goals rfl
  · congr 2
    omega
  · congr 2
    omega
  · congr 2 <;> omega

/-- What a slice inserts of an element. -/
theorem slicedPart_of_allowsPartOf (he : Valid e) (hlt : first < last)
    (hpart : ops.AllowsPartOf AllowsPart e (first - offset) (last - offset)) :
    ∃ part, ops.slicedPart first last offset e = .ok part ∧ (∀ p ∈ part, Valid p) ∧
      part.elim [] ops.content = ((ops.content e).take (last - offset)).drop (first - offset) := by
  have hlength := h.length_content e he
  rw [h.slicedPart_eq he hlt]
  split_ifs with hoverlap hinside
  · refine ⟨some e, rfl, by simpa using he, ?_⟩
    rw [Nat.sub_eq_zero_of_le hinside.1, drop_zero, take_of_length_le (by omega)]
    rfl
  · obtain ⟨part, hpeek, hvalid, hcontent⟩ := h.peek e (first - offset)
      (min (ops.getChunkLength e) (last - offset) - (first - offset)) he (by omega) (by omega)
      (hpart hoverlap)
    refine ⟨some part, by rw [hpeek]; rfl, by simpa using hvalid, ?_⟩
    rw [Option.elim_some, hcontent, ← drop_take, ← hlength, Nat.min_comm,
      ← take_eq_take_min]
  · refine ⟨none, rfl, by simp, ?_⟩
    apply Eq.symm
    apply drop_eq_nil_of_le
    rw [length_take, hlength]
    omega

theorem slicedPart_of_not_allowsPartOf (he : Valid e) (hlt : first < last)
    (hpart : ¬ops.AllowsPartOf AllowsPart e (first - offset) (last - offset)) :
    ∃ fault, ops.slicedPart first last offset e = .error fault := by
  obtain ⟨hoverlap, hnot⟩ := Classical.not_imp.mp hpart
  rw [h.slicedPart_eq he hlt, if_pos hoverlap, if_neg]
  · obtain ⟨fault, hpeek⟩ := h.refuse e (first - offset)
      (min (ops.getChunkLength e) (last - offset) - (first - offset)) he (by omega) (by omega) hnot
    exact ⟨fault, by rw [hpeek]; rfl⟩
  · -- the whole element can always be inserted
    rintro ⟨hfirst, hlast⟩
    apply hnot
    have hwhole := h.allowsPart_whole e
    rw [Nat.sub_eq_zero_of_le hfirst, Nat.min_eq_left (by omega)]
    exact hwhole

theorem insertSliceAtBack (offset : ℕ) (hothers : ∀ e ∈ others, Valid e) (hlt : first < last)
    (hchunks : ops.Represents Valid bits chunks)
    (hcut : ops.AllowsCut AllowsPart others (first - offset) (last - offset)) :
    ops.Yields Valid
      (bits ++ ((ops.contentOf others).take (last - offset)).drop (first - offset))
      (ops.doInsertSliceChunkAtBack first last offset chunks others) := by
  induction others generalizing offset bits chunks with
  | nil => exact ⟨chunks, rfl, by simpa using hchunks⟩
  | cons e others ih =>
    obtain ⟨he, hrest⟩ := forall_mem_cons.mp hothers
    obtain ⟨hpart, hcut⟩ := hcut
    obtain ⟨part, hsliced, hvalid, hcontent⟩ := h.slicedPart_of_allowsPartOf he hlt hpart
    have hnext : ops.Represents Valid (bits ++ part.elim [] ops.content)
        (part.elim chunks (ops.doInsertChunkAtBack chunks)) := by
      cases part with
      | none => simpa using hchunks
      | some p => exact h.insertChunkAtBack hchunks (hvalid p rfl)
    rw [Nat.sub_sub, Nat.sub_sub] at hcut
    rw [doInsertSliceChunkAtBack, bind_of_ok hsliced, h.take_drop_contentOf_cons he, Nat.sub_sub,
      Nat.sub_sub, ← hcontent, ← append_assoc]
    exact ih _ hrest hnext hcut

theorem insertSliceAtBack_error (offset : ℕ) (hothers : ∀ e ∈ others, Valid e) (hlt : first < last)
    (hcut : ¬ops.AllowsCut AllowsPart others (first - offset) (last - offset)) :
    ∃ fault, ops.doInsertSliceChunkAtBack first last offset chunks others = .error fault := by
  induction others generalizing offset chunks with
  | nil => exact absurd trivial hcut
  | cons e others ih =>
    obtain ⟨he, hrest⟩ := forall_mem_cons.mp hothers
    rw [doInsertSliceChunkAtBack]
    by_cases hpart : ops.AllowsPartOf AllowsPart e (first - offset) (last - offset)
    · obtain ⟨part, hsliced, -, -⟩ := h.slicedPart_of_allowsPartOf he hlt hpart
      rw [bind_of_ok hsliced]
      apply ih _ hrest
      rw [← Nat.sub_sub, ← Nat.sub_sub]
      exact fun hcut' ↦ hcut ⟨hpart, hcut'⟩
    · obtain ⟨fault, hsliced⟩ := h.slicedPart_of_not_allowsPartOf he hlt hpart
      exact ⟨fault, by rw [hsliced]; rfl⟩

/-- From the back, the elements before the offset are still to be inserted. -/
theorem insertSliceAtFront (hothers : ∀ e ∈ others, Valid e) (hlt : first < last)
    (hchunks : ops.Represents Valid bits chunks)
    (hcut : ops.AllowsCut AllowsPart others first last) :
    ops.Yields Valid (((ops.contentOf others).take last).drop first ++ bits)
      (ops.doInsertSliceChunkAtFront first last
        (ops.totalLength others) chunks others.reverse) := by
  induction others using reverseRecOn generalizing bits chunks with
  | nil => exact ⟨chunks, rfl, by simpa using hchunks⟩
  | append_singleton others e ih =>
    obtain ⟨hrest, he⟩ := forall_mem_append.mp hothers
    rw [forall_mem_singleton] at he
    obtain ⟨hcut, hpart, -⟩ := allowsCut_append.mp hcut
    obtain ⟨part, hsliced, hvalid, hcontent⟩ := h.slicedPart_of_allowsPartOf he hlt hpart
    have hnext : ops.Represents Valid (part.elim [] ops.content ++ bits)
        (part.elim chunks (ops.doInsertChunkAtFront chunks)) := by
      cases part with
      | none => simpa using hchunks
      | some p => exact h.insertChunkAtFront hchunks (hvalid p rfl)
    rw [reverse_concat, doInsertSliceChunkAtFront, totalLength_append, totalLength_cons,
      totalLength_nil, Nat.add_zero, Nat.add_sub_cancel, bind_of_ok hsliced,
      h.take_drop_contentOf_append hrest, contentOf_cons, contentOf_nil, append_nil,
      ← hcontent, append_assoc]
    exact ih hrest hnext hcut

theorem insertSliceAtFront_error (hothers : ∀ e ∈ others, Valid e) (hlt : first < last)
    (hcut : ¬ops.AllowsCut AllowsPart others first last) :
    ∃ fault, ops.doInsertSliceChunkAtFront first last (ops.totalLength others) chunks
      others.reverse = .error fault := by
  induction others using reverseRecOn generalizing chunks with
  | nil => exact absurd trivial hcut
  | append_singleton others e ih =>
    obtain ⟨hrest, he⟩ := forall_mem_append.mp hothers
    rw [forall_mem_singleton] at he
    rw [reverse_concat, doInsertSliceChunkAtFront, totalLength_append, totalLength_cons,
      totalLength_nil, Nat.add_zero, Nat.add_sub_cancel]
    by_cases hpart : ops.AllowsPartOf AllowsPart e (first - ops.totalLength others)
        (last - ops.totalLength others)
    · obtain ⟨part, hsliced, -, -⟩ := h.slicedPart_of_allowsPartOf he hlt hpart
      rw [bind_of_ok hsliced]
      apply ih hrest
      exact fun hcut' ↦ hcut (allowsCut_append.mpr ⟨hcut', hpart, trivial⟩)
    · obtain ⟨fault, hsliced⟩ := h.slicedPart_of_not_allowsPartOf he hlt hpart
      exact ⟨fault, by rw [hsliced]; rfl⟩

/-- Nothing is cut if all elements are kept. -/
theorem allowsCut_whole (hle : ops.totalLength chunks ≤ last) :
    ops.AllowsCut AllowsPart chunks 0 last := by
  induction chunks generalizing last with
  | nil => trivial
  | cons e chunks ih =>
    rw [totalLength_cons] at hle
    refine ⟨fun _ ↦ ?_, ?_⟩
    · rw [Nat.min_eq_left (by omega)]
      exact h.allowsPart_whole e
    · rw [Nat.zero_sub]
      exact ih (by omega)

/-- The element at the end of the part that is removed is cut. -/
theorem allowsCut_cons_of_lt (hlt : n < ops.getChunkLength e) :
    ops.AllowsCut AllowsPart (e :: chunks) n (ops.totalLength (e :: chunks)) ↔
      AllowsPart e n (ops.getChunkLength e - n) := by
  rw [AllowsCut, totalLength_cons, Nat.add_sub_cancel_left, AllowsPartOf,
    Nat.min_eq_left (Nat.le_add_right _ _), Nat.sub_eq_zero_of_le hlt.le]
  constructor
  · exact fun hcut ↦ hcut.1 hlt
  · exact fun hpart ↦ ⟨fun _ ↦ hpart, h.allowsCut_whole le_rfl⟩

theorem removeAtFront (hchunks : ∀ e ∈ chunks, Valid e)
    (hcut : ops.AllowsCut AllowsPart chunks n (ops.totalLength chunks)) :
    ops.Yields Valid ((ops.contentOf chunks).drop n) (ops.doRemoveAtFront n chunks) := by
  induction chunks generalizing n with
  | nil => exact ⟨[], rfl, h.represents (by simp) (by simp)⟩
  | cons e chunks ih =>
    obtain ⟨he, hrest⟩ := forall_mem_cons.mp hchunks
    have hlength := h.length_content e he
    rw [contentOf_cons, drop_append, hlength, doRemoveAtFront]
    split_ifs with hle hzero
    · rw [drop_eq_nil_of_le (by omega), hzero]
      exact ⟨chunks, rfl, h.represents hrest rfl⟩
    · rw [drop_eq_nil_of_le (by omega)]
      exact ih hrest ((allowsCut_cons_of_le hle).mp hcut)
    · have hlt : n < ops.getChunkLength e := by omega
      obtain ⟨part, hpeek, hvalid, hcontent⟩ := h.peek e n (ops.getChunkLength e - n) he (by omega)
        (by omega) ((h.allowsCut_cons_of_lt hlt).mp hcut)
      refine ⟨part :: chunks, by rw [hpeek]; rfl, h.represents ?_ ?_⟩
      · exact forall_mem_cons.mpr ⟨hvalid, hrest⟩
      · rw [contentOf_cons, hcontent, take_of_length_le, Nat.sub_eq_zero_of_le hlt.le,
          drop_zero]
        rw [length_drop, hlength]

theorem removeAtFront_error (hchunks : ∀ e ∈ chunks, Valid e)
    (hcut : ¬ops.AllowsCut AllowsPart chunks n (ops.totalLength chunks)) :
    ∃ fault, ops.doRemoveAtFront n chunks = .error fault := by
  induction chunks generalizing n with
  | nil => exact absurd trivial hcut
  | cons e chunks ih =>
    obtain ⟨he, hrest⟩ := forall_mem_cons.mp hchunks
    rw [doRemoveAtFront]
    split_ifs with hle hzero
    · rw [allowsCut_cons_of_le hle, hzero] at hcut
      exact absurd (h.allowsCut_whole le_rfl) hcut
    · exact ih hrest ((allowsCut_cons_of_le hle).not.mp hcut)
    · have hlt : n < ops.getChunkLength e := by omega
      obtain ⟨fault, hpeek⟩ := h.refuse e n (ops.getChunkLength e - n) he (by omega) (by omega)
        ((h.allowsCut_cons_of_lt hlt).not.mp hcut)
      exact ⟨fault, by rw [hpeek]; rfl⟩

/-- The last element is cut. -/
theorem allowsCut_concat_of_lt (hlt : n < ops.getChunkLength e) :
    ops.AllowsCut AllowsPart (chunks ++ [e]) 0 (ops.totalLength (chunks ++ [e]) - n) ↔
      AllowsPart e 0 (ops.getChunkLength e - n) := by
  have hlast : ops.totalLength (chunks ++ [e]) - n =
      ops.totalLength chunks + (ops.getChunkLength e - n) := by
    rw [totalLength_append, totalLength_cons, totalLength_nil]
    omega
  rw [allowsCut_append, hlast, Nat.add_sub_cancel_left, Nat.zero_sub]
  have hmin : min (ops.getChunkLength e) (ops.getChunkLength e - n) = ops.getChunkLength e - n :=
    Nat.min_eq_right (Nat.sub_le _ _)
  constructor
  · rintro ⟨-, hpart, -⟩
    have hallowed := hpart (by omega)
    rwa [hmin] at hallowed
  · intro hpart
    refine ⟨h.allowsCut_whole (Nat.le_add_right _ _), fun _ ↦ ?_, trivial⟩
    rwa [hmin]

theorem removeAtBack (hchunks : ∀ e ∈ chunks, Valid e)
    (hcut : ops.AllowsCut AllowsPart chunks 0 (ops.totalLength chunks - n)) :
    ops.Yields Valid ((ops.contentOf chunks).take (ops.totalLength chunks - n))
      (ops.doRemoveAtBack n chunks) := by
  unfold doRemoveAtBack
  induction chunks using reverseRecOn generalizing n with
  | nil => exact ⟨[], rfl, h.represents (by simp) (by simp)⟩
  | append_singleton chunks e ih =>
    obtain ⟨hrest, he⟩ := forall_mem_append.mp hchunks
    rw [forall_mem_singleton] at he
    have htotal := h.length_contentOf hrest
    rw [reverse_concat, removeFromLast, contentOf_append, contentOf_cons, contentOf_nil,
      append_nil, totalLength_append, totalLength_cons, totalLength_nil, Nat.add_zero]
    split_ifs with hle hzero
    · have hkept : ops.totalLength chunks + ops.getChunkLength e - n =
          (ops.contentOf chunks).length := by omega
      rw [hkept, take_left]
      exact ⟨chunks, congrArg Except.ok chunks.reverse_reverse, h.represents hrest rfl⟩
    · have hkept : ops.totalLength chunks + ops.getChunkLength e - n =
          ops.totalLength chunks - (n - ops.getChunkLength e) := by omega
      rw [hkept, take_append_of_le_length (by omega)]
      exact ih hrest ((allowsCut_concat_of_le hle).mp hcut)
    · have hlt : n < ops.getChunkLength e := by omega
      obtain ⟨part, hpeek, hvalid, hcontent⟩ := h.peek e 0 (ops.getChunkLength e - n) he (by omega)
        (by omega) ((h.allowsCut_concat_of_lt hlt).mp hcut)
      refine ⟨chunks ++ [part], ?_, h.represents ?_ ?_⟩
      · rw [hpeek]
        exact congrArg Except.ok (by rw [reverse_cons, reverse_reverse])
      · exact forall_mem_append.mpr ⟨hrest, by simpa using hvalid⟩
      · rw [contentOf_append, contentOf_cons, contentOf_nil, append_nil, hcontent,
          drop_zero, take_append, htotal, take_of_length_le (l := ops.contentOf chunks)
          (by omega)]
        congr 2
        omega

theorem removeAtBack_error (hchunks : ∀ e ∈ chunks, Valid e)
    (hcut : ¬ops.AllowsCut AllowsPart chunks 0 (ops.totalLength chunks - n)) :
    ∃ fault, ops.doRemoveAtBack n chunks = .error fault := by
  unfold doRemoveAtBack
  induction chunks using reverseRecOn generalizing n with
  | nil => exact absurd trivial hcut
  | append_singleton chunks e ih =>
    obtain ⟨hrest, he⟩ := forall_mem_append.mp hchunks
    rw [forall_mem_singleton] at he
    rw [reverse_concat, removeFromLast]
    split_ifs with hle hzero
    · rw [allowsCut_concat_of_le hle, hzero] at hcut
      exact absurd (h.allowsCut_whole (Nat.le_of_eq (Nat.sub_zero _).symm)) hcut
    · exact ih hrest ((allowsCut_concat_of_le hle).not.mp hcut)
    · have hlt : n < ops.getChunkLength e := by omega
      obtain ⟨fault, hpeek⟩ := h.refuse e 0 (ops.getChunkLength e - n) he (by omega) (by omega)
        ((h.allowsCut_concat_of_lt hlt).not.mp hcut)
      exact ⟨fault, by rw [hpeek]; rfl⟩

theorem insertAtFront_yields_iff {x : Insertion E} (hchunks : ∀ e ∈ chunks, Valid e)
    (hx : ops.IsValid Valid x) :
    ops.Yields Valid (ops.insertedContent x ++ ops.contentOf chunks)
      (ops.doInsertAtFront chunks x) ↔
      ops.AllowsInsertion AllowsPart x := by
  have hrepresents := h.represents hchunks rfl
  cases x with
  | element e => exact iff_of_true ⟨_, rfl, h.insertChunkAtFront hrepresents hx⟩ trivial
  | slice others first length =>
    obtain ⟨hothers, hlength, -⟩ := hx
    have hlt : first < first + length := Nat.lt_add_of_pos_right hlength
    have hcontent : ((ops.contentOf others).take (first + length)).drop first =
        ops.insertedContent (.slice others first length) := by
      rw [drop_take, Nat.add_sub_cancel_left, insertedContent]
    rw [← hcontent]
    exact yields_iff_of (h.insertSliceAtFront hothers hlt hrepresents)
      (h.insertSliceAtFront_error hothers hlt)
  | sequence others =>
    exact iff_of_true ⟨_, rfl, h.insertSequenceAtFront hx.1 hrepresents⟩ trivial

theorem insertAtBack_yields_iff {x : Insertion E} (hchunks : ∀ e ∈ chunks, Valid e)
    (hx : ops.IsValid Valid x) :
    ops.Yields Valid (ops.contentOf chunks ++ ops.insertedContent x) (ops.doInsertAtBack chunks x) ↔
      ops.AllowsInsertion AllowsPart x := by
  have hrepresents := h.represents hchunks rfl
  cases x with
  | element e => exact iff_of_true ⟨_, rfl, h.insertChunkAtBack hrepresents hx⟩ trivial
  | slice others first length =>
    obtain ⟨hothers, hlength, -⟩ := hx
    have hlt : first < first + length := Nat.lt_add_of_pos_right hlength
    have hcontent : ((ops.contentOf others).take (first + length)).drop first =
        ops.insertedContent (.slice others first length) := by
      rw [drop_take, Nat.add_sub_cancel_left, insertedContent]
    rw [← hcontent]
    exact yields_iff_of (h.insertSliceAtBack 0 hothers hlt hrepresents)
      (h.insertSliceAtBack_error 0 hothers hlt)
  | sequence others =>
    exact iff_of_true ⟨_, rfl, h.insertSequenceAtBack hx.1 hrepresents⟩ trivial

/-- An edit concatenates or drops bits at an end, unless it cuts an element where this is not
allowed. -/
theorem yields_iff {edit : Edit E} (hchunks : ∀ e ∈ chunks, Valid e)
    (hedit : ops.Admits Valid chunks edit) :
    ops.Yields Valid (ops.edited (ops.contentOf chunks) edit) (ops.run chunks edit) ↔
      ops.AllowsEdit AllowsPart chunks edit := by
  cases edit with
  | insertAtFront x => exact h.insertAtFront_yields_iff hchunks hedit
  | insertAtBack x => exact h.insertAtBack_yields_iff hchunks hedit
  | removeAtFront length =>
    exact yields_iff_of (h.removeAtFront hchunks) (h.removeAtFront_error hchunks)
  | removeAtBack length =>
    rw [edited, h.length_contentOf hchunks]
    exact yields_iff_of (h.removeAtBack hchunks) (h.removeAtBack_error hchunks)

end Lawful

end ElementChunk

end Inet4.Packet
