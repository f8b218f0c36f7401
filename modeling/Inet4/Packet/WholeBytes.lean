import Inet4.Packet.ChunkQueueRuns

/-!
# Queues of whole bytes

Where every element of the chunks that are pushed consists of whole bytes and only whole bytes are
popped, the queue stays so: two elements are merged to whole bytes, and a cut between two bytes
leaves whole bytes.  So no part of whole bytes splits a byte of a count of bytes.
-/

namespace Inet4.Packet

open List Element Nat

variable {ptr : PointerEq} {debug : Bool} {n first last : ℕ} {chunks others : List Element}
variable {e d : Element} {content rest chunk : Chunk} {q r : ChunkQueue} {flags : PeekFlags}

/-- Every element consists of whole bytes. -/
def WholeBytes (chunks : List Element) : Prop := ∀ e ∈ chunks, 8 ∣ e.getChunkLength

instance : DecidablePred WholeBytes := fun chunks ↦
  inferInstanceAs (Decidable (∀ e ∈ chunks, 8 ∣ e.getChunkLength))

theorem wholeBytes_nil : WholeBytes [] := forall_mem_nil _

@[simp]
theorem wholeBytes_cons : WholeBytes (e :: chunks) ↔ 8 ∣ e.getChunkLength ∧ WholeBytes chunks :=
  forall_mem_cons

@[simp]
theorem wholeBytes_append : WholeBytes (chunks ++ others) ↔ WholeBytes chunks ∧ WholeBytes others :=
  forall_mem_append

theorem Element.allowsPart_of_dvd (e : Element) (h : 8 ∣ n) : e.AllowsPart n := by
  cases e with
  | byteCount length => exact h
  | bitCount length | bits data | whole chunk | slice chunk offset length => trivial

theorem Element.IsPart.getChunkLength_eq {part : Element} {position : ℕ}
    (h : e.IsPart position n part) (he : e.Valid) :
    part.getChunkLength = min n (e.getChunkLength - position) := by
  rw [← length_content h.valid, h.content, length_take, length_drop, length_content he]

/-- A cut between two bytes splits no byte. -/
theorem WholeBytes.allowsCut (h : WholeBytes chunks) (hfirst : 8 ∣ first) (hlast : 8 ∣ last) :
    AllowsCut chunks first last := by
  induction chunks generalizing first last with
  | nil => trivial
  | cons e chunks ih =>
    obtain ⟨he, hrest⟩ := wholeBytes_cons.mp h
    refine ⟨e.allowsPart_of_dvd (dvd_sub ?_ hfirst),
      ih hrest (dvd_sub hfirst he) (dvd_sub hlast he)⟩
    rcases le_total e.getChunkLength last with hle | hle
    · rwa [min_eq_left hle]
    · rwa [min_eq_right hle]

/-! ## Pushing -/

theorem WholeBytes.doInsertChunkAtBack (ptr : PointerEq) (h : WholeBytes chunks)
    (he : 8 ∣ e.getChunkLength) : WholeBytes (doInsertChunkAtBack ptr chunks e) := by
  unfold Packet.doInsertChunkAtBack
  split
  · exact forall_mem_singleton.mpr he
  · rename_i last hlast
    obtain ⟨front, rfl⟩ := getLast?_eq_some_iff.mp hlast
    obtain ⟨hfront, hlast⟩ := wholeBytes_append.mp h
    split
    · rename_i hinsert
      rw [dropLast_concat]
      refine wholeBytes_append.mpr ⟨hfront, forall_mem_singleton.mpr ?_⟩
      rw [getChunkLength_simplify, getChunkLength_insertAtBack hinsert]
      exact Nat.dvd_add (hlast last mem_cons_self) he
    · exact wholeBytes_append.mpr ⟨h, forall_mem_singleton.mpr he⟩

theorem WholeBytes.doInsertSequenceChunkAtBack (ptr : PointerEq) (h : WholeBytes chunks)
    (hothers : WholeBytes others) :
    WholeBytes (doInsertSequenceChunkAtBack ptr chunks others) := by
  induction others generalizing chunks with
  | nil => exact h
  | cons e others ih =>
    obtain ⟨he, hrest⟩ := wholeBytes_cons.mp hothers
    exact ih (h.doInsertChunkAtBack ptr he) hrest

/-- The content of a queue consists of whole bytes, and its head lies between two of them. -/
structure ChunkQueue.InBytes (q : ChunkQueue) : Prop where
  content : WholeBytes q.content.elements
  head : 8 ∣ q.iterator.position

namespace ChunkQueue

theorem inBytes_initial : initial.InBytes := ⟨wholeBytes_nil, dvd_zero 8⟩

theorem position_pushChunk (ptr : PointerEq) (q : ChunkQueue) (chunk : Chunk) :
    (q.pushChunk ptr chunk).iterator.position = q.iterator.position := by
  unfold pushChunk
  simp only
  split
  · rfl
  · split
    · rfl
    · exact position_seekIterator _ _

theorem InBytes.pushChunk (h : q.InBytes) (ptr : PointerEq) (hchunk : WholeBytes chunk.elements)
    (hne : chunk.elements ≠ []) : (q.pushChunk ptr chunk).InBytes := by
  refine ⟨?_, by rw [position_pushChunk]; exact h.head⟩
  by_cases hempty : q.content = .empty
  · rw [ChunkQueue.pushChunk, if_pos hempty]
    exact hchunk
  · rw [elements_pushChunk ptr hempty chunk hne]
    exact h.content.doInsertSequenceChunkAtBack ptr hchunk

/-! ## Parts -/

/-- A part of whole bytes is served. -/
theorem InBytes.servesPart (h : q.InBytes) (offset numBytes : ℕ) :
    ServesPart q (8 * offset) (8 * numBytes : ℕ) := by
  refine ⟨?_, fun hnegative ↦ absurd hnegative (by omega)⟩
  rw [argument_of_nonneg (by omega), Length.count, Int.toNat_natCast]
  have hfirst : 8 ∣ q.iterator.position + 8 * offset := Nat.dvd_add h.head (dvd_mul_right 8 offset)
  exact h.content.allowsCut hfirst (Nat.dvd_add hfirst (dvd_mul_right 8 numBytes))

/-! ## Popping -/

theorem wholeBytes_doRemoveAtFront (hvalid : AllValid chunks) (h : WholeBytes chunks) (hn : 8 ∣ n)
    {remaining : List Element} (hremove : doRemoveAtFront n chunks = .ok remaining) :
    WholeBytes remaining := by
  induction chunks generalizing n with
  | nil =>
    obtain rfl := Except.ok.inj hremove
    exact h
  | cons e chunks ih =>
    obtain ⟨he, hrest⟩ := wholeBytes_cons.mp h
    rw [doRemoveAtFront] at hremove
    split at hremove
    · split at hremove
      · obtain rfl := Except.ok.inj hremove
        exact hrest
      · exact ih hvalid.tail hrest (dvd_sub hn he) hremove
    · rename_i hnle
      have hleft : 8 ∣ e.getChunkLength - n := dvd_sub he hn
      obtain ⟨part, hpeek, hpart⟩ := peekElement_eq n hvalid.head (by omega)
        (show n + (e.getChunkLength - n) ≤ e.getChunkLength by omega) (e.allowsPart_of_dvd hleft)
      rw [bind_of_ok hpeek] at hremove
      obtain rfl := Except.ok.inj hremove
      refine wholeBytes_cons.mpr ⟨?_, hrest⟩
      rwa [hpart.getChunkLength_eq hvalid.head, min_self]

/-- What is left of one element is one element, if there is any. -/
theorem eq_empty_or_single_of_removeFromContent (he : e.Valid) (h : 8 ∣ e.getChunkLength)
    (hn : 8 ∣ n)
    (hle : n ≤ e.getChunkLength) (hremove : removeFromContent ptr (.single e) n = .ok rest) :
    rest = .empty ∨ ∃ part : Element, rest = .single part := by
  unfold removeFromContent at hremove
  split at hremove
  · exact .inl (Except.ok.inj hremove).symm
  · rename_i hne
    split at hremove
    · exact .inr ⟨_, (Except.ok.inj hremove).symm⟩
    · have hleft : 8 ∣ e.getChunkLength - n := dvd_sub h hn
      simp only [Chunk.getChunkLength] at hne hremove
      have hslice : ¬e.InsideSlice n (.exactly (e.getChunkLength - n)) := by
        cases e <;> exact id
      obtain ⟨part, hpeek, -⟩ := peek_part ⟨false, false⟩ n he
        (show (Length.exactly (e.getChunkLength - n)).Plain from trivial) rfl
        (show 0 < e.getChunkLength - n by omega) (show n + (e.getChunkLength - n) ≤ _ by omega)
        (e.allowsPart_of_dvd hleft) hslice
      have hpeek' : (Chunk.single e).peek ptr (.ofPosition n) (.exactly (e.getChunkLength - n))
          ⟨false, false⟩ = .ok (some (.single part)) := hpeek
      rw [bind_of_ok hpeek'] at hremove
      exact .inr ⟨part, (Except.ok.inj hremove).symm⟩

theorem wholeBytes_removeFromContent (ptr : PointerEq) (hvalid : AllValid content.elements)
    (h : WholeBytes content.elements) (hn : 8 ∣ n) (hle : n ≤ content.getChunkLength)
    (hsplit : AllowsSplit content.elements n)
    (hremove : removeFromContent ptr content n = .ok rest) : WholeBytes rest.elements := by
  obtain ⟨rest', hrest', hvalid', hcontent, -⟩ := removeFromContent_spec ptr hvalid hle hsplit
  obtain rfl := Except.ok.inj (hremove.symm.trans hrest')
  cases content with
  | empty =>
    have hzero : n = 0 := le_zero.mp hle
    subst hzero
    obtain rfl := Except.ok.inj hremove
    exact wholeBytes_nil
  | single e =>
    obtain ⟨he, -⟩ := wholeBytes_cons.mp h
    rcases eq_empty_or_single_of_removeFromContent hvalid.head he hn hle hremove with rfl | ⟨part,
      rfl⟩
    · exact wholeBytes_nil
    · have hlength := congrArg List.length hcontent
      rw [length_content hvalid', length_drop, length_content hvalid] at hlength
      refine forall_mem_singleton.mpr ?_
      change 8 ∣ (Chunk.single part).getChunkLength
      rw [hlength]
      exact dvd_sub he hn
  | sequence chunks =>
    unfold removeFromContent at hremove
    split at hremove
    · obtain rfl := Except.ok.inj hremove
      exact wholeBytes_nil
    · obtain ⟨remaining, hremaining, rfl⟩ := bind_pure_eq_ok hremove
      exact wholeBytes_doRemoveAtFront hvalid h hn hremaining

theorem InBytes.moveIteratorOrRemove (h : q.InBytes) (hq : q.Valid) (hn : 8 ∣ n)
    (hle : q.iterator.position + n ≤ q.content.getChunkLength)
    (hmove : q.moveIteratorOrRemove ptr n = .ok r) : r.InBytes := by
  have hhead : 8 ∣ q.iterator.position + n := Nat.dvd_add h.head hn
  unfold ChunkQueue.moveIteratorOrRemove at hmove
  simp only [position_moveIterator] at hmove
  split at hmove
  · obtain ⟨content, hcontent, hreturn⟩ := bind_eq_ok hmove
    obtain rfl := Except.ok.inj hreturn
    have hsplit : AllowsSplit q.content.elements (q.iterator.position + n) :=
      hq.split.add hq.content (h.content.allowsCut h.head hhead)
    refine ⟨wholeBytes_removeFromContent ptr hq.content h.content hhead hle hsplit hcontent, ?_⟩
    rw [position_seekIterator, position_moveIterator, Nat.sub_self]
    exact dvd_zero 8
  · obtain rfl := Except.ok.inj hmove
    exact ⟨h.content, by rw [position_moveIterator]; exact hhead⟩

/-- Popping whole bytes leaves whole bytes. -/
theorem InBytes.pop (h : q.InBytes) (hq : q.Valid) {numBytes : ℕ} {reply : Option Chunk}
    (hadmits : AdmitsPart q 0 (8 * numBytes : ℕ) flags)
    (hpop : q.pop ptr debug (8 * numBytes : ℕ) flags = .ok (r, reply)) : r.InBytes := by
  obtain ⟨part, hpeek, hvalid, hcontent, -⟩ :=
    peek_eq ptr debug hq hadmits (h.servesPart 0 numBytes)
  have hcount := partLength_le hadmits
  have hbytes : q.partLength 0 (8 * numBytes : ℕ) = 8 * numBytes := by
    rw [partLength, argument_of_nonneg (by omega), Length.count, Int.toNat_natCast]
  rw [hbytes] at hcontent hcount
  obtain ⟨⟨⟩, -, hrest⟩ := bind_eq_ok hpop
  rw [if_neg (by omega), bind_of_ok hpeek] at hrest
  cases part with
  | none =>
    obtain ⟨rfl, -⟩ := Prod.mk.inj (Except.ok.inj hrest)
    exact h
  | some chunk =>
    obtain ⟨moved, hmove, hreturn⟩ := bind_eq_ok hrest
    obtain ⟨rfl, -⟩ := Prod.mk.inj (Except.ok.inj hreturn)
    have hlength : chunk.getChunkLength = 8 * numBytes := by
      have hstored := length_stored hq
      rw [← length_content (hvalid chunk rfl)]
      change (replyContent (some chunk)).length = _
      rw [hcontent, length_take]
      rw [getLength] at hstored
      omega
    rw [hlength] at hmove
    exact h.moveIteratorOrRemove hq (dvd_mul_right 8 numBytes) hcount hmove

end ChunkQueue

end Inet4.Packet
