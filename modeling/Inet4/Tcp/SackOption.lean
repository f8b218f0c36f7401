import Inet4.Tcp.SackPipe

/-!
# Received SACK options

The only guards of `processSACKOption` compare the end of a block with two acknowledgement numbers,
and `setSackedBit` asserts that the block lies in the queue.  The queue keeps its ends while blocks
are marked, so that each block is judged by the queue at the begin.  A queue that reaches beyond
`snd_max` takes a block that does so.  Until our SYN is acknowledged the queue begins behind
`snd_una`, so that nothing is assumed about its begin.
-/

namespace Inet4.Tcp

open SackRexmitQueue

/-- The numbers from the start of a block on up to its end. -/
def Sack.Contains (tmp : Sack) (seqNum : SeqNum) : Prop :=
  distance tmp.start seqNum < distance tmp.start tmp.end

/-- A fold whose steps succeed on the elements with a property, under an invariant. -/
theorem exists_foldlM_iff {β γ : Type} {f : γ → β → Except Fault γ} {P : γ → Prop} {C : β → Prop}
    {l : List β} (hiff : ∀ c, P c → ∀ b ∈ l, (∃ c', f c b = .ok c') ↔ C b)
    (hkeep : ∀ c, P c → ∀ b ∈ l, ∀ c', f c b = .ok c' → P c') {c : γ} (hc : P c) :
    (∃ c', l.foldlM f c = .ok c' ∧ P c') ↔ ∀ b ∈ l, C b := by
  induction l generalizing c with
  | nil => exact iff_of_true ⟨c, rfl, hc⟩ (by simp)
  | cons b l ih =>
    have hrest := fun {c : γ} (hc : P c) ↦
      ih (fun c hc b hb ↦ hiff c hc b (List.mem_cons_of_mem _ hb))
      (fun c hc b hb ↦ hkeep c hc b (List.mem_cons_of_mem _ hb)) hc
    rw [List.foldlM_cons, List.forall_mem_cons, ← hiff c hc b List.mem_cons_self]
    constructor
    · rintro ⟨c', hfold, hc'⟩
      obtain ⟨next, hnext, hfold⟩ := bind_eq_ok hfold
      exact ⟨⟨next, hnext⟩, (hrest (hkeep c hc b List.mem_cons_self next hnext)).mp
        ⟨c', hfold, hc'⟩⟩
    · rintro ⟨⟨next, hnext⟩, hall⟩
      rw [bind_of_ok hnext]
      exact (hrest (hkeep c hc b List.mem_cons_self next hnext)).mpr hall

namespace SackSender

variable {α : Type} (s : SackSender α)

/-- The guard of a block. -/
def Passes (ackNo : SeqNum) (tmp : Sack) : Prop :=
  seqGreater tmp.end ackNo ∧ seqGreater tmp.end s.snd_una

/-- The block ends in the queue and begins before its end, where a start before the queue counts as
the begin of the queue. -/
def LiesInQueue (tmp : Sack) : Prop :=
  seqLess s.rexmitQueue.begin tmp.end ∧ seqLE tmp.end s.rexmitQueue.end ∧
    seqLess (s.rexmitQueue.firstSacked tmp.start) tmp.end

/-- The octet was sent, as far as `snd_max` tells, and is not acknowledged. -/
def Outstanding (seqNum : SeqNum) : Prop := seqLE s.snd_una seqNum ∧ seqLess seqNum s.snd_max

/-- A byte of a queue is marked as sacked. -/
def SackedIn (q : SackRexmitQueue) (k : ℕ) : Prop := q.byteMap.bytes[k]?.any Flags.sacked

/-- The bytes of the block that lie in the queue are outstanding or sacked already. -/
def KnownOutside (tmp : Sack) : Prop :=
  ∀ k < s.rexmitQueue.byteMap.bytes.length, tmp.Contains (advance s.rexmitQueue.begin k) →
    s.Outstanding (advance s.rexmitQueue.begin k) ∨ SackedIn s.rexmitQueue k

/-- A queue in which only outstanding bytes of the blocks were marked. -/
structure MarksOnly (blocks : List Sack) (q : SackRexmitQueue) : Prop where
  valid : q.Valid
  begin_eq : q.begin = s.rexmitQueue.begin
  end_eq : q.end = s.rexmitQueue.end
  sacked : ∀ k, SackedIn q k → SackedIn s.rexmitQueue k ∨
    s.Outstanding (advance s.rexmitQueue.begin k) ∧
      ∃ tmp ∈ blocks, tmp.Contains (advance s.rexmitQueue.begin k)

/-- A queue in which the bytes of blocks were marked, from another queue. -/
structure Marks (Marked : Sack → Prop) (q r : SackRexmitQueue) : Prop where
  valid : r.Valid
  begin_eq : r.begin = q.begin
  end_eq : r.end = q.end
  length_eq : r.byteMap.bytes.length = q.byteMap.bytes.length
  sacked : ∀ k < q.byteMap.bytes.length, SackedIn r k ↔
    SackedIn q k ∨ ∃ tmp, Marked tmp ∧ tmp.Contains (advance q.begin k)

variable {s} {q r : SackRexmitQueue} {blocks : List Sack} {tmp : Sack} {ackNo : SeqNum} {j k p : ℕ}

theorem applySack_of_passes (h : s.Passes ackNo tmp) :
    s.applySack ackNo q tmp = q.setSackedBit tmp.start tmp.end := if_pos h

theorem applySack_of_not_passes (h : ¬s.Passes ackNo tmp) : s.applySack ackNo q tmp = .ok q :=
  if_neg h

/-- The bytes of the queue that lie in a block are those between the first one that is marked and
the end of the block. -/
theorem contains_iff (hfirst : q.firstSacked tmp.start = advance q.begin k)
    (hend : tmp.end = advance q.begin j) (hkj : k < j) (hj : j < 2 ^ 31) (hp : p < 2 ^ 31) :
    tmp.Contains (advance q.begin p) ↔ k ≤ p ∧ p < j := by
  rw [firstSacked] at hfirst
  split at hfirst
  · -- a start before the queue
    rename_i hless
    have hstart := advance_distance tmp.start q.begin
    have hshort : distance tmp.start q.begin < 2 ^ 31 := hless.2
    have hzero : k = 0 := by
      rw [← advance_zero q.begin, advance_advance, Nat.zero_add] at hfirst
      exact ((advance_inj (by omega) (by omega)).mp hfirst).symm
    have hat (n : ℕ) : advance q.begin n = advance tmp.start (distance tmp.start q.begin + n) := by
      rw [← advance_advance, hstart]
    rw [Sack.Contains, hend, hat, hat, distance_advance_of_lt (by omega),
      distance_advance_of_lt (by omega)]
    omega
  · rw [Sack.Contains, hend, hfirst, distance_advance_advance (Nat.le_of_lt hkj) (by omega)]
    rcases Nat.lt_or_ge p k with hlt | hge
    · rw [distance_advance_advance_of_lt hlt (by omega)]
      omega
    · rw [distance_advance_advance hge (by omega)]
      omega

/-- A block is marked if and only if it lies in the queue. -/
theorem setSackedBit_iff (hvalid : q.Valid) :
    (∃ r, q.setSackedBit tmp.start tmp.end = .ok r) ↔ seqLess q.begin tmp.end ∧
      seqLE tmp.end q.end ∧ seqLess (q.firstSacked tmp.start) tmp.end := by
  constructor
  · rintro ⟨r, hok⟩
    obtain ⟨_, _, hok⟩ := bind_eq_ok hok
    obtain ⟨_, hto, hok⟩ := bind_eq_ok hok
    obtain ⟨_, hless, _⟩ := bind_eq_ok hok
    exact ⟨(of_assert hto).1, (of_assert hto).2, of_assert hless⟩
  · rintro ⟨hbegin, hto, hless⟩
    have hbound := hvalid.bound
    obtain ⟨j, hend, -, hj⟩ := hvalid.exists_advance hbegin.2 hto
    have hk := advance_distance q.begin (q.firstSacked tmp.start)
    have hle := q.distance_firstSacked_le tmp.start
    have hfrom : seqLess (q.firstSacked tmp.start) q.end := by
      rw [hend, ← hk, seqLess_advance_iff (by omega) (by omega)] at hless
      rw [hvalid.end_eq, ← hk]
      exact (seqLess_advance_iff (by omega) (by omega)).mpr (by omega)
    obtain ⟨r, hok, -⟩ := setSackedBit_spec hvalid hfrom ⟨hbegin, hto⟩ hless
    exact ⟨r, hok⟩

theorem Marks.refl (hvalid : q.Valid) : Marks (· ∈ []) q q where
  valid := hvalid
  begin_eq := rfl
  end_eq := rfl
  length_eq := rfl
  sacked k _ := by simp

/-- Blocks are marked one after the other. -/
theorem Marks.trans {Marked Marked' : Sack → Prop} {t : SackRexmitQueue} (h : Marks Marked q r)
    (h' : Marks Marked' r t) : Marks (fun tmp ↦ Marked tmp ∨ Marked' tmp) q t where
  valid := h'.valid
  begin_eq := h'.begin_eq.trans h.begin_eq
  end_eq := h'.end_eq.trans h.end_eq
  length_eq := h'.length_eq.trans h.length_eq
  sacked k hk := by
    rw [h'.sacked k (h.length_eq.symm ▸ hk), h.sacked k hk, h.begin_eq, or_assoc, ← exists_or]
    simp only [or_and_right]

/-- A block that lies in the queue is marked, and nothing else. -/
theorem marks_setSackedBit (hvalid : q.Valid)
    (hok : q.setSackedBit tmp.start tmp.end = .ok r) : Marks (· = tmp) q r := by
  have hbound := hvalid.bound
  obtain ⟨hbehind, hto, hless⟩ := (setSackedBit_iff hvalid).mp ⟨r, hok⟩
  obtain ⟨_, hfrom, _⟩ := bind_eq_ok hok
  obtain ⟨r', hok', hvalid', hmap⟩ :=
    setSackedBit_spec hvalid (of_assert hfrom) ⟨hbehind, hto⟩ hless
  obtain rfl := Except.ok.inj (hok'.symm.trans hok)
  obtain ⟨j, hend, -, hj⟩ := hvalid.exists_advance hbehind.2 hto
  obtain ⟨k, hfirst, hdistance, hk⟩ := hvalid.exists_firstSacked (of_assert hfrom)
  have hkj : k < j := by
    rw [hfirst, hend] at hless
    exact (seqLess_advance_iff (by omega) (by omega)).mp hless
  have hrange : distance (q.firstSacked tmp.start) tmp.end = j - k := by
    rw [hfirst, hend, distance_advance_advance (Nat.le_of_lt hkj) (by omega)]
  have hbytes : r'.byteMap.bytes = changeRange k (j - k) Flags.sack q.byteMap.bytes := by
    rw [hmap, ByteMap.sack]
    change changeRange (distance q.begin (q.firstSacked tmp.start))
      (distance (q.firstSacked tmp.start) tmp.end) _ _ = _
    rw [hdistance, hrange]
  have hbegin : r'.begin = q.begin := congrArg ByteMap.begin hmap
  have hlength : r'.byteMap.bytes.length = q.byteMap.bytes.length := by
    rw [hbytes, length_changeRange]
  refine ⟨hvalid', hbegin, ?_, hlength, ?_⟩
  · rw [hvalid'.end_eq, ByteMap.end, hlength, hvalid.end_eq]
    change advance r'.begin _ = _
    rw [hbegin]
    rfl
  · intro p hp
    have hin : k ≤ p ∧ p < k + (j - k) ↔ k ≤ p ∧ p < j := by omega
    simp only [exists_eq_left, contains_iff hfirst hend hkj (by omega) (show p < 2 ^ 31 by omega)]
    rw [SackedIn, SackedIn, hbytes, getElem?_changeRange, ← hin]
    split
    · rename_i hmarked
      rw [List.getElem?_eq_getElem hp]
      exact iff_of_true rfl (.inr hmarked)
    · rename_i hmarked
      exact (or_iff_left hmarked).symm

/-- The blocks that pass the guard are marked. -/
theorem marks_of_foldlM (hvalid : q.Valid)
    (hok : blocks.foldlM (s.applySack ackNo) q = .ok r) :
    Marks (fun tmp ↦ tmp ∈ blocks ∧ s.Passes ackNo tmp) q r := by
  induction blocks generalizing q with
  | nil =>
    obtain rfl := Except.ok.inj hok
    simpa using Marks.refl hvalid
  | cons tmp blocks ih =>
    rw [List.foldlM_cons] at hok
    obtain ⟨next, hnext, hok⟩ := bind_eq_ok hok
    by_cases hpasses : s.Passes ackNo tmp
    · rw [applySack_of_passes hpasses] at hnext
      have hfirst := marks_setSackedBit hvalid hnext
      have hrest := ih hfirst.valid hok
      have hblocks (other : Sack) : other = tmp ∨ other ∈ blocks ∧ s.Passes ackNo other ↔
          other ∈ tmp :: blocks ∧ s.Passes ackNo other := by
        rw [List.mem_cons, or_and_right]
        exact or_congr_left (iff_self_and.mpr fun heq ↦ heq ▸ hpasses)
      simpa only [hblocks] using hfirst.trans hrest
    · rw [applySack_of_not_passes hpasses] at hnext
      obtain rfl := Except.ok.inj hnext
      have hblocks (other : Sack) : other ∈ blocks ∧ s.Passes ackNo other ↔
          other ∈ tmp :: blocks ∧ s.Passes ackNo other := by
        rw [List.mem_cons, or_and_right]
        refine (or_iff_right ?_).symm
        rintro ⟨rfl, hcontra⟩
        exact hpasses hcontra
      simpa only [hblocks] using ih hvalid hok

/-- The blocks that pass the guard can be marked if and only if they lie in the queue. -/
theorem exists_foldlM_applySack (hvalid : s.rexmitQueue.Valid) :
    (∃ q, blocks.foldlM (s.applySack ackNo) s.rexmitQueue = .ok q) ↔
      ∀ tmp ∈ blocks, s.Passes ackNo tmp → s.LiesInQueue tmp := by
  have hfold : (∃ q, blocks.foldlM (s.applySack ackNo) s.rexmitQueue = .ok q ∧
      q.Valid ∧ q.begin = s.rexmitQueue.begin ∧ q.end = s.rexmitQueue.end) ↔
      ∀ tmp ∈ blocks, s.Passes ackNo tmp → s.LiesInQueue tmp := by
    apply exists_foldlM_iff _ _ ⟨hvalid, rfl, rfl⟩
    · rintro q ⟨hq, hqBegin, hqEnd⟩ tmp -
      by_cases hpasses : s.Passes ackNo tmp
      · rw [applySack_of_passes hpasses, setSackedBit_iff hq, LiesInQueue, hqEnd, firstSacked,
          firstSacked, hqBegin]
        exact (imp_iff_right hpasses).symm
      · rw [applySack_of_not_passes hpasses]
        exact iff_of_true ⟨q, rfl⟩ fun hcontra ↦ absurd hcontra hpasses
    · rintro q ⟨hq, hqBegin, hqEnd⟩ tmp - r hok
      by_cases hpasses : s.Passes ackNo tmp
      · rw [applySack_of_passes hpasses] at hok
        have hmarks := marks_setSackedBit hq hok
        exact ⟨hmarks.valid, hmarks.begin_eq.trans hqBegin, hmarks.end_eq.trans hqEnd⟩
      · rw [applySack_of_not_passes hpasses] at hok
        exact Except.ok.inj hok ▸ ⟨hq, hqBegin, hqEnd⟩
  rw [← hfold]
  constructor
  · rintro ⟨q, hok⟩
    have hmarks := marks_of_foldlM hvalid hok
    exact ⟨q, hok, hmarks.valid, hmarks.begin_eq, hmarks.end_eq⟩
  · rintro ⟨q, hok, -⟩
    exact ⟨q, hok⟩

/-- Where the blocks are marked, only outstanding bytes are so if and only if the other ones that
the blocks report are sacked already. -/
theorem marksOnly_iff (hvalid : s.rexmitQueue.Valid)
    (hok : blocks.foldlM (s.applySack ackNo) s.rexmitQueue = .ok q) :
    s.MarksOnly blocks q ↔ ∀ tmp ∈ blocks, s.Passes ackNo tmp → s.KnownOutside tmp := by
  have hmarks := marks_of_foldlM hvalid hok
  constructor
  · intro honly tmp hmem hpasses k hk hcontains
    rcases honly.sacked k ((hmarks.sacked k hk).mpr (.inr ⟨tmp, ⟨hmem, hpasses⟩, hcontains⟩)) with
      hold | ⟨hout, -⟩
    · exact .inr hold
    · exact .inl hout
  · intro hknown
    refine ⟨hmarks.valid, hmarks.begin_eq, hmarks.end_eq, ?_⟩
    intro k hsacked
    have hk : k < s.rexmitQueue.byteMap.bytes.length := by
      by_contra hge
      rw [SackedIn, List.getElem?_eq_none (by rw [hmarks.length_eq]; omega)] at hsacked
      cases hsacked
    rcases (hmarks.sacked k hk).mp hsacked with hold | ⟨tmp, ⟨hmem, hpasses⟩, hcontains⟩
    · exact .inl hold
    · rcases hknown tmp hmem hpasses k hk hcontains with hout | hold
      · exact .inr ⟨hout, tmp, hmem, hcontains⟩
      · exact .inl hold

/-- The blocks are processed and mark only what they may if and only if those that pass the guard
lie in the queue and report nothing new that is not outstanding. -/
theorem exists_foldlM_marksOnly_iff (hvalid : s.rexmitQueue.Valid) :
    (∃ q, blocks.foldlM (s.applySack ackNo) s.rexmitQueue = .ok q ∧ s.MarksOnly blocks q) ↔
      ∀ tmp ∈ blocks, s.Passes ackNo tmp → s.LiesInQueue tmp ∧ s.KnownOutside tmp := by
  simp only [imp_and, forall_and, ← exists_foldlM_applySack hvalid]
  constructor
  · rintro ⟨q, hok, honly⟩
    exact ⟨⟨q, hok⟩, (marksOnly_iff hvalid hok).mp honly⟩
  · rintro ⟨⟨q, hok⟩, hknown⟩
    exact ⟨q, hok, (marksOnly_iff hvalid hok).mpr hknown⟩

/-- `processSACKOption` returns, and marks only bytes between `snd_una` and `snd_max` that a block
reports, if and only if the blocks that pass the guard lie in the queue and report nothing new
outside. -/
theorem processSACKOption_iff (hsack : s.options.sack_enabled)
    (hfsm : AcceptsSacks s.options.fsm) (hvalid : s.rexmitQueue.Valid) (ackNo : SeqNum)
    (blocks : List Sack) :
    (∃ t, s.processSACKOption ackNo ⟨2 + blocks.length * 8, blocks⟩ = .ok (true, t) ∧
        s.MarksOnly blocks t.rexmitQueue) ↔
      ∀ tmp ∈ blocks, s.Passes ackNo tmp → s.LiesInQueue tmp ∧ s.KnownOutside tmp := by
  have hlength : ¬(2 + blocks.length * 8) % 8 ≠ 2 := by omega
  have hself : s.MarksOnly [] s.rexmitQueue := ⟨hvalid, rfl, rfl, fun k hk ↦ .inl hk⟩
  rw [← exists_foldlM_marksOnly_iff hvalid, processSACKOption, if_neg hlength,
    bind_of_ok (assert_of (Nat.add_comm _ _ ▸ rfl)),
    if_neg (not_not.mpr hsack), if_neg (not_not.mpr hfsm)]
  by_cases hblocks : 0 < blocks.length
  · simp only [if_pos hblocks]
    constructor
    · rintro ⟨t, hok, hmarks⟩
      obtain ⟨q, hq, hok⟩ := bind_eq_ok hok
      obtain ⟨-, rfl⟩ := Prod.mk.inj (Except.ok.inj hok)
      exact ⟨q, hq, hmarks⟩
    · rintro ⟨q, hq, hmarks⟩
      rw [bind_of_ok hq]
      exact ⟨_, rfl, hmarks⟩
  · simp only [if_neg hblocks]
    obtain rfl : blocks = [] := List.eq_nil_of_length_eq_zero (Nat.eq_zero_of_not_pos hblocks)
    exact iff_of_true ⟨s, rfl, hself⟩ ⟨_, rfl, hself⟩

theorem processSACKOption_iff_dataSent :
    (∃ t, dataSent.processSACKOption 10 ⟨2 + 1 * 8, [⟨12, 14⟩]⟩ = .ok (true, t) ∧
        dataSent.MarksOnly [⟨12, 14⟩] t.rexmitQueue) ↔
      ∀ tmp ∈ [(⟨12, 14⟩ : Sack)], dataSent.Passes 10 tmp →
        dataSent.LiesInQueue tmp ∧ dataSent.KnownOutside tmp :=
  processSACKOption_iff (by decide) (by decide) ⟨by decide, by decide⟩ 10 [⟨12, 14⟩]

/-- A block that ends beyond what was sent ends the simulation. -/
theorem not_processSACKOption_beyond :
    ¬∃ t, dataSent.processSACKOption 10 ⟨2 + 1 * 8, [⟨12, 20⟩]⟩ = .ok (true, t) ∧
      dataSent.MarksOnly [⟨12, 20⟩] t.rexmitQueue := by
  rintro ⟨t, hok, -⟩
  have herror : dataSent.processSACKOption 10 ⟨2 + 1 * 8, [⟨12, 20⟩]⟩ = .error .runtimeError := by
    decide +kernel
  rw [herror] at hok
  cases hok

end SackSender

end Inet4.Tcp
