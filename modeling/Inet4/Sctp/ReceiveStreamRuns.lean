import Inet4.Machine
import Inet4.Sctp.UserMessages

/-!
# Ordered delivery along a run

The chunks of the messages of a stream arrive in any order, and the application takes messages.  The
messages move to `deliveryQ` in order and whole, each as soon as all messages before it are
complete, and they leave it in order.
-/

namespace Inet4.Sctp

open List AssocMap BitVec Bool Nat Option SctpQueue

namespace UserMessages

variable {messages : UserMessages} {n n' k k' m E : ℕ} {payload : Payload}

/-! ## The window of TSNs -/

/-- A message that is not before `m` has its TSNs less than the ring after those of `m`. -/
def InWindow (messages : UserMessages) (m n : ℕ) : Prop :=
  m ≤ n ∧ messages.start n + messages.count n ≤ messages.start m + 2 ^ 32

theorem start_le (h : n < n') : messages.start n + messages.count n ≤ messages.start n' := by
  induction n', h using le_induction with
  | base => exact messages.consecutive n
  | succ n' _ ih =>
    have hnext := messages.consecutive n'
    omega

theorem start_mono (h : n ≤ n') : messages.start n ≤ messages.start n' := by
  rcases eq_or_lt_of_le h with rfl | hlt
  · exact le_rfl
  · have hle := messages.start_le hlt
    omega

theorem InWindow.mono (h : messages.InWindow m n) (hle : m ≤ k) (hk : k ≤ n) :
    messages.InWindow k n := by
  have hstart := messages.start_mono hle
  have hend := h.2
  exact ⟨hk, by omega⟩

theorem InWindow.count_le (h : messages.InWindow m n) : messages.count n ≤ 2 ^ 32 := by
  have hstart := messages.start_mono h.1
  have hend := h.2
  omega

/-- The TSNs in the window differ. -/
theorem InWindow.tsn_inj (h : messages.InWindow m n) (h' : messages.InWindow m n')
    (hk : k < messages.count n) (hk' : k' < messages.count n')
    (heq : messages.tsn n k = messages.tsn n' k') : n = n' ∧ k = k' := by
  have hstart := messages.start_mono h.1
  have hstart' := messages.start_mono h'.1
  have hend := h.2
  have hend' := h'.2
  have hint : messages.start n + k = messages.start n' + k' :=
    (Tsn.of_eq_of_iff (by omega) (by omega)).mp heq
  rcases Nat.lt_trichotomy n n' with hlt | rfl | hlt
  · have hle := messages.start_le hlt
    omega
  · exact ⟨rfl, by omega⟩
  · have hle := messages.start_le hlt
    omega

/-! ## The contents of `orderedQ` -/

/-- All chunks of a message arrived. -/
def Complete (messages : UserMessages) (arrived : List (ℕ × ℕ)) (n : ℕ) : Prop :=
  ∀ k < messages.count n, (n, k) ∈ arrived

instance (arrived : List (ℕ × ℕ)) (n : ℕ) : Decidable (messages.Complete arrived n) :=
  inferInstanceAs (Decidable (∀ k < messages.count n, (n, k) ∈ arrived))

/-- What the queue has under the TSN of a chunk: a complete message under the first one, and the
chunks that arrived otherwise. -/
def slot (messages : UserMessages) (arrived : List (ℕ × ℕ)) (n k : ℕ) :
    Option SctpDataVariables :=
  if messages.Complete arrived n then if k = 0 then some (messages.whole n) else none
  else if (n, k) ∈ arrived then (messages.fragments n)[k]?.map (messages.chunk n k) else none

/-- The queue has the contents of the messages from `E` on and nothing else. -/
def Holds (messages : UserMessages) (queue : SctpQueue) (E : ℕ)
    (contents : ℕ → ℕ → Option SctpDataVariables) : Prop :=
  ∀ t chunk, queue.find t = some chunk ↔ ∃ n k, E ≤ n ∧ k < messages.count n ∧
    t = messages.tsn n k ∧ contents n k = some chunk

variable {arrived : List (ℕ × ℕ)} {queue : SctpQueue}
variable {contents : ℕ → ℕ → Option SctpDataVariables}

theorem slot_of_not_complete (h : ¬messages.Complete arrived n) :
    messages.slot arrived n k =
      if (n, k) ∈ arrived then (messages.fragments n)[k]?.map (messages.chunk n k) else none :=
  if_neg h

theorem mem_of_slot (hk : k < messages.count n) (h : messages.slot arrived n k ≠ none) :
    (n, k) ∈ arrived := by
  unfold slot at h
  split at h
  · rename_i hcomplete
    exact hcomplete k hk
  · split at h
    · rename_i hmem
      exact hmem
    · exact absurd rfl h

/-- Inside of the window the queue has what the contents say. -/
theorem Holds.find (h : messages.Holds queue E contents)
    (hwindow : ∀ n k, E ≤ n → k < messages.count n → contents n k ≠ none → messages.InWindow m n)
    (hE : E ≤ n) (hk : k < messages.count n) (hn : messages.InWindow m n) :
    queue.find (messages.tsn n k) = contents n k := by
  cases hcontents : contents n k with
  | some chunk => exact (h _ chunk).mpr ⟨n, k, hE, hk, rfl, hcontents⟩
  | none =>
    cases hfind : queue.find (messages.tsn n k) with
    | none => rfl
    | some chunk =>
      obtain ⟨n', k', hE', hk', htsn, hcontents'⟩ := (h _ chunk).mp hfind
      have hn' := hwindow n' k' hE' hk' (by rw [hcontents']; nofun)
      obtain ⟨rfl, rfl⟩ := hn.tsn_inj hn' hk hk' htsn
      rw [hcontents] at hcontents'
      cases hcontents'

theorem Holds.congr {contents' : ℕ → ℕ → Option SctpDataVariables}
    (h : messages.Holds queue E contents)
    (heq : ∀ n k, E ≤ n → k < messages.count n → contents' n k = contents n k) :
    messages.Holds queue E contents' := by
  intro t chunk
  rw [h t chunk]
  constructor
  · rintro ⟨n, k, hE, hk, htsn, hcontents⟩
    exact ⟨n, k, hE, hk, htsn, (heq n k hE hk).trans hcontents⟩
  · rintro ⟨n, k, hE, hk, htsn, hcontents⟩
    exact ⟨n, k, hE, hk, htsn, (heq n k hE hk).symm.trans hcontents⟩

/-- The contents with one more chunk. -/
def put (contents : ℕ → ℕ → Option SctpDataVariables) (n k : ℕ) (chunk : SctpDataVariables) :
    ℕ → ℕ → Option SctpDataVariables :=
  fun n' k' ↦ if n' = n ∧ k' = k then some chunk else contents n' k'

theorem put_self (chunk : SctpDataVariables) : put contents n k chunk n k = some chunk :=
  if_pos ⟨rfl, rfl⟩

theorem put_of_ne (chunk : SctpDataVariables) (hne : ¬(n' = n ∧ k' = k)) :
    put contents n k chunk n' k' = contents n' k' := if_neg hne

/-- The chunks that arrived: those of messages that did not leave are in the window, and none of
their messages wraps. -/
structure Arrivals (messages : UserMessages) (arrived : List (ℕ × ℕ)) (m : ℕ) : Prop where
  lt : ∀ n k, (n, k) ∈ arrived → k < messages.count n
  window : ∀ n k, (n, k) ∈ arrived → m ≤ n → messages.InWindow m n
  joinable : ∀ n k, (n, k) ∈ arrived → messages.Joinable n

theorem Arrivals.window_of_slot (h : messages.Arrivals arrived m) (hm : m ≤ E) (hE : E ≤ n)
    (hk : k < messages.count n) (hslot : messages.slot arrived n k ≠ none) :
    messages.InWindow m n :=
  h.window n k (mem_of_slot hk hslot) (hm.trans hE)

theorem complete_cons_of_ne (hne : n' ≠ n) :
    messages.Complete ((n, k) :: arrived) n' ↔ messages.Complete arrived n' := by
  have hmem : ∀ k', (n', k') ∈ (n, k) :: arrived ↔ (n', k') ∈ arrived := by
    intro k'
    rw [mem_cons, or_iff_right fun heq ↦ hne (Prod.mk.inj heq).1]
  simp only [Complete, hmem]

theorem slot_cons_of_ne (hne : n' ≠ n) :
    messages.slot ((n, k) :: arrived) n' k' = messages.slot arrived n' k' := by
  have hmem : (n', k') ∈ (n, k) :: arrived ↔ (n', k') ∈ arrived := by
    rw [mem_cons, or_iff_right fun heq ↦ hne (Prod.mk.inj heq).1]
  simp only [slot, complete_cons_of_ne hne, hmem]

/-- A chunk of a message that is not complete is one more slot. -/
theorem slot_cons_of_not_complete (hpayload : (messages.fragments n)[k]? = some payload)
    (hincomplete : ¬messages.Complete ((n, k) :: arrived) n) :
    messages.slot ((n, k) :: arrived) n' k' =
      put (messages.slot arrived) n k (messages.chunk n k payload) n' k' := by
  have hbefore : ¬messages.Complete arrived n :=
    fun hcomplete ↦ hincomplete fun i hi ↦ mem_cons_of_mem _ (hcomplete i hi)
  by_cases hne : n' = n
  · subst hne
    rw [slot_of_not_complete hincomplete]
    by_cases hsame : k' = k
    · subst hsame
      rw [put_self, if_pos mem_cons_self, hpayload, map_some]
    · have hmem : (n', k') ∈ (n', k) :: arrived ↔ (n', k') ∈ arrived := by
        rw [mem_cons, or_iff_right fun heq ↦ hsame (Prod.mk.inj heq).2]
      rw [put_of_ne _ fun heq ↦ hsame heq.2, slot_of_not_complete hbefore]
      simp only [hmem]
  · rw [slot_cons_of_ne hne, put_of_ne _ fun heq ↦ hne heq.1]

/-- A message of one chunk is complete at once. -/
theorem slot_cons_of_single (hpayload : (messages.fragments n)[k]? = some payload)
    (hsingle : messages.count n = 1) (hk' : k' < messages.count n') :
    messages.slot ((n, k) :: arrived) n' k' =
      put (messages.slot arrived) n k (messages.chunk n k payload) n' k' := by
  by_cases hne : n' = n
  · subst hne
    have hk := lt_count hpayload
    obtain rfl : k = 0 := by omega
    obtain rfl : k' = 0 := by omega
    have hcomplete : messages.Complete ((n', 0) :: arrived) n' := by
      intro i hi
      obtain rfl : i = 0 := by omega
      exact mem_cons_self
    obtain ⟨first, hfirst⟩ := length_eq_one_iff.mp hsingle
    have heq : first = payload := by
      rw [hfirst] at hpayload
      exact some.inj hpayload
    rw [put_self, slot, if_pos hcomplete, if_pos rfl, ← chunk_eq_whole hfirst, heq]
  · rw [slot_cons_of_ne hne, put_of_ne _ fun heq ↦ hne heq.1]

/-! ## The arrival of a chunk -/

section Arrive

variable (harrivals : messages.Arrivals arrived m) (hm : m ≤ E)
variable (h : messages.Holds queue E (messages.slot arrived))
variable (hE : E ≤ n) (hwindow : messages.InWindow m n) (hnew : (n, k) ∉ arrived)
variable (hpayload : (messages.fragments n)[k]? = some payload)

include harrivals hm h hE hwindow hnew hpayload

/-- The chunk is put under its TSN. -/
theorem Holds.insert :
    queue.checkAndInsertChunk (messages.tsn n k) (messages.chunk n k payload) =
        (true, queue.assign (messages.tsn n k) (messages.chunk n k payload)) ∧
      messages.Holds (queue.assign (messages.tsn n k) (messages.chunk n k payload)) E
        (put (messages.slot arrived) n k (messages.chunk n k payload)) := by
  have hk := lt_count hpayload
  have hslot : messages.slot arrived n k = none := by
    by_contra hsome
    exact hnew (mem_of_slot hk hsome)
  have hfind : queue.find (messages.tsn n k) = none := by
    rw [h.find (fun n k hE hk hslot ↦ harrivals.window_of_slot hm hE hk hslot) hE hk hwindow, hslot]
  constructor
  · rw [checkAndInsertChunk, hfind]
  · intro t chunk
    rw [find_assign]
    constructor
    · split
      · rename_i heq
        rintro hsome
        exact ⟨n, k, hE, hk, heq, (put_self _).trans hsome⟩
      · rename_i hne
        intro hsome
        obtain ⟨n', k', hE', hk', rfl, hcontents⟩ := (h t chunk).mp hsome
        refine ⟨n', k', hE', hk', rfl, (put_of_ne _ ?_).trans hcontents⟩
        rintro ⟨rfl, rfl⟩
        exact hne rfl
    · rintro ⟨n', k', hE', hk', rfl, hcontents⟩
      by_cases hsame : n' = n ∧ k' = k
      · obtain ⟨rfl, rfl⟩ := hsame
        rw [put_self] at hcontents
        rw [if_pos rfl, hcontents]
      · rw [put_of_ne _ hsame] at hcontents
        have hn' := harrivals.window_of_slot hm hE' hk' (by rw [hcontents]; nofun)
        have hne : messages.tsn n' k' ≠ messages.tsn n k :=
          fun heq ↦ hsame (hn'.tsn_inj hwindow hk' hk heq)
        rw [if_neg hne]
        exact (h _ chunk).mpr ⟨n', k', hE', hk', rfl, hcontents⟩

/-- The message of the chunk before reassembly. -/
theorem Holds.find_message (k' : ℕ) (payload' : Payload)
    (hpayload' : (messages.fragments n)[k']? = some payload') :
    (queue.assign (messages.tsn n k) (messages.chunk n k payload)).find (messages.tsn n k') =
      if (n, k') ∈ (n, k) :: arrived then some (messages.chunk n k' payload') else none := by
  have hk := lt_count hpayload
  have hinsert := (Holds.insert harrivals hm h hE hwindow hnew hpayload).2
  have hincomplete : ¬messages.Complete arrived n := fun hcomplete ↦ hnew (hcomplete k hk)
  have hcontentsWindow : ∀ n' k', E ≤ n' → k' < messages.count n' →
      put (messages.slot arrived) n k (messages.chunk n k payload) n' k' ≠ none →
        messages.InWindow m n' := by
    intro n' k' hE' hk' hsome
    by_cases hsame : n' = n ∧ k' = k
    · exact hsame.1 ▸ hwindow
    · rw [put_of_ne _ hsame] at hsome
      exact harrivals.window_of_slot hm hE' hk' hsome
  rw [hinsert.find hcontentsWindow hE (lt_count hpayload') hwindow]
  by_cases hsame : k' = k
  · subst hsame
    rw [hpayload] at hpayload'
    rw [put_self, if_pos mem_cons_self, some.inj hpayload']
  · have hmem : (n, k') ∈ (n, k) :: arrived ↔ (n, k') ∈ arrived := by
      rw [mem_cons, or_iff_right fun heq ↦ hsame (Prod.mk.inj heq).2]
    rw [put_of_ne _ fun heq ↦ hsame heq.2, slot_of_not_complete hincomplete, hpayload']
    simp only [hmem, map_some]

/-- The last chunk of a message makes it one. -/
theorem Holds.reassemble_of_complete (hjoinable : messages.Joinable n)
    (hlong : 1 < messages.count n) (hcomplete : messages.Complete ((n, k) :: arrived) n) :
    ∃ t joined, reassemble (queue.assign (messages.tsn n k) (messages.chunk n k payload))
        (messages.tsn n k) = .ok (t, joined) ∧
      messages.Holds joined E (messages.slot ((n, k) :: arrived)) := by
  have hk := lt_count hpayload
  have hinsert := (Holds.insert harrivals hm h hE hwindow hnew hpayload).2
  have hmessage := Holds.find_message harrivals hm h hE hwindow hnew hpayload
  have hall : ∀ i payload', (messages.fragments n)[i]? = some payload' →
      (queue.assign (messages.tsn n k) (messages.chunk n k payload)).find (messages.tsn n i) =
        some (messages.chunk n i payload') := by
    intro i payload' hpayload'
    rw [hmessage i payload' hpayload', if_pos (hcomplete i (lt_count hpayload'))]
  obtain ⟨joined, hjoin, hfind⟩ := reassemble_of_all hjoinable hwindow.count_le hlong hk hall
  refine ⟨_, joined, hjoin, ?_⟩
  intro t chunk
  rw [hfind]
  constructor
  · split
    · rename_i hfirst
      intro hsome
      refine ⟨n, 0, hE, messages.count_pos n, hfirst, ?_⟩
      rw [slot, if_pos hcomplete, if_pos rfl, hsome]
    · split
      · nofun
      · rename_i hout
        intro hsome
        obtain ⟨n', k', hE', hk', rfl, hcontents⟩ := (hinsert t chunk).mp hsome
        have hne : n' ≠ n := by
          rintro rfl
          exact hout ⟨k', hk', rfl⟩
        rw [put_of_ne _ fun heq ↦ hne heq.1] at hcontents
        exact ⟨n', k', hE', hk', rfl, (slot_cons_of_ne hne).trans hcontents⟩
  · rintro ⟨n', k', hE', hk', rfl, hcontents⟩
    by_cases hsame : n' = n
    · subst hsame
      rw [slot, if_pos hcomplete] at hcontents
      split at hcontents
      · rename_i hzero
        rw [hzero, if_pos rfl, hcontents]
      · cases hcontents
    · rw [slot_cons_of_ne hsame] at hcontents
      have hn' := harrivals.window_of_slot hm hE' hk' (by rw [hcontents]; nofun)
      have hout : ¬∃ i < messages.count n, messages.tsn n' k' = messages.tsn n i := by
        rintro ⟨i, hi, heq⟩
        exact hsame (hn'.tsn_inj hwindow hk' hi heq).1
      have hfirst : messages.tsn n' k' ≠ messages.tsn n 0 :=
        fun heq ↦ hout ⟨0, messages.count_pos n, heq⟩
      rw [if_neg hfirst, if_neg hout]
      exact (hinsert _ chunk).mpr
        ⟨n', k', hE', hk', rfl, (put_of_ne _ fun heq ↦ hsame heq.1).trans hcontents⟩

/-- After the arrival of a chunk, with the reassembly of its message, the queue has what arrived. -/
theorem Holds.arrive (hjoinable : messages.Joinable n) :
    ∃ t reassembled,
      (if !(messages.chunk n k payload).bbit || !(messages.chunk n k payload).ebit then
          reassemble (queue.assign (messages.tsn n k) (messages.chunk n k payload))
            (messages.tsn n k)
        else .ok (messages.tsn n k,
          queue.assign (messages.tsn n k) (messages.chunk n k payload))) = .ok (t, reassembled) ∧
      messages.Holds reassembled E (messages.slot ((n, k) :: arrived)) := by
  have hk := lt_count hpayload
  have hinsert := (Holds.insert harrivals hm h hE hwindow hnew hpayload).2
  have hmessage := Holds.find_message harrivals hm h hE hwindow hnew hpayload
  by_cases hlong : 1 < messages.count n
  · have hfragment : (!(messages.chunk n k payload).bbit || !(messages.chunk n k payload).ebit) =
        true := by
      simp only [chunk, or_eq_true, not_eq_true', decide_eq_false_iff_not]
      omega
    rw [if_pos hfragment]
    by_cases hcomplete : messages.Complete ((n, k) :: arrived) n
    · exact Holds.reassemble_of_complete harrivals hm h hE hwindow hnew hpayload hjoinable hlong
        hcomplete
    · have hmissing : ∃ j < messages.count n, (n, j) ∉ (n, k) :: arrived := by
        by_contra hnone
        refine hcomplete fun j hj ↦ ?_
        by_contra hmem
        exact hnone ⟨j, hj, hmem⟩
      obtain ⟨j, hj, hmem⟩ := hmissing
      obtain ⟨payload', hpayload'⟩ := exists_payload hj
      have hpartly : messages.Partly
          (queue.assign (messages.tsn n k) (messages.chunk n k payload)) n := by
        intro i payload hpayload
        rw [hmessage i payload hpayload]
        split
        · exact .inl rfl
        · exact .inr rfl
      have hnone := hmessage j payload' hpayload'
      rw [if_neg hmem] at hnone
      have hreassemble := reassemble_of_missing hpartly hwindow.count_le hk hj hnone
      exact ⟨_, _, hreassemble,
        hinsert.congr fun _ _ _ _ ↦ slot_cons_of_not_complete hpayload hcomplete⟩
  · have hsingle : messages.count n = 1 := by
      omega
    have hwhole : ¬(!(messages.chunk n k payload).bbit || !(messages.chunk n k payload).ebit) =
        true := by
      simp only [chunk, or_eq_true, not_eq_true', decide_eq_false_iff_not]
      omega
    rw [if_neg hwhole]
    exact ⟨_, _, rfl, hinsert.congr fun _ _ _ hk' ↦ slot_cons_of_single hpayload hsingle hk'⟩

end Arrive

/-! ## Delivery -/

/-- The messages before `E` are complete and entered `deliveryQ`, the first `m` of them left it, and
`orderedQ` has what arrived of the others. -/
structure Ready (messages : UserMessages) (stream : SctpReceiveStream) (arrived : List (ℕ × ℕ))
    (m E : ℕ) : Prop where
  expected : stream.expectedStreamSeqNum = E % 65536
  le : m ≤ E
  complete : ∀ n < E, messages.Complete arrived n
  delivery : ∀ t chunk, stream.deliveryQ.find t = some chunk ↔
    ∃ n, m ≤ n ∧ n < E ∧ t = messages.tsn n 0 ∧ chunk = messages.whole n
  ordered : messages.Holds stream.orderedQ E (messages.slot arrived)
  near : ∀ n k, (n, k) ∈ arrived → n < E + 65536

variable {stream : SctpReceiveStream}

/-- A chunk in `orderedQ` that is a whole message is a complete one. -/
theorem slot_whole {chunk : SctpDataVariables} (hslot : messages.slot arrived n k = some chunk)
    (hwhole : chunk.bbit = true ∧ chunk.ebit = true) :
    messages.Complete arrived n ∧ k = 0 ∧ chunk = messages.whole n := by
  unfold slot at hslot
  split at hslot
  · rename_i hcomplete
    split at hslot
    · rename_i hzero
      exact ⟨hcomplete, hzero, (some.inj hslot).symm⟩
    · cases hslot
  · rename_i hincomplete
    split at hslot
    · rename_i hmem
      obtain ⟨payload, -, rfl⟩ := map_eq_some_iff.mp hslot
      obtain ⟨hbbit, hebit⟩ := hwhole
      simp only [UserMessages.chunk, decide_eq_true_eq] at hbbit hebit
      subst hbbit
      -- a message of one chunk is complete when the chunk is there
      refine absurd ?_ hincomplete
      intro i hi
      obtain rfl : i = 0 := by omega
      exact hmem
    · cases hslot

theorem Ready.ssn_eq (h : messages.Ready stream arrived m E)
    (hcomplete : messages.Complete arrived n) (hE : E ≤ n)
    (hssn : BitVec.ofNat 16 n = BitVec.ofNat 16 stream.expectedStreamSeqNum) : n = E := by
  have hnear := h.near n 0 (hcomplete 0 (messages.count_pos n))
  have hnat := congrArg BitVec.toNat hssn
  rw [toNat_ofNat, toNat_ofNat, h.expected] at hnat
  omega

/-- The message that is expected is found when it is complete. -/
theorem Ready.dequeue_of_complete (h : messages.Ready stream arrived m E)
    (hcomplete : messages.Complete arrived E) :
    stream.orderedQ.dequeueChunkBySSN (BitVec.ofNat 16 stream.expectedStreamSeqNum) =
      some (messages.whole E, stream.orderedQ.remove (messages.tsn E 0)) := by
  have hfind : stream.orderedQ.find (messages.tsn E 0) = some (messages.whole E) := by
    refine (h.ordered _ _).mpr ⟨E, 0, le_rfl, messages.count_pos E, rfl, ?_⟩
    rw [slot, if_pos hcomplete, if_pos rfl]
  have hssn : BitVec.ofNat 16 E = BitVec.ofNat 16 stream.expectedStreamSeqNum := by
    apply eq_of_toNat_eq
    rw [toNat_ofNat, toNat_ofNat, h.expected]
    omega
  have hwhole : ((messages.whole E).ssn == BitVec.ofNat 16 stream.expectedStreamSeqNum &&
      (messages.whole E).bbit && (messages.whole E).ebit) = true := by
    simp only [whole, Bool.and_true, beq_iff_eq]
    exact hssn
  rw [dequeueChunkBySSN, findFirst_eq_of_unique hfind hwhole]
  · rfl
  · intro t chunk hfind' hchunk
    obtain ⟨n, k, hE, hk, rfl, hslot⟩ := (h.ordered t chunk).mp hfind'
    simp only [and_eq_true, beq_iff_eq] at hchunk
    obtain ⟨hcompleteN, rfl, rfl⟩ := slot_whole hslot ⟨hchunk.1.2, hchunk.2⟩
    obtain rfl := h.ssn_eq hcompleteN hE hchunk.1.1
    rfl

theorem Ready.dequeue_of_not_complete (h : messages.Ready stream arrived m E)
    (hincomplete : ¬messages.Complete arrived E) :
    stream.orderedQ.dequeueChunkBySSN (BitVec.ofNat 16 stream.expectedStreamSeqNum) = none := by
  rw [dequeueChunkBySSN, map_eq_none_iff, findFirst_eq_none]
  intro t chunk hfind
  rw [← not_eq_true]
  intro hchunk
  obtain ⟨n, k, hE, hk, rfl, hslot⟩ := (h.ordered t chunk).mp hfind
  simp only [and_eq_true, beq_iff_eq] at hchunk
  obtain ⟨hcompleteN, rfl, rfl⟩ := slot_whole hslot ⟨hchunk.1.2, hchunk.2⟩
  obtain rfl := h.ssn_eq hcompleteN hE hchunk.1.1
  exact hincomplete hcompleteN

/-- The message that is expected moves to `deliveryQ`. -/
theorem Ready.deliver (h : messages.Ready stream arrived m E)
    (harrivals : messages.Arrivals arrived m) (hcomplete : messages.Complete arrived E) :
    ∃ delivered, stream.deliver (messages.whole E) (stream.orderedQ.remove (messages.tsn E 0)) =
        (true, delivered) ∧
      delivered.orderedQ = stream.orderedQ.remove (messages.tsn E 0) ∧
      messages.Ready delivered arrived m (E + 1) := by
  have hwindow : ∀ n, m ≤ n → messages.Complete arrived n → messages.InWindow m n :=
    fun n hm hcomplete ↦ harrivals.window n 0 (hcomplete 0 (messages.count_pos n)) hm
  have hwindowE := hwindow E h.le hcomplete
  have hfree : stream.deliveryQ.find (messages.tsn E 0) = none := by
    cases hfind : stream.deliveryQ.find (messages.tsn E 0) with
    | none => rfl
    | some chunk =>
      obtain ⟨n, hm, hlt, htsn, -⟩ := (h.delivery _ chunk).mp hfind
      have hn := hwindow n hm (h.complete n hlt)
      have heq := hwindowE.tsn_inj hn (messages.count_pos E) (messages.count_pos n) htsn
      omega
  have hinsert : stream.deliveryQ.checkAndInsertChunk (messages.whole E).tsn (messages.whole E) =
      (true, stream.deliveryQ.assign (messages.tsn E 0) (messages.whole E)) := by
    rw [checkAndInsertChunk, whole, hfree]
  have hfind : ∀ n k, E ≤ n → k < messages.count n → messages.slot arrived n k ≠ none →
      messages.InWindow m n :=
    fun n k hE hk hslot ↦ harrivals.window_of_slot h.le hE hk hslot
  rw [SctpReceiveStream.deliver, hinsert]
  refine ⟨_, rfl, rfl, ?_, le_succ_of_le h.le, ?_, ?_, ?_, ?_⟩
  · have hexpected := h.expected
    simp only
    split <;> omega
  · intro n hn
    rcases Nat.lt_succ_iff_lt_or_eq.mp hn with hlt | rfl
    · exact h.complete n hlt
    · exact hcomplete
  · intro t chunk
    rw [find_assign]
    constructor
    · split
      · rename_i heq
        intro hsome
        exact ⟨E, h.le, lt_succ_self E, heq, (some.inj hsome).symm⟩
      · intro hsome
        obtain ⟨n, hm, hlt, htsn, hchunk⟩ := (h.delivery t chunk).mp hsome
        exact ⟨n, hm, lt_succ_of_lt hlt, htsn, hchunk⟩
    · rintro ⟨n, hm, hlt, rfl, rfl⟩
      rcases Nat.lt_succ_iff_lt_or_eq.mp hlt with hlt | rfl
      · have hn := hwindow n hm (h.complete n hlt)
        have hne : messages.tsn n 0 ≠ messages.tsn E 0 := fun heq ↦ hlt.ne
          (hn.tsn_inj hwindowE (messages.count_pos n) (messages.count_pos E) heq).1
        rw [if_neg hne]
        exact (h.delivery _ _).mpr ⟨n, hm, hlt, rfl, rfl⟩
      · rw [if_pos rfl]
  · intro t chunk
    rw [find_remove]
    constructor
    · split
      · intro hnone
        cases hnone
      · rename_i hne
        intro hsome
        obtain ⟨n, k, hE, hk, rfl, hslot⟩ := (h.ordered t chunk).mp hsome
        refine ⟨n, k, ?_, hk, rfl, hslot⟩
        rcases eq_or_lt_of_le hE with rfl | hlt
        · -- of a complete message only the first TSN is in use
          rw [slot, if_pos hcomplete] at hslot
          split at hslot
          · rename_i hzero
            exact absurd (hzero ▸ rfl) hne
          · cases hslot
        · exact hlt
    · rintro ⟨n, k, hE, hk, rfl, hslot⟩
      have hn := hfind n k (le_of_succ_le hE) hk (hslot ▸ some_ne_none chunk)
      have hne : messages.tsn n k ≠ messages.tsn E 0 := by
        intro heq
        have hsame := hn.tsn_inj hwindowE hk (messages.count_pos E) heq
        omega
      rw [if_neg hne]
      exact (h.ordered _ _).mpr ⟨n, k, le_of_succ_le hE, hk, rfl, hslot⟩
  · intro n k hmem
    have hnear := h.near n k hmem
    omega

/-- The loop moves messages until the expected one is not complete. -/
theorem Ready.putInDeliveryQ {rounds : ℕ} (h : messages.Ready stream arrived m E)
    (harrivals : messages.Arrivals arrived m) (hrounds : stream.orderedQ.size < rounds) :
    ∃ delivered E', stream.putInDeliveryQ rounds = .ok delivered ∧
      messages.Ready delivered arrived m E' ∧ ¬messages.Complete arrived E' := by
  induction rounds generalizing stream E with
  | zero => exact absurd hrounds (not_lt_zero _)
  | succ rounds ih =>
    by_cases hcomplete : messages.Complete arrived E
    · obtain ⟨delivered, hdeliver, hqueue, hready⟩ := h.deliver harrivals hcomplete
      have hmem : messages.tsn E 0 ∈ stream.orderedQ := by
        refine mem_iff_find.mpr ⟨messages.whole E, ?_⟩
        refine (h.ordered _ _).mpr ⟨E, 0, le_rfl, messages.count_pos E, rfl, ?_⟩
        rw [slot, if_pos hcomplete, if_pos rfl]
      have hsize := size_remove_of_mem hmem
      rw [← hqueue] at hsize
      obtain ⟨last, E', hlast, hready', hincomplete⟩ := ih hready (by omega)
      refine ⟨last, E', ?_, hready', hincomplete⟩
      rw [SctpReceiveStream.putInDeliveryQ, h.dequeue_of_complete hcomplete]
      simp only [hdeliver]
      exact hlast
    · refine ⟨stream, E, ?_, h, hcomplete⟩
      rw [SctpReceiveStream.putInDeliveryQ, h.dequeue_of_not_complete hcomplete]

/-- With a new chunk everything moves that it makes ready. -/
theorem Ready.processDataArrived (h : messages.Ready stream arrived m E)
    (harrivals : messages.Arrivals arrived m)
    (harrivals' : messages.Arrivals ((n, k) :: arrived) m) (hnew : (n, k) ∉ arrived)
    (hpayload : (messages.fragments n)[k]? = some payload) (hnear : n < E + 65536) :
    ∃ after E', stream.processDataArrived (messages.chunk n k payload) = .ok after ∧
      messages.Ready after ((n, k) :: arrived) m E' ∧
      ¬messages.Complete ((n, k) :: arrived) E' := by
  have hE : E ≤ n := by
    by_contra hlt
    exact hnew (h.complete n (not_le.mp hlt) k (lt_count hpayload))
  have hwindow := harrivals'.window n k mem_cons_self (h.le.trans hE)
  have hjoinable := harrivals'.joinable n k mem_cons_self
  have hinsert := (Holds.insert harrivals h.le h.ordered hE hwindow hnew hpayload).1
  obtain ⟨t, orderedQ, hreassemble, hordered⟩ :=
    Holds.arrive harrivals h.le h.ordered hE hwindow hnew hpayload hjoinable
  have hready : messages.Ready { stream with orderedQ := orderedQ } ((n, k) :: arrived) m E := by
    refine ⟨h.expected, h.le, ?_, h.delivery, hordered, ?_⟩
    · intro n' hn' k' hk'
      exact mem_cons_of_mem _ (h.complete n' hn' k' hk')
    · intro n' k' hmem
      rcases mem_cons.mp hmem with heq | hmem
      · obtain ⟨rfl, rfl⟩ := Prod.mk.inj heq
        exact hnear
      · exact h.near n' k' hmem
  set delivery : ℕ := if (!(messages.chunk n k payload).bbit ||
    !(messages.chunk n k payload).ebit) = true then 3 else 1 with hdelivery
  have henqueue :
      (∀ chunk remaining delivered,
        orderedQ.dequeueChunkBySSN (BitVec.ofNat 16 stream.expectedStreamSeqNum) =
          some (chunk, remaining) → stream.deliver chunk remaining = (true, delivered) →
        stream.enqueueNewDataChunk (messages.chunk n k payload) = .ok (2, delivered)) ∧
      (orderedQ.dequeueChunkBySSN (BitVec.ofNat 16 stream.expectedStreamSeqNum) = none →
        stream.enqueueNewDataChunk (messages.chunk n k payload) =
          .ok (delivery, { stream with orderedQ := orderedQ })) := by
    have htsn : (messages.chunk n k payload).tsn = messages.tsn n k := rfl
    have hordered : ¬(!(messages.chunk n k payload).ordered) = true := false_ne_true
    rw [SctpReceiveStream.enqueueNewDataChunk, if_neg hordered]
    simp only [htsn, hinsert, if_true, ← hdelivery]
    by_cases hfragment : (!(messages.chunk n k payload).bbit ||
        !(messages.chunk n k payload).ebit) = true
    · rw [if_pos hfragment] at hreassemble ⊢
      rw [bind_of_ok hreassemble]
      constructor
      · intro chunk remaining delivered hdequeue hdeliver
        simp only [hdequeue, hdeliver]
        rfl
      · intro hdequeue
        simp only [hdequeue]
        rfl
    · rw [if_neg hfragment] at hreassemble ⊢
      rw [bind_of_ok hreassemble]
      constructor
      · intro chunk remaining delivered hdequeue hdeliver
        simp only [hdequeue, hdeliver]
        rfl
      · intro hdequeue
        simp only [hdequeue]
        rfl
  by_cases hcomplete : messages.Complete ((n, k) :: arrived) E
  · obtain ⟨delivered, hdeliver, hqueue, hready'⟩ := hready.deliver harrivals' hcomplete
    obtain ⟨after, E', hput, hready'', hincomplete'⟩ :=
      hready'.putInDeliveryQ harrivals' (lt_succ_self _)
    refine ⟨after, E', ?_, hready'', hincomplete'⟩
    have hdequeue : orderedQ.dequeueChunkBySSN (BitVec.ofNat 16 stream.expectedStreamSeqNum) =
        some (messages.whole E, orderedQ.remove (messages.tsn E 0)) :=
      hready.dequeue_of_complete hcomplete
    have hdeliver' : stream.deliver (messages.whole E) (orderedQ.remove (messages.tsn E 0)) =
        (true, delivered) := hdeliver
    rw [SctpReceiveStream.processDataArrived,
      bind_of_ok (henqueue.1 _ _ _ hdequeue hdeliver')]
    exact hput
  · have hdequeue : orderedQ.dequeueChunkBySSN (BitVec.ofNat 16 stream.expectedStreamSeqNum) =
        none := hready.dequeue_of_not_complete hcomplete
    rw [SctpReceiveStream.processDataArrived, bind_of_ok (henqueue.2 hdequeue)]
    by_cases hshort : 0 < delivery ∧ delivery < 3
    · obtain ⟨after, E', hput, hready', hincomplete'⟩ :=
        hready.putInDeliveryQ harrivals' (lt_succ_self _)
      exact ⟨after, E', (if_pos hshort).trans hput, hready', hincomplete'⟩
    · exact ⟨_, E, if_neg hshort, hready, hcomplete⟩

/-! ## Runs -/

/-- The queues of the stream, the chunks that arrived, and the messages that left `deliveryQ`. -/
structure History (messages : UserMessages) where
  stream : SctpReceiveStream := .new
  arrived : List (ℕ × ℕ) := []
  left : List SctpDataVariables := []

inductive Event
  /-- A chunk of a message arrives. -/
  | chunk (n k : ℕ)
  /-- The application takes a message. -/
  | extractMessage

/-- Chunks arrive once.  A message that arrives has its TSNs less than the ring after those of the
messages that did not leave, it does not wrap after its first chunk, and less than 65536 messages
before it are not complete.  The TSNs in `deliveryQ` do not wrap when a message leaves. -/
def Enabled (history : History messages) : Event → Prop
  | .chunk n k => k < messages.count n ∧ (n, k) ∉ history.arrived ∧
      messages.start n + messages.count n ≤ messages.start history.left.length + 2 ^ 32 ∧
      messages.Joinable n ∧ ∀ j, j + 65536 ≤ n → messages.Complete history.arrived j
  | .extractMessage => ∀ t chunk, history.stream.deliveryQ.find t = some chunk →
      messages.tsn history.left.length 0 ≤ t

def handle (history : History messages) : Event → Except Fault (History messages)
  | .chunk n k =>
    match (messages.fragments n)[k]? with
    | some payload => do
      let stream ← history.stream.processDataArrived (messages.chunk n k payload)
      return { history with stream := stream, arrived := (n, k) :: history.arrived }
    | none => .ok history
  | .extractMessage =>
    match history.stream.deliveryQ.extractMessage with
    | some (chunk, deliveryQ) => .ok { history with
        stream := { history.stream with deliveryQ := deliveryQ }
        left := history.left ++ [chunk] }
    | none => .ok history

def machine (messages : UserMessages) : Machine (History messages) Event Fault where
  Enabled := Enabled
  handle := handle

/-- The messages that left are the first ones in order, those in `deliveryQ` are the next ones, and
the message after them is not complete. -/
structure Delivered (history : History messages) (E : ℕ) : Prop where
  left : history.left = (range history.left.length).map messages.whole
  arrivals : messages.Arrivals history.arrived history.left.length
  ready : messages.Ready history.stream history.arrived history.left.length E
  incomplete : ¬messages.Complete history.arrived E

variable {history after : History messages} {event : Event}

theorem Arrivals.cons (h : messages.Arrivals arrived m) (hk : k < messages.count n)
    (hwindow : messages.start n + messages.count n ≤ messages.start m + 2 ^ 32)
    (hjoinable : messages.Joinable n) : messages.Arrivals ((n, k) :: arrived) m := by
  constructor
  · intro n' k' hmem
    rcases mem_cons.mp hmem with heq | hmem
    · obtain ⟨rfl, rfl⟩ := Prod.mk.inj heq
      exact hk
    · exact h.lt n' k' hmem
  · intro n' k' hmem hle
    rcases mem_cons.mp hmem with heq | hmem
    · obtain ⟨rfl, rfl⟩ := Prod.mk.inj heq
      exact ⟨hle, hwindow⟩
    · exact h.window n' k' hmem hle
  · intro n' k' hmem
    rcases mem_cons.mp hmem with heq | hmem
    · obtain ⟨rfl, rfl⟩ := Prod.mk.inj heq
      exact hjoinable
    · exact h.joinable n' k' hmem

/-- A message leaves `deliveryQ`. -/
theorem Delivered.extractMessage (h : Delivered history E)
    (henabled : Enabled history .extractMessage) :
    ∃ after, handle history .extractMessage = .ok after ∧ Delivered after E := by
  have hnone : history.stream.deliveryQ.extractMessage = none ↔ E ≤ history.left.length := by
    rw [SctpQueue.extractMessage, Option.map_eq_none_iff, AssocMap.findFirst_eq_none]
    constructor
    · intro hempty
      by_contra hlt
      have hfind := (h.ready.delivery (messages.tsn history.left.length 0) _).mpr
        ⟨_, le_rfl, not_le.mp hlt, rfl, rfl⟩
      cases hempty _ _ hfind
    · intro hle t chunk hfind
      obtain ⟨n, hm, hlt, -⟩ := (h.ready.delivery t chunk).mp hfind
      omega
  by_cases hempty : E ≤ history.left.length
  · refine ⟨history, ?_, h⟩
    rw [handle, hnone.mpr hempty]
  · have hm : history.left.length < E := not_le.mp hempty
    set m := history.left.length with hlength
    have hwindow : ∀ n, m ≤ n → n < E → messages.InWindow m n := fun n hle hlt ↦
      h.arrivals.window n 0 (h.ready.complete n hlt 0 (messages.count_pos n)) hle
    have hfirst : history.stream.deliveryQ.find (messages.tsn m 0) = some (messages.whole m) :=
      (h.ready.delivery _ _).mpr ⟨m, le_rfl, hm, rfl, rfl⟩
    have hextract : history.stream.deliveryQ.extractMessage =
        some (messages.whole m, history.stream.deliveryQ.remove (messages.tsn m 0)) := by
      cases hfind : history.stream.deliveryQ.findFirst BitVec.toNat fun _ ↦ true with
      | none => cases findFirst_eq_none.mp hfind _ _ hfirst
      | some entry =>
        obtain ⟨t, chunk⟩ := entry
        obtain ⟨hsome, -, hleast⟩ := findFirst_eq_some hfind
        have hle := henabled t chunk hsome
        have hge := hleast _ _ hfirst rfl
        obtain rfl : t = messages.tsn m 0 := eq_of_toNat_eq (le_antisymm hge hle)
        rw [hfirst] at hsome
        obtain rfl := some.inj hsome
        rw [SctpQueue.extractMessage, hfind]
        rfl
    have hleft : (history.left ++ [messages.whole m]).length = m + 1 := by
      rw [length_append, length_singleton]
    refine ⟨{ history with
        stream := { history.stream with
          deliveryQ := history.stream.deliveryQ.remove (messages.tsn m 0) }
        left := history.left ++ [messages.whole m] },
      by rw [handle, hextract], ?_, ?_, ?_, h.incomplete⟩
    · simp only [hleft, range_succ, map_append, map_singleton]
      rw [← h.left]
    · simp only [hleft]
      refine ⟨h.arrivals.lt, ?_, h.arrivals.joinable⟩
      intro n k hmem hle
      exact (h.arrivals.window n k hmem (le_of_succ_le hle)).mono (le_succ m) hle
    · simp only [hleft]
      refine ⟨h.ready.expected, hm, h.ready.complete, ?_, h.ready.ordered, h.ready.near⟩
      intro t chunk
      rw [find_remove]
      constructor
      · split
        · nofun
        · rename_i hne
          intro hsome
          obtain ⟨n, hle, hlt, rfl, hchunk⟩ := (h.ready.delivery t chunk).mp hsome
          refine ⟨n, ?_, hlt, rfl, hchunk⟩
          rcases eq_or_lt_of_le hle with heq | hlt
          · exact absurd (heq ▸ rfl) hne
          · exact hlt
      · rintro ⟨n, hle, hlt, rfl, hchunk⟩
        have hn := hwindow n (le_of_succ_le hle) hlt
        have hne : messages.tsn n 0 ≠ messages.tsn m 0 := by
          intro heq
          have hsame := hn.tsn_inj (hwindow m le_rfl hm) (messages.count_pos n)
            (messages.count_pos m) heq
          omega
        rw [if_neg hne]
        exact (h.ready.delivery _ _).mpr ⟨n, le_of_succ_le hle, hlt, rfl, hchunk⟩

/-- Each event is handled. -/
theorem Delivered.exists_step (h : Delivered history E) (henabled : Enabled history event) :
    ∃ after E', (machine messages).Step history event after ∧ Delivered after E' := by
  cases event with
  | chunk n k =>
    obtain ⟨hk, hnew, hwindow, hjoinable, hbefore⟩ := henabled
    obtain ⟨payload, hpayload⟩ := exists_payload hk
    have harrivals' := h.arrivals.cons hk hwindow hjoinable
    have hnear : n < E + 65536 := by
      by_contra hfar
      exact h.incomplete (hbefore E (not_lt.mp hfar))
    obtain ⟨stream, E', hprocess, hready, hincomplete⟩ :=
      h.ready.processDataArrived h.arrivals harrivals' hnew hpayload hnear
    refine ⟨{ history with stream := stream, arrived := (n, k) :: history.arrived }, E',
      ⟨⟨hk, hnew, hwindow, hjoinable, hbefore⟩, ?_⟩, h.left, harrivals', hready, hincomplete⟩
    change handle history (.chunk n k) = _
    rw [handle, hpayload]
    simp only [bind_of_ok hprocess]
    rfl
  | extractMessage =>
    obtain ⟨after, hhandle, hafter⟩ := h.extractMessage henabled
    exact ⟨after, E, ⟨henabled, hhandle⟩, hafter⟩

theorem delivered_initial : Delivered ({} : History messages) 0 := by
  refine ⟨rfl, ⟨nofun, nofun, nofun⟩, ⟨rfl, le_rfl, nofun, ?_, ?_, nofun⟩, ?_⟩
  · intro t chunk
    constructor
    · nofun
    · rintro ⟨n, -, hlt, -⟩
      exact absurd hlt (not_lt_zero n)
  · intro t chunk
    constructor
    · nofun
    · rintro ⟨n, k, -, hk, -, hslot⟩
      have hmem : (n, k) ∈ [] := mem_of_slot hk (by rw [hslot]; nofun)
      cases hmem
  · intro hcomplete
    cases hcomplete 0 (messages.count_pos 0)

/-- In every run there is a number of messages that moved to `deliveryQ`: they are complete and the
next one is not, those that left it are the first ones, in order and whole, and it has the others,
whole.  No message with the expected number can be taken from `orderedQ`, and the next event is
handled. -/
theorem delivered_of_run {events : List Event}
    (hrun : (machine messages).Run {} events history) :
    ∃ E, (∀ n < E, messages.Complete history.arrived n) ∧ ¬messages.Complete history.arrived E ∧
      history.left.length ≤ E ∧
      history.left = (range history.left.length).map messages.whole ∧
      (∀ t chunk, history.stream.deliveryQ.find t = some chunk ↔ ∃ n, history.left.length ≤ n ∧
        n < E ∧ t = messages.tsn n 0 ∧ chunk = messages.whole n) ∧
      history.stream.expectedStreamSeqNum = E % 65536 ∧
      history.stream.orderedQ.dequeueChunkBySSN
        (BitVec.ofNat 16 history.stream.expectedStreamSeqNum) = none ∧
      ∀ event, Enabled history event → ∃ after, (machine messages).Step history event after := by
  have hdelivered := hrun.invariant (P := fun history ↦ ∃ E, Delivered history E) (by
    rintro before event after ⟨E, hbefore⟩ hstep
    obtain ⟨after', E', hstep', hafter⟩ := hbefore.exists_step hstep.1
    exact ⟨E', hstep.unique hstep' ▸ hafter⟩) ⟨0, delivered_initial⟩
  obtain ⟨E, h⟩ := hdelivered
  refine ⟨E, h.ready.complete, h.incomplete, h.ready.le, h.left, h.ready.delivery,
    h.ready.expected, h.ready.dequeue_of_not_complete h.incomplete, ?_⟩
  intro event henabled
  obtain ⟨after, -, hstep, -⟩ := h.exists_step henabled
  exact ⟨after, hstep⟩

instance (n : ℕ) : Decidable (messages.Joinable n) :=
  inferInstanceAs (Decidable (_ < _))

instance (history : History messages) : DecidablePred ((machine messages).Enabled history)
  | .chunk n k => decidable_of_iff
      (k < messages.count n ∧ (n, k) ∉ history.arrived ∧
        messages.start n + messages.count n ≤ messages.start history.left.length + 2 ^ 32 ∧
        messages.Joinable n ∧ ∀ j < n + 1 - 65536, messages.Complete history.arrived j) (by
      have hiff : ∀ j, j < n + 1 - 65536 ↔ j + 65536 ≤ n := by omega
      simp only [machine, Enabled, hiff])
  | .extractMessage => decidable_of_iff
      (∀ entry ∈ history.stream.deliveryQ.entries,
        messages.tsn history.left.length 0 ≤ entry.1) (by
      simp only [machine, Enabled, find_eq_some_iff, Sigma.forall])

/-- Messages of two chunks. -/
def pairs : UserMessages where
  start n := 2 * n
  fragments n := [⟨8, [BitVec.ofNat 8 n]⟩, ⟨8, [BitVec.ofNat 8 n]⟩]
  fragments_ne_nil n := cons_ne_nil _ _
  consecutive n := by
    simp only [length_cons, length_nil]
    omega
  wellFormed n := .inr (by simp)
  short n := by simp

/-- Message 1 arrives before message 0, and then one message leaves. -/
theorem delivered_of_run_pairs :
    ∃ history, (machine pairs).Run {}
        [.chunk 1 1, .chunk 0 0, .chunk 1 0, .chunk 0 1, .extractMessage] history ∧
      history.left = [pairs.whole 0] ∧ ∃ E, history.left.length ≤ E ∧
      history.stream.expectedStreamSeqNum = E % 65536 := by
  refine Machine.exists_run_and (by decide +kernel) fun history hrun hleft ↦ ?_
  obtain ⟨E, -, -, hle, -, -, hexpected, -⟩ := delivered_of_run hrun
  exact ⟨E, hle, hexpected⟩

/-- Messages of one chunk, with as many TSNs from one to the next. -/
def spaced (distance : ℕ) (hdistance : 0 < distance) : UserMessages where
  start n := distance * n
  fragments n := [⟨8, [BitVec.ofNat 8 n]⟩]
  fragments_ne_nil n := cons_ne_nil _ _
  consecutive n := by
    rw [length_singleton, Nat.cast_one, Nat.cast_succ, Int.mul_add, Int.mul_one]
    omega
  wellFormed n := .inr (by simp)
  short n := by simp

/-- `enqueueNewDataChunk` by itself moves one message: with message 1 complete, the last chunk of
message 0 leaves message 1 in `orderedQ`, and its number is the expected one.  Message 65536 has the
number of message 0, and when it arrives first it moves to `deliveryQ` first.  A message with the
TSN of one that waits is lost. -/
theorem waits_after_enqueueNewDataChunk :
    (let chunks := [(1, 1), (1, 0), (0, 0), (0, 1)].map fun id ↦
      pairs.chunk id.1 id.2 ⟨8, [BitVec.ofNat 8 id.1]⟩
    ∃ stream, chunks.foldlM (fun stream chunk ↦ do
        let (_, stream) ← stream.enqueueNewDataChunk chunk
        return stream) SctpReceiveStream.new = Except.ok stream ∧
      stream.expectedStreamSeqNum = 1 ∧
      stream.orderedQ.find (pairs.tsn 1 0) = some (pairs.whole 1) ∧
      (pairs.whole 1).ssn = BitVec.ofNat 16 stream.expectedStreamSeqNum) ∧
    (let messages := spaced 1 one_pos
    ∃ stream, SctpReceiveStream.new.processDataArrived (messages.chunk 65536 0 ⟨8, [0]⟩) =
        .ok stream ∧
      stream.deliveryQ.extractMessage.map Prod.fst = some (messages.whole 65536)) ∧
    let messages := spaced (2 ^ 32) (Nat.two_pow_pos 32)
    ∃ stream, (do
        let stream ← SctpReceiveStream.new.processDataArrived (messages.chunk 1 0 ⟨8, [1]⟩)
        stream.processDataArrived (messages.chunk 0 0 ⟨8, [0]⟩)) = .ok stream ∧
      stream.expectedStreamSeqNum = 0 ∧ stream.deliveryQ.extractMessage = none ∧
      stream.orderedQ.find (messages.tsn 0 0) = some (messages.whole 1) := by
  refine ⟨⟨_, rfl, ?_, ?_, ?_⟩, ⟨_, rfl, ?_⟩, ⟨_, rfl, ?_, ?_, ?_⟩⟩ <;> decide +kernel

end UserMessages

end Inet4.Sctp
