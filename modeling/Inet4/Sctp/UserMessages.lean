import Inet4.Sctp.ReceiveStream
import Mathlib.Data.BitVec
import Mathlib.Data.List.GetD

/-!
# The user messages of an SCTP stream

Each message is sent in chunks with consecutive TSNs.  When all chunks of a message are in the
queue, reassembly makes one chunk of them; before that it changes nothing.
-/

namespace Inet4.Sctp

open List Nat

/-- What a chunk carries. -/
structure Payload where
  len : BitVec 32
  data : List Byte

/-- The ordered messages of a stream, the TSN of the first chunk of each, and the payload of its
chunks: either all chunks have data of their length, or none has data.  A `uint32` holds the length
in bits of the data of a message. -/
structure UserMessages where
  start : ℕ → ℤ
  fragments : ℕ → List Payload
  fragments_ne_nil : ∀ n, fragments n ≠ []
  consecutive : ∀ n, start n + (fragments n).length ≤ start (n + 1)
  wellFormed : ∀ n, (∀ payload ∈ fragments n, payload.data = []) ∨
    ∀ payload ∈ fragments n, payload.data ≠ [] ∧
      payload.len = BitVec.ofNat 32 (8 * payload.data.length)
  short : ∀ n, 8 * ((fragments n).flatMap Payload.data).length < 2 ^ 32

namespace UserMessages

variable (messages : UserMessages)

/-- The number of chunks of a message. -/
def count (n : ℕ) : ℕ := (messages.fragments n).length

/-- The TSN of a chunk of a message. -/
def tsn (n k : ℕ) : Tsn := Tsn.of (messages.start n + k)

/-- A chunk of a message. -/
def chunk (n k : ℕ) (payload : Payload) : SctpDataVariables where
  tsn := messages.tsn n k
  ssn := BitVec.ofNat 16 n
  bbit := k = 0
  ebit := k + 1 = messages.count n
  ordered := true
  len := payload.len
  data := payload.data

/-- The first chunk together with those that were added to it. -/
def joined (n k : ℕ) : SctpDataVariables where
  tsn := messages.tsn n 0
  ssn := BitVec.ofNat 16 n
  bbit := true
  ebit := messages.count n = 1
  ordered := true
  len := (((messages.fragments n).take k).map Payload.len).sum
  data := ((messages.fragments n).take k).flatMap Payload.data

/-- A whole message. -/
def whole (n : ℕ) : SctpDataVariables where
  tsn := messages.tsn n 0
  ssn := BitVec.ofNat 16 n
  bbit := true
  ebit := true
  ordered := true
  len := ((messages.fragments n).map Payload.len).sum
  data := (messages.fragments n).flatMap Payload.data

/-- The TSNs of a message do not wrap from its second chunk to the TSN after the last one. -/
def Joinable (n : ℕ) : Prop := (messages.start n + 1) % 2 ^ 32 + (messages.count n - 1 : ℕ) < 2 ^ 32

variable {messages} {n k j : ℕ} {payload : Payload} {queue : SctpQueue}

theorem count_pos (n : ℕ) : 0 < messages.count n :=
  length_pos_iff.mpr (messages.fragments_ne_nil n)

theorem exists_payload (h : k < messages.count n) :
    ∃ payload, (messages.fragments n)[k]? = some payload :=
  ⟨(messages.fragments n)[k], getElem?_eq_getElem h⟩

theorem lt_count (h : (messages.fragments n)[k]? = some payload) : k < messages.count n :=
  (List.getElem?_eq_some_iff.mp h).1

theorem tsn_succ (n k : ℕ) : messages.tsn n (k + 1) = messages.tsn n k + 1 := by
  rw [tsn, tsn, ← Tsn.of_add_one]
  push_cast
  rw [add_assoc]

/-- A message of one chunk is whole. -/
theorem chunk_eq_whole (h : messages.fragments n = [payload]) :
    messages.chunk n 0 payload = messages.whole n := by
  simp [chunk, whole, count, h]

theorem joined_count (n : ℕ) :
    { messages.joined n (messages.count n) with ebit := true } = messages.whole n := by
  simp [joined, whole, count]

theorem joined_one (h : (messages.fragments n)[0]? = some payload) :
    messages.joined n 1 = messages.chunk n 0 payload := by
  have htake : (messages.fragments n).take 1 = [payload] := by
    rw [take_add_one, h]
    rfl
  have hebit : decide (messages.count n = 1) = decide (0 + 1 = messages.count n) := by
    rw [zero_add, decide_eq_decide]
    exact eq_comm
  simp [joined, chunk, htake, hebit]

/-- The bytes from a place on are those of the fragment. -/
theorem copyData_eq {processData front written rest : List Byte} {rounds i : ℕ}
    (hwritten : written = processData.take i) (hrest : rest.length = rounds)
    (hlength : i + rounds = processData.length) :
    copyData processData front.length rounds i (front ++ written ++ rest) =
      .ok (front ++ processData) := by
  induction rounds generalizing i written rest with
  | zero =>
    have hall : processData.length ≤ i := by omega
    rw [copyData, hwritten, take_of_length_le hall, length_eq_zero_iff.mp hrest,
      append_nil]
  | succ rounds ih =>
    obtain ⟨byte, rest, rfl⟩ := exists_cons_of_length_eq_add_one hrest
    rw [length_cons, add_right_cancel_iff] at hrest
    have hi : i < processData.length := by omega
    have hwrittenLength : written.length = i := by
      rw [hwritten, length_take]
      omega
    have hbounds : i < processData.length ∧
        i + front.length < (front ++ written ++ byte :: rest).length := by
      simp only [length_append, length_cons]
      omega
    have hset : (front ++ written ++ byte :: rest).set (i + front.length)
        (processData.getD i 0) = front ++ (written ++ [processData[i]]) ++ rest := by
      have hindex : i + front.length = (front ++ written).length := by
        rw [length_append]
        omega
      rw [hindex, set_append_right _ _ le_rfl, Nat.sub_self, set_cons_zero,
        getD_eq_getElem _ _ hi]
      simp
    rw [copyData, bind_of_ok (assert_of hbounds), hset]
    refine ih ?_ hrest (by omega)
    rw [hwritten, take_add_one, getElem?_eq_getElem hi]
    rfl

theorem toNat_bytes {length : ℕ} (h : 8 * length < 2 ^ 32) :
    (BitVec.ofNat 32 (8 * length) / 8).toNat = length := by
  rw [BitVec.toNat_udiv, BitVec.toNat_ofNat, Nat.mod_eq_of_lt h]
  exact Nat.mul_div_cancel_left length (by decide)

/-- The next chunk is added to those before it. -/
theorem addFragment_eq (hk : 0 < k) (h : (messages.fragments n)[k]? = some payload) :
    addFragment (messages.joined n k) (messages.chunk n k payload) =
      .ok (messages.joined n (k + 1)) := by
  have htake : (messages.fragments n).take (k + 1) =
    (messages.fragments n).take k ++ [payload] := by
    rw [take_add_one, h]
    rfl
  have hjoined : messages.joined n (k + 1) = { messages.joined n k with
      data := (messages.joined n k).data ++ payload.data
      len := (messages.joined n k).len + payload.len } := by
    simp [joined, htake]
  have hmem : payload ∈ messages.fragments n := mem_of_getElem? h
  rcases messages.wellFormed n with hempty | hdata
  · have hnone : payload.data = [] := hempty payload hmem
    have hnot : ¬(0 < (messages.joined n k).data.length ∧
        0 < (messages.chunk n k payload).data.length) := by
      rintro ⟨-, hpos⟩
      rw [chunk, hnone] at hpos
      exact absurd hpos (lt_irrefl 0)
    rw [addFragment, if_neg hnot, hjoined, hnone, append_nil]
    rfl
  · have hlen : ∀ l : List Payload, (∀ p ∈ l, p ∈ messages.fragments n) →
        (l.map Payload.len).sum = BitVec.ofNat 32 (8 * (l.flatMap Payload.data).length) := by
      intro l hl
      induction l with
      | nil => rfl
      | cons p l ih =>
        rw [map_cons, sum_cons, flatMap_cons, length_append,
          ih fun q hq ↦ hl q (mem_cons_of_mem p hq),
          (hdata p (hl p mem_cons_self)).2, Nat.mul_add, BitVec.ofNat_add]
    have hfront : (messages.joined n k).len =
        BitVec.ofNat 32 (8 * (messages.joined n k).data.length) :=
      hlen _ fun p hp ↦ mem_of_mem_take hp
    have hfits : (messages.joined n k).data.length + payload.data.length ≤
        ((messages.fragments n).flatMap Payload.data).length := by
      have hsplit : (messages.fragments n).flatMap Payload.data =
          (messages.joined n (k + 1)).data ++
            ((messages.fragments n).drop (k + 1)).flatMap Payload.data := by
        rw [joined, ← flatMap_append, take_append_drop]
      rw [hsplit, hjoined, length_append, length_append]
      exact Nat.le_add_right _ _
    have hshort := messages.short n
    have hpositive : 0 < (messages.joined n k).data.length ∧
        0 < (messages.chunk n k payload).data.length := by
      constructor
      · obtain ⟨first, hfirst⟩ := exists_payload (messages.count_pos n)
        apply length_pos_of_ne_nil
        intro hnil
        have hmemFirst : first ∈ (messages.fragments n).take k := by
          rw [mem_iff_getElem?]
          exact ⟨0, by rw [getElem?_take_of_lt hk, hfirst]⟩
        have hfirstNil := (flatMap_eq_nil_iff.mp hnil) first hmemFirst
        exact (hdata first (mem_of_getElem? hfirst)).1 hfirstNil
      · exact length_pos_of_ne_nil (hdata payload hmem).1
    have hprocess : ((messages.chunk n k payload).len / 8).toNat = payload.data.length := by
      have hlen' : (messages.chunk n k payload).len = BitVec.ofNat 32 (8 * payload.data.length) :=
        (hdata payload hmem).2
      rw [hlen', toNat_bytes (by omega)]
    have hoffset : ((messages.joined n k).len / 8).toNat = (messages.joined n k).data.length := by
      rw [hfront, toNat_bytes (by omega)]
    have hcopy : copyData payload.data (messages.joined n k).data.length payload.data.length 0
        ((messages.joined n k).data ++ replicate payload.data.length 0) =
          .ok ((messages.joined n k).data ++ payload.data) := by
      have heq : copyData payload.data (messages.joined n k).data.length payload.data.length 0
          ((messages.joined n k).data ++ [] ++ replicate payload.data.length 0) =
            .ok ((messages.joined n k).data ++ payload.data) :=
        copyData_eq rfl length_replicate (zero_add _)
      rwa [append_nil] at heq
    rw [addFragment, if_pos hpositive, hprocess, hoffset]
    change (copyData payload.data _ _ 0 (_ ++ replicate payload.data.length 0) >>= _) = _
    rw [bind_of_ok hcopy, hjoined]
    rfl

/-- The queue has chunks of a message, and for the others it has nothing. -/
def Partly (messages : UserMessages) (queue : SctpQueue) (n : ℕ) : Prop :=
  ∀ k payload, (messages.fragments n)[k]? = some payload →
    queue.find (messages.tsn n k) = some (messages.chunk n k payload) ∨
      queue.find (messages.tsn n k) = none

/-- The way down ends at the first chunk or at a TSN that is missing. -/
theorem findBegin_eq {rounds : ℕ} (h : messages.Partly queue n) (hk : k < messages.count n)
    (hrounds : k < rounds) :
    (findBegin queue rounds (messages.tsn n k) = .ok (messages.tsn n 0) ∧
        ∀ i ≤ k, queue.find (messages.tsn n i) ≠ none) ∨
      ∃ i ≤ k, findBegin queue rounds (messages.tsn n k) = .ok (messages.tsn n i) ∧
        queue.find (messages.tsn n i) = none := by
  induction k generalizing rounds with
  | zero =>
    obtain ⟨rounds, rfl⟩ := exists_eq_add_one.mpr hrounds
    obtain ⟨payload, hpayload⟩ := exists_payload hk
    rcases h 0 payload hpayload with hfind | hfind
    · left
      refine ⟨by rw [findBegin, hfind]; rfl, ?_⟩
      intro i hi
      obtain rfl := le_zero.mp hi
      rw [hfind]
      nofun
    · exact .inr ⟨0, le_rfl, by rw [findBegin, hfind], hfind⟩
  | succ k ih =>
    obtain ⟨rounds, rfl⟩ := exists_eq_add_one.mpr (zero_lt_of_lt hrounds)
    obtain ⟨payload, hpayload⟩ := exists_payload hk
    rcases h (k + 1) payload hpayload with hfind | hfind
    · have hstep : findBegin queue (rounds + 1) (messages.tsn n (k + 1)) =
          findBegin queue rounds (messages.tsn n k) := by
        have hbbit : (messages.chunk n (k + 1) payload).bbit = false :=
          decide_eq_false (succ_ne_zero k)
        rw [findBegin, hfind]
        simp only [hbbit, tsn_succ, BitVec.add_sub_cancel]
        rfl
      rw [hstep]
      rcases ih (lt_of_succ_lt hk) (lt_of_succ_lt_succ hrounds) with
        ⟨hbegin, hall⟩ | ⟨i, hi, hbegin, hnone⟩
      · refine .inl ⟨hbegin, ?_⟩
        intro i hi
        rcases le_or_eq_of_le_succ hi with hle | rfl
        · exact hall i hle
        · rw [hfind]
          nofun
      · exact .inr ⟨i, le_succ_of_le hi, hbegin, hnone⟩
    · exact .inr ⟨k + 1, le_rfl, by rw [findBegin, hfind], hfind⟩

/-- The way up ends at the last chunk or at a TSN that is missing. -/
theorem findEnd_eq {rounds d : ℕ} (h : messages.Partly queue n) (hk : k + d + 1 = messages.count n)
    (hrounds : d < rounds) :
    (findEnd queue rounds (messages.tsn n k) = .ok (messages.tsn n (messages.count n - 1)) ∧
        ∀ i, k ≤ i → i < messages.count n → queue.find (messages.tsn n i) ≠ none) ∨
      ∃ i < messages.count n, findEnd queue rounds (messages.tsn n k) = .ok (messages.tsn n i) ∧
        queue.find (messages.tsn n i) = none := by
  induction d generalizing k rounds with
  | zero =>
    obtain ⟨rounds, rfl⟩ := exists_eq_add_one.mpr hrounds
    obtain ⟨payload, hpayload⟩ := exists_payload (by omega : k < messages.count n)
    have hlast : messages.count n - 1 = k := by omega
    rcases h k payload hpayload with hfind | hfind
    · left
      have hebit : (messages.chunk n k payload).ebit = true := decide_eq_true hk
      refine ⟨by rw [findEnd, hfind, hlast]; simp [hebit], ?_⟩
      intro i hi hlt
      obtain rfl : i = k := by omega
      rw [hfind]
      nofun
    · exact .inr ⟨k, by omega, by rw [findEnd, hfind], hfind⟩
  | succ d ih =>
    obtain ⟨rounds, rfl⟩ := exists_eq_add_one.mpr (zero_lt_of_lt hrounds)
    obtain ⟨payload, hpayload⟩ := exists_payload (by omega : k < messages.count n)
    rcases h k payload hpayload with hfind | hfind
    · have hstep : findEnd queue (rounds + 1) (messages.tsn n k) =
          findEnd queue rounds (messages.tsn n (k + 1)) := by
        have hebit : (messages.chunk n k payload).ebit = false := decide_eq_false (by omega)
        rw [findEnd, hfind, tsn_succ]
        simp only [hebit]
        rfl
      have hk' : k + 1 + d + 1 = messages.count n := by omega
      rw [hstep]
      rcases ih hk' (lt_of_succ_lt_succ hrounds) with ⟨hend, hall⟩ | hnone
      · refine .inl ⟨hend, ?_⟩
        intro i hi hlt
        rcases eq_or_lt_of_le hi with rfl | hgt
        · rw [hfind]
          nofun
        · exact hall i hgt hlt
      · exact .inr hnone
    · exact .inr ⟨k, by omega, by rw [findEnd, hfind], hfind⟩

/-- The TSNs of a message differ. -/
theorem tsn_inj (hcount : messages.count n ≤ 2 ^ 32) (hk : k < messages.count n)
    (hj : j < messages.count n) (heq : messages.tsn n k = messages.tsn n j) : k = j := by
  have hint : messages.start n + k = messages.start n + j :=
    (Tsn.of_eq_of_iff (by omega) (by omega)).mp heq
  omega

/-- The plain comparison tells the last chunk of a message that does not wrap. -/
theorem Joinable.le_iff (h : messages.Joinable n) (hk : k < messages.count n)
    (hlong : 1 < messages.count n) :
    messages.tsn n k + 1 ≤ messages.tsn n (messages.count n - 1) ↔
      k + 1 < messages.count n := by
  unfold Joinable at h
  have hnat : ∀ i, i < messages.count n → (messages.tsn n (i + 1)).toNat =
      ((messages.start n + 1) % 2 ^ 32).toNat + i := by
    intro i hi
    rw [tsn, Tsn.of, BitVec.toNat_ofInt]
    omega
  obtain ⟨last, hlast⟩ : ∃ last, messages.count n - 1 = last + 1 := ⟨messages.count n - 2, by omega⟩
  rw [← tsn_succ, BitVec.le_def, hnat k hk, hlast, hnat last (by omega)]
  omega

/-- The chunks after one of a message are taken out of the queue and added to it. -/
theorem joinFragments_eq {rounds d : ℕ} (hjoinable : messages.Joinable n)
    (hcount : messages.count n ≤ 2 ^ 32) (hlong : 1 < messages.count n)
    (hk : k + d + 1 = messages.count n) (hrounds : d < rounds)
    (hall : ∀ i payload, k < i → (messages.fragments n)[i]? = some payload →
      queue.find (messages.tsn n i) = some (messages.chunk n i payload)) :
    ∃ joined, joinFragments rounds queue (messages.tsn n k)
        (messages.tsn n (messages.count n - 1)) (messages.joined n (k + 1)) =
          .ok (joined, messages.joined n (messages.count n)) ∧
      (∀ i, k < i → i < messages.count n → joined.find (messages.tsn n i) = none) ∧
      ∀ t, (∀ i, k < i → i < messages.count n → t ≠ messages.tsn n i) →
        joined.find t = queue.find t := by
  induction d generalizing k rounds queue with
  | zero =>
    obtain ⟨rounds, rfl⟩ := exists_eq_add_one.mpr hrounds
    have hlast : k + 1 = messages.count n := hk
    have hnot : ¬messages.tsn n k + 1 ≤ messages.tsn n (messages.count n - 1) := by
      rw [hjoinable.le_iff (by omega) hlong]
      omega
    refine ⟨queue, ?_, ?_, fun _ _ ↦ rfl⟩
    · rw [joinFragments, if_neg hnot, hlast]
    · intro i hi hlt
      omega
  | succ d ih =>
    obtain ⟨rounds, rfl⟩ := exists_eq_add_one.mpr (zero_lt_of_lt hrounds)
    have hnext : k + 1 < messages.count n := by omega
    obtain ⟨payload, hpayload⟩ := exists_payload hnext
    have hle := (hjoinable.le_iff (lt_of_succ_lt hnext) hlong).mpr hnext
    have hfind := hall (k + 1) payload (lt_succ_self k) hpayload
    have hextract : queue.getAndExtractChunk (messages.tsn n k + 1) =
        .ok (messages.chunk n (k + 1) payload, queue.remove (messages.tsn n (k + 1))) := by
      rw [← tsn_succ, SctpQueue.getAndExtractChunk, hfind]
    have hremove : ∀ i payload, k + 1 < i → (messages.fragments n)[i]? = some payload →
        (queue.remove (messages.tsn n (k + 1))).find (messages.tsn n i) =
          some (messages.chunk n i payload) := by
      intro i payload hi hpayload
      have hne : messages.tsn n i ≠ messages.tsn n (k + 1) :=
        fun heq ↦ hi.ne' (tsn_inj hcount (lt_count hpayload) hnext heq)
      rw [AssocMap.find_remove, if_neg hne]
      exact hall i payload (lt_of_succ_lt hi) hpayload
    have hk' : k + 1 + d + 1 = messages.count n := by omega
    obtain ⟨joined, hjoin, hnone, hframe⟩ := ih hk' (lt_of_succ_lt_succ hrounds) hremove
    refine ⟨joined, ?_, ?_, ?_⟩
    · rw [joinFragments, if_pos hle, bind_of_ok hextract]
      simp only [bind_of_ok (addFragment_eq (succ_pos k) hpayload), ← tsn_succ]
      exact hjoin
    · intro i hi hlt
      rcases Nat.eq_or_lt_of_le hi with rfl | hgt
      · rw [hframe _ fun i hi hlt heq ↦ hi.ne (tsn_inj hcount hnext hlt heq),
          AssocMap.find_remove, if_pos rfl]
      · exact hnone i hgt hlt
    · intro t ht
      rw [hframe t fun i hi hlt ↦ ht i (lt_of_succ_lt hi) hlt, AssocMap.find_remove,
        if_neg (ht (k + 1) (lt_succ_self k) hnext)]

/-- As long as a chunk is missing the queue stays as it is. -/
theorem reassemble_of_missing (h : messages.Partly queue n) (hcount : messages.count n ≤ 2 ^ 32)
    (hk : k < messages.count n) (hj : j < messages.count n)
    (hmissing : queue.find (messages.tsn n j) = none) :
    reassemble queue (messages.tsn n k) = .ok (messages.tsn n k, queue) := by
  unfold reassemble
  rcases findBegin_eq h hk (hk.trans_le hcount) with ⟨hbegin, hdown⟩ | ⟨i, -, hbegin, hnone⟩
  · have hfirst := hdown 0 (zero_le k)
    rw [show maxRounds = 2 ^ 32 from rfl, bind_of_ok hbegin]
    obtain ⟨firstVar, hfind⟩ := Option.ne_none_iff_exists'.mp hfirst
    have hcount' : 0 + (messages.count n - 1) + 1 = messages.count n := by omega
    have hrounds : messages.count n - 1 < 2 ^ 32 := by omega
    simp only [hfind]
    rcases findEnd_eq h hcount' hrounds with ⟨-, hup⟩ | ⟨i, -, hend, hnone⟩
    · exact absurd hmissing (hup j (zero_le j) hj)
    · rw [bind_of_ok hend]
      simp only [hnone]
      rfl
  · rw [show maxRounds = 2 ^ 32 from rfl, bind_of_ok hbegin]
    simp only [hnone]
    rfl

/-- When all chunks of a message are there they become one. -/
theorem reassemble_of_all (hjoinable : messages.Joinable n) (hcount : messages.count n ≤ 2 ^ 32)
    (hlong : 1 < messages.count n) (hk : k < messages.count n)
    (hall : ∀ i payload, (messages.fragments n)[i]? = some payload →
      queue.find (messages.tsn n i) = some (messages.chunk n i payload)) :
    ∃ joined, reassemble queue (messages.tsn n k) = .ok (messages.tsn n 0, joined) ∧
      ∀ t, joined.find t = if t = messages.tsn n 0 then some (messages.whole n)
        else if ∃ i < messages.count n, t = messages.tsn n i then none else queue.find t := by
  have hpartly : messages.Partly queue n := fun i payload hpayload ↦ .inl (hall i payload hpayload)
  have hpresent : ∀ i < messages.count n, queue.find (messages.tsn n i) ≠ none := by
    intro i hi hnone
    obtain ⟨payload, hpayload⟩ := exists_payload hi
    rw [hall i payload hpayload] at hnone
    cases hnone
  obtain ⟨first, hfirst⟩ := exists_payload (messages.count_pos n)
  have hfindFirst := hall 0 first hfirst
  have hcount' : 0 + (messages.count n - 1) + 1 = messages.count n := by omega
  have hrounds : messages.count n - 1 < maxRounds := by
    unfold maxRounds
    omega
  have hbegin : findBegin queue maxRounds (messages.tsn n k) = .ok (messages.tsn n 0) := by
    rcases findBegin_eq hpartly hk (hk.trans_le hcount) with ⟨hbegin, -⟩ | ⟨i, hi, -, hnone⟩
    · exact hbegin
    · exact absurd hnone (hpresent i (hi.trans_lt hk))
  have hend : findEnd queue maxRounds (messages.tsn n 0) =
      .ok (messages.tsn n (messages.count n - 1)) := by
    rcases findEnd_eq hpartly hcount' hrounds with ⟨hend, -⟩ | ⟨i, hi, -, hnone⟩
    · exact hend
    · exact absurd hnone (hpresent i hi)
  obtain ⟨joined, hjoin, hnone, hframe⟩ := joinFragments_eq hjoinable hcount hlong hcount' hrounds
    fun i payload _ hpayload ↦ hall i payload hpayload
  rw [joined_one hfirst] at hjoin
  obtain ⟨lastVar, hfindLast⟩ :=
    Option.ne_none_iff_exists'.mp (hpresent (messages.count n - 1) (by omega))
  refine ⟨joined.assign (messages.tsn n 0) (messages.whole n), ?_, ?_⟩
  · rw [reassemble, bind_of_ok hbegin]
    simp only [hfindFirst, bind_of_ok hend, hfindLast, bind_of_ok hjoin, joined_count]
    rfl
  · intro t
    rw [AssocMap.find_assign]
    split
    · rfl
    · rename_i hne
      split
      · rename_i hin
        obtain ⟨i, hi, rfl⟩ := hin
        have hpos : 0 < i := by
          apply pos_of_ne_zero
          rintro rfl
          exact hne rfl
        exact hnone i hpos hi
      · rename_i hout
        exact hframe t fun i _ hi heq ↦ hout ⟨i, hi, heq⟩

end UserMessages

end Inet4.Sctp
