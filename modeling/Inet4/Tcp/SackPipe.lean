import Inet4.Tcp.SackRexmitQueueRuns
import Inet4.Tcp.SackScoreboard
import Mathlib.Algebra.BigOperators.Intervals
import Mathlib.Algebra.Order.BigOperators.Group.Finset

/-!
# The estimate of the bytes in the network

`setPipe` walks over the blocks of the retransmission queue and judges each of them at its first
byte. What a byte adds to the estimate depends on the flags from it on alone, and does not change
inside a block, so that the walk is the sum over the bytes, where it gets to `snd_max`.  It goes on
to the end of the block in which `snd_max` lies.
-/

namespace Inet4.Tcp

open List Finset Nat
open BitVec (ofNat ofNat_add)

namespace SackRexmitQueue

variable {q : SackRexmitQueue} {bytes rest : List Flags} {flags : Flags} {k n : ℕ}

/-! ## Blocks as runs of bytes -/

/-- The block of a byte: a run of bytes with the same flags. -/
theorem Valid.checkSackBlock_eq (h : q.Valid) (hk : k < q.byteMap.bytes.length) :
    ∃ n flags, 0 < n ∧ k + n ≤ q.byteMap.bytes.length ∧
      q.checkSackBlock (advance q.begin k) =
        .ok ⟨ofNat 32 n, flags.sacked, flags.rexmitted⟩ ∧
      q.byteMap.bytes.drop k = replicate n flags ++ q.byteMap.bytes.drop (k + n) := by
  have hbound := h.bound
  obtain ⟨i, rest, hcut⟩ := exists_cutAt h.check hk hbound
  set j : Region := (splitRegion i (advance q.begin k)).2 with hj
  have hjEq : j = { i with beginSeqNum := advance q.begin k } := by rw [hj, splitRegion_snd]
  have hpos : 0 < j.length := length_pos_of_seqLess hcut.behind.2.1
  have hbytes : q.byteMap.bytes.drop k = replicate j.length i.flags ++ bytesOf rest := by
    have hflags : j.flags = i.flags := by rw [hjEq, Region.flags, Region.flags]
    have hbehind := hcut.bytes_behind
    change j.bytes ++ bytesOf rest = _ at hbehind
    rw [bytes_mk rfl, hflags] at hbehind
    exact hbehind.symm
  have hle : k + j.length ≤ q.byteMap.bytes.length := by
    have hlength := congrArg length hbytes
    rw [length_drop, length_append, length_replicate] at hlength
    omega
  have hrange : seqLE q.begin (advance q.begin k) ∧ seqLess (advance q.begin k) q.end := by
    rw [h.end_eq, ByteMap.end]
    change _ ∧ seqLess _ (advance q.begin _)
    rw [seqLess_advance_iff (by omega) (by omega), seqLE, distance_advance_of_lt (by omega)]
    exact ⟨by omega, hk⟩
  refine ⟨j.length, i.flags, hpos, hle, ?_, ?_⟩
  · rw [checkSackBlock, bind_of_ok (assert_of hrange), hcut.regionsFrom]
    simp only [bind_of_ok (assert_of hcut.contains)]
    have hlength : i.endSeqNum - advance q.begin k = ofNat 32 j.length := by
      rw [sub_eq_ofNat, Region.length, hjEq]
    rw [hlength]
    rfl
  · have hrest : q.byteMap.bytes.drop (k + j.length) = bytesOf rest := by
      rw [← drop_drop, hbytes, drop_left' length_replicate]
    rw [hrest, hbytes]

/-- A region begins or the queue ends at the sequence number. -/
def BoundaryAt (q : SackRexmitQueue) (seqNum : SeqNum) : Prop :=
  seqNum = q.end ∨ ∃ i ∈ q.rexmitQueue, i.beginSeqNum = seqNum

instance (q : SackRexmitQueue) (seqNum : SeqNum) : Decidable (q.BoundaryAt seqNum) :=
  inferInstanceAs (Decidable (_ ∨ _))

/-- A region begins before the end. -/
theorem begin_of_mem {b e : SeqNum} {regions : List Region} {i : Region}
    (h : checkRegions b regions e) (hi : i ∈ regions) :
    ∃ m, i.beginSeqNum = advance b m ∧ m < (bytesOf regions).length := by
  induction regions generalizing b with
  | nil => cases hi
  | cons first regions ih =>
    obtain ⟨hbegin, hless, hrest⟩ := h
    have hpos := length_pos_of_seqLess hless
    rw [bytesOf_cons, length_append, length_bytes]
    rcases mem_cons.mp hi with rfl | hi
    · exact ⟨0, by rw [advance_zero, hbegin], by omega⟩
    · obtain ⟨m, hm, hlt⟩ := ih hrest hi
      refine ⟨first.length + m, ?_, by omega⟩
      rw [hm, endSeqNum_eq, advance_advance, hbegin]

/-- The next boundary behind a byte is the end of its block. -/
theorem Valid.boundaryAt_iff {block : SackBlock} {d : ℕ} (h : q.Valid)
    (hle : k + n ≤ q.byteMap.bytes.length)
    (hcheck : q.checkSackBlock (advance q.begin k) = .ok block) (hn : block.length = ofNat 32 n)
    (hkd : k < d) (hdn : d ≤ k + n) : q.BoundaryAt (advance q.begin d) ↔ d = k + n := by
  have hbound := h.bound
  obtain ⟨i, rest, j, hfrom, hsplit, hbefore, hchain, hi, hj, hjk, hkj⟩ :=
    regionsFrom_eq h.check (k := k) (show k < (bytesOf q.rexmitQueue).length by
      change k < q.byteMap.bytes.length
      omega) hbound
  have hiLength := length_lt_of_seqLess hchain.2.1
  have hend : i.endSeqNum = advance q.begin (j + i.length) := by
    rw [endSeqNum_eq, hi, advance_advance]
  have hlength : q.byteMap.bytes.length = j + (i.length + (bytesOf rest).length) := by
    change (bytesOf q.rexmitQueue).length = _
    rw [hsplit, bytesOf_append, length_append, hj, bytesOf_cons, length_append, length_bytes]
  have hblock : k + n = j + i.length := by
    obtain ⟨_, -, hcheck⟩ := bind_eq_ok hcheck
    rw [hfrom] at hcheck
    obtain ⟨_, -, hcheck⟩ := bind_eq_ok hcheck
    have hlength : i.endSeqNum - advance q.begin k = ofNat 32 n := by
      rw [← hn, ← Except.ok.inj hcheck]
    rw [sub_eq_ofNat, hend, distance_advance_advance (by omega) (by omega)] at hlength
    have htoNat := congrArg BitVec.toNat hlength
    rw [BitVec.toNat_ofNat, BitVec.toNat_ofNat, Nat.mod_eq_of_lt (by omega),
      Nat.mod_eq_of_lt (by omega)] at htoNat
    omega
  constructor
  · rintro (hlast | ⟨r, hr, hbegin⟩)
    · rw [h.end_eq, ByteMap.end] at hlast
      have hd := (advance_inj (s := q.begin) (by omega) (by omega)).mp hlast
      omega
    · rw [hsplit] at hr
      rcases mem_append.mp hr with hr | hr
      · obtain ⟨m, hm, hlt⟩ := begin_of_mem hbefore hr
        have hd := (advance_inj (s := q.begin) (by omega) (by omega)).mp (hm.symm.trans hbegin)
        omega
      · rcases mem_cons.mp hr with rfl | hr
        · have hd := (advance_inj (s := q.begin) (by omega) (by omega)).mp (hi.symm.trans hbegin)
          omega
        · obtain ⟨m, hm, hlt⟩ := begin_of_mem hchain.2.2 hr
          rw [hend, advance_advance] at hm
          have hd := (advance_inj (s := q.begin) (by omega) (by omega)).mp (hm.symm.trans hbegin)
          omega
  · rintro rfl
    rw [hblock, ← hend]
    cases rest with
    | nil => exact .inl hchain.2.2
    | cons r rest =>
      have hr : r ∈ q.rexmitQueue := by
        rw [hsplit]
        exact mem_append_right _ (mem_cons_of_mem _ mem_cons_self)
      exact .inr ⟨r, hr, hchain.2.2.1.symm⟩

/-- Behind the last byte there is no block. -/
theorem not_checkSackBlock {seqNum : SeqNum} (hend : ¬seqLess seqNum q.end) (block : SackBlock) :
    q.checkSackBlock seqNum ≠ .ok block := by
  intro hok
  obtain ⟨u, hassert, -⟩ := bind_eq_ok hok
  exact hend (of_assert hassert).2

theorem sackedRuns_le_length (prevSacked : Bool) (bytes : List Flags) :
    sackedRuns prevSacked bytes ≤ bytes.length := by
  induction bytes generalizing prevSacked with
  | nil => exact le_refl 0
  | cons flags bytes ih =>
    have hrest := ih flags.sacked
    rw [sackedRuns, length_cons]
    split <;> omega

/-- The bytes before the end of the last one with a property are those at or behind which there is
one with the property. -/
theorem lt_upToLast_iff (p : Flags → Bool) (bytes : List Flags) (k : ℕ) :
    k < upToLast p bytes ↔ (bytes.drop k).any p := by
  induction bytes using reverseRecOn with
  | nil => simp [upToLast]
  | append_singleton bytes flags ih =>
    rw [upToLast, reverse_append, reverse_singleton, singleton_append,
      dropWhile_cons, drop_append, any_append]
    cases hp : p flags with
    | true =>
      rcases lt_or_ge bytes.length k with hlt | hge
      · have hnone : [flags].drop (k - bytes.length) = [] := by
          apply drop_eq_nil_of_le
          rw [length_singleton]
          omega
        rw [hnone, drop_eq_nil_of_le (le_of_lt hlt)]
        simp only [Bool.not_true, Bool.false_eq_true, if_false, length_cons,
          length_reverse, any_nil, Bool.or_self, iff_false]
        omega
      · have hzero : k - bytes.length = 0 := by omega
        rw [hzero]
        simp only [Bool.not_true, Bool.false_eq_true, if_false, length_cons,
          length_reverse, drop_zero, any_cons, hp, Bool.true_or, Bool.or_true,
          iff_true]
        omega
    | false =>
      have hnone : ([flags].drop (k - bytes.length)).any p = false := by
        cases k - bytes.length with
        | zero => simp [hp]
        | succ m => simp
      rw [hnone, Bool.or_false]
      exact ih

theorem upToLast_le (p : Flags → Bool) (bytes : List Flags) : upToLast p bytes ≤ bytes.length := by
  by_contra hlt
  have hany := (lt_upToLast_iff p bytes bytes.length).mp (not_le.mp hlt)
  rw [drop_length] at hany
  cases hany

/-- The flags from a byte of a block on. -/
theorem drop_eq_replicate {i : ℕ} (h : bytes.drop k = replicate n flags ++ bytes.drop (k + n))
    (hki : k ≤ i) (hin : i < k + n) :
    bytes.drop i = replicate (k + n - i) flags ++ bytes.drop (k + n) := by
  rw [show i = k + (i - k) by omega, ← drop_drop, h,
    drop_append_of_le_length (by rw [length_replicate]; omega), drop_replicate]
  congr 2
  omega

theorem head?_replicate (hn : 0 < n) : (replicate n flags ++ rest).head? = some flags := by
  obtain ⟨m, rfl⟩ := Nat.exists_eq_succ_of_ne_zero (Nat.ne_of_gt hn)
  rfl

end SackRexmitQueue

open SackRexmitQueue

namespace SackSender

variable {α : Type} (s : SackSender α)

/-! ## The estimate by octets -/

/-- A byte is lost, by the flags from it on. -/
def LostBy (bytes : List Flags) : Prop :=
  DUPTHRESH ≤ sackedRuns false bytes ∨
    DUPTHRESH * s.snd_mss % 2 ^ 32 ≤ bytes.countP Flags.sacked

instance (bytes : List Flags) : Decidable (s.LostBy bytes) := inferInstanceAs (Decidable (_ ∨ _))

/-- The octet is considered lost. -/
def Lost (seqNum : SeqNum) : Prop := s.LostBy (s.rexmitQueue.byteMap.bytesFrom seqNum)

instance (seqNum : SeqNum) : Decidable (s.Lost seqNum) := inferInstanceAs (Decidable (s.LostBy _))

def SackedAt (seqNum : SeqNum) : Prop :=
  (s.rexmitQueue.byteMap.bytesFrom seqNum).head?.any Flags.sacked

instance (seqNum : SeqNum) : Decidable (s.SackedAt seqNum) :=
  inferInstanceAs (Decidable (_ = _))

/-- How many times an octet is in the network. -/
def copiesInTransit (seqNum : SeqNum) : ℕ :=
  if s.SackedAt seqNum then 0
  else (if s.Lost seqNum then 0 else 1) +
    if seqLess seqNum s.rexmitQueue.getHighestRexmittedSeqNum then 1 else 0

/-- The octets in the network, those between `snd_una` and `snd_max`. -/
def octetsInTransit : ℕ :=
  ∑ i ∈ Finset.range (distance s.snd_una s.snd_max), s.copiesInTransit (advance s.snd_una i)

/-- While something is outstanding, the queue begins with the first byte that is not acknowledged,
which lies behind `snd_una` until our SYN is acknowledged.  It may end before `snd_max`, where a FIN
was sent without data, or behind it: `retransmitOneSegment` sends what follows the bytes that it
forwards `snd_nxt` over, and leaves `snd_max` as it is. -/
structure Tracks : Prop where
  valid : s.rexmitQueue.Valid
  le_begin : s.snd_una = s.snd_max ∨ seqLE s.snd_una s.rexmitQueue.begin
  una_le : seqLE s.snd_una s.snd_max

/-- What an octet adds, by the flags from it on. -/
def copiesBy (bytes : List Flags) : ℕ :=
  if bytes.head?.any Flags.sacked then 0
  else (if s.LostBy bytes then 0 else 1) + if bytes.any Flags.rexmitted then 1 else 0

variable {s} {k n fuel : ℕ} {pipe : BitVec 32}

/-- `copiesBy` does not change inside a block. -/
theorem copiesBy_replicate (flags : Flags) (rest : List Flags) (hn : 0 < n) :
    s.copiesBy (replicate n flags ++ rest) =
      if flags.sacked then 0
      else (if s.LostBy rest then 0 else 1) +
        if flags.rexmitted || rest.any Flags.rexmitted then 1 else 0 := by
  have hany : (replicate n flags ++ rest).any Flags.rexmitted =
      (flags.rexmitted || rest.any Flags.rexmitted) := by
    rw [any_append, any_replicate, if_neg (Nat.ne_of_gt hn)]
  rw [copiesBy, head?_replicate hn, hany, Option.any_some]
  cases hsacked : flags.sacked with
  | true => rfl
  | false =>
    have hlost : s.LostBy (replicate n flags ++ rest) ↔ s.LostBy rest := by
      rw [LostBy, LostBy, sackedRuns_replicate false hn, countP_append, countP_replicate,
        hsacked]
      simp
    simp only [hlost, Bool.false_eq_true, if_false]

/-- The bytes of a block are as often in the network as its first one. -/
theorem copiesBy_block {bytes : List Flags} {flags : Flags} {i : ℕ}
    (hblock : bytes.drop k = replicate n flags ++ bytes.drop (k + n))
    (hi : i ∈ Finset.Ico k (k + n)) : s.copiesBy (bytes.drop i) = s.copiesBy (bytes.drop k) := by
  obtain ⟨hki, hin⟩ := mem_Ico.mp hi
  rw [drop_eq_replicate hblock hki hin, hblock, copiesBy_replicate flags _ (by omega),
    copiesBy_replicate flags _ (by omega)]

theorem copiesBy_le (bytes : List Flags) : s.copiesBy bytes ≤ 2 := by
  rw [copiesBy]
  split_ifs <;> decide

/-! ## The walk over the blocks -/

theorem toNat_ofNat_of_lt (hn : n < 2 ^ 32) : (ofNat 32 n).toNat = n := by
  rw [BitVec.toNat_ofNat, Nat.mod_eq_of_lt hn]

theorem isLost_eq (hsack : s.options.sack_enabled) (hvalid : s.rexmitQueue.Valid)
    (hbegin : s.rexmitQueue.begin = s.snd_una) (hk : k ≤ s.rexmitQueue.byteMap.bytes.length) :
    s.isLost (advance s.rexmitQueue.begin k) =
      .ok (decide (s.LostBy (s.rexmitQueue.byteMap.bytes.drop k))) := by
  have hbound := hvalid.bound
  have hfrom : seqLE s.rexmitQueue.begin (advance s.rexmitQueue.begin k) := by
    rw [seqLE, distance_advance_of_lt (by omega)]
    omega
  have hto : seqLE (advance s.rexmitQueue.begin k) s.rexmitQueue.end := by
    rw [hvalid.end_eq]
    exact (seqLE_advance_iff (by omega) (by omega)).mpr hk
  have hge : seqGE (advance s.rexmitQueue.begin k) s.snd_una := hbegin ▸ hfrom
  have hbytes : s.rexmitQueue.byteMap.bytesFrom (advance s.rexmitQueue.begin k) =
      s.rexmitQueue.byteMap.bytes.drop k := bytesFrom_advance (by omega)
  set bytes := s.rexmitQueue.byteMap.bytes.drop k with hdrop
  have hlength : bytes.length < 2 ^ 32 := by
    rw [hdrop, length_drop]
    omega
  have hruns : (ofNat 32 (sackedRuns false bytes)).toNat = sackedRuns false bytes :=
    toNat_ofNat_of_lt (lt_of_le_of_lt (sackedRuns_le_length false bytes) hlength)
  have hcount : (ofNat 32 (bytes.countP Flags.sacked)).toNat = bytes.countP Flags.sacked :=
    toNat_ofNat_of_lt (lt_of_le_of_lt countP_le_length hlength)
  rw [isLost, bind_of_ok (assert_of hsack), bind_of_ok (assert_of hge),
    bind_of_ok (hvalid.getNumOfDiscontiguousSacks_eq hfrom hto), hbytes, hruns]
  by_cases hmany : DUPTHRESH ≤ sackedRuns false bytes
  · have hlost : s.LostBy bytes := .inl hmany
    rw [if_pos hmany, decide_eq_true hlost]
    rfl
  · have hiff : s.LostBy bytes ↔ DUPTHRESH * s.snd_mss % 2 ^ 32 ≤ bytes.countP Flags.sacked :=
      or_iff_right hmany
    rw [if_neg hmany, bind_of_ok (hvalid.getAmountOfSackedBytes_eq hfrom hto), hbytes, hcount,
      decide_eq_decide.mpr hiff]
    rfl

theorem seqLess_highestRexmitted (hvalid : s.rexmitQueue.Valid)
    (hk : k ≤ s.rexmitQueue.byteMap.bytes.length) :
    seqLess (advance s.rexmitQueue.begin k) s.rexmitQueue.getHighestRexmittedSeqNum ↔
      (s.rexmitQueue.byteMap.bytes.drop k).any Flags.rexmitted := by
  have hbound := hvalid.bound
  have hle := upToLast_le Flags.rexmitted s.rexmitQueue.byteMap.bytes
  rw [hvalid.queries.getHighestRexmittedSeqNum, seqLess_advance_iff (by omega) (by omega),
    lt_upToLast_iff]

theorem copiesInTransit_eq (hvalid : s.rexmitQueue.Valid)
    (hk : k ≤ s.rexmitQueue.byteMap.bytes.length) :
    s.copiesInTransit (advance s.rexmitQueue.begin k) =
      s.copiesBy (s.rexmitQueue.byteMap.bytes.drop k) := by
  have hbound := hvalid.bound
  have hbytes : s.rexmitQueue.byteMap.bytesFrom (advance s.rexmitQueue.begin k) =
      s.rexmitQueue.byteMap.bytes.drop k := bytesFrom_advance (by omega)
  simp only [copiesInTransit, copiesBy, SackedAt, Lost, hbytes, seqLess_highestRexmitted hvalid hk]

/-- The walk adds a block and goes on behind it. -/
theorem addBlocks_succ (fuel : ℕ) (pipe : BitVec 32) (hsack : s.options.sack_enabled)
    (hvalid : s.rexmitQueue.Valid) (hbegin : s.rexmitQueue.begin = s.snd_una)
    (hk : k < s.rexmitQueue.byteMap.bytes.length)
    (hless : seqLess (advance s.rexmitQueue.begin k) s.snd_max) :
    ∃ n, 0 < n ∧ k + n ≤ s.rexmitQueue.byteMap.bytes.length ∧
      s.addBlocks s.rexmitQueue.getHighestRexmittedSeqNum (fuel + 1)
          (advance s.rexmitQueue.begin k) pipe =
        s.addBlocks s.rexmitQueue.getHighestRexmittedSeqNum fuel
          (advance s.rexmitQueue.begin (k + n))
          (pipe + ofNat 32 (∑ i ∈ Finset.Ico k (k + n),
            s.copiesBy (s.rexmitQueue.byteMap.bytes.drop i))) ∧
      (∀ i ∈ Finset.Ico k (k + n), s.copiesBy (s.rexmitQueue.byteMap.bytes.drop i) =
        s.copiesBy (s.rexmitQueue.byteMap.bytes.drop k)) ∧
      ∀ d, k < d → d ≤ k + n →
        (s.rexmitQueue.BoundaryAt (advance s.rexmitQueue.begin d) ↔ d = k + n) := by
  obtain ⟨n, flags, hn, hle, hcheck, hblock⟩ := hvalid.checkSackBlock_eq hk
  refine ⟨n, hn, hle, ?_, fun i ↦ copiesBy_block hblock,
    fun d hkd hdn ↦ hvalid.boundaryAt_iff hle hcheck rfl hkd hdn⟩
  have hnext : advance s.rexmitQueue.begin k + ofNat 32 n =
      advance s.rexmitQueue.begin (k + n) := advance_advance _ _ _
  rw [Finset.sum_const_nat fun i ↦ copiesBy_block hblock, Nat.card_Ico, Nat.add_sub_cancel_left,
    addBlocks, if_pos hless, bind_of_ok hcheck]
  have hadd : s.addBlock s.rexmitQueue.getHighestRexmittedSeqNum (advance s.rexmitQueue.begin k)
        ⟨ofNat 32 n, flags.sacked, flags.rexmitted⟩ pipe =
      .ok (pipe + ofNat 32 (n * s.copiesBy (s.rexmitQueue.byteMap.bytes.drop k))) := by
    have hhead : (s.rexmitQueue.byteMap.bytes.drop k).head?.any Flags.sacked = flags.sacked := by
      rw [hblock, head?_replicate hn, Option.any_some]
    rw [copiesBy, hhead, addBlock]
    cases flags.sacked with
    | true => simp
    | false =>
      rw [if_neg Bool.false_ne_true, if_neg Bool.false_ne_true,
        bind_of_ok (isLost_eq hsack hvalid hbegin (le_of_lt hk))]
      apply congrArg Except.ok
      simp only [seqLess_highestRexmitted hvalid (le_of_lt hk), decide_eq_true_iff]
      split_ifs
      · rw [zero_add, mul_one]
      · rw [mul_add, mul_one, ofNat_add, BitVec.add_assoc]
      · rw [add_zero, mul_zero]
        exact (BitVec.add_zero pipe).symm
      · rw [add_zero, mul_one]
  rw [bind_of_ok hadd, hnext]

section Walk

variable {d : ℕ} (hsack : s.options.sack_enabled) (hvalid : s.rexmitQueue.Valid)
variable (hbegin : s.rexmitQueue.begin = s.snd_una)
variable (hmax : s.snd_max = advance s.rexmitQueue.begin d) (hd : d < 2 ^ 31)
include hsack hvalid hbegin hmax hd

/-- Where the queue gets to `snd_max`, the walk adds the bytes one by one, up to the end of the
block of the last byte before `snd_max`. -/
theorem addBlocks_of_le (pipe : BitVec 32) (hle : d ≤ s.rexmitQueue.byteMap.bytes.length)
    (hk : k < d) (hfuel : d - k < fuel) :
    ∃ m, d ≤ m ∧ m ≤ s.rexmitQueue.byteMap.bytes.length ∧
      s.addBlocks s.rexmitQueue.getHighestRexmittedSeqNum fuel
        (advance s.rexmitQueue.begin k) pipe =
        .ok (pipe + ofNat 32 (∑ i ∈ Finset.Ico k m,
          s.copiesBy (s.rexmitQueue.byteMap.bytes.drop i))) ∧
      (∀ i ∈ Finset.Ico d m, s.copiesBy (s.rexmitQueue.byteMap.bytes.drop i) =
        s.copiesBy (s.rexmitQueue.byteMap.bytes.drop (d - 1))) ∧
      (s.rexmitQueue.BoundaryAt s.snd_max ↔ m = d) := by
  have hbound := hvalid.bound
  have hless (k : ℕ) (hk : k ≤ s.rexmitQueue.byteMap.bytes.length) :
      seqLess (advance s.rexmitQueue.begin k) s.snd_max ↔ k < d := by
    rw [hmax]
    exact seqLess_advance_iff (by omega) (by omega)
  induction fuel generalizing k pipe with
  | zero => exact absurd hfuel (not_lt_zero _)
  | succ fuel ih =>
    obtain ⟨n, hn, hnext, hstep, hconstant, hboundary⟩ :=
      addBlocks_succ fuel pipe hsack hvalid hbegin (by omega) ((hless k (by omega)).mpr hk)
    rw [hstep]
    by_cases hgo : k + n < d
    · obtain ⟨m, hdm, hm, hwalk, htail, hend⟩ := ih (pipe + ofNat 32 (∑ i ∈ Finset.Ico k (k + n),
        s.copiesBy (s.rexmitQueue.byteMap.bytes.drop i))) hgo (by omega)
      refine ⟨m, hdm, hm, ?_, htail, hend⟩
      rw [hwalk, BitVec.add_assoc, ← ofNat_add,
        sum_Ico_consecutive _ (le_add_right k n) (by omega)]
    · -- the block contains the last byte before `snd_max`
      obtain ⟨fuel, rfl⟩ := Nat.exists_eq_add_one_of_ne_zero (show fuel ≠ 0 by omega)
      refine ⟨k + n, by omega, hnext, ?_, ?_, ?_⟩
      · rw [addBlocks, if_neg (mt (hless _ hnext).mp hgo)]
      · intro i hi
        obtain ⟨hdi, hin⟩ := mem_Ico.mp hi
        rw [hconstant i (mem_Ico.mpr ⟨by omega, hin⟩),
          hconstant (d - 1) (mem_Ico.mpr ⟨by omega, by omega⟩)]
      · rw [hmax, hboundary d hk (by omega)]
        exact eq_comm

/-- Where the queue ends before `snd_max`, the walk comes to its end. -/
theorem not_addBlocks_of_lt (hlt : s.rexmitQueue.byteMap.bytes.length < d)
    (hk : k ≤ s.rexmitQueue.byteMap.bytes.length) (result : BitVec 32) :
    s.addBlocks s.rexmitQueue.getHighestRexmittedSeqNum fuel (advance s.rexmitQueue.begin k) pipe ≠
      .ok result := by
  have hbound := hvalid.bound
  induction fuel generalizing k pipe with
  | zero =>
    intro hok
    cases hok
  | succ fuel ih =>
    have hless : seqLess (advance s.rexmitQueue.begin k) s.snd_max := by
      rw [hmax]
      exact (seqLess_advance_iff (by omega) (by omega)).mpr (by omega)
    rcases Nat.lt_or_eq_of_le hk with hk | rfl
    · obtain ⟨n, hn, hnext, hstep, -⟩ := addBlocks_succ fuel pipe hsack hvalid hbegin hk hless
      rw [hstep]
      exact ih hnext
    · intro hok
      rw [addBlocks, if_pos hless] at hok
      obtain ⟨block, hblock, -⟩ := bind_eq_ok hok
      have hnot : ¬seqLess (advance s.rexmitQueue.begin s.rexmitQueue.byteMap.bytes.length)
          s.rexmitQueue.end := by
        rw [hvalid.end_eq]
        exact fun hself ↦ hself.1 rfl
      exact not_checkSackBlock hnot block hblock

end Walk

/-- The sum over the octets from `snd_una` on, where the queue gets to `snd_max`. -/
theorem octetsInTransit_eq (hvalid : s.rexmitQueue.Valid)
    (hbegin : s.rexmitQueue.begin = s.snd_una)
    (hle : distance s.snd_una s.snd_max ≤ s.rexmitQueue.byteMap.bytes.length) :
    s.octetsInTransit = ∑ i ∈ Finset.Ico 0 (distance s.snd_una s.snd_max),
      s.copiesBy (s.rexmitQueue.byteMap.bytes.drop i) := by
  rw [octetsInTransit, range_eq_Ico]
  apply sum_congr rfl
  intro i hi
  have hlt := (mem_Ico.mp hi).2
  rw [← hbegin, copiesInTransit_eq hvalid (by omega)]

theorem setPipe_of_addBlocks (hsack : s.options.sack_enabled)
    (hok : s.addBlocks s.rexmitQueue.getHighestRexmittedSeqNum
      (distance s.snd_una s.snd_max + 1) s.snd_una 0 = .ok pipe) :
    s.setPipe = .ok { s with highRxt := s.rexmitQueue.getHighestRexmittedSeqNum, pipe } := by
  rw [setPipe, bind_of_ok (assert_of hsack)]
  simp only [bind_of_ok hok]
  rfl

/-- What `setPipe` counts where the queue gets to `snd_max`: the octets in the network, and those
from `snd_max` on that are in the same block as the last octet before it. -/
theorem setPipe_of_le (hsack : s.options.sack_enabled) (hvalid : s.rexmitQueue.Valid)
    (hbegin : s.rexmitQueue.begin = s.snd_una) (hmax : seqLess s.snd_una s.snd_max)
    (hle : distance s.snd_una s.snd_max ≤ s.rexmitQueue.byteMap.bytes.length) :
    ∃ t beyond, s.setPipe = .ok t ∧
      t.pipe.toNat = s.octetsInTransit + beyond * s.copiesInTransit (s.snd_max - 1) ∧
      (s.rexmitQueue.BoundaryAt s.snd_max ↔ beyond = 0) := by
  set d := distance s.snd_una s.snd_max with hd
  have hbound := hvalid.bound
  have hpos : 0 < d := by
    apply Nat.pos_of_ne_zero
    intro hzero
    have heq := advance_distance s.snd_una s.snd_max
    rw [← hd, hzero, advance_zero] at heq
    exact hmax.1 heq
  have hmaxEq : s.snd_max = advance s.rexmitQueue.begin d := by rw [hbegin, hd, advance_distance]
  have hstart : advance s.rexmitQueue.begin 0 = s.snd_una := by rw [advance_zero, hbegin]
  have hlast : s.snd_max - 1 = advance s.rexmitQueue.begin (d - 1) := by
    have hone : s.snd_max = advance s.rexmitQueue.begin (d - 1) + 1 := by
      rw [hmaxEq]
      have hsplit := advance_advance s.rexmitQueue.begin (d - 1) 1
      rw [Nat.sub_add_cancel hpos] at hsplit
      exact hsplit.symm
    rw [hone, BitVec.add_sub_cancel]
  obtain ⟨m, hdm, hm, hwalk, htail, hboundary⟩ := addBlocks_of_le hsack hvalid hbegin hmaxEq
    (by omega) 0 hle hpos (Nat.lt_succ_self _)
  have hsum : ∑ i ∈ Finset.Ico 0 m, s.copiesBy (s.rexmitQueue.byteMap.bytes.drop i) =
      s.octetsInTransit + (m - d) * s.copiesInTransit (s.snd_max - 1) := by
    rw [← sum_Ico_consecutive _ (Nat.zero_le d) hdm, octetsInTransit_eq hvalid hbegin hle,
      Finset.sum_const_nat htail, Nat.card_Ico, hlast, copiesInTransit_eq hvalid (by omega)]
  have hlt : ∑ i ∈ Finset.Ico 0 m, s.copiesBy (s.rexmitQueue.byteMap.bytes.drop i) < 2 ^ 32 := by
    have hcard : ∑ i ∈ Finset.Ico 0 m, s.copiesBy (s.rexmitQueue.byteMap.bytes.drop i) ≤
        (Finset.Ico 0 m).card * 2 := sum_le_card_nsmul _ _ 2 fun i _ ↦ copiesBy_le _
    rw [Nat.card_Ico] at hcard
    omega
  rw [hstart, Nat.sub_zero, zero_add_ofNat] at hwalk
  refine ⟨_, m - d, setPipe_of_addBlocks hsack hwalk, ?_, ?_⟩
  · rw [← hsum]
    exact toNat_ofNat_of_lt hlt
  · rw [hboundary]
    omega

/-- `setPipe` returns and counts the octets in the network if and only if nothing is outstanding, or
the queue begins at `snd_una` and gets to `snd_max`, and the block of the last octet before
`snd_max` ends there or is not in the network. -/
theorem setPipe_iff (hsack : s.options.sack_enabled) (h : s.Tracks) :
    (∃ t, s.setPipe = .ok t ∧ t.pipe.toNat = s.octetsInTransit) ↔
      s.snd_una = s.snd_max ∨
        s.rexmitQueue.begin = s.snd_una ∧ seqLE s.snd_max s.rexmitQueue.end ∧
          (s.rexmitQueue.BoundaryAt s.snd_max ∨ s.copiesInTransit (s.snd_max - 1) = 0) := by
  by_cases hall : s.snd_una = s.snd_max
  · have hdistance : distance s.snd_una s.snd_max = 0 := by rw [hall, distance_self]
    have hnone : s.octetsInTransit = 0 := by
      rw [octetsInTransit, hdistance, Finset.range_zero, Finset.sum_empty]
    have hstop : ¬seqLess s.snd_una s.snd_max := fun hless ↦ hless.1 hall
    have hblocks : s.addBlocks s.rexmitQueue.getHighestRexmittedSeqNum
        (distance s.snd_una s.snd_max + 1) s.snd_una 0 = .ok 0 := by
      rw [hdistance, addBlocks, if_neg hstop]
    exact iff_of_true ⟨_, setPipe_of_addBlocks hsack hblocks, hnone.symm⟩ (.inl hall)
  rw [or_iff_right hall]
  by_cases hbegin : s.rexmitQueue.begin = s.snd_una
  · rw [and_iff_right hbegin]
    have hbound := h.valid.bound
    have hd : distance s.snd_una s.snd_max < 2 ^ 31 := h.una_le
    have hmax : s.snd_max = advance s.rexmitQueue.begin (distance s.snd_una s.snd_max) := by
      rw [hbegin, advance_distance]
    set d := distance s.snd_una s.snd_max with hdEq
    have hreach : seqLE s.snd_max s.rexmitQueue.end ↔ d ≤ s.rexmitQueue.byteMap.bytes.length := by
      rw [h.valid.end_eq, hmax]
      exact seqLE_advance_iff (by omega) (by omega)
    rw [hreach]
    by_cases hle : d ≤ s.rexmitQueue.byteMap.bytes.length
    · obtain ⟨t, beyond, hok, hpipe, hboundary⟩ :=
        setPipe_of_le hsack h.valid hbegin ⟨hall, h.una_le⟩ hle
      rw [and_iff_right hle, hboundary, ← Nat.mul_eq_zero]
      constructor
      · rintro ⟨t', hok', hoctets⟩
        obtain rfl := Except.ok.inj (hok.symm.trans hok')
        omega
      · intro hzero
        exact ⟨t, hok, by omega⟩
    · refine iff_of_false ?_ fun hcontra ↦ hle hcontra.1
      rintro ⟨t, hok, -⟩
      rw [setPipe, bind_of_ok (assert_of hsack)] at hok
      obtain ⟨pipe, hpipe, -⟩ := bind_eq_ok hok
      rw [← hbegin, ← advance_zero s.rexmitQueue.begin] at hpipe
      exact not_addBlocks_of_lt hsack h.valid hbegin hmax hd (not_le.mp hle)
        (Nat.zero_le _) pipe hpipe
  · -- the walk starts before the queue
    refine iff_of_false ?_ fun hcontra ↦ hbegin hcontra.1
    rintro ⟨t, hok, -⟩
    rw [setPipe, bind_of_ok (assert_of hsack)] at hok
    obtain ⟨pipe, hpipe, -⟩ := bind_eq_ok hok
    rw [addBlocks, if_pos ⟨hall, h.una_le⟩] at hpipe
    obtain ⟨block, hblock, -⟩ := bind_eq_ok hpipe
    obtain ⟨_, hrange, -⟩ := bind_eq_ok hblock
    have hle : seqLE s.snd_una s.rexmitQueue.begin := h.le_begin.resolve_left hall
    have hge : seqLE s.rexmitQueue.begin s.snd_una := (of_assert hrange).1
    exact hbegin (seqLE_antisymm hge hle)

/-- Four bytes are to be sent. -/
def established : SackSender ℕ where
  snd_mss := 2
  snd_una := 10
  snd_nxt := 10
  snd_max := 10
  snd_wnd := 20
  send_fin := false
  snd_fin_seq := 0
  sentBytes := 0
  afterRto := false
  options := ⟨.established, false, true, false, false, 0⟩
  sendQueue := ⟨10, 14, [1, 2, 3, 4]⟩
  rexmitQueue := ⟨[], 10, 10⟩
  sent := []
  highRxt := 10
  pipe := 0
  rcv_sacks := 0
  sackedBytes_old := 0
  sackedBytes := 0

/-- They are sent. -/
def dataSent : SackSender ℕ :=
  { established with
    snd_nxt := 14, snd_max := 14, sentBytes := 2
    rexmitQueue := ⟨[⟨10, 12, false, false⟩, ⟨12, 14, false, false⟩], 10, 14⟩
    sent := [⟨10, [1, 2], false⟩, ⟨12, [3, 4], false⟩] }

/-- The connection is closed then, and the FIN is sent alone. -/
def finSent : SackSender ℕ :=
  { dataSent with
    snd_nxt := 15, snd_max := 15, send_fin := true, snd_fin_seq := 14
    sent := dataSent.sent ++ [⟨14, [], true⟩] }

/-- After a timeout, a segment of new data was sent in answer to an acknowledgement that sacked all
that was sent. -/
def sentBeyond : SackSender ℕ :=
  { dataSent with
    snd_nxt := 16, afterRto := true
    sendQueue := ⟨10, 16, [1, 2, 3, 4, 5, 6]⟩
    rexmitQueue := ⟨[⟨10, 12, false, true⟩, ⟨12, 14, true, false⟩, ⟨14, 16, false, false⟩], 10,
    16⟩ }

theorem setPipe_iff_sentBeyond :
    (∃ t, sentBeyond.setPipe = .ok t ∧ t.pipe.toNat = sentBeyond.octetsInTransit) ↔
      sentBeyond.snd_una = sentBeyond.snd_max ∨
        sentBeyond.rexmitQueue.begin = sentBeyond.snd_una ∧
          seqLE sentBeyond.snd_max sentBeyond.rexmitQueue.end ∧
          (sentBeyond.rexmitQueue.BoundaryAt sentBeyond.snd_max ∨
            sentBeyond.copiesInTransit (sentBeyond.snd_max - 1) = 0) :=
  setPipe_iff (by decide) ⟨⟨by decide, by decide⟩, .inr (by decide), by decide⟩

/-- The walk goes on to the FIN, which is not in the queue. -/
theorem not_setPipe_finSent :
    (established.toSender.sendSegment 2 >>= fun s ↦ s.sendSegment 2) =
        .ok { dataSent.toSender with snd_max := 10 } ∧
      Sender.withMax { dataSent.toSender with snd_max := 10 } = dataSent.toSender ∧
      dataSent.toSender.process_CLOSE = finSent.toSender ∧
      ¬∃ t, finSent.setPipe = .ok t ∧ t.pipe.toNat = finSent.octetsInTransit := by
  refine ⟨by decide +kernel, by decide, by decide, ?_⟩
  rintro ⟨t, hok, -⟩
  have herror : finSent.setPipe = .error .runtimeError := by decide +kernel
  rw [herror] at hok
  cases hok

end SackSender

end Inet4.Tcp
