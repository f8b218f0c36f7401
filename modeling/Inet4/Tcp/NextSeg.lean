import Inet4.Tcp.SackPipe

/-!
# What is sent next during loss recovery

The octets between `snd_una` and `snd_max` are numbered from `snd_una` on.  The loops of `nextSeg`
stop at the first octet that is not sacked, from the end of the highest region on that was sent
again.  A byte that is not lost has no lost byte behind it, so that this octet decides rule (1) as
well.
-/

namespace Inet4.Tcp.SackSender

open SackRexmitQueue Flags Nat

variable {α : Type} (s : SackSender α)

/-- The queue covers what lies between `snd_una` and `snd_max`. -/
structure Covers : Prop where
  valid : s.rexmitQueue.Valid
  begin_eq : s.rexmitQueue.begin = s.snd_una
  end_eq : s.rexmitQueue.end = s.snd_max

/-- An octet that is not sacked, at or above the end of the highest region that was sent again and
below the highest sacked one. -/
structure Candidate (k : ℕ) : Prop where
  lt_max : k < distance s.snd_una s.snd_max
  not_sacked : ¬s.SackedAt (advance s.snd_una k)
  highRxt_le : seqLE s.rexmitQueue.getHighestRexmittedSeqNum (advance s.snd_una k)
  lt_sacked : seqLess (advance s.snd_una k) s.rexmitQueue.getHighestSackedSeqNum

/-- A candidate that is considered lost. -/
def LostCandidate (k : ℕ) : Prop := s.Candidate k ∧ s.Lost (advance s.snd_una k)

/-- There is unsent data, and the receiver has room for a segment beyond the bytes in the
network. -/
def RoomForUnsent : Prop :=
  0 < s.sendQueue.getBytesAvailable s.snd_max ∧ s.pipe.toNat + s.snd_mss ≤ s.snd_wnd

/-- The smallest octet with a property, if there is one. -/
def IsFirst (p : ℕ → Prop) : Option SeqNum → Prop
  | none => ∀ k, ¬p k
  | some seqNum => ∃ k, seqNum = advance s.snd_una k ∧ IsLeast {k | p k} k

/-- The rules in their order. -/
inductive FollowsRules : Option SeqNum → Prop
  | lost {seqNum : SeqNum} (hfirst : s.IsFirst s.LostCandidate (some seqNum)) :
      FollowsRules (some seqNum)
  | unsent (hnone : ∀ k, ¬s.LostCandidate k) (hroom : s.RoomForUnsent) :
      FollowsRules (some s.snd_max)
  | unsacked {result : Option SeqNum} (hnone : ∀ k, ¬s.LostCandidate k) (hroom : ¬s.RoomForUnsent)
      (hfirst : s.IsFirst s.Candidate result) : FollowsRules result

variable {s} {p p' : ℕ → Prop} {result : Option SeqNum} {bytes : List Flags} {flags : Flags}
variable {i j k fuel : ℕ}

theorem isFirst_congr (h : ∀ k, p k ↔ p' k) : s.IsFirst p result ↔ s.IsFirst p' result := by
  have heq : p = p' := funext fun k ↦ propext (h k)
  rw [heq]

theorem sackedRuns_false_le (bytes : List Flags) :
    sackedRuns false bytes ≤ 1 + sackedRuns true bytes := by
  cases bytes with
  | nil => exact zero_le 1
  | cons flags bytes =>
    rw [sackedRuns, sackedRuns]
    cases flags.sacked <;> simp

theorem LostBy.cons (h : s.LostBy bytes) : s.LostBy (flags :: bytes) := by
  have hle := sackedRuns_false_le bytes
  rcases h with hruns | hcount
  · left
    rw [sackedRuns]
    cases flags.sacked with
    | false => simpa using hruns
    | true => simpa using le_trans hruns hle
  · right
    rw [List.countP_cons]
    exact le_add_right_of_le hcount

/-- A byte before a lost one is lost. -/
theorem LostBy.of_le (hij : i ≤ j) (h : s.LostBy (bytes.drop j)) : s.LostBy (bytes.drop i) := by
  induction hij using decreasingInduction with
  | self => exact h
  | of_succ i _ ih =>
    rcases lt_or_ge i bytes.length with hlt | hge
    · rw [List.drop_eq_getElem_cons hlt]
      exact ih.cons
    · rw [List.drop_eq_nil_of_le (by omega)] at ih
      rw [List.drop_eq_nil_of_le hge]
      exact ih

/-- An octet below the highest sacked one that is not sacked, by its place in the queue. -/
def Open (s : SackSender α) (k : ℕ) : Prop :=
  (s.rexmitQueue.byteMap.bytes.drop k).any sacked ∧
    ¬(s.rexmitQueue.byteMap.bytes.drop k).head?.any sacked

theorem Open.lt_length (h : s.Open k) : k < s.rexmitQueue.byteMap.bytes.length := by
  by_contra hge
  have hany := h.1
  rw [List.drop_eq_nil_of_le (Nat.le_of_not_lt hge)] at hany
  cases hany

theorem seqLess_highestSacked (hvalid : s.rexmitQueue.Valid)
    (hk : k ≤ s.rexmitQueue.byteMap.bytes.length) :
    seqLess (advance s.rexmitQueue.begin k) s.rexmitQueue.getHighestSackedSeqNum ↔
      (s.rexmitQueue.byteMap.bytes.drop k).any sacked := by
  have hbound := hvalid.bound
  have hle := upToLast_le sacked s.rexmitQueue.byteMap.bytes
  rw [hvalid.queries.getHighestSackedSeqNum, seqLess_advance_iff (by omega) (by omega),
    lt_upToLast_iff]

/-- The loops find the first octet below the highest sacked one that is not sacked. -/
theorem exists_firstUnsacked (h : s.Covers) (hk : k ≤ s.rexmitQueue.byteMap.bytes.length)
    (hfuel : s.rexmitQueue.byteMap.bytes.length - k < fuel) :
    ∃ result, s.firstUnsacked s.rexmitQueue.getHighestSackedSeqNum fuel
        (advance s.rexmitQueue.begin k) = .ok result ∧
      s.IsFirst (fun i ↦ k ≤ i ∧ s.Open i) result := by
  have hbound := h.valid.bound
  induction fuel generalizing k with
  | zero => exact absurd hfuel (not_lt_zero _)
  | succ fuel ih =>
    have hless : seqLess (advance s.rexmitQueue.begin k) s.snd_max ↔
        k < s.rexmitQueue.byteMap.bytes.length := by
      rw [← h.end_eq, h.valid.end_eq]
      exact seqLess_advance_iff (by omega) (by omega)
    have hsacked := seqLess_highestSacked h.valid hk
    rw [firstUnsacked]
    by_cases hany : (s.rexmitQueue.byteMap.bytes.drop k).any sacked
    · have hlt : k < s.rexmitQueue.byteMap.bytes.length := by
        by_contra hge
        rw [List.drop_eq_nil_of_le (Nat.le_of_not_lt hge)] at hany
        cases hany
      obtain ⟨n, flags, hn, hle, hcheck, hblock⟩ := h.valid.checkSackBlock_eq hlt
      rw [if_pos ⟨hless.mpr hlt, hsacked.mpr hany⟩, bind_of_ok hcheck]
      cases hflags : flags.sacked with
      | true =>
        -- the octets of the block are sacked
        obtain ⟨result, hok, hfirst⟩ := ih hle (by omega)
        refine ⟨result, ?_, (isFirst_congr fun i ↦ ?_).mp hfirst⟩
        · rw [advance, BitVec.ofNat_add, ← BitVec.add_assoc] at hok
          exact hok
        · constructor
          · exact fun hopen ↦ ⟨by omega, hopen.2⟩
          · rintro ⟨hki, hopen⟩
            refine ⟨?_, hopen⟩
            by_contra hin
            apply hopen.2
            rw [drop_eq_replicate hblock hki (Nat.lt_of_not_le hin), head?_replicate (by omega)]
            exact hflags
      | false =>
        refine ⟨some (advance s.rexmitQueue.begin k), rfl, k, by rw [h.begin_eq], ?_, ?_⟩
        · refine ⟨le_refl k, hany, ?_⟩
          rw [hblock, head?_replicate hn, Option.any_some, hflags]
          exact Bool.false_ne_true
        · exact fun i hi ↦ hi.1
    · have hstop : ¬(seqLess (advance s.rexmitQueue.begin k) s.snd_max ∧
          seqLess (advance s.rexmitQueue.begin k) s.rexmitQueue.getHighestSackedSeqNum) :=
        fun hboth ↦ hany (hsacked.mp hboth.2)
      refine ⟨none, if_neg hstop, ?_⟩
      rintro i ⟨hki, hopen, -⟩
      apply hany
      rw [List.any_eq_true] at hopen ⊢
      obtain ⟨flags, hmem, hflags⟩ := hopen
      exact ⟨flags, List.drop_subset_drop_left _ hki hmem, hflags⟩

theorem lost_advance_iff (h : s.Covers) (hk : k ≤ s.rexmitQueue.byteMap.bytes.length) :
    s.Lost (advance s.snd_una k) ↔ s.LostBy (s.rexmitQueue.byteMap.bytes.drop k) := by
  have hbound := h.valid.bound
  have hbytes : s.rexmitQueue.byteMap.bytesFrom (advance s.rexmitQueue.begin k) =
      s.rexmitQueue.byteMap.bytes.drop k := bytesFrom_advance (by omega)
  rw [Lost, ← h.begin_eq, hbytes]

theorem candidate_iff (h : s.Covers) :
    s.Candidate k ↔
      upToLast rexmitted s.rexmitQueue.byteMap.bytes ≤ k ∧ s.Open k := by
  have hbound := h.valid.bound
  have hdistance : distance s.snd_una s.snd_max = s.rexmitQueue.byteMap.bytes.length := by
    rw [← h.begin_eq, ← h.end_eq, h.valid.end_eq]
    exact distance_advance_of_lt (by omega)
  have hhigh := upToLast_le rexmitted s.rexmitQueue.byteMap.bytes
  have hle (hk : k < s.rexmitQueue.byteMap.bytes.length) :
      seqLE s.rexmitQueue.getHighestRexmittedSeqNum (advance s.rexmitQueue.begin k) ↔
        upToLast rexmitted s.rexmitQueue.byteMap.bytes ≤ k := by
    rw [h.valid.queries.getHighestRexmittedSeqNum]
    exact seqLE_advance_iff (by omega) (by omega)
  have hsacked (hk : k < s.rexmitQueue.byteMap.bytes.length) :
      s.SackedAt (advance s.rexmitQueue.begin k) ↔
        (s.rexmitQueue.byteMap.bytes.drop k).head?.any sacked := by
    have hbytes : s.rexmitQueue.byteMap.bytesFrom (advance s.rexmitQueue.begin k) =
        s.rexmitQueue.byteMap.bytes.drop k := bytesFrom_advance (by omega)
    rw [SackedAt, hbytes]
  constructor
  · rintro ⟨hlt, hnot, hhighRxt, hbelow⟩
    rw [hdistance] at hlt
    rw [← h.begin_eq] at hnot hhighRxt hbelow
    exact ⟨(hle hlt).mp hhighRxt, (seqLess_highestSacked h.valid (le_of_lt hlt)).mp hbelow,
      mt (hsacked hlt).mpr hnot⟩
  · rintro ⟨hhighRxt, hopen⟩
    have hlt := hopen.lt_length
    refine ⟨hdistance.symm ▸ hlt, ?_, ?_, ?_⟩
    · rw [← h.begin_eq]
      exact mt (hsacked hlt).mp hopen.2
    · rw [← h.begin_eq]
      exact (hle hlt).mpr hhighRxt
    · rw [← h.begin_eq]
      exact (seqLess_highestSacked h.valid (le_of_lt hlt)).mpr hopen.1

/-- The loop of rule (3), and of rule (1), from the highest region on that was sent again. -/
theorem exists_firstCandidate (h : s.Covers) :
    ∃ result, s.firstUnsacked s.rexmitQueue.getHighestSackedSeqNum
        (distance s.rexmitQueue.getHighestRexmittedSeqNum s.snd_max + 1)
        s.rexmitQueue.getHighestRexmittedSeqNum = .ok result ∧
      s.IsFirst s.Candidate result := by
  have hbound := h.valid.bound
  have hhigh := upToLast_le rexmitted s.rexmitQueue.byteMap.bytes
  have hstart : s.rexmitQueue.getHighestRexmittedSeqNum = advance s.rexmitQueue.begin
      (upToLast rexmitted s.rexmitQueue.byteMap.bytes) :=
    h.valid.queries.getHighestRexmittedSeqNum
  have hdistance : distance s.rexmitQueue.getHighestRexmittedSeqNum s.snd_max =
      s.rexmitQueue.byteMap.bytes.length -
        upToLast rexmitted s.rexmitQueue.byteMap.bytes := by
    rw [hstart, ← h.end_eq, h.valid.end_eq]
    exact distance_advance_advance hhigh (by omega)
  obtain ⟨result, hok, hfirst⟩ := exists_firstUnsacked h hhigh (lt_succ_self _)
  rw [← hstart, ← hdistance] at hok
  exact ⟨result, hok, (isFirst_congr fun _ ↦ candidate_iff h).mpr hfirst⟩

/-- The loop of rule (1) finds the first lost candidate, although it gives up at the first
candidate. -/
theorem exists_firstLost (hsack : s.options.sack_enabled) (h : s.Covers) :
    ∃ result, s.firstLost s.rexmitQueue.getHighestRexmittedSeqNum
        s.rexmitQueue.getHighestSackedSeqNum = .ok result ∧
      s.IsFirst s.LostCandidate result := by
  obtain ⟨first, hok, hfirst⟩ := exists_firstCandidate h
  rw [firstLost, bind_of_ok hok]
  cases first with
  | none => exact ⟨none, rfl, fun k hk ↦ hfirst k hk.1⟩
  | some seqNum =>
    obtain ⟨k, rfl, hk, hleast⟩ := hfirst
    have hlt := ((candidate_iff h).mp hk).2.lt_length
    have hlost := isLost_eq hsack h.valid h.begin_eq (le_of_lt hlt)
    rw [h.begin_eq] at hlost
    by_cases hby : s.LostBy (s.rexmitQueue.byteMap.bytes.drop k)
    · refine ⟨some (advance s.snd_una k), ?_, k, rfl, ⟨hk, ?_⟩, fun j hj ↦ hleast hj.1⟩
      · rw [decide_eq_true hby] at hlost
        simp only [bind_of_ok hlost]
        rfl
      · exact (lost_advance_iff h (le_of_lt hlt)).mpr hby
    · refine ⟨none, ?_, ?_⟩
      · rw [decide_eq_false hby] at hlost
        simp only [bind_of_ok hlost]
        rfl
      · rintro j ⟨hj, hjLost⟩
        have hjLt := ((candidate_iff h).mp hj).2.lt_length
        exact hby (((lost_advance_iff h (le_of_lt hjLt)).mp hjLost).of_le (hleast hj))

/-- The window of rule (2) is too large if more is in the network than the receiver allows. -/
theorem mss_le_effectiveWindow_iff (hwnd : s.snd_wnd < 2 ^ 32) (hmss : s.snd_mss < 2 ^ 32) :
    s.snd_mss ≤ s.effectiveWindow ↔
      s.pipe.toNat + s.snd_mss ≤ s.snd_wnd ∨ s.snd_wnd < s.pipe.toNat := by
  have hpipe := s.pipe.isLt
  rw [effectiveWindow]
  omega

/-- `nextSeg` follows the rules if and only if rule (1) applies, all data was sent, or no more is in
the network than the window of the receiver. -/
theorem nextSeg_iff (hsack : s.options.sack_enabled) (h : s.Covers) (hwnd : s.snd_wnd < 2 ^ 32)
    (hmss : s.snd_mss < 2 ^ 32) :
    (∃ result t, s.nextSeg = .ok (result, t) ∧ s.FollowsRules result) ↔
      (∃ k, s.LostCandidate k) ∨ s.sendQueue.getBytesAvailable s.snd_max = 0 ∨
        s.pipe.toNat ≤ s.snd_wnd := by
  obtain ⟨s2, hs2, hlost⟩ := exists_firstLost hsack h
  obtain ⟨s3, hs3, hcandidate⟩ := exists_firstCandidate h
  have hwindow := mss_le_effectiveWindow_iff (s := s) hwnd hmss
  rw [nextSeg, bind_of_ok (assert_of hsack)]
  simp only [bind_of_ok hs2]
  cases s2 with
  | some seqNum =>
    obtain ⟨k, -, hk, -⟩ := id hlost
    exact iff_of_true ⟨some seqNum, _, rfl, .lost hlost⟩ (.inl ⟨k, hk⟩)
  | none =>
    have hnone : ∀ k, ¬s.LostCandidate k := hlost
    rw [or_iff_right (fun hex ↦ hex.elim hnone)]
    by_cases hunsent : 0 < s.sendQueue.getBytesAvailable s.snd_max ∧
        s.snd_mss ≤ s.effectiveWindow
    · rw [if_pos hunsent]
      constructor
      · rintro ⟨result, t, hok, hfollows⟩
        obtain ⟨rfl, rfl⟩ := Prod.mk.inj (Except.ok.inj hok)
        right
        cases hfollows with
        | lost hfirst => exact absurd hfirst.choose_spec.2.1 (hnone _)
        | unsent _ hroom => exact le_trans (le_add_right _ _) hroom.2
        | unsacked _ _ hfirst =>
          -- `snd_max` is no octet that was sent
          obtain ⟨k, hmax, hk, -⟩ := hfirst
          have hlt := hk.lt_max
          rw [hmax, distance_advance] at hlt
          exact absurd hlt (not_lt.mpr (mod_le _ _))
      · intro hcondition
        have hle := hcondition.resolve_left (ne_of_gt hunsent.1)
        have hroom := (hwindow.mp hunsent.2).resolve_right (not_lt.mpr hle)
        exact ⟨_, _, rfl, .unsent hnone ⟨hunsent.1, hroom⟩⟩
    · rw [if_neg hunsent]
      simp only [bind_of_ok hs3]
      refine iff_of_true ⟨s3, _, rfl, .unsacked hnone ?_ hcandidate⟩ ?_
      · rintro ⟨hbuffered, hroom⟩
        exact hunsent ⟨hbuffered, hwindow.mpr (.inl hroom)⟩
      · by_contra hcondition
        obtain ⟨hbuffered, hpipe⟩ := not_or.mp hcondition
        exact hunsent ⟨pos_of_ne_zero hbuffered, hwindow.mpr (.inr (not_le.mp hpipe))⟩

/-- Two segments are outstanding that were sent twice, and there is unsent data. -/
def recovering : SackSender ℕ :=
  { dataSent with
    snd_wnd := 5, highRxt := 14, pipe := 8
    rexmitQueue := ⟨[⟨10, 12, false, true⟩, ⟨12, 14, false, true⟩], 10, 14⟩
    sendQueue := ⟨10, 16, [1, 2, 3, 4, 5, 6]⟩ }

theorem nextSeg_iff_dataSent :
    (∃ result t, dataSent.nextSeg = .ok (result, t) ∧ dataSent.FollowsRules result) ↔
      (∃ k, dataSent.LostCandidate k) ∨ dataSent.sendQueue.getBytesAvailable dataSent.snd_max = 0 ∨
        dataSent.pipe.toNat ≤ dataSent.snd_wnd :=
  nextSeg_iff (by decide) ⟨⟨by decide, by decide⟩, rfl, rfl⟩ (by decide) (by decide)

/-- Eight bytes are in the network, the window is five bytes, and new data is sent. -/
theorem not_nextSeg_recovering :
    recovering.Covers ∧ recovering.setPipe = .ok recovering ∧
      ¬∃ result t, recovering.nextSeg = .ok (result, t) ∧ recovering.FollowsRules result := by
  have hok : recovering.nextSeg = .ok (some 14, recovering) := by decide +kernel
  have hcovers : recovering.Covers := ⟨⟨by decide, by decide⟩, rfl, rfl⟩
  refine ⟨hcovers, by decide +kernel, ?_⟩
  rintro ⟨result, t, hresult, hfollows⟩
  obtain ⟨rfl, -⟩ := Prod.mk.inj (Except.ok.inj (hok.symm.trans hresult))
  have hbelow : ∀ k < distance recovering.snd_una recovering.snd_max,
      ¬seqLess (advance recovering.snd_una k) recovering.rexmitQueue.getHighestSackedSeqNum := by
    decide
  have hnone : ∀ k, ¬recovering.Candidate k := fun k hk ↦ hbelow k hk.lt_max hk.lt_sacked
  cases hfollows with
  | lost hfirst => exact hnone _ hfirst.choose_spec.2.1.1
  | unsent _ hroom => exact absurd hroom.2 (by decide)
  | unsacked _ _ hfirst => exact hnone _ hfirst.choose_spec.2.1

end Inet4.Tcp.SackSender
