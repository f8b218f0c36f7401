import Inet4.Kernel
import Inet4.Machine
import Inet4.Tcp.SeqNum
import Mathlib.Data.List.Pairwise

/-!
# Fast recovery of TCP NewReno

`recover` keeps a sender from reducing its window twice for one window of data.  The third duplicate
ACK compares it as a plain integer, though, and an ACK of new data outside recovery can set it back.
Left out are the timers, and of what is sent all but the advance of `snd_max`.
-/

namespace Inet4.Tcp

open List Nat

/-- The state variables of `TcpNewReno`. -/
structure NewReno where
  snd_una : SeqNum
  snd_max : SeqNum
  snd_wnd : BitVec 32
  snd_mss : BitVec 32
  snd_cwnd : BitVec 32
  ssthresh : BitVec 32
  recover : SeqNum
  dupacks : BitVec 32
  lossRecovery : Bool
  firstPartialACK : Bool

namespace NewReno

variable (s : NewReno)

def DUPTHRESH : BitVec 32 := 3

def recalculateSlowStartThreshold : NewReno :=
  let flight_size := if s.snd_wnd < s.snd_cwnd then s.snd_wnd else s.snd_cwnd
  { s with ssthresh :=
      if flight_size / 2 < 2 * s.snd_mss then 2 * s.snd_mss else flight_size / 2 }

def processRexmitTimer : NewReno :=
  { s.recalculateSlowStartThreshold with
    recover := s.snd_max - 1
    lossRecovery := false
    firstPartialACK := false
    snd_cwnd := s.snd_mss }

def receivedDataAck (firstSeqAcked : SeqNum) : Except Fault NewReno :=
  if s.lossRecovery then
    if seqGE (s.snd_una - 1) s.recover then
      let full := s.snd_max - s.snd_una + s.snd_mss
      .ok { s with
        snd_cwnd := if full < s.ssthresh then full else s.ssthresh
        lossRecovery := false
        firstPartialACK := false }
    else
      let acked := s.snd_una - firstSeqAcked
      let snd_cwnd := s.snd_cwnd - acked
      .ok { s with
        snd_cwnd := if acked ≥ s.snd_mss then snd_cwnd + s.snd_mss else snd_cwnd
        firstPartialACK := true }
  else if s.snd_cwnd < s.ssthresh then
    .ok { s with snd_cwnd := s.snd_cwnd + s.snd_mss, recover := s.snd_una - 2 }
  else if s.snd_cwnd = 0 then .error .undefinedBehaviour
  else
    let incr := s.snd_mss * s.snd_mss / s.snd_cwnd
    let incr := if incr = 0 then 1 else incr
    .ok { s with snd_cwnd := s.snd_cwnd + incr, recover := s.snd_una - 2 }

def receivedDuplicateAck : NewReno :=
  if s.dupacks = DUPTHRESH then
    if s.lossRecovery = false ∧ s.snd_una - 1 > s.recover then
      let s := s.recalculateSlowStartThreshold
      { s with
        recover := s.snd_max - 1
        firstPartialACK := false
        lossRecovery := true
        snd_cwnd := s.ssthresh + 3 * s.snd_mss }
    else s
  else if s.dupacks > DUPTHRESH ∧ s.lossRecovery then
    { s with snd_cwnd := s.snd_cwnd + s.snd_mss }
  else s

/-- `TcpConnection::processAckInEstabEtc`.  The algorithm is told about the ACK of a segment with
text when the receive queue has taken the text; `snd_wnd` is what `updateWndInfo` leaves. -/
def processAckInEstabEtc (ackNo : SeqNum) (payload taken : Bool) (snd_wnd : BitVec 32) :
    Except Fault NewReno :=
  if seqGE s.snd_una ackNo then
    if s.snd_una = ackNo ∧ payload = false ∧ s.snd_una ≠ s.snd_max then
      .ok { s with dupacks := s.dupacks + 1, snd_wnd }.receivedDuplicateAck
    else .ok { s with dupacks := 0 }
  else if seqLE ackNo s.snd_max then
    if payload = false ∨ taken = true then do
      let t ← { s with snd_una := ackNo, snd_wnd }.receivedDataAck s.snd_una
      .ok { t with dupacks := 0 }
    else .ok { s with snd_una := ackNo, snd_wnd }
  else .ok { s with dupacks := 0 }

/-! ## Runs -/

inductive Event
  | ack (ackNo : SeqNum) (payload taken : Bool) (snd_wnd : BitVec 32)
  | rexmitTimeout
  | send (amount : ℕ)

/-- No more than half of the ring is in flight. -/
def Enabled : Event → Prop
  | .send amount => distance s.snd_una s.snd_max + amount < 2 ^ 31
  | _ => True

def handle : Event → Except Fault NewReno
  | .ack ackNo payload taken snd_wnd => s.processAckInEstabEtc ackNo payload taken snd_wnd
  | .rexmitTimeout => .ok s.processRexmitTimer
  | .send amount => .ok { s with snd_max := advance s.snd_max amount }

/-- The positions of `snd_una` and `snd_max` in the stream of bytes, and what they were when fast
recovery was started, the last time first. -/
structure Progress where
  acked : ℕ
  sent : ℕ
  reductions : List (ℕ × ℕ)

def Starts (s t : NewReno) : Prop := s.lossRecovery = false ∧ t.lossRecovery = true

instance (s t : NewReno) : Decidable (Starts s t) := inferInstanceAs (Decidable (_ ∧ _))

def Progress.update (p : Progress) (s t : NewReno) : Progress :=
  let acked := p.acked + distance s.snd_una t.snd_una
  let sent := p.sent + distance s.snd_max t.snd_max
  { acked, sent, reductions := if Starts s t then (acked, sent) :: p.reductions else p.reductions }

def machine : Machine (NewReno × Progress) Event Fault :=
  Machine.observed ⟨Enabled, handle⟩ Progress.update

/-- The sender after an ACK of data outside recovery. -/
def Established : Prop :=
  distance s.snd_una s.snd_max < 2 ^ 31 ∧ s.lossRecovery = false ∧ s.recover = s.snd_una - 2

/-- Positions are counted from half of the ring before `snd_una`. -/
def initial : NewReno × Progress := (s, ⟨2 ^ 31, 2 ^ 31 + distance s.snd_una s.snd_max, []⟩)

def IsThirdDuplicate : Event → Prop
  | .ack ackNo payload _ _ => s.snd_una = ackNo ∧ payload = false ∧ s.snd_una ≠ s.snd_max ∧
      s.dupacks + 1 = DUPTHRESH
  | _ => False

/-- The numbers differ by less than half of the ring, as plain integers too. -/
def Close (a b : SeqNum) : Prop := a.toNat < b.toNat + 2 ^ 31 ∧ b.toNat < a.toNat + 2 ^ 31

/-- The third duplicate ACK comes with no wrap between the numbers that are compared, and an ACK of
new data reaches the algorithm and, outside recovery, covers what was sent before a fast
retransmit. -/
def Sound (h : NewReno × Progress) : Event → Prop
  | .ack ackNo payload taken snd_wnd =>
    (h.1.IsThirdDuplicate (.ack ackNo payload taken snd_wnd) → h.1.lossRecovery = false →
      Close (h.1.snd_una - 1) h.1.recover) ∧
    (¬seqGE h.1.snd_una ackNo → seqLE ackNo h.1.snd_max → (payload = false ∨ taken = true) ∧
      (h.1.lossRecovery = false →
        ∀ reduction ∈ h.2.reductions, reduction.2 ≤ h.2.acked + distance h.1.snd_una ackNo))
  | _ => True

/-- What fast recovery promises of a step. -/
structure Proper (s : NewReno) (event : Event) (t : NewReno) : Prop where
  starts : Starts s t ↔ s.IsThirdDuplicate event ∧ s.lossRecovery = false ∧
    seqGreater (s.snd_una - 1) s.recover
  recover : s.lossRecovery = true → t.lossRecovery = true → t.recover = s.recover
  ends : s.lossRecovery = true →
    (t.lossRecovery = false ↔ event = .rexmitTimeout ∨ seqGE (t.snd_una - 1) s.recover)

variable {s t : NewReno} {p : Progress} {event : Event} {base : SeqNum} {mark : ℕ}

/-! ## What a step does -/

/-- The part of the state that recovery depends on. -/
def view (s : NewReno) : SeqNum × SeqNum × SeqNum × Bool :=
  (s.snd_una, s.snd_max, s.recover, s.lossRecovery)

/-- The steps, but for an ACK that does not reach the algorithm. -/
inductive Effect (s : NewReno) (p : Progress) (event : Event) (t : NewReno) : Prop
  | fastRetransmit (hthird : s.IsThirdDuplicate event) (hloss : s.lossRecovery = false)
      (hgreater : seqGreater (s.snd_una - 1) s.recover) (hflight : s.snd_una ≠ s.snd_max)
      (hview : t.view = (s.snd_una, s.snd_max, s.snd_max - 1, true))
  | timeout (hevent : event = .rexmitTimeout)
      (hview : t.view = (s.snd_una, s.snd_max, s.snd_max - 1, false))
  | dataAck (ackNo : SeqNum) (hnew : ¬seqGE s.snd_una ackNo) (hsent : seqLE ackNo s.snd_max)
      (hthird : ¬s.IsThirdDuplicate event) (hevent : event ≠ .rexmitTimeout)
      (hcovered : s.lossRecovery = false →
        ∀ reduction ∈ p.reductions, reduction.2 ≤ p.acked + distance s.snd_una ackNo)
      (hview : t.view = (ackNo, s.snd_max,
        if s.lossRecovery then s.recover else ackNo - 2,
        decide (s.lossRecovery = true ∧ ¬seqGE (ackNo - 1) s.recover)))
  | other (amount : ℕ) (hamount : amount = 0 ∨ distance s.snd_una s.snd_max + amount < 2 ^ 31)
      (hthird : s.IsThirdDuplicate event → s.lossRecovery = false →
        ¬seqGreater (s.snd_una - 1) s.recover)
      (hevent : event ≠ .rexmitTimeout)
      (hview : t.view = (s.snd_una, advance s.snd_max amount, s.recover, s.lossRecovery))

theorem receivedDataAck_view {firstSeqAcked : SeqNum}
    (h : s.receivedDataAck firstSeqAcked = .ok t) :
    t.view = (s.snd_una, s.snd_max, if s.lossRecovery then s.recover else s.snd_una - 2,
      decide (s.lossRecovery = true ∧ ¬seqGE (s.snd_una - 1) s.recover)) := by
  unfold receivedDataAck at h
  cases hloss : s.lossRecovery with
  | true =>
    rw [hloss, if_pos rfl] at h
    split at h <;> (cases h; simp_all [view])
  | false =>
    rw [hloss, if_neg Bool.false_ne_true] at h
    split at h
    · cases h
      simp [view]
    · split at h <;> cases h
      simp [view]

theorem seqGreater_iff_of_close {a b : SeqNum} (h : Close a b) : seqGreater a b ↔ b < a := by
  obtain ⟨hlt, hgt⟩ := h
  rw [seqGreater, distance, BitVec.toNat_sub, BitVec.lt_def, Ne, ← BitVec.toNat_inj]
  omega

theorem effect_of_handle (hsound : Sound (s, p) event) (henabled : s.Enabled event)
    (h : s.handle event = .ok t) : s.Effect p event t := by
  cases event with
  | ack ackNo payload taken snd_wnd =>
    have hevent : Event.ack ackNo payload taken snd_wnd ≠ .rexmitTimeout := nofun
    change s.processAckInEstabEtc ackNo payload taken snd_wnd = .ok t at h
    unfold processAckInEstabEtc at h
    split at h
    · split at h
      · rename_i hold hduplicate
        obtain ⟨hack, hpayload, hflight⟩ := hduplicate
        cases h
        have hthird : s.IsThirdDuplicate (.ack ackNo payload taken snd_wnd) ↔
            s.dupacks + 1 = DUPTHRESH :=
          ⟨fun h ↦ h.2.2.2, fun h ↦ ⟨hack, hpayload, hflight, h⟩⟩
        unfold receivedDuplicateAck
        by_cases hthree : s.dupacks + 1 = DUPTHRESH
        · have hgreater (hloss : s.lossRecovery = false) :=
            seqGreater_iff_of_close (hsound.1 (hthird.mpr hthree) hloss)
          by_cases hstart : s.lossRecovery = false ∧ s.snd_una - 1 > s.recover
          · simp only [hthree, hstart, and_self, if_true]
            exact .fastRetransmit (hthird.mpr hthree) hstart.1 ((hgreater hstart.1).mpr hstart.2)
              hflight rfl
          · simp only [hthree, if_true, if_neg hstart]
            refine .other 0 (.inl rfl) ?_ hevent (by simp [view])
            exact fun _ hloss h ↦ hstart ⟨hloss, (hgreater hloss).mp h⟩
        · simp only [hthree, if_false]
          refine .other 0 (.inl rfl) (fun h ↦ absurd (hthird.mp h) hthree) hevent ?_
          split <;> simp [view]
      · rename_i hold hduplicate
        cases h
        refine .other 0 (.inl rfl) ?_ hevent (by simp [view])
        exact fun hthird ↦ absurd ⟨hthird.1, hthird.2.1, hthird.2.2.1⟩ hduplicate
    · rename_i hnew
      have hthird : ¬s.IsThirdDuplicate (.ack ackNo payload taken snd_wnd) := by
        rintro ⟨rfl, -⟩
        exact hnew (by simp [seqGE])
      split at h
      · rename_i hsent
        obtain ⟨htaken, hcovered⟩ := hsound.2 hnew hsent
        rw [if_pos htaken] at h
        obtain ⟨u, hu, ht⟩ := bind_eq_ok h
        cases ht
        exact .dataAck ackNo hnew hsent hthird hevent hcovered (receivedDataAck_view hu)
      · cases h
        exact .other 0 (.inl rfl) (fun h ↦ absurd h hthird) hevent (by simp [view])
  | rexmitTimeout =>
    cases h
    exact .timeout rfl rfl
  | send amount =>
    cases h
    exact .other amount (.inr henabled) (fun h ↦ h.elim) nofun rfl

/-! ## What holds during a run -/

/-- `recover` is at position `mark`, from `base` on. -/
structure Valid (base : SeqNum) (mark : ℕ) (s : NewReno) (p : Progress) : Prop where
  una : s.snd_una = advance base p.acked
  max : s.snd_max = advance base p.sent
  recover : s.recover = advance base mark
  le_acked : 2 ^ 31 ≤ p.acked
  acked_lt : p.acked < mark + 2 ^ 31
  mark_lt : mark < p.sent
  acked_le : p.acked ≤ p.sent
  sent_lt : p.sent < p.acked + 2 ^ 31
  acked_le_mark : s.lossRecovery = true → p.acked ≤ mark
  covered : ∀ reduction ∈ p.reductions, reduction.2 ≤ p.acked ∨ reduction.2 ≤ mark + 1
  pairwise : p.reductions.Pairwise fun newer older ↦ older.2 ≤ newer.1

theorem advance_sub (base : SeqNum) (k : ℕ) {n : ℕ} (hle : k ≤ n) :
    advance base n - BitVec.ofNat 32 k = advance base (n - k) := by
  have hsum : advance (advance base (n - k)) k = advance base n := by
    rw [advance_advance, Nat.sub_add_cancel hle]
  rw [← hsum, advance, BitVec.add_sub_cancel]

/-- The position of a new ACK. -/
theorem acked_of_new {ackNo : SeqNum} {m n : ℕ} (hnew : ¬seqGE (advance base m) ackNo)
    (hsent : seqLE ackNo (advance base n)) (hle : m ≤ n) (hlt : n < m + 2 ^ 31) :
    m < m + distance (advance base m) ackNo ∧ m + distance (advance base m) ackNo ≤ n := by
  have hne : advance base m ≠ ackNo := by
    rintro rfl
    exact hnew (by simp [seqGE])
  have hround := distance_add_distance hne
  have hback := advance_distance (advance base m) ackNo
  rw [advance_advance] at hback
  rw [seqGE] at hnew
  rw [← hback, seqLE_advance_iff (by omega) (by omega)] at hsent
  have hpos : distance (advance base m) ackNo ≠ 0 := by
    intro hzero
    rw [hzero, add_zero] at hback
    exact hne hback
  omega

namespace Valid

variable (h : Valid base mark s p)

include h

theorem seqGE_iff {m : ℕ} (hloss : s.lossRecovery = true) (hacked : p.acked ≤ m)
    (hle : m ≤ p.sent) : seqGE (advance base m - 1) s.recover ↔ mark < m := by
  obtain ⟨-, -, hrecover, hstart, -, hmark, -, hsent, hrecovery, -⟩ := h
  have hle' := hrecovery hloss
  have hone : advance base m - 1 = advance base (m - 1) := advance_sub base 1 (by omega)
  rw [hrecover, hone, seqGE_advance_iff (by omega) (by omega)]
  omega

theorem seqGreater_iff : seqGreater (s.snd_una - 1) s.recover ↔ mark + 1 < p.acked := by
  obtain ⟨huna, -, hrecover, hstart, hacked, hmark, hle, hsent, -⟩ := h
  have hone : advance base p.acked - 1 = advance base (p.acked - 1) := advance_sub base 1 (by omega)
  have hless : seqLess (advance base mark) (advance base (p.acked - 1)) ↔ mark < p.acked - 1 :=
    seqLess_advance_iff (by omega) (by omega)
  rw [hrecover, huna, hone, seqGreater, ne_comm]
  exact hless.trans (by omega)

/-- The step moves `snd_una` by `a` and `snd_max` by `n`. -/
theorem next {a n mark' : ℕ} {loss : Bool}
    (hview : t.view =
      (advance base (p.acked + a), advance base (p.sent + n), advance base mark', loss))
    (hn : n < 2 ^ 31) (hacked : p.acked + a < mark' + 2 ^ 31) (hmark : mark' < p.sent + n)
    (hle : p.acked + a ≤ p.sent + n) (hlt : p.sent + n < p.acked + a + 2 ^ 31)
    (hloss : loss = true → p.acked + a ≤ mark')
    (hcovers : mark ≤ mark' ∨ ∀ reduction ∈ p.reductions, reduction.2 ≤ p.acked + a)
    (hstarts : s.lossRecovery = false → loss = true →
      p.sent + n ≤ mark' + 1 ∧ mark + 1 ≤ p.acked + a) :
    ∃ mark', Valid base mark' t (p.update s t) := by
  obtain ⟨huna, hmax, -, hstart, -, -, hle', hlt', -, hcovered, hpairwise⟩ := h
  simp only [NewReno.view, Prod.mk.injEq] at hview
  obtain ⟨huna', hmax', hrecover', rfl⟩ := hview
  have ha : distance s.snd_una t.snd_una = a := by
    rw [huna, huna', ← advance_advance, distance_advance_of_lt (by omega)]
  have hsent : distance s.snd_max t.snd_max = n := by
    rw [hmax, hmax', ← advance_advance, distance_advance_of_lt (by omega)]
  have hupdate : p.update s t = ⟨p.acked + a, p.sent + n,
      if Starts s t then (p.acked + a, p.sent + n) :: p.reductions else p.reductions⟩ := by
    rw [Progress.update, ha, hsent]
  have hcovers' : ∀ reduction ∈ p.reductions,
      reduction.2 ≤ p.acked + a ∨ reduction.2 ≤ mark' + 1 := by
    intro reduction hmem
    have hor := hcovered reduction hmem
    have hreach := hcovers.imp_right (· reduction hmem)
    omega
  rw [hupdate]
  refine ⟨mark', huna', hmax', hrecover', le_add_right hstart, hacked, hmark, hle, hlt, hloss, ?_,
    ?_⟩
  · intro reduction hmem
    split at hmem
    · rename_i hstarts'
      rcases mem_cons.mp hmem with rfl | hmem
      · exact .inr (hstarts hstarts'.1 hstarts'.2).1
      · exact hcovers' reduction hmem
    · exact hcovers' reduction hmem
  · dsimp only
    split
    · rename_i hstarts'
      have hbeyond := (hstarts hstarts'.1 hstarts'.2).2
      refine pairwise_cons.mpr ⟨fun reduction hmem ↦ ?_, hpairwise⟩
      have hor := hcovered reduction hmem
      dsimp only
      omega
    · exact hpairwise

theorem step (heffect : s.Effect p event t) :
    ∃ mark', Valid base mark' t (p.update s t) := by
  have hvalid := h
  have hbeyond := h.seqGreater_iff
  obtain ⟨huna, hmax, hrecover, hstart, hacked, hmark, hle, hlt, hrecovery, -⟩ := h
  have hlast : s.snd_max - 1 = advance base (p.sent - 1) := by
    rw [hmax]
    exact advance_sub base 1 (by omega)
  cases heffect with
  | fastRetransmit hthird hloss hgreater hflight hview =>
    have hbeyond : mark + 1 < p.acked := hbeyond.mp hgreater
    have hflight : p.acked ≠ p.sent := by
      intro heq
      exact hflight (by rw [huna, hmax, heq])
    rw [hlast, huna, hmax] at hview
    refine hvalid.next (a := 0) (n := 0) hview (by decide) (by omega) (by omega) hle hlt
      (fun _ ↦ by omega) (.inl (by omega)) (fun _ _ ↦ ⟨by omega, by omega⟩)
  | timeout hevent hview =>
    rw [hlast, huna, hmax] at hview
    exact hvalid.next (a := 0) (n := 0) hview (by decide) (by omega) (by omega) hle hlt nofun
      (.inl (by omega)) (fun _ ↦ nofun)
  | dataAck ackNo hnew hle' hthird hevent hreach hview =>
    rw [huna] at hnew hreach
    rw [hmax] at hle'
    obtain ⟨hlt', hin⟩ := acked_of_new hnew hle' hle hlt
    have hack : ackNo = advance base (p.acked + distance (advance base p.acked) ackNo) := by
      rw [← advance_advance, advance_distance]
    generalize distance (advance base p.acked) ackNo = a at *
    subst hack
    rw [hmax, hrecover] at hview
    cases hloss : s.lossRecovery with
    | true =>
      have hiff := hvalid.seqGE_iff hloss (m := p.acked + a) (by omega) hin
      have hback := hrecovery hloss
      rw [hrecover] at hiff
      simp only [hloss, if_true, true_and, hiff] at hview
      refine hvalid.next (n := 0) hview (by decide) (by omega) hmark hin (by omega) ?_
        (.inl le_rfl) ?_
      · intro h
        exact not_lt.mp (of_decide_eq_true h)
      · intro hloss'
        rw [hloss] at hloss'
        cases hloss'
    | false =>
      have htwo : advance base (p.acked + a) - 2 = advance base (p.acked + a - 2) :=
        advance_sub base 2 (by omega)
      simp only [hloss, Bool.false_eq_true, if_false, false_and, htwo] at hview
      exact hvalid.next (n := 0) hview (by decide) (by omega) (by omega) hin (by omega) nofun
        (.inr (hreach hloss)) (fun _ ↦ nofun)
  | other amount hamount hthird hevent hview =>
    rw [huna, hmax, hrecover, advance_advance] at hview
    have hamount' : amount = 0 ∨ p.sent - p.acked + amount < 2 ^ 31 := by
      rwa [huna, hmax, distance_advance_advance hle (by omega)] at hamount
    refine hvalid.next (a := 0) hview (by omega) hacked (by omega) (by omega) (by omega) hrecovery
      (.inl le_rfl) ?_
    intro hloss hloss'
    rw [hloss] at hloss'
    cases hloss'

theorem proper (heffect : s.Effect p event t) : Proper s event t := by
  have hcover (hloss : s.lossRecovery = true) : ¬seqGE (s.snd_una - 1) s.recover := by
    rw [h.una, h.seqGE_iff hloss le_rfl h.acked_le]
    exact not_lt.mpr (h.acked_le_mark hloss)
  cases heffect with
  | fastRetransmit hthird hloss hgreater hflight hview
  | dataAck ackNo hnew hle' hthird hevent hreach hview
  | other amount hamount hthird hevent hview => constructor <;> simp_all [NewReno.view, Starts]
  | timeout hevent hview =>
    constructor <;> simp_all [NewReno.view, Starts, IsThirdDuplicate]

end Valid

theorem valid_initial (h : s.Established) : ∃ base mark, Valid base mark s (initial s).2 := by
  obtain ⟨hflight, hloss, hrecover⟩ := h
  have hbase : advance (s.snd_una - BitVec.ofNat 32 (2 ^ 31)) (2 ^ 31) = s.snd_una :=
    BitVec.sub_add_cancel _ _
  generalize s.snd_una - BitVec.ofNat 32 (2 ^ 31) = base at hbase
  have hmax : advance base (2 ^ 31 + distance s.snd_una s.snd_max) = s.snd_max := by
    rw [← advance_advance, hbase, advance_distance]
  have hmark : s.recover = advance base (2 ^ 31 - 2) := by
    rw [hrecover, ← hbase]
    exact advance_sub base 2 (by decide)
  refine ⟨base, 2 ^ 31 - 2, hbase.symm, hmax.symm, hmark, le_rfl, ?_, ?_, le_add_right le_rfl, ?_,
    fun h ↦ absurd h (by simp [hloss]), nofun, .nil⟩ <;> (simp only [initial]; omega)

/-- Runs in which no wrap lies between the numbers that the third duplicate ACK compares, and in
which an ACK of new data outside recovery covers what was sent before a fast retransmit. -/
theorem once_per_window_of_run {events : List Event} {history : NewReno × Progress}
    (h : s.Established) (hrun : (machine.restrict Sound).Run (initial s) events history) :
    history.2.reductions.Pairwise (fun newer older ↦ older.2 ≤ newer.1) ∧
      ∀ event next, (machine.restrict Sound).Step history event next →
        Proper history.1 event next.1 := by
  have heffect : ∀ history event next, (machine.restrict Sound).Step history event next →
      history.1.Effect history.2 event next.1 ∧ next.2 = history.2.update history.1 next.1 := by
    intro history event next hstep
    obtain ⟨hstep, hsound⟩ := Machine.step_restrict_iff.mp hstep
    obtain ⟨hstep, hupdate⟩ := Machine.step_observed_iff.mp hstep
    exact ⟨effect_of_handle hsound hstep.1 hstep.2, hupdate⟩
  obtain ⟨base, mark, hvalid⟩ : ∃ base mark, Valid base mark history.1 history.2 := by
    refine hrun.invariant (P := fun history ↦ ∃ base mark, Valid base mark history.1 history.2) ?_
      (valid_initial h)
    rintro history event next ⟨base, mark, hvalid⟩ hstep
    obtain ⟨heffect, hupdate⟩ := heffect _ _ _ hstep
    rw [hupdate]
    exact ⟨base, hvalid.step heffect⟩
  refine ⟨hvalid.pairwise, fun event next hstep ↦ ?_⟩
  exact hvalid.proper (heffect _ _ _ hstep).1

/-- A sender with nothing in flight, after an ACK of data. -/
def idle (snd_una : SeqNum) : NewReno where
  snd_una := snd_una
  snd_max := snd_una
  snd_wnd := 65535
  snd_mss := 1000
  snd_cwnd := 8000
  ssthresh := 65535
  recover := snd_una - 2
  dupacks := 0
  lossRecovery := false
  firstPartialACK := false

def ack (ackNo : SeqNum) : Event := .ack ackNo false true 65535

def duplicates (ackNo : SeqNum) : List Event := replicate 3 (ack ackNo)

instance : DecidablePred s.IsThirdDuplicate
  | .ack .. => inferInstanceAs (Decidable (_ ∧ _))
  | .rexmitTimeout | .send _ => isFalse id

instance (h : NewReno × Progress) : DecidablePred ((machine.restrict Sound).Enabled h)
  | .ack .. =>
    have (a b : SeqNum) : Decidable (Close a b) := inferInstanceAs (Decidable (_ ∧ _))
    inferInstanceAs (Decidable (True ∧ _ ∧ _))
  | .send _ => inferInstanceAs (Decidable (_ < _ ∧ True))
  | .rexmitTimeout => isTrue ⟨trivial, trivial⟩

theorem once_per_window_of_run_idle :
    ∃ history, (machine.restrict Sound).Run (initial (idle 1001))
        (.send 5000 :: duplicates 1001 ++ [ack 6001, .send 5000, ack 7001] ++ duplicates 7001)
        history ∧
      history.2.reductions.length = 2 ∧
      history.2.reductions.Pairwise fun newer older ↦ older.2 ≤ newer.1 :=
  Machine.exists_run_and (by decide +kernel) fun _ hrun _ ↦
    (once_per_window_of_run ⟨by decide, by decide⟩ hrun).1

end NewReno

end Inet4.Tcp
