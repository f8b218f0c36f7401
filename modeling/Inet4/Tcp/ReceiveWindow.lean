import Inet4.Kernel
import Inet4.Machine
import Inet4.Tcp.SeqNum

/-!
# The advertised window of a TCP receiver

`updateRcvWnd` computes the window from the free buffer and from the edge `rcv_adv` that it
advertised before, and shifts it by the window scale.  The edge is kept before the shift.  What
segments and the application do to `rcv_nxt` and the receive queue between two windows is input.
-/

namespace Inet4.Tcp

open Nat

/-- The state variables that the window is computed from. -/
structure WindowState where
  rcv_nxt : SeqNum
  rcv_adv : SeqNum
  rcv_wnd : ℕ
  freeRcvBuffer : ℕ
  usedRcvBuffer : ℕ
  maxRcvBuffer : ℕ
  snd_mss : ℕ
  ws_enabled : Bool
  rcv_wnd_scale : ℕ
  /-- `getAmountOfBufferedBytes` of the receive queue. -/
  bufferedBytes : ℕ

def TCP_MAX_WIN : ℕ := 65535

namespace WindowState

variable (s : WindowState)

def getAmountOfFreeBytes : ℕ :=
  if s.maxRcvBuffer > s.bufferedBytes then s.maxRcvBuffer - s.bufferedBytes else 0

def updateRcvQueueVars : WindowState :=
  { s with
    freeRcvBuffer := s.getAmountOfFreeBytes
    usedRcvBuffer := s.maxRcvBuffer - s.getAmountOfFreeBytes }

/-- The shift of the window. -/
def shift : ℕ :=
  if s.ws_enabled = true ∧ s.rcv_wnd_scale ≠ 0 then s.rcv_wnd_scale else 0

def maxWin : ℕ := TCP_MAX_WIN <<< s.shift

/-- The free buffer, unless it is so small that it is not worth a segment. -/
def offered : ℕ :=
  let win := s.getAmountOfFreeBytes
  if win < s.maxRcvBuffer / 4 ∧ win < s.snd_mss then 0 else win

/-- The window is not shrunk, and not larger than what the header can tell. -/
def window : ℕ :=
  let win := s.offered
  let win := if win < distance s.rcv_nxt s.rcv_adv then distance s.rcv_nxt s.rcv_adv else win
  if win > s.maxWin then s.maxWin else win

def updateRcvWnd : Except Fault (ℕ × WindowState) := do
  let s := s.updateRcvQueueVars
  let win := s.window
  let rcv_adv := if win > 0 ∧ seqGE (advance s.rcv_nxt win) s.rcv_adv then advance s.rcv_nxt win
    else s.rcv_adv
  let s := { s with rcv_adv, rcv_wnd := win }
  assert (s.shift ≤ 14)
  let scaled_rcv_wnd := s.rcv_wnd >>> s.shift
  assert (scaled_rcv_wnd = scaled_rcv_wnd % 2 ^ 16)
  return (scaled_rcv_wnd, s)

end WindowState

/-- The receiver, and what it announced. -/
structure WindowHistory where
  state : WindowState
  /-- The bytes that `rcv_nxt` has moved. -/
  position : ℕ
  /-- The right edge that was announced last. -/
  edge : ℕ

namespace WindowHistory

inductive Event
  /-- Segments arrive and the application reads: `rcv_nxt` moves over text or a FIN, and the queue
  has another number of bytes then. -/
  | receive (length bufferedBytes : ℕ)
  | updateRcvWnd

/-- `rcv_nxt` does not leave the part of the ring where it can be compared with the edge. -/
def Enabled (history : WindowHistory) : Event → Prop
  | .receive length _ => history.position + length ≤ history.edge + 2 ^ 30
  | .updateRcvWnd => True

def handle (history : WindowHistory) : Event → Except Fault WindowHistory
  | .receive length bufferedBytes => .ok { history with
      state := { history.state with
        rcv_nxt := advance history.state.rcv_nxt length, bufferedBytes }
      position := history.position + length }
  | .updateRcvWnd => do
    let (scaled_rcv_wnd, state) ← history.state.updateRcvWnd
    return { history with state, edge := history.position + scaled_rcv_wnd <<< state.shift }

def machine : Machine WindowHistory Event Fault where
  Enabled := Enabled
  handle := handle

/-- The window that is returned fits the header, its right edge is not before the one announced
last, and the window exceeds the free buffer by what was announced before at most. -/
structure Announces (history : WindowHistory) (value : ℕ) (t : WindowState) : Prop where
  fits : value < 2 ^ 16
  edge_le : history.edge ≤ history.position + value <<< t.shift
  within : t.rcv_wnd ≤ t.freeRcvBuffer + (history.edge - history.position)

/-- `rcv_nxt` is not beyond `rcv_adv`, a multiple of the scale lies between the announced window and
the one to be announced, and the buffer has room for what `rcv_adv` keeps beyond the announced
edge.  Or `rcv_nxt` is beyond `rcv_adv` and the largest window is free. -/
def Announceable (history : WindowHistory) : Prop :=
  let s := history.state
  let remaining := history.edge - history.position
  let kept := distance s.rcv_nxt s.rcv_adv
  if seqLE s.rcv_nxt s.rcv_adv then
    (∃ k, remaining ≤ k * 2 ^ s.shift ∧ k * 2 ^ s.shift ≤ max s.offered kept) ∧
      kept ≤ s.getAmountOfFreeBytes + remaining
  else s.maxWin ≤ s.getAmountOfFreeBytes

/-! ## The windows of a run -/

/-- The numbers are positions on the ring, and the edge that is kept is not before the announced
one. -/
structure Valid (start : SeqNum) (history : WindowHistory) (adv : ℕ) : Prop where
  rcv_nxt_eq : history.state.rcv_nxt = advance start history.position
  rcv_adv_eq : history.state.rcv_adv = advance start adv
  edge_le : history.edge ≤ adv
  adv_le : adv ≤ history.position + history.state.maxWin
  position_le : history.position ≤ adv + 2 ^ 30
  shift_le : history.state.shift ≤ 14

variable {start : SeqNum} {history t : WindowHistory} {adv : ℕ}

theorem maxWin_eq (s : WindowState) : s.maxWin = 65535 * 2 ^ s.shift := shiftLeft_eq ..

section

variable (h : Valid start history adv)
include h

theorem Valid.maxWin_lt : history.state.maxWin < 2 ^ 30 := by
  have hpow : 2 ^ history.state.shift ≤ 2 ^ 14 := Nat.pow_le_pow_right (by decide) h.shift_le
  rw [maxWin_eq]
  omega

theorem Valid.seqLE_iff :
    seqLE history.state.rcv_nxt history.state.rcv_adv ↔ history.position ≤ adv := by
  have hmax := h.maxWin_lt
  have hadv := h.adv_le
  have hposition := h.position_le
  rw [h.rcv_nxt_eq, h.rcv_adv_eq, seqLE_advance_iff (by omega) (by omega)]

theorem Valid.distance_eq : distance history.state.rcv_nxt history.state.rcv_adv =
      if history.position ≤ adv then adv - history.position
      else 2 ^ 32 - (history.position - adv) := by
  have hmax := h.maxWin_lt
  have hadv := h.adv_le
  have hposition := h.position_le
  rw [h.rcv_nxt_eq, h.rcv_adv_eq]
  split
  · exact distance_advance_advance (by omega) (by omega)
  · exact distance_advance_advance_of_lt (by omega) (by omega)

/-- What is kept of the window of before, or the largest window if `rcv_nxt` is beyond its edge. -/
theorem Valid.window_eq : history.state.window = if history.position ≤ adv then
      min history.state.maxWin (max history.state.offered (adv - history.position))
    else history.state.maxWin := by
  have hmax := h.maxWin_lt
  have hadv := h.adv_le
  have hposition := h.position_le
  rw [WindowState.window, h.distance_eq]
  split_ifs <;> omega

theorem Valid.window_le : history.state.window ≤ history.state.maxWin := by
  rw [h.window_eq]
  split
  · exact min_le_left ..
  · exact le_rfl

theorem Valid.scaled_lt : history.state.window >>> history.state.shift < 2 ^ 16 := by
  have hle := h.window_le
  have hpos := Nat.two_pow_pos history.state.shift
  rw [maxWin_eq] at hle
  rw [shiftRight_eq_div_pow, div_lt_iff_lt_mul hpos]
  omega

/-- The window is announced, and its edge is kept before the shift. -/
theorem Valid.updateRcvWnd_eq :
    history.state.updateRcvWnd = .ok (history.state.window >>> history.state.shift,
      { history.state.updateRcvQueueVars with
        rcv_adv := advance start (history.position + history.state.window)
        rcv_wnd := history.state.window }) := by
  have hmax := h.maxWin_lt
  have hadv := h.adv_le
  have hposition := h.position_le
  have hwindow := h.window_eq
  have hle := h.window_le
  have hedge : (if history.state.window > 0 ∧
        seqGE (advance history.state.rcv_nxt history.state.window) history.state.rcv_adv then
      advance history.state.rcv_nxt history.state.window else history.state.rcv_adv) =
        advance start (history.position + history.state.window) := by
    have hge : seqGE (advance start (history.position + history.state.window)) (advance start adv) ↔
        adv ≤ history.position + history.state.window :=
      seqGE_advance_iff (by omega) (by omega)
    have hpos : 0 < history.state.maxWin := by
      rw [maxWin_eq]
      exact Nat.mul_pos (by decide) (Nat.two_pow_pos _)
    rw [h.rcv_nxt_eq, h.rcv_adv_eq, advance_advance]
    simp only [hge]
    split_ifs at hwindow ⊢
    · rfl
    · rfl
    · exact congrArg _ (by omega)
    · omega
  have hscaled : history.state.window >>> history.state.shift =
      history.state.window >>> history.state.shift % 2 ^ 16 := (mod_eq_of_lt h.scaled_lt).symm
  rw [WindowState.updateRcvWnd]
  change (assert (history.state.shift ≤ 14) >>= fun _ ↦ _) = _
  rw [bind_of_ok (assert_of h.shift_le)]
  change (assert (history.state.window >>> history.state.shift =
    history.state.window >>> history.state.shift % 2 ^ 16) >>= fun _ ↦ _) = _
  rw [bind_of_ok (assert_of hscaled), ← hedge]
  rfl

theorem Valid.step {event : Event} (hstep : machine.Step history event t)
    : ∃ adv, Valid start t adv := by
  have hmax := h.maxWin_lt
  have hadv := h.adv_le
  have hposition := h.position_le
  have hedge := h.edge_le
  obtain ⟨henabled, hhandle⟩ := hstep
  cases event with
  | receive length bufferedBytes =>
    have hbound : history.position + length ≤ history.edge + 2 ^ 30 := henabled
    obtain rfl := Except.ok.inj hhandle
    refine ⟨adv, ?_, h.rcv_adv_eq, hedge, ?_, ?_, h.shift_le⟩
    · exact (congrArg (advance · length) h.rcv_nxt_eq).trans (advance_advance ..)
    · exact hadv.trans (Nat.add_le_add_right (Nat.le_add_right ..) _)
    · exact hbound.trans (Nat.add_le_add_right hedge _)
  | updateRcvWnd =>
    change (history.state.updateRcvWnd >>= _) = _ at hhandle
    rw [bind_of_ok h.updateRcvWnd_eq] at hhandle
    obtain rfl := Except.ok.inj hhandle
    refine ⟨history.position + history.state.window, h.rcv_nxt_eq, rfl, ?_, ?_, ?_, h.shift_le⟩
    · refine Nat.add_le_add_left ?_ history.position
      rw [shiftLeft_eq, shiftRight_eq_div_pow]
      exact div_mul_le_self ..
    · exact Nat.add_le_add_left h.window_le _
    · exact (Nat.le_add_right ..).trans (Nat.le_add_right ..)

end

/-- A shifted window covers a part if and only if a multiple of the scale lies between them. -/
theorem le_shifted_iff {part window shift : ℕ} (hpart : part ≤ 65535 * 2 ^ shift) :
    part ≤ (min (65535 * 2 ^ shift) window) >>> shift <<< shift ↔
      ∃ k, part ≤ k * 2 ^ shift ∧ k * 2 ^ shift ≤ window := by
  have hpos := Nat.two_pow_pos shift
  rw [shiftLeft_eq, shiftRight_eq_div_pow]
  constructor
  · intro hle
    refine ⟨_, hle, ?_⟩
    exact (div_mul_le_self ..).trans (min_le_right ..)
  · rintro ⟨k, hle, hwindow⟩
    have hk : min 65535 k ≤ min (65535 * 2 ^ shift) window / 2 ^ shift := by
      rw [le_div_iff_mul_le hpos]
      refine le_min (mul_le_mul_right _ (min_le_left ..)) ?_
      exact (mul_le_mul_right _ (min_le_right ..)).trans hwindow
    calc
      part ≤ min 65535 k * 2 ^ shift := by
        rw [← Nat.mul_min_mul_right]
        exact le_min hpart hle
      _ ≤ _ := mul_le_mul_right _ hk

/-- The window of a receiver whose edge is not passed covers what remains of the announced one if
and only if a multiple of the scale lies between them. -/
theorem Valid.edge_le_iff (h : Valid start history adv) (horder : history.position ≤ adv) :
    history.edge ≤ history.position +
        history.state.window >>> history.state.shift <<< history.state.shift ↔
      ∃ k, history.edge - history.position ≤ k * 2 ^ history.state.shift ∧
        k * 2 ^ history.state.shift ≤ max history.state.offered (adv - history.position) := by
  have hadv := h.adv_le
  have hedge := h.edge_le
  have hpart : history.edge - history.position ≤ 65535 * 2 ^ history.state.shift := by
    rw [← maxWin_eq]
    omega
  rw [h.window_eq, if_pos horder, maxWin_eq, ← le_shifted_iff hpart]
  exact Nat.sub_le_iff_le_add'.symm

theorem Valid.announces_iff (h : Valid start history adv) :
    history.Announces (history.state.window >>> history.state.shift)
        { history.state.updateRcvQueueVars with
          rcv_adv := advance start (history.position + history.state.window)
          rcv_wnd := history.state.window } ↔ history.Announceable := by
  have hadv := h.adv_le
  have hedge := h.edge_le
  have hposition := h.position_le
  have hmax := h.maxWin_lt
  have hwindow := h.window_eq
  have hoffered : history.state.offered ≤ history.state.getAmountOfFreeBytes := by
    rw [WindowState.offered]
    split
    · exact zero_le _
    · exact le_rfl
  simp only [Announceable, h.seqLE_iff, h.distance_eq]
  by_cases horder : history.position ≤ adv
  · rw [if_pos horder] at hwindow
    simp only [if_pos horder]
    rw [← h.edge_le_iff horder]
    constructor
    · rintro ⟨-, hedge', hwithin⟩
      refine ⟨hedge', ?_⟩
      change history.state.window ≤ history.state.getAmountOfFreeBytes + _ at hwithin
      omega
    · rintro ⟨hedge', hkept⟩
      refine ⟨h.scaled_lt, hedge', ?_⟩
      change history.state.window ≤ history.state.getAmountOfFreeBytes + _
      omega
  · rw [if_neg horder] at hwindow
    simp only [if_neg horder]
    constructor
    · rintro ⟨-, -, hwithin⟩
      change history.state.window ≤ history.state.getAmountOfFreeBytes + _ at hwithin
      omega
    · intro hfree
      refine ⟨h.scaled_lt, le_trans (by omega) (Nat.le_add_right ..), ?_⟩
      change history.state.window ≤ history.state.getAmountOfFreeBytes + _
      omega

/-- In every state that a run reaches, `updateRcvWnd` returns a window that fits the header, and the
edge does not move left and the window does not exceed the free buffer by more than what was
announced if and only if the condition holds. -/
theorem announces_iff_of_run {state : WindowState} {events : List Event}
    (hadv : state.rcv_adv = advance state.rcv_nxt state.rcv_wnd)
    (hwnd : state.rcv_wnd ≤ TCP_MAX_WIN) (hscale : state.rcv_wnd_scale ≤ 14)
    (hrun : machine.Run ⟨state, 0, state.rcv_wnd⟩ events history) :
    ∃ value t, history.state.updateRcvWnd = .ok (value, t) ∧ value < 2 ^ 16 ∧
      (history.Announces value t ↔ history.Announceable) := by
  have hinitial : Valid state.rcv_nxt ⟨state, 0, state.rcv_wnd⟩ state.rcv_wnd := by
    have hpos := Nat.two_pow_pos state.shift
    refine ⟨(advance_zero _).symm, hadv, le_rfl, ?_, zero_le _, ?_⟩
    · rw [maxWin_eq]
      have hle : TCP_MAX_WIN ≤ 65535 * 2 ^ state.shift := Nat.le_mul_of_pos_right _ hpos
      exact (hwnd.trans hle).trans (Nat.le_add_left ..)
    · change (if _ then _ else _) ≤ _
      split
      · exact hscale
      · exact zero_le _
  obtain ⟨adv, h⟩ : ∃ adv, Valid state.rcv_nxt history adv :=
    hrun.invariant (P := fun history ↦ ∃ adv, Valid state.rcv_nxt history adv)
      (fun _ _ _ ⟨_, h⟩ hstep ↦ h.step hstep) ⟨_, hinitial⟩
  refine ⟨_, _, h.updateRcvWnd_eq, h.scaled_lt, ?_⟩
  exact h.announces_iff

/-- The receiver after the handshake, with a buffer of `maxRcvBuffer` bytes. -/
def established (maxRcvBuffer rcv_wnd rcv_wnd_scale : ℕ) : WindowState where
  rcv_nxt := 1001
  rcv_adv := advance 1001 rcv_wnd
  rcv_wnd := rcv_wnd
  freeRcvBuffer := maxRcvBuffer
  usedRcvBuffer := 0
  maxRcvBuffer := maxRcvBuffer
  snd_mss := 536
  ws_enabled := true
  rcv_wnd_scale := rcv_wnd_scale
  bufferedBytes := 0

/-- Text has arrived, and a part of it has been read. -/
def received (s : WindowState) (length bufferedBytes : ℕ) : WindowHistory where
  state := { s with rcv_nxt := advance s.rcv_nxt length, bufferedBytes }
  position := length
  edge := s.rcv_wnd

theorem run_received {s : WindowState} {length bufferedBytes : ℕ}
    (hlength : length ≤ s.rcv_wnd + 2 ^ 30) :
    machine.Run ⟨s, 0, s.rcv_wnd⟩ [.receive length bufferedBytes]
      (received s length bufferedBytes) := by
  refine Machine.run_singleton_iff.mpr ⟨?_, ?_⟩
  · exact (zero_add _).le.trans hlength
  · simp [received, machine, handle]

theorem announces_iff_of_run_received :
    ∃ value t, (received (established 70000 65535 1) 2 65000).state.updateRcvWnd = .ok (value, t) ∧
      value < 2 ^ 16 ∧
      ((received (established 70000 65535 1) 2 65000).Announces value t ↔
        (received (established 70000 65535 1) 2 65000).Announceable) :=
  announces_iff_of_run rfl (by decide) (by decide) (run_received (by decide))

/-- A window of 65533 bytes is announced as 65532 of them.  And the buffer of 7504 bytes is
announced as 65535 after a FIN behind it. -/
theorem not_announces_received :
    (∃ history value t, machine.Run ⟨established 70000 65535 1, 0, 65535⟩
      [.receive 2 65000] history ∧
      history.state.updateRcvWnd = Except.ok (value, t) ∧ ¬history.Announces value t) ∧
    ∃ history value t, machine.Run ⟨established 7504 7504 0, 0, 7504⟩ [.receive 7505 0] history ∧
      history.state.updateRcvWnd = Except.ok (value, t) ∧ ¬history.Announces value t := by
  constructor
  · refine ⟨received (established 70000 65535 1) 2 65000, _, _, run_received (by decide), rfl, ?_⟩
    intro h
    exact absurd h.edge_le (by decide)
  · refine ⟨received (established 7504 7504 0) 7505 0, _, _, run_received (by decide), rfl, ?_⟩
    intro h
    exact absurd h.within (by decide)

end WindowHistory

end Inet4.Tcp
