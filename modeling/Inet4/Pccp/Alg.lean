import Inet4.Machine
import Inet4.Pccp.SendQueue
import Mathlib.Data.Rat.Floor

/-!
# The PCCP consumer

`PccpAlg` answers four kinds of events: the application requests a SID, Data arrives, and a
retransmission timer expires.  It keeps at most `int(state.window)` requests in flight, moves a
timed-out request to `rexmitQueue` when the window has shrunk below the number in flight, and
adjusts the window by the congestion level carried in the Data.

The congestion window is a C++ `double`.  The model takes the arithmetic of the window as the
parameter `DoubleArith`, so that what does not depend on rounding is proved for every arithmetic;
the exact rationals are one instance.  Statistics signals and `PccpRecorder` are left out.
`sent` and `aborted` record what the module hands to the socket and to the application.
-/

namespace Inet4.Pccp

open Icn

/-- The operations of `double` that the consumer uses. -/
class DoubleArith (W : Type) where
  /-- The value of a literal or of a converted integer. -/
  ofRat : ℚ → W
  add : W → W → W
  sub : W → W → W
  mul : W → W → W
  div : W → W → W
  lt : W → W → Bool
  /-- The conversion `int(x)`. -/
  toInt : W → ℤ
  /-- The product of a `double` and a `simtime_t`. -/
  scale : W → SimTime → SimTime

/-- `int(x)` truncates towards zero. -/
def truncRat (x : ℚ) : ℤ := x.num.tdiv x.den

/-- Exact rational arithmetic. -/
instance : DoubleArith ℚ where
  ofRat x := x
  add x y := x + y
  sub x y := x - y
  mul x y := x * y
  div x y := x / y
  lt x y := x < y
  toInt := truncRat
  scale x t := truncRat (x * t)

/-- `PccpClCode` of `ClTag.msg`. -/
inductive PccpClCode
  | FREE
  | BUSY_1
  | BUSY_2
  | CONGESTED
  deriving DecidableEq, Repr

structure PccpStateVariables (W : Type) where
  rtsid : SID
  rtsidSendtime : SimTime
  srtt : SimTime
  rttvar : SimTime
  rexmitTimeout : SimTime
  lastTimeoutDoubledTime : SimTime
  lastCongRcvd : SimTime
  window : W
  numContinuousCongested : ℤ

/-- The parameters of `PccpApp` that the algorithm reads. -/
structure PccpApp where
  congestionControlEnabled : Bool
  initialWindowSize : ℤ
  maxRexmitLimit : ℤ

/-- One call of `ColorSocket::sendGET`, with the number of requests in flight and the value of
`int(state.window)` it leaves. -/
structure Transmission where
  sid : SID
  sentRequestCount : ℕ
  windowSize : ℤ
  deriving DecidableEq

/-- `PccpAlg` with its timer messages and the calls it has made. -/
structure PccpAlg (W : Type) where
  state : PccpStateVariables W
  sendQueue : PccpSendQueue
  pccpApp : PccpApp
  timers : SelfMessages Timer
  /-- The calls of `sendGET`, oldest first. -/
  sent : List Transmission
  /-- The calls of `PccpApp::maxRexmit`, oldest first. -/
  aborted : List SID

namespace PccpAlg

def MAX_REXMIT_TIMEOUT : SimTime := SimTime.ofMillis 1000
def MIN_REXMIT_TIMEOUT : SimTime := SimTime.ofMillis 500

variable {W : Type} [DoubleArith W]

open DoubleArith

def VERY_LARGE_WINDOW : W := ofRat 2000000000

/-- `PccpStateVariables::PccpStateVariables` followed by `PccpAlg::initializeState`. -/
def initial (app : PccpApp) : PccpAlg W where
  state :=
    { rtsid := default
      rtsidSendtime := 0
      srtt := 0
      rttvar := SimTime.ofMillis 750
      rexmitTimeout := SimTime.ofMillis 1000
      lastTimeoutDoubledTime := 0
      lastCongRcvd := 0
      window :=
        if app.congestionControlEnabled then ofRat app.initialWindowSize else VERY_LARGE_WINDOW
      numContinuousCongested := 0 }
  sendQueue := {}
  pccpApp := app
  timers := ∅
  sent := []
  aborted := []

variable (alg : PccpAlg W)

/-- `int(state.window)`. -/
def windowSize : ℤ := toInt alg.state.window

/-- `int(state.window) - sendQueue.getSentRequestCount()`. -/
def effectiveWindow : ℤ :=
  alg.windowSize - alg.sendQueue.getSentRequestCount

/-- `currentSocket->sendGET`. -/
def sendGET (sid : SID) : PccpAlg W :=
  { alg with
    sent := alg.sent ++ [⟨sid, alg.sendQueue.getSentRequestCount, alg.windowSize⟩] }

variable (now : SimTime)

/-- `PccpApp::scheduleTimeout`. -/
def scheduleTimeout (timer : Option Timer) (timeout : SimTime) : Except Fault (PccpAlg W) := do
  let some timer := timer | .error .undefinedBehaviour
  let timers ← alg.timers.scheduleAt now timer (now + timeout)
  return { alg with timers }

/-- `requestSent`: schedule the timer of the request and start the round-trip measurement. -/
def requestSent (sid : SID) (isRexmit : Bool) : Except Fault (PccpAlg W) := do
  let timer := alg.sendQueue.findRexmitTimer sid
  let alg ← alg.scheduleTimeout now timer alg.state.rexmitTimeout
  if alg.state.rtsidSendtime = 0 ∧ isRexmit = false then
    return { alg with state := { alg.state with rtsid := sid, rtsidSendtime := now } }
  else
    return alg

/-- The first loop of `sendRequestsToSocket`.  The counter is the value of `effectiveWindow`, which
the loop decreases by one each time round; the result is its value when the loop ends. -/
def sendUnsentRexmits (now : SimTime) : ℕ → PccpAlg W → Except Fault (ℕ × PccpAlg W)
  | 0, alg => .ok (0, alg)
  | n + 1, alg =>
    if alg.sendQueue.hasUnsentRexmit then do
      let (sidToSend, sendQueue) ← alg.sendQueue.popOneUnsentRexmit
      let alg := { alg with sendQueue }.sendGET sidToSend
      let alg ← alg.requestSent now sidToSend true
      sendUnsentRexmits now n alg
    else
      .ok (n + 1, alg)

/-- The second loop of `sendRequestsToSocket`. -/
def sendUnsentSIDs (now : SimTime) : ℕ → PccpAlg W → Except Fault (ℕ × PccpAlg W)
  | 0, alg => .ok (0, alg)
  | n + 1, alg =>
    if alg.sendQueue.hasUnsentSID then do
      let (sidToSend, sendQueue) ← alg.sendQueue.popOneUnsentSID now
      let alg := { alg with sendQueue }.sendGET sidToSend
      let alg ← alg.requestSent now sidToSend false
      sendUnsentSIDs now n alg
    else
      .ok (n + 1, alg)

/-- `sendRequestsToSocket`.  Neither loop runs when the effective window is not positive. -/
def sendRequestsToSocket : Except Fault (PccpAlg W) := do
  let (effectiveWindow, alg) ← sendUnsentRexmits now alg.effectiveWindow.toNat alg
  let (_, alg) ← sendUnsentSIDs now effectiveWindow alg
  return alg

/-- `retransmitRequest`.  At an effective window of zero the request may be sent again, because it
is still counted as in flight. -/
def retransmitRequest (sid : SID) : Except Fault (PccpAlg W) := do
  if alg.effectiveWindow < 0 then
    let sendQueue ← alg.sendQueue.enqueueRexmit sid
    return { alg with sendQueue }
  else
    let timer := alg.sendQueue.findRexmitTimer sid
    (alg.sendGET sid).scheduleTimeout now timer alg.state.rexmitTimeout

/-- The exponential back-off of `processRexmitTimer`: at most once in one RTO. -/
def doubleTimeout (state : PccpStateVariables W) (now : SimTime) : PccpStateVariables W :=
  if now > state.lastTimeoutDoubledTime + state.rexmitTimeout then
    let doubled := state.rexmitTimeout + state.rexmitTimeout
    { state with
      rexmitTimeout := if doubled > MAX_REXMIT_TIMEOUT then MAX_REXMIT_TIMEOUT else doubled
      lastTimeoutDoubledTime := now }
  else
    state

def processRexmitTimer (timer : Timer) : Except Fault (PccpAlg W) := do
  let sid ← alg.sendQueue.findSID timer
  let state :=
    if alg.state.rtsidSendtime ≠ 0 ∧ alg.state.rtsid = sid then
      { alg.state with rtsidSendtime := 0 }
    else alg.state
  let (count, sendQueue) := (alg.sendQueue.increaseRexmitCount sid).getRexmitCount sid
  if count > alg.pccpApp.maxRexmitLimit then
    let sendQueue ← sendQueue.discard sid
    let alg := { alg with state, sendQueue, aborted := alg.aborted ++ [sid] }
    alg.sendRequestsToSocket now
  else
    let alg := { alg with state := doubleTimeout state now, sendQueue }
    alg.retransmitRequest now sid

def rttMeasurementComplete (state : PccpStateVariables W) (timeSent timeReceived : SimTime) :
    PccpStateVariables W :=
  let g : W := ofRat (1 / 8)
  let newRTT := timeReceived - timeSent
  let err := newRTT - state.srtt
  let srtt := state.srtt + scale g err
  let rttvar := state.rttvar + scale g (|err| - state.rttvar)
  let rto := srtt + 4 * rttvar
  let rto := if rto > MAX_REXMIT_TIMEOUT then MAX_REXMIT_TIMEOUT else rto
  let rto := if rto < MIN_REXMIT_TIMEOUT then MIN_REXMIT_TIMEOUT else rto
  { state with srtt, rttvar, rexmitTimeout := rto }

/-- The window adjustment of `dataReceived`. -/
def adjustWindow (app : PccpApp) (state : PccpStateVariables W) (now : SimTime)
    (congestionLevel : PccpClCode) : PccpStateVariables W :=
  let state :=
    if congestionLevel ≠ .CONGESTED then { state with numContinuousCongested := 0 }
    else { state with numContinuousCongested := state.numContinuousCongested + 1 }
  let state :=
    match congestionLevel with
    | .FREE => { state with window := add state.window (div (ofRat 1) state.window) }
    | .BUSY_1 => { state with window := add state.window (div (ofRat (1 / 2)) state.window) }
    | .BUSY_2 => { state with window := sub state.window (div (ofRat 1) state.window) }
    | .CONGESTED =>
      if now > state.lastCongRcvd + state.srtt then
        { state with lastCongRcvd := now, window := mul state.window (ofRat (1 / 2)) }
      else state
  let state :=
    if lt state.window (ofRat 1) then { state with window := ofRat 1 } else state
  if app.congestionControlEnabled then state else { state with window := VERY_LARGE_WINDOW }

def dataReceived (sid : SID) (congestionLevel : PccpClCode) : Except Fault (PccpAlg W) := do
  let state :=
    if alg.state.rtsidSendtime ≠ 0 ∧ alg.state.rtsid = sid then
      { rttMeasurementComplete alg.state alg.state.rtsidSendtime now with rtsidSendtime := 0 }
    else alg.state
  let alg := { alg with state }
  let alg ←
    match alg.sendQueue.findRexmitTimer sid with
    | none => .ok alg
    | some timer => do
      let (_, sendQueue) := alg.sendQueue.getFirstTransTime sid
      let sendQueue ← sendQueue.discard sid
      .ok { alg with sendQueue, timers := alg.timers.cancelEvent timer }
  let alg := { alg with state := adjustWindow alg.pccpApp alg.state now congestionLevel }
  alg.sendRequestsToSocket now

def sendRequest (sid : SID) : Except Fault (PccpAlg W) :=
  { alg with sendQueue := alg.sendQueue.enqueueRequest sid }.sendRequestsToSocket now

end PccpAlg

/-- What happens to a consumer. -/
inductive Action
  /-- The application requests a SID. -/
  | sendRequest (sid : SID)
  /-- The socket delivers Data with a congestion level. -/
  | dataReceived (sid : SID) (congestionLevel : PccpClCode)
  /-- A retransmission timer expires. -/
  | rexmitTimer (timer : Timer)
  deriving DecidableEq

/-- An action and the clock reading at which it happens. -/
structure Event where
  now : SimTime
  action : Action
  deriving DecidableEq

/-- The kernel takes an expiring timer out of the future event set before it delivers it. -/
def handle {W : Type} [DoubleArith W] (alg : PccpAlg W) (event : Event) :
    Except Fault (PccpAlg W) :=
  match event.action with
  | .sendRequest sid => alg.sendRequest event.now sid
  | .dataReceived sid level => alg.dataReceived event.now sid level
  | .rexmitTimer timer =>
    { alg with timers := alg.timers.remove timer }.processRexmitTimer event.now timer

/-- A consumer receives any request and any Data at any time, and an expiration of any timer that
is scheduled.  No relation between the clock readings is imposed. -/
def consumer (W : Type) [DoubleArith W] : Machine (PccpAlg W) Event Fault where
  Enabled alg event := ∀ timer, event.action = .rexmitTimer timer → timer ∈ alg.timers
  handle := handle

instance {W : Type} [DoubleArith W] (alg : PccpAlg W) (event : Event) :
    Decidable ((consumer W).Enabled alg event) :=
  match event with
  | ⟨_, .sendRequest _⟩ => isTrue fun _ h ↦ by cases h
  | ⟨_, .dataReceived _ _⟩ => isTrue fun _ h ↦ by cases h
  | ⟨_, .rexmitTimer timer⟩ =>
    decidable_of_iff (timer ∈ alg.timers)
      ⟨fun h _ heq ↦ by cases heq; exact h, fun h ↦ h timer rfl⟩

/-- The SIDs requested in a list of events. -/
def requestedSids (events : List Event) : List SID :=
  events.filterMap fun event ↦
    match event.action with
    | .sendRequest sid => some sid
    | _ => none

/-- The SIDs answered in a list of events. -/
def answeredSids (events : List Event) : List SID :=
  events.filterMap fun event ↦
    match event.action with
    | .dataReceived sid _ => some sid
    | _ => none

end Inet4.Pccp
