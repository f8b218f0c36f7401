import Inet4.Machine
import Inet4.Tcp.SackRegions

/-!
# The SACK retransmission queue as a map of bytes

Abstractly the queue is the sequence number of its first byte and the flags of its bytes, and each
call changes the flags of the bytes of a range.  The queue refines this map as long as `init`, which
does not flush the regions, is called on a queue without regions only.
-/

namespace Inet4.Tcp.SackRexmitQueue

open Machine List Flags Nat
open BitVec (ofNat)

/-- The flags of the bytes from a sequence number on. -/
structure ByteMap where
  begin : SeqNum
  bytes : List Flags
deriving DecidableEq

/-- The bytes of the queue. -/
def byteMap (q : SackRexmitQueue) : ByteMap := ⟨q.begin, bytesOf q.rexmitQueue⟩

/-- `n` elements of a list changed, from the first one on. -/
def changeRange {α : Type} (first n : ℕ) (f : α → α) (l : List α) : List α :=
  l.take first ++ mapPrefix n f (l.drop first)

@[simp]
theorem length_changeRange {α : Type} (first n : ℕ) (f : α → α) (l : List α) :
    (changeRange first n f l).length = l.length := by
  rw [changeRange, length_append, length_mapPrefix, ← length_append,
    take_append_drop]

/-- `changeRange` changes exactly the elements of the range. -/
theorem getElem?_changeRange {α : Type} (first n : ℕ) (f : α → α) (l : List α) (k : ℕ) :
    (changeRange first n f l)[k]? =
      if first ≤ k ∧ k < first + n then l[k]?.map f else l[k]? := by
  by_cases hlength : k < l.length
  · rw [changeRange, mapPrefix, getElem?_append, getElem?_append, length_map,
      length_take, length_take, length_drop]
    by_cases hfirst : k < first
    · rw [if_pos (by omega), if_neg (by omega), getElem?_take_of_lt hfirst]
    · have hk : first + (k - min first l.length) = k := by omega
      rw [if_neg (by omega)]
      by_cases hn : k < first + n
      · rw [if_pos (by omega), if_pos ⟨by omega, hn⟩, getElem?_map,
          getElem?_take_of_lt (by omega), getElem?_drop, hk]
      · have hk' : first + (n + (k - min first l.length - min n (l.length - first))) = k := by omega
        rw [if_neg (by omega), if_neg (by omega), getElem?_drop, getElem?_drop, hk']
  · have hnone : l[k]? = none := getElem?_eq_none (by omega)
    rw [hnone, getElem?_eq_none (by rw [length_changeRange]; omega), Option.map_none, ite_self]

namespace ByteMap

variable (m : ByteMap)

def «end» : SeqNum := advance m.begin m.bytes.length

/-- The bytes of a range are sent: the known ones once more, the others for the first time. -/
def send (fromSeqNum toSeqNum : SeqNum) : ByteMap :=
  let first := distance m.begin fromSeqNum
  let n := distance fromSeqNum toSeqNum
  ⟨m.begin, changeRange first n rexmit m.bytes ++
    replicate (first + n - m.bytes.length) fresh⟩

/-- The bytes of a range that are known are sacked. -/
def sack (fromSeqNum toSeqNum : SeqNum) : ByteMap :=
  let first := if seqLess fromSeqNum m.begin then m.begin else fromSeqNum
  ⟨m.begin, changeRange (distance m.begin first) (distance first toSeqNum) Flags.sack m.bytes⟩

def discard (seqNum : SeqNum) : ByteMap := ⟨seqNum, m.bytes.drop (distance m.begin seqNum)⟩

/-- The bytes from a sequence number on. -/
def bytesFrom (seqNum : SeqNum) : List Flags := m.bytes.drop (distance m.begin seqNum)

end ByteMap

/-- A call that changes the queue. -/
inductive Call
  | init (seqNum : SeqNum)
  | enqueueSentData (fromSeqNum toSeqNum : SeqNum)
  | setSackedBit (fromSeqNum toSeqNum : SeqNum)
  | discardUpTo (seqNum : SeqNum)
  | resetSackedBit
  | resetRexmittedBit
deriving DecidableEq

/-- What a call does to the bytes. -/
def Call.apply (m : ByteMap) : Call → ByteMap
  | .init seqNum => ⟨seqNum, []⟩
  | .enqueueSentData fromSeqNum toSeqNum => m.send fromSeqNum toSeqNum
  | .setSackedBit fromSeqNum toSeqNum => m.sack fromSeqNum toSeqNum
  | .discardUpTo seqNum => m.discard seqNum
  | .resetSackedBit => ⟨m.begin, m.bytes.map fun flags ↦ { flags with sacked := false }⟩
  | .resetRexmittedBit => ⟨m.begin, m.bytes.map fun flags ↦ { flags with rexmitted := false }⟩

/-- The preconditions that the queue asserts, and the bound on the outstanding data. -/
def Admitted (q : SackRexmitQueue) : Call → Prop
  | .init _ => True
  | .enqueueSentData fromSeqNum toSeqNum =>
    seqLE q.begin fromSeqNum ∧ seqLE fromSeqNum q.end ∧ seqLess fromSeqNum toSeqNum ∧
      distance q.begin fromSeqNum + distance fromSeqNum toSeqNum < 2 ^ 31
  | .setSackedBit fromSeqNum toSeqNum =>
    seqLess (q.firstSacked fromSeqNum) q.end ∧ seqLess q.begin toSeqNum ∧ seqLE toSeqNum q.end ∧
      seqLess (q.firstSacked fromSeqNum) toSeqNum
  | .discardUpTo seqNum => seqLE q.begin seqNum ∧ seqLE seqNum q.end
  | .resetSackedBit => True
  | .resetRexmittedBit => True

/-- `init` is called on a queue without regions. -/
def InitsEmpty (q : SackRexmitQueue) : Call → Prop
  | .init _ => q.rexmitQueue = []
  | _ => True

/-- The queue and its users. -/
def machine : Machine SackRexmitQueue Call Fault where
  Enabled := Admitted
  handle q call :=
    match call with
    | .init seqNum => .ok (q.init seqNum)
    | .enqueueSentData fromSeqNum toSeqNum => q.enqueueSentData fromSeqNum toSeqNum
    | .setSackedBit fromSeqNum toSeqNum => q.setSackedBit fromSeqNum toSeqNum
    | .discardUpTo seqNum => q.discardUpTo seqNum
    | .resetSackedBit => .ok q.resetSackedBit
    | .resetRexmittedBit => .ok q.resetRexmittedBit

instance (q : SackRexmitQueue) (call : Call) : Decidable (Admitted q call) :=
  match call with
  | .init _ | .resetSackedBit | .resetRexmittedBit => isTrue trivial
  | .enqueueSentData .. | .setSackedBit .. | .discardUpTo _ => inferInstanceAs (Decidable (_ ∧ _))

instance (q : SackRexmitQueue) (call : Call) : Decidable (InitsEmpty q call) :=
  match call with
  | .init _ => inferInstanceAs (Decidable (_ = _))
  | .enqueueSentData .. | .setSackedBit .. | .discardUpTo _ | .resetSackedBit
  | .resetRexmittedBit => isTrue trivial

instance (q : SackRexmitQueue) (call : Call) : Decidable (machine.Enabled q call) :=
  inferInstanceAs (Decidable (Admitted q call))

/-- The queries return what they should of the bytes. -/
structure Queries (q : SackRexmitQueue) : Prop where
  getSackedBit : ∀ seqNum, seqLE q.begin seqNum → seqLE seqNum q.end → q.getSackedBit seqNum =
    .ok ((q.byteMap.bytesFrom seqNum).head?.any sacked)
  getTotalAmountOfSackedBytes : q.getTotalAmountOfSackedBytes =
    ofNat 32 (q.byteMap.bytes.countP Flags.sacked)
  getAmountOfSackedBytes : ∀ fromSeqNum, seqLE q.begin fromSeqNum → seqLE fromSeqNum q.end →
    q.getAmountOfSackedBytes fromSeqNum =
      .ok (ofNat 32 ((q.byteMap.bytesFrom fromSeqNum).countP Flags.sacked))
  getNumOfDiscontiguousSacks : ∀ fromSeqNum, seqLE q.begin fromSeqNum → seqLE fromSeqNum q.end →
    q.getNumOfDiscontiguousSacks fromSeqNum =
      .ok (ofNat 32 (sackedRuns false (q.byteMap.bytesFrom fromSeqNum)))
  getHighestSackedSeqNum : q.getHighestSackedSeqNum =
    advance q.begin (upToLast sacked q.byteMap.bytes)
  getHighestRexmittedSeqNum : q.getHighestRexmittedSeqNum =
    advance q.begin (upToLast rexmitted q.byteMap.bytes)
  checkRexmitQueueForSackedOrRexmittedSegments :
    ∀ fromSeqNum, seqLE q.begin fromSeqNum → seqLE fromSeqNum q.end →
      q.checkRexmitQueueForSackedOrRexmittedSegments fromSeqNum =
        .ok (ofNat 32 ((q.byteMap.bytesFrom fromSeqNum).takeWhile Flags.marked).length)

/-- The regions are in order, and less than half of the ring is outstanding. -/
structure Valid (q : SackRexmitQueue) : Prop where
  check : q.checkQueue
  bound : q.byteMap.bytes.length < 2 ^ 31

variable {q r : SackRexmitQueue} {seqNum fromSeqNum toSeqNum : SeqNum} {k n : ℕ}

theorem Valid.end_eq (h : q.Valid) : q.end = q.byteMap.end := end_eq_of_checkRegions h.check

/-- A sequence number from the begin on up to the end. -/
theorem Valid.exists_advance (h : q.Valid) (hbegin : seqLE q.begin seqNum)
    (hend : seqLE seqNum q.end) :
    ∃ k, seqNum = advance q.begin k ∧ distance q.begin seqNum = k ∧ k ≤ q.byteMap.bytes.length := by
  have hbound := h.bound
  have hk := advance_distance q.begin seqNum
  rw [seqLE] at hbegin
  refine ⟨distance q.begin seqNum, hk.symm, rfl, ?_⟩
  rw [h.end_eq, ← hk] at hend
  exact (seqLE_advance_iff (by omega) (by omega)).mp hend

/-! ## Calls -/

theorem splitRegion_snd (i : Region) (seqNum : SeqNum) :
    (splitRegion i seqNum).2 = { i with beginSeqNum := seqNum } := by
  unfold splitRegion
  split
  · rfl
  · rename_i hbegin
    rw [← not_not.mp hbegin]

/-- The search for the end finds no region. -/
theorem regionsFrom_end {b e : SeqNum} {regions : List Region} (h : checkRegions b regions e)
    (hbound : (bytesOf regions).length < 2 ^ 31) :
    regionsFrom regions (advance b (bytesOf regions).length) = [] := by
  induction regions generalizing b with
  | nil => rfl
  | cons i regions ih =>
    obtain ⟨rfl, hless, hrest⟩ := h
    rw [bytesOf_cons, length_append, length_bytes] at hbound ⊢
    have hend : i.endSeqNum = advance i.beginSeqNum i.length := endSeqNum_eq i
    have hle : seqLE i.endSeqNum
        (advance i.beginSeqNum (i.length + (bytesOf regions).length)) := by
      rw [hend, seqLE_advance_iff (by omega) (by omega)]
      exact le_add_right _ _
    rw [regionsFrom, dropWhile_cons_of_pos (by simpa using hle), ← advance_advance, ← hend]
    exact ih hrest (by omega)

theorem withRegions_eq {b e : SeqNum} {regions : List Region} (h : checkRegions b regions e)
    (hne : regions ≠ []) : withRegions regions = .ok ⟨regions, b, e⟩ := by
  have hfront : ∃ front, regions.head? = some front ∧ front.beginSeqNum = b := by
    cases regions with
    | nil => exact absurd rfl hne
    | cons i regions => exact ⟨i, rfl, h.1.symm⟩
  have hback : ∃ back, regions.getLast? = some back ∧ back.endSeqNum = e := by
    obtain ⟨init, last, rfl⟩ : ∃ init last, regions = init ++ [last] :=
      ⟨regions.dropLast, regions.getLast hne, (dropLast_append_getLast hne).symm⟩
    obtain ⟨c, -, -, -, hend⟩ := checkRegions_append.mp h
    exact ⟨last, getLast?_concat, hend⟩
  obtain ⟨front, hhead, rfl⟩ := hfront
  obtain ⟨back, hlast, rfl⟩ := hback
  have hcheck : checkQueue ⟨regions, front.beginSeqNum, back.endSeqNum⟩ := h
  rw [withRegions, hhead, hlast]
  simp only [bind_of_ok (assert_of hcheck)]
  rfl

theorem discardUpTo_spec (h : q.Valid) (hbegin : seqLE q.begin seqNum)
    (hend : seqLE seqNum q.end) :
    ∃ r, q.discardUpTo seqNum = .ok r ∧ r.Valid ∧ r.byteMap = q.byteMap.discard seqNum := by
  obtain ⟨k, rfl, hdistance, hk⟩ := h.exists_advance hbegin hend
  have hbound := h.bound
  obtain ⟨regions, hregions, hchain, hbytes⟩ : ∃ regions,
      discardRegions q.rexmitQueue (advance q.begin k) = .ok regions ∧
      checkRegions (advance q.begin k) regions q.end ∧
      bytesOf regions = q.byteMap.bytes.drop k := by
    rcases lt_or_ge k q.byteMap.bytes.length with hlt | hge
    · obtain ⟨i, rest, hfrom, hcontains, -, hbehind, -, hbytes⟩ := exists_cutAt h.check hlt hbound
      rw [splitRegion_snd] at hbehind hbytes
      refine ⟨_, ?_, hbehind, hbytes⟩
      rw [discardRegions, hfrom]
      simp only [bind_of_ok (assert_of hcontains)]
      rfl
    · obtain rfl := le_antisymm hk hge
      refine ⟨[], ?_, h.end_eq.symm, ?_⟩
      · have hnone : regionsFrom q.rexmitQueue (advance q.begin q.byteMap.bytes.length) = [] :=
          regionsFrom_end h.check hbound
        rw [discardRegions, hnone]
      · rw [drop_length]
        rfl
  have hcheck : checkQueue { q with rexmitQueue := regions, begin := advance q.begin k } := hchain
  refine ⟨{ q with rexmitQueue := regions, begin := advance q.begin k }, ?_, ⟨hcheck, ?_⟩, ?_⟩
  · rw [discardUpTo, bind_of_ok (assert_of ⟨hbegin, hend⟩), bind_of_ok hregions]
    simp only [bind_of_ok (assert_of hcheck)]
    rfl
  · change (bytesOf regions).length < 2 ^ 31
    rw [hbytes, length_drop]
    omega
  · rw [ByteMap.discard]
    change ByteMap.mk _ (bytesOf regions) = _
    rw [hbytes]
    change _ = ByteMap.mk _ (q.byteMap.bytes.drop (distance q.begin _))
    rw [hdistance]

theorem enqueueSentData_spec (h : q.Valid) (hbegin : seqLE q.begin fromSeqNum)
    (hend : seqLE fromSeqNum q.end) (hless : seqLess fromSeqNum toSeqNum)
    (hroom : distance q.begin fromSeqNum + distance fromSeqNum toSeqNum < 2 ^ 31) :
    ∃ r, q.enqueueSentData fromSeqNum toSeqNum = .ok r ∧ r.Valid ∧
      r.byteMap = q.byteMap.send fromSeqNum toSeqNum := by
  obtain ⟨k, rfl, hdistance, hk⟩ := h.exists_advance hbegin hend
  have hbound := h.bound
  obtain ⟨n, hn⟩ : ∃ n, distance (advance q.begin k) toSeqNum = n := ⟨_, rfl⟩
  have hto : toSeqNum = advance (advance q.begin k) n := by rw [← hn, advance_distance]
  subst hto
  rw [hdistance, hn] at hroom
  have hpos : 0 < n := by
    apply pos_of_ne_zero
    rintro rfl
    rw [advance_zero] at hless
    exact hless.1 rfl
  -- it suffices to find regions for the bytes that the call leaves
  suffices hregions : ∃ regions, regions ≠ [] ∧
      q.enqueueSentData (advance q.begin k) (advance (advance q.begin k) n) = withRegions regions ∧
      checkRegions q.begin regions (advance q.begin (max q.byteMap.bytes.length (k + n))) ∧
      bytesOf regions = changeRange k n rexmit q.byteMap.bytes ++
        replicate (k + n - q.byteMap.bytes.length) fresh by
    obtain ⟨regions, hne, hcall, hchain, hbytes⟩ := hregions
    refine ⟨_, hcall.trans (withRegions_eq hchain hne), ⟨hchain, ?_⟩, ?_⟩
    · change (bytesOf regions).length < 2 ^ 31
      rw [hbytes, length_append, changeRange, length_append, length_mapPrefix,
        length_take, length_drop, length_replicate]
      omega
    · rw [ByteMap.send]
      change ByteMap.mk _ (bytesOf regions) =
        ByteMap.mk _ (changeRange (distance q.begin _) _ _ _ ++
        replicate (distance q.begin _ + _ - _) _)
      rw [hbytes, hdistance, hn]
      rfl
  rw [enqueueSentData, bind_of_ok (assert_of ⟨hbegin, hend⟩), bind_of_ok (assert_of hless)]
  rcases lt_or_ge k q.byteMap.bytes.length with hlt | hge
  · have hnew : ¬(q.rexmitQueue = [] ∨ q.end = advance q.begin k) := by
      rintro (hnil | hend')
      · rw [byteMap, hnil] at hlt
        exact not_lt_zero k hlt
      · rw [h.end_eq] at hend'
        change advance q.begin q.byteMap.bytes.length = advance q.begin k at hend'
        rw [advance_inj (by omega) (by omega)] at hend'
        omega
    obtain ⟨i, rest, hfrom, hcontains, hbefore, hbehind, hbytesBefore, hbytesBehind⟩ :=
      exists_cutAt h.check hlt hbound
    have hdrop : (bytesOf ((splitRegion i (advance q.begin k)).2 :: rest)).length =
        q.byteMap.bytes.length - k := by
      rw [hbytesBehind, length_drop]
      rfl
    obtain ⟨result, hresult, hchain, hbytes⟩ := rexmitRegions_eq hbehind (n := n)
      (by rw [hdrop]; omega) (by omega)
    rw [if_neg hnew, hfrom]
    simp only [bind_of_ok (assert_of hcontains), bind_of_ok hresult]
    refine ⟨_, ?_, rfl, checkRegions_append.mpr ⟨_, hbefore, ?_⟩, ?_⟩
    · intro hnil
      have hresultNil := (append_eq_nil_iff.mp hnil).2
      rw [hresultNil, bytesOf_nil] at hbytes
      have hlength := congrArg length hbytes
      rw [length_resend, length_nil] at hlength
      omega
    · convert hchain using 1
      rw [hdrop, advance_advance]
      congr 1
      omega
    · rw [bytesOf_append, hbytesBefore, hbytes, hbytesBehind, resend, changeRange, append_assoc,
        length_drop]
      rw [show n - ((bytesOf q.rexmitQueue).length - k) = k + n - (bytesOf q.rexmitQueue).length by
        change k < (bytesOf q.rexmitQueue).length at hlt
        omega]
      rfl
  · obtain rfl := le_antisymm hk hge
    have hend' : q.end = advance q.begin q.byteMap.bytes.length := h.end_eq
    set new : Region := ⟨advance q.begin q.byteMap.bytes.length,
      advance (advance q.begin q.byteMap.bytes.length) n, false, false⟩
    have hnil : checkRegions (advance (advance q.begin q.byteMap.bytes.length) n) []
        (advance (advance q.begin q.byteMap.bytes.length) n) := rfl
    obtain ⟨hchain, hnew⟩ := checkRegions_cons_advance new rfl rfl hpos (by omega) hnil
    rw [if_pos (.inr hend')]
    refine ⟨q.rexmitQueue ++ [new], by simp, rfl, checkRegions_append.mpr ⟨_, h.check, ?_⟩, ?_⟩
    · rw [hend', max_eq_right (le_add_right _ _), ← advance_advance]
      exact hchain
    · rw [bytesOf_append, bytesOf_cons, bytesOf_nil, append_nil, bytes_mk hnew,
        Nat.add_sub_cancel_left, changeRange, take_length, drop_length, mapPrefix,
        take_nil, drop_nil, map_nil, append_nil, append_nil]
      rfl

/-- The first byte that is sacked is not before the begin of the queue. -/
theorem distance_firstSacked_le (q : SackRexmitQueue) (fromSeqNum : SeqNum) :
    distance q.begin (q.firstSacked fromSeqNum) ≤ 2 ^ 31 := by
  rw [firstSacked]
  split
  · rw [distance_self]
    exact zero_le _
  · rename_i hnot
    by_cases heq : fromSeqNum = q.begin
    · rw [heq, distance_self]
      exact zero_le _
    · have hge : ¬distance fromSeqNum q.begin < 2 ^ 31 := fun hlt ↦ hnot ⟨heq, hlt⟩
      have hsum := distance_add_distance heq
      omega

/-- The first byte that is sacked lies in the queue. -/
theorem Valid.exists_firstSacked (h : q.Valid) (hend : seqLess (q.firstSacked fromSeqNum) q.end) :
    ∃ k, q.firstSacked fromSeqNum = advance q.begin k ∧
      distance q.begin (q.firstSacked fromSeqNum) = k ∧ k < q.byteMap.bytes.length := by
  have hbound := h.bound
  have hk := advance_distance q.begin (q.firstSacked fromSeqNum)
  have hle := q.distance_firstSacked_le fromSeqNum
  refine ⟨distance q.begin (q.firstSacked fromSeqNum), hk.symm, rfl, ?_⟩
  rw [h.end_eq, ← hk] at hend
  exact (seqLess_advance_iff (by omega) (by omega)).mp hend

theorem setSackedBit_spec (h : q.Valid) (hfrom : seqLess (q.firstSacked fromSeqNum) q.end)
    (hto : seqLess q.begin toSeqNum ∧ seqLE toSeqNum q.end)
    (hless : seqLess (q.firstSacked fromSeqNum) toSeqNum) :
    ∃ r, q.setSackedBit fromSeqNum toSeqNum = .ok r ∧ r.Valid ∧
      r.byteMap = q.byteMap.sack fromSeqNum toSeqNum := by
  have hbound := h.bound
  obtain ⟨k, hfirst, hdistance, hk⟩ := h.exists_firstSacked hfrom
  obtain ⟨j, htoEq, -, hj⟩ := h.exists_advance hto.1.2 hto.2
  have hkj : k < j := by
    rw [hfirst, htoEq] at hless
    exact (seqLess_advance_iff (by omega) (by omega)).mp hless
  have htoEq' : toSeqNum = advance (advance q.begin k) (0 + (j - k)) := by
    rw [Nat.zero_add, advance_advance, Nat.add_sub_cancel' (Nat.le_of_lt hkj)]
    exact htoEq
  have hn : distance (advance q.begin k) toSeqNum = j - k := by
    rw [htoEq, distance_advance_advance (le_of_lt hkj) (by omega)]
  obtain ⟨i, rest, hcut⟩ := exists_cutAt h.check hk hbound
  have hdrop : (bytesOf ((splitRegion i (advance q.begin k)).2 :: rest)).length =
      q.byteMap.bytes.length - k := by
    rw [hcut.bytes_behind, length_drop]
    rfl
  obtain ⟨hchain, hbytes⟩ := sackRegions_eq (b := advance q.begin k) (m := 0) (n := j - k)
    (by rw [advance_zero]; exact hcut.behind) (by omega) (by omega)
  rw [advance_zero] at hchain
  set regions := regionsBefore q.rexmitQueue (advance q.begin k) ++
    (splitRegion i (advance q.begin k)).1 ++ sackRegions (advance q.begin k)
      (advance (advance q.begin k) (0 + (j - k))) ((splitRegion i (advance q.begin k)).2 :: rest)
    with hregions
  have hcheck : checkQueue { q with rexmitQueue := regions } :=
    checkRegions_append.mpr ⟨_, hcut.before, hchain⟩
  have hbytesOf : bytesOf regions = changeRange k (j - k) sack q.byteMap.bytes := by
    rw [hregions, bytesOf_append, hcut.bytes_before, hbytes, hcut.bytes_behind]
    rfl
  have hcall : sackedRegions q.rexmitQueue (advance q.begin k) toSeqNum = .ok regions := by
    have hne : q.rexmitQueue ≠ [] := by
      intro hnil
      rw [byteMap, hnil] at hk
      exact not_lt_zero k hk
    rw [sackedRegions, if_neg hne, hcut.regionsFrom]
    simp only [bind_of_ok (assert_of hcut.contains)]
    rw [hregions, ← htoEq']
    rfl
  refine ⟨{ q with rexmitQueue := regions }, ?_, ⟨hcheck, ?_⟩, ?_⟩
  · rw [setSackedBit, bind_of_ok (assert_of hfrom), bind_of_ok (assert_of hto),
      bind_of_ok (assert_of hless), hfirst, bind_of_ok hcall]
    simp only [bind_of_ok (assert_of hcheck)]
    rfl
  · change (bytesOf regions).length < 2 ^ 31
    rw [hbytesOf, length_changeRange]
    exact hbound
  · rw [ByteMap.sack]
    change ByteMap.mk _ (bytesOf regions) = ByteMap.mk _ (changeRange
      (distance q.begin (q.firstSacked fromSeqNum)) (distance (q.firstSacked fromSeqNum) _) _ _)
    rw [hbytesOf, hdistance, hfirst, hn]
    rfl

/-- Changing the flags of the regions keeps their ends. -/
theorem checkRegions_map {b e : SeqNum} {regions : List Region} {f : Region → Region}
    (hbegin : ∀ i, (f i).beginSeqNum = i.beginSeqNum) (hend : ∀ i, (f i).endSeqNum = i.endSeqNum) :
    checkRegions b (regions.map f) e ↔ checkRegions b regions e := by
  induction regions generalizing b with
  | nil => rfl
  | cons i regions ih => rw [map_cons, checkRegions, checkRegions, hbegin, hend, ih]

theorem bytesOf_map {regions : List Region} {f : Region → Region} {g : Flags → Flags}
    (hlength : ∀ i, (f i).length = i.length) (hflags : ∀ i, (f i).flags = g i.flags) :
    bytesOf (regions.map f) = (bytesOf regions).map g := by
  induction regions with
  | nil => rfl
  | cons i regions ih =>
    rw [map_cons, bytesOf_cons, bytesOf_cons, map_append, ih,
      bytes_of_marked (hlength i) (hflags i)]

theorem valid_of_map {f : Region → Region} {g : Flags → Flags} (h : q.Valid)
    (hbegin : ∀ i, (f i).beginSeqNum = i.beginSeqNum) (hend : ∀ i, (f i).endSeqNum = i.endSeqNum)
    (hflags : ∀ i, (f i).flags = g i.flags) :
    Valid { q with rexmitQueue := q.rexmitQueue.map f } ∧
      byteMap { q with rexmitQueue := q.rexmitQueue.map f } =
        ⟨q.begin, q.byteMap.bytes.map g⟩ := by
  have hbytes : bytesOf (q.rexmitQueue.map f) = q.byteMap.bytes.map g := by
    apply bytesOf_map _ hflags
    intro i
    rw [Region.length, hbegin, hend]
    rfl
  refine ⟨⟨(checkRegions_map hbegin hend).mpr h.check, ?_⟩, congrArg (ByteMap.mk q.begin) hbytes⟩
  change (bytesOf (q.rexmitQueue.map f)).length < 2 ^ 31
  rw [hbytes, length_map]
  exact h.bound

/-! ## Queries -/

theorem head?_bytes_append {i : Region} (hpos : 0 < i.length) (bytes : List Flags) :
    (i.bytes ++ bytes).head? = some i.flags := by
  obtain ⟨n, hn⟩ := exists_eq_succ_of_ne_zero (ne_of_gt hpos)
  rw [Region.bytes, hn, replicate_succ]
  rfl

theorem bytesFrom_advance {m : ByteMap} (hk : k < 2 ^ 32) :
    m.bytesFrom (advance m.begin k) = m.bytes.drop k := by
  rw [ByteMap.bytesFrom, distance_advance_of_lt hk]

theorem Valid.end_eq_advance_iff (h : q.Valid) (hk : k ≤ q.byteMap.bytes.length) :
    q.end = advance q.begin k ↔ k = q.byteMap.bytes.length := by
  have hbound := h.bound
  rw [h.end_eq]
  change advance q.begin q.byteMap.bytes.length = _ ↔ _
  rw [advance_inj (by omega) (by omega)]
  exact eq_comm

theorem Valid.getSackedBit_eq (h : q.Valid) (hbegin : seqLE q.begin seqNum)
    (hend : seqLE seqNum q.end) :
    q.getSackedBit seqNum = .ok ((q.byteMap.bytesFrom seqNum).head?.any sacked) := by
  have hbound := h.bound
  obtain ⟨k, rfl, -, hk⟩ := h.exists_advance hbegin hend
  have hbytes : q.byteMap.bytesFrom (advance q.begin k) = q.byteMap.bytes.drop k :=
    bytesFrom_advance (by omega)
  rw [getSackedBit, bind_of_ok (assert_of ⟨hbegin, hend⟩), hbytes]
  by_cases hlast : k = q.byteMap.bytes.length
  · rw [if_pos ((h.end_eq_advance_iff hk).mpr hlast), drop_eq_nil_of_le (le_of_eq hlast.symm)]
    rfl
  · obtain ⟨i, rest, hcut⟩ := exists_cutAt h.check (lt_of_le_of_ne hk hlast) hbound
    have hpos := length_pos_of_seqLess hcut.behind.2.1
    have hbehind := hcut.bytes_behind
    rw [bytesOf_cons] at hbehind
    change _ = q.byteMap.bytes.drop k at hbehind
    rw [if_neg (mt (h.end_eq_advance_iff hk).mp hlast), hcut.regionsFrom, ← hbehind,
      head?_bytes_append hpos, splitRegion_snd]
    simp only [bind_of_ok (assert_of hcut.contains)]
    rfl

theorem Valid.getAmountOfSackedBytes_eq (h : q.Valid) (hbegin : seqLE q.begin fromSeqNum)
    (hend : seqLE fromSeqNum q.end) :
    q.getAmountOfSackedBytes fromSeqNum =
      .ok (ofNat 32 ((q.byteMap.bytesFrom fromSeqNum).countP Flags.sacked)) := by
  have hbound := h.bound
  obtain ⟨k, rfl, -, hk⟩ := h.exists_advance hbegin hend
  have hbytes : q.byteMap.bytesFrom (advance q.begin k) = q.byteMap.bytes.drop k :=
    bytesFrom_advance (by omega)
  rw [getAmountOfSackedBytes, bind_of_ok (assert_of ⟨hbegin, hend⟩),
    sackedAbove_eq h.check hk hbound, zero_add_ofNat, hbytes]
  rfl

theorem Valid.getNumOfDiscontiguousSacks_eq (h : q.Valid) (hbegin : seqLE q.begin fromSeqNum)
    (hend : seqLE fromSeqNum q.end) :
    q.getNumOfDiscontiguousSacks fromSeqNum =
      .ok (ofNat 32 (sackedRuns false (q.byteMap.bytesFrom fromSeqNum))) := by
  have hbound := h.bound
  obtain ⟨k, rfl, -, hk⟩ := h.exists_advance hbegin hend
  have hbytes : q.byteMap.bytesFrom (advance q.begin k) = q.byteMap.bytes.drop k :=
    bytesFrom_advance (by omega)
  rw [getNumOfDiscontiguousSacks, bind_of_ok (assert_of ⟨hbegin, hend⟩), hbytes]
  by_cases hlast : k = q.byteMap.bytes.length
  · rw [if_pos (.inr ((h.end_eq_advance_iff hk).mpr hlast).symm),
      drop_eq_nil_of_le (le_of_eq hlast.symm)]
    rfl
  · have hlt := lt_of_le_of_ne hk hlast
    obtain ⟨i, rest, hcut⟩ := exists_cutAt h.check hlt hbound
    have hne : ¬(q.rexmitQueue = [] ∨ advance q.begin k = q.end) := by
      rintro (hnil | heq)
      · rw [byteMap, hnil] at hlt
        exact not_lt_zero k hlt
      · exact hlast ((h.end_eq_advance_iff hk).mp heq.symm)
    have hsame : discontiguousSacks false 0 (i :: rest) =
        discontiguousSacks false 0 ((splitRegion i (advance q.begin k)).2 :: rest) := by
      rw [splitRegion_snd]
      rfl
    rw [if_neg hne, hcut.regionsFrom, hsame, discontiguousSacks_eq hcut.behind, zero_add_ofNat,
      hcut.bytes_behind]
    rfl

theorem Valid.checkRexmitQueue_eq (h : q.Valid) (hbegin : seqLE q.begin fromSeqNum)
    (hend : seqLE fromSeqNum q.end) :
    q.checkRexmitQueueForSackedOrRexmittedSegments fromSeqNum =
      .ok (ofNat 32 ((q.byteMap.bytesFrom fromSeqNum).takeWhile Flags.marked).length) := by
  have hbound := h.bound
  obtain ⟨k, rfl, -, hk⟩ := h.exists_advance hbegin hend
  have hbytes : q.byteMap.bytesFrom (advance q.begin k) = q.byteMap.bytes.drop k :=
    bytesFrom_advance (by omega)
  rw [checkRexmitQueueForSackedOrRexmittedSegments, bind_of_ok (assert_of ⟨hbegin, hend⟩), hbytes]
  by_cases hlast : k = q.byteMap.bytes.length
  · rw [if_pos (.inr ((h.end_eq_advance_iff hk).mpr hlast)),
      drop_eq_nil_of_le (le_of_eq hlast.symm)]
    rfl
  · have hlt := lt_of_le_of_ne hk hlast
    obtain ⟨i, rest, hcut⟩ := exists_cutAt h.check hlt hbound
    have hne : ¬(q.rexmitQueue = [] ∨ q.end = advance q.begin k) := by
      rintro (hnil | heq)
      · rw [byteMap, hnil] at hlt
        exact not_lt_zero k hlt
      · exact hlast ((h.end_eq_advance_iff hk).mp heq)
    -- the search stops at a region that may begin before the sequence number
    have hsame : contiguousBytes (advance q.begin k) 0 (i :: rest) = contiguousBytes
        (advance q.begin k) 0 ((splitRegion i (advance q.begin k)).2 :: rest) := by
      have hself : seqLE (advance q.begin k) (advance q.begin k) ∧
          seqLess (advance q.begin k) i.endSeqNum := by
        refine ⟨?_, hcut.contains.2⟩
        rw [seqLE, distance_self]
        decide
      rw [splitRegion_snd, contiguousBytes, contiguousBytes, assert_of hcut.contains,
        assert_of hself]
    rw [if_neg hne, hcut.regionsFrom, hsame, contiguousBytes_eq hcut.behind, zero_add_ofNat,
      hcut.bytes_behind]
    rfl

theorem Valid.queries (h : q.Valid) : q.Queries where
  getSackedBit _ := h.getSackedBit_eq
  getTotalAmountOfSackedBytes := by
    rw [SackRexmitQueue.getTotalAmountOfSackedBytes, sackedSum_eq, zero_add_ofNat]
    rfl
  getAmountOfSackedBytes _ := h.getAmountOfSackedBytes_eq
  getNumOfDiscontiguousSacks _ := h.getNumOfDiscontiguousSacks_eq
  getHighestSackedSeqNum := highestEnd_eq (fun _ ↦ rfl) h.check
  getHighestRexmittedSeqNum := highestEnd_eq (fun _ ↦ rfl) h.check
  checkRexmitQueueForSackedOrRexmittedSegments _ := h.checkRexmitQueue_eq

/-! ## Runs -/

theorem valid_initial : initial.Valid := ⟨rfl, by decide⟩

/-- A queue without bytes has no regions. -/
theorem rexmitQueue_eq_nil {b e : SeqNum} {regions : List Region} (h : checkRegions b regions e)
    (hbytes : bytesOf regions = []) : regions = [] := by
  cases regions with
  | nil => rfl
  | cons i regions =>
    have hpos := length_pos_of_seqLess h.2.1
    have hlength := congrArg length (append_eq_nil_iff.mp hbytes).1
    rw [length_bytes, length_nil] at hlength
    omega

/-- An admitted call does to the bytes what it should. -/
theorem handle_spec {call : Call} (h : q.Valid) (hadmitted : Admitted q call)
    (hinit : InitsEmpty q call) :
    ∃ r, machine.handle q call = .ok r ∧ r.Valid ∧ r.byteMap = call.apply q.byteMap := by
  cases call with
  | init seqNum =>
    have hnil : q.rexmitQueue = [] := hinit
    have hbytes : (q.init seqNum).byteMap = ⟨seqNum, []⟩ := by
      change ByteMap.mk seqNum (bytesOf q.rexmitQueue) = _
      rw [hnil, bytesOf_nil]
    refine ⟨q.init seqNum, rfl, ⟨?_, ?_⟩, hbytes⟩
    · change checkRegions seqNum q.rexmitQueue seqNum
      rw [hnil]
      rfl
    · rw [hbytes]
      exact Nat.two_pow_pos 31
  | enqueueSentData fromSeqNum toSeqNum =>
    obtain ⟨hbegin, hend, hless, hroom⟩ := hadmitted
    exact enqueueSentData_spec h hbegin hend hless hroom
  | setSackedBit fromSeqNum toSeqNum =>
    obtain ⟨hfrom, hbegin, hend, hless⟩ := hadmitted
    exact setSackedBit_spec h hfrom ⟨hbegin, hend⟩ hless
  | discardUpTo seqNum => exact discardUpTo_spec h hadmitted.1 hadmitted.2
  | resetSackedBit | resetRexmittedBit =>
    exact ⟨_, rfl, valid_of_map h (fun _ ↦ rfl) (fun _ ↦ rfl) fun _ ↦ rfl⟩

/-- Only `init` on a queue with regions does not. -/
theorem handle_iff {call : Call} (h : q.Valid) (hadmitted : Admitted q call) :
    (∃ r, machine.handle q call = .ok r ∧ r.checkQueue ∧ r.byteMap = call.apply q.byteMap) ↔
      InitsEmpty q call := by
  constructor
  · rintro ⟨r, hhandle, -, hbytes⟩
    cases call with
    | init seqNum =>
      obtain rfl := Except.ok.inj hhandle
      exact rexmitQueue_eq_nil h.check (congrArg ByteMap.bytes hbytes)
    | enqueueSentData | setSackedBit | discardUpTo | resetSackedBit | resetRexmittedBit => trivial
  · intro hinit
    obtain ⟨r, hhandle, hvalid, hbytes⟩ := handle_spec h hadmitted hinit
    exact ⟨r, hhandle, hvalid.check, hbytes⟩

theorem valid_of_step {call : Call} (h : q.Valid)
    (hstep : (machine.restrict InitsEmpty).Step q call r) :
    r.Valid ∧ r.byteMap = call.apply q.byteMap := by
  obtain ⟨⟨hadmitted, hhandle⟩, hinit⟩ := step_restrict_iff.mp hstep
  obtain ⟨next, hnext, hspec⟩ := handle_spec h hadmitted hinit
  obtain rfl := Except.ok.inj (hnext.symm.trans hhandle)
  exact hspec

theorem valid_of_run {calls : List Call} (h : q.Valid)
    (hrun : (machine.restrict InitsEmpty).Run q calls r) :
    r.Valid ∧ r.byteMap = calls.foldl Call.apply q.byteMap := by
  induction calls generalizing q with
  | nil =>
    obtain rfl := run_nil_iff.mp hrun
    exact ⟨h, rfl⟩
  | cons call calls ih =>
    obtain ⟨next, hstep, hrest⟩ := run_cons_iff.mp hrun
    obtain ⟨hnext, hbytes⟩ := valid_of_step h hstep
    rw [foldl_cons, ← hbytes]
    exact ih hnext hrest

/-- Along every run in which `init` is called on queues without regions only, the regions cover the
bytes from the begin to the end, the flags of the bytes are those that the calls have left, the
queries return what they should, and a further call does what it should unless it is such an
`init`. -/
theorem refines_byteMap_of_run {calls : List Call}
    (hrun : (machine.restrict InitsEmpty).Run initial calls q) :
    q.checkQueue ∧ q.byteMap = calls.foldl Call.apply ⟨0, []⟩ ∧
      q.end = advance q.begin q.byteMap.bytes.length ∧ q.Queries ∧
      ∀ call, Admitted q call →
        ((∃ r, machine.handle q call = .ok r ∧ r.checkQueue ∧ r.byteMap = call.apply q.byteMap) ↔
          InitsEmpty q call) := by
  obtain ⟨hvalid, hbytes⟩ := valid_of_run valid_initial hrun
  exact ⟨hvalid.check, hbytes, hvalid.end_eq, hvalid.queries, fun _ ↦ handle_iff hvalid⟩

/-- Data across the end of the number space that is sacked, sent again across an end of the sacked
bytes and beyond the data, and acknowledged in part. -/
theorem refines_byteMap_of_run_wrap :
    ∃ q : SackRexmitQueue, q.rexmitQueue =
        [⟨0xfffffffd, 0xfffffffe, false, false⟩, ⟨0xfffffffe, 0, true, false⟩, ⟨0, 2, true, true⟩,
          ⟨2, 4, false, true⟩, ⟨4, 6, false, false⟩] ∧
      q.checkQueue ∧ q.byteMap.begin = 0xfffffffd ∧ q.Queries := by
  obtain ⟨q, hrun, hregions⟩ : ∃ q, (machine.restrict InitsEmpty).Run initial
      [.init 0xfffffffa, .enqueueSentData 0xfffffffa 4, .setSackedBit 0xfffffffe 2,
        .enqueueSentData 0 6, .discardUpTo 0xfffffffd] q ∧ q.rexmitQueue =
        [⟨0xfffffffd, 0xfffffffe, false, false⟩, ⟨0xfffffffe, 0, true, false⟩, ⟨0, 2, true, true⟩,
          ⟨2, 4, false, true⟩, ⟨4, 6, false, false⟩] :=
    exists_run_of_exec (by decide +kernel)
  obtain ⟨hcheck, hbytes, -, hqueries, -⟩ := refines_byteMap_of_run hrun
  refine ⟨q, hregions, hcheck, ?_, hqueries⟩
  rw [hbytes]
  rfl

/-- `init` keeps ten bytes that were sent before. -/
theorem not_checkQueue_init :
    ¬∀ calls q, machine.Run initial calls q →
      q.checkQueue ∧ q.byteMap = calls.foldl Call.apply ⟨0, []⟩ := by
  intro h
  obtain ⟨q, hrun, hcheck⟩ : ∃ q, machine.Run initial
      [.init 0, .enqueueSentData 0 10, .init 5] q ∧ ¬q.checkQueue :=
    exists_run_of_exec (by decide +kernel)
  exact hcheck (h _ q hrun).1

end Inet4.Tcp.SackRexmitQueue
