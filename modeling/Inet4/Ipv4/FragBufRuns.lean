import Inet4.Ipv4.FragBuf
import Inet4.Packet.ChunkBufferRuns

/-!
# Reassembly of IPv4 datagrams

A datagram is cut any number of times on its way, and the packets that carry it arrive in any order,
repeatedly, and between packets with other keys.  Its buffer holds the bytes that have arrived since
it was last empty, and yields the datagram when no byte is missing.
-/

namespace Inet4.Ipv4

open Machine Datagram List ChunkBuffer Option
open Icn (Byte ReassemblyBuffer)

/-- Every byte of the payload is carried. -/
def Complete (d : Datagram) (fragments : List Datagram) : Prop :=
  ∀ x < d.payload.length, ∃ f ∈ fragments, f.Carries x

instance (d : Datagram) (fragments : List Datagram) : Decidable (Complete d fragments) :=
  inferInstanceAs (Decidable (∀ x < d.payload.length, ∃ f ∈ fragments, f.Carries x))

/-! ## Fragments as the receiver sees them -/

namespace Datagram

open Ipv4FragBuf

variable {d f : Datagram} {x : ℕ}

theorem IsFragment.key_eq (h : IsFragment d f) : f.header.key = d.header.key := by
  rw [h.header]
  rfl

theorem IsFragment.totalLengthField_eq (h : IsFragment d f) :
    f.header.totalLengthField = f.byteLength :=
  congrArg Ipv4Header.totalLengthField h.header

theorem IsFragment.bytesOf_eq (h : IsFragment d f) : bytesOf f.header = f.payload.length := by
  rw [bytesOf, h.totalLengthField_eq, byteLength, Nat.add_sub_cancel_left]

theorem IsFragment.collectable (h : IsFragment d f) : Collectable f := by
  have hpos := length_pos_of_ne_nil h.payload_ne_nil
  refine ⟨?_, Nat.le_of_eq h.totalLengthField_eq⟩
  rw [h.totalLengthField_eq, byteLength]
  omega

theorem IsFragment.dataOf_eq (h : IsFragment d f) : dataOf f = f.payload := by
  rw [dataOf, h.bytesOf_eq, take_length]

/-- What a fragment stores at a position that it carries. -/
theorem IsFragment.getElem?_payload (h : IsFragment d f) (hx : f.Carries x) :
    f.payload[x - f.header.fragmentOffset]? = d.payload[x]? := by
  obtain ⟨hle, hlt⟩ := hx
  have hposition : f.header.fragmentOffset + (x - f.header.fragmentOffset) = x := by omega
  rw [h.part, getElem?_take_of_lt (by omega), getElem?_drop, hposition]

end Datagram

namespace Ipv4FragBuf

/-- A call of the buffers. -/
inductive Call
  | addFragment (packet : Datagram) (now : SimTime)
  | purgeStaleFragments (lastupdate : SimTime)
deriving DecidableEq

/-- The buffers and their caller. -/
def machine : Machine Ipv4FragBuf Call Fault where
  Enabled _ _ := True
  handle bufs call :=
    match call with
    | .addFragment packet now => do
      let result ← bufs.addFragment packet now
      return result.2
    | .purgeStaleFragments lastupdate => .ok (bufs.purgeStaleFragments lastupdate)

instance (bufs : Ipv4FragBuf) (call : Call) : Decidable (machine.Enabled bufs call) :=
    isTrue trivial

/-- The packets of a datagram that have arrived since its buffer was last empty. -/
structure Received where
  fragments : List Datagram
  lastupdate : SimTime

section Key

-- what identifies a datagram
variable {K : Type} [DecidableEq K] (key : Ipv4Header → K)

/-- What a call does to the packets of a datagram. -/
def Call.apply (d : Datagram) (m : Received) : Call → Received
  | .addFragment packet now =>
    if key packet.header ≠ key d.header then m
    else if Complete d (packet :: m.fragments) then ⟨[], m.lastupdate⟩
    else ⟨packet :: m.fragments, now⟩
  | .purgeStaleFragments lastupdate =>
    if m.lastupdate < lastupdate then ⟨[], m.lastupdate⟩ else m

/-- What has arrived of a datagram when the calls are made. -/
def received (d : Datagram) (calls : List Call) : Received :=
  calls.foldl (Call.apply key d) ⟨[], 0⟩

/-- What arrives is a packet that carries a part of the datagram, or a packet with a payload and
another key. -/
def Call.Admitted (d : Datagram) : Call → Prop
  | .addFragment packet _ =>
    (∃ packets, Forwarded d packets ∧ packet ∈ packets) ∨
      (key packet.header ≠ key d.header ∧ Collectable packet)
  | .purgeStaleFragments _ => True

end Key

/-- The buffer of a datagram. -/
def bufferOf (bufs : Ipv4FragBuf) (d : Datagram) : DatagramBuffer :=
  (bufs.find d.header.key).getD {}

/-- What is stored at a position. -/
def stored (d : Datagram) (fragments : List Datagram) (x : ℕ) : Option Byte :=
  if ∃ f ∈ fragments, f.Carries x then d.payload[x]? else none

/-- The buffer of a datagram holds what has arrived of it. -/
structure Represents (d : Datagram) (m : Received) (bufs : Ipv4FragBuf) : Prop where
  fragments : ∀ f ∈ m.fragments, IsFragment d f
  incomplete : ¬Complete d m.fragments
  stores : Stores (bufferOf bufs d).buf.regions (stored d m.fragments)
  expectedLength : (bufferOf bufs d).buf.expectedLength =
    if ∃ f ∈ m.fragments, f.header.moreFragments = false then (d.payload.length : ℤ) else -1
  packet : ∀ kept ∈ (bufferOf bufs d).packet, IsFragment d kept
  lastupdate : ∀ cur ∈ bufs.find d.header.key, cur.lastupdate = m.lastupdate
  empty : bufs.find d.header.key = none → m.fragments = []

variable {d f p : Datagram} {m : Received} {bufs : Ipv4FragBuf} {now : SimTime} {x : ℕ}
variable {fragments : List Datagram}

theorem not_complete_nil (hd : Addressable d) : ¬Complete d [] := by
  intro h
  obtain ⟨f, hf, -⟩ := h 0 (length_pos_of_ne_nil hd.payload_ne_nil)
  cases hf

/-- A buffer that is not there holds nothing. -/
theorem represents_of_none (hd : Addressable d) (hnone : bufs.find d.header.key = none)
    (hnil : m.fragments = []) : Represents d m bufs := by
  have hbuffer : bufferOf bufs d = {} := by
    rw [bufferOf, hnone]
    rfl
  constructor
  · rw [hnil]
    exact fun f hf ↦ by cases hf
  · rw [hnil]
    exact not_complete_nil hd
  · rw [hbuffer, hnil]
    refine ⟨Separated.nil, fun x ↦ ?_⟩
    rfl
  · rw [hbuffer, hnil, if_neg (by simp)]
  · rw [hbuffer]
    exact fun kept hkept ↦ by cases hkept
  · rw [hnone]
    exact fun cur hcur ↦ by cases hcur
  · exact fun _ ↦ hnil

/-! ## A fragment arrives -/

/-- The regions after a fragment is stored. -/
theorem Represents.stores_replace (h : Represents d m bufs) (hf : IsFragment d f) :
    ∃ regions, replace ((bufs.find f.header.key).getD {}).buf.regions
        f.header.fragmentOffset (dataOf f) = .ok regions ∧
      Stores regions (stored d (f :: m.fragments)) := by
  obtain ⟨regions, hreplace, hseparated, hread⟩ := replace_spec
    f.header.fragmentOffset h.stores.1 (dataOf_ne_nil hf.collectable)
  rw [bufferOf, ← hf.key_eq] at hreplace
  refine ⟨regions, hreplace, hseparated, fun x ↦ ?_⟩
  rw [hread, h.stores.2, hf.dataOf_eq, stored, stored]
  by_cases hx : f.header.fragmentOffset ≤ x ∧ x < f.header.fragmentOffset + f.payload.length
  · rw [if_pos hx, if_pos ⟨f, mem_cons_self, hx⟩, hf.getElem?_payload hx]
  · have hsame : (∃ g ∈ m.fragments, g.Carries x) ↔ ∃ g ∈ f :: m.fragments, g.Carries x := by
      rw [exists_mem_cons_iff]
      exact (or_iff_right hx).symm
    rw [if_neg hx]
    exact if_congr hsame rfl rfl

theorem Represents.expectedAfter_eq (h : Represents d m bufs) (hf : IsFragment d f) :
    expectedAfter ((bufs.find f.header.key).getD {}) f.header =
      if ∃ g ∈ f :: m.fragments, g.header.moreFragments = false then (d.payload.length : ℤ)
      else -1 := by
  have hold := h.expectedLength
  rw [bufferOf, ← hf.key_eq] at hold
  rw [expectedAfter, hf.bytesOf_eq, hold]
  cases hmore : f.header.moreFragments with
  | false =>
    have hend := hf.last.mp hmore
    simp only [Bool.not_false, if_true]
    rw [if_pos ⟨f, mem_cons_self, hmore⟩, ← hend]
    rfl
  | true =>
    have hsame : (∃ g ∈ m.fragments, g.header.moreFragments = false) ↔
        ∃ g ∈ f :: m.fragments, g.header.moreFragments = false := by
      rw [exists_mem_cons_iff, hmore]
      simp
    rw [if_neg (by simp)]
    exact if_congr hsame rfl rfl

/-- Among fragments that carry everything one ends the datagram. -/
theorem exists_last_of_complete (hd : Addressable d) (hfragments : ∀ f ∈ fragments, IsFragment d f)
    (h : Complete d fragments) : ∃ f ∈ fragments, f.header.moreFragments = false := by
  have hpos := length_pos_of_ne_nil hd.payload_ne_nil
  obtain ⟨f, hf, hcarries⟩ := h (d.payload.length - 1) (by omega)
  have hle := (hfragments f hf).le_length
  have hlt := hcarries.2
  exact ⟨f, hf, (hfragments f hf).last.mpr (by omega)⟩

/-- A buffer is complete when every byte has arrived. -/
theorem reassembledData_eq {regions : List (Region Byte)} (hd : Addressable d)
    (hfragments : ∀ f ∈ fragments, IsFragment d f)
    (hstores : Stores regions (stored d fragments)) :
    ReassemblyBuffer.reassembledData ⟨regions,
        if ∃ f ∈ fragments, f.header.moreFragments = false then (d.payload.length : ℤ) else -1⟩ =
      if Complete d fragments then some d.payload else none := by
  by_cases hcomplete : Complete d fragments
  · have hwhole (x : ℕ) : readRegions regions x = readRegions [⟨0, d.payload⟩] x := by
      rw [hstores.2, stored]
      by_cases hx : x < d.payload.length
      · rw [if_pos (hcomplete x hx),
          read_of_lt (Nat.zero_le x) (by rwa [Region.getEndOffset, Nat.zero_add]),
          Nat.sub_zero]
      · have hnone : d.payload[x]? = none := getElem?_eq_none (by omega)
        rw [hnone, ite_self]
        symm
        apply readRegions_eq_none
        intro r hr
        obtain rfl := mem_singleton.mp hr
        rw [Region.valueAt_eq_none_iff, Region.getEndOffset]
        dsimp only
        omega
    have hregions : regions = [⟨0, d.payload⟩] :=
      eq_of_read_eq hstores.1 (Separated.singleton hd.payload_ne_nil) hwhole
    rw [if_pos (exists_last_of_complete hd hfragments hcomplete), if_pos hcomplete]
    exact Icn.ColorFragBuf.reassembledData_eq_some.mpr ⟨hregions, rfl⟩
  · rw [if_neg hcomplete, eq_none_iff_forall_ne_some]
    intro data hdata
    obtain ⟨rfl, hlength⟩ := Icn.ColorFragBuf.reassembledData_eq_some.mp hdata
    apply hcomplete
    intro x hx
    have hlength' : data.length = d.payload.length := by
      dsimp only at hlength
      split at hlength
      · exact Int.natCast_inj.mp hlength
      · omega
    have hread := hstores.2 x
    rw [read_of_lt (Nat.zero_le x) (by rw [Region.getEndOffset]; dsimp only; omega),
      stored] at hread
    by_contra hnot
    rw [if_neg hnot] at hread
    have hbeyond := getElem?_eq_none_iff.mp hread
    dsimp only at hbeyond
    omega

theorem Represents.isFragment_keptPacket (h : Represents d m bufs) (hf : IsFragment d f) :
    IsFragment d (keptPacket ((bufs.find f.header.key).getD {}) f) := by
  have hkept := h.packet
  rw [bufferOf, ← hf.key_eq] at hkept
  rw [keptPacket]
  split
  · exact hf
  · rename_i kept hpacket
    split
    · exact hf
    · exact hkept kept hpacket

/-- The header that is returned is the original one up to the time to live. -/
theorem header_reassembled (hd : Addressable d) (hf : IsFragment d f) :
    (reassembled f d.payload).header =
      { d.header with timeToLive := (reassembled f d.payload).header.timeToLive } := by
  have htotal := hd.totalLengthField
  rw [byteLength] at htotal
  dsimp only [reassembled]
  rw [htotal, hd.fragmentOffset, hd.moreFragments, hf.header]

theorem Represents.addFragment (h : Represents d m bufs) (hd : Addressable d) (hf : IsFragment d f)
    (now : SimTime) :
    ∃ result bufs', bufs.addFragment f now = .ok (result, bufs') ∧
      Represents d ((Call.addFragment f now).apply Ipv4Header.key d m) bufs' ∧
      (Complete d (f :: m.fragments) → ∃ packet, result = some packet ∧
        packet.payload = d.payload ∧
        packet.header = { d.header with timeToLive := packet.header.timeToLive }) ∧
      (¬Complete d (f :: m.fragments) → result = none) := by
  obtain ⟨regions, hreplace, hstores⟩ := h.stores_replace hf
  have hfragments : ∀ g ∈ f :: m.fragments, IsFragment d g :=
    forall_mem_cons.mpr ⟨hf, h.fragments⟩
  have hdata := reassembledData_eq hd hfragments hstores
  rw [← h.expectedAfter_eq hf] at hdata
  have hkept := h.isFragment_keptPacket hf
  have hadd : bufs.addFragment f now = .ok (bufs.finishFragment f now regions) :=
    addFragment_eq hf.collectable hreplace
  by_cases hcomplete : Complete d (f :: m.fragments)
  · rw [if_pos hcomplete] at hdata
    rw [finishFragment_some hdata] at hadd
    refine ⟨_, _, hadd, ?_, fun _ ↦ ⟨_, rfl, rfl, header_reassembled hd hkept⟩,
      fun hnot ↦ absurd hcomplete hnot⟩
    apply represents_of_none hd
    · rw [AssocMap.find_remove, if_pos hf.key_eq.symm]
    · rw [Call.apply, if_neg (not_not.mpr hf.key_eq), if_pos hcomplete]
  · rw [if_neg hcomplete] at hdata
    rw [finishFragment_none hdata] at hadd
    refine ⟨_, _, hadd, ?_, fun hall ↦ absurd hall hcomplete, fun _ ↦ rfl⟩
    have happly : (Call.addFragment f now).apply Ipv4Header.key d m = ⟨f :: m.fragments, now⟩ := by
      rw [Call.apply, if_neg (not_not.mpr hf.key_eq), if_neg hcomplete]
    rw [happly]
    have hfind : (bufs.assign f.header.key ⟨⟨regions,
        expectedAfter ((bufs.find f.header.key).getD {}) f.header⟩,
        some (keptPacket ((bufs.find f.header.key).getD {}) f), now⟩).find d.header.key =
          some ⟨⟨regions, expectedAfter ((bufs.find f.header.key).getD {}) f.header⟩,
            some (keptPacket ((bufs.find f.header.key).getD {}) f), now⟩ := by
      rw [AssocMap.find_assign, if_pos hf.key_eq.symm]
    constructor
    · exact hfragments
    · exact hcomplete
    · rw [bufferOf, hfind]
      exact hstores
    · rw [bufferOf, hfind]
      exact h.expectedAfter_eq hf
    · rw [bufferOf, hfind]
      intro kept hmem
      obtain rfl := some.inj hmem
      exact hkept
    · rw [hfind]
      intro cur hcur
      obtain rfl := some.inj hcur
      rfl
    · rw [hfind]
      exact fun hnone ↦ by cases hnone

/-! ## Calls -/

/-- Only the buffer of the datagram matters. -/
theorem Represents.congr {bufs' : Ipv4FragBuf} (h : Represents d m bufs)
    (hfind : bufs'.find d.header.key = bufs.find d.header.key) : Represents d m bufs' := by
  have hbuffer : bufferOf bufs' d = bufferOf bufs d := by rw [bufferOf, bufferOf, hfind]
  constructor
  · exact h.fragments
  · exact h.incomplete
  · rw [hbuffer]
    exact h.stores
  · rw [hbuffer]
    exact h.expectedLength
  · rw [hbuffer]
    exact h.packet
  · rw [hfind]
    exact h.lastupdate
  · rw [hfind]
    exact h.empty

theorem Represents.purgeStaleFragments (h : Represents d m bufs) (hd : Addressable d)
    (lastupdate : SimTime) :
    Represents d ((Call.purgeStaleFragments lastupdate).apply Ipv4Header.key d m)
      (bufs.purgeStaleFragments lastupdate) := by
  have hfind := AssocMap.find_removeIf bufs
    (fun buf ↦ decide (buf.lastupdate < lastupdate)) d.header.key
  change (bufs.purgeStaleFragments lastupdate).find d.header.key = _ at hfind
  rw [Call.apply]
  cases hbuffer : bufs.find d.header.key with
  | none =>
    rw [hbuffer, filter_none] at hfind
    apply represents_of_none hd hfind
    split
    · rfl
    · exact h.empty hbuffer
  | some cur =>
    have hcur := h.lastupdate cur hbuffer
    rw [hbuffer] at hfind
    by_cases hstale : m.lastupdate < lastupdate
    · rw [if_pos hstale]
      apply represents_of_none hd _ rfl
      rw [hfind]
      exact filter_some_neg (by simpa [hcur] using hstale)
    · rw [if_neg hstale]
      apply h.congr
      rw [hfind, hbuffer]
      exact filter_some_pos (by simpa [hcur] using hstale)

theorem step_spec {call : Call} (h : Represents d m bufs) (hd : Addressable d)
    (hadmitted : call.Admitted Ipv4Header.key d) :
    ∃ bufs', machine.Step bufs call bufs' ∧ Represents d (call.apply Ipv4Header.key d m) bufs' := by
  cases call with
  | addFragment packet now =>
    suffices hadd : ∃ result bufs', bufs.addFragment packet now = .ok (result, bufs') ∧
        Represents d ((Call.addFragment packet now).apply Ipv4Header.key d m) bufs' by
      obtain ⟨result, bufs', hresult, hrepresents⟩ := hadd
      refine ⟨bufs', ⟨trivial, ?_⟩, hrepresents⟩
      change (_ >>= fun result ↦ _) = _
      rw [bind_of_ok hresult]
      rfl
    rcases hadmitted with ⟨packets, hforwarded, hmem⟩ | ⟨hne, hcollectable⟩
    · obtain ⟨result, bufs', hadd, hrepresents, -⟩ :=
        h.addFragment hd (hforwarded.isFragment hd packet hmem) now
      exact ⟨result, bufs', hadd, hrepresents⟩
    · obtain ⟨result, bufs', hadd, hfind⟩ := addFragment_of_ne hcollectable (Ne.symm hne)
      refine ⟨result, bufs', hadd, ?_⟩
      rw [Call.apply, if_pos hne]
      exact h.congr hfind
  | purgeStaleFragments lastupdate =>
    exact ⟨_, ⟨trivial, rfl⟩, h.purgeStaleFragments hd lastupdate⟩

theorem run_spec {calls : List Call} (h : Represents d m bufs) (hd : Addressable d)
    (hadmitted : ∀ call ∈ calls, call.Admitted Ipv4Header.key d) :
    ∃ bufs', machine.Run bufs calls bufs' ∧
      Represents d (calls.foldl (Call.apply Ipv4Header.key d) m) bufs' := by
  induction calls generalizing m bufs with
  | nil => exact ⟨bufs, .nil bufs, h⟩
  | cons call calls ih =>
    obtain ⟨hcall, hcalls⟩ := forall_mem_cons.mp hadmitted
    obtain ⟨next, hstep, hnext⟩ := step_spec h hd hcall
    obtain ⟨bufs', hrun, hrepresents⟩ := ih hnext hcalls
    exact ⟨bufs', .cons hstep hrun, hrepresents⟩

/-- What is sent fits the MTU; the packets under way carry the whole payload from multiples of eight
on; and in whatever order they arrive, repeated, purged and between packets with other keys, the one
that brings the last missing byte yields the datagram and the others yield nothing. -/
theorem roundTrip (hd : Addressable d) :
    (∀ (packet : Datagram) (mtu : ℤ) (parts : List Datagram),
      packet.fragmentAndSend mtu = .ok (.sent parts) → ∀ p ∈ parts, mtu = 0 ∨ p.byteLength ≤ mtu) ∧
    (∀ packets, Forwarded d packets →
      (∀ f ∈ packets, 8 ∣ f.header.fragmentOffset) ∧ Complete d packets) ∧
    ∀ calls : List Call, (∀ call ∈ calls, call.Admitted Ipv4Header.key d) →
      ∃ bufs, machine.Run ∅ calls bufs ∧ ¬Complete d (received Ipv4Header.key d calls).fragments ∧
        ∀ packets f now, Forwarded d packets → f ∈ packets →
          ∃ result bufs', bufs.addFragment f now = .ok (result, bufs') ∧
            (Complete d (f :: (received Ipv4Header.key d calls).fragments) →
              ∃ packet, result = some packet ∧
              packet.payload = d.payload ∧
              packet.header = { d.header with timeToLive := packet.header.timeToLive }) ∧
            (¬Complete d (f :: (received Ipv4Header.key d calls).fragments) → result = none) := by
  refine ⟨fun packet mtu parts hsent p hp ↦ byteLength_le_of_sent hsent hp, ?_, ?_⟩
  · intro packets hforwarded
    exact ⟨fun f hf ↦ (hforwarded.isFragment hd f hf).aligned,
      fun x hx ↦ hforwarded.exists_carries hd hx⟩
  · intro calls hadmitted
    have hempty : Represents d ⟨[], 0⟩ ∅ := represents_of_none hd (AssocMap.find_empty _) rfl
    obtain ⟨bufs, hrun, hrepresents⟩ := run_spec hempty hd hadmitted
    refine ⟨bufs, hrun, hrepresents.incomplete, ?_⟩
    intro packets f now hforwarded hf
    obtain ⟨result, bufs', hadd, -, hresult⟩ :=
      hrepresents.addFragment hd (hforwarded.isFragment hd f hf) now
    exact ⟨result, bufs', hadd, hresult⟩

/-- Twenty equal bytes. -/
def twenty (protocolId : ℤ) (byte : Byte) : Datagram where
  header :=
    { totalLengthField := 40, identification := 1, protocolId, srcAddress := 1, destAddress := 2 }
  payload := replicate 20 byte

/-- A datagram that is cut at 16 bytes, and whose first fragment is cut again at 8 bytes; the
packets arrive from the last one on, with one of them twice. -/
theorem roundTrip_twenty :
    ∃ bufs, machine.Run ∅ [.addFragment ((twenty 17 3).fragmentAt 16 16) 0,
        .addFragment (((twenty 17 3).fragmentAt 16 0).fragmentAt 8 8) 1,
        .addFragment ((twenty 17 3).fragmentAt 16 16) 2] bufs ∧
      ∃ packet bufs', bufs.addFragment (((twenty 17 3).fragmentAt 16 0).fragmentAt 8 0) 3 =
          .ok (some packet, bufs') ∧ packet.payload = replicate 20 3 := by
  have hd : Addressable (twenty 17 3) := ⟨⟨rfl, rfl, rfl, by decide⟩, by decide⟩
  have hcut : Forwarded (twenty 17 3) [(twenty 17 3).fragmentAt 16 0,
      (twenty 17 3).fragmentAt 16 16] :=
    @Forwarded.hop _ [] [] [(twenty 17 3).fragmentAt 16 0, (twenty 17 3).fragmentAt 16 16] _ 32 36
      .source (by decide)
  have hforwarded : Forwarded (twenty 17 3) [((twenty 17 3).fragmentAt 16 0).fragmentAt 8 0,
      ((twenty 17 3).fragmentAt 16 0).fragmentAt 8 8, (twenty 17 3).fragmentAt 16 16] :=
    @Forwarded.hop _ [] _ [((twenty 17 3).fragmentAt 16 0).fragmentAt 8 0,
      ((twenty 17 3).fragmentAt 16 0).fragmentAt 8 8] _ 32 28 hcut (by decide)
  obtain ⟨-, -, hruns⟩ := roundTrip hd
  have hadmitted : ∀ call ∈ [Call.addFragment ((twenty 17 3).fragmentAt 16 16) 0,
      .addFragment (((twenty 17 3).fragmentAt 16 0).fragmentAt 8 8) 1,
      .addFragment ((twenty 17 3).fragmentAt 16 16) 2],
      call.Admitted Ipv4Header.key (twenty 17 3) := by
    simp only [forall_mem_cons]
    refine ⟨.inl ⟨_, hforwarded, ?_⟩, .inl ⟨_, hforwarded, ?_⟩, .inl ⟨_, hforwarded, ?_⟩, ?_⟩
    all_goals simp
  obtain ⟨bufs, hrun, -, hadd⟩ := hruns _ hadmitted
  obtain ⟨result, bufs', hresult, hcomplete, -⟩ := hadd _ _ 3 hforwarded mem_cons_self
  obtain ⟨packet, rfl, hpayload, -⟩ := hcomplete (by decide)
  exact ⟨bufs, hrun, packet, bufs', hresult, hpayload⟩

/-! ## Equal keys, and long payloads -/

/-- A datagram that is returned ends where its last packet says. -/
theorem length_payload_of_addFragment {result : Datagram} {bufs' : Ipv4FragBuf}
    (h : bufs.addFragment p now = .ok (some result, bufs'))
    (hlast : p.header.moreFragments = false) :
    result.payload.length = p.header.fragmentOffset + bytesOf p.header := by
  obtain ⟨-, -, h⟩ := bind_eq_ok h
  obtain ⟨data, -, h⟩ := bind_eq_ok h
  obtain ⟨regions, -, h⟩ := bind_eq_ok h
  have hfinish : bufs.finishFragment p now regions = (some result, bufs') := Except.ok.inj h
  cases hdata : ReassemblyBuffer.reassembledData ⟨regions,
      expectedAfter ((bufs.find p.header.key).getD {}) p.header⟩ with
  | none =>
    rw [finishFragment_none hdata] at hfinish
    cases hfinish
  | some payload =>
    rw [finishFragment_some hdata] at hfinish
    obtain ⟨hresult, -⟩ := Prod.mk.inj hfinish
    obtain rfl := some.inj hresult
    have hlength := (Icn.ColorFragBuf.reassembledData_eq_some.mp hdata).2
    rw [expectedAfter, hlast] at hlength
    simp only [Bool.not_false, if_true] at hlength
    change payload.length = _
    omega

/-- The loop makes two rounds. -/
theorem fragmentLoop_two {n fuel : ℕ} (hlt : n < f.payload.length)
    (hle : f.payload.length ≤ n + n) (hfuel : f.payload.length = fuel + 2) :
    f.fragmentLoop n f.payload.length 0 = [f.fragmentAt n 0, f.fragmentAt n n] := by
  have hfirst : thisFragmentLength f.payload.length n 0 = n := by
    rw [thisFragmentLength, if_neg (by omega)]
  have hsecond : thisFragmentLength f.payload.length n n = f.payload.length - n := if_pos hle
  have hend : f.fragmentLoop n fuel (n + (f.payload.length - n)) = [] := by
    cases fuel with
    | zero => rfl
    | succ fuel => rw [fragmentLoop, if_neg (by omega)]
  conv_lhs => arg 3; rw [hfuel]
  rw [fragmentLoop, if_pos (by omega), hfirst, Nat.zero_add, fragmentLoop, if_pos hlt, hsecond,
    hend]

/-- Two datagrams that differ in the protocol are mixed, and a payload whose last fragment has an
offset beyond 16 bits is not put together again. -/
theorem not_roundTrip :
    (¬∀ d, Whole d → ∀ calls : List Call,
      (∀ call ∈ calls, call.Admitted (fun header ↦ (header.key, header.protocolId)) d) →
      ∃ bufs, machine.Run ∅ calls bufs ∧ ∀ packets f, Forwarded d packets → f ∈ packets →
        Complete d (f :: (received (fun header ↦
          (header.key, header.protocolId)) d calls).fragments) →
        ((bufs.addFragment f 0).toOption.bind Prod.fst).map Datagram.payload = some d.payload) ∧
    ¬∀ d, Whole d → ∀ init last, Forwarded d (init ++ [last]) →
      ∃ bufs, machine.Run ∅ (init.map fun f ↦ .addFragment f 0) bufs ∧
        ((bufs.addFragment last 0).toOption.bind Prod.fst).map Datagram.payload =
          some d.payload := by
  constructor
  · intro h
    have hcut : Forwarded (twenty 17 3) [(twenty 17 3).fragmentAt 16 0,
        (twenty 17 3).fragmentAt 16 16] :=
      @Forwarded.hop _ [] [] [(twenty 17 3).fragmentAt 16 0, (twenty 17 3).fragmentAt 16 16] _ 32 36
        .source (by decide)
    have hadmitted : ∀ call ∈ [Call.addFragment ((twenty 17 3).fragmentAt 16 0) 0,
        .addFragment ((twenty 6 4).fragmentAt 16 0) 0],
        call.Admitted (fun header ↦ (header.key, header.protocolId)) (twenty 17 3) := by
      simp only [forall_mem_cons]
      exact ⟨.inl ⟨_, hcut, mem_cons_self⟩, .inr (by decide), by simp⟩
    obtain ⟨bufs, hrun, hresult⟩ := h _ ⟨rfl, rfl, rfl, by decide⟩ _ hadmitted
    have hpayload := hresult _ ((twenty 17 3).fragmentAt 16 16) hcut (by simp) (by decide)
    obtain ⟨bufs', hrun', hmixed⟩ : ∃ bufs', machine.Run ∅
        [.addFragment ((twenty 17 3).fragmentAt 16 0) 0,
          .addFragment ((twenty 6 4).fragmentAt 16 0) 0] bufs' ∧
        ((bufs'.addFragment ((twenty 17 3).fragmentAt 16 16) 0).toOption.bind Prod.fst).map
          Datagram.payload ≠ some (twenty 17 3).payload :=
      exists_run_of_exec (by decide +kernel)
    obtain rfl := hrun.unique hrun'
    exact hmixed hpayload
  · intro h
    set d : Datagram :=
      ⟨{ totalLengthField := 20 + (2 ^ 16 + 1), identification := 1, protocolId := 17,
         srcAddress := 1, destAddress := 2 }, replicate (2 ^ 16 + 1) 0⟩ with hd
    have hlength : d.payload.length = 2 ^ 16 + 1 := length_replicate
    have hsent : (d.withTimeToLive 32).fragmentAndSend 65556 =
        .ok (.sent [d.fragmentAt (2 ^ 16) 0, d.fragmentAt (2 ^ 16) (2 ^ 16)]) := by
      have hbytes : ¬((65556 : ℤ) = 0 ∨ (d.byteLength : ℤ) ≤ 65556) := by
        rw [byteLength, hlength]
        decide
      change d.fragmentAndSend 65556 = _
      rw [fragmentAndSend, if_neg (by decide), if_neg hbytes, if_neg (by decide)]
      have hfuel : d.payload.length = 2 ^ 16 - 1 + 2 := hlength
      rw [← fragmentLoop_two (by omega) (by omega) hfuel]
      rfl
    have hforwarded : Forwarded d ([d.fragmentAt (2 ^ 16) 0] ++ [d.fragmentAt (2 ^ 16) (2 ^ 16)]) :=
      @Forwarded.hop d [] [] _ d 32 65556 .source hsent
    have hwhole : Whole d := by
      refine ⟨rfl, rfl, ?_, ?_⟩
      · rw [byteLength, hlength]
      · exact ne_nil_of_length_pos (by omega)
    obtain ⟨bufs, -, hresult⟩ := h d hwhole _ _ hforwarded
    obtain ⟨result, hfirst, hpayload⟩ := map_eq_some_iff.mp hresult
    cases hadd : bufs.addFragment (d.fragmentAt (2 ^ 16) (2 ^ 16)) 0 with
    | error fault =>
      rw [hadd] at hfirst
      cases hfirst
    | ok added =>
      obtain ⟨out, bufs'⟩ := added
      rw [hadd] at hfirst
      obtain rfl : out = some result := hfirst
      have hmore : (d.fragmentAt (2 ^ 16) (2 ^ 16)).header.moreFragments = false := by
        rw [fragmentAt]
        rw [if_pos (by omega)]
      have hshort := length_payload_of_addFragment hadd hmore
      have hlast : thisFragmentLength d.payload.length (2 ^ 16) (2 ^ 16) = 1 := by
        rw [hlength]
        rfl
      have hbytes : bytesOf (d.fragmentAt (2 ^ 16) (2 ^ 16)).header = 1 := by
        change 20 + thisFragmentLength d.payload.length (2 ^ 16) (2 ^ 16) - 20 = 1
        rw [hlast]
      have hoffset : (d.fragmentAt (2 ^ 16) (2 ^ 16)).header.fragmentOffset = 0 := by
        rw [fragmentAt]
        rw [hwhole.fragmentOffset, Nat.zero_add, Nat.mod_self]
      rw [hpayload, hlength, hbytes, hoffset] at hshort
      omega

end Ipv4FragBuf

end Inet4.Ipv4
