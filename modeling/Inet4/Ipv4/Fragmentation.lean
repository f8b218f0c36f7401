import Inet4.Icn.Packet

/-!
# Fragmentation of IPv4 datagrams

`fragmentAndSend` cuts the payload of a datagram that does not fit the MTU into parts of a multiple
of eight bytes and gives each of them a copy of the header.  The offsets count bytes and are stored
in 16 bits.  A fragment may be cut again on its way: `Forwarded` lists what is under way after any
number of hops.
-/

namespace Inet4.Ipv4

open List
open Icn (Byte)

abbrev Ipv4Address := BitVec 32

/-- The fields of `Ipv4Header` that fragmentation and reassembly use; lengths are in bytes. -/
structure Ipv4Header where
  headerLength : ℕ := 20
  totalLengthField : ℕ
  identification : BitVec 16
  moreFragments : Bool := false
  dontFragment : Bool := false
  /-- A `uint16_t` that counts bytes. -/
  fragmentOffset : ℕ := 0
  timeToLive : ℤ := 32
  protocolId : ℤ
  srcAddress : Ipv4Address
  destAddress : Ipv4Address
deriving DecidableEq

/-- A packet with an IPv4 header at its front. -/
structure Datagram where
  header : Ipv4Header
  payload : List Byte
deriving DecidableEq

/-- What becomes of a datagram: it is sent, as a whole or in fragments, or dropped with an ICMP
error. -/
inductive Outcome
  | sent (packets : List Datagram)
  | dropped
deriving DecidableEq

namespace Datagram

def byteLength (packet : Datagram) : ℕ := packet.header.headerLength + packet.payload.length

/-- The length of the fragment at an offset: all are equally long except for the last one. -/
def thisFragmentLength (payloadLength fragmentLength offset : ℕ) : ℕ :=
  if payloadLength ≤ offset + fragmentLength then payloadLength - offset else fragmentLength

/-- A round of the loop: the fragment at an offset. -/
def fragmentAt (packet : Datagram) (fragmentLength offset : ℕ) : Datagram where
  header :=
    { packet.header with
      moreFragments :=
        if packet.payload.length ≤ offset + fragmentLength then packet.header.moreFragments
        else true
      fragmentOffset := (packet.header.fragmentOffset + offset) % 2 ^ 16
      totalLengthField := packet.header.headerLength +
        thisFragmentLength packet.payload.length fragmentLength offset }
  payload := (packet.payload.drop offset).take
    (thisFragmentLength packet.payload.length fragmentLength offset)

/-- The loop of `fragmentAndSend`; it makes at most as many rounds as the payload has bytes. -/
def fragmentLoop (packet : Datagram) (fragmentLength : ℕ) : (fuel offset : ℕ) → List Datagram
  | 0, _ => []
  | fuel + 1, offset =>
    if offset < packet.payload.length then
      packet.fragmentAt fragmentLength offset :: packet.fragmentLoop fragmentLength fuel
        (offset + thisFragmentLength packet.payload.length fragmentLength offset)
    else []

def fragmentAndSend (packet : Datagram) (mtu : ℤ) : Except Fault Outcome :=
  if packet.header.timeToLive ≤ 0 then .ok .dropped
  else if mtu = 0 ∨ packet.byteLength ≤ mtu then .ok (.sent [packet])
  else if packet.header.dontFragment then .ok .dropped
  else
    -- division of `int`s
    let fragmentLength := (mtu - packet.header.headerLength).tdiv 8 * 8
    if fragmentLength ≤ 0 then .error .runtimeError
    else .ok (.sent (packet.fragmentLoop fragmentLength.toNat packet.payload.length 0))

/-- A router sets the time to live. -/
def withTimeToLive (packet : Datagram) (timeToLive : ℤ) : Datagram :=
  { packet with header := { packet.header with timeToLive } }

/-- A datagram as `encapsulate` builds it, with a payload. -/
structure Whole (d : Datagram) : Prop where
  fragmentOffset : d.header.fragmentOffset = 0
  moreFragments : d.header.moreFragments = false
  totalLengthField : d.header.totalLengthField = d.byteLength
  payload_ne_nil : d.payload ≠ []

/-- A datagram whose bytes the 16 bits of an offset can address. -/
structure Addressable (d : Datagram) : Prop extends Whole d where
  length_le : d.payload.length ≤ 2 ^ 16

/-- The packets under way after some hops.  In each of them one packet is sent over a link, where
it may be cut. -/
inductive Forwarded (d : Datagram) : List Datagram → Prop
  | source : Forwarded d [d]
  | hop {left right parts : List Datagram} {f : Datagram} (timeToLive mtu : ℤ) :
      Forwarded d (left ++ f :: right) →
      (f.withTimeToLive timeToLive).fragmentAndSend mtu = .ok (.sent parts) →
      Forwarded d (left ++ parts ++ right)

/-- A position of the original payload lies in a packet. -/
def Carries (f : Datagram) (x : ℕ) : Prop :=
  f.header.fragmentOffset ≤ x ∧ x < f.header.fragmentOffset + f.payload.length

instance (f : Datagram) : DecidablePred f.Carries := fun _ ↦ inferInstanceAs (Decidable (_ ∧ _))

/-- A part of a datagram, with a header that differs from the original one in what belongs to the
part and in the time to live only. -/
structure IsFragment (d f : Datagram) : Prop where
  header : f.header = { d.header with
    totalLengthField := f.byteLength
    moreFragments := f.header.moreFragments
    fragmentOffset := f.header.fragmentOffset
    timeToLive := f.header.timeToLive }
  payload_ne_nil : f.payload ≠ []
  part : f.payload = (d.payload.drop f.header.fragmentOffset).take f.payload.length
  last : f.header.moreFragments = false ↔
    f.header.fragmentOffset + f.payload.length = d.payload.length
  aligned : 8 ∣ f.header.fragmentOffset

variable {d f p packet : Datagram} {parts packets : List Datagram} {mtu : ℤ}
variable {fragmentLength offset fuel x : ℕ}

theorem IsFragment.le_length (h : IsFragment d f) :
    f.header.fragmentOffset + f.payload.length ≤ d.payload.length := by
  have hlength := congrArg length h.part
  have hpos := length_pos_of_ne_nil h.payload_ne_nil
  rw [length_take, length_drop] at hlength
  omega

theorem isFragment_self (h : Whole d) : IsFragment d d where
  header := by rw [← h.totalLengthField]
  payload_ne_nil := h.payload_ne_nil
  part := by rw [h.fragmentOffset, drop_zero, take_length]
  last := by simp [h.fragmentOffset, h.moreFragments]
  aligned := by simp [h.fragmentOffset]

theorem IsFragment.withTimeToLive (h : IsFragment d f) (timeToLive : ℤ) :
    IsFragment d (f.withTimeToLive timeToLive) where
  header := by
    change { f.header with timeToLive } = _
    rw [h.header]
    rfl
  payload_ne_nil := h.payload_ne_nil
  part := h.part
  last := h.last
  aligned := h.aligned

theorem thisFragmentLength_le (fragmentLength : ℕ) (hlt : offset < packet.payload.length) :
    offset + thisFragmentLength packet.payload.length fragmentLength offset ≤
      packet.payload.length := by
  unfold thisFragmentLength
  split <;> omega

theorem thisFragmentLength_pos (hlt : offset < packet.payload.length) (hpos : 0 < fragmentLength) :
    0 < thisFragmentLength packet.payload.length fragmentLength offset := by
  unfold thisFragmentLength
  split <;> omega

theorem thisFragmentLength_le_fragmentLength :
    thisFragmentLength packet.payload.length fragmentLength offset ≤ fragmentLength := by
  unfold thisFragmentLength
  split <;> omega

theorem length_payload_fragmentAt (fragmentLength : ℕ) (hlt : offset < packet.payload.length) :
    (packet.fragmentAt fragmentLength offset).payload.length =
      thisFragmentLength packet.payload.length fragmentLength offset := by
  have hle := thisFragmentLength_le fragmentLength hlt
  simp only [fragmentAt, length_take, length_drop]
  omega

theorem fragmentOffset_fragmentAt (fragmentLength : ℕ) (h : IsFragment d f) (hd : Addressable d)
    (hlt : offset < f.payload.length) :
    (f.fragmentAt fragmentLength offset).header.fragmentOffset =
      f.header.fragmentOffset + offset := by
  have hle := h.le_length
  have hbound := hd.length_le
  exact Nat.mod_eq_of_lt (by omega)

/-- A fragment of a fragment. -/
theorem isFragment_fragmentAt (h : IsFragment d f) (hd : Addressable d) (hpos : 0 < fragmentLength)
    (hlt : offset < f.payload.length) (haligned : 8 ∣ offset) :
    IsFragment d (f.fragmentAt fragmentLength offset) := by
  have hlength := length_payload_fragmentAt fragmentLength hlt
  have hoffset := fragmentOffset_fragmentAt fragmentLength h hd hlt
  have hle := thisFragmentLength_le fragmentLength hlt
  have hpositive := thisFragmentLength_pos hlt hpos
  constructor
  · rw [byteLength, hlength]
    simp only [fragmentAt]
    rw [h.header]
  · apply ne_nil_of_length_pos
    rw [hlength]
    exact hpositive
  · rw [hlength, hoffset]
    simp only [fragmentAt]
    generalize thisFragmentLength f.payload.length fragmentLength offset = n at *
    conv_lhs => rw [h.part]
    rw [drop_take, take_take, drop_drop, Nat.min_eq_left (by omega)]
  · rw [hlength, hoffset]
    simp only [fragmentAt, thisFragmentLength]
    split
    · rw [h.last]
      omega
    · have hend := h.le_length
      constructor
      · rintro ⟨⟩
      · omega
  · rw [hoffset]
    exact Nat.dvd_add h.aligned haligned

theorem isFragment_of_mem_fragmentLoop (h : IsFragment d f) (hd : Addressable d)
    (hpos : 0 < fragmentLength) (hdvd : 8 ∣ fragmentLength)
    (haligned : 8 ∣ offset ∨ f.payload.length ≤ offset)
    (hp : p ∈ f.fragmentLoop fragmentLength fuel offset) : IsFragment d p := by
  induction fuel generalizing offset with
  | zero => cases hp
  | succ fuel ih =>
    rw [fragmentLoop] at hp
    split at hp
    · rename_i hlt
      have haligned := haligned.resolve_right (Nat.not_le.mpr hlt)
      rcases mem_cons.mp hp with rfl | hp
      · exact isFragment_fragmentAt h hd hpos hlt haligned
      · apply ih _ hp
        unfold thisFragmentLength
        split
        · exact .inr (by omega)
        · exact .inl (Nat.dvd_add haligned hdvd)
    · cases hp

/-- With enough rounds the loop covers the rest of the payload. -/
theorem exists_carries_fragmentLoop (h : IsFragment d f) (hd : Addressable d)
    (hpos : 0 < fragmentLength)
    (hfuel : f.payload.length ≤ offset + fuel) (hle : f.header.fragmentOffset + offset ≤ x)
    (hx : x < f.header.fragmentOffset + f.payload.length) :
    ∃ p ∈ f.fragmentLoop fragmentLength fuel offset, p.Carries x := by
  induction fuel generalizing offset with
  | zero => omega
  | succ fuel ih =>
    have hlt : offset < f.payload.length := by omega
    have hpositive := thisFragmentLength_pos hlt hpos
    rw [fragmentLoop, if_pos hlt]
    by_cases hfirst : x < f.header.fragmentOffset + offset +
        thisFragmentLength f.payload.length fragmentLength offset
    · refine ⟨_, mem_cons_self, ?_⟩
      rw [Carries, fragmentOffset_fragmentAt fragmentLength h hd hlt,
        length_payload_fragmentAt fragmentLength hlt]
      exact ⟨hle, hfirst⟩
    · have hrest : ∃ p ∈ f.fragmentLoop fragmentLength fuel
          (offset + thisFragmentLength f.payload.length fragmentLength offset), p.Carries x :=
        ih (by omega) (by omega)
      obtain ⟨p, hp, hcarries⟩ := hrest
      exact ⟨p, mem_cons_of_mem _ hp, hcarries⟩

theorem byteLength_of_mem_fragmentLoop (hp : p ∈ f.fragmentLoop fragmentLength fuel offset) :
    p.byteLength ≤ f.header.headerLength + fragmentLength := by
  induction fuel generalizing offset with
  | zero => cases hp
  | succ fuel ih =>
    rw [fragmentLoop] at hp
    split at hp
    · rename_i hlt
      rcases mem_cons.mp hp with rfl | hp
      · rw [byteLength, length_payload_fragmentAt fragmentLength hlt]
        exact Nat.add_le_add_left thisFragmentLength_le_fragmentLength _
      · exact ih hp
    · cases hp

/-- What is sent is the packet itself or what the loop makes of it. -/
theorem sent_cases (h : packet.fragmentAndSend mtu = .ok (.sent parts)) :
    (parts = [packet] ∧ (mtu = 0 ∨ packet.byteLength ≤ mtu)) ∨
      ∃ fragmentLength : ℕ, 0 < fragmentLength ∧ 8 ∣ fragmentLength ∧
        (packet.header.headerLength + fragmentLength : ℤ) ≤ mtu ∧
        parts = packet.fragmentLoop fragmentLength packet.payload.length 0 := by
  unfold fragmentAndSend at h
  split at h
  · cases h
  split at h
  · rename_i hfits
    obtain rfl := Outcome.sent.inj (Except.ok.inj h)
    exact .inl ⟨rfl, hfits⟩
  split at h
  · cases h
  dsimp only at h
  split at h
  · cases h
  · rename_i hpos
    obtain rfl := Outcome.sent.inj (Except.ok.inj h)
    have hnonneg : 0 ≤ mtu - packet.header.headerLength := by
      by_contra hneg
      have hback : 0 ≤ (-(mtu - packet.header.headerLength)).tdiv 8 :=
        Int.tdiv_nonneg (by omega) (by decide)
      rw [Int.neg_tdiv] at hback
      omega
    rw [Int.tdiv_eq_ediv_of_nonneg hnonneg] at hpos ⊢
    refine .inr ⟨_, ?_, ?_, ?_, rfl⟩
    · omega
    · omega
    · omega

/-- Everything that is sent fits the MTU, where 0 stands for no limit. -/
theorem byteLength_le_of_sent (h : packet.fragmentAndSend mtu = .ok (.sent parts))
    (hp : p ∈ parts) :
    mtu = 0 ∨ p.byteLength ≤ mtu := by
  rcases sent_cases h with ⟨rfl, hfits⟩ | ⟨fragmentLength, -, -, hle, rfl⟩
  · obtain rfl := mem_singleton.mp hp
    exact hfits
  · have hlength := byteLength_of_mem_fragmentLoop hp
    exact .inr (by omega)

theorem isFragment_of_sent (hf : IsFragment d f) (hd : Addressable d)
    (h : f.fragmentAndSend mtu = .ok (.sent parts)) (hp : p ∈ parts) : IsFragment d p := by
  rcases sent_cases h with ⟨rfl, -⟩ | ⟨fragmentLength, hpos, hdvd, -, rfl⟩
  · obtain rfl := mem_singleton.mp hp
    exact hf
  · exact isFragment_of_mem_fragmentLoop hf hd hpos hdvd (.inl (Nat.dvd_zero 8)) hp

theorem exists_carries_of_sent (hf : IsFragment d f) (hd : Addressable d)
    (h : f.fragmentAndSend mtu = .ok (.sent parts)) (hx : f.Carries x) :
    ∃ p ∈ parts, p.Carries x := by
  rcases sent_cases h with ⟨rfl, -⟩ | ⟨fragmentLength, hpos, -, -, rfl⟩
  · exact ⟨f, mem_singleton_self f, hx⟩
  · exact exists_carries_fragmentLoop hf hd hpos (Nat.le_add_left _ _) hx.1 hx.2

theorem Forwarded.isFragment (h : Forwarded d packets) (hd : Addressable d) :
    ∀ f ∈ packets, IsFragment d f := by
  induction h with
  | source =>
    intro f hf
    obtain rfl := mem_singleton.mp hf
    exact isFragment_self hd.toWhole
  | @hop left right parts f timeToLive mtu _ hsent ih =>
    have hf := (ih f (by simp)).withTimeToLive timeToLive
    intro p hp
    simp only [mem_append] at hp
    rcases hp with (hp | hp) | hp
    · exact ih p (mem_append_left _ hp)
    · exact isFragment_of_sent hf hd hsent hp
    · exact ih p (mem_append_right _ (mem_cons_of_mem f hp))

/-- The packets under way carry the whole payload. -/
theorem Forwarded.exists_carries (h : Forwarded d packets) (hd : Addressable d)
    (hx : x < d.payload.length) : ∃ f ∈ packets, f.Carries x := by
  induction h with
  | source =>
    refine ⟨d, mem_singleton_self d, ?_⟩
    rw [Carries, hd.fragmentOffset]
    omega
  | @hop left right parts f timeToLive mtu hforwarded hsent ih =>
    have hf := (hforwarded.isFragment hd f (by simp)).withTimeToLive timeToLive
    obtain ⟨q, hq, hcarries⟩ := ih
    rcases mem_append.mp hq with hq | hq
    · exact ⟨q, by simp [hq], hcarries⟩
    · rcases mem_cons.mp hq with rfl | hq
      · obtain ⟨p, hp, hcarries⟩ := exists_carries_of_sent hf hd hsent hcarries
        exact ⟨p, by simp [hp], hcarries⟩
      · exact ⟨q, by simp [hq], hcarries⟩

end Datagram

end Inet4.Ipv4
