import Inet4.Icn.NodeRuns
import Inet4.Icn.Reassembly

/-!
# Fragmentation of a content

`FragmentAndStore` cuts a payload into parts of `fragmentLength` bytes.  What it stores is a
fragmentation of the payload as long as all its offsets fit into an `int`.  A payload that needs no
fragmentation takes another path, where `totalLength` is set to the length of the payload alone; the
reassembly buffer takes it to include the header, and cuts off the last 78 bytes.
-/

namespace Inet4.Icn.ColorNoCluster

open ColorFragBuf List Int

variable {node : ColorNoCluster} {payload : List Byte} {sid : SID} {packets : List DataPacket}
variable {length offset fuel : ℕ}

/-- The packets stored for a payload reassemble to it. -/
def RoundTrip (node : ColorNoCluster) (payload : List Byte) (sid : SID) : Prop :=
  ∃ packets, node.fragments payload sid = .ok packets ∧ Reassembles packets payload

/-- The position behind the last fragment, were it as long as the others. -/
def reach (node : ColorNoCluster) (length : ℤ) : ℤ :=
  (length - 1) / node.fragmentLength * node.fragmentLength + node.fragmentLength

/-! ## The loop -/

/-- The offset of a fragment is not behind that of the last one. -/
theorem add_le_reach {offset length : ℤ} (hpos : 0 < node.fragmentLength)
    (hdvd : node.fragmentLength ∣ offset) (hlt : offset < length) :
    offset + node.fragmentLength ≤ node.reach length := by
  obtain ⟨k, rfl⟩ := hdvd
  have hk : k ≤ (length - 1) / node.fragmentLength := by
    rw [Int.le_ediv_iff_mul_le hpos, mul_comm]
    omega
  have hmul := mul_le_mul_of_nonneg_right hk hpos.le
  rw [reach, mul_comm node.fragmentLength k]
  omega

/-- The last fragment starts at the last multiple of `fragmentLength`. -/
theorem reach_eq {offset length : ℤ} (hpos : 0 < node.fragmentLength)
    (hdvd : node.fragmentLength ∣ offset) (hlt : offset < length)
    (hlast : length ≤ offset + node.fragmentLength) :
    node.reach length = offset + node.fragmentLength := by
  apply le_antisymm _ (add_le_reach hpos hdvd hlt)
  obtain ⟨k, rfl⟩ := hdvd
  have hk : (length - 1) / node.fragmentLength < k + 1 := by
    rw [Int.ediv_lt_iff_lt_mul hpos, add_mul, mul_comm k]
    omega
  have hmul := mul_le_mul_of_nonneg_right (le_of_lt_add_one hk) hpos.le
  rw [reach, mul_comm node.fragmentLength k]
  omega

/-- The packet that the loop makes for `n` bytes from a position on. -/
def fragmentAt (node : ColorNoCluster) (payload : List Byte) (sid : SID) (offset n : ℕ)
    (lastFragment : Bool) : DataPacket where
  head :=
    { node.dataHead sid with
      moreFragments := !lastFragment
      offset
      totalLength := headerLength + n }
  payload := (payload.drop offset).take n

@[simp]
theorem offset_fragmentAt {n : ℕ} {lastFragment : Bool} :
    (node.fragmentAt payload sid offset n lastFragment).head.offset = offset := rfl

@[simp]
theorem chunkOf_fragmentAt {n : ℕ} {lastFragment : Bool} :
    chunkOf (node.fragmentAt payload sid offset n lastFragment) = (payload.drop offset).take n := by
  simp [chunkOf, fragmentAt, take_take]

/-- A fragment followed by fragments of what is behind it. -/
theorem fragmentsFrom_fragmentAt {n : ℕ} {lastFragment : Bool} (hn : 0 < n)
    (hend : offset + n ≤ length) (hlength : length ≤ payload.length)
    (hlast : lastFragment ↔ offset + n = length)
    (h : FragmentsFrom (offset + n) (payload.take length) sid packets) :
    FragmentsFrom offset (payload.take length) sid
      (node.fragmentAt payload sid offset n lastFragment :: packets) := by
  have hpayload : ((payload.drop offset).take n).length = n := by
    rw [length_take, length_drop]
    omega
  have hcontent : (payload.take length).length = length := by
    rw [length_take]
    omega
  have hchunk : (chunkOf (node.fragmentAt payload sid offset n lastFragment)).length = n := by
    rw [chunkOf_fragmentAt, hpayload]
  apply FragmentsFrom.cons
  · rw [hchunk]
    exact h
  · rfl
  · rfl
  · have hdata : (node.fragmentAt payload sid offset n lastFragment).dataLength =
        headerLength + n := by
      simp only [DataPacket.dataLength, fragmentAt, hpayload]
    refine ⟨?_, le_of_eq hdata.symm⟩
    simp only [fragmentAt]
    omega
  · intro x hx
    obtain ⟨hle, hlt⟩ := hx
    simp only [offset_fragmentAt] at hle hlt
    have hx : offset + (x - offset) = x := by omega
    simp only [chunkOf_fragmentAt, offset_fragmentAt, getElem?_take, getElem?_drop, hx]
    rw [if_pos (by omega), if_pos (by omega)]
  · rw [hchunk, hcontent, offset_fragmentAt, ← hlast]
    simp [fragmentAt]

/-- A round of the loop, for a payload whose first `length` bytes are cut. -/
theorem fragmentLoop_succ {reach : ℤ} (sid : SID) (fuel : ℕ) (hlt : offset < length)
    (hreach : addInt offset node.fragmentLength = .ok reach) {n : ℕ}
    (hn : (n : ℤ) = if reach ≥ length then (length : ℤ) - offset else node.fragmentLength)
    (hend : offset + n ≤ payload.length) :
    node.fragmentLoop payload sid length (fuel + 1) offset = (do
      let fragments ← node.fragmentLoop payload sid length fuel (offset + n : ℕ)
      return node.fragmentAt payload sid offset n (decide (reach ≥ length)) :: fragments) := by
  have hpeek : peekDataAt payload offset n = .ok ((payload.drop offset).take n) := by
    have hbounds : (0 : ℤ) ≤ offset ∧ (0 : ℤ) ≤ n ∧ (offset + n : ℤ) ≤ payload.length := by
      refine ⟨by omega, by omega, by omega⟩
    simp only [peekDataAt, if_pos hbounds, toNat_natCast]
  have hlt' : (offset : ℤ) < length := by omega
  rw [fragmentLoop, if_pos hlt']
  simp only [hreach, decide_eq_true_eq, ← hn, hpeek, bind, Except.bind, toNat_natCast]
  rfl

/-- If no offset overflows, the loop makes a fragmentation. -/
theorem exists_fragmentLoop (sid : SID) (fuel : ℕ) (hpos : 0 < node.fragmentLength)
    (hlength : length ≤ payload.length)
    (hreach : node.reach length < 2 ^ 31) (hle : offset ≤ length)
    (hdvd : offset = length ∨ node.fragmentLength ∣ offset) (hfuel : length ≤ offset + fuel) :
    ∃ packets, node.fragmentLoop payload sid length fuel offset = .ok packets ∧
      FragmentsFrom offset (payload.take length) sid packets := by
  have hcontent : (payload.take length).length = length := by
    rw [length_take]
    omega
  have hdone : FragmentsFrom length (payload.take length) sid [] := by
    have hnil := fragmentsFrom_nil (payload.take length) sid
    rw [hcontent] at hnil
    exact hnil
  induction fuel generalizing offset with
  | zero =>
    obtain rfl : offset = length := by omega
    refine ⟨[], ?_, hdone⟩
    simp [fragmentLoop]
  | succ fuel ih =>
    by_cases hlt : offset < length
    · have hdvd' := hdvd.resolve_left (Nat.ne_of_lt hlt)
      have hadd := add_le_reach hpos hdvd' (ofNat_lt.mpr hlt)
      have hok := addInt_of_nonneg (natCast_nonneg offset) hpos.le (by omega)
      obtain ⟨n, hn⟩ : ∃ n : ℕ, (n : ℤ) =
          if offset + node.fragmentLength ≥ length then (length : ℤ) - offset
          else node.fragmentLength := by
        refine ⟨_, toNat_of_nonneg ?_⟩
        split <;> omega
      have hend : offset + n ≤ length := by
        split at hn <;> omega
      have hnext : offset + n = length ∨ node.fragmentLength ∣ (offset + n : ℕ) := by
        split at hn
        · left
          omega
        · right
          push_cast
          rw [hn]
          exact Int.dvd_add hdvd' (Int.dvd_refl _)
      have hnpos : 0 < n := by
        split at hn <;> omega
      obtain ⟨packets, hloop, hpackets⟩ := ih hend hnext (by omega)
      have hround := fragmentLoop_succ sid fuel hlt hok hn (hend.trans hlength)
      rw [hloop] at hround
      refine ⟨_, hround, fragmentsFrom_fragmentAt hnpos hend hlength ?_ hpackets⟩
      rw [decide_eq_true_eq]
      split at hn <;> omega
    · obtain rfl : offset = length := by omega
      refine ⟨[], ?_, hdone⟩
      simp [fragmentLoop]

/-- The loop does not end if the offset behind the last fragment overflows. -/
theorem reach_of_fragmentLoop (hpos : 0 < node.fragmentLength) (hlength : length ≤ payload.length)
    (hlt : offset < length) (hdvd : node.fragmentLength ∣ offset)
    (h : node.fragmentLoop payload sid length fuel offset = .ok packets) :
    node.reach length < 2 ^ 31 := by
  induction fuel generalizing offset packets with
  | zero =>
    have hlt' : (offset : ℤ) < length := by omega
    simp [fragmentLoop, hlt'] at h
  | succ fuel ih =>
    have hlt' : (offset : ℤ) < length := by omega
    rw [fragmentLoop, if_pos hlt'] at h
    obtain ⟨reach, hok, -⟩ := bind_eq_ok h
    obtain ⟨rfl, hbound⟩ := addInt_eq_ok hok
    by_cases hlast : (length : ℤ) ≤ offset + node.fragmentLength
    · rw [reach_eq hpos hdvd hlt' hlast]
      exact hbound
    · obtain ⟨n, hn⟩ : ∃ n : ℕ, (n : ℤ) = node.fragmentLength :=
        ⟨_, toNat_of_nonneg hpos.le⟩
      have hn' : (n : ℤ) = if offset + node.fragmentLength ≥ length then (length : ℤ) - offset
          else node.fragmentLength := by
        rw [if_neg (by omega), hn]
      have hend : offset + n ≤ payload.length := by omega
      have hloop := fragmentLoop_succ sid fuel hlt hok hn' hend
      rw [fragmentLoop, if_pos hlt', h] at hloop
      obtain ⟨rest, hrest, -⟩ := bind_eq_ok hloop.symm
      refine ih (by omega) ?_ hrest
      push_cast
      rw [hn]
      exact Int.dvd_add hdvd (Int.dvd_refl _)

/-! ## The two paths -/

/-- A payload that is stored in one packet does not come back. -/
theorem not_reassembles_encapsulateData :
    ¬Reassembles [node.encapsulateData payload sid] payload := by
  intro h
  have hcollectable := h.collectable
  have hchunk := length_chunkOf hcollectable
  have hsame : payload = chunkOf (node.encapsulateData payload sid) :=
    h.unique (reassembles_singleton hcollectable rfl rfl) (cons_ne_nil _ _)
  rw [← hsame] at hchunk
  simp only [encapsulateData, headerLength] at hchunk
  omega

/-- With a positive `fragmentLength` a header fits into the MTU. -/
theorem headerLength_lt_mtu (hpos : 0 < node.fragmentLength) : headerLength < node.par.mtu := by
  by_contra hle
  have hnonpos : (node.par.mtu - headerLength).tdiv 8 ≤ 0 :=
    Int.tdiv_le_tdiv (by decide) (show node.par.mtu - headerLength ≤ 0 by omega)
  rw [fragmentLength] at hpos
  omega

/-- A payload that does not fit into one packet is cut up as far as an `int` counts its bytes. -/
theorem fragments_eq_ok (hpos : 0 < node.fragmentLength)
    (h : node.fragments payload sid = .ok packets) :
    packets = [node.encapsulateData payload sid] ∨
    ∃ length : ℕ, (length : ℤ) = wrapInt payload.length ∧ length ≤ payload.length ∧
      node.par.mtu ≤ headerLength + length ∧ headerLength + (length : ℤ) < 2 ^ 31 ∧
      node.reach length < 2 ^ 31 ∧ Reassembles packets (payload.take length) ∧ packets ≠ [] := by
  have hmtu := headerLength_lt_mtu hpos
  have hwrap := wrapInt_le (natCast_nonneg payload.length)
  unfold fragments at h
  rw [if_neg (not_not.mpr hpos)] at h
  obtain ⟨total, htotal, h⟩ := bind_eq_ok h
  obtain ⟨hsum, hbound⟩ := addInt_eq_ok htotal
  rw [hsum] at h
  split at h
  · exact .inl (Except.ok.inj h).symm
  · rename_i hcut
    right
    obtain ⟨length, hlength⟩ : ∃ length : ℕ, (length : ℤ) = wrapInt payload.length :=
      ⟨_, toNat_of_nonneg (by omega)⟩
    rw [← hlength] at h hcut hbound hwrap
    have hle : length ≤ payload.length := by omega
    have hlt : 0 < length := by omega
    have hreach := reach_of_fragmentLoop hpos hle hlt (dvd_zero _) h
    obtain ⟨packets', hloop, hfragments⟩ := exists_fragmentLoop sid payload.length hpos hle hreach
      (Nat.zero_le length) (.inr (dvd_zero _)) (by omega)
    obtain rfl := Except.ok.inj (h.symm.trans hloop)
    refine ⟨length, hlength, hle, by omega, hbound, hreach, hfragments.reassembles_content, ?_⟩
    obtain ⟨p, hp, -⟩ := hfragments.covered 0 (Nat.le_refl 0) (by
      rw [length_take]
      omega)
    exact ne_nil_of_mem hp

/-- The stored packets reassemble to the payload exactly when the payload is cut at all, its length
and the header's fit into an `int`, and so does the offset behind the last fragment. -/
theorem roundTrip_iff (node : ColorNoCluster) (payload : List Byte) (sid : SID)
    (hpos : 0 < node.fragmentLength) :
    RoundTrip node payload sid ↔ node.par.mtu ≤ headerLength + payload.length ∧
      headerLength + (payload.length : ℤ) < 2 ^ 31 ∧ node.reach payload.length < 2 ^ 31 := by
  constructor
  · rintro ⟨packets, hok, hreassembles⟩
    rcases fragments_eq_ok hpos hok with rfl | ⟨length, -, hle, hmtu, hbound, hreach, htake, hne⟩
    · exact absurd hreassembles not_reassembles_encapsulateData
    · -- what comes back has the length that the `int` counts
      have hwhole : length = payload.length := by
        have hlength := congrArg List.length (hreassembles.unique htake hne)
        rw [List.length_take] at hlength
        omega
      rw [← hwhole]
      exact ⟨hmtu, hbound, hreach⟩
  · rintro ⟨hmtu, hbound, hreach⟩
    have hheader : (0 : ℤ) ≤ headerLength := by decide
    have hwrap : wrapInt payload.length = payload.length :=
      wrapInt_of_lt (natCast_nonneg _) (by omega)
    obtain ⟨packets, hloop, hfragments⟩ := exists_fragmentLoop sid payload.length hpos
      (Nat.le_refl payload.length) hreach (Nat.zero_le _) (.inr (dvd_zero _)) (by omega)
    refine ⟨packets, ?_, ?_⟩
    · have htotal := addInt_of_nonneg hheader (natCast_nonneg payload.length) hbound
      unfold fragments
      rw [if_neg (not_not.mpr hpos), hwrap, bind_of_ok htotal, if_neg (by omega)]
      exact hloop
    · have hreassembles := hfragments.reassembles_content
      rw [List.take_length] at hreassembles
      exact hreassembles

theorem roundTrip_twentyBytes :
    RoundTrip (initial { relay with mtu := 94 }) (replicate 20 7) ⟨⟨1⟩, 1⟩ :=
  (roundTrip_iff _ _ _ (by decide)).mpr ⟨by decide, by decide, by decide⟩

/-- Of 100 bytes that fit into one packet 22 come back. -/
theorem not_roundTrip_unfragmented :
    0 < (initial relay).fragmentLength ∧
      ¬RoundTrip (initial relay) (replicate 100 7) ⟨⟨1⟩, 1⟩ := by
  have hfragments : ((initial relay).fragments (replicate 100 7) ⟨⟨1⟩, 1⟩).toOption =
      some [(initial relay).encapsulateData (replicate 100 7) ⟨⟨1⟩, 1⟩] := by
    decide +kernel
  have hshort : (addFragments ∅ [(initial relay).encapsulateData (replicate 100 7)
      ⟨⟨1⟩, 1⟩]).toOption.map (fun result ↦ result.1.map (Option.map fun full ↦
        full.payload.length)) = some [some 22] := by
    decide +kernel
  refine ⟨by decide, ?_⟩
  rintro ⟨packets, hok, h⟩
  rw [hok] at hfragments
  obtain rfl := Option.some.inj hfragments
  obtain ⟨out, bufs, hfed, hfull, -⟩ :=
    h [] _ (nil_subset _) (mem_singleton_self _) (by simp)
  obtain ⟨full, rfl, hpayload⟩ := hfull (List.Subset.refl _)
  rw [nil_append] at hfed
  rw [hfed] at hshort
  simp [Except.toOption, hpayload] at hshort

end Inet4.Icn.ColorNoCluster
