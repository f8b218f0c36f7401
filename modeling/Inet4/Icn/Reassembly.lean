import Inet4.Icn.FragBuf

/-!
# Reassembly of a content from its parts

A fragmentation of a content is a list of packets that carry each byte of the content once.  Fed to
an empty reassembly buffer in any order, with repetitions, its packets yield the content when the
last missing one arrives, and nothing before.  `Collected` says what the buffer holds on the way:
the bytes of the packets that have arrived, and the length of the content once the packet at its end
has.
-/

namespace Inet4.Icn.ColorFragBuf

open List Nat

/-- A position lies in the part of the content that the packet carries. -/
def Carries (packet : DataPacket) (x : ℕ) : Prop :=
  packet.head.offset ≤ x ∧ x < packet.head.offset + (chunkOf packet).length

/-- The packets carry each byte of the content from a position on once, and those that end where it
ends say so. -/
structure FragmentsFrom (start : ℕ) (content : List Byte) (sid : SID)
    (packets : List DataPacket) : Prop where
  sid : ∀ p ∈ packets, p.head.sid = sid
  behind : ∀ p ∈ packets, start ≤ p.head.offset
  collectable : ∀ p ∈ packets, Collectable p
  part : ∀ p ∈ packets, ∀ x, Carries p x → (chunkOf p)[x - p.head.offset]? = content[x]?
  last : ∀ p ∈ packets, p.head.moreFragments = false ↔
    p.head.offset + (chunkOf p).length = content.length
  covered : ∀ x, start ≤ x → x < content.length → ∃ p ∈ packets, Carries p x
  once : ∀ p ∈ packets, ∀ q ∈ packets, ∀ x, Carries p x → Carries q x → p = q

/-- The packets carry each byte of the content once. -/
abbrev Fragmentation := FragmentsFrom 0

/-- Feeding packets to the buffer, and what it returns for each of them. -/
def addFragments : ColorFragBuf → List DataPacket →
    Except Fault (List (Option DataPacket) × ColorFragBuf)
  | bufs, [] => .ok ([], bufs)
  | bufs, packet :: packets => do
    let (out, bufs) ← bufs.addFragment packet
    let (outs, bufs) ← addFragments bufs packets
    return (out :: outs, bufs)

variable {content : List Byte} {sid : SID} {packets arrived : List DataPacket}
variable {bufs : ColorFragBuf} {p : DataPacket} {x : ℕ}

theorem carries_offset (h : Collectable p) : Carries p p.head.offset := by
  have hpos := length_pos_of_ne_nil (chunkOf_ne_nil h)
  exact ⟨le_refl _, by omega⟩

/-- A packet carries positions of the content only. -/
theorem FragmentsFrom.lt_of_carries (h : Fragmentation content sid packets) (hp : p ∈ packets)
    (hx : Carries p x) : x < content.length := by
  have hpart := h.part p hp x hx
  obtain ⟨hle, hlt⟩ := hx
  rw [List.getElem?_eq_getElem (by omega)] at hpart
  exact (List.getElem?_eq_some_iff.mp hpart.symm).1

/-- The packet that carries the last byte is marked. -/
theorem FragmentsFrom.exists_last (h : Fragmentation content sid packets) (hne : content ≠ []) :
    ∃ p ∈ packets, p.head.moreFragments = false := by
  have hpos := length_pos_of_ne_nil hne
  obtain ⟨p, hp, hcarries⟩ := h.covered (content.length - 1) (zero_le _) (by omega)
  have hend : Carries p (p.head.offset + (chunkOf p).length - 1) := by
    obtain ⟨hle, hlt⟩ := hcarries
    exact ⟨by omega, by omega⟩
  have hlt := h.lt_of_carries hp hend
  refine ⟨p, hp, (h.last p hp).mpr ?_⟩
  have hcarries' := hcarries.2
  omega

theorem fragmentsFrom_nil (content : List Byte) (sid : SID) :
    FragmentsFrom content.length content sid [] where
  sid p hp := by cases hp
  behind p hp := by cases hp
  collectable p hp := by cases hp
  part p hp := by cases hp
  last p hp := by cases hp
  covered x hle hlt := absurd hle (not_le.mpr hlt)
  once p hp := by cases hp

/-- A packet that carries a part and packets that carry what is behind it. -/
theorem FragmentsFrom.cons {start : ℕ}
    (h : FragmentsFrom (start + (chunkOf p).length) content sid packets) (hsid : p.head.sid = sid)
    (hoffset : p.head.offset = start) (hcollectable : Collectable p)
    (hpart : ∀ x, Carries p x → (chunkOf p)[x - p.head.offset]? = content[x]?)
    (hlast : p.head.moreFragments = false ↔
      p.head.offset + (chunkOf p).length = content.length) :
    FragmentsFrom start content sid (p :: packets) where
  sid q hq := by
    rcases mem_cons.mp hq with rfl | hq
    · exact hsid
    · exact h.sid q hq
  behind q hq := by
    rcases mem_cons.mp hq with rfl | hq
    · exact le_of_eq hoffset.symm
    · exact le_of_add_right_le (h.behind q hq)
  collectable q hq := by
    rcases mem_cons.mp hq with rfl | hq
    · exact hcollectable
    · exact h.collectable q hq
  part q hq := by
    rcases mem_cons.mp hq with rfl | hq
    · exact hpart
    · exact h.part q hq
  last q hq := by
    rcases mem_cons.mp hq with rfl | hq
    · exact hlast
    · exact h.last q hq
  covered x hle hlt := by
    by_cases hx : x < start + (chunkOf p).length
    · refine ⟨p, mem_cons_self, ?_, ?_⟩
      · rw [hoffset]
        exact hle
      · rw [hoffset]
        exact hx
    · obtain ⟨q, hq, hcarries⟩ := h.covered x (not_lt.mp hx) hlt
      exact ⟨q, mem_cons_of_mem p hq, hcarries⟩
  once q hq r hr x hqx hrx := by
    have hapart : ∀ r ∈ packets, Carries p x → ¬Carries r x := by
      intro r hr hpx hrx
      have hbehind := h.behind r hr
      have hend := hpx.2
      have hbegin := hrx.1
      omega
    rcases mem_cons.mp hq with rfl | hqRest
    · rcases mem_cons.mp hr with rfl | hrRest
      · rfl
      · exact absurd hrx (hapart r hrRest hqx)
    · rcases mem_cons.mp hr with rfl | hrRest
      · exact absurd hqx (hapart q hqRest hrx)
      · exact h.once q hqRest r hrRest x hqx hrx

/-- The reassembly buffer of a SID. -/
def bufferOf (bufs : ColorFragBuf) (sid : SID) : ReassemblyBuffer :=
  ((bufs.find sid).getD {}).buf

/-- The buffer holds the bytes of the packets that have arrived, and the length of the content once
a marked packet is among them. -/
structure Collected (content : List Byte) (sid : SID) (arrived : List DataPacket)
    (bufs : ColorFragBuf) : Prop where
  separated : Separated (bufferOf bufs sid).regions
  read : ∀ x, ∀ p ∈ arrived, Carries p x → readRegions (bufferOf bufs sid).regions x = content[x]?
  empty : ∀ x, (∀ p ∈ arrived, ¬Carries p x) → readRegions (bufferOf bufs sid).regions x = none
  expected : (∃ p ∈ arrived, p.head.moreFragments = false) →
    (bufferOf bufs sid).expectedLength = content.length
  unknown : (bufferOf bufs sid).expectedLength = content.length ∨
    (bufferOf bufs sid).expectedLength = -1

theorem collected_nil (content : List Byte) (sid : SID) : Collected content sid [] ∅ where
  separated := Separated.nil
  read x p hp := by cases hp
  empty x hx := rfl
  expected h := by
    obtain ⟨p, hp, -⟩ := h
    cases hp
  unknown := .inr rfl

/-- What `addFragment` does with the regions is right for the packets that have now arrived. -/
theorem Collected.regions (h : Collected content sid arrived bufs)
    (hfrag : Fragmentation content sid packets) (hp : p ∈ packets) :
    ∃ regions, bufs.addFragment p = .ok (bufs.finishFragment p regions) ∧ Separated regions ∧
      (∀ x, ∀ q ∈ arrived ++ [p], Carries q x → readRegions regions x = content[x]?) ∧
      ∀ x, (∀ q ∈ arrived ++ [p], ¬Carries q x) → readRegions regions x = none := by
  have hcollectable := hfrag.collectable p hp
  obtain ⟨regions, hreplace, hseparated, hread⟩ :=
    ChunkBuffer.replace_spec p.head.offset h.separated (chunkOf_ne_nil hcollectable)
  have hbuffer : ((bufs.find p.head.sid).getD {}).buf = bufferOf bufs sid := by
    rw [hfrag.sid p hp]
    rfl
  rw [← hbuffer] at hreplace
  refine ⟨regions, addFragment_eq hcollectable hreplace, hseparated, ?_, ?_⟩
  · intro x q hq hx
    rw [hread]
    split
    · rename_i hcarries
      exact hfrag.part p hp x hcarries
    · rename_i hnot
      rcases mem_append.mp hq with hq | hq
      · exact h.read x q hq hx
      · obtain rfl := mem_singleton.mp hq
        exact absurd hx hnot
  · intro x hx
    have hnot : ¬Carries p x := hx p (mem_append_right _ (mem_singleton_self p))
    unfold Carries at hnot
    rw [hread, if_neg hnot]
    exact h.empty x fun q hq ↦ hx q (mem_append_left [p] hq)

/-- The expected length is right for the packets that have now arrived. -/
theorem Collected.expectedAfter (h : Collected content sid arrived bufs)
    (hfrag : Fragmentation content sid packets) (hp : p ∈ packets) :
    ((∃ q ∈ arrived ++ [p], q.head.moreFragments = false) →
      expectedAfter ((bufs.find p.head.sid).getD {}) p.head = content.length) ∧
    (expectedAfter ((bufs.find p.head.sid).getD {}) p.head = content.length ∨
      expectedAfter ((bufs.find p.head.sid).getD {}) p.head = -1) := by
  unfold ColorFragBuf.expectedAfter
  rw [hfrag.sid p hp]
  cases hmore : p.head.moreFragments with
  | false =>
    have hend := (hfrag.last p hp).mp hmore
    have hlength := length_chunkOf (hfrag.collectable p hp)
    have hexpected : (p.head.offset + (p.head.totalLength - headerLength) : ℤ) =
        content.length := by
      rw [← hlength, ← hend]
      rfl
    simp only [Bool.not_false, if_true, hexpected, true_or, implies_true, and_self]
  | true =>
    refine ⟨?_, h.unknown⟩
    rintro ⟨q, hq, hlast⟩
    rcases mem_append.mp hq with hq | hq
    · exact h.expected ⟨q, hq, hlast⟩
    · obtain rfl := mem_singleton.mp hq
      rw [hmore] at hlast
      cases hlast

/-- A buffer that lacks a packet of the fragmentation is not complete. -/
theorem reassembledData_eq_none {regions : List (Region Byte)} {expectedLength : ℤ}
    (hfrag : Fragmentation content sid packets) (harrived : arrived ⊆ packets)
    (hmissing : ¬packets ⊆ arrived)
    (hempty : ∀ x, (∀ q ∈ arrived, ¬Carries q x) → readRegions regions x = none)
    (hunknown : expectedLength = content.length ∨ expectedLength = -1) :
    ReassemblyBuffer.reassembledData ⟨regions, expectedLength⟩ = none := by
  rw [Option.eq_none_iff_forall_ne_some]
  intro data hdata
  obtain ⟨rfl, hlength⟩ := reassembledData_eq_some.mp hdata
  have hlength' : data.length = content.length := by
    rcases hunknown with hknown | hunknown
    · exact Int.natCast_inj.mp (hlength.trans hknown)
    · simp only [hunknown] at hlength
      omega
  -- the first byte of a missing packet is in no packet that has arrived
  obtain ⟨q, hq, hqMissing⟩ : ∃ q ∈ packets, q ∉ arrived := by
    by_contra hall
    apply hmissing
    intro q hq
    by_contra hnot
    exact hall ⟨q, hq, hnot⟩
  have hcarries := carries_offset (hfrag.collectable q hq)
  have hlt := hfrag.lt_of_carries hq hcarries
  have hnone := hempty q.head.offset fun r hr hr' ↦
    hqMissing (hfrag.once q hq r (harrived hr) _ hcarries hr' ▸ hr)
  rw [read_of_lt (zero_le _) (by simpa [Region.getEndOffset, hlength'] using hlt)] at hnone
  have hbeyond := getElem?_eq_none_iff.mp hnone
  simp only at hbeyond
  omega

/-- While a packet is missing nothing is returned. -/
theorem Collected.addFragment_none (h : Collected content sid arrived bufs)
    (hfrag : Fragmentation content sid packets) (hp : p ∈ packets) (harrived : arrived ⊆ packets)
    (hmissing : ¬packets ⊆ arrived ++ [p]) :
    ∃ bufs', bufs.addFragment p = .ok (none, bufs') ∧
      Collected content sid (arrived ++ [p]) bufs' := by
  obtain ⟨regions, hadd, hseparated, hread, hempty⟩ := h.regions hfrag hp
  obtain ⟨hexpected, hunknown⟩ := h.expectedAfter hfrag hp
  have harrived' : arrived ++ [p] ⊆ packets := by
    rw [append_subset]
    exact ⟨harrived, cons_subset.mpr ⟨hp, nil_subset _⟩⟩
  obtain ⟨first, hfinish⟩ :=
    finishFragment_none (reassembledData_eq_none hfrag harrived' hmissing hempty hunknown)
  rw [hfinish] at hadd
  refine ⟨_, hadd, ?_⟩
  have hbuffer : bufferOf (bufs.assign p.head.sid
      ⟨⟨regions, ColorFragBuf.expectedAfter ((bufs.find p.head.sid).getD {}) p.head⟩, first⟩) sid =
        ⟨regions, ColorFragBuf.expectedAfter ((bufs.find p.head.sid).getD {}) p.head⟩ := by
    rw [bufferOf, AssocMap.find_assign, if_pos (hfrag.sid p hp).symm]
    rfl
  constructor
  · rw [hbuffer]
    exact hseparated
  · rw [hbuffer]
    exact hread
  · rw [hbuffer]
    exact hempty
  · rw [hbuffer]
    exact hexpected
  · rw [hbuffer]
    exact hunknown

/-- The last missing packet completes the content. -/
theorem Collected.addFragment_some (h : Collected content sid arrived bufs)
    (hfrag : Fragmentation content sid packets) (hp : p ∈ packets) (harrived : arrived ⊆ packets)
    (hcomplete : packets ⊆ arrived ++ [p]) :
    ∃ full bufs', bufs.addFragment p = .ok (some full, bufs') ∧ full.payload = content := by
  obtain ⟨regions, hadd, hseparated, hread, hempty⟩ := h.regions hfrag hp
  obtain ⟨hexpected, -⟩ := h.expectedAfter hfrag hp
  have hne : content ≠ [] := by
    have hlt := hfrag.lt_of_carries hp (carries_offset (hfrag.collectable p hp))
    exact ne_nil_of_length_pos (zero_lt_of_lt hlt)
  have hwhole : ∀ x, readRegions regions x = readRegions [⟨0, content⟩] x := by
    intro x
    by_cases hx : x < content.length
    · obtain ⟨q, hq, hcarries⟩ := hfrag.covered x (zero_le x) hx
      rw [hread x q (hcomplete hq) hcarries,
        read_of_lt (Nat.zero_le x) (by simpa [Region.getEndOffset] using hx), Nat.sub_zero]
    · have hnone : readRegions ([⟨0, content⟩] : List (Region Byte)) x = none := by
        apply readRegions_eq_none
        intro r hr
        obtain rfl := mem_singleton.mp hr
        rw [Region.valueAt_eq_none_iff]
        right
        simpa [Region.getEndOffset] using hx
      rw [hnone]
      apply hempty
      intro q hq hcarries
      have hqPacket : q ∈ packets := by
        rcases mem_append.mp hq with hq | hq
        · exact harrived hq
        · obtain rfl := mem_singleton.mp hq
          exact hp
      exact hx (hfrag.lt_of_carries hqPacket hcarries)
  have hregions : regions = [⟨0, content⟩] :=
    eq_of_read_eq hseparated (Separated.singleton hne) hwhole
  obtain ⟨q, hq, hlast⟩ := hfrag.exists_last hne
  have hlength := hexpected ⟨q, hcomplete hq, hlast⟩
  obtain ⟨full, hfinish, hpayload⟩ :=
    finishFragment_some (reassembledData_eq_some.mpr ⟨hregions, hlength.symm⟩)
  rw [hfinish] at hadd
  exact ⟨full, _, hadd, hpayload⟩

/-- In whatever order the packets arrive and however often, the last missing one yields the content
and the others yield nothing. -/
def Reassembles (packets : List DataPacket) (content : List Byte) : Prop :=
  ∀ arrived p, arrived ⊆ packets → p ∈ packets → ¬packets ⊆ arrived →
    ∃ out bufs, addFragments ∅ (arrived ++ [p]) = .ok (arrived.map (fun _ ↦ none) ++ [out], bufs) ∧
      (packets ⊆ arrived ++ [p] → ∃ full, out = some full ∧ full.payload = content) ∧
      (¬packets ⊆ arrived ++ [p] → out = none)

theorem addFragments_append {outs : List (Option DataPacket)} {out : Option DataPacket}
    {mid after : ColorFragBuf} (h : addFragments bufs arrived = .ok (outs, mid))
    (hlast : mid.addFragment p = .ok (out, after)) :
    addFragments bufs (arrived ++ [p]) = .ok (outs ++ [out], after) := by
  induction arrived generalizing bufs outs with
  | nil =>
    obtain ⟨rfl, rfl⟩ := Prod.mk.inj (Except.ok.inj h)
    simp only [nil_append, addFragments, hlast, bind, Except.bind]
    rfl
  | cons q rest ih =>
    obtain ⟨⟨first, bufs'⟩, hfirst, h⟩ := bind_eq_ok h
    obtain ⟨⟨others, last⟩, hrest, h⟩ := bind_eq_ok h
    obtain ⟨rfl, rfl⟩ := Prod.mk.inj (Except.ok.inj h)
    simp only [cons_append, addFragments, hfirst, ih hrest, bind, Except.bind]
    rfl

/-- As long as a packet is missing the buffer collects. -/
theorem collected_addFragments (hfrag : Fragmentation content sid packets)
    (harrived : arrived ⊆ packets) (hmissing : ¬packets ⊆ arrived) :
    ∃ bufs, addFragments ∅ arrived = .ok (arrived.map fun _ ↦ none, bufs) ∧
      Collected content sid arrived bufs := by
  induction arrived using reverseRecOn with
  | nil => exact ⟨∅, rfl, collected_nil content sid⟩
  | append_singleton arrived p ih =>
    obtain ⟨harrived', hp⟩ := append_subset.mp harrived
    have hmissing' : ¬packets ⊆ arrived :=
      fun hall ↦ hmissing (subset_append_of_subset_left [p] hall)
    obtain ⟨bufs, hfed, hcollected⟩ := ih harrived' hmissing'
    obtain ⟨bufs', hadd, hcollected'⟩ :=
      hcollected.addFragment_none hfrag (hp (mem_singleton_self p)) harrived' hmissing
    refine ⟨bufs', ?_, hcollected'⟩
    rw [map_append]
    exact addFragments_append hfed hadd

/-- A fragmentation reassembles to its content. -/
theorem FragmentsFrom.reassembles_content (h : Fragmentation content sid packets) :
    Reassembles packets content := by
  intro arrived p harrived hp hmissing
  obtain ⟨bufs, hfed, hcollected⟩ := collected_addFragments h harrived hmissing
  by_cases hcomplete : packets ⊆ arrived ++ [p]
  · obtain ⟨full, bufs', hadd, hpayload⟩ :=
      hcollected.addFragment_some h hp harrived hcomplete
    exact ⟨some full, bufs', addFragments_append hfed hadd, fun _ ↦ ⟨full, rfl, hpayload⟩,
      fun hnot ↦ absurd hcomplete hnot⟩
  · obtain ⟨bufs', hadd, -⟩ := hcollected.addFragment_none h hp harrived hcomplete
    exact ⟨none, bufs', addFragments_append hfed hadd, fun hall ↦ absurd hall hcomplete,
      fun _ ↦ rfl⟩

/-- Packets reassemble to one content at most. -/
theorem Reassembles.unique {content' : List Byte} (h : Reassembles packets content)
    (h' : Reassembles packets content') (hne : packets ≠ []) : content = content' := by
  obtain ⟨p, rest, rfl⟩ := exists_cons_of_ne_nil hne
  let arrived := (p :: rest).filter (· ≠ p)
  have harrived : arrived ⊆ p :: rest := filter_subset_self _
  have hp : p ∉ arrived := by simp [arrived]
  have hall : p :: rest ⊆ arrived ++ [p] := by
    intro q hq
    by_cases heq : q = p
    · simp [heq]
    · exact mem_append_left _ (mem_filter.mpr ⟨hq, by simpa using heq⟩)
  have hmissing : ¬p :: rest ⊆ arrived := fun hsub ↦ hp (hsub mem_cons_self)
  obtain ⟨out, bufs, hfed, hfull, -⟩ := h arrived p harrived mem_cons_self hmissing
  obtain ⟨out', bufs', hfed', hfull', -⟩ := h' arrived p harrived mem_cons_self hmissing
  obtain ⟨full, rfl, hpayload⟩ := hfull hall
  obtain ⟨full', rfl, hpayload'⟩ := hfull' hall
  have hsame := Except.ok.inj (hfed.symm.trans hfed')
  simp only [Prod.mk.injEq, append_cancel_left_eq, cons.injEq, Option.some.injEq,
    and_true] at hsame
  rw [← hpayload, ← hpayload', hsame.1]

/-- What the buffer makes of a single packet is the part that its `totalLength` describes. -/
theorem reassembles_singleton (hcollectable : Collectable p) (hoffset : p.head.offset = 0)
    (hlast : p.head.moreFragments = false) : Reassembles [p] (chunkOf p) := by
  have hbehind := fragmentsFrom_nil (chunkOf p) p.head.sid
  rw [← zero_add (chunkOf p).length] at hbehind
  refine FragmentsFrom.reassembles_content (hbehind.cons rfl hoffset hcollectable ?_ ?_)
  · intro x _
    rw [hoffset, Nat.sub_zero]
  · simp [hlast, hoffset]

/-- A single packet that reassembles to anything describes a part of itself. -/
theorem Reassembles.collectable (h : Reassembles [p] content) : Collectable p := by
  obtain ⟨out, bufs, hfed, -⟩ :=
    h [] p (nil_subset _) (mem_singleton_self p) (by simp)
  obtain ⟨result, hadd, -⟩ := bind_eq_ok hfed
  exact (addFragment_ok_iff ∅ p).mp ⟨result, hadd⟩

end Inet4.Icn.ColorFragBuf
