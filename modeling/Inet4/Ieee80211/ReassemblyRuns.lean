import Inet4.Ieee80211.Reassembly
import Inet4.Machine

/-!
# Reassembly of the MSDUs of a transmitter

The MSDUs of a transmitter have sequence numbers that increase modulo 4096, and an incomplete MSDU
stays in `fragmentsMap` forever.  A frame is made of the fragments of one MSDU as long as no
fragment joins those of an earlier MSDU with its sequence number.
-/

namespace Inet4.Ieee80211

open List

variable {R α : Type}

/-- What a transmitter sends under each TID, and without one: MSDUs one after the other, each in
fragments. -/
structure Transmitter (R α : Type) where
  address : MacAddress
  msdu : Option Tid → ℕ → Frame R α
  fragments : Option Tid → ℕ → List (Frame R α)
  /-- The number of an MSDU, of which the sequence number has the last 12 bits. -/
  number : Option Tid → ℕ → ℕ
  number_strictMono : ∀ tid, StrictMono (number tid)
  msdu_key : ∀ tid n, (msdu tid n).key = ⟨address, tid, BitVec.ofNat 12 (number tid n)⟩
  msdu_type : ∀ tid n, (msdu tid n).header.type ≠ .management
  fragments_of : ∀ tid n, FragmentsOf (msdu tid n) (fragments tid n)

/-- A copy of a fragment, with or without the retry bit. -/
def Frame.withRetry (fragment : Frame R α) (retry : Bool) : Frame R α :=
  { fragment with header := { fragment.header with retry := retry } }

variable {transmitter : Transmitter R α}

/-- A copy of a fragment that is not lost. -/
structure Copy (transmitter : Transmitter R α) where
  tid : Option Tid
  n : ℕ
  fragment : Frame R α
  retry : Bool
  mem : fragment ∈ transmitter.fragments tid n

variable (copy : Copy transmitter)

def Copy.packet : Frame R α := copy.fragment.withRetry copy.retry

/-- A packet is a copy of a fragment of an MSDU. -/
def Transmitter.Belongs (transmitter : Transmitter R α) (tid : Option Tid) (n : ℕ)
    (packet : Frame R α) : Prop :=
  ∃ fragment ∈ transmitter.fragments tid n, ∃ retry, packet = fragment.withRetry retry

theorem Copy.belongs : transmitter.Belongs copy.tid copy.n copy.packet :=
  ⟨copy.fragment, copy.mem, copy.retry, rfl⟩

/-- A frame is made of copies of fragments of one MSDU. -/
def Transmitter.Unmixed (transmitter : Transmitter R α) (frame : Frame R α) : Prop :=
  ∃ tid n first others, frame = defragmentFrames first others ∧
    ∀ fragment ∈ first :: others, transmitter.Belongs tid n fragment

/-- The fragments that are kept, and the frames that were returned. -/
structure ReassemblyHistory (R α : Type) where
  fragmentsMap : FragmentsMap R α := ∅
  returned : List (Frame R α) := []

/-- Reassembly of the copies that arrive, in any order. -/
def reassembly (transmitter : Transmitter R α) :
    Machine (ReassemblyHistory R α) (Copy transmitter) Fault where
  Enabled _ _ := True
  handle history copy := do
    let (output, fragmentsMap) ← addFragment history.fragmentsMap copy.packet
    return ⟨fragmentsMap, history.returned ++ output.toList⟩

/-- A copy is not kept, or all fragments that it joins are of the same MSDU. -/
def Copy.Fits (history : ReassemblyHistory R α) (copy : Copy transmitter) : Prop :=
  let value := (history.fragmentsMap.index copy.packet.key {}).1
  value.fragments.getD copy.packet.header.fragmentNumber none ≠ none ∨
    ∀ fragment, some fragment ∈ value.fragments →
      transmitter.Belongs copy.tid copy.n fragment

/-- The entries after a packet are those before it, and the packet where its place was empty. -/
theorem Value.mem_update {value : Value R α} {packet fragment : Frame R α}
    (h : some fragment ∈ (value.update packet).fragments) :
    some fragment ∈ value.fragments ∨
      fragment = packet ∧ value.fragments.getD packet.header.fragmentNumber none = none := by
  set slots := value.fragments ++ replicate (16 - value.fragments.length) none with hslots
  have hold : some fragment ∈ slots → some fragment ∈ value.fragments := by
    intro hmem
    rcases mem_append.mp hmem with hmem | hmem
    · exact hmem
    · cases eq_of_mem_replicate hmem
  have hgetD : slots.getD packet.header.fragmentNumber none =
      value.fragments.getD packet.header.fragmentNumber none := by
    simp only [getD_eq_getElem?_getD, hslots, getElem?_append, getElem?_replicate]
    split
    · rfl
    · rename_i hlength
      rw [getElem?_eq_none (not_lt.mp hlength)]
      split <;> rfl
  simp only [Value.update, ← hslots] at h
  cases hget : slots.getD packet.header.fragmentNumber none with
  | some other =>
    rw [hget] at h
    exact .inl (hold h)
  | none =>
    rw [hget] at h
    rcases mem_or_eq_of_mem_set h with hmem | heq
    · exact .inl (hold hmem)
    · exact .inr ⟨Option.some.inj heq, hgetD ▸ hget⟩

/-- The fragments of an entry are of one MSDU. -/
def Transmitter.Pure (transmitter : Transmitter R α) (value : Value R α) : Prop :=
  ∃ tid n, ∀ fragment, some fragment ∈ value.fragments → transmitter.Belongs tid n fragment

/-- The fragments of each entry are of one MSDU, and so are those of each returned frame. -/
structure ReassemblyHistory.Separate (history : ReassemblyHistory R α)
    (transmitter : Transmitter R α) : Prop where
  pure_of_find : ∀ key value, history.fragmentsMap.find key = some value → transmitter.Pure value
  unmixed : ∀ frame ∈ history.returned, transmitter.Unmixed frame

variable {history : ReassemblyHistory R α}

theorem ReassemblyHistory.Separate.pure_index (h : history.Separate transmitter) (key : Key) :
    transmitter.Pure (history.fragmentsMap.index key {}).1 := by
  rw [FragmentsMap.index_fst]
  cases hfind : history.fragmentsMap.find key with
  | none => exact ⟨none, 0, nofun⟩
  | some value => exact h.pure_of_find key value hfind

/-- An entry keeps to one MSDU when a copy fits it. -/
theorem Copy.Fits.pure_update {copy : Copy transmitter} (hfits : copy.Fits history)
    (h : history.Separate transmitter) :
    transmitter.Pure (((history.fragmentsMap.index copy.packet.key {}).1).update copy.packet) := by
  rcases hfits with htaken | hjoins
  · obtain ⟨tid, n, hbelongs⟩ := h.pure_index copy.packet.key
    refine ⟨tid, n, ?_⟩
    intro fragment hmem
    rcases Value.mem_update hmem with hold | ⟨-, hfree⟩
    · exact hbelongs fragment hold
    · exact absurd hfree htaken
  · refine ⟨copy.tid, copy.n, ?_⟩
    intro fragment hmem
    rcases Value.mem_update hmem with hold | ⟨rfl, -⟩
    · exact hjoins fragment hold
    · exact copy.belongs

theorem Copy.fragmentNumber_lt : copy.packet.header.fragmentNumber < maxNumFragments := by
  have hfragments := transmitter.fragments_of copy.tid copy.n
  obtain ⟨k, hk⟩ := List.mem_iff_getElem?.mp copy.mem
  have hlt : k < (transmitter.fragments copy.tid copy.n).length :=
    (List.getElem?_eq_some_iff.mp hk).1
  have hnumber : copy.packet.header.fragmentNumber = k :=
    congrArg DataOrMgmtHeader.fragmentNumber (hfragments.header k copy.fragment hk)
  rw [hnumber]
  exact hlt.trans_le hfragments.le

/-- A fragment is not a frame of its own. -/
theorem Copy.not_whole :
    ¬((copy.packet.header.moreFragments = false ∧ copy.packet.header.fragmentNumber = 0) ∨
      copy.packet.header.type = .management) := by
  have hfragments := transmitter.fragments_of copy.tid copy.n
  obtain ⟨k, hk⟩ := mem_iff_getElem?.mp copy.mem
  have hheader := hfragments.header k copy.fragment hk
  simp only [Copy.packet, Frame.withRetry, hheader]
  rintro (⟨hlast, hzero⟩ | htype)
  · have hlt := hfragments.one_lt
    rw [decide_eq_false_iff_not] at hlast
    omega
  · exact transmitter.msdu_type copy.tid copy.n htype

theorem Copy.packet_key : copy.packet.key =
    ⟨transmitter.address, copy.tid, BitVec.ofNat 12 (transmitter.number copy.tid copy.n)⟩ := by
  rw [← transmitter.msdu_key]
  obtain ⟨k, hk⟩ := mem_iff_getElem?.mp copy.mem
  have hheader := (transmitter.fragments_of copy.tid copy.n).header k copy.fragment hk
  simp only [Copy.packet, Frame.withRetry, Frame.key, hheader]

/-- A copy is kept, or it completes a frame. -/
theorem reassembly_step {history after : ReassemblyHistory R α} {copy : Copy transmitter}
    (hstep : (reassembly transmitter).Step history copy after) :
    let value := ((history.fragmentsMap.index copy.packet.key {}).1).update copy.packet
    after = ⟨history.fragmentsMap.assign copy.packet.key value, history.returned⟩ ∨
      ∃ first others, first :: others = value.fragments.filterMap id ∧
        after = ⟨history.fragmentsMap.remove copy.packet.key,
          history.returned ++ [defragmentFrames first others]⟩ := by
  obtain ⟨⟨output, fragmentsMap⟩, hadd, hreturn⟩ := bind_eq_ok hstep.2
  obtain rfl := Except.ok.inj hreturn
  rcases addFragment_cases history.fragmentsMap copy.fragmentNumber_lt with
    ⟨hwhole, -⟩ | hkept | ⟨first, others, hfragments, hfull⟩
  · exact absurd hwhole copy.not_whole
  · left
    cases hadd.symm.trans hkept
    simp
  · refine .inr ⟨first, others, hfragments, ?_⟩
    cases hadd.symm.trans hfull
    rfl

theorem ReassemblyHistory.Separate.step {history after : ReassemblyHistory R α}
    {copy : Copy transmitter} (h : history.Separate transmitter)
    (hstep : ((reassembly transmitter).restrict fun history copy ↦ copy.Fits history).Step
      history copy after) : after.Separate transmitter := by
  obtain ⟨hstep, hfits⟩ := Machine.step_restrict_iff.mp hstep
  have hpure := Copy.Fits.pure_update hfits h
  rcases reassembly_step hstep with rfl | ⟨first, others, hfragments, rfl⟩
  · refine ⟨?_, h.unmixed⟩
    intro key value hfind
    rw [AssocMap.find_assign] at hfind
    split at hfind
    · obtain rfl := Option.some.inj hfind
      exact hpure
    · exact h.pure_of_find key value hfind
  · constructor
    · intro key value hfind
      rw [AssocMap.find_remove] at hfind
      split at hfind
      · cases hfind
      · exact h.pure_of_find key value hfind
    · intro frame hframe
      rcases mem_append.mp hframe with hold | hnew
      · exact h.unmixed frame hold
      · obtain rfl := mem_singleton.mp hnew
        obtain ⟨tid, n, hbelongs⟩ := hpure
        refine ⟨tid, n, first, others, rfl, ?_⟩
        intro fragment hmem
        rw [hfragments, mem_filterMap] at hmem
        obtain ⟨slot, hslot, heq⟩ := hmem
        exact hbelongs fragment (heq ▸ hslot)

theorem separate_of_run {copies : List (Copy transmitter)}
    (hrun : ((reassembly transmitter).restrict fun history copy ↦ copy.Fits history).Run
      {} copies history) : history.Separate transmitter := by
  have hempty : ({} : ReassemblyHistory R α).Separate transmitter := ⟨nofun, nofun⟩
  exact hrun.invariant (P := fun history ↦ history.Separate transmitter)
    (fun _ _ _ hs hstep ↦ hs.step hstep) hempty

/-- The fragments of each entry came under its key. -/
def ReassemblyHistory.Kept (history : ReassemblyHistory R α) (past : List (Copy transmitter)) :
    Prop :=
  ∀ key value, history.fragmentsMap.find key = some value → ∀ fragment,
    some fragment ∈ value.fragments →
      ∃ copy ∈ past, copy.packet.key = key ∧ transmitter.Belongs copy.tid copy.n fragment

theorem ReassemblyHistory.Kept.index {history : ReassemblyHistory R α}
    {past : List (Copy transmitter)} (h : history.Kept past) (key : Key) (fragment : Frame R α)
    (hmem : some fragment ∈ (history.fragmentsMap.index key {}).1.fragments) :
    ∃ copy ∈ past, copy.packet.key = key ∧ transmitter.Belongs copy.tid copy.n fragment := by
  rw [FragmentsMap.index_fst] at hmem
  cases hfind : history.fragmentsMap.find key with
  | none =>
    rw [hfind] at hmem
    cases hmem
  | some value =>
    rw [hfind] at hmem
    exact h key value hfind fragment hmem

theorem ReassemblyHistory.Kept.step {history after : ReassemblyHistory R α}
    {past : List (Copy transmitter)} {copy : Copy transmitter} (h : history.Kept past)
    (hstep : (reassembly transmitter).Step history copy after) : after.Kept (past ++ [copy]) := by
  have hold : ∀ key value, history.fragmentsMap.find key = some value → ∀ fragment,
      some fragment ∈ value.fragments → ∃ other ∈ past ++ [copy],
        other.packet.key = key ∧ transmitter.Belongs other.tid other.n fragment := by
    intro key value hfind fragment hmem
    obtain ⟨other, hother, hbelongs⟩ := h key value hfind fragment hmem
    exact ⟨other, mem_append_left _ hother, hbelongs⟩
  rcases reassembly_step hstep with rfl | ⟨first, others, -, rfl⟩
  · intro key value hfind fragment hmem
    rw [AssocMap.find_assign] at hfind
    split at hfind
    · rename_i hkey
      obtain rfl := Option.some.inj hfind
      rcases Value.mem_update hmem with hkept | ⟨rfl, -⟩
      · obtain ⟨other, hother, hotherKey, hbelongs⟩ := h.index copy.packet.key fragment hkept
        exact ⟨other, mem_append_left _ hother, hotherKey.trans hkey.symm, hbelongs⟩
      · exact ⟨copy, mem_append_right _ mem_cons_self, hkey.symm, copy.belongs⟩
    · exact hold key value hfind fragment hmem
  · intro key value hfind
    rw [AssocMap.find_remove] at hfind
    split at hfind
    · cases hfind
    · exact hold key value hfind

/-- Two copies with one key are of one MSDU when their numbers are less than 4096 apart. -/
theorem Copy.msdu_eq_of_key_eq {copy other : Copy transmitter}
    (hkey : other.packet.key = copy.packet.key)
    (hle : copy.tid = other.tid →
      transmitter.number copy.tid copy.n < transmitter.number other.tid other.n + 4096)
    (hge : other.tid = copy.tid →
      transmitter.number other.tid other.n < transmitter.number copy.tid copy.n + 4096) :
    other.tid = copy.tid ∧ other.n = copy.n := by
  rw [other.packet_key, copy.packet_key, Key.mk.injEq] at hkey
  obtain ⟨-, htid, hnumber⟩ := hkey
  have hle := hle htid.symm
  have hge := hge htid
  refine ⟨htid, (transmitter.number_strictMono copy.tid).injective ?_⟩
  rw [htid] at hnumber hle hge
  have hmod := congrArg BitVec.toNat hnumber
  rw [BitVec.toNat_ofNat, BitVec.toNat_ofNat] at hmod
  omega

/-- As long as the numbers of the MSDUs are less than 4096 apart, every copy fits. -/
theorem fits_of_close {copies : List (Copy transmitter)}
    (hclose : ∀ copy ∈ copies, ∀ other ∈ copies, copy.tid = other.tid →
      transmitter.number copy.tid copy.n < transmitter.number other.tid other.n + 4096)
    (hrun : (reassembly transmitter).Run {} copies history) :
    ((reassembly transmitter).restrict fun history copy ↦ copy.Fits history).Run
      {} copies history := by
  have hinvariant := hrun.invariant_history
    (P := fun past history ↦ (∀ copy ∈ past, copy ∈ copies) → history.Kept past ∧
      ((reassembly transmitter).restrict fun history copy ↦ copy.Fits history).Run {} past history)
    (by
      intro past between copy after ih hstep hmem
      obtain ⟨hkept, hpast⟩ := ih fun other hother ↦ hmem other (mem_append_left _ hother)
      refine ⟨hkept.step hstep, hpast.snoc (Machine.step_restrict_iff.mpr ⟨hstep, .inr ?_⟩)⟩
      intro fragment hfragment
      obtain ⟨other, hother, hkey, hbelongs⟩ := hkept.index copy.packet.key fragment hfragment
      have hcopy := hmem copy (mem_append_right _ mem_cons_self)
      have hother' := hmem other (mem_append_left _ hother)
      obtain ⟨htid, hn⟩ := Copy.msdu_eq_of_key_eq hkey (hclose copy hcopy other hother')
        (hclose other hother' copy hcopy)
      rw [htid, hn] at hbelongs
      exact hbelongs)
    (fun _ ↦ ⟨nofun, .nil _⟩)
  exact (hinvariant fun _ hmem ↦ hmem).2

/-- No frame is mixed in a run whose MSDUs have numbers less than 4096 apart. -/
theorem unmixed_of_close {copies : List (Copy transmitter)}
    (hclose : ∀ copy ∈ copies, ∀ other ∈ copies, copy.tid = other.tid →
      transmitter.number copy.tid copy.n < transmitter.number other.tid other.n + 4096)
    (hrun : (reassembly transmitter).Run {} copies history) :
    ∀ frame ∈ history.returned, transmitter.Unmixed frame :=
  (separate_of_run (fits_of_close hclose hrun)).unmixed

/-- The `n`-th MSDU of a TID, with two bytes of data, both of them `n`. -/
def pair (tid : Option Tid) (n : ℕ) : Frame Unit ℕ where
  header :=
    { type := if tid.isSome then .ST_DATA_WITH_QOS else .ST_DATA, receiverAddress := 1,
      transmitterAddress := 2, tid := tid.getD 0, sequenceNumber := BitVec.ofNat 12 n,
      fragmentNumber := 0, moreFragments := false, retry := false, chunkLength := 26, rest := () }
  data := [n, n]

/-- A transmitter of pairs, each in two fragments. -/
def pairs : Transmitter Unit ℕ where
  address := 2
  msdu := pair
  fragments tid n := [(pair tid n).fragment 0 0 1 false, (pair tid n).fragment 1 1 1 true]
  number _ n := n
  number_strictMono _ := strictMono_id
  msdu_key tid n := by cases tid <;> rfl
  msdu_type tid n := by cases tid <;> exact nofun
  fragments_of tid n :=
    { one_lt := Nat.one_lt_two
      le := Nat.le_add_left 2 14
      header := by
        intro i fragment hi
        match i with
        | 0 | 1 =>
          obtain rfl := Option.some.inj hi
          rfl
      data := rfl }

def firstOf (n : ℕ) : Copy pairs where
  tid := some 0
  n := n
  fragment := (pair (some 0) n).fragment 0 0 1 false
  retry := false
  mem := mem_cons_self

def secondOf (n : ℕ) : Copy pairs where
  tid := some 0
  n := n
  fragment := (pair (some 0) n).fragment 1 1 1 true
  retry := false
  mem := mem_cons_of_mem _ mem_cons_self

instance (history : ReassemblyHistory Unit ℕ) (copy : Copy pairs) :
    Decidable ((reassembly pairs).Enabled history copy) :=
  isTrue trivial

end Inet4.Ieee80211
