import Inet4.Udp.MulticastMembership
import Mathlib.Data.List.TakeWhile

/-!
# Searching the membership table

`lessMembership` compares the interface id -1 with no other id, so that the binary search finds its
way only while no group of the table has a membership on all interfaces beside another one.  In such
a table every search ends at the place of its key.
-/

namespace Inet4.Udp

open List MulticastMembership
open MulticastMembership (lessMembership)

/-- The group and the interface of a membership. -/
def MulticastMembership.key (membership : MulticastMembership) : L3Address × ℤ :=
  (membership.multicastAddress, membership.interfaceId)

/-- The order of the table on keys: by group, then by interface, where -1 stands for no id. -/
def Before (first second : L3Address × ℤ) : Prop :=
  first.1.lessThan second.1 = true ∨
    first.1 = second.1 ∧ first.2 ≠ -1 ∧ second.2 ≠ -1 ∧ first.2 < second.2

/-- The memberships stand in strict order; a group with a membership on all interfaces has no
other one. -/
def Ordered (table : List MulticastMembership) : Prop :=
  table.Pairwise fun first second ↦ Before first.key second.key

/-- A key goes together with a table: it is not there, and neither of the two memberships of a group
would be on all interfaces. -/
def Fresh (table : List MulticastMembership) (key : L3Address × ℤ) : Prop :=
  ∀ membership ∈ table, membership.multicastAddress = key.1 →
    membership.interfaceId ≠ -1 ∧ key.2 ≠ -1 ∧ membership.interfaceId ≠ key.2

variable {table before after : List MulticastMembership} {membership : MulticastMembership}
variable {key : L3Address × ℤ} {multicastAddress : L3Address} {interfaceId : ℤ} {sd : SockDesc}

/-- The test of the binary search for a key. -/
theorem lessMembership_iff {first second : MulticastMembership} :
    lessMembership first second = true ↔
      first.multicastAddress.lessThan second.multicastAddress = true ∨
        first.multicastAddress = second.multicastAddress ∧ first.interfaceId ≠ -1 ∧
          first.interfaceId < second.interfaceId := by
  rw [lessMembership]
  split
  · rename_i hne
    simp [hne]
  · rename_i heq
    rw [not_not] at heq
    simp only [heq, L3Address.lessThan_irrefl, Bool.false_eq_true, false_or, true_and]
    split
    · rename_i hid
      simp only [Bool.false_eq_true, false_iff, not_and, not_lt]
      omega
    · rename_i hid
      simp only [true_iff]
      omega

/-- The elements in front of one that meets the test meet it. -/
theorem lessMembership_of_before {first second third : MulticastMembership}
    (h : Before first.key second.key) (hless : lessMembership second third = true) :
    lessMembership first third = true := by
  rw [lessMembership_iff] at *
  simp only [Before, key] at h
  rcases h with hlt | ⟨heq, hfirst, hsecond, hlt⟩
  · rcases hless with hlt' | ⟨heq', -⟩
    · exact Or.inl (L3Address.lessThan_trans hlt hlt')
    · rw [← heq']
      exact Or.inl hlt
  · rw [heq]
    apply hless.imp_right
    intro hless
    exact ⟨hless.1, hfirst, hlt.trans hless.2.2⟩

/-- A search splits the table. -/
theorem Ordered.exists_split (h : Ordered sd.multicastMembershipTable)
    (multicastAddress : L3Address) (interfaceId : ℤ) :
    ∃ before after, sd.multicastMembershipTable = before ++ after ∧
      sd.lowerBound multicastAddress interfaceId = before.length ∧
      (∀ membership ∈ before, lessMembership membership
        { multicastAddress := multicastAddress
          interfaceId := interfaceId } = true) ∧
      ∀ membership ∈ after, lessMembership membership
        { multicastAddress := multicastAddress
          interfaceId := interfaceId } = false := by
  rw [SockDesc.lowerBound]
  generalize sd.multicastMembershipTable = table at h
  generalize ({ multicastAddress := multicastAddress
                interfaceId := interfaceId } : MulticastMembership) = sought
  have hbefore := fun (m : MulticastMembership)
      (hm : m ∈ table.takeWhile fun membership ↦ lessMembership membership sought) ↦
    mem_takeWhile_imp hm
  have hafter : ∀ m ∈ table.dropWhile fun membership ↦ lessMembership membership sought,
      lessMembership m sought = false := by
    clear hbefore
    induction table with
    | nil => exact fun m hm ↦ absurd hm not_mem_nil
    | cons head table ih =>
      rw [Ordered, pairwise_cons] at h
      intro m hm
      rw [dropWhile_cons] at hm
      split at hm
      · exact ih h.2 m hm
      · rename_i hhead
        rcases mem_cons.mp hm with rfl | hm
        · exact Bool.eq_false_iff.mpr hhead
        · rw [Bool.eq_false_iff]
          exact fun hless ↦ hhead (lessMembership_of_before (h.1 m hm) hless)
  have hsplit := takeWhile_append_dropWhile
    (p := fun membership ↦ lessMembership membership sought) (l := table)
  refine ⟨_, _, hsplit.symm, ?_, hbefore, hafter⟩
  have hsearch := BinarySearch.lowerBound_eq (BinarySearch.splitsAt_append hbefore hafter)
  rwa [hsplit] at hsearch

/-- A membership of an ordered table is found where it stands. -/
theorem Ordered.findMulticastMembership_of_split (h : Ordered sd.multicastMembershipTable)
    (hsplit : sd.multicastMembershipTable = before ++ membership :: after) :
    sd.findMulticastMembership membership.multicastAddress membership.interfaceId =
      some (before.length, membership) := by
  obtain ⟨before', after', hsplit', hposition, hless, hnotLess⟩ :=
    h.exists_split membership.multicastAddress membership.interfaceId
  rw [hsplit, Ordered, pairwise_append, pairwise_cons] at h
  -- every membership before it meets the test, and it does not
  have hfront : ∀ m ∈ before, lessMembership m
      { multicastAddress := membership.multicastAddress
        interfaceId := membership.interfaceId } = true := by
    intro m hm
    rw [lessMembership_iff]
    apply (h.2.2 m hm membership mem_cons_self).imp_right
    intro hbefore
    exact ⟨hbefore.1, hbefore.2.1, hbefore.2.2.2⟩
  have hself : lessMembership membership
      { multicastAddress := membership.multicastAddress
        interfaceId := membership.interfaceId } = false := by
    rw [Bool.eq_false_iff, ne_eq, lessMembership_iff]
    simp [L3Address.lessThan_irrefl]
  have hlength : before'.length = before.length := by
    rw [hsplit] at hsplit'
    rcases lt_trichotomy before'.length before.length with hlt | heq | hgt
    · have hmem : before[before'.length] ∈ after' := by
        have hget : (before ++ membership :: after)[before'.length]? =
            some before[before'.length] := by
          rw [getElem?_append_left hlt, getElem?_eq_getElem hlt]
        rw [hsplit', getElem?_append_right le_rfl, Nat.sub_self] at hget
        exact mem_of_getElem? hget
      have hfalse := hnotLess _ hmem
      rw [hfront _ (getElem_mem hlt)] at hfalse
      cases hfalse
    · exact heq
    · have hmem : membership ∈ before' := by
        have hget : (before ++ membership :: after)[before.length]? = some membership := by
          rw [getElem?_append_right le_rfl, Nat.sub_self]
          rfl
        rw [hsplit', getElem?_append_left hgt] at hget
        exact mem_of_getElem? hget
      rw [hless _ hmem] at hself
      cases hself
  simp only [SockDesc.findMulticastMembership, hposition, hlength, hsplit,
    getElem?_append_right le_rfl, Nat.sub_self, getElem?_cons_zero, and_self, if_pos]

theorem findMulticastMembership_eq_some {position : ℕ}
    (h : sd.findMulticastMembership multicastAddress interfaceId = some (position, membership)) :
    ∃ before after, sd.multicastMembershipTable = before ++ membership :: after ∧
      before.length = position ∧ membership.multicastAddress = multicastAddress ∧
        membership.interfaceId = interfaceId := by
  simp only [SockDesc.findMulticastMembership] at h
  split at h
  · cases h
  · rename_i found hfound
    split at h
    · rename_i hkey
      cases h
      obtain ⟨hlt, hget⟩ := List.getElem?_eq_some_iff.mp hfound
      refine ⟨_, sd.multicastMembershipTable.drop (sd.lowerBound multicastAddress interfaceId + 1),
        ?_, List.length_take_of_le hlt.le, hkey.1, hkey.2⟩
      rw [← hget, List.cons_getElem_drop_succ, List.take_append_drop]
    · cases h

theorem Ordered.findMulticastMembership_eq_none (h : Ordered sd.multicastMembershipTable)
    (hnone : sd.findMulticastMembership multicastAddress interfaceId = none) :
    ∀ membership ∈ sd.multicastMembershipTable, membership.multicastAddress = multicastAddress →
      membership.interfaceId ≠ interfaceId := by
  intro membership hmem haddress hid
  obtain ⟨before, after, hsplit⟩ := append_of_mem hmem
  have hfound := h.findMulticastMembership_of_split hsplit
  rw [haddress, hid, hnone] at hfound
  cases hfound

/-- A membership with a fresh key is added at its place. -/
theorem Ordered.addMulticastMembership (h : Ordered sd.multicastMembershipTable)
    (membership : MulticastMembership) (hfresh : Fresh sd.multicastMembershipTable membership.key) :
    ∃ before after, sd.multicastMembershipTable = before ++ after ∧
      sd.addMulticastMembership membership =
        (before.length, { sd with
          multicastMembershipTable := before ++ membership :: after }) ∧
      Ordered (before ++ membership :: after) := by
  obtain ⟨before, after, hsplit, hposition, hless, hnotLess⟩ :=
    h.exists_split membership.multicastAddress membership.interfaceId
  refine ⟨before, after, hsplit, ?_, ?_⟩
  · simp only [SockDesc.addMulticastMembership, hposition, hsplit, Prod.mk.injEq, true_and]
    congr 1
    have hinsert : ∀ before : List MulticastMembership,
        (before ++ after).insertIdx before.length membership = before ++ membership :: after := by
      intro before
      induction before with
      | nil => rfl
      | cons head before ih => rw [cons_append, length_cons, insertIdx_succ_cons, ih,
          cons_append]
    exact hinsert before
  · rw [hsplit] at h hfresh
    rw [Ordered, pairwise_append] at h
    rw [Ordered, pairwise_append, pairwise_cons]
    refine ⟨h.1, ⟨?_, h.2.1⟩, ?_⟩
    · intro m hm
      have hfalse := hnotLess m hm
      have hkeys := hfresh m (mem_append_right before hm)
      rw [Bool.eq_false_iff, ne_eq, lessMembership_iff, not_or] at hfalse
      by_cases heq : m.multicastAddress = membership.multicastAddress
      · obtain ⟨hm', hkey, hne⟩ := hkeys heq
        refine Or.inr ⟨heq.symm, hkey, hm', ?_⟩
        have hge : ¬m.interfaceId < membership.interfaceId :=
          fun hlt ↦ hfalse.2 ⟨heq, hm', hlt⟩
        simp only [key] at hne ⊢
        omega
      · left
        cases hlt : membership.multicastAddress.lessThan m.multicastAddress with
        | true => exact hlt
        | false =>
          have hfalse' := Bool.eq_false_iff.mpr hfalse.1
          exact absurd (L3Address.eq_of_not_lessThan hfalse' hlt) heq
    · intro m hm m' hm'
      rcases mem_cons.mp hm' with rfl | hm'
      · rcases lessMembership_iff.mp (hless m hm) with hlt | ⟨heq, hid, hlt⟩
        · exact Or.inl hlt
        · exact Or.inr ⟨heq, hid, (hfresh m (mem_append_left after hm) heq).2.1, hlt⟩
      · exact h.2.2 m hm m' hm'

/-- The order depends on the keys only. -/
theorem Ordered.replace {membership' : MulticastMembership}
    (h : Ordered (before ++ membership :: after)) (hkey : membership'.key = membership.key) :
    Ordered (before ++ membership' :: after) := by
  rw [Ordered, pairwise_append, pairwise_cons] at *
  simp only [forall_mem_cons, hkey] at *
  exact h

theorem Ordered.delete (h : Ordered (before ++ membership :: after)) : Ordered (before ++ after) :=
  List.Pairwise.sublist (List.Sublist.append_left (sublist_cons_self membership after) before)
    h

theorem setMulticastMembership_of_split {membership' : MulticastMembership}
    (hsplit : sd.multicastMembershipTable = before ++ membership :: after) :
    (sd.setMulticastMembership before.length membership').multicastMembershipTable =
      before ++ membership' :: after := by
  simp [SockDesc.setMulticastMembership, hsplit]

theorem deleteMulticastMembership_of_split
    (hsplit : sd.multicastMembershipTable = before ++ membership :: after) :
    (sd.deleteMulticastMembership before.length).multicastMembershipTable = before ++ after := by
  rw [SockDesc.deleteMulticastMembership, hsplit, eraseIdx_append_of_length_le le_rfl,
    Nat.sub_self, eraseIdx_cons_zero]

/-- The memberships of a group stand together, from the position that the search returns. -/
theorem Ordered.exists_group (h : Ordered sd.multicastMembershipTable)
    (hids : ∀ membership ∈ sd.multicastMembershipTable, -1 ≤ membership.interfaceId)
    (multicastAddress : L3Address) :
    ∃ before members after, sd.multicastMembershipTable = before ++ (members ++ after) ∧
      sd.lowerBound multicastAddress 0 = before.length ∧
      (∀ membership ∈ before, membership.multicastAddress ≠ multicastAddress) ∧
      (∀ membership ∈ members, membership.multicastAddress = multicastAddress) ∧
      ∀ membership ∈ after, membership.multicastAddress ≠ multicastAddress := by
  obtain ⟨before, rest, hsplit, hposition, hless, hnotLess⟩ := h.exists_split multicastAddress 0
  have hmembers : ∀ m ∈ rest.takeWhile fun m ↦ decide (m.multicastAddress = multicastAddress),
      m.multicastAddress = multicastAddress := by
    intro m hm
    have htest := mem_takeWhile_imp hm
    rwa [decide_eq_true_eq] at htest
  have hsplit' := takeWhile_append_dropWhile
    (p := fun m : MulticastMembership ↦ decide (m.multicastAddress = multicastAddress)) (l := rest)
  refine ⟨before, _, _, by rw [hsplit']; exact hsplit, hposition, ?_, hmembers, ?_⟩
  · intro m hm heq
    rcases lessMembership_iff.mp (hless m hm) with hlt | ⟨-, hid, hlt⟩
    · rw [heq] at hlt
      simp [L3Address.lessThan_irrefl] at hlt
    · have hge := hids m (by rw [hsplit]; exact mem_append_left rest hm)
      simp only at hlt
      omega
  · -- behind the first membership of another group the groups are larger
    rw [hsplit, Ordered, pairwise_append] at h
    have hrest := h.2.1
    clear hsplit' hmembers hsplit h hless
    induction rest with
    | nil => exact fun m hm ↦ absurd hm not_mem_nil
    | cons head rest ih =>
      rw [pairwise_cons] at hrest
      rw [forall_mem_cons] at hnotLess
      rw [dropWhile_cons]
      split
      · exact ih hnotLess.2 hrest.2
      · rename_i hhead
        rw [decide_eq_true_eq] at hhead
        have hlarger : multicastAddress.lessThan head.multicastAddress = true := by
          cases hlt : multicastAddress.lessThan head.multicastAddress with
          | true => rfl
          | false =>
            have hfalse := hnotLess.1
            rw [Bool.eq_false_iff, ne_eq, lessMembership_iff, not_or] at hfalse
            exact absurd (L3Address.eq_of_not_lessThan (Bool.eq_false_iff.mpr hfalse.1) hlt) hhead
        intro m hm heq
        rcases mem_cons.mp hm with rfl | hm
        · exact hhead heq
        · rcases hrest.1 m hm with hlt | ⟨heq', -⟩
          · have hself := L3Address.lessThan_trans hlarger hlt
            simp only [key] at hself
            rw [heq, L3Address.lessThan_irrefl] at hself
            cases hself
          · simp only [key] at heq'
            exact hhead (heq'.trans heq)

end Inet4.Udp
