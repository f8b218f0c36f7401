import Inet4.Bgp.Steps
import Mathlib.Data.Set.Finite.Lemmas
import Mathlib.Data.Set.Finite.List

/-!
# Selection of the best announcement

Announcements for one prefix are ranked by their local preferences, then by the lengths of their AS
paths and then by their origins.  The tables select the best ones in every order of arrival if these
win each comparison and no other route hides them.
-/

namespace Inet4.Bgp

open BgpRoutingTableEntry BitVec

open Ipv4 (Ipv4Address Ipv4Route Ipv4RoutingTable RoutePtr)
open Ipv4.Ipv4RoutingTable (mem_addRoute mem_addRoute_self mem_of_mem_addRoute mem_deleteRoute)

namespace BgpRouter

variable (router : BgpRouter)

/-- LOCAL_PREF as it is announced, or the parameter. -/
def localPref (x : Announcement) : ℤ :=
  x.pathAttributes.foldl (fun preference attr ↦
    match attr with
    | .LOCAL_PREF value => value.toNat
    | _ => preference) router.localPreference

def origin (x : Announcement) : BitVec 8 := (router.announced x 0).pathType

/-- The highest local preference is first, and then the shortest AS path and the lowest origin. -/
def rank (x : Announcement) : ℤᵒᵈ ×ₗ ℕ ×ₗ ℕ :=
  toLex (OrderDual.toDual (router.localPref x),
    toLex (x.msg.asPath.length, (router.origin x).toNat))

def IsBest (l : List Announcement) (x : Announcement) : Prop :=
  x ∈ l ∧ ∀ y ∈ l, y.nlri = x.nlri → router.rank x ≤ router.rank y

/-- The entry of a best announcement for its prefix and length. -/
def BestEntry (l : List Announcement) (entry : BgpRoutingTableEntry) : Prop :=
  ∃ x, router.IsBest l x ∧ entry = router.announced x entry.ptr

/-- An announcement with the entry of a best one. -/
def Selectable (l : List Announcement) (x : Announcement) : Prop :=
  router.BestEntry l (router.announced x 0)

/-- The later announcement replaces the earlier one. -/
def Replaces (x y : Announcement) : Prop := (router.announced x 0).Beats (router.announced y 0)

end BgpRouter

variable {router : BgpRouter} {l : List Announcement} {x y : Announcement}

theorem foldl_localPreference (attrs : List BgpUpdatePathAttributes)
    (entry : BgpRoutingTableEntry) (preference : ℤ)
    (h : entry.localPreference = wrapInt preference) :
    (attrs.foldl .setAttribute entry).localPreference =
      wrapInt (attrs.foldl (fun preference attr ↦
        match attr with
        | .LOCAL_PREF value => (value.toNat : ℤ)
        | _ => preference) preference) := by
  induction attrs generalizing entry preference with
  | nil => exact h
  | cons attr attrs ih =>
    apply ih
    cases attr with
    | LOCAL_PREF value => exact toInt_eq_toNat_bmod value
    | ORIGIN | AS_PATH | NEXT_HOP | other => exact h

/-- The table keeps the local preference in an `int`. -/
theorem announced_localPreference (x : Announcement) (ptr : RoutePtr) :
    (router.announced x ptr).localPreference = wrapInt (router.localPref x) := by
  have hfold := foldl_localPreference x.pathAttributes (router.newEntry ptr x.msg x.nlri)
    router.localPreference rfl
  unfold BgpRouter.localPref
  rw [← hfold]
  unfold BgpRouter.announced
  cases (router.sessions x.session).type <;> rfl

theorem announced_pathType (x : Announcement) (ptr : RoutePtr) :
    (router.announced x ptr).pathType = router.origin x := by
  rw [BgpRouter.origin, ← announced_setPtr x 0 ptr]

theorem announced_gateway (x : Announcement) (ptr : RoutePtr) :
    (router.announced x ptr).gateway = (router.announced x 0).gateway := by
  rw [← announced_setPtr x 0 ptr]

theorem announced_beats_iff (x y : Announcement) (ptr ptr' : RoutePtr) :
    (router.announced x ptr).Beats (router.announced y ptr') ↔ router.Replaces x y := by
  simp only [BgpRouter.Replaces, Beats, announced_localPreference,
    announced_pathType, announced_asList]

theorem rank_eq_iff : router.rank x = router.rank y ↔ router.localPref x = router.localPref y ∧
    x.msg.asPath.length = y.msg.asPath.length ∧ router.origin x = router.origin y := by
  simp only [BgpRouter.rank, toLex_inj, Prod.mk.injEq, OrderDual.toDual_inj, toNat_inj]

/-- The comparison sees no more than the ranks. -/
theorem replaces_congr {x' y' : Announcement} (hx : router.rank x = router.rank x')
    (hy : router.rank y = router.rank y') : router.Replaces x y ↔ router.Replaces x' y' := by
  have hx' := rank_eq_iff.mp hx
  have hy' := rank_eq_iff.mp hy
  simp only [BgpRouter.Replaces, Beats, announced_localPreference,
    announced_pathType, announced_asList, hx'.1, hx'.2.1, hx'.2.2, hy'.1, hy'.2.1, hy'.2.2]

theorem not_replaces_self (x : Announcement) : ¬router.Replaces x x := by
  simp [BgpRouter.Replaces, Beats]

theorem BgpRouter.IsBest.rank_eq (hx : router.IsBest l x) (hy : router.IsBest l y)
    (hnlri : x.nlri = y.nlri) : router.rank x = router.rank y :=
  le_antisymm (hx.2 y hy.1 hnlri.symm) (hy.2 x hx.1 hnlri)

/-- Among the announcements for a prefix there is a best one. -/
theorem exists_isBest (hx : x ∈ l) : ∃ y, router.IsBest l y ∧ y.nlri = x.nlri := by
  have hfinite : {y | y ∈ l ∧ y.nlri = x.nlri}.Finite :=
    (List.finite_toSet l).subset fun y hy ↦ hy.1
  obtain ⟨y, hy, hmin⟩ := Set.exists_min_image _ router.rank hfinite ⟨x, hx, rfl⟩
  refine ⟨y, ⟨hy.1, ?_⟩, hy.2⟩
  intro z hz hnlri
  exact hmin z ⟨hz, hnlri.trans hy.2⟩

theorem BgpRouter.IsBest.selectable (h : router.IsBest l x) : router.Selectable l x :=
  ⟨x, h, by rw [announced_ptr]⟩

theorem bestEntry_announced (x : Announcement) (ptr : RoutePtr) :
    router.BestEntry l (router.announced x ptr) ↔ router.Selectable l x := by
  unfold BgpRouter.Selectable BgpRouter.BestEntry
  simp only [announced_ptr]
  constructor
  · rintro ⟨b, hbest, heq⟩
    refine ⟨b, hbest, ?_⟩
    rw [← announced_setPtr x ptr 0, heq, announced_setPtr]
  · rintro ⟨b, hbest, heq⟩
    refine ⟨b, hbest, ?_⟩
    rw [← announced_setPtr x 0 ptr, heq, announced_setPtr]

/-- A route for a prefix and a length. -/
def IsFor (route : Ipv4Route) (nlri : BgpUpdateNlri) : Prop :=
  route.dest = nlri.nlriPrefix ∧ route.netmask = Ipv4Address.makeNetmask nlri.length.toNat

instance (route : Ipv4Route) (nlri : BgpUpdateNlri) : Decidable (IsFor route nlri) :=
  inferInstanceAs (Decidable (_ ∧ _))

namespace Tables

def entriesFor (tables : Tables) (nlri : BgpUpdateNlri) : List BgpRoutingTableEntry :=
  tables.bgpRoutingTable.filter fun entry ↦ IsFor entry.toIpv4Route nlri

def bgpRoutesFor (tables : Tables) (nlri : BgpUpdateNlri) : List Ipv4Route :=
  tables.rt.routes.filter fun route ↦ tables.sourceType route.ptr = .BGP ∧ IsFor route nlri

/-- Nothing for another prefix or length has been removed. -/
structure Keeps (before after : Tables) (nlri : BgpUpdateNlri) : Prop where
  entries : ∀ entry ∈ before.bgpRoutingTable, ¬IsFor entry.toIpv4Route nlri →
    entry ∈ after.bgpRoutingTable
  routes : ∀ route ∈ before.rt.routes, ¬IsFor route nlri → route ∈ after.rt.routes

end Tables

variable (router)

/-- Announcements that may be received from now on, one by one.  No other protocol has a route for
their prefixes, and the entries that are already there are for networks of other protocols. -/
structure Receivable (start : Tables) (l : List Announcement) : Prop where
  sound : Sound start
  otherProtocols : ∀ route ∈ start.rt.routes, start.sourceType route.ptr ≠ .BGP
  advertised : ∀ entry ∈ start.bgpRoutingTable, ∃ route ∈ start.rt.routes,
    entry.dest = route.dest ∧ entry.netmask = route.netmask
  notProvided : ∀ x ∈ l, ∀ route ∈ start.rt.routes, ¬IsFor route x.nlri
  ospf : router.redistributeInternal = true → router.ospfModule = true
  accepts : ∀ x ∈ l, router.Accepts x
  noHostBits : ∀ x ∈ l,
    x.nlri.nlriPrefix &&& ~~~Ipv4Address.makeNetmask x.nlri.length.toNat = 0#32
  linked : ∀ x ∈ l, (router.sessions x.session).linkIntf ≠ none
  reachable : ∀ x ∈ l, start.isReachable (router.announced x 0).gateway = true

/-- The best announcement for a prefix has the only entry and the only BGP route. -/
def Tables.Selects (tables : Tables) (l : List Announcement) (x : Announcement) : Prop :=
  ∃ entry, tables.entriesFor x.nlri = [entry] ∧ router.BestEntry l entry ∧
    tables.bgpRoutesFor x.nlri = [entry.toIpv4Route]

/-- The announcements arrive in an order: no step removes what is for another prefix or length, and
in the end the best ones are selected. -/
structure SelectsBest (start : Tables) (l order : List Announcement) : Prop where
  selects : ∃ tables, router.run start order = .ok tables ∧ ∀ x ∈ l, tables.Selects router l x
  keeps : ∀ received x rest, order = received ++ x :: rest →
    ∀ before, router.run start received = .ok before →
      ∀ after, router.receive before x = .ok after → before.Keeps after x.nlri

/-- The condition on the announcements.  Those with the same address have the same length, and the
address 0.0.0.0 has the length 0; a best one is not replaced by any other one for its prefix and
replaces all that are not best; a best one over an internal session is not covered by another prefix
that is announced; and no route that is there at the start covers an announced address. -/
structure Agreeable (start : Tables) (l : List Announcement) : Prop where
  sameLength : ∀ x ∈ l, ∀ y ∈ l, x.nlri.nlriPrefix = y.nlri.nlriPrefix →
    x.nlri.length = y.nlri.length
  nonzero : ∀ x ∈ l, x.nlri.nlriPrefix = 0#32 → x.nlri.length = 0#8
  stays : ∀ x ∈ l, ∀ y ∈ l, y.nlri = x.nlri → router.Selectable l x → ¬router.Replaces y x
  wins : ∀ x ∈ l, ∀ y ∈ l, y.nlri = x.nlri → router.Selectable l x → ¬router.Selectable l y →
    router.Replaces x y
  notHidden : ∀ x ∈ l, ∀ y ∈ l, router.Selectable l x → router.sessionType x = .IGP →
    y.nlri.nlriPrefix ≠ x.nlri.nlriPrefix →
    ¬Covers (router.announced y 0).toIpv4Route x.nlri.nlriPrefix
  notCovered : ∀ x ∈ l, ∀ route ∈ start.rt.routes, ¬Covers route x.nlri.nlriPrefix

variable {router} {start : Tables}

theorem makeNetmask_inj {m n : ℕ} (hm : m ≤ 32) (hn : n ≤ 32)
    (h : Ipv4Address.makeNetmask m = Ipv4Address.makeNetmask n) : m = n := by
  have hlt := Ipv4Address.makeNetmask_lt_iff hm hn
  have hgt := Ipv4Address.makeNetmask_lt_iff hn hm
  rw [h] at hlt hgt
  have hirrefl := BitVec.lt_irrefl (Ipv4Address.makeNetmask n)
  exact le_antisymm (not_lt.mp fun hnm ↦ hirrefl (hgt.mpr hnm))
    (not_lt.mp fun hmn ↦ hirrefl (hlt.mpr hmn))

theorem isFor_announced (x : Announcement) (ptr : RoutePtr) :
    IsFor (router.announced x ptr).toIpv4Route x.nlri :=
  ⟨announced_dest x ptr, announced_netmask x ptr⟩

theorem and_eq_self_of_and_not {a m : Ipv4Address} (h : a &&& ~~~m = 0#32) : a &&& m = a := by
  apply eq_of_getLsbD_eq
  intro i hi
  have hbit := congrArg (getLsbD · i) h
  simp only [getLsbD_and, getLsbD_not, getLsbD_zero, hi, decide_true,
    Bool.true_and] at hbit ⊢
  revert hbit
  cases a.getLsbD i <;> cases m.getLsbD i <;> simp

section Receivable

variable (h : Receivable router start l)

include h

theorem Receivable.network_announced (hx : x ∈ l) (ptr : RoutePtr) :
    (router.announced x ptr).network = x.nlri.nlriPrefix := by
  unfold network
  rw [announced_dest, announced_netmask]
  exact and_eq_self_of_and_not (h.noHostBits x hx)

theorem Receivable.nlri_eq_of_isFor (hx : x ∈ l) (hy : y ∈ l) {ptr : RoutePtr}
    (hfor : IsFor (router.announced y ptr).toIpv4Route x.nlri) : y.nlri = x.nlri := by
  have hdest : y.nlri.nlriPrefix = x.nlri.nlriPrefix :=
    (announced_dest y ptr).symm.trans hfor.1
  have hmask := (announced_netmask y ptr).symm.trans hfor.2
  have hlength := makeNetmask_inj (h.accepts y hy).length_le (h.accepts x hx).length_le hmask
  exact BgpUpdateNlri.ext (eq_of_toNat_eq hlength) hdest

end Receivable

end Inet4.Bgp
