import Inet4.Icn.RoutingTable
import Inet4.Machine
import Mathlib

/-!
# Lookups and refreshes in reachable routing tables

What the two loops of `ColorRoutingTable` do to the routes of one destination.  `findRoute` computes
the first route of the best quality among those that stand before the first expired one.
`CreateEntry` stops at the first route that is the announced one or at least as good.  From this
follows for which tables a lookup finds the best live route, and for which tables a refresh takes
effect.
-/

namespace Inet4.Icn

open List MultiMap

namespace Croute

/-- The lifetime of a route is not over. -/
def Live (route : Croute) (now : SimTime) : Prop := now < route.lifeTime

instance (route : Croute) (now : SimTime) : Decidable (route.Live now) :=
  inferInstanceAs (Decidable (_ < _))

/-- A route has the next hop and the address. -/
def Via (route : Croute) (nextHop : NID) (mac : MacAddress) : Prop :=
  route.nextHop = nextHop ∧ route.nextMac = mac

instance (route : Croute) (nextHop : NID) (mac : MacAddress) : Decidable (route.Via nextHop mac) :=
  inferInstanceAs (Decidable (_ ∧ _))

end Croute

namespace ColorRoutingTable

variable {table table' : ColorRoutingTable} {now ttl : SimTime} {dest dest' nextHop : NID}
variable {mac : MacAddress} {linkQ : ℤ} {range range' rest : List Croute} {route other : Croute}

/-- A live route that no other live route excels. -/
structure IsBest (now : SimTime) (range : List Croute) (route : Croute) : Prop where
  mem : route ∈ range
  live : route.Live now
  best : ∀ other ∈ range, other.Live now → other.linkQlt ≤ route.linkQlt

/-- The routes that `findRoute` looks at. -/
def visited (now : SimTime) (range : List Croute) : List Croute :=
  range.takeWhile fun route ↦ route.Live now

theorem mem_of_mem_visited (h : route ∈ visited now range) : route ∈ range :=
  ( takeWhile_prefix _).mem h

theorem live_of_mem_visited (h : route ∈ visited now range) : route.Live now :=
  of_decide_eq_true (all_eq_true.mp all_takeWhile route h)

theorem visited_cons_of_live (h : route.Live now) :
    visited now (route :: rest) = route :: visited now rest :=
  takeWhile_cons_of_pos (p := fun route : Croute ↦ route.Live now) (decide_eq_true h)

theorem visited_cons_of_not_live (h : ¬route.Live now) : visited now (route :: rest) = [] :=
  takeWhile_cons_of_neg (p := fun route : Croute ↦ route.Live now) (by simpa using h)

/-- The loop keeps the first route of the best quality. -/
theorem findLoop_fst (now : SimTime) (result : Option Croute) (range : List Croute) :
    (findLoop now result range).1 =
      (visited now range).foldl (argAux fun b c ↦ c.linkQlt < b.linkQlt) result := by
  induction range generalizing result with
  | nil => rfl
  | cons iter rest ih =>
    unfold findLoop
    by_cases hlive : iter.Live now
    · have hlater : iter.lifeTime > now := hlive
      rw [if_pos hlater, visited_cons_of_live hlive, foldl_cons]
      refine (ih _).trans ?_
      cases result with
      | none => rfl
      | some best => rfl
    · have hearlier : ¬iter.lifeTime > now := hlive
      rw [if_neg hearlier, visited_cons_of_not_live hlive]
      rfl

theorem findRoute_fst (table : ColorRoutingTable) (now : SimTime) (dest : NID) :
    (table.findRoute now dest).1 =
      (visited now (table.equalRange dest)).argmax Croute.linkQlt :=
  findLoop_fst now none (table.equalRange dest)

/-- A lookup returns a best live route, and none only where no route is live. -/
def FindsBest (table : ColorRoutingTable) (now : SimTime) (dest : NID) : Prop :=
  (∀ route, (table.findRoute now dest).1 = some route →
    IsBest now (table.equalRange dest) route) ∧
  ((table.findRoute now dest).1 = none ↔ ∀ route ∈ table.equalRange dest, ¬route.Live now)

/-- A lookup finds a best live route exactly when there is none at all or one of them stands before
every expired route. -/
theorem findsBest_iff (table : ColorRoutingTable) (now : SimTime) (dest : NID) :
    FindsBest table now dest ↔
      ((∃ route ∈ table.equalRange dest, route.Live now) →
        ∃ route ∈ visited now (table.equalRange dest),
          IsBest now (table.equalRange dest) route) := by
  unfold FindsBest
  rw [findRoute_fst]
  constructor
  · rintro ⟨hbest, hnone⟩ ⟨route, hmem, hlive⟩
    cases hfound : (visited now (table.equalRange dest)).argmax Croute.linkQlt with
    | none => exact absurd hlive (hnone.mp hfound route hmem)
    | some found => exact ⟨found, argmax_mem hfound, hbest found hfound⟩
  · intro hfinds
    refine ⟨?_, ?_⟩
    · intro found hfound
      have hvisited := argmax_mem hfound
      have hmem := mem_of_mem_visited hvisited
      have hlive := live_of_mem_visited hvisited
      obtain ⟨route, hroute, hbest⟩ := hfinds ⟨found, hmem, hlive⟩
      have hle : route.linkQlt ≤ found.linkQlt := le_of_mem_argmax hroute hfound
      exact ⟨hmem, hlive, fun other hother holive ↦ (hbest.best other hother holive).trans hle⟩
    · rw [argmax_eq_none]
      constructor
      · intro hnil route hmem hlive
        obtain ⟨best, hbest, -⟩ := hfinds ⟨route, hmem, hlive⟩
        rw [hnil] at hbest
        cases hbest
      · intro hdead
        rw [eq_nil_iff_forall_not_mem]
        intro route hroute
        exact hdead route (mem_of_mem_visited hroute) (live_of_mem_visited hroute)

/-- A call of a member function. -/
inductive RouteCall
  | createEntry (dest nextHop : NID) (mac : MacAddress) (ttl : SimTime) (linkQ : ℤ)
  | findRoute (dest : NID)
  | removeEntry (nid : NID)

/-- The table after a call. -/
def after (table : ColorRoutingTable) (now : SimTime) : RouteCall → ColorRoutingTable
  | .createEntry dest nextHop mac ttl linkQ => table.createEntry now dest nextHop mac ttl linkQ
  | .findRoute dest => (table.findRoute now dest).2
  | .removeEntry nid => table.erase nid

/-- A table whose functions are called at any times. -/
def machine : Machine ColorRoutingTable (SimTime × RouteCall) Fault where
  Enabled _ _ := True
  handle table call := .ok (table.after call.1 call.2)

instance (table : ColorRoutingTable) (call : SimTime × RouteCall) :
    Decidable (machine.Enabled table call) := isTrue trivial

variable {calls : List (SimTime × RouteCall)}

/-- No two routes of a destination have the same next hop and address. -/
def Distinct (table : ColorRoutingTable) : Prop :=
  ∀ dest, ((table.equalRange dest).map fun route ↦ (route.nextHop, route.nextMac)).Nodup

theorem distinct_empty : Distinct empty := fun _ ↦ nodup_nil

/-- The scan is stopped by a route: it is the announced one, or it is at least as good. -/
def Stops (nextHop : NID) (mac : MacAddress) (linkQ : ℤ) (route : Croute) : Prop :=
  route.Via nextHop mac ∨ route.linkQlt ≥ linkQ

instance (nextHop : NID) (mac : MacAddress) (linkQ : ℤ) (route : Croute) :
    Decidable (Stops nextHop mac linkQ route) :=
  inferInstanceAs (Decidable (_ ∨ _))

/-- A route whose lifetime is at least that of the announcement. -/
def refreshed (now ttl : SimTime) (route : Croute) : Croute :=
  { route with lifeTime := if ttl + now > route.lifeTime then ttl + now else route.lifeTime }

theorem le_lifeTime_refreshed (now ttl : SimTime) (route : Croute) :
    now + ttl ≤ (refreshed now ttl route).lifeTime := by
  unfold refreshed
  split
  · exact (Int.add_comm now ttl).le
  · rename_i hnot
    rw [Int.add_comm]
    exact Int.not_lt.mp hnot

theorem renew_cons_of_via (h : route.Via nextHop mac) :
    renew now nextHop mac ttl linkQ (route :: rest) = some (refreshed now ttl route :: rest) :=
  if_pos h

theorem renew_cons_of_good (hvia : ¬route.Via nextHop mac) (h : route.linkQlt ≥ linkQ) :
    renew now nextHop mac ttl linkQ (route :: rest) = some (route :: rest) :=
  (if_neg hvia).trans (if_pos h)

theorem renew_cons_of_worse (h : ¬Stops nextHop mac linkQ route) :
    renew now nextHop mac ttl linkQ (route :: rest) =
      (renew now nextHop mac ttl linkQ rest).map (route :: ·) :=
  (if_neg (not_or.mp h).1).trans (if_neg (not_or.mp h).2)

/-- The scan of `CreateEntry`: it runs to the end, or ends at the announced route, which is
refreshed, or at another one that is at least as good. -/
theorem renew_spec (now ttl : SimTime) (nextHop : NID) (mac : MacAddress) (linkQ : ℤ)
    (range : List Croute) :
    (renew now nextHop mac ttl linkQ range = none ∧
      ∀ route ∈ range, ¬Stops nextHop mac linkQ route) ∨
    ∃ before stop behind, range = before ++ stop :: behind ∧
      (∀ route ∈ before, ¬Stops nextHop mac linkQ route) ∧ Stops nextHop mac linkQ stop ∧
      renew now nextHop mac ttl linkQ range =
        some (before ++ (if stop.Via nextHop mac then refreshed now ttl stop else stop) ::
          behind) := by
  induction range with
  | nil => exact .inl ⟨rfl, by simp⟩
  | cons iter rest ih =>
    by_cases hstop : Stops nextHop mac linkQ iter
    · refine .inr ⟨[], iter, rest, rfl, by simp, hstop, ?_⟩
      by_cases hvia : iter.Via nextHop mac
      · rw [renew_cons_of_via hvia, if_pos hvia]
        rfl
      · rw [renew_cons_of_good hvia (hstop.resolve_left hvia), if_neg hvia]
        rfl
    · rw [renew_cons_of_worse hstop]
      rcases ih with ⟨hnone, hrest⟩ | ⟨before, stop, behind, hrange, hbefore, hends, hsome⟩
      · exact .inl ⟨by rw [hnone]; rfl, forall_mem_cons.mpr ⟨hstop, hrest⟩⟩
      · refine .inr ⟨iter :: before, stop, behind, by rw [hrange]; rfl,
          forall_mem_cons.mpr ⟨hstop, hbefore⟩, hends, ?_⟩
        rw [hsome]
        rfl

/-- A lookup removes at most one route. -/
theorem findLoop_snd_sublist (now : SimTime) (result : Option Croute) (range : List Croute) :
    (findLoop now result range).2.Sublist range := by
  induction range generalizing result with
  | nil => exact List.Sublist.slnil
  | cons iter rest ih =>
    unfold findLoop
    split
    · exact (ih _).cons_cons iter
    · exact sublist_cons_self iter rest

theorem Distinct.setRange (h : Distinct table)
    (hrange : (range.map fun route ↦ (route.nextHop, route.nextMac)).Nodup) :
    Distinct (table.setRange dest range) := by
  intro dest'
  rw [equalRange_setRange]
  split
  · exact hrange
  · exact h dest'

theorem Distinct.createEntry (h : Distinct table) :
    Distinct (table.createEntry now dest nextHop mac ttl linkQ) := by
  have hdest := h dest
  unfold ColorRoutingTable.createEntry
  rcases renew_spec now ttl nextHop mac linkQ (table.equalRange dest) with
    ⟨hnone, hall⟩ | ⟨before, stop, behind, hrange, -, -, hsome⟩
  · rw [hnone]
    apply h.setRange
    rw [map_append]
    refine nodup_append.mpr ⟨hdest, nodup_singleton _, ?_⟩
    intro key hkey key' hkey' heq
    obtain ⟨route, hroute, rfl⟩ := mem_map.mp hkey
    obtain rfl := mem_singleton.mp hkey'
    obtain ⟨hhop, hmac⟩ := Prod.mk.inj heq
    exact hall route hroute (.inl ⟨hhop, hmac⟩)
  · rw [hsome]
    apply h.setRange
    rw [hrange] at hdest
    split
    · simpa only [map_append, map_cons, refreshed] using hdest
    · exact hdest

theorem Distinct.after (h : Distinct table) (now : SimTime) (call : RouteCall) :
    Distinct (table.after now call) := by
  cases call with
  | createEntry dest nextHop mac ttl linkQ => exact h.createEntry
  | findRoute dest =>
    apply h.setRange
    exact (h dest).sublist ((findLoop_snd_sublist now none _).map _)
  | removeEntry nid => exact h.setRange nodup_nil

theorem distinct_of_run (hrun : machine.Run empty calls table) : Distinct table := by
  refine hrun.invariant ?_ distinct_empty
  intro table call table' h hstep
  obtain rfl := Except.ok.inj hstep.2
  exact h.after call.1 call.2

/-- A route over node 2 expires at 10, a better one over node 3 at 100. -/
def slowThenFast : List (SimTime × RouteCall) :=
  [(0, .createEntry ⟨1⟩ ⟨2⟩ 2 10 1), (0, .createEntry ⟨1⟩ ⟨3⟩ 3 100 2)]

/-- At 10 the expired route hides the one over node 3. -/
theorem not_findsBest_expired :
    ∃ table, machine.Run empty slowThenFast table ∧ ¬FindsBest table 10 ⟨1⟩ := by
  refine Machine.exists_run_imp (fun table ↦ (findRoute table 10 ⟨1⟩).1 = none ∧ ∃ route ∈
    table.equalRange ⟨1⟩, route.Live 10) (by decide +kernel) ?_
  rintro table hrun ⟨hnone, hlive⟩
  rintro ⟨-, hdead⟩
  obtain ⟨route, hroute, hlive⟩ := hlive
  exact hdead.mp hnone route hroute hlive

/-- After the announcement of a route some route to the destination is live, and if the announced
route was stored before it lives at least as long as announced. -/
def Refreshes (table : ColorRoutingTable) (now : SimTime) (dest nextHop : NID) (mac : MacAddress)
    (ttl : SimTime) (linkQ : ℤ) : Prop :=
  (∃ route ∈ (table.createEntry now dest nextHop mac ttl linkQ).equalRange dest, route.Live now) ∧
  ((∃ route ∈ table.equalRange dest, route.Via nextHop mac) →
    ∀ route ∈ (table.createEntry now dest nextHop mac ttl linkQ).equalRange dest,
      route.Via nextHop mac → now + ttl ≤ route.lifeTime)

/-- Where another route stops the scan, there is nothing left to do: some route is live, and the
announced route lives long enough if it is stored. -/
def NeedsNoRefresh (table : ColorRoutingTable) (now : SimTime) (dest nextHop : NID)
    (mac : MacAddress) (ttl : SimTime) (linkQ : ℤ) : Prop :=
  ∀ stop, (table.equalRange dest).find? (fun route ↦ Stops nextHop mac linkQ route) = some stop →
    ¬stop.Via nextHop mac →
      (∃ route ∈ table.equalRange dest, route.Live now) ∧
      ∀ route ∈ table.equalRange dest, route.Via nextHop mac → now + ttl ≤ route.lifeTime

/-- In a reachable table an announcement takes effect exactly when the first route that stops the
scan is the announced one, or nothing stops it, or there is nothing left to do. -/
theorem refreshes_iff (hrun : machine.Run empty calls table) (httl : 0 < ttl) :
    Refreshes table now dest nextHop mac ttl linkQ ↔
      NeedsNoRefresh table now dest nextHop mac ttl linkQ := by
  have hdistinct := distinct_of_run hrun dest
  have hlater : now < now + ttl := Int.lt_add_of_pos_right now httl
  unfold Refreshes NeedsNoRefresh ColorRoutingTable.createEntry
  rcases renew_spec now ttl nextHop mac linkQ (table.equalRange dest) with
    ⟨hnone, hall⟩ | ⟨before, stop, behind, hrange, hbefore, hstop, hsome⟩
  · rw [hnone]
    have hfind : (table.equalRange dest).find? (fun route ↦ Stops nextHop mac linkQ route) =
      none := by
      rw [find?_eq_none]
      intro route hroute
      simpa using hall route hroute
    simp only [hfind, reduceCtorEq, false_implies, implies_true, iff_true]
    refine ⟨⟨⟨nextHop, mac, ttl + now, linkQ⟩, ?_, ?_⟩, ?_⟩
    · simp [MultiMap.insert]
    · rw [Croute.Live, Int.add_comm]
      exact hlater
    · rintro ⟨route, hroute, hvia⟩
      exact absurd (.inl hvia) (hall route hroute)
  · have hfind : (table.equalRange dest).find? (fun route ↦ Stops nextHop mac linkQ route) =
        some stop := by
      rw [find?_eq_some_iff_append]
      refine ⟨by simpa using hstop, before, behind, hrange, ?_⟩
      intro route hroute
      simpa using hbefore route hroute
    rw [hsome, hfind]
    simp only [equalRange_setRange, if_true, Option.some.injEq, forall_eq']
    by_cases hvia : stop.Via nextHop mac
    · rw [if_pos hvia]
      simp only [hvia, not_true_eq_false, false_implies, iff_true]
      have hlive := le_lifeTime_refreshed now ttl stop
      refine ⟨⟨refreshed now ttl stop, by simp, hlater.trans_le hlive⟩, ?_⟩
      intro _ route hroute hsame
      rw [hrange, map_append, map_cons] at hdistinct
      obtain ⟨-, hbehind, -⟩ := nodup_append.mp hdistinct
      have hnotMem := (nodup_cons.mp hbehind).1
      rcases mem_append.mp hroute with hroute | hroute
      · exact absurd (.inl hsame) (hbefore route hroute)
      · rcases mem_cons.mp hroute with rfl | hroute
        · exact hlive
        · refine absurd (mem_map.mpr ⟨route, hroute, ?_⟩) hnotMem
          rw [hsame.1, hsame.2, hvia.1, hvia.2]
    · rw [if_neg hvia, ← hrange]
      simp only [hvia, not_false_eq_true, true_implies]
      constructor
      · rintro ⟨hlive, hrefreshed⟩
        exact ⟨hlive, fun route hroute hsame ↦ hrefreshed ⟨route, hroute, hsame⟩ route hroute hsame⟩
      · rintro ⟨hlive, hrefreshed⟩
        exact ⟨hlive, fun _ ↦ hrefreshed⟩

instance (table : ColorRoutingTable) (now : SimTime) (dest nextHop : NID) (mac : MacAddress)
    (ttl : SimTime) (linkQ : ℤ) :
    Decidable (NeedsNoRefresh table now dest nextHop mac ttl linkQ) :=
  decidable_of_iff (∀ stop ∈ (table.equalRange dest).find? fun route ↦
      Stops nextHop mac linkQ route, ¬stop.Via nextHop mac →
        (∃ route ∈ table.equalRange dest, route.Live now) ∧
        ∀ route ∈ table.equalRange dest, route.Via nextHop mac → now + ttl ≤ route.lifeTime)
    Iff.rfl

/-- The route over node 3 is announced again before it expires. -/
theorem refreshes_iff_again :
    ∃ table, machine.Run empty slowThenFast table ∧ (0 : SimTime) < 50 ∧
      Refreshes table 60 ⟨1⟩ ⟨3⟩ 3 50 2 := by
  refine Machine.exists_run_imp (fun table ↦ NeedsNoRefresh table 60 ⟨1⟩ ⟨3⟩ 3 50 2)
    (by decide +kernel) ?_
  intro table hrun hneeds
  exact ⟨by decide, (refreshes_iff hrun (by decide)).mpr hneeds⟩

/-- An expired route keeps a new one out, and a route that stands in front of the announced one and
is as good keeps it from being renewed. -/
theorem not_refreshes_stopped :
    (∃ table, machine.Run empty [(0, .createEntry ⟨1⟩ ⟨2⟩ 2 10 5)] table ∧
      ¬Refreshes table 20 ⟨1⟩ ⟨3⟩ 3 10 3) ∧
    ∃ table, machine.Run empty slowThenFast table ∧
      ¬Refreshes table 60 ⟨1⟩ ⟨3⟩ 3 50 1 := by
  constructor
  · refine Machine.exists_run_imp (fun table ↦ ∀ route ∈ (createEntry table 20 ⟨1⟩ ⟨3⟩ 3 10
      3).equalRange ⟨1⟩, ¬route.Live 20) (by decide +kernel) ?_
    intro table hrun hdead
    rintro ⟨⟨route, hroute, hlive⟩, -⟩
    exact hdead route hroute hlive
  · refine Machine.exists_run_imp (fun table ↦ (∃ route ∈ table.equalRange ⟨1⟩, route.Via ⟨3⟩ 3) ∧ ∃
      route ∈ (createEntry table 60 ⟨1⟩ ⟨3⟩ 3 50 1).equalRange ⟨1⟩, route.Via ⟨3⟩ 3 ∧ ¬60 + 50 ≤
      route.lifeTime) (by decide +kernel) ?_
    rintro table hrun ⟨⟨stored, hstored, hvia⟩, route, hroute, hsame, hshort⟩
    rintro ⟨-, hrefreshed⟩
    exact hshort (hrefreshed ⟨stored, hstored, hvia⟩ route hroute hsame)

end ColorRoutingTable

end Inet4.Icn
