import Inet4.Machine
import Inet4.Sctp.GapListBlocks

/-!
# The gap list along a run

The gap list stands for a set of TSNs, to which TSNs are added and from which they are removed.  It
does so in every run in which no call reaches a block that begins at TSN 0, takes the only TSN of
a block out of a full list, or moves the cumulative TSN into a block or right before one.
-/

namespace Inet4.Sctp

open Blocks SctpSimpleGapList Tsn

/-- The TSNs in a set from the cumulative one on. -/
def outstanding (tsns : Set ℤ) : Set ℤ := {x ∈ tsns | ∃ y ≤ x + 1, y ∉ tsns}

/-- A TSN is less than half of the ring away from the outstanding ones. -/
def Near (tsns : Set ℤ) (t : ℤ) : Prop := ∀ x ∈ outstanding tsns, t - x < 2 ^ 31 ∧ x - t < 2 ^ 31

/-- The outstanding TSNs are near. -/
def Window (tsns : Set ℤ) : Prop := ∀ t ∈ outstanding tsns, Near tsns t

variable {tsns : Set ℤ} {t c a m : ℤ}

theorem near_of_bounds (hlow : ∀ x ≤ a, x ∈ tsns) (hhigh : ∀ x ∈ tsns, x ≤ m)
    (hahead : t - a < 2 ^ 31) (hback : m - t < 2 ^ 31) : Near tsns t := by
  rintro x ⟨hx, y, hy, hnot⟩
  have hle := hhigh x hx
  have hge : a ≤ x := by
    by_contra hlt
    exact hnot (hlow y (by omega))
  omega

/-- What is outstanding after new TSNs came is new, or it was outstanding before. -/
theorem Window.of_subset {tsns' : Set ℤ} (h : Window tsns) (hnear : Near tsns t)
    (hsubset : tsns ⊆ tsns') (hnew : ∀ x ∈ outstanding tsns', x ∈ tsns ∨ x = t) :
    Window tsns' := by
  have hold : ∀ x ∈ outstanding tsns', x ∈ outstanding tsns ∨ x = t := by
    intro x hx
    have ⟨_, y, hy, hnot⟩ := hx
    rcases hnew x hx with hmem | heq
    · exact .inl ⟨hmem, y, hy, fun hy' ↦ hnot (hsubset hy')⟩
    · exact .inr heq
  intro x hx z hz
  rcases hold x hx with hx | rfl <;> rcases hold z hz with hz | rfl
  · exact h x hx z hz
  · exact (hnear x hx).symm
  · exact hnear z hz
  · omega

theorem Window.insert (h : Window tsns) (hnear : Near tsns t) : Window (insert t tsns) := by
  refine h.of_subset hnear (Set.subset_insert t tsns) ?_
  rintro x ⟨hx, -⟩
  exact (Set.mem_insert_iff.mp hx).symm

theorem Window.union (h : Window tsns) (hnear : Near tsns c) : Window (tsns ∪ {x | x ≤ c}) := by
  refine h.of_subset hnear Set.subset_union_left ?_
  rintro x ⟨hx | hx, y, hy, hnot⟩
  · exact .inl hx
  · have hlt : ¬y ≤ c := fun hle ↦ hnot (.inr hle)
    have hle : x ≤ c := hx
    exact .inr (by omega)

theorem Window.remove (h : Window tsns) : Window {x ∈ tsns | x ≠ t ∨ ∀ y ≤ x, y ∈ tsns} := by
  have hold : outstanding {x ∈ tsns | x ≠ t ∨ ∀ y ≤ x, y ∈ tsns} ⊆ outstanding tsns := by
    rintro x ⟨⟨hx, -⟩, y, hy, hnot⟩
    by_cases hmem : y ∈ tsns
    · -- the TSN that is taken out comes after a missing one
      have hmissing : ∃ z ≤ y, z ∉ tsns := by
        by_contra hall
        refine hnot ⟨hmem, .inr fun z hz ↦ ?_⟩
        by_contra hz'
        exact hall ⟨z, hz, hz'⟩
      obtain ⟨z, hz, hz'⟩ := hmissing
      exact ⟨hx, z, hz.trans hy, hz'⟩
    · exact ⟨hx, y, hy, hmem⟩
  intro x hx z hz
  exact h x (hold hx) z (hold hz)

/-- The calls on the gap list, with the integer of the TSN. -/
inductive GapEvent
  | updateGapList (receivedTsn : ℤ)
  | removeFromGapList (removedTsn : ℤ)
  | tryToAdvanceCumAckTsn
  | forwardCumAckTsn (cTsnAck : ℤ)

/-- The list, the cumulative TSN, and the TSNs that were added and not removed. -/
structure GapHistory where
  gapList : SctpSimpleGapList
  cTsnAck : Tsn
  tsns : Set ℤ

namespace GapHistory

def initial (cTsnAck : ℤ) : GapHistory where
  gapList := .new
  cTsnAck := of cTsnAck
  tsns := {x | x ≤ cTsnAck}

/-- TSNs are near, and no call needs more blocks than there may be.  The cumulative TSN is only
moved forward. -/
def Enabled (history : GapHistory) : GapEvent → Prop
  | .updateGapList t => Near history.tsns t ∧ (history.gapList.numGaps = maxGapCount →
      t - 1 ∈ history.tsns ∨ t ∈ history.tsns ∨ t + 1 ∈ history.tsns)
  | .removeFromGapList t => Near history.tsns t ∧ (history.gapList.numGaps = maxGapCount →
      (∃ y ≤ t, y ∉ history.tsns) → ¬(t - 1 ∈ history.tsns ∧ t ∈ history.tsns ∧
        t + 1 ∈ history.tsns))
  | .tryToAdvanceCumAckTsn => True
  | .forwardCumAckTsn c => Near history.tsns c ∧ ∃ y ≤ c + 1, y ∉ history.tsns

/-- A TSN is not taken out when the cumulative TSN covers it. -/
def handle (history : GapHistory) : GapEvent → Except Fault GapHistory
  | .updateGapList t => do
    let (_, gapList, cTsnAck, _) ←
      history.gapList.updateGapList (of t) history.cTsnAck false
    return ⟨gapList, cTsnAck, insert t history.tsns⟩
  | .removeFromGapList t => do
    let gapList ← history.gapList.removeFromGapList (of t)
    return ⟨gapList, history.cTsnAck,
      {x ∈ history.tsns | x ≠ t ∨ ∀ y ≤ x, y ∈ history.tsns}⟩
  | .tryToAdvanceCumAckTsn => do
    let (_, gapList, cTsnAck) ← history.gapList.tryToAdvanceCumAckTsn history.cTsnAck
    return ⟨gapList, cTsnAck, history.tsns⟩
  | .forwardCumAckTsn c => do
    let gapList ← history.gapList.forwardCumAckTsn (of c)
    return ⟨gapList, of c, history.tsns ∪ {x | x ≤ c}⟩

def machine : Machine GapHistory GapEvent Fault where
  Enabled := Enabled
  handle := handle

/-- The calls that the list is made for: a search does not come to a block that begins at TSN 0, no
block of one TSN is taken out of a full list, and the TSN after a new cumulative one is in no
block. -/
def Sound (history : GapHistory) : GapEvent → Prop
  | .updateGapList t => ∀ i < history.gapList.numGaps, history.gapList.gapStartList i = 0 →
      tsnLe (of t) (history.gapList.prevStop history.cTsnAck i) = true
  | .removeFromGapList t => history.gapList.numGaps = maxGapCount →
      ∀ i < history.gapList.numGaps, ¬(history.gapList.gapStartList i = of t ∧
        history.gapList.gapStopList i = of t)
  | .tryToAdvanceCumAckTsn => True
  | .forwardCumAckTsn c => history.gapList.tsnInGapList (of (c + 1)) = false

/-- The assertions hold, and the TSNs that are covered are those in the set. -/
structure Correct (history : GapHistory) : Prop where
  check : history.gapList.check history.cTsnAck = true
  covered : ∀ t, Near history.tsns t →
    ((tsnLe (of t) history.cTsnAck || history.gapList.tsnInGapList (of t)) = true ↔
      t ∈ history.tsns)

/-- The list has blocks whose TSNs are those in the set, and they are near. -/
def Refined (history : GapHistory) : Prop :=
  Window history.tsns ∧
    ∃ ack blocks, history.gapList.Refines history.cTsnAck history.tsns ack blocks

variable {history after : GapHistory} {event : GapEvent} {ack : ℤ} {blocks : List (ℤ × ℤ)}

theorem near_bounds (hnear : Near history.tsns t)
    (h : history.gapList.Refines history.cTsnAck history.tsns ack blocks) :
    t - ack < 2 ^ 31 ∧ ack - t < 2 ^ 31 ∧ last ack blocks - t < 2 ^ 31 := by
  have hout : ∀ x ∈ history.tsns, ack ≤ x → x ∈ outstanding history.tsns := by
    intro x hx hle
    refine ⟨hx, ?_⟩
    rw [← h.covered]
    exact (h.apart.exists_not_mem_iff).mpr hle
  have hack : ack ∈ history.tsns := h.covered ▸ .inl le_rfl
  have hlast : last ack blocks ∈ history.tsns := h.covered ▸ last_mem_covered h.apart
  have hbounds := hnear ack (hout ack hack le_rfl)
  exact ⟨hbounds.1, hbounds.2, (hnear _ (hout _ hlast h.apart.le_last)).2⟩

theorem Refined.window_bound (h : history.Refined)
    (hrefines : history.gapList.Refines history.cTsnAck history.tsns ack blocks) :
    last ack blocks - ack < 2 ^ 31 := by
  have hack : ack ∈ history.tsns := hrefines.covered ▸ .inl le_rfl
  have hout : ack ∈ outstanding history.tsns := by
    refine ⟨hack, ?_⟩
    rw [← hrefines.covered]
    exact hrefines.apart.exists_not_mem_iff.mpr le_rfl
  exact (near_bounds (h.1 ack hout) hrefines).2.2

theorem Refined.correct (h : history.Refined) : history.Correct := by
  obtain ⟨ack, blocks, hrefines⟩ := h.2
  refine ⟨hrefines.check (h.window_bound hrefines), ?_⟩
  intro t hnear
  obtain ⟨hahead, hback, hlast⟩ := near_bounds hnear hrefines
  exact hrefines.covered_iff hback hahead hlast

/-- An addition succeeds and reports whether the TSN is new. -/
theorem Refined.updateGapList (h : history.Refined)
    (henabled : history.Enabled (.updateGapList t)) (hsound : history.Sound (.updateGapList t))
    (new : Bool) :
    ∃ returned gapList cTsnAck new',
      history.gapList.updateGapList (of t) history.cTsnAck new =
        .ok (returned, gapList, cTsnAck, new') ∧
      (new' = true ↔ new = true ∨ t ∉ history.tsns) ∧
      Refined ⟨gapList, cTsnAck, insert t history.tsns⟩ := by
  obtain ⟨ack, blocks, hrefines⟩ := h.2
  obtain ⟨hahead, hback, hlast⟩ := near_bounds henabled.1 hrefines
  have hspace : history.gapList.numGaps < maxGapCount ∨ t ≤ ack + 1 ∨
      ∃ block ∈ blocks, block.1 - 1 ≤ t ∧ t ≤ block.2 + 1 := by
    rcases history.gapList.numGaps_le.lt_or_eq with hlt | hfull
    · exact .inl hlt
    · right
      have hneighbour := henabled.2 hfull
      rw [← hrefines.covered] at hneighbour
      rcases hneighbour with (hle | hin) | (hle | hin) | (hle | hin)
      · exact .inl (by omega)
      · obtain ⟨block, hblock, hge, hle⟩ := hin
        exact .inr ⟨block, hblock, by omega, by omega⟩
      · exact .inl (by omega)
      · obtain ⟨block, hblock, hge, hle⟩ := hin
        exact .inr ⟨block, hblock, by omega, by omega⟩
      · exact .inl (by omega)
      · obtain ⟨block, hblock, hge, hle⟩ := hin
        exact .inr ⟨block, hblock, by omega, by omega⟩
  obtain ⟨returned, gapList, cTsnAck, new', ack', blocks', hupdate, hnew, hrefines'⟩ :=
    hrefines.updateGapList (h.window_bound hrefines) hback hahead hlast hsound hspace new
  exact ⟨returned, gapList, cTsnAck, new', hupdate, hnew, h.1.insert henabled.1,
    ack', blocks', hrefines'⟩

/-- A removal succeeds. -/
theorem Refined.removeFromGapList (h : history.Refined)
    (henabled : history.Enabled (.removeFromGapList t))
    (hsound : history.Sound (.removeFromGapList t)) :
    ∃ gapList, history.gapList.removeFromGapList (of t) = .ok gapList ∧
      Refined ⟨gapList, history.cTsnAck,
        {x ∈ history.tsns | x ≠ t ∨ ∀ y ≤ x, y ∈ history.tsns}⟩ := by
  obtain ⟨ack, blocks, hrefines⟩ := h.2
  obtain ⟨hahead, -, hlast⟩ := near_bounds henabled.1 hrefines
  have hspace : history.gapList.numGaps < maxGapCount ∨ ∀ block ∈ blocks, block.1 ≤ t →
      t ≤ block.2 → (block.1 = t ∨ t = block.2) ∧ block.1 ≠ block.2 := by
    rcases history.gapList.numGaps_le.lt_or_eq with hlt | hfull
    · exact .inl hlt
    · right
      intro block hblock hge hle
      have hbounds := hrefines.apart.bounds hblock
      have hmem : ∀ x, block.1 ≤ x → x ≤ block.2 → x ∈ history.tsns := by
        intro x hge' hle'
        rw [← hrefines.covered]
        exact .inr ⟨block, hblock, hge', hle'⟩
      have hmissing : ∃ y ≤ t, y ∉ history.tsns := by
        refine ⟨ack + 1, by omega, ?_⟩
        rw [← hrefines.covered, hrefines.apart.mem_iff_of_le le_rfl]
        omega
      constructor
      · by_contra hinside
        exact henabled.2 hfull hmissing ⟨hmem _ (by omega) (by omega), hmem _ hge hle,
          hmem _ (by omega) (by omega)⟩
      · intro hsingle
        obtain ⟨before, after, rfl⟩ := List.append_of_mem hblock
        obtain ⟨hnum, -, helement, -⟩ := represents_append_cons.mp hrefines.represents
        obtain rfl : t = block.1 := by omega
        exact hsound hfull before.length (by omega) ⟨helement.1, helement.2.trans (hsingle ▸ rfl)⟩
  obtain ⟨gapList, blocks', hremove, hrefines'⟩ :=
    hrefines.removeFromGapList (h.window_bound hrefines) hahead hlast hspace
  exact ⟨gapList, hremove, h.1.remove, ack, blocks', hrefines'⟩

/-- The cumulative TSN is moved. -/
theorem Refined.forwardCumAckTsn (h : history.Refined)
    (henabled : history.Enabled (.forwardCumAckTsn c))
    (hsound : history.Sound (.forwardCumAckTsn c)) :
    ∃ gapList, history.gapList.forwardCumAckTsn (of c) = .ok gapList ∧
      Refined ⟨gapList, of c, history.tsns ∪ {x | x ≤ c}⟩ := by
  obtain ⟨ack, blocks, hrefines⟩ := h.2
  obtain ⟨hahead, -, hlast⟩ := near_bounds henabled.1 hrefines
  have hle : ack ≤ c := by
    obtain ⟨y, hy, hnot⟩ := henabled.2
    by_contra hlt
    rw [← hrefines.covered] at hnot
    exact hnot (.inl (by omega))
  have hcut : ¬∃ block ∈ blocks, block.1 ≤ c + 1 ∧ c + 1 ≤ block.2 := by
    rw [← hrefines.represents.tsnInGapList hrefines.apart (by omega) (by omega),
      Bool.not_eq_true]
    exact hsound
  obtain ⟨gapList, blocks', hforward, hrefines'⟩ :=
    hrefines.forwardCumAckTsn hle hahead hlast hcut
  exact ⟨gapList, hforward, h.1.union henabled.1, c, blocks', hrefines'⟩

/-- Each call succeeds. -/
theorem Refined.exists_step (h : history.Refined) (henabled : history.Enabled event)
    (hsound : history.Sound event) : ∃ after, machine.Step history event after ∧ after.Refined := by
  cases event with
  | updateGapList t =>
    obtain ⟨returned, gapList, cTsnAck, new', hupdate, -, hrefined⟩ :=
      h.updateGapList henabled hsound false
    exact ⟨_, ⟨henabled, bind_of_ok hupdate⟩, hrefined⟩
  | removeFromGapList t =>
    obtain ⟨gapList, hremove, hrefined⟩ := h.removeFromGapList henabled hsound
    exact ⟨_, ⟨henabled, bind_of_ok hremove⟩, hrefined⟩
  | tryToAdvanceCumAckTsn =>
    obtain ⟨ack, blocks, hrefines⟩ := h.2
    have hadvance := hrefines.tryToAdvanceCumAckTsn (h.window_bound hrefines)
    exact ⟨_, ⟨henabled, bind_of_ok hadvance⟩, h⟩
  | forwardCumAckTsn c =>
    obtain ⟨gapList, hforward, hrefined⟩ := h.forwardCumAckTsn henabled hsound
    exact ⟨_, ⟨henabled, bind_of_ok hforward⟩, hrefined⟩

theorem refined_initial (cTsnAck : ℤ) : (initial cTsnAck).Refined := by
  have hempty : Blocks.covered cTsnAck [] = {x | x ≤ cTsnAck} := by
    ext x
    simp [mem_covered]
  have hrefines : (initial cTsnAck).gapList.Refines (initial cTsnAck).cTsnAck
      (initial cTsnAck).tsns cTsnAck [] := ⟨rfl, ⟨rfl, trivial⟩, trivial, hempty⟩
  refine ⟨?_, cTsnAck, [], hrefines⟩
  rintro x ⟨hx, y, hy, hnot⟩
  have hlt : ¬y ≤ cTsnAck := hnot
  have hle : x ≤ cTsnAck := hx
  exact near_of_bounds (fun _ hz ↦ hz) (fun _ hz ↦ hz) (by omega) (by omega)

theorem refined_of_run {start : ℤ} {events : List GapEvent}
    (hrun : (machine.restrict Sound).Run (initial start) events history) : history.Refined := by
  refine hrun.invariant (P := Refined) ?_ (refined_initial start)
  intro before event after hbefore hstep
  obtain ⟨hstep, hsound⟩ := Machine.step_restrict_iff.mp hstep
  obtain ⟨after', hstep', hafter⟩ := hbefore.exists_step hstep.1 hsound
  exact hstep.unique hstep' ▸ hafter

/-- In every run of calls that the list is made for, the assertions hold and the TSNs that are
covered are those that were added and not removed, the next such call succeeds, and an addition
reports whether the TSN is new. -/
theorem gapList_refines {start : ℤ} {events : List GapEvent}
    (hrun : (machine.restrict Sound).Run (initial start) events history) :
    history.Correct ∧
      (∀ event, history.Enabled event → history.Sound event →
        ∃ after, machine.Step history event after) ∧
      ∀ t new, history.Enabled (.updateGapList t) → history.Sound (.updateGapList t) →
        ∃ returned gapList cTsnAck new',
          history.gapList.updateGapList (of t) history.cTsnAck new =
            .ok (returned, gapList, cTsnAck, new') ∧
          (new' = true ↔ new = true ∨ t ∉ history.tsns) := by
  have h := refined_of_run hrun
  refine ⟨h.correct, ?_, ?_⟩
  · intro event henabled hsound
    obtain ⟨after, hstep, -⟩ := h.exists_step henabled hsound
    exact ⟨after, hstep⟩
  · intro t new henabled hsound
    obtain ⟨returned, gapList, cTsnAck, new', hupdate, hnew, -⟩ :=
      h.updateGapList henabled hsound new
    exact ⟨returned, gapList, cTsnAck, new', hupdate, hnew⟩

/-- The list with one block of one TSN. -/
def single (tsn : ℤ) : SctpSimpleGapList where
  numGaps := 1
  gapStartList := Function.update SctpSimpleGapList.new.gapStartList 0 (of tsn)
  gapStopList := Function.update SctpSimpleGapList.new.gapStopList 0 (of tsn)
  numGaps_le := of_decide_eq_true rfl

/-- After TSN `0xfffffffd` one TSN comes that is not the next one. -/
theorem run_single (t : ℤ) (ht : t = -1 ∨ t = 0) : machine.Run (initial (-3)) [.updateGapList t]
    ⟨single t, of (-3), insert t {x | x ≤ -3}⟩ := by
  have hnear : Near {x | x ≤ -3} t :=
    near_of_bounds (fun _ hx ↦ hx) (fun _ hx ↦ hx) (by omega) (by omega)
  refine Machine.run_singleton_iff.mpr ⟨⟨hnear, nofun⟩, ?_⟩
  rcases ht with rfl | rfl <;> rfl

theorem enabled_single {t : ℤ} (ht : t = -1 ∨ t = 0) :
    Enabled ⟨single t, of (-3), insert t {x | x ≤ -3}⟩ (.updateGapList 1) := by
  refine ⟨near_of_bounds (a := -3) (m := t) (fun _ hx ↦ .inr hx) ?_ (by omega) (by omega), nofun⟩
  rintro x (rfl | hx)
  · exact le_rfl
  · exact le_trans hx (by omega)

/-- TSN 1 is new after TSN `0xffffffff`, and it is reported. -/
theorem gapList_refines_single :
    ∃ returned gapList cTsnAck, (single (-1)).updateGapList 1 (of (-3)) false =
      .ok (returned, gapList, cTsnAck, true) := by
  have hrun := run_single (-1) (.inl rfl)
  have hsound : ∀ event, (initial (-3)).Sound (.updateGapList event) := fun _ _ hi ↦ nomatch hi
  have hrestrict : (machine.restrict Sound).Run (initial (-3)) [.updateGapList (-1)]
      ⟨single (-1), of (-3), insert (-1) {x | x ≤ -3}⟩ :=
    Machine.run_singleton_iff.mpr (Machine.step_restrict_iff.mpr
      ⟨Machine.run_singleton_iff.mp hrun, hsound (-1)⟩)
  have hsound' : Sound ⟨single (-1), of (-3), insert (-1) {x | x ≤ -3}⟩
      (.updateGapList 1) := by
    intro i hi hzero
    obtain rfl : i = 0 := Nat.lt_one_iff.mp hi
    cases hzero
  obtain ⟨returned, gapList, cTsnAck, new', hupdate, hnew⟩ :=
    (gapList_refines hrestrict).2.2 1 false (enabled_single (.inl rfl)) hsound'
  have htrue : new' = true := by
    rw [hnew]
    right
    rintro (heq | hle)
    · cases heq
    · exact absurd hle (by decide)
  rw [htrue] at hupdate
  exact ⟨returned, gapList, cTsnAck, hupdate⟩

/-- TSN 1 is new after TSN 0, and it is dropped. -/
theorem not_updated_after_zero :
    ∃ history, machine.Run (initial (-3)) [.updateGapList 0] history ∧
      history.Enabled (.updateGapList 1) ∧ 1 ∉ history.tsns ∧
      history.gapList.updateGapList (of 1) history.cTsnAck false =
        .ok (true, history.gapList, history.cTsnAck, false) := by
  refine ⟨_, run_single 0 (.inr rfl), enabled_single (.inr rfl), ?_, rfl⟩
  rintro (heq | hle)
  · cases heq
  · exact absurd hle (by decide)

end GapHistory

end Inet4.Sctp
