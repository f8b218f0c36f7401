import Inet4.Kernel

/-!
# Tags of the regions of a packet

`RegionTagSet` attaches tags to ranges of bits.  A tag stands for the value of the object that the
set owns, so that a duplicate equals the original.  The tags are in a `std::vector`; as with the
usual implementations an insertion within the capacity moves the elements behind it, and one beyond
the capacity leaves iterators and references without a target.
-/

namespace Inet4.Packet

/-- `RegionTag`, in bits. -/
structure RegionTag (T : Type) where
  offset : ℤ
  length : ℤ
  tag : T
  deriving DecidableEq

namespace RegionTag

variable {T : Type}
variable (regionTag : RegionTag T)

def setOffset (offset : ℤ) : RegionTag T := { regionTag with offset }

def setLength (length : ℤ) : RegionTag T := { regionTag with length }

def getStartOffset : ℤ := regionTag.offset

def getEndOffset : ℤ := regionTag.offset + regionTag.length

/-- The range from `start` to `end_` and the region have no bit in common. -/
def Disjoint (start end_ : ℤ) : Prop :=
  end_ ≤ regionTag.getStartOffset ∨ regionTag.getEndOffset ≤ start

/-- The range from `start` to `end_` totally covers the region. -/
def Within (start end_ : ℤ) : Prop :=
  start ≤ regionTag.getStartOffset ∧ regionTag.getEndOffset ≤ end_

/-- The region goes on at both ends of the range from `start` to `end_`. -/
def Splits (start end_ : ℤ) : Prop :=
  regionTag.getStartOffset < start ∧ end_ < regionTag.getEndOffset

/-- The region has the bit at `position`. -/
def Covers (position : ℤ) : Prop :=
  regionTag.getStartOffset ≤ position ∧ position < regionTag.getEndOffset

instance (regionTag : RegionTag T) (start end_ : ℤ) : Decidable (regionTag.Disjoint start end_) :=
  inferInstanceAs (Decidable (_ ∨ _))

instance (regionTag : RegionTag T) (start end_ : ℤ) : Decidable (regionTag.Within start end_) :=
  inferInstanceAs (Decidable (_ ∧ _))

instance (regionTag : RegionTag T) (start end_ : ℤ) : Decidable (regionTag.Splits start end_) :=
  inferInstanceAs (Decidable (_ ∧ _))

instance (regionTag : RegionTag T) (position : ℤ) : Decidable (regionTag.Covers position) :=
  inferInstanceAs (Decidable (_ ∧ _))

end RegionTag

/-- `std::vector<RegionTag<cObject>>`; `room` is what its capacity exceeds its size by. -/
structure RegionTagVector (T : Type) where
  elements : List (RegionTag T)
  room : ℕ
  deriving DecidableEq

/-- `RegionTagSet`; `none` stands for `nullptr`. -/
structure RegionTagSet (T : Type) where
  regionTags : Option (RegionTagVector T) := none
  deriving DecidableEq

namespace RegionTagVector

variable {T : Type}

/-- The loop of `clearTags`: the elements before `it`, those from `it` on, and the room. -/
def clearFrom (clearStartOffset clearEndOffset : ℤ) :
    List (RegionTag T) → List (RegionTag T) → ℕ → Except Fault (RegionTagVector T)
  | done, [], room => .ok ⟨done, room⟩
  | done, regionTag :: rest, room =>
    if regionTag.Disjoint clearStartOffset clearEndOffset then
      clearFrom clearStartOffset clearEndOffset (done ++ [regionTag]) rest room
    else if regionTag.Within clearStartOffset clearEndOffset then
      clearFrom clearStartOffset clearEndOffset done rest (room + 1)
    else if regionTag.Splits clearStartOffset clearEndOffset then
      let previousRegion : RegionTag T := ⟨regionTag.getStartOffset,
        clearStartOffset - regionTag.getStartOffset, regionTag.tag⟩
      match room with
      | 0 => .error .undefinedBehaviour
      | room + 1 =>
        -- `regionTag` refers to what is now at its place, which is the inserted region, and the
        -- next element is the one that has been split.
        let previousRegion :=
          previousRegion.setLength (previousRegion.getEndOffset - clearEndOffset)
        let previousRegion := previousRegion.setOffset clearEndOffset
        clearFrom clearStartOffset clearEndOffset (done ++ [previousRegion]) (regionTag :: rest)
          room
    else if regionTag.getEndOffset ≤ clearEndOffset then
      let regionTag := regionTag.setLength (clearStartOffset - regionTag.getStartOffset)
      clearFrom clearStartOffset clearEndOffset (done ++ [regionTag]) rest room
    else if clearStartOffset ≤ regionTag.getStartOffset then
      let regionTag := regionTag.setLength (regionTag.getEndOffset - clearEndOffset)
      let regionTag := regionTag.setOffset clearEndOffset
      clearFrom clearStartOffset clearEndOffset (done ++ [regionTag]) rest room
    else .error .runtimeError
termination_by _ rest room => (rest.length, room)

end RegionTagVector

namespace RegionTagSet

variable {T : Type}

/-- The elements, from the first to the last. -/
def elements (set : RegionTagSet T) : List (RegionTag T) :=
  match set.regionTags with
  | none => []
  | some regionTags => regionTags.elements

def clearTags (set : RegionTagSet T) (offset length : ℤ) : Except Fault (RegionTagSet T) :=
  match set.regionTags with
  | none => .ok set
  | some regionTags => do
    let regionTags ← RegionTagVector.clearFrom offset (offset + length) [] regionTags.elements
      regionTags.room
    return ⟨some regionTags⟩

end RegionTagSet

/-! ## The tags of a bit -/

section Covering

variable {T : Type} {regionTag : RegionTag T} {regionTags : List (RegionTag T)}
variable {start end_ position : ℤ}

/-- The tags of the regions that have the bit at `position`. -/
def tagsAt (regionTags : List (RegionTag T)) (position : ℤ) : List T :=
  (regionTags.filter fun regionTag ↦ regionTag.Covers position).map RegionTag.tag

theorem tagsAt_cons : tagsAt (regionTag :: regionTags) position =
    if regionTag.Covers position then regionTag.tag :: tagsAt regionTags position
    else tagsAt regionTags position := by
  by_cases h : regionTag.Covers position
  · simp [tagsAt, h]
  · simp [tagsAt, h]

/-- A bit keeps its tags where every region that has it is replaced by one that has it, too, and
every other region by none or by one that has it neither. -/
theorem tagsAt_filterMap {f : RegionTag T → Option (RegionTag T)} {position' : ℤ}
    (hnone : ∀ regionTag ∈ regionTags, f regionTag = none → ¬regionTag.Covers position)
    (hsome : ∀ regionTag ∈ regionTags, ∀ regionTag', f regionTag = some regionTag' →
      regionTag'.tag = regionTag.tag ∧
        (regionTag'.Covers position' ↔ regionTag.Covers position)) :
    tagsAt (regionTags.filterMap f) position' = tagsAt regionTags position := by
  induction regionTags with
  | nil => rfl
  | cons regionTag regionTags ih =>
    rw [List.forall_mem_cons] at hnone hsome
    have ih := ih hnone.2 hsome.2
    rw [tagsAt_cons]
    cases hf : f regionTag with
    | none => rw [List.filterMap_cons_none hf, ih, if_neg (hnone.1 hf)]
    | some regionTag' =>
      obtain ⟨htag, hcovers⟩ := hsome.1 regionTag' hf
      rw [List.filterMap_cons_some hf, tagsAt_cons, ih, htag]
      simp only [hcovers]

/-- What the loop of `clearTags` leaves of a region that it does not split. -/
def RegionTag.cut (regionTag : RegionTag T) (start end_ : ℤ) : Option (RegionTag T) :=
  if regionTag.Disjoint start end_ then some regionTag
  else if regionTag.Within start end_ then none
  else if regionTag.getEndOffset ≤ end_ then
    some (regionTag.setLength (start - regionTag.getStartOffset))
  else some ((regionTag.setLength (regionTag.getEndOffset - end_)).setOffset end_)

theorem RegionTag.not_covers_of_cut (h : regionTag.cut start end_ = none)
    (hposition : position < start ∨ end_ ≤ position) : ¬regionTag.Covers position := by
  unfold RegionTag.cut at h
  split at h
  · cases h
  split at h
  · rename_i hwithin
    unfold Within at hwithin
    unfold Covers
    omega
  · split at h <;> cases h

theorem RegionTag.cut_eq_some {regionTag' : RegionTag T}
    (hsplits : ¬regionTag.Splits start end_) (h : regionTag.cut start end_ = some regionTag') :
    regionTag'.tag = regionTag.tag ∧ regionTag'.Disjoint start end_ ∧
      ∀ position, position < start ∨ end_ ≤ position →
        (regionTag'.Covers position ↔ regionTag.Covers position) := by
  unfold RegionTag.cut at h
  split at h
  · rename_i hdisjoint
    obtain rfl := Option.some.inj h
    exact ⟨rfl, hdisjoint, fun _ _ ↦ Iff.rfl⟩
  rename_i hdisjoint
  split at h
  · cases h
  rename_i hwithin
  unfold Disjoint at hdisjoint
  unfold Splits at hsplits
  simp only [getStartOffset, getEndOffset] at hdisjoint hwithin hsplits
  split at h
  all_goals
    rename_i hend
    obtain rfl := Option.some.inj h
    refine ⟨rfl, ?_, fun position hposition ↦ ?_⟩
    all_goals
      simp only [Disjoint, Covers, setLength, setOffset, getStartOffset, getEndOffset] at hend ⊢
      omega

end Covering

namespace RegionTagVector

variable {T : Type} {start end_ : ℤ}
variable (done rest : List (RegionTag T))

/-- Without a split the loop cuts every region. -/
theorem clearFrom_of_not_splits (room : ℕ)
    (h : ∀ regionTag ∈ rest, ¬regionTag.Splits start end_) :
    ∃ room', clearFrom start end_ done rest room =
      .ok ⟨done ++ rest.filterMap fun regionTag ↦ regionTag.cut start end_, room'⟩ := by
  induction rest generalizing done room with
  | nil => exact ⟨room, by simp [clearFrom]⟩
  | cons regionTag rest ih =>
    rw [List.forall_mem_cons] at h
    rw [clearFrom]
    split
    · rename_i hdisjoint
      obtain ⟨room', hroom⟩ := ih (done ++ [regionTag]) room h.2
      exact ⟨room', by simp [hroom, RegionTag.cut, hdisjoint]⟩
    rename_i hdisjoint
    split
    · rename_i hwithin
      obtain ⟨room', hroom⟩ := ih done (room + 1) h.2
      exact ⟨room', by simp [hroom, RegionTag.cut, hdisjoint, hwithin]⟩
    rename_i hwithin
    rw [if_neg h.1]
    split
    · rename_i hend
      obtain ⟨room', hroom⟩ := ih (done ++ [regionTag.setLength (start - regionTag.getStartOffset)])
        room h.2
      exact ⟨room', by simp [hroom, RegionTag.cut, hdisjoint, hwithin, hend]⟩
    · rename_i hend
      have hstart : start ≤ regionTag.getStartOffset := by
        have hsplits := h.1
        unfold RegionTag.Splits at hsplits
        omega
      obtain ⟨room', hroom⟩ := ih
        (done ++ [(regionTag.setLength (regionTag.getEndOffset - end_)).setOffset end_]) room h.2
      exact ⟨room', by simp [hroom, RegionTag.cut, hdisjoint, hwithin, hend, hstart]⟩

/-- A region that is split is found again behind the one that has been inserted for it, until the
vector has no room left. -/
theorem clearFrom_of_splits_head {regionTag : RegionTag T}
    (room : ℕ) (hlt : start < end_) (h : regionTag.Splits start end_) :
    clearFrom start end_ done (regionTag :: rest) room = .error .undefinedBehaviour := by
  have hdisjoint : ¬regionTag.Disjoint start end_ := by
    unfold RegionTag.Disjoint
    unfold RegionTag.Splits at h
    omega
  have hwithin : ¬regionTag.Within start end_ := by
    unfold RegionTag.Within
    unfold RegionTag.Splits at h
    omega
  induction room generalizing done with
  | zero => rw [clearFrom, if_neg hdisjoint, if_neg hwithin, if_pos h]
  | succ room ih =>
    rw [clearFrom, if_neg hdisjoint, if_neg hwithin, if_pos h]
    exact ih _

theorem clearFrom_of_splits (room : ℕ) (hlt : start < end_)
    (h : ∃ regionTag ∈ rest, regionTag.Splits start end_) :
    clearFrom start end_ done rest room = .error .undefinedBehaviour := by
  induction rest generalizing done room with
  | nil => simp at h
  | cons regionTag rest ih =>
    by_cases hsplits : regionTag.Splits start end_
    · exact clearFrom_of_splits_head done rest room hlt hsplits
    have hrest : ∃ regionTag ∈ rest, regionTag.Splits start end_ := by
      simpa [hsplits] using h
    rw [clearFrom]
    split
    · exact ih _ _ hrest
    split
    · exact ih _ _ hrest
    split
    · exact ih _ _ hrest
    · rename_i hend
      unfold RegionTag.Splits at hsplits
      rw [if_pos (by omega)]
      exact ih _ _ hrest

end RegionTagVector

namespace RegionTagSet

variable {T : Type} {set set' : RegionTagSet T} {offset length : ℤ}

/-- Where no region is split, `clearTags` cuts every region. -/
theorem clearTags_of_not_splits
    (h : ∀ regionTag ∈ set.elements, ¬regionTag.Splits offset (offset + length)) :
    ∃ set', set.clearTags offset length = .ok set' ∧
      set'.elements = set.elements.filterMap fun regionTag ↦
        regionTag.cut offset (offset + length) := by
  cases hset : set.regionTags with
  | none => exact ⟨set, by simp [clearTags, hset], by simp [elements, hset]⟩
  | some regionTags =>
    have helements : set.elements = regionTags.elements := by simp [elements, hset]
    rw [helements] at h ⊢
    obtain ⟨room, hroom⟩ :=
      RegionTagVector.clearFrom_of_not_splits [] regionTags.elements regionTags.room h
    simp only [clearTags, hset]
    rw [bind_of_ok hroom]
    exact ⟨_, rfl, rfl⟩

theorem clearTags_of_splits (hlength : 0 < length)
    (h : ∃ regionTag ∈ set.elements, regionTag.Splits offset (offset + length)) :
    set.clearTags offset length = .error .undefinedBehaviour := by
  cases hset : set.regionTags with
  | none => simp [elements, hset] at h
  | some regionTags =>
    have helements : set.elements = regionTags.elements := by simp [elements, hset]
    rw [helements] at h
    simp only [clearTags, hset]
    rw [RegionTagVector.clearFrom_of_splits [] _ _ (by omega) h]
    rfl

/-- Without a split no tag is left in the range, and the tags of every other bit stay. -/
theorem tagsAt_clearTags
    (h : ∀ regionTag ∈ set.elements, ¬regionTag.Splits offset (offset + length))
    (hok : set.clearTags offset length = .ok set') :
    (∀ regionTag ∈ set'.elements, regionTag.Disjoint offset (offset + length)) ∧
      ∀ position, position < offset ∨ offset + length ≤ position →
        tagsAt set'.elements position = tagsAt set.elements position := by
  obtain ⟨set'', hok', helements⟩ := clearTags_of_not_splits h
  obtain rfl := Except.ok.inj (hok.symm.trans hok')
  rw [helements]
  constructor
  · intro regionTag' hregionTag'
    obtain ⟨regionTag, hregionTag, hcut⟩ := List.mem_filterMap.mp hregionTag'
    exact (RegionTag.cut_eq_some (h regionTag hregionTag) hcut).2.1
  · intro position hposition
    apply tagsAt_filterMap
    · exact fun regionTag _ hcut ↦ RegionTag.not_covers_of_cut hcut hposition
    · intro regionTag hregionTag regionTag' hcut
      have hspec := RegionTag.cut_eq_some (h regionTag hregionTag) hcut
      exact ⟨hspec.1, hspec.2.2 position hposition⟩

/-- `clearTags` returns, leaves no tag in the range and does not touch the tags of the other bits
exactly when no region goes on at both ends of the range. -/
theorem clearTags_frame_iff (set : RegionTagSet T) (offset : ℤ) (hlength : 0 < length) :
    (∃ set', set.clearTags offset length = .ok set' ∧
      (∀ regionTag ∈ set'.elements, regionTag.Disjoint offset (offset + length)) ∧
      ∀ position, position < offset ∨ offset + length ≤ position →
        tagsAt set'.elements position = tagsAt set.elements position) ↔
    ∀ regionTag ∈ set.elements, ¬regionTag.Splits offset (offset + length) := by
  constructor
  · intro ⟨set', hok, _⟩ regionTag hregionTag hsplits
    rw [clearTags_of_splits hlength ⟨regionTag, hregionTag, hsplits⟩] at hok
    cases hok
  · intro h
    obtain ⟨set', hok, -⟩ := clearTags_of_not_splits h
    exact ⟨set', hok, tagsAt_clearTags h hok⟩

/-- Three of four regions are cut or erased. -/
theorem clearTags_frame_iff_cut :
    ∃ set' : RegionTagSet ℕ, clearTags
      ⟨some ⟨[⟨0, 8, 1⟩, ⟨8, 8, 2⟩, ⟨16, 8, 3⟩, ⟨0, 4, 4⟩], 12⟩⟩ 4 16 =
      .ok set' ∧ (∀ regionTag ∈ set'.elements, regionTag.Disjoint 4 (4 + 16)) ∧
      ∀ position, position < 4 ∨ 4 + 16 ≤ position → tagsAt set'.elements position =
        tagsAt [⟨0, 8, 1⟩, ⟨8, 8, 2⟩, ⟨16, 8, 3⟩, ⟨0, 4, 4⟩] position :=
  (clearTags_frame_iff ⟨some ⟨[⟨0, 8, 1⟩, ⟨8, 8, 2⟩, ⟨16, 8, 3⟩, ⟨0, 4, 4⟩], 12⟩⟩ 4
    (by decide)).mpr (by decide)

/-- A tag of the first ten bits should become two tags when the bits from 3 to 6 are cleared. -/
theorem clearTags_splits :
    clearTags (⟨some ⟨[⟨0, 10, 7⟩], 15⟩⟩ : RegionTagSet ℕ) 3 4 = .error .undefinedBehaviour :=
  clearTags_of_splits (by decide) (by decide)

end RegionTagSet

end Inet4.Packet
