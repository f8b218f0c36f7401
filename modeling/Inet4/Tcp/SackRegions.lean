import Inet4.Tcp.SackRexmitQueue

/-!
# The bytes of the regions of the SACK retransmission queue

A list of regions stands for the list of the flags of its bytes.  Where `checkQueue` holds, the
search for a sequence number stops at the region that contains it (`regionsFrom_eq`), splitting that
region changes no byte (`exists_cutAt`), the loops mark the bytes from there on, and the queries
count bytes.
-/

namespace Inet4.Tcp.SackRexmitQueue

open List Nat
open BitVec (ofNat ofNat_add)

/-! ## The bytes of a list of regions -/

/-- What the queue knows of a byte. -/
structure Flags where
  sacked : Bool
  rexmitted : Bool
deriving DecidableEq

def Region.length (i : Region) : ℕ := distance i.beginSeqNum i.endSeqNum

def Region.flags (i : Region) : Flags := ⟨i.sacked, i.rexmitted⟩

/-- The bytes of a region. -/
def Region.bytes (i : Region) : List Flags := replicate i.length i.flags

/-- The bytes of a list of regions. -/
def bytesOf (regions : List Region) : List Flags := regions.flatMap Region.bytes

variable {b c e seqNum fromSeqNum toSeqNum : SeqNum} {i : Region}
    {rest regions left right : List Region}
variable {k m n : ℕ}

@[simp]
theorem bytesOf_nil : bytesOf [] = [] := rfl

@[simp]
theorem bytesOf_cons : bytesOf (i :: rest) = i.bytes ++ bytesOf rest := rfl

@[simp]
theorem bytesOf_append : bytesOf (left ++ right) = bytesOf left ++ bytesOf right :=
  flatMap_append

@[simp]
theorem length_bytes (i : Region) : i.bytes.length = i.length := length_replicate

theorem checkRegions_append :
    checkRegions b (left ++ right) e ↔ ∃ m, checkRegions b left m ∧ checkRegions m right e := by
  induction left generalizing b with
  | nil => simp [checkRegions]
  | cons i left ih =>
    simp only [cons_append, checkRegions, ih]
    constructor
    · rintro ⟨hbegin, hless, m, hleft, hright⟩
      exact ⟨m, ⟨hbegin, hless, hleft⟩, hright⟩
    · rintro ⟨m, ⟨hbegin, hless, hleft⟩, hright⟩
      exact ⟨hbegin, hless, m, hleft, hright⟩

theorem length_lt_of_seqLess (h : seqLess i.beginSeqNum i.endSeqNum) : i.length < 2 ^ 31 := h.2

theorem length_pos_of_seqLess (h : seqLess i.beginSeqNum i.endSeqNum) : 0 < i.length := by
  obtain ⟨hne, -⟩ := h
  apply pos_of_ne_zero
  intro hzero
  apply hne
  have hend := advance_distance i.beginSeqNum i.endSeqNum
  rw [Region.length] at hzero
  rwa [hzero, advance_zero] at hend

theorem endSeqNum_eq (i : Region) : i.endSeqNum = advance i.beginSeqNum i.length :=
  (advance_distance _ _).symm

/-- The regions end as many sequence numbers behind their begin as they have bytes. -/
theorem end_eq_of_checkRegions (h : checkRegions b regions e) :
    e = advance b (bytesOf regions).length := by
  induction regions generalizing b with
  | nil => rw [bytesOf_nil, length_nil, advance_zero]; exact h.symm
  | cons i rest ih =>
    obtain ⟨hbegin, -, hrest⟩ := h
    rw [ih hrest, endSeqNum_eq, advance_advance, bytesOf_cons, length_append, length_bytes,
      hbegin]

/-- A region with given ends. -/
theorem checkRegions_cons_advance (i : Region) (hi : i.beginSeqNum = b)
    (hend : i.endSeqNum = advance b n)
    (hpos : 0 < n) (hlt : n < 2 ^ 31) (hrest : checkRegions (advance b n) rest e) :
    checkRegions b (i :: rest) e ∧ i.length = n := by
  have hlength : i.length = n := by
    rw [Region.length, hi, hend, distance_advance_of_lt (by omega)]
  refine ⟨⟨hi.symm, ⟨?_, ?_⟩, hend ▸ hrest⟩, hlength⟩
  · intro heq
    rw [Region.length, heq, distance_self] at hlength
    omega
  · rw [Region.length] at hlength
    omega

/-! ## The search for a sequence number -/

/-- The search stops at the region that contains the sequence number. -/
theorem regionsFrom_eq (h : checkRegions b regions e) (hk : k < (bytesOf regions).length)
    (hbound : (bytesOf regions).length < 2 ^ 31) :
    ∃ i rest j, regionsFrom regions (advance b k) = i :: rest ∧
      regions = regionsBefore regions (advance b k) ++ i :: rest ∧
      checkRegions b (regionsBefore regions (advance b k)) i.beginSeqNum ∧
      checkRegions i.beginSeqNum (i :: rest) e ∧
      i.beginSeqNum = advance b j ∧
      (bytesOf (regionsBefore regions (advance b k))).length = j ∧ j ≤ k ∧ k < j + i.length := by
  induction regions generalizing b k with
  | nil => exact absurd hk (Nat.not_lt_zero k)
  | cons first regions ih =>
    obtain ⟨hbegin, hless, hrest⟩ := h
    have hlength := length_lt_of_seqLess hless
    have hend : first.endSeqNum = advance b first.length := by rw [hbegin, ← endSeqNum_eq]
    rw [bytesOf_cons, length_append, length_bytes] at hk hbound
    by_cases hle : seqLE first.endSeqNum (advance b k)
    · have hle' : first.length ≤ k := by
        rw [hend, seqLE_advance_iff (by omega) (by omega)] at hle
        exact hle
      have hk' : advance b k = advance first.endSeqNum (k - first.length) := by
        rw [hend, advance_advance, Nat.add_sub_cancel' hle']
      obtain ⟨i, rest, j, hfrom, hsplit, hbefore, hchain, hi, hj, hjk, hkj⟩ :=
        ih hrest (k := k - first.length) (by omega) (by omega)
      rw [← hk'] at hfrom hsplit hbefore hj
      have hbeforeCons : regionsBefore (first :: regions) (advance b k) =
          first :: regionsBefore regions (advance b k) := by
        rw [regionsBefore, takeWhile_cons_of_pos (by simpa using hle)]
        rfl
      refine ⟨i, rest, first.length + j, ?_, ?_, ?_, hchain, ?_, ?_, by omega, by omega⟩
      · rw [regionsFrom, dropWhile_cons_of_pos (by simpa using hle)]
        exact hfrom
      · rw [hbeforeCons, cons_append, ← hsplit]
      · rw [hbeforeCons]
        exact ⟨hbegin, hless, hbefore⟩
      · rw [hi, hend, advance_advance]
      · rw [hbeforeCons, bytesOf_cons, length_append, length_bytes, hj]
    · have hlt : k < first.length := by
        rw [hend, seqLE_advance_iff (by omega) (by omega)] at hle
        exact not_le.mp hle
      have hbefore : regionsBefore (first :: regions) (advance b k) = [] := by
        rw [regionsBefore, takeWhile_cons_of_neg (by simpa using hle)]
      refine ⟨first, regions, 0, ?_, ?_, ?_, ?_, ?_, ?_, zero_le k, by omega⟩
      · rw [regionsFrom, dropWhile_cons_of_neg (by simpa using hle)]
      · rw [hbefore, nil_append]
      · rw [hbefore]
        exact hbegin
      · exact ⟨rfl, hless, hrest⟩
      · rw [advance_zero, hbegin]
      · rw [hbefore]
        rfl

/-- The region at which the search stops, split at the sequence number: what lies before it, and
what lies from it on. -/
structure CutAt (b : SeqNum) (regions : List Region) (e : SeqNum) (k : ℕ) (i : Region)
    (rest : List Region) : Prop where
  regionsFrom : regionsFrom regions (advance b k) = i :: rest
  contains : seqLE i.beginSeqNum (advance b k) ∧ seqLess (advance b k) i.endSeqNum
  before : checkRegions b
    (regionsBefore regions (advance b k) ++ (splitRegion i (advance b k)).1) (advance b k)
  behind : checkRegions (advance b k) ((splitRegion i (advance b k)).2 :: rest) e
  bytes_before : bytesOf (regionsBefore regions (advance b k) ++ (splitRegion i (advance b k)).1) =
    (bytesOf regions).take k
  bytes_behind : bytesOf ((splitRegion i (advance b k)).2 :: rest) = (bytesOf regions).drop k

/-- A region whose begin is moved. -/
theorem bytes_of_fields {i j : Region} (hflags : j.flags = i.flags) (hlength : j.length = n) :
    j.bytes = replicate n i.flags := by
  rw [Region.bytes, hlength, hflags]

theorem exists_cutAt (h : checkRegions b regions e) (hk : k < (bytesOf regions).length)
    (hbound : (bytesOf regions).length < 2 ^ 31) : ∃ i rest, CutAt b regions e k i rest := by
  obtain ⟨i, rest, j, hfrom, hsplit, hbefore, hchain, hi, hj, hjk, hkj⟩ :=
    regionsFrom_eq h hk hbound
  obtain ⟨-, hless, hrest⟩ := id hchain
  have hlength := length_lt_of_seqLess hless
  have hend : i.endSeqNum = advance b (j + i.length) := by
    rw [endSeqNum_eq, hi, advance_advance]
  have hbytes : bytesOf regions = bytesOf (regionsBefore regions (advance b k)) ++
      bytesOf (i :: rest) := by rw [← bytesOf_append, ← hsplit]
  have hcontains : seqLE i.beginSeqNum (advance b k) ∧ seqLess (advance b k) i.endSeqNum := by
    rw [hi, hend, seqLE_advance_iff (by omega) (by omega),
      seqLess_advance_iff (by omega) (by omega)]
    exact ⟨hjk, hkj⟩
  suffices hcut : checkRegions b
        (regionsBefore regions (advance b k) ++ (splitRegion i (advance b k)).1) (advance b k) ∧
      checkRegions (advance b k) ((splitRegion i (advance b k)).2 :: rest) e ∧
      bytesOf (regionsBefore regions (advance b k) ++ (splitRegion i (advance b k)).1) =
        (bytesOf regions).take k ∧
      bytesOf ((splitRegion i (advance b k)).2 :: rest) = (bytesOf regions).drop k from
    ⟨i, rest, hfrom, hcontains, hcut.1, hcut.2.1, hcut.2.2.1, hcut.2.2.2⟩
  by_cases hinside : i.beginSeqNum = advance b k
  · -- the region begins at the sequence number
    have hparts : splitRegion i (advance b k) = ([], i) := by
      rw [splitRegion, if_neg (not_not.mpr hinside)]
    have hjk' : j = k := by
      rw [hi, advance_inj (by omega) (by omega)] at hinside
      exact hinside
    rw [hparts, append_nil]
    refine ⟨hinside ▸ hbefore, hinside ▸ hchain, ?_, ?_⟩
    · rw [hbytes, take_left' (hj.trans hjk')]
    · rw [hbytes, drop_left' (hj.trans hjk')]
  · have hparts : splitRegion i (advance b k) = ([{ i with endSeqNum := advance b k }],
        { i with beginSeqNum := advance b k }) := by
      rw [splitRegion, if_pos hinside]
    have hlt : j < k := by
      apply lt_of_le_of_ne hjk
      rintro rfl
      exact hinside hi
    set first : Region := { i with endSeqNum := advance b k }
    set second : Region := { i with beginSeqNum := advance b k }
    have hk' : advance b k = advance i.beginSeqNum (k - j) := by
      rw [hi, advance_advance, Nat.add_sub_cancel' hjk]
    have hend' : i.endSeqNum = advance (advance b k) (i.length - (k - j)) := by
      rw [hend, advance_advance]
      congr 1
      omega
    have hfirst : checkRegions i.beginSeqNum [first] (advance b k) ∧ first.length = k - j :=
      checkRegions_cons_advance first rfl hk' (by omega) (by omega) hk'.symm
    have hsecond : checkRegions (advance b k) (second :: rest) e ∧
        second.length = i.length - (k - j) :=
      checkRegions_cons_advance second rfl hend' (by omega) (by omega) (hend' ▸ hrest)
    rw [hparts]
    have hbytesFirst : first.bytes = replicate (k - j) i.flags :=
      bytes_of_fields rfl hfirst.2
    have hbytesSecond : second.bytes = replicate (i.length - (k - j)) i.flags :=
      bytes_of_fields rfl hsecond.2
    refine ⟨checkRegions_append.mpr ⟨_, hbefore, hfirst.1⟩, hsecond.1, ?_, ?_⟩
    · rw [hbytes, take_append, take_of_length_le (by omega), bytesOf_append, hj]
      congr 1
      rw [bytesOf_cons, bytesOf_nil, append_nil, hbytesFirst, bytesOf_cons,
        take_append_of_le_length (by rw [length_bytes]; omega), Region.bytes,
        take_replicate, min_eq_left (by omega)]
    · rw [hbytes, drop_append, drop_eq_nil_of_le (by omega), nil_append, hj,
        bytesOf_cons, hbytesSecond, bytesOf_cons,
        drop_append_of_le_length (by rw [length_bytes]; omega), Region.bytes,
        drop_replicate]

/-! ## Marking -/

def Flags.sack (flags : Flags) : Flags := { flags with sacked := true }

def Flags.rexmit (flags : Flags) : Flags := { flags with rexmitted := true }

/-- A byte that was sent once. -/
def Flags.fresh : Flags := ⟨false, false⟩

/-- A list with its first `n` elements changed. -/
def mapPrefix {α : Type} (n : ℕ) (f : α → α) (l : List α) : List α := (l.take n).map f ++ l.drop n

section MapPrefix

variable {α : Type} {f : α → α} {l l' : List α}

theorem mapPrefix_append_of_le (h : l.length ≤ n) :
    mapPrefix n f (l ++ l') = l.map f ++ mapPrefix (n - l.length) f l' := by
  rw [mapPrefix, mapPrefix, take_append, drop_append, take_of_length_le h,
    drop_eq_nil_of_le h, nil_append, map_append, append_assoc]

theorem mapPrefix_append_of_ge (h : n ≤ l.length) :
    mapPrefix n f (l ++ l') = mapPrefix n f l ++ l' := by
  rw [mapPrefix, mapPrefix, take_append_of_le_length h, drop_append_of_le_length h,
    append_assoc]

theorem mapPrefix_replicate {a : α} (h : n ≤ m) :
    mapPrefix n f (replicate m a) = replicate n (f a) ++ replicate (m - n) a := by
  rw [mapPrefix, take_replicate, drop_replicate, map_replicate, Nat.min_eq_left h]

@[simp]
theorem length_mapPrefix : (mapPrefix n f l).length = l.length := by
  rw [mapPrefix, length_append, length_map, ← length_append, take_append_drop]

end MapPrefix

/-- The bytes from the first one on that is sent, when `n` of them are sent. -/
def resend (n : ℕ) (bytes : List Flags) : List Flags :=
  mapPrefix n Flags.rexmit bytes ++ replicate (n - bytes.length) Flags.fresh

@[simp]
theorem resend_nil : resend n [] = replicate n Flags.fresh := by
  simp [resend, mapPrefix]

theorem length_resend {bytes : List Flags} : (resend n bytes).length = max n bytes.length := by
  rw [resend, length_append, length_mapPrefix, length_replicate]
  omega

theorem bytes_mk {i : Region} (hlength : i.length = n) : i.bytes = replicate n i.flags := by
  rw [Region.bytes, hlength]

theorem bytes_of_marked {f : Flags → Flags} {i j : Region} (hlength : j.length = i.length)
    (hflags : j.flags = f i.flags) : j.bytes = i.bytes.map f := by
  rw [Region.bytes, Region.bytes, map_replicate, hlength, hflags]

/-- The first region, cut where the marking ends. -/
theorem cut_first (j : Region) (hi : checkRegions b (i :: rest) e) (hn : 0 < n)
    (hlt : n < i.length) (hbegin : j.beginSeqNum = b) (hend : j.endSeqNum = advance b n) :
    checkRegions b (j :: { i with beginSeqNum := advance b n } :: rest) e ∧
      bytesOf (j :: { i with beginSeqNum := advance b n } :: rest) =
        replicate n j.flags ++ replicate (i.length - n) i.flags ++ bytesOf rest := by
  obtain ⟨rfl, hless, hrest⟩ := hi
  have hlength := length_lt_of_seqLess hless
  set second : Region := { i with beginSeqNum := advance i.beginSeqNum n }
  have hend' : second.endSeqNum = advance (advance i.beginSeqNum n) (i.length - n) := by
    rw [advance_advance, Nat.add_sub_cancel' (Nat.le_of_lt hlt)]
    exact endSeqNum_eq i
  obtain ⟨hchain, hsecond⟩ := checkRegions_cons_advance second rfl hend' (by omega) (by omega)
    (hend' ▸ hrest)
  obtain ⟨hchain', hfirst⟩ := checkRegions_cons_advance j hbegin hend hn (by omega) hchain
  refine ⟨hchain', ?_⟩
  rw [bytesOf_cons, bytesOf_cons, bytes_mk hfirst, bytes_mk hsecond, append_assoc]
  rfl

theorem rexmitRegions_eq (h : checkRegions b regions e)
    (hbound : (bytesOf regions).length < 2 ^ 31) (hn : n < 2 ^ 31) :
    ∃ result, rexmitRegions (advance b n) b regions = .ok result ∧
      checkRegions b result (advance b (max n (bytesOf regions).length)) ∧
      bytesOf result = resend n (bytesOf regions) := by
  induction regions generalizing b n with
  | nil =>
    have heq : b = advance b n ↔ n = 0 := by
      conv_lhs => lhs; rw [← advance_zero b]
      rw [advance_inj (by omega) (by omega)]
      omega
    rw [rexmitRegions, bytesOf_nil, length_nil, Nat.max_zero]
    by_cases hzero : n = 0
    · subst hzero
      exact ⟨[], if_neg (not_not.mpr (heq.mpr rfl)), (advance_zero b).symm, rfl⟩
    · set new : Region := ⟨b, advance b n, false, false⟩
      have hnew : checkRegions b [new] (advance b n) ∧ new.length = n :=
        checkRegions_cons_advance new rfl rfl (by omega) hn rfl
      refine ⟨[new], if_pos (mt heq.mp hzero), hnew.1, ?_⟩
      rw [bytesOf_cons, bytesOf_nil, append_nil, bytes_mk hnew.2, resend_nil]
      rfl
  | cons i regions ih =>
    obtain ⟨rfl, hless, hrest⟩ := id h
    have hlength := length_lt_of_seqLess hless
    have hpos := length_pos_of_seqLess hless
    rw [bytesOf_cons, length_append, length_bytes] at hbound ⊢
    have hle : seqLE i.endSeqNum (advance i.beginSeqNum n) ↔ i.length ≤ n := by
      rw [endSeqNum_eq, seqLE_advance_iff (by omega) (by omega)]
    rw [rexmitRegions]
    by_cases hcovered : i.length ≤ n
    · rw [if_pos (hle.mpr hcovered)]
      have hto : advance i.beginSeqNum n = advance i.endSeqNum (n - i.length) := by
        rw [endSeqNum_eq, advance_advance, Nat.add_sub_cancel' hcovered]
      obtain ⟨result, hresult, hchain, hbytes⟩ := ih hrest (n := n - i.length) (by omega) (by omega)
      rw [hto, bind_of_ok hresult]
      refine ⟨_, rfl, ⟨rfl, hless, ?_⟩, ?_⟩
      · convert hchain using 1
        rw [endSeqNum_eq, advance_advance]
        congr 1
        omega
      · rw [bytesOf_cons, hbytes, resend, resend, mapPrefix_append_of_le (by rwa [length_bytes]),
          length_append, length_bytes, append_assoc, Nat.sub_sub]
        congr 1
        exact bytes_of_marked rfl rfl
    · rw [if_neg (mt hle.mp hcovered)]
      have hlt : n < i.length := not_le.mp hcovered
      have hmax : max n (i.length + (bytesOf regions).length) =
          i.length + (bytesOf regions).length := by omega
      have hend : advance i.beginSeqNum (i.length + (bytesOf regions).length) = e := by
        rw [end_eq_of_checkRegions h, bytesOf_cons, length_append, length_bytes]
      rw [hmax, hend]
      have hkept : resend n (i.bytes ++ bytesOf regions) =
          replicate n i.flags.rexmit ++ replicate (i.length - n) i.flags ++
            bytesOf regions := by
        have hnone : n - (i.length + (bytesOf regions).length) = 0 := by omega
        rw [resend, mapPrefix_append_of_ge (by rw [length_bytes]; omega), Region.bytes,
          mapPrefix_replicate (le_of_lt hlt), length_append, length_replicate, hnone,
          replicate_zero, append_nil]
      rw [hkept]
      by_cases hzero : n = 0
      · subst hzero
        rw [advance_zero]
        refine ⟨_, if_neg (not_not.mpr rfl), h, ?_⟩
        rw [bytesOf_cons, replicate_zero, nil_append, Nat.sub_zero]
        rfl
      · have hne : i.beginSeqNum ≠ advance i.beginSeqNum n := by
          intro heq
          rw [← advance_zero i.beginSeqNum, advance_advance,
            advance_inj (by omega) (by omega)] at heq
          omega
        have hassert : seqLess i.beginSeqNum (advance i.beginSeqNum n) := by
          refine ⟨hne, ?_⟩
          rw [distance_advance_of_lt (by omega)]
          exact hn
        obtain ⟨hchain, hbytes⟩ :=
          cut_first ⟨i.beginSeqNum, advance i.beginSeqNum n, i.sacked, true⟩
          h (pos_of_ne_zero hzero) hlt rfl rfl
        rw [if_pos hne, assert, if_pos hassert]
        exact ⟨_, rfl, hchain, hbytes⟩

theorem sackRegions_eq (h : checkRegions (advance b m) regions e)
    (hbound : m + (bytesOf regions).length < 2 ^ 31) (hn : n ≤ (bytesOf regions).length) :
    checkRegions (advance b m) (sackRegions b (advance b (m + n)) regions) e ∧
      bytesOf (sackRegions b (advance b (m + n)) regions) =
        mapPrefix n Flags.sack (bytesOf regions) := by
  induction regions generalizing m n with
  | nil => exact ⟨h, by rw [sackRegions, bytesOf_nil, mapPrefix, take_nil, drop_nil]; rfl⟩
  | cons i regions ih =>
    obtain ⟨hbegin, hless, hrest⟩ := id h
    have hlength := length_lt_of_seqLess hless
    have hpos := length_pos_of_seqLess hless
    have hend : i.endSeqNum = advance b (m + i.length) := by
      rw [endSeqNum_eq, ← hbegin, advance_advance]
    rw [bytesOf_cons, length_append, length_bytes] at hbound hn
    have hle : seqLE i.endSeqNum (advance b (m + n)) ↔ i.length ≤ n := by
      rw [hend, seqLE_advance_iff (by omega) (by omega)]
      omega
    rw [sackRegions]
    by_cases hcovered : i.length ≤ n
    · have hge : seqGE i.beginSeqNum b := by
        have hge' := seqGE_advance_iff (s := b) (m := m) (n := 0) (by omega) (by omega)
        rw [advance_zero, hbegin] at hge'
        exact hge'.mpr (zero_le m)
      rw [if_pos (hle.mpr hcovered), if_pos hge]
      rw [hend] at hrest
      obtain ⟨hchain, hbytes⟩ := ih hrest (n := n - i.length) (by omega) (by omega)
      have hsum : m + i.length + (n - i.length) = m + n := by omega
      rw [hsum] at hchain hbytes
      refine ⟨⟨hbegin, hless, ?_⟩, ?_⟩
      · convert hchain using 1
      · rw [bytesOf_cons, hbytes, bytesOf_cons, mapPrefix_append_of_le (by rwa [length_bytes]),
          length_bytes]
        congr 1
        exact bytes_of_marked rfl rfl
    · have hlt : n < i.length := not_le.mp hcovered
      rw [if_neg (mt hle.mp hcovered)]
      have hkept : mapPrefix n Flags.sack (bytesOf (i :: regions)) =
          replicate n i.flags.sack ++ replicate (i.length - n) i.flags ++
            bytesOf regions := by
        rw [bytesOf_cons, mapPrefix_append_of_ge (by rw [length_bytes]; omega), Region.bytes,
          mapPrefix_replicate (le_of_lt hlt)]
      rw [hkept]
      by_cases hzero : n = 0
      · subst hzero
        have hnot : ¬seqLess i.beginSeqNum (advance b (m + 0)) := by
          rw [add_zero, hbegin]
          exact fun hself ↦ hself.1 rfl
        rw [if_neg (fun hboth ↦ hnot hboth.1)]
        refine ⟨h, ?_⟩
        rw [bytesOf_cons, replicate_zero, nil_append, Nat.sub_zero]
        rfl
      · have hinside : seqLess i.beginSeqNum (advance b (m + n)) ∧
            seqLess (advance b (m + n)) i.endSeqNum := by
          rw [← hbegin, hend, seqLess_advance_iff (by omega) (by omega),
            seqLess_advance_iff (by omega) (by omega)]
          omega
        rw [if_pos hinside, ← advance_advance]
        exact cut_first { i with endSeqNum := advance (advance b m) n, sacked := true } h
          (pos_of_ne_zero hzero) hlt hbegin.symm rfl

/-! ## Queries -/

theorem sub_eq_ofNat (s t : SeqNum) : t - s = ofNat 32 (distance s t) := by
  rw [distance, BitVec.ofNat_toNat, BitVec.setWidth_eq]

theorem zero_add_ofNat (n : ℕ) : (0 : BitVec 32) + ofNat 32 n = ofNat 32 n :=
  BitVec.zero_add _

/-- Counting the bytes of a region with a property that depends on the flags. -/
theorem countP_bytes (p : Flags → Bool) (i : Region) :
    i.bytes.countP p = if p i.flags then i.length else 0 := by
  rw [Region.bytes, countP_replicate]

/-- A region that is added to a sum of sacked bytes. -/
theorem add_sacked (bytes : BitVec 32) (i : Region) :
    (if i.sacked then bytes + (i.endSeqNum - i.beginSeqNum) else bytes) =
      bytes + ofNat 32 (i.bytes.countP Flags.sacked) := by
  rw [countP_bytes, sub_eq_ofNat]
  change _ = bytes + ofNat 32 (if i.sacked then i.length else 0)
  split
  · rfl
  · exact (BitVec.add_zero bytes).symm

theorem sackedSum_eq (bytes : BitVec 32) (regions : List Region) :
    sackedSum regions bytes = bytes + ofNat 32 ((bytesOf regions).countP Flags.sacked) := by
  induction regions generalizing bytes with
  | nil => exact (BitVec.add_zero bytes).symm
  | cons i regions ih =>
    rw [sackedSum, foldl_cons, ← sackedSum, ih, add_sacked, bytesOf_cons, countP_append,
      ofNat_add, ← BitVec.add_assoc]

theorem sackedAbove_eq (h : checkRegions b regions e) (hk : k ≤ (bytesOf regions).length)
    (hbound : (bytesOf regions).length < 2 ^ 31) (bytes : BitVec 32) :
    sackedAbove (advance b k) bytes regions.reverse =
      bytes + ofNat 32 (((bytesOf regions).drop k).countP Flags.sacked) := by
  induction regions using reverseRecOn generalizing bytes e with
  | nil => rw [bytesOf_nil, drop_nil]; exact (BitVec.add_zero bytes).symm
  | append_singleton regions i ih =>
    obtain ⟨c, hchain, rfl, hless, rfl⟩ := checkRegions_append.mp h
    have hbegin := end_eq_of_checkRegions hchain
    have hlength := length_lt_of_seqLess hless
    rw [bytesOf_append, bytesOf_cons, bytesOf_nil, append_nil] at hk hbound ⊢
    rw [length_append, length_bytes] at hk hbound
    set j := (bytesOf regions).length with hj
    have hend : i.endSeqNum = advance b (j + i.length) := by
      rw [endSeqNum_eq, hbegin, advance_advance]
    have hle : seqLE (advance b k) i.beginSeqNum ↔ k ≤ j := by
      rw [hbegin, seqLE_advance_iff (by omega) (by omega)]
    rw [reverse_append, reverse_singleton, singleton_append, sackedAbove]
    by_cases hkj : k ≤ j
    · rw [if_pos (hle.mpr hkj), ih hchain (by omega) (by omega), add_sacked,
        drop_append_of_le_length hkj, countP_append, add_comm (countP _ _),
        ofNat_add, ← BitVec.add_assoc]
    · rw [if_neg (mt hle.mp hkj), drop_append, drop_eq_nil_of_le (by omega),
        nil_append, Region.bytes, drop_replicate, countP_replicate]
      have hinside : seqLess i.beginSeqNum (advance b k) ∧ seqLess (advance b k) i.endSeqNum ∧
          i.sacked ↔ k < j + i.length ∧ i.sacked := by
        rw [hbegin, hend, seqLess_advance_iff (by omega) (by omega),
          seqLess_advance_iff (by omega) (by omega)]
        exact ⟨fun hlt ↦ hlt.2, fun hlt ↦ ⟨by omega, hlt⟩⟩
      have hrest : i.endSeqNum - advance b k = ofNat 32 (i.length - (k - j)) := by
        rw [sub_eq_ofNat, hend, distance_advance_advance (by omega) (by omega)]
        congr 1
        omega
      by_cases hboth : k < j + i.length ∧ i.sacked
      · have hsacked : i.flags.sacked := hboth.2
        rw [if_pos (hinside.mpr hboth), if_pos hsacked, hrest]
      · have hnone : (if i.flags.sacked then i.length - (k - j) else 0) = 0 := by
          split
          · rename_i hsacked
            have hge : ¬k < j + i.length := fun hlt ↦ hboth ⟨hlt, hsacked⟩
            omega
          · rfl
        rw [if_neg (mt hinside.mp hboth), hnone]
        exact (BitVec.add_zero bytes).symm

/-- The number of bytes up to the last one with a property. -/
def upToLast (p : Flags → Bool) (bytes : List Flags) : ℕ :=
  (bytes.reverse.dropWhile fun flags ↦ !p flags).length

theorem upToLast_append_bytes (p : Flags → Bool) (bytes : List Flags) {i : Region}
    (hpos : 0 < i.length) :
    upToLast p (bytes ++ i.bytes) =
      if p i.flags then bytes.length + i.length else upToLast p bytes := by
  rw [upToLast, reverse_append, Region.bytes, reverse_replicate]
  split
  · rename_i hp
    obtain ⟨n, hn⟩ := exists_eq_succ_of_ne_zero (ne_of_gt hpos)
    rw [hn, replicate_succ, cons_append, dropWhile_cons_of_neg (by simpa using hp)]
    simp only [length_cons, length_append, length_replicate, length_reverse]
    omega
  · rename_i hp
    rw [dropWhile_append_of_pos]
    · rfl
    · intro flags hflags
      obtain rfl := eq_of_mem_replicate hflags
      simpa using hp

theorem highestEnd_eq {q : SackRexmitQueue} {p : Flags → Bool} {property : Region → Bool}
    (hproperty : ∀ i, property i = p i.flags) (h : checkRegions q.begin q.rexmitQueue e) :
    q.highestEnd property = advance q.begin (upToLast p (bytesOf q.rexmitQueue)) := by
  unfold highestEnd
  induction hregions : q.rexmitQueue using reverseRecOn generalizing e q with
  | nil => exact (advance_zero _).symm
  | append_singleton regions i ih =>
    rw [hregions] at h
    obtain ⟨c, hchain, rfl, hless, rfl⟩ := checkRegions_append.mp h
    have hbegin := end_eq_of_checkRegions hchain
    rw [reverse_append, reverse_singleton, singleton_append, find?_cons,
      hproperty, bytesOf_append, bytesOf_cons, bytesOf_nil, append_nil,
      upToLast_append_bytes p _ (length_pos_of_seqLess hless)]
    cases hp : p i.flags with
    | true =>
      simp only [if_true]
      rw [endSeqNum_eq, hbegin, advance_advance]
    | false => exact ih (q := { q with rexmitQueue := regions }) hchain rfl

/-- A byte that is not to be sent again. -/
def Flags.marked (flags : Flags) : Bool := flags.sacked || flags.rexmitted

theorem contiguousBytes_eq (h : checkRegions b regions e) (bytes : BitVec 32) :
    contiguousBytes b bytes regions =
      .ok (bytes + ofNat 32 ((bytesOf regions).takeWhile Flags.marked).length) := by
  induction regions generalizing b bytes with
  | nil => exact congrArg Except.ok (BitVec.add_zero bytes).symm
  | cons i regions ih =>
    obtain ⟨rfl, hless, hrest⟩ := h
    have hpos := length_pos_of_seqLess hless
    have hmarked : i.sacked ∨ i.rexmitted ↔ i.flags.marked := by simp [Flags.marked, Region.flags]
    rw [contiguousBytes, bytesOf_cons]
    by_cases hi : i.sacked ∨ i.rexmitted
    · have hassert : seqLE i.beginSeqNum i.beginSeqNum ∧ seqLess i.beginSeqNum i.endSeqNum := by
        refine ⟨?_, hless⟩
        rw [seqLE, distance_self]
        decide
      rw [if_pos hi, assert, if_pos hassert, takeWhile_append_of_pos, length_append,
        length_bytes, ofNat_add, ← BitVec.add_assoc, sub_eq_ofNat]
      · exact ih hrest _
      · intro flags hflags
        obtain rfl := eq_of_mem_replicate hflags
        exact hmarked.mp hi
    · obtain ⟨n, hn⟩ := exists_eq_succ_of_ne_zero (ne_of_gt hpos)
      rw [if_neg hi, Region.bytes, hn, replicate_succ, cons_append,
        takeWhile_cons_of_neg (mt hmarked.mpr hi)]
      exact congrArg Except.ok (BitVec.add_zero bytes).symm

/-- The number of runs of sacked bytes, where the byte before the first one is sacked or not. -/
def sackedRuns : (prevSacked : Bool) → List Flags → ℕ
  | _, [] => 0
  | prevSacked, flags :: rest =>
    (if flags.sacked && !prevSacked then 1 else 0) + sackedRuns flags.sacked rest

theorem sackedRuns_replicate (prevSacked : Bool) {flags : Flags} (hn : 0 < n) (rest : List Flags) :
    sackedRuns prevSacked (replicate n flags ++ rest) =
      (if flags.sacked && !prevSacked then 1 else 0) + sackedRuns flags.sacked rest := by
  induction n generalizing prevSacked with
  | zero => exact absurd hn (lt_irrefl 0)
  | succ n ih =>
    rw [replicate_succ, cons_append, sackedRuns]
    rcases Nat.eq_zero_or_pos n with rfl | hpos
    · rfl
    · rw [ih _ hpos]
      simp

theorem discontiguousSacks_eq (h : checkRegions b regions e) (prevSacked : Bool)
    (counter : BitVec 32) :
    discontiguousSacks prevSacked counter regions =
      counter + ofNat 32 (sackedRuns prevSacked (bytesOf regions)) := by
  induction regions generalizing b prevSacked counter with
  | nil => exact (BitVec.add_zero counter).symm
  | cons i regions ih =>
    obtain ⟨-, hless, hrest⟩ := h
    rw [discontiguousSacks, ih hrest, bytesOf_cons, Region.bytes,
      sackedRuns_replicate prevSacked (length_pos_of_seqLess hless), ofNat_add,
      ← BitVec.add_assoc]
    congr 1
    change _ = counter + ofNat 32 (if i.sacked && !prevSacked then 1 else 0)
    split
    · rfl
    · exact (BitVec.add_zero counter).symm

end Inet4.Tcp.SackRexmitQueue
