import Libfcd.Hidapi.Usage

namespace Libfcd.Proofs
open Memory Hidapi

/-- An item of a report descriptor. -/
inductive Item where
  | short (key : UInt8) (data : Bytes) (hkey : key &&& 0xf0 ≠ 0xf0)
      (hdata : data.length = shortLen key)
  | long (key tag : UInt8) (data : Bytes) (hkey : key &&& 0xf0 = 0xf0) (hdata : data.length < 256)

namespace Item

def key : Item → UInt8
  | .short key .. | .long key .. => key

/-- What stands behind the key. -/
def tail : Item → Bytes
  | .short _ data .. => data
  | .long _ tag data .. => UInt8.ofNat data.length :: tag :: data

def render (item : Item) : Bytes := item.key :: item.tail

end Item

/-- What an item is to `get_usage`. -/
inductive Reading where
  | usagePage (value : UInt16)
  | usage (value : UInt16)
  | other
  deriving DecidableEq, Repr

/-- The reading of a key with a value behind it. -/
def readingOf (key : UInt8) (value : UInt16) : Reading :=
  if key &&& 0xfc = 0x4 then .usagePage value
  else if key &&& 0xfc = 0x8 then .usage value
  else .other

def Item.reading : Item → Reading
  | .short key data .. => readingOf key (UInt16.ofNat (ofLeBytes data))
  | .long .. => .other

/-- The beginning of an item, which ends before the item does. -/
def Cut (rest : Bytes) : Prop := ∃ item : Item, rest <+: item.render ∧ rest ≠ item.render

/-- An item that is cut off is read as if its value were 0. -/
def cutReading : Bytes → List Reading
  | [] => []
  | key :: _ => [readingOf key 0]

/-- What the loop has found after a reading. -/
def noted (s : UsageScan) : Reading → UsageScan
  | .usagePage value => { s with usagePage := value, usagePageFound := true }
  | .usage value => { s with usage := value, usageFound := true }
  | .other => s

def bothFound (s : UsageScan) : Bool := s.usagePageFound && s.usageFound

/-- The loop over readings. -/
def scanReadings : List Reading → UsageScan → Int × UsageScan
  | [], s => (-1, s)
  | r :: rs, s => if bothFound (noted s r) then (0, noted s r) else scanReadings rs (noted s r)

/-- The key of a long item is neither of the two that are looked for. -/
theorem and_fc_of_long {key : UInt8} (hkey : key &&& 0xf0 = 0xf0) :
    key &&& 0xfc ≠ 0x4 ∧ key &&& 0xfc ≠ 0x8 := by
  have hmask : (key &&& 0xfc) &&& 0xf0 = 0xf0 := by
    rw [UInt8.and_assoc]
    exact hkey
  constructor
  · intro h
    rw [h] at hmask
    exact absurd hmask (by decide)
  · intro h
    rw [h] at hmask
    exact absurd hmask (by decide)

theorem readingOf_long {key : UInt8} (hkey : key &&& 0xf0 = 0xf0) (value : UInt16) :
    readingOf key value = .other := by
  rw [readingOf, if_neg (and_fc_of_long hkey).1, if_neg (and_fc_of_long hkey).2]

/-- A short item has no more than four bytes of data, and never three. -/
theorem shortLen_mem (key : UInt8) : shortLen key ∈ [0, 1, 2, 4] := by
  unfold shortLen
  split <;> simp

/-- Behind the end of the descriptor all values are 0. -/
theorem getBytes_cut (report : Bytes) {size n i : Nat} (hcut : i + n ≥ size) :
    getBytes report size n i = some 0 := if_pos hcut

/-- The value of a whole item, as it is cut to 16 bits. -/
theorem getBytes_whole {before data after : Bytes} {key : UInt8} {size : Nat}
    (hlen : data.length ∈ [0, 1, 2, 4]) (hsize : before.length + data.length < size) :
    ∃ value, getBytes (before ++ key :: data ++ after) size data.length before.length = some value ∧
      value.toUInt16 = UInt16.ofNat (ofLeBytes data) := by
  unfold getBytes
  rw [if_neg (by omega)]
  match data, hlen with
  | [], _ => exact ⟨0, rfl, rfl⟩
  | [b1], _ =>
    refine ⟨b1.toUInt32, by simp, UInt16.toNat_inj.mp ?_⟩
    simp [ofLeBytes]
  | [b1, b2], _ =>
    refine ⟨b2.toUInt32 * 256 + b1.toUInt32, by simp, UInt16.toNat_inj.mp ?_⟩
    simp [ofLeBytes]
    omega
  | [b1, b2, b3, b4], _ =>
    refine ⟨b4.toUInt32 * 0x01000000 + b3.toUInt32 * 0x00010000 + b2.toUInt32 * 0x00000100 +
      b1.toUInt32 * 0x00000001, by simp,
      UInt16.toNat_inj.mp ?_⟩
    simp [ofLeBytes]
    omega

/-- One round of the loop. -/
theorem getUsageFrom_turn {report : Bytes} {size i dataLen keySize : Nat} {key : UInt8}
    (value : UInt16) (hi : i < size) (hkey : report[i]? = some key)
    (hsizes : itemSizes report size i key = some (dataLen, keySize))
    (hvalue : key &&& 0xf0 ≠ 0xf0 →
      ∃ v, getBytes report size dataLen i = some v ∧ v.toUInt16 = value)
    (hnext : i + (dataLen + keySize) < 2 ^ 32) (fuel : Nat) (s : UsageScan) :
    getUsageFrom report size (fuel + 1) i s =
      if bothFound (noted s (readingOf key value)) then some (0, noted s (readingOf key value))
      else getUsageFrom report size fuel (i + (dataLen + keySize))
        (noted s (readingOf key value)) := by
  rw [getUsageFrom, if_pos hi, hkey]
  simp only [Option.bind_eq_bind, Option.bind_some, hsizes, Nat.mod_eq_of_lt hnext]
  by_cases hlong : key &&& 0xf0 = 0xf0
  · obtain ⟨h4, h8⟩ := and_fc_of_long hlong
    simp only [h4, h8, if_false, readingOf, noted, bothFound]
    rfl
  · obtain ⟨v, hv, rfl⟩ := hvalue hlong
    by_cases h4 : key &&& 0xfc = 0x4
    · have h8 : ¬ key &&& 0xfc = 0x8 := by
        rw [h4]
        decide
      simp [h4, hv, readingOf, noted, bothFound]
    · by_cases h8 : key &&& 0xfc = 0x8
      · simp [h8, hv, readingOf, noted, bothFound]
      · simp [h4, h8, readingOf, noted, bothFound]

theorem getUsageFrom_end {report : Bytes} {size i : Nat} (hi : size ≤ i) (fuel : Nat)
    (s : UsageScan) : getUsageFrom report size (fuel + 1) i s = some (-1, s) := by
  rw [getUsageFrom, if_neg (by omega)]
  rfl

theorem getElem?_key (before rest after : Bytes) (key : UInt8) :
    (before ++ key :: rest ++ after)[before.length]? = some key := by simp

theorem getElem?_next (before rest after : Bytes) (key x : UInt8) :
    (before ++ key :: x :: rest ++ after)[before.length + 1]? = some x := by simp

/-- A whole item is read for what it is. -/
theorem getUsageFrom_item (item : Item) (before after : Bytes) {size : Nat}
    (hsize : before.length + item.render.length ≤ size) (hsmall : size + 258 ≤ 2 ^ 32)
    (fuel : Nat) (s : UsageScan) :
    let report := before ++ item.render ++ after
    getUsageFrom report size (fuel + 1) before.length s =
      if bothFound (noted s item.reading) then some (0, noted s item.reading)
      else getUsageFrom report size fuel (before.length + item.render.length)
        (noted s item.reading) := by
  intro report
  cases item with
  | short key data hkey hdata =>
    have hlen : (Item.short key data hkey hdata).render.length = shortLen key + 1 := by
      simp [Item.render, Item.tail, hdata]
    rw [hlen] at hsize ⊢
    have hfour : shortLen key ≤ 4 := by
      have := shortLen_mem key
      simp only [List.mem_cons, List.not_mem_nil, or_false] at this
      omega
    refine getUsageFrom_turn _ (by omega) (getElem?_key ..) (if_neg hkey) (fun _ => ?_) (by omega)
      fuel s
    have hmem : data.length ∈ [0, 1, 2, 4] := by
      rw [hdata]
      exact shortLen_mem key
    rw [← hdata]
    change ∃ v, getBytes (before ++ key :: data ++ after) size data.length before.length =
      some v ∧ _
    exact getBytes_whole hmem (by omega)
  | long key tag data hkey hdata =>
    have hlen : (Item.long key tag data hkey hdata).render.length = data.length + 3 := by
      simp [Item.render, Item.tail]
    rw [hlen] at hsize ⊢
    have hsizes : itemSizes report size before.length key = some (data.length, 3) := by
      have hmod : (before.length + 1) % 2 ^ 32 = before.length + 1 := Nat.mod_eq_of_lt (by omega)
      rw [itemSizes, if_pos hkey, hmod, if_pos (by omega)]
      change (do let dataLen ← report[before.length + 1]?; pure (dataLen.toNat, 3)) = _
      have hread : report[before.length + 1]? = some (UInt8.ofNat data.length) := getElem?_next ..
      simp [hread, Nat.mod_eq_of_lt hdata]
    have hturn := getUsageFrom_turn 0 (by omega) (getElem?_key ..) hsizes
      (fun h => absurd hkey h) (by omega) fuel s
    rwa [show readingOf (Item.long key tag data hkey hdata).key 0 = .other from
      readingOf_long hkey 0] at hturn

/-- The round that meets an item which is cut off goes past the end of the descriptor. -/
theorem itemSizes_cut (before after : Bytes) {item : Item} {rest : Bytes} {size : Nat}
    (htail : rest <+: item.tail) (hshort : rest.length < item.tail.length)
    (hsize : before.length + (rest.length + 1) = size) (hsmall : size + 258 ≤ 2 ^ 32) :
    ∃ dataLen keySize,
      itemSizes (before ++ item.key :: rest ++ after) size before.length item.key =
        some (dataLen, keySize) ∧ size ≤ before.length + (dataLen + keySize) ∧
      before.length + (dataLen + keySize) < 2 ^ 32 ∧
      (item.key &&& 0xf0 ≠ 0xf0 → before.length + dataLen ≥ size) := by
  cases item with
  | short key data hkey hdata =>
    have hfour : shortLen key ≤ 4 := by
      have := shortLen_mem key
      simp only [List.mem_cons, List.not_mem_nil, or_false] at this
      omega
    have hlen : rest.length < shortLen key := by
      rw [← hdata]
      exact hshort
    exact ⟨shortLen key, 1, if_neg hkey, by omega, by omega, fun _ => by omega⟩
  | long key tag data hkey hdata =>
    have hmod : (before.length + 1) % 2 ^ 32 = before.length + 1 := Nat.mod_eq_of_lt (by omega)
    have hlen : rest.length < data.length + 2 := hshort
    cases rest with
    | nil =>
      refine ⟨0, 3, ?_, by simp at hsize; omega, by omega, fun h => absurd hkey h⟩
      change itemSizes _ size before.length key = _
      rw [itemSizes, if_pos hkey, hmod, if_neg (by simp at hsize; omega)]
    | cons x rest =>
      obtain ⟨rfl, -⟩ := List.cons_prefix_cons.mp htail
      rw [List.length_cons] at hsize hlen
      refine ⟨data.length, 3, ?_, by omega, by omega, fun h => absurd hkey h⟩
      change itemSizes _ size before.length key = _
      rw [itemSizes, if_pos hkey, hmod, if_pos (by omega)]
      change (do
        let dataLen ← (before ++ key :: UInt8.ofNat data.length :: rest ++
          after)[before.length + 1]?
        pure (dataLen.toNat, 3)) = _
      simp [Nat.mod_eq_of_lt hdata]

/-- What is cut off is read as 0, and nothing is read behind it. -/
theorem getUsageFrom_cut {rest : Bytes} (hrest : Cut rest) {before after : Bytes} {size : Nat}
    (hsize : before.length + rest.length = size) (hsmall : size + 258 ≤ 2 ^ 32) (fuel : Nat)
    (s : UsageScan) :
    getUsageFrom (before ++ rest ++ after) size (fuel + 2) before.length s =
      some (scanReadings (cutReading rest) s) := by
  cases rest with
  | nil => exact getUsageFrom_end (by simp at hsize; omega) _ s
  | cons key rest =>
    obtain ⟨item, hprefix, hne⟩ := hrest
    obtain ⟨rfl, htail⟩ := List.cons_prefix_cons.mp hprefix
    rw [List.length_cons] at hsize
    have hshort : rest.length < item.tail.length := by
      refine Nat.lt_of_le_of_ne htail.length_le (fun h => hne ?_)
      rw [htail.eq_of_length h]
      rfl
    obtain ⟨dataLen, keySize, hsizes, hpast, hnext, hvalue⟩ :=
      itemSizes_cut before after htail hshort hsize hsmall
    rw [getUsageFrom_turn 0 (by omega) (getElem?_key ..) hsizes
      (fun h => ⟨0, getBytes_cut _ (hvalue h), rfl⟩) hnext, getUsageFrom_end hpast]
    simp only [cutReading, scanReadings]
    split <;> rfl

/-- The whole loop over items, the last of which may be cut off. -/
theorem getUsageFrom_items (items : List Item) {rest : Bytes} (hrest : Cut rest)
    (before after : Bytes) {size fuel : Nat}
    (hsize : before.length + (items.flatMap Item.render ++ rest).length = size)
    (hsmall : size + 258 ≤ 2 ^ 32) (hfuel : items.length + 2 ≤ fuel) (s : UsageScan) :
    getUsageFrom (before ++ (items.flatMap Item.render ++ rest) ++ after) size fuel before.length
      s = some (scanReadings (items.map Item.reading ++ cutReading rest) s) := by
  induction items generalizing before fuel s with
  | nil =>
    obtain ⟨fuel, rfl⟩ : ∃ k, fuel = k + 2 := ⟨fuel - 2, by simp at hfuel; omega⟩
    exact getUsageFrom_cut hrest hsize hsmall fuel s
  | cons item items ih =>
    rw [List.length_cons] at hfuel
    obtain ⟨fuel, rfl⟩ : ∃ k, fuel = k + 1 := ⟨fuel - 1, by omega⟩
    rw [List.flatMap_cons, List.append_assoc, List.length_append] at hsize
    have hturn := getUsageFrom_item item before ((items.flatMap Item.render ++ rest) ++ after)
      (by omega) hsmall fuel s
    have hnext := ih (before ++ item.render) (by rw [List.length_append]; omega)
      (by omega : items.length + 2 ≤ fuel) (noted s item.reading)
    simp only [List.append_assoc, List.length_append] at hturn hnext
    simp only [List.flatMap_cons, List.append_assoc, List.map_cons, List.cons_append, scanReadings]
    rw [hturn, hnext]
    split <;> rfl

/-- What stands at the beginning of a descriptor is an item, or the beginning of one. -/
theorem exists_item (key : UInt8) (tail : Bytes) : ∃ item : Item,
    (∃ more, key :: tail = item.render ++ more) ∨
      (key :: tail <+: item.render ∧ key :: tail ≠ item.render) := by
  by_cases hkey : key &&& 0xf0 = 0xf0
  · match tail with
    | [] => exact ⟨.long key 0 [] hkey (by simp), .inr (by simp [Item.render, Item.tail, Item.key])⟩
    | [x] =>
      refine ⟨.long key 0 (List.replicate x.toNat 0) hkey (by simpa using x.toNat_lt), .inr ?_⟩
      simp [Item.render, Item.tail, Item.key]
    | x :: tag :: data =>
      have hx := x.toNat_lt
      by_cases hlen : x.toNat ≤ data.length
      · refine ⟨.long key tag (data.take x.toNat) hkey (by simp; omega), .inl
          ⟨data.drop x.toNat, ?_⟩⟩
        simp [Item.render, Item.tail, Item.key, Nat.min_eq_left hlen]
      · refine ⟨.long key tag (data ++ List.replicate (x.toNat - data.length) 0) hkey
          (by simp; omega), .inr ?_⟩
        have hsum : data.length + (x.toNat - data.length) = x.toNat := by omega
        simp [Item.render, Item.tail, Item.key, hsum]
        omega
  · by_cases hlen : shortLen key ≤ tail.length
    · refine ⟨.short key (tail.take (shortLen key)) hkey (by simp; omega), .inl
        ⟨tail.drop (shortLen key), ?_⟩⟩
      simp [Item.render, Item.tail, Item.key]
    · refine ⟨.short key (tail ++ List.replicate (shortLen key - tail.length) 0) hkey
        (by simp; omega), .inr ?_⟩
      simp [Item.render, Item.tail, Item.key]
      omega

theorem cut_nil : Cut [] := by
  obtain ⟨item, -⟩ := exists_item 0 []
  exact ⟨item, List.nil_prefix, by simp [Item.render]⟩

/-- Every descriptor is a series of items, of which the last may be cut off. -/
theorem exists_items (report : Bytes) :
    ∃ (items : List Item) (rest : Bytes), Cut rest ∧
      report = items.flatMap Item.render ++ rest := by
  induction h : report.length using Nat.strong_induction_on generalizing report with
  | _ n ih =>
    cases report with
    | nil => exact ⟨[], [], cut_nil, rfl⟩
    | cons key tail =>
      obtain ⟨item, ⟨more, hmore⟩ | hcut⟩ := exists_item key tail
      · have hshorter : more.length < n := by
          rw [← h, hmore, List.length_append, Item.render, List.length_cons]
          omega
        obtain ⟨items, rest, hrest, rfl⟩ := ih _ hshorter more rfl
        exact ⟨item :: items, rest, hrest, by rw [hmore, List.flatMap_cons, List.append_assoc]⟩
      · exact ⟨[], key :: tail, ⟨item, hcut⟩, rfl⟩

def pageOf : Reading → Option UInt16
  | .usagePage value => some value
  | _ => none

def usageOf : Reading → Option UInt16
  | .usage value => some value
  | _ => none

/-- The last Usage Page of a series of readings. -/
def lastPage (rs : List Reading) : Option UInt16 := (rs.filterMap pageOf).getLast?

def lastUsage (rs : List Reading) : Option UInt16 := (rs.filterMap usageOf).getLast?

/-- What `get_usage` makes of readings: with a Usage Page and a Usage among them, the
last of each in the shortest beginning that has both, otherwise a failure with what
there is in its place. -/
inductive UsageResult (usagePage usage : UInt16) (rs : List Reading) :
    Int × UInt16 × UInt16 → Prop where
  | found (front : List Reading) (r : Reading) (back : List Reading) {page use : UInt16}
      (hrs : rs = front ++ r :: back) (hfront : lastPage front = none ∨ lastUsage front = none)
      (hpage : lastPage (front ++ [r]) = some page) (huse : lastUsage (front ++ [r]) = some use) :
      UsageResult usagePage usage rs (0, page, use)
  | missing (hmissing : lastPage rs = none ∨ lastUsage rs = none) :
      UsageResult usagePage usage rs
        (-1, (lastPage rs).getD usagePage, (lastUsage rs).getD usage)

/-- The variables of the loop after some readings. -/
structure Noted (usagePage usage : UInt16) (rs : List Reading) (s : UsageScan) : Prop where
  page : s.usagePage = (lastPage rs).getD usagePage
  use : s.usage = (lastUsage rs).getD usage
  pageFound : s.usagePageFound = (lastPage rs).isSome
  useFound : s.usageFound = (lastUsage rs).isSome

theorem Noted.next {usagePage usage : UInt16} {rs : List Reading} {s : UsageScan}
    (h : Noted usagePage usage rs s) (r : Reading) :
    Noted usagePage usage (rs ++ [r]) (noted s r) := by
  obtain ⟨hpage, huse, hpageFound, huseFound⟩ := h
  cases r with
  | usagePage value =>
    exact ⟨by simp [noted, lastPage, pageOf], by simpa [noted, lastUsage, usageOf] using huse,
      by simp [noted, lastPage, pageOf], by simpa [noted, lastUsage, usageOf] using huseFound⟩
  | usage value =>
    exact ⟨by simpa [noted, lastPage, pageOf] using hpage, by simp [noted, lastUsage, usageOf],
      by simpa [noted, lastPage, pageOf] using hpageFound, by simp [noted, lastUsage, usageOf]⟩
  | other =>
    exact ⟨by simpa [noted, lastPage, pageOf] using hpage,
      by simpa [noted, lastUsage, usageOf] using huse,
      by simpa [noted, lastPage, pageOf] using hpageFound,
      by simpa [noted, lastUsage, usageOf] using huseFound⟩

theorem scanReadings_outcome {usagePage usage : UInt16} (rs : List Reading) {past : List Reading}
    {s : UsageScan} (h : Noted usagePage usage past s)
    (hpast : lastPage past = none ∨ lastUsage past = none) :
    let x := scanReadings rs s
    UsageResult usagePage usage (past ++ rs) (x.1, x.2.usagePage, x.2.usage) := by
  induction rs generalizing past s with
  | nil =>
    rw [List.append_nil]
    simp only [scanReadings, h.page, h.use]
    exact .missing hpast
  | cons r rs ih =>
    have hnext := h.next r
    simp only [scanReadings]
    by_cases hboth : bothFound (noted s r) = true
    · rw [if_pos hboth]
      rw [bothFound, hnext.pageFound, hnext.useFound, Bool.and_eq_true] at hboth
      obtain ⟨page, hpage⟩ := Option.isSome_iff_exists.mp hboth.1
      obtain ⟨use, huse⟩ := Option.isSome_iff_exists.mp hboth.2
      simp only [hnext.page, hnext.use, hpage, huse, Option.getD_some]
      exact .found past r rs rfl hpast hpage huse
    · rw [if_neg hboth]
      rw [bothFound, hnext.pageFound, hnext.useFound, Bool.and_eq_true, not_and_or,
        Bool.not_eq_true, Bool.not_eq_true, Option.isSome_eq_false_iff, Option.isSome_eq_false_iff,
        Option.isNone_iff_eq_none, Option.isNone_iff_eq_none] at hboth
      have hrest := ih hnext hboth
      rwa [List.append_assoc, List.singleton_append] at hrest

theorem length_le_flatMap (items : List Item) :
    items.length ≤ (items.flatMap Item.render).length := by
  induction items with
  | nil => simp
  | cons item items ih =>
    rw [List.flatMap_cons, List.length_append, List.length_cons, Item.render, List.length_cons]
    omega

/-- Every descriptor is a series of items, of which the last may be cut off, and
`get_usage` reads it as that: it ends, reads nothing behind the descriptor and returns
what the items say. -/
theorem getUsage_reads (report behind : Bytes) (hsmall : report.length + 258 ≤ 2 ^ 32) (fuel : Nat)
    (hfuel : report.length + 2 ≤ fuel) (usagePage usage : UInt16) :
    (∃ (items : List Item) (rest : Bytes), Cut rest ∧
      report = items.flatMap Item.render ++ rest) ∧
    ∀ (items : List Item) (rest : Bytes), Cut rest → report = items.flatMap Item.render ++ rest →
      ∃ x, getUsage (report ++ behind) report.length fuel usagePage usage = some x ∧
        UsageResult usagePage usage (items.map Item.reading ++ cutReading rest) x := by
  refine ⟨exists_items report, ?_⟩
  rintro items rest hrest rfl
  have hitems : items.length + 2 ≤ fuel := by
    have := length_le_flatMap items
    rw [List.length_append] at hfuel
    omega
  have hscan := getUsageFrom_items items hrest [] behind (Nat.zero_add _) hsmall hitems
    ⟨usagePage, usage, false, false⟩
  have hstart : Noted usagePage usage [] ⟨usagePage, usage, false, false⟩ := ⟨rfl, rfl, rfl, rfl⟩
  refine ⟨_, congrArg (Option.map _) hscan, ?_⟩
  exact scanReadings_outcome (items.map Item.reading ++ cutReading rest) hstart (.inl rfl)

/-- A long item, then a Usage Page, a Usage and a Collection. -/
theorem getUsage_reads_four :
    ∃ x, getUsage [0xfe, 1, 0, 7, 0x05, 1, 0x09, 2, 0xa1, 1] 10 12 0 0 = some x ∧
      UsageResult 0 0 [.other, .usagePage 1, .usage 2, .other] x := by
  have hreads := (getUsage_reads [0xfe, 1, 0, 7, 0x05, 1, 0x09, 2, 0xa1, 1] [] (by decide) 12
    (by decide) 0 0).2
  exact hreads [.long 0xfe 0 [7] (by decide) (by decide), .short 0x05 [1] (by decide) (by decide),
    .short 0x09 [2] (by decide) (by decide), .short 0xa1 [1] (by decide) (by decide)] [] cut_nil rfl

end Libfcd.Proofs
