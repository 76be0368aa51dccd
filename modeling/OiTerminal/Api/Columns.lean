import OiTerminal.Api.Range

/-!
# The transpose into columns

The loops that build the columnar payloads. Snapshots are searched for the axes that have a
value until both are found, and then every row is pushed into the columns that exist.
-/
namespace OiTerminal.Api.Columns

open OiTerminal.Core OiTerminal.Core.Time
open OiTerminal.Api.Range

set_option autoImplicit false

/-- A column that is left out stays so. -/
def push {β : Type} (column : Option (List β)) (x : β) : Option (List β) :=
  column.map (· ++ [x])

def allocate {β : Type} (emitted : Bool) : Option (List β) := if emitted then some [] else none

/-- The first pass, over the flags of the two axes. -/
def detect : Bool → Bool → List OiSnapshot → Bool × Bool
  | hasCo, hasUo, [] => (hasCo, hasUo)
  | hasCo, hasUo, s :: rest =>
    let hasCo := if !hasCo && hasCoins s then true else hasCo
    let hasUo := if !hasUo && hasUsd s then true else hasUo
    if hasCo && hasUo then (hasCo, hasUo) else detect hasCo hasUo rest

section

variable (D : DecimalText)

def pushSnapshot (out : OiColumns) (s : OiSnapshot) : OiColumns :=
  { out with
    ts := out.ts ++ [unixMillis s.bucketTs]
    nativeOpen := out.nativeOpen ++ [D.toText s.nativeOpen]
    nativeHigh := out.nativeHigh ++ [D.toText s.nativeHigh]
    nativeLow := out.nativeLow ++ [D.toText s.nativeLow]
    nativeClose := out.nativeClose ++ [D.toText s.nativeClose]
    oiCoinsOpen := push out.oiCoinsOpen (s.oiCoinsOpen.map D.toText)
    oiCoinsHigh := push out.oiCoinsHigh (s.oiCoinsHigh.map D.toText)
    oiCoinsLow := push out.oiCoinsLow (s.oiCoinsLow.map D.toText)
    oiCoinsClose := push out.oiCoinsClose (s.oiCoinsClose.map D.toText)
    oiUsdOpen := push out.oiUsdOpen (s.oiUsdOpen.map D.toText)
    oiUsdHigh := push out.oiUsdHigh (s.oiUsdHigh.map D.toText)
    oiUsdLow := push out.oiUsdLow (s.oiUsdLow.map D.toText)
    oiUsdClose := push out.oiUsdClose (s.oiUsdClose.map D.toText) }

def fromSnapshots (snaps : List OiSnapshot) : OiColumns :=
  let (hasCo, hasUo) := detect false false snaps
  let out : OiColumns :=
    { OiColumns.empty with
      fmt := "col"
      n := snaps.length
      oiCoinsOpen := allocate hasCo
      oiCoinsHigh := allocate hasCo
      oiCoinsLow := allocate hasCo
      oiCoinsClose := allocate hasCo
      oiUsdOpen := allocate hasUo
      oiUsdHigh := allocate hasUo
      oiUsdLow := allocate hasUo
      oiUsdClose := allocate hasUo }
  snaps.foldl (pushSnapshot D) out

def pushBar (out : FundingColumns) (b : FundingBar) : FundingColumns :=
  { out with
    ts := out.ts ++ [unixMillis b.bucketTs]
    rate := out.rate ++ [D.toText b.rate]
    nextFundingTs := push out.nextFundingTs (b.nextFundingTs.map unixMillis)
    intervalHours := push out.intervalHours b.intervalHours }

def fromBars (bars : List FundingBar) : FundingColumns :=
  let hasNft := bars.any fun b => b.nextFundingTs.isSome
  let hasIh := bars.any fun b => b.intervalHours.isSome
  let out : FundingColumns :=
    { FundingColumns.empty with
      fmt := "col"
      n := bars.length
      nextFundingTs := allocate hasNft
      intervalHours := allocate hasIh }
  bars.foldl (pushBar D) out

end

/-- What a client reads at an index, null where the column is missing. -/
def cell {β : Type} (column : Option (List (Option β))) (i : Nat) : Option β :=
  (column.bind fun entries => entries[i]?).join

/-! The columns and the fields of the row format, in the same order. -/

def nativeColumns (c : OiColumns) : List (List String) :=
  [c.nativeOpen, c.nativeHigh, c.nativeLow, c.nativeClose]

def coinsColumns (c : OiColumns) : List (Option (List (Option String))) :=
  [c.oiCoinsOpen, c.oiCoinsHigh, c.oiCoinsLow, c.oiCoinsClose]

def usdColumns (c : OiColumns) : List (Option (List (Option String))) :=
  [c.oiUsdOpen, c.oiUsdHigh, c.oiUsdLow, c.oiUsdClose]

def nativeFields (dto : BarDto) : List String :=
  [dto.nativeOpen, dto.nativeHigh, dto.nativeLow, dto.nativeClose]

def coinsFields (dto : BarDto) : List (Option String) :=
  [dto.oiCoinsOpen, dto.oiCoinsHigh, dto.oiCoinsLow, dto.oiCoinsClose]

def usdFields (dto : BarDto) : List (Option String) :=
  [dto.oiUsdOpen, dto.oiUsdHigh, dto.oiUsdLow, dto.oiUsdClose]

section

variable (D : DecimalText) (R : Rfc3339)

/-- A columnar payload of open interest says at every index what the row format says. -/
structure CarriesOi (snaps : List OiSnapshot) (c : OiColumns) : Prop where
  count : c.n = snaps.length
  ts_length : c.ts.length = c.n
  native_length : ∀ column ∈ nativeColumns c, column.length = c.n
  optional_length : ∀ column ∈ coinsColumns c ++ usdColumns c, ∀ entries,
    column = some entries → entries.length = c.n
  coins_emitted : ∀ column ∈ coinsColumns c, column.isSome ↔
    ∃ s ∈ snaps, ∃ field ∈ coinsFields (.ofSnapshot D R s), field.isSome
  usd_emitted : ∀ column ∈ usdColumns c, column.isSome ↔
    ∃ s ∈ snaps, ∃ field ∈ usdFields (.ofSnapshot D R s), field.isSome
  ts : ∀ (i : Nat) (s : OiSnapshot), snaps[i]? = some s → c.ts[i]? = some (unixMillis s.bucketTs)
  native : ∀ (i : Nat) (s : OiSnapshot), snaps[i]? = some s →
    (nativeColumns c).map (fun column => column[i]?) =
      (nativeFields (.ofSnapshot D R s)).map some
  coins : ∀ (i : Nat) (s : OiSnapshot), snaps[i]? = some s →
    (coinsColumns c).map (fun column => cell column i) = coinsFields (.ofSnapshot D R s)
  usd : ∀ (i : Nat) (s : OiSnapshot), snaps[i]? = some s →
    (usdColumns c).map (fun column => cell column i) = usdFields (.ofSnapshot D R s)

/-- The same for funding. The next settlement is in milliseconds where the row has text. -/
structure CarriesFunding (bars : List FundingBar) (c : FundingColumns) : Prop where
  count : c.n = bars.length
  ts_length : c.ts.length = c.n
  rate_length : c.rate.length = c.n
  next_length : ∀ entries, c.nextFundingTs = some entries → entries.length = c.n
  interval_length : ∀ entries, c.intervalHours = some entries → entries.length = c.n
  next_emitted : c.nextFundingTs.isSome ↔
    ∃ b ∈ bars, (FundingDto.ofBar D R b).nextFundingTs.isSome
  interval_emitted : c.intervalHours.isSome ↔
    ∃ b ∈ bars, (FundingDto.ofBar D R b).intervalHours.isSome
  ts : ∀ (i : Nat) (b : FundingBar), bars[i]? = some b → c.ts[i]? = some (unixMillis b.bucketTs)
  rate : ∀ (i : Nat) (b : FundingBar), bars[i]? = some b →
    c.rate[i]? = some (FundingDto.ofBar D R b).rate
  next : ∀ (i : Nat) (b : FundingBar), bars[i]? = some b →
    cell c.nextFundingTs i = b.nextFundingTs.map unixMillis ∧
      (FundingDto.ofBar D R b).nextFundingTs = b.nextFundingTs.map R.format
  interval : ∀ (i : Nat) (b : FundingBar), bars[i]? = some b →
    cell c.intervalHours i = (FundingDto.ofBar D R b).intervalHours

end

/-- The early exit does not lose an axis. -/
theorem detect_eq (snaps : List OiSnapshot) (hasCo hasUo : Bool) :
    detect hasCo hasUo snaps = (hasCo || snaps.any hasCoins, hasUo || snaps.any hasUsd) := by
  induction snaps generalizing hasCo hasUo with
  | nil => simp [detect]
  | cons s rest ih =>
    unfold detect
    dsimp only
    rw [ih, List.any_cons, List.any_cons]
    cases hasCo <;> cases hasUo <;> cases hasCoins s <;> cases hasUsd s <;> rfl

section

variable {α β : Type}

/-- Pushes to a column add up. -/
theorem push_map (column : Option (List β)) (x : β) (xs : List β) :
    (push column x).map (· ++ xs) = column.map (· ++ x :: xs) := by
  cases column with
  | none => rfl
  | some entries => simp [push]

/-- The pushes of a whole loop give the column over all rows, if it exists. -/
theorem allocate_map (emitted : Bool) (f : α → β) (rows : List α) :
    (allocate emitted).map (· ++ rows.map f) = optionalColumn emitted f rows := by
  cases emitted <;> rfl

end

section

variable (D : DecimalText)

theorem foldl_pushSnapshot (snaps : List OiSnapshot) (out : OiColumns) :
    snaps.foldl (pushSnapshot D) out =
      { out with
        ts := out.ts ++ snaps.map fun s => unixMillis s.bucketTs
        nativeOpen := out.nativeOpen ++ snaps.map fun s => D.toText s.nativeOpen
        nativeHigh := out.nativeHigh ++ snaps.map fun s => D.toText s.nativeHigh
        nativeLow := out.nativeLow ++ snaps.map fun s => D.toText s.nativeLow
        nativeClose := out.nativeClose ++ snaps.map fun s => D.toText s.nativeClose
        oiCoinsOpen := out.oiCoinsOpen.map (· ++ snaps.map fun s => s.oiCoinsOpen.map D.toText)
        oiCoinsHigh := out.oiCoinsHigh.map (· ++ snaps.map fun s => s.oiCoinsHigh.map D.toText)
        oiCoinsLow := out.oiCoinsLow.map (· ++ snaps.map fun s => s.oiCoinsLow.map D.toText)
        oiCoinsClose := out.oiCoinsClose.map
          (· ++ snaps.map fun s => s.oiCoinsClose.map D.toText)
        oiUsdOpen := out.oiUsdOpen.map (· ++ snaps.map fun s => s.oiUsdOpen.map D.toText)
        oiUsdHigh := out.oiUsdHigh.map (· ++ snaps.map fun s => s.oiUsdHigh.map D.toText)
        oiUsdLow := out.oiUsdLow.map (· ++ snaps.map fun s => s.oiUsdLow.map D.toText)
        oiUsdClose := out.oiUsdClose.map
          (· ++ snaps.map fun s => s.oiUsdClose.map D.toText) } := by
  induction snaps generalizing out with
  | nil => simp only [List.foldl_nil, List.map_nil, List.append_nil,
      Option.map_id_fun', id_eq]
  | cons s rest ih =>
    rw [List.foldl_cons, ih]
    simp only [pushSnapshot, push_map, List.map_cons, List.append_assoc, List.singleton_append]

/-- The loop is the transpose. -/
theorem fromSnapshots_eq (snaps : List OiSnapshot) :
    fromSnapshots D snaps = OiColumns.fromSnapshots D snaps := by
  unfold fromSnapshots
  rw [detect_eq]
  dsimp only
  rw [foldl_pushSnapshot]
  simp only [allocate_map, Bool.false_or, OiColumns.empty, List.nil_append]
  rfl

theorem foldl_pushBar (bars : List FundingBar) (out : FundingColumns) :
    bars.foldl (pushBar D) out =
      { out with
        ts := out.ts ++ bars.map fun b => unixMillis b.bucketTs
        rate := out.rate ++ bars.map fun b => D.toText b.rate
        nextFundingTs := out.nextFundingTs.map
          (· ++ bars.map fun b => b.nextFundingTs.map unixMillis)
        intervalHours := out.intervalHours.map (· ++ bars.map fun b => b.intervalHours) } := by
  induction bars generalizing out with
  | nil => simp only [List.foldl_nil, List.map_nil, List.append_nil,
      Option.map_id_fun', id_eq]
  | cons b rest ih =>
    rw [List.foldl_cons, ih]
    simp only [pushBar, push_map, List.map_cons, List.append_assoc, List.singleton_append]

theorem fromBars_eq (bars : List FundingBar) :
    fromBars D bars = FundingColumns.fromBars D bars := by
  unfold fromBars
  dsimp only
  rw [foldl_pushBar]
  simp only [allocate_map, FundingColumns.empty, List.nil_append]
  rfl

end

section

variable {α β : Type} {emitted : Bool} {f : α → β} {rows : List α}

theorem length_of_optionalColumn {entries : List β}
    (h : optionalColumn emitted f rows = some entries) : entries.length = rows.length := by
  unfold optionalColumn at h
  split at h
  · rw [← Option.some.inj h, List.length_map]
  · cases h

theorem isSome_optionalColumn : (optionalColumn emitted f rows).isSome = emitted := by
  cases emitted <;> rfl

theorem getElem?_column {i : Nat} {row : α} (hrow : rows[i]? = some row) :
    (rows.map f)[i]? = some (f row) := by
  rw [List.getElem?_map, hrow]
  rfl

/-- A column reads as the field, also when it is left out because no row has the field. -/
theorem cell_optionalColumn {p : α → Bool} {field : α → Option β} {i : Nat} {row : α}
    (hrow : rows[i]? = some row) (hp : ∀ x, (field x).isSome = true → p x = true) :
    cell (optionalColumn (rows.any p) field rows) i = field row := by
  cases hany : rows.any p with
  | true =>
    show (rows.map field)[i]?.join = field row
    rw [getElem?_column hrow]
    rfl
  | false =>
    have hmem : row ∈ rows := List.mem_of_getElem? hrow
    have hnot := List.any_eq_false.mp hany row hmem
    cases hfield : field row with
    | none => rfl
    | some x => exact absurd (hp row (by rw [hfield]; rfl)) hnot

end

section

variable {α β : Type} {p : α → Bool} {fields : List (α → Option β)} {rows : List α}

/-- The columns of an axis, which the rows emit together. -/
def axis (p : α → Bool) (fields : List (α → Option β)) (rows : List α) :
    List (Option (List (Option β))) :=
  fields.map fun field => optionalColumn (rows.any p) field rows

theorem length_of_axis {column : Option (List (Option β))} {entries : List (Option β)}
    (hmem : column ∈ axis p fields rows) (h : column = some entries) :
    entries.length = rows.length := by
  obtain ⟨field, -, rfl⟩ := List.mem_map.mp hmem
  exact length_of_optionalColumn h

theorem emitted_of_axis {column : Option (List (Option β))}
    (hmem : column ∈ axis p fields rows) : column.isSome = true ↔ ∃ x ∈ rows, p x = true := by
  obtain ⟨field, -, rfl⟩ := List.mem_map.mp hmem
  rw [isSome_optionalColumn, List.any_eq_true]

theorem cells_of_axis {i : Nat} {row : α} (hrow : rows[i]? = some row)
    (hp : ∀ x, p x = true ↔ ∃ field ∈ fields.map fun field => field x, field.isSome) :
    (axis p fields rows).map (fun column => cell column i) = fields.map fun field => field row := by
  unfold axis
  rw [List.map_map]
  refine List.map_congr_left fun field hfield => cell_optionalColumn hrow fun x hx => ?_
  exact (hp x).mpr ⟨field x, List.mem_map_of_mem hfield, hx⟩

end

section

variable (D : DecimalText) (R : Rfc3339)

/-- The flag of an axis is set by a value of the axis. -/
theorem hasCoins_iff (s : OiSnapshot) : hasCoins s = true ↔
    ∃ field ∈ coinsFields (.ofSnapshot D R s), field.isSome := by
  simp [hasCoins, coinsFields, BarDto.ofSnapshot, or_assoc]

theorem hasUsd_iff (s : OiSnapshot) : hasUsd s = true ↔
    ∃ field ∈ usdFields (.ofSnapshot D R s), field.isSome := by
  simp [hasUsd, usdFields, BarDto.ofSnapshot, or_assoc]

theorem coinsColumns_eq (snaps : List OiSnapshot) :
    coinsColumns (.fromSnapshots D snaps) =
      axis hasCoins [fun s => s.oiCoinsOpen.map D.toText, fun s => s.oiCoinsHigh.map D.toText,
        fun s => s.oiCoinsLow.map D.toText, fun s => s.oiCoinsClose.map D.toText] snaps := rfl

theorem usdColumns_eq (snaps : List OiSnapshot) :
    usdColumns (.fromSnapshots D snaps) =
      axis hasUsd [fun s => s.oiUsdOpen.map D.toText, fun s => s.oiUsdHigh.map D.toText,
        fun s => s.oiUsdLow.map D.toText, fun s => s.oiUsdClose.map D.toText] snaps := rfl

theorem nativeColumns_eq (snaps : List OiSnapshot) :
    nativeColumns (.fromSnapshots D snaps) =
      [fun s : OiSnapshot => D.toText s.nativeOpen, fun s => D.toText s.nativeHigh,
        fun s => D.toText s.nativeLow, fun s => D.toText s.nativeClose].map snaps.map := rfl

theorem carriesOi (snaps : List OiSnapshot) :
    CarriesOi D R snaps (OiColumns.fromSnapshots D snaps) := by
  constructor
  case count => rfl
  case ts_length => exact List.length_map ..
  case native_length =>
    intro column hcolumn
    rw [nativeColumns_eq] at hcolumn
    obtain ⟨field, -, rfl⟩ := List.mem_map.mp hcolumn
    exact List.length_map ..
  case optional_length =>
    intro column hcolumn entries hentries
    rw [coinsColumns_eq, usdColumns_eq] at hcolumn
    rcases List.mem_append.mp hcolumn with hcoins | husd
    · exact length_of_axis hcoins hentries
    · exact length_of_axis husd hentries
  case coins_emitted =>
    intro column hcolumn
    rw [coinsColumns_eq] at hcolumn
    simp only [emitted_of_axis hcolumn, hasCoins_iff D R]
  case usd_emitted =>
    intro column hcolumn
    rw [usdColumns_eq] at hcolumn
    simp only [emitted_of_axis hcolumn, hasUsd_iff D R]
  case ts => exact fun i s hs => getElem?_column hs
  case native =>
    intro i s hs
    rw [nativeColumns_eq, List.map_map]
    exact List.map_congr_left fun field _ => getElem?_column hs
  case coins =>
    intro i s hs
    rw [coinsColumns_eq]
    exact cells_of_axis hs (hasCoins_iff D R)
  case usd =>
    intro i s hs
    rw [usdColumns_eq]
    exact cells_of_axis hs (hasUsd_iff D R)

theorem carriesFunding (bars : List FundingBar) :
    CarriesFunding D R bars (FundingColumns.fromBars D bars) := by
  constructor
  case count => rfl
  case ts_length => exact List.length_map ..
  case rate_length => exact List.length_map ..
  case next_length => exact fun _ => length_of_optionalColumn
  case interval_length => exact fun _ => length_of_optionalColumn
  case next_emitted =>
    show (optionalColumn _ _ bars).isSome = true ↔ _
    rw [isSome_optionalColumn, List.any_eq_true]
    simp [FundingDto.ofBar]
  case interval_emitted =>
    show (optionalColumn _ _ bars).isSome = true ↔ _
    rw [isSome_optionalColumn, List.any_eq_true]
    rfl
  case ts => exact fun i b hb => getElem?_column hb
  case rate => exact fun i b hb => getElem?_column hb
  case next =>
    intro i b hb
    exact ⟨cell_optionalColumn hb fun x => by simp, rfl⟩
  case interval => exact fun i b hb => cell_optionalColumn hb fun _ => id

/-- Both columnar payloads carry what the row payloads carry. -/
theorem columns_carry_rows :
    (∀ snaps : List OiSnapshot, CarriesOi D R snaps (fromSnapshots D snaps)) ∧
      ∀ bars : List FundingBar, CarriesFunding D R bars (fromBars D bars) := by
  constructor
  · intro snaps
    rw [fromSnapshots_eq]
    exact carriesOi D R snaps
  · intro bars
    rw [fromBars_eq]
    exact carriesFunding D R bars

end

end OiTerminal.Api.Columns
