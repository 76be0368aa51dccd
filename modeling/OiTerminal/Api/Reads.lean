import OiTerminal.Api.Grpc
import OiTerminal.Api.Range
import OiTerminal.Lib.Outbox

/-!
# Reads over REST and over gRPC

Both interfaces read the same three series of the repository. A request for latest values names one
instrument over REST and any number of them over gRPC. A range comes as a stream over gRPC. A
message carries what the object of the same row carries.
-/
namespace OiTerminal.Api.Reads

open OiTerminal.Core
open OiTerminal.Api.Grpc hiding OffsetDateTime
open OiTerminal.Api.Range
open OiTerminal.Api.Subscribe (PbInstrument pbToId)
open OiTerminal.Lib OiTerminal.Lib.Transition
open OiTerminal.Storage.ClickHouse (CoreError)

set_option autoImplicit false

/-- The handlers of a series. `told` is what the messages tell of an object, and `object` reads a
message as that. -/
structure Endpoints (Row Dto Columns Pb : Type) where
  series : Series Row Dto Columns
  noData : String
  message : Row → Pb
  object : Pb → Dto
  told : Dto → Dto
  object_message : ∀ row, object (message row) = told (series.dto row)

inductive LatestResponse (Dto : Type) where
  | ok (dto : Dto)
  | badRequest (message : String)
  | notFound (message : String)
  | internal (message : String)

inductive Status where
  | invalidArgument (status : Subscribe.Status)
  | internal (message : String)

section

variable {Row Dto Columns Pb : Type} (R : Endpoints Row Dto Columns Pb)

/-- `latest`, `funding_latest` and `funding_event_latest` over REST. -/
def restLatest (ask : InstrumentId → Except CoreError (Option Row)) (ex sym : String) :
    LatestResponse Dto :=
  match parseId ex sym with
  | .error e => .badRequest e
  | .ok id =>
    match ask id with
    | .ok (some row) => .ok (R.series.dto row)
    | .ok none => .notFound R.noData
    | .error e => .internal (CoreError.text e)

/-- `latest`, `latest_funding` and `latest_funding_event` over gRPC, from the instrument of this
number on. The repository is asked for one after the other. -/
def grpcLatest (ask : ℕ → InstrumentId → Except CoreError (Option Row)) :
    ℕ → List PbInstrument → Except Status (List Pb)
  | _, [] => .ok []
  | n, pi :: rest =>
    match pbToId pi with
    | .error status => .error (.invalidArgument status)
    | .ok id =>
      match ask n id with
      | .ok found => (grpcLatest ask (n + 1) rest).map ((found.map R.message).toList ++ ·)
      | .error e => .error (.internal (CoreError.text e))

/-- `range`, `funding_range` and `funding_event_range` over gRPC: the messages that the task of the
stream sends. -/
def grpcRange (rangeError : String) (ask : InstrumentId → Int → Int → Except CoreError (List Row))
    (instrument : Option PbInstrument) (fromTs toTs : Option Timestamp) :
    Except Status (List Pb) :=
  match instrument with
  | none => .error (.invalidArgument (.invalidArgument "instrument required"))
  | some pi =>
    match pbToId pi with
    | .error status => .error (.invalidArgument status)
    | .ok id =>
      match pbTs rangeError fromTs with
      | .error status => .error (.invalidArgument status)
      | .ok fromTs =>
        match pbTs rangeError toTs with
        | .error status => .error (.invalidArgument status)
        | .ok toTs =>
          match ask id fromTs.nanos toTs.nanos with
          | .error e => .error (.internal (CoreError.text e))
          | .ok rows => .ok (rows.map R.message)

end

def channelCapacity : ℕ := 512

/-! ## What a message says of its row -/

def exchangeOf (instrument : Option PbInstrument) : String := (instrument.map (·.exchange)).getD ""

def symbolOf (instrument : Option PbInstrument) : String := (instrument.map (·.symbol)).getD ""

def nanosOf (t : Timestamp) : Int := t.seconds * 1000000000 + t.nanos

def instantOf (t : Option Timestamp) : Int := (t.map nanosOf).getD 0

def unitOf : Int → String
  | 1 => "coins"
  | 2 => "contracts"
  | 3 => "usd"
  | _ => ""

def optOf (text : String) : Option String := if text = "" then none else some text

def hoursOf (hours : ℕ) : Option ℕ := if hours = 0 then none else some hours

/-- A decimal never prints as nothing. -/
structure Texts extends DecimalText where
  toText_ne_empty : ∀ d, toText d ≠ ""

section

variable (D : Texts) (rfc : Rfc3339)

def barObject (b : Bar) : BarDto where
  exchange := exchangeOf b.instrument
  symbol := symbolOf b.instrument
  bucketTs := rfc.format (instantOf b.bucketTs)
  firstRecvTs := rfc.format (instantOf b.firstRecvTs)
  lastRecvTs := rfc.format (instantOf b.lastRecvTs)
  samples := b.samples
  nativeUnit := unitOf b.nativeUnit
  nativeOpen := b.nativeOpen
  nativeHigh := b.nativeHigh
  nativeLow := b.nativeLow
  nativeClose := b.nativeClose
  oiCoinsOpen := optOf b.oiCoinsOpen
  oiCoinsHigh := optOf b.oiCoinsHigh
  oiCoinsLow := optOf b.oiCoinsLow
  oiCoinsClose := optOf b.oiCoinsClose
  oiUsdOpen := optOf b.oiUsdOpen
  oiUsdHigh := optOf b.oiUsdHigh
  oiUsdLow := optOf b.oiUsdLow
  oiUsdClose := optOf b.oiUsdClose
  priceUsedClose := optOf b.priceUsedClose

def fundingObject (b : Funding) : FundingDto where
  exchange := exchangeOf b.instrument
  symbol := symbolOf b.instrument
  bucketTs := rfc.format (instantOf b.bucketTs)
  recvTs := rfc.format (instantOf b.recvTs)
  rate := b.rate
  nextFundingTs := b.nextFundingTs.map fun t => rfc.format (nanosOf t)
  intervalHours := hoursOf b.intervalHours

def fundingEventObject (e : PbFundingEvent) : FundingEventDto where
  exchange := exchangeOf e.instrument
  symbol := symbolOf e.instrument
  settlementTs := rfc.format (instantOf e.settlementTs)
  rate := e.rate
  markPrice := optOf e.markPrice

/-- The messages do not tell an interval of zero hours from none. -/
def fundingTold (dto : FundingDto) : FundingDto :=
  { dto with intervalHours := dto.intervalHours.bind hoursOf }

theorem instantOf_tsToPb (t : Int) : instantOf (some (tsToPb t)) = t := tsToPb_sum t

theorem optOf_optToPb (d : Option Decimal) :
    optOf (optToPb D.toDecimalText d) = d.map D.toText := by
  cases d with
  | none => rfl
  | some d => exact if_neg (D.toText_ne_empty d)

theorem unitOf_unitToPb (u : UnitKind) :
    unitOf (unitToPb u).number = Storage.ClickHouse.unitCode u := by
  cases u <;> rfl

def oi : Endpoints OiSnapshot BarDto OiColumns Bar where
  series := oiSeries D.toDecimalText rfc
  noData := "no data"
  message := snapToBar D.toDecimalText
  object := barObject rfc
  told := id
  object_message s := by
    simp only [barObject, snapToBar, oiSeries, BarDto.ofSnapshot, instantOf_tsToPb, optOf_optToPb,
      unitOf_unitToPb, id]
    rfl

def funding : Endpoints FundingBar FundingDto FundingColumns Funding where
  series := fundingSeries D.toDecimalText rfc
  noData := "no funding data"
  message := fundingToPb D.toDecimalText
  object := fundingObject rfc
  told := fundingTold
  object_message b := by
    have hnext : (b.nextFundingTs.map tsToPb).map (fun t => rfc.format (nanosOf t)) =
        b.nextFundingTs.map rfc.format := by
      cases b.nextFundingTs with
      | none => rfl
      | some t => exact congrArg (fun t => some (rfc.format t)) (tsToPb_sum t)
    have hhours : hoursOf (b.intervalHours.getD 0) = b.intervalHours.bind hoursOf := by
      cases b.intervalHours <;> rfl
    simp only [fundingObject, fundingToPb, fundingSeries, FundingDto.ofBar, fundingTold,
      instantOf_tsToPb, hnext, hhours]
    rfl

def fundingEvent : Endpoints FundingEvent FundingEventDto Empty PbFundingEvent where
  series := fundingEventSeries D.toDecimalText rfc
  noData := "no settlement events"
  message := fundingEventToPb D.toDecimalText
  object := fundingEventObject rfc
  told := id
  object_message e := by
    simp only [fundingEventObject, fundingEventToPb, fundingEventSeries, FundingEventDto.ofEvent,
      instantOf_tsToPb, optOf_optToPb, id]
    rfl

end

/-! ## Latest values -/

/-- Two failures of one cause. -/
inductive SameFailure {Dto : Type} : Status → LatestResponse Dto → Prop where
  | badRequest (e : String) :
    SameFailure (.invalidArgument (.invalidArgument ("exchange: " ++ e))) (.badRequest e)
  | internal (e : String) : SameFailure (.internal e) (.internal e)

/-- The objects of the responses, or the first failure. No data is no failure. -/
def gather {Dto : Type} : List (LatestResponse Dto) → Except (LatestResponse Dto) (List Dto)
  | [] => .ok []
  | .ok dto :: rest => (gather rest).map (dto :: ·)
  | .notFound _ :: rest => gather rest
  | .badRequest e :: _ => .error (.badRequest e)
  | .internal e :: _ => .error (.internal e)

section

variable {Row Dto Columns Pb : Type} (R : Endpoints Row Dto Columns Pb)

/-- One request over REST for each instrument, from this number on. -/
def restAll (ask : ℕ → InstrumentId → Except CoreError (Option Row)) :
    ℕ → List PbInstrument → List (LatestResponse Dto)
  | _, [] => []
  | n, pi :: rest => restLatest R (ask n) pi.exchange pi.symbol :: restAll ask (n + 1) rest

/-- The messages carry what the objects carry, or both interfaces fail for one cause. -/
inductive LatestAgree : Except Status (List Pb) → Except (LatestResponse Dto) (List Dto) → Prop where
  | rows {messages : List Pb} {dtos : List Dto}
    (h : messages.map R.object = dtos.map R.told) : LatestAgree (.ok messages) (.ok dtos)
  | fails {status : Status} {response : LatestResponse Dto} (h : SameFailure status response) :
    LatestAgree (.error status) (.error response)

variable {R}

theorem LatestAgree.cons {messages : Except Status (List Pb)}
    {dtos : Except (LatestResponse Dto) (List Dto)} (h : LatestAgree R messages dtos) (row : Row) :
    LatestAgree R (messages.map ([R.message row] ++ ·)) (dtos.map (R.series.dto row :: ·)) := by
  cases h with
  | @rows messages dtos h =>
    refine .rows ?_
    change R.object (R.message row) :: messages.map R.object =
      R.told (R.series.dto row) :: dtos.map R.told
    rw [R.object_message, h]
  | fails h => exact .fails h

/-- Both interfaces read the name of an instrument alike. -/
theorem same_instrument (pi : PbInstrument) :
    (∃ e, pbToId pi = .error (.invalidArgument ("exchange: " ++ e)) ∧
      parseId pi.exchange pi.symbol = .error e) ∨
    ∃ id, pbToId pi = .ok id ∧ parseId pi.exchange pi.symbol = .ok id := by
  unfold pbToId parseId
  cases Exchange.fromStr pi.exchange with
  | error e => exact .inl ⟨e, rfl, rfl⟩
  | ok ex => exact .inr ⟨⟨ex, pi.symbol⟩, rfl, rfl⟩

/-- A call over gRPC answers what one call over REST for each of its instruments answers. -/
theorem latestAgree (R : Endpoints Row Dto Columns Pb)
    (ask : ℕ → InstrumentId → Except CoreError (Option Row)) (n : ℕ)
    (instruments : List PbInstrument) :
    LatestAgree R (grpcLatest R ask n instruments) (gather (restAll R ask n instruments)) := by
  induction instruments generalizing n with
  | nil => exact .rows rfl
  | cons pi rest ih =>
    unfold grpcLatest restAll restLatest
    rcases same_instrument pi with ⟨e, hpb, hrest⟩ | ⟨id, hpb, hrest⟩
    · rw [hpb, hrest]
      exact .fails (.badRequest e)
    · simp only [hpb, hrest]
      cases ask n id with
      | error e => exact .fails (.internal _)
      | ok found =>
        cases found with
        | some row => exact (ih (n + 1)).cons row
        | none =>
          have hnone : (grpcLatest R ask (n + 1) rest).map (([] : List Pb) ++ ·) =
              grpcLatest R ask (n + 1) rest := by
            cases grpcLatest R ask (n + 1) rest <;> rfl
          change LatestAgree R ((grpcLatest R ask (n + 1) rest).map (([] : List Pb) ++ ·)) _
          rw [hnone]
          exact ih (n + 1)

end

/-- For each of the three series: a call over gRPC for the latest values of any instruments carries
what the calls over REST for them carry, in order and without those that have no data, and fails as
the first of them that fails. -/
theorem latest_values_agree (D : Texts) (rfc : Rfc3339) (instruments : List PbInstrument) :
    (∀ ask, LatestAgree (oi D rfc) (grpcLatest (oi D rfc) ask 0 instruments)
      (gather (restAll (oi D rfc) ask 0 instruments))) ∧
    (∀ ask, LatestAgree (funding D rfc) (grpcLatest (funding D rfc) ask 0 instruments)
      (gather (restAll (funding D rfc) ask 0 instruments))) ∧
    ∀ ask, LatestAgree (fundingEvent D rfc) (grpcLatest (fundingEvent D rfc) ask 0 instruments)
      (gather (restAll (fundingEvent D rfc) ask 0 instruments)) :=
  ⟨fun _ => latestAgree .., fun _ => latestAgree .., fun _ => latestAgree ..⟩

/-! ## Ranges -/

/-- Both requests name the same instants, or instants that cannot be read. -/
structure SameInstants (rfc : Rfc3339) (rangeError : String) (q : RangeQuery)
    (fromTs toTs : Option Timestamp) : Prop where
  fromTs : (rfc.parse q.fromTs).toOption = (pbTs rangeError fromTs).toOption.map (·.nanos)
  toTs : (rfc.parse q.toTs).toOption = (pbTs rangeError toTs).toOption.map (·.nanos)

section

variable {Row Dto Columns Pb : Type} (R : Endpoints Row Dto Columns Pb)

inductive RangeAgree : Except Status (List Pb) → Response Dto Columns → Prop where
  | rows {messages : List Pb} {dtos : List Dto}
    (h : messages.map R.object = dtos.map R.told) : RangeAgree (.ok messages) (.ok (.rows dtos))
  | refused (status : Subscribe.Status) (message : String) :
    RangeAgree (.error (.invalidArgument status)) (.badRequest message)
  | internal (e : String) : RangeAgree (.error (.internal e)) (.internal e)

/-- The client of the stream. If it stays, the task returns after it has sent it everything. -/
structure Carries (dtos : List Dto) (s : Outbox.Channel Pb) : Prop where
  bounded : s.queue.length ≤ channelCapacity
  part : s.received.map R.object <+: dtos.map R.told
  whole : s.gone = false → s.running = false →
    (s.received ++ s.queue).map R.object = dtos.map R.told
  ends : s.gone = false → ∃ acts t, run (Outbox.step channelCapacity) s acts = some t ∧
    t.running = false ∧ t.received.map R.object = dtos.map R.told

variable {R}

theorem same_instant {rfc : Rfc3339} {rangeError text : String} {t : Option Timestamp}
    (h : (rfc.parse text).toOption = (pbTs rangeError t).toOption.map (·.nanos)) :
    (∃ status e, pbTs rangeError t = .error status ∧ parseRfc3339 rfc text = .error e) ∨
    ∃ instant, pbTs rangeError t = .ok instant ∧ parseRfc3339 rfc text = .ok instant.nanos := by
  unfold parseRfc3339
  revert h
  cases rfc.parse text with
  | error e =>
    cases pbTs rangeError t with
    | error status => exact fun _ => .inl ⟨status, _, rfl, rfl⟩
    | ok instant =>
      intro h
      cases h
  | ok nanos =>
    cases pbTs rangeError t with
    | error status =>
      intro h
      cases h
    | ok instant =>
      intro h
      obtain rfl := Option.some.inj h
      exact .inr ⟨instant, rfl, rfl⟩

/-- A range over gRPC has the rows of the range over REST. -/
theorem rangeAgree {rfc : Rfc3339} {rangeError : String} {q : RangeQuery}
    {fromTs toTs : Option Timestamp} (h : SameInstants rfc rangeError q fromTs toTs)
    (hfmt : q.fmt ≠ some "col") (R : Endpoints Row Dto Columns Pb)
    (ask : InstrumentId → Int → Int → Except CoreError (List Row)) (pi : PbInstrument) :
    RangeAgree R (grpcRange R rangeError ask (some pi) fromTs toTs)
      (rangeOf R.series rfc ask pi.exchange pi.symbol q) := by
  unfold grpcRange rangeOf
  rcases same_instrument pi with ⟨e, hpb, hrest⟩ | ⟨id, hpb, hrest⟩
  · simp only [hpb, hrest]
    exact .refused _ _
  rcases same_instant h.fromTs with ⟨status, e, hpbFrom, hfrom⟩ | ⟨start, hpbFrom, hfrom⟩
  · simp only [hpb, hrest, hpbFrom, hfrom]
    exact .refused _ _
  rcases same_instant h.toTs with ⟨status, e, hpbTo, hto⟩ | ⟨stop, hpbTo, hto⟩
  · simp only [hpb, hrest, hpbFrom, hfrom, hpbTo, hto]
    exact .refused _ _
  simp only [hpb, hrest, hpbFrom, hfrom, hpbTo, hto]
  cases ask id start.nanos stop.nanos with
  | error e => exact .internal _
  | ok rows =>
    have hbody : R.series.body q.fmt rows = .rows (rows.map R.series.dto) := by
      rw [Series.body, Series.columnar, if_neg hfmt]
    dsimp only
    rw [hbody]
    refine .rows ?_
    rw [List.map_map, List.map_map]
    exact List.map_congr_left fun row _ => R.object_message row

theorem carries_of_delivers {messages : List Pb} {dtos : List Dto}
    (hsame : messages.map R.object = dtos.map R.told) {s : Outbox.Channel Pb}
    (h : Outbox.Delivers channelCapacity messages s) : Carries R dtos s where
  bounded := h.bounded
  part := by
    rw [← hsame]
    exact h.part.map R.object
  whole hthere hreturned := by
    have hall := h.all hthere
    rw [h.returned hthere hreturned, List.append_nil] at hall
    rw [hall, hsame]
  ends hthere := by
    have hroom : 0 < channelCapacity := by decide
    obtain ⟨acts, t, hrun, hreceived, hended⟩ := Outbox.run_drain hroom s hthere (h.returned hthere)
    exact ⟨acts, t, hrun, hended, by rw [hreceived, h.all hthere, hsame]⟩

variable (R)

/-- Both interfaces agree on a range, and the stream carries its rows. -/
structure Streams (messages : Except Status (List Pb)) (response : Response Dto Columns) : Prop where
  agree : RangeAgree R messages response
  carries : ∀ sent dtos, messages = .ok sent → response = .ok (.rows dtos) → ∀ acts,
    Throughout (Outbox.step channelCapacity) (Carries R dtos) (Outbox.start sent) acts

variable {R}

theorem streams_of_agree {messages : Except Status (List Pb)} {response : Response Dto Columns}
    (h : RangeAgree R messages response) : Streams R messages response where
  agree := h
  carries sent dtos hsent hdtos acts := by
    subst hsent hdtos
    cases h with
    | rows hsame =>
      exact throughout_of_step (fun _ _ _ h hstep => Outbox.delivers_step h hstep)
        (fun _ h => carries_of_delivers hsame h) (Outbox.delivers_start sent)

end

/-- For each of the three series: a range over gRPC and a range in rows over REST for the same
instrument and instants have the same rows or fail alike. However the task of the stream and its
client interleave, the client has received a first part of these rows in order, and all of them
once the task has returned and nothing waits. It can always get there. -/
theorem range_streams_agree (D : Texts) (rfc : Rfc3339) (rangeError : String) (pi : PbInstrument)
    (q : RangeQuery) (fromTs toTs : Option Timestamp) (hfmt : q.fmt ≠ some "col")
    (hsame : SameInstants rfc rangeError q fromTs toTs) :
    (∀ ask, Streams (oi D rfc) (grpcRange (oi D rfc) rangeError ask (some pi) fromTs toTs)
      (range D.toDecimalText rfc ask pi.exchange pi.symbol q)) ∧
    (∀ ask, Streams (funding D rfc)
      (grpcRange (funding D rfc) rangeError ask (some pi) fromTs toTs)
      (fundingRange D.toDecimalText rfc ask pi.exchange pi.symbol q)) ∧
    ∀ ask, Streams (fundingEvent D rfc)
      (grpcRange (fundingEvent D rfc) rangeError ask (some pi) fromTs toTs)
      (fundingEventRange D.toDecimalText rfc ask pi.exchange pi.symbol q) :=
  ⟨fun ask => streams_of_agree (rangeAgree hsame hfmt (oi D rfc) ask pi),
    fun ask => streams_of_agree (rangeAgree hsame hfmt (funding D rfc) ask pi),
    fun ask => streams_of_agree (rangeAgree hsame hfmt (fundingEvent D rfc) ask pi)⟩

def plainTexts : Texts where
  toDecimalText := .plain
  toText_ne_empty := toText_ne_empty fun d h => by cases h

theorem rate_fits : 1 < 2 ^ 96 := by decide

def settledAt (ts : Int) : FundingEvent := ⟨⟨.binance, "BTCUSDT"⟩, ts, .ofNat 1 rate_fits, none⟩

/-- Reads the epoch and the settlement after it. -/
def sampleRfc3339 : Rfc3339 := .reading [0, Time.seconds 28800]

/-- Two settlements, eight hours apart. A client that stays receives both. -/
theorem two_events_stream :
    ∃ sent dtos,
      grpcRange (fundingEvent plainTexts sampleRfc3339) "" (fun _ _ _ => .ok
        [settledAt 0, settledAt (Time.seconds 28800)]) (some ⟨"binance", "BTCUSDT"⟩) (some ⟨0, 0⟩)
        (some ⟨28800, 0⟩) = .ok sent ∧
      fundingEventRange .plain sampleRfc3339 (fun _ _ _ => .ok
        [settledAt 0, settledAt (Time.seconds 28800)]) "binance" "BTCUSDT"
        ⟨"1970-01-01T00:00:00Z", "1970-01-01T08:00:00Z", none⟩ = .ok (.rows dtos) ∧
      dtos.map (·.settlementTs) = ["1970-01-01T00:00:00Z", "1970-01-01T08:00:00Z"] ∧
      ∃ acts t, run (Outbox.step channelCapacity) (Outbox.start sent) acts = some t ∧
        t.running = false ∧
        t.received.map (fundingEvent plainTexts sampleRfc3339).object = dtos := by
  let rows : List FundingEvent := [settledAt 0, settledAt (Time.seconds 28800)]
  have hsame : SameInstants sampleRfc3339 "" ⟨"1970-01-01T00:00:00Z", "1970-01-01T08:00:00Z", none⟩
      (some ⟨0, 0⟩) (some ⟨28800, 0⟩) := ⟨by decide +kernel, by decide +kernel⟩
  have hstreams := (range_streams_agree plainTexts sampleRfc3339 "" ⟨"binance", "BTCUSDT"⟩ _ _ _
    (by decide) hsame).2.2 fun _ _ _ => .ok rows
  have hsent : grpcRange (fundingEvent plainTexts sampleRfc3339) "" (fun _ _ _ => .ok rows)
      (some ⟨"binance", "BTCUSDT"⟩) (some ⟨0, 0⟩) (some ⟨28800, 0⟩) =
      .ok (rows.map (fundingEvent plainTexts sampleRfc3339).message) := by rfl
  have hdtos : fundingEventRange .plain sampleRfc3339 (fun _ _ _ => .ok rows) "binance" "BTCUSDT"
      ⟨"1970-01-01T00:00:00Z", "1970-01-01T08:00:00Z", none⟩ =
      .ok (.rows (rows.map (fundingEvent plainTexts sampleRfc3339).series.dto)) := by
    have hid : parseId "binance" "BTCUSDT" = .ok ⟨.binance, "BTCUSDT"⟩ := rfl
    have hfrom : parseRfc3339 sampleRfc3339 "1970-01-01T00:00:00Z" = .ok 0 := by decide +kernel
    have hto : parseRfc3339 sampleRfc3339 "1970-01-01T08:00:00Z" = .ok (Time.seconds 28800) := by
      decide +kernel
    unfold fundingEventRange rangeOf
    rw [hid]
    dsimp only
    rw [hfrom]
    dsimp only
    rw [hto]
    rfl
  refine ⟨_, _, hsent, hdtos, by decide +kernel, ?_⟩
  obtain ⟨acts, t, hrun, hended, hreceived⟩ := (hstreams.carries _ _ hsent hdtos []).ends rfl
  exact ⟨acts, t, hrun, hended, hreceived.trans (List.map_id _)⟩

end OiTerminal.Api.Reads
