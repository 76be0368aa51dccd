import OiTerminal.Core.Snapshot
import OiTerminal.Lib.Batch
import OiTerminal.Storage.Composite
import OiTerminal.Api.Auth

/-!
# Subscriptions over WebSocket and gRPC

Both endpoints keep a set of instruments, an empty one standing for the firehose, and
forward what passes it. The WebSocket handler reads its set from a query string and leaves
out what it cannot read; the gRPC method refuses such a request.
-/
namespace OiTerminal.Api.Subscribe

open OiTerminal.Core
open OiTerminal.Api.Auth
open OiTerminal.Lib

set_option autoImplicit false

structure SubscribeParams where
  instruments : Option String
  token : Option String

/-- Both filters of the source: `!filter.is_empty() && !filter.contains(..)`. -/
def skips (filter : List InstrumentId) (bar : OiSnapshot) : Bool :=
  !filter.isEmpty && !filter.contains bar.instrument

/-- `splitn(2, ':')`: what stands before the first colon, and the rest if there is one. -/
def splitn2 (s : List Char) : List Char × Option (List Char) :=
  match s.dropWhile (· ≠ ':') with
  | [] => (s, none)
  | _ :: rest => (s.takeWhile (· ≠ ':'), some rest)

def parseInstrument (s : String) : Option InstrumentId :=
  match splitn2 s.toList with
  | (_, none) => none
  | (ex, some sym) =>
    match Exchange.fromStr (String.ofList ex) with
    | .error _ => none
    | .ok exchange => some ⟨exchange, String.ofList sym⟩

/-- `split(',')`. -/
def entries (query : String) : List String := (query.toList.splitOn ',').map String.ofList

def authorized (auth : Option AuthState) (token : Option String) : Bool :=
  match auth with
  | none => true
  | some auth => (token.map auth.accepts).getD false

def wsSubscribeHandler (auth : Option AuthState) (params : SubscribeParams) :
    Except (Nat × String) (List InstrumentId) :=
  if !authorized auth params.token then .error (401, "missing or invalid token")
  else .ok <|
    ((entries (params.instruments.getD "")).filter fun s => !s.isEmpty).filterMap parseInstrument

/-- What one turn of the socket loop meets. A frame that is sent too late, or to a socket
that is gone, ends the loop. -/
inductive SocketEvent where
  | clientClosed
  | clientFrame
  | heartbeat (timedOut : Bool)
  | lagged (skipped : Nat)
  | busClosed
  | snap (bar : OiSnapshot) (encodes sent : Bool)

/-- The snapshots that are given to the socket. -/
def handleSocket (filter : List InstrumentId) : List SocketEvent → List OiSnapshot
  | [] => []
  | .clientClosed :: _ => []
  | .busClosed :: _ => []
  | .clientFrame :: rest => handleSocket filter rest
  | .lagged _ :: rest => handleSocket filter rest
  | .heartbeat timedOut :: rest => if timedOut then [] else handleSocket filter rest
  | .snap bar encodes sent :: rest =>
    if skips filter bar then handleSocket filter rest
    else if !encodes then handleSocket filter rest
    else if !sent then [bar]
    else bar :: handleSocket filter rest

def wsForwarded (auth : Option AuthState) (params : SubscribeParams)
    (events : List SocketEvent) : List OiSnapshot :=
  match wsSubscribeHandler auth params with
  | .error _ => []
  | .ok filter => handleSocket filter events

structure PbInstrument where
  exchange : String
  symbol : String
  deriving DecidableEq

inductive Status where
  | invalidArgument (message : String)
  deriving DecidableEq

def pbToId (pi : PbInstrument) : Except Status InstrumentId :=
  match Exchange.fromStr pi.exchange with
  | .error e => .error (.invalidArgument ("exchange: " ++ e))
  | .ok ex => .ok ⟨ex, pi.symbol⟩

/-- The loop of the stream that gRPC returns. The flag says whether the client is there. -/
def forwardBars (filter : List InstrumentId) : List (OiSnapshot × Bool) → List OiSnapshot
  | [] => []
  | (bar, connected) :: rest =>
    if skips filter bar then forwardBars filter rest
    else if !connected then []
    else bar :: forwardBars filter rest

def subscribe (instruments : List PbInstrument) (stream : List (OiSnapshot × Bool)) :
    Except Status (List OiSnapshot) :=
  match instruments.mapM pbToId with
  | .error status => .error status
  | .ok filters => .ok (forwardBars filters stream)

/-- An entry of the query denotes an instrument: the exchange in any case, a colon and the
symbol. -/
def Denotes (entry : String) (id : InstrumentId) : Prop :=
  ∃ ex, Exchange.asciiLowercase ex = id.exchange.code ∧ entry = ex ++ ":" ++ id.symbol

/-- How a requested instrument is written in a query. -/
def PbInstrument.entry (pi : PbInstrument) : String := pi.exchange ++ ":" ++ pi.symbol

/-- The query asks for these instruments, one in each entry. The first colon of an entry
ends the name of the exchange. -/
def Lists (query : String) (instruments : List PbInstrument) : Prop :=
  if query = "" then instruments = []
  else entries query = instruments.map PbInstrument.entry ∧
    ∀ pi ∈ instruments, ':' ∉ pi.exchange.toList

/-- A snapshot that finds the socket open. -/
def delivered (bar : OiSnapshot) : SocketEvent := .snap bar true true

/-- What a subscription with this query promises, and how it compares with the gRPC method
asked for the same instruments. -/
structure Faithful (instruments : Option String) : Prop where
  sound : instruments.getD "" ≠ "" → ∀ auth token events,
    ∀ bar ∈ wsForwarded auth ⟨instruments, token⟩ events,
      ∃ entry ∈ entries (instruments.getD ""), Denotes entry bar.instrument
  firehose : instruments.getD "" = "" → ∀ auth token, authorized auth token = true →
    ∀ stream : List OiSnapshot,
      wsForwarded auth ⟨instruments, token⟩ (stream.map delivered) = stream
  agrees : ∀ requested, Lists (instruments.getD "") requested →
    ∀ auth token, authorized auth token = true → ∀ (stream : List OiSnapshot) forwarded,
      subscribe requested (stream.map fun bar => (bar, true)) = .ok forwarded →
        wsForwarded auth ⟨instruments, token⟩ (stream.map delivered) = forwarded
  narrow : ∀ requested, Lists (instruments.getD "") requested →
    ∀ bars status, subscribe requested bars = .error status →
      ∀ auth token events, ∀ bar ∈ wsForwarded auth ⟨instruments, token⟩ events,
        ∃ pi ∈ requested, pbToId pi = .ok bar.instrument

variable {filter : List InstrumentId} {bar : OiSnapshot}

theorem skips_eq_false (h : filter ≠ []) :
    skips filter bar = false ↔ bar.instrument ∈ filter := by
  unfold skips
  simp [h]

/-- Whatever happens on the socket, a frame has passed the filter. -/
theorem skips_of_mem_handleSocket {events : List SocketEvent}
    (h : bar ∈ handleSocket filter events) : skips filter bar = false := by
  induction events with
  | nil => cases h
  | cons event rest ih =>
    cases event with
    | clientClosed => cases h
    | busClosed => cases h
    | clientFrame => exact ih h
    | lagged skipped => exact ih h
    | heartbeat timedOut =>
      unfold handleSocket at h
      split at h
      · cases h
      · exact ih h
    | snap next encodes sent =>
      unfold handleSocket at h
      split at h
      · exact ih h
      case isFalse hpass =>
        have hnext : skips filter next = false := Bool.eq_false_iff.mpr hpass
        split at h
        · exact ih h
        split at h
        · rw [List.mem_singleton.mp h]
          exact hnext
        · rcases List.mem_cons.mp h with rfl | hrest
          · exact hnext
          · exact ih hrest

/-- Both loops filter the stream, as long as nothing is lost. -/
theorem handleSocket_delivered (filter : List InstrumentId) (stream : List OiSnapshot) :
    handleSocket filter (stream.map delivered) = stream.filter fun bar => !skips filter bar := by
  induction stream with
  | nil => rfl
  | cons bar rest ih =>
    rw [List.map_cons, List.filter_cons, ← ih, delivered, handleSocket]
    cases skips filter bar <;> rfl

theorem forwardBars_connected (filter : List InstrumentId) (stream : List OiSnapshot) :
    forwardBars filter (stream.map fun bar => (bar, true)) =
      stream.filter fun bar => !skips filter bar := by
  induction stream with
  | nil => rfl
  | cons bar rest ih =>
    rw [List.map_cons, List.filter_cons, ← ih, forwardBars]
    cases skips filter bar <;> rfl

/-- A string with a colon is split at the first one. -/
theorem splitn2_append {front rest : List Char} (h : ':' ∉ front) :
    splitn2 (front ++ ':' :: rest) = (front, some rest) := by
  have hfront : ∀ c ∈ front, decide (c ≠ ':') = true := by
    intro c hc
    exact decide_eq_true fun hcolon => h (hcolon ▸ hc)
  unfold splitn2
  rw [List.dropWhile_append_of_pos hfront, List.takeWhile_append_of_pos hfront]
  simp

/-- Where a rest comes out, a colon stood before it. -/
theorem eq_append_of_splitn2 {s front rest : List Char}
    (h : splitn2 s = (front, some rest)) : s = front ++ ':' :: rest := by
  have hsplit : s.takeWhile (· ≠ ':') ++ s.dropWhile (· ≠ ':') = s :=
    List.takeWhile_append_dropWhile
  unfold splitn2 at h
  split at h
  · cases h
  case h_2 c tail hdrop =>
    obtain ⟨rfl, htail⟩ := Prod.mk.inj h
    obtain rfl := Option.some.inj htail
    have hhead := List.head?_dropWhile_not (· ≠ ':') s
    rw [hdrop] at hhead
    obtain rfl : c = ':' := of_decide_eq_true (by simpa using hhead)
    rw [← hdrop, hsplit]

/-- The parser reads exactly the entries that denote an instrument. -/
theorem parseInstrument_eq_some {entry : String} {id : InstrumentId} :
    parseInstrument entry = some id ↔ Denotes entry id := by
  constructor
  · intro h
    unfold parseInstrument at h
    split at h
    · cases h
    case h_2 ex sym hsplit =>
      split at h
      · cases h
      case h_2 exchange hexchange =>
        obtain rfl := Option.some.inj h
        refine ⟨String.ofList ex, Exchange.fromStr_eq_ok.mp hexchange, ?_⟩
        apply String.toList_injective
        rw [eq_append_of_splitn2 hsplit]
        simp [String.toList_append]
  · rintro ⟨ex, hcode, rfl⟩
    have hok : Exchange.fromStr ex = .ok id.exchange := Exchange.fromStr_eq_ok.mpr hcode
    have hfront : ':' ∉ ex.toList := fun hmem => Exchange.no_colon_of_fromStr hok ':' hmem rfl
    have hsplit : splitn2 (ex ++ ":" ++ id.symbol).toList =
        (ex.toList, some id.symbol.toList) := by
      rw [String.toList_append, String.toList_append, List.append_assoc]
      exact splitn2_append hfront
    unfold parseInstrument
    rw [hsplit]
    dsimp only
    rw [String.ofList_toList, String.ofList_toList, hok]

/-- An instrument has its own key, in Redis too, and its key reads back as the instrument, with
the exchange in any case. -/
theorem key_unambiguous :
    (∀ id id' : InstrumentId, id.key = id'.key → id = id') ∧
    (∀ id id' : InstrumentId, Storage.Composite.latestKey id = Storage.Composite.latestKey id' →
      id = id') ∧
    (∀ id : InstrumentId, parseInstrument id.key = some id) ∧
    ∀ (id : InstrumentId) (ex : String),
      Exchange.asciiLowercase ex = Exchange.asciiLowercase id.exchange.code →
        parseInstrument (ex ++ ":" ++ id.symbol) = some id := by
  have hlower : ∀ e : Exchange, Exchange.asciiLowercase e.code = e.code := fun e =>
    Exchange.fromStr_eq_ok.mp (Exchange.fromStr_code e)
  refine ⟨?key, ?redis, ?reads, ?anyCase⟩
  case key => exact fun _ _ => InstrumentId.key_injective
  case redis => exact fun _ _ => Storage.Composite.latestKey_injective
  case reads =>
    intro id
    exact parseInstrument_eq_some.mpr ⟨id.exchange.code, hlower _, rfl⟩
  case anyCase =>
    intro id ex hex
    rw [hlower] at hex
    exact parseInstrument_eq_some.mpr ⟨ex, hex, rfl⟩

theorem key_with_colons_read : parseInstrument "OKX:BTC:USDT" = some ⟨.okx, "BTC:USDT"⟩ :=
  key_unambiguous.2.2.2 ⟨.okx, "BTC:USDT"⟩ "OKX" (by decide)

/-- A requested instrument is read by gRPC as its entry is by the WebSocket handler. -/
theorem pbToId_eq_ok {pi : PbInstrument} {id : InstrumentId} :
    pbToId pi = .ok id ↔
      Exchange.asciiLowercase pi.exchange = id.exchange.code ∧ pi.symbol = id.symbol := by
  rw [← Exchange.fromStr_eq_ok]
  unfold pbToId
  cases hexchange : Exchange.fromStr pi.exchange with
  | error e => simp
  | ok ex =>
    cases id
    simp

theorem denotes_entry {pi : PbInstrument} {id : InstrumentId} (h : ':' ∉ pi.exchange.toList) :
    Denotes pi.entry id ↔ pbToId pi = .ok id := by
  rw [pbToId_eq_ok]
  constructor
  · rintro ⟨ex, hcode, hentry⟩
    have hok : Exchange.fromStr ex = .ok id.exchange := Exchange.fromStr_eq_ok.mpr hcode
    have hex : ':' ∉ ex.toList := fun hmem => Exchange.no_colon_of_fromStr hok ':' hmem rfl
    have hsplit : splitn2 pi.entry.toList = splitn2 (ex ++ ":" ++ id.symbol).toList := by
      rw [hentry]
    unfold PbInstrument.entry at hsplit
    simp only [String.toList_append, List.append_assoc] at hsplit
    change splitn2 (pi.exchange.toList ++ ':' :: pi.symbol.toList) =
      splitn2 (ex.toList ++ ':' :: id.symbol.toList) at hsplit
    rw [splitn2_append h, splitn2_append hex] at hsplit
    obtain ⟨hexchange, hsymbol⟩ := Prod.mk.inj hsplit
    obtain rfl := String.toList_injective hexchange
    exact ⟨hcode, String.toList_injective (Option.some.inj hsymbol)⟩
  · rintro ⟨hcode, hsymbol⟩
    refine ⟨pi.exchange, hcode, ?_⟩
    rw [← hsymbol]
    rfl

theorem not_denotes_empty (id : InstrumentId) : ¬ Denotes "" id := by
  rintro ⟨ex, _, hentry⟩
  have htext := congrArg String.toList hentry
  simp at htext

theorem mem_filterMap_entries {query : String} {id : InstrumentId} :
    id ∈ ((entries query).filter fun s => !s.isEmpty).filterMap parseInstrument ↔
      ∃ entry ∈ entries query, Denotes entry id := by
  rw [List.mem_filterMap]
  constructor
  · rintro ⟨entry, hentry, hparse⟩
    exact ⟨entry, (List.mem_filter.mp hentry).1, parseInstrument_eq_some.mp hparse⟩
  · rintro ⟨entry, hentry, hdenotes⟩
    refine ⟨entry, List.mem_filter.mpr ⟨hentry, ?_⟩, parseInstrument_eq_some.mpr hdenotes⟩
    obtain ⟨ex, _, rfl⟩ := hdenotes
    simp

/-- Every list whose names and symbols leave the separators alone can be written as a
query. -/
theorem lists_intercalate {requested : List PbInstrument} (hne : requested ≠ [])
    (hcolon : ∀ pi ∈ requested, ':' ∉ pi.exchange.toList)
    (hcomma : ∀ pi ∈ requested, ',' ∉ pi.entry.toList) :
    Lists (String.ofList ([','].intercalate (requested.map (·.entry.toList)))) requested := by
  have hsplit : entries (String.ofList ([','].intercalate (requested.map (·.entry.toList)))) =
      requested.map PbInstrument.entry := by
    unfold entries
    rw [String.toList_ofList, List.splitOn_intercalate]
    · rw [List.map_map]
      exact List.map_congr_left fun pi _ => String.ofList_toList
    · intro l hl
      obtain ⟨pi, hpi, rfl⟩ := List.mem_map.mp hl
      exact hcomma pi hpi
    · simpa using hne
  have hquery : String.ofList ([','].intercalate (requested.map (·.entry.toList))) ≠ "" := by
    intro hempty
    obtain ⟨pi, hpi⟩ := List.exists_mem_of_ne_nil requested hne
    rw [hempty] at hsplit
    have hmem : pi.entry ∈ entries "" := hsplit ▸ List.mem_map_of_mem hpi
    have hentry := congrArg String.toList (List.mem_singleton.mp hmem)
    simp [PbInstrument.entry] at hentry
  unfold Lists
  rw [if_neg hquery]
  exact ⟨hsplit, hcolon⟩

/-- The set that gRPC builds from a request it accepts. -/
theorem mem_of_mapM_pbToId {instruments : List PbInstrument} {ids : List InstrumentId}
    (h : instruments.mapM pbToId = .ok ids) {id : InstrumentId} :
    id ∈ ids ↔ ∃ pi ∈ instruments, pbToId pi = .ok id := by
  obtain ⟨-, rfl⟩ := Batch.mapM_eq_ok_iff.mp h
  rw [List.mem_filterMap]
  refine exists_congr fun pi => and_congr_right fun _ => ?_
  cases pbToId pi with
  | error status => exact iff_of_false (fun h => nomatch h) fun h => nomatch h
  | ok first =>
    constructor
    · intro hid
      rw [Option.some.inj hid]
    · intro hid
      rw [Except.ok.inj hid]
      rfl

/-- Filters with the same members pass the same snapshots. -/
theorem skips_congr {filter' : List InstrumentId} (h : ∀ id, id ∈ filter ↔ id ∈ filter') :
    skips filter = skips filter' := by
  funext bar
  have hempty : filter = [] ↔ filter' = [] := by
    rw [List.eq_nil_iff_forall_not_mem, List.eq_nil_iff_forall_not_mem]
    exact forall_congr' fun id => not_congr (h id)
  by_cases hfilter : filter = []
  · rw [hfilter, hempty.mp hfilter]
  · rw [Bool.eq_iff_iff, ← not_iff_not, Bool.not_eq_true, Bool.not_eq_true,
      skips_eq_false hfilter, skips_eq_false (mt hempty.mpr hfilter)]
    exact h bar.instrument

variable {instruments : Option String} {auth : Option AuthState} {token : Option String}

/-- The set that the WebSocket handler builds for a client it lets in. -/
theorem wsSubscribeHandler_authorized (h : authorized auth token = true) :
    wsSubscribeHandler auth ⟨instruments, token⟩ = .ok
      (((entries (instruments.getD "")).filter fun s => !s.isEmpty).filterMap
        parseInstrument) := by
  unfold wsSubscribeHandler
  rw [h]
  rfl

/-- A forwarded snapshot has passed the set that the handler built. -/
theorem exists_filter_of_forwarded {events : List SocketEvent}
    (h : bar ∈ wsForwarded auth ⟨instruments, token⟩ events) :
    skips (((entries (instruments.getD "")).filter fun s => !s.isEmpty).filterMap
      parseInstrument) bar = false := by
  unfold wsForwarded at h
  cases hauth : authorized auth token with
  | false =>
    unfold wsSubscribeHandler at h
    rw [hauth] at h
    cases h
  | true =>
    rw [wsSubscribeHandler_authorized hauth] at h
    exact skips_of_mem_handleSocket h

/-- Where some entry can be read, only instruments that an entry denotes come through. -/
theorem denoted_of_forwarded {events : List SocketEvent}
    (hread : ∃ entry ∈ entries (instruments.getD ""), parseInstrument entry ≠ none)
    (h : bar ∈ wsForwarded auth ⟨instruments, token⟩ events) :
    ∃ entry ∈ entries (instruments.getD ""), Denotes entry bar.instrument := by
  have hpass := exists_filter_of_forwarded h
  obtain ⟨entry, hentry, hparse⟩ := hread
  obtain ⟨id, hid⟩ := Option.ne_none_iff_exists'.mp hparse
  have hmem := mem_filterMap_entries.mpr ⟨entry, hentry, parseInstrument_eq_some.mp hid⟩
  exact mem_filterMap_entries.mp ((skips_eq_false (List.ne_nil_of_mem hmem)).mp hpass)

/-- The entries of a query that lists the requested instruments denote what gRPC reads. -/
theorem denoted_iff_requested {query : String} {requested : List PbInstrument}
    (hquery : query ≠ "") (h : Lists query requested) {id : InstrumentId} :
    (∃ entry ∈ entries query, Denotes entry id) ↔ ∃ pi ∈ requested, pbToId pi = .ok id := by
  unfold Lists at h
  rw [if_neg hquery] at h
  rw [h.1]
  constructor
  · rintro ⟨entry, hentry, hdenotes⟩
    obtain ⟨pi, hpi, rfl⟩ := List.mem_map.mp hentry
    exact ⟨pi, hpi, (denotes_entry (h.2 pi hpi)).mp hdenotes⟩
  · rintro ⟨pi, hpi, hok⟩
    exact ⟨pi.entry, List.mem_map_of_mem hpi, (denotes_entry (h.2 pi hpi)).mpr hok⟩

/-- The set that gRPC builds has the members of the one that the handler builds. -/
theorem forwarded_eq_of_subscribe {requested : List PbInstrument} {stream : List OiSnapshot}
    {forwarded : List OiSnapshot} (hlists : Lists (instruments.getD "") requested)
    (hauth : authorized auth token = true)
    (h : subscribe requested (stream.map fun bar => (bar, true)) = .ok forwarded) :
    wsForwarded auth ⟨instruments, token⟩ (stream.map delivered) = forwarded := by
  unfold subscribe at h
  cases hids : requested.mapM pbToId with
  | error status =>
    rw [hids] at h
    cases h
  | ok ids =>
    rw [hids] at h
    obtain rfl := Except.ok.inj h
    unfold wsForwarded
    rw [wsSubscribeHandler_authorized hauth, forwardBars_connected]
    dsimp only
    rw [handleSocket_delivered, skips_congr]
    intro id
    rw [mem_of_mapM_pbToId hids, mem_filterMap_entries]
    by_cases hquery : instruments.getD "" = ""
    · unfold Lists at hlists
      rw [if_pos hquery] at hlists
      subst hlists
      rw [hquery]
      constructor
      · rintro ⟨entry, hentry, hdenotes⟩
        obtain rfl : entry = "" := List.mem_singleton.mp hentry
        exact absurd hdenotes (not_denotes_empty id)
      · rintro ⟨pi, hpi, _⟩
        cases hpi
    · exact denoted_iff_requested hquery hlists

/-- The empty query passes everything on. -/
theorem forwarded_of_empty (hquery : instruments.getD "" = "")
    (hauth : authorized auth token = true) (stream : List OiSnapshot) :
    wsForwarded auth ⟨instruments, token⟩ (stream.map delivered) = stream := by
  unfold wsForwarded
  rw [wsSubscribeHandler_authorized hauth, hquery]
  exact (handleSocket_delivered [] stream).trans (List.filter_eq_self.mpr fun _ _ => rfl)

/-- With no readable entry the set that the handler builds is empty: any bar comes through,
so some entry would have to denote its instrument. -/
theorem not_faithful_of_unread (hquery : instruments.getD "" ≠ "")
    (hunread : ¬ ∃ entry ∈ entries (instruments.getD ""), parseInstrument entry ≠ none) :
    ¬ Faithful instruments := by
  intro h
  have hnotDenoted : ∀ id, ¬ ∃ entry ∈ entries (instruments.getD ""), Denotes entry id := by
    intro id hdenoted
    obtain ⟨entry, hentry, hdenotes⟩ := hdenoted
    have hread := parseInstrument_eq_some.mpr hdenotes
    exact hunread ⟨entry, hentry, by rw [hread]; simp⟩
  have hfilter : ((entries (instruments.getD "")).filter fun s => !s.isEmpty).filterMap
      parseInstrument = [] := by
    rw [List.eq_nil_iff_forall_not_mem]
    exact fun id hid => hnotDenoted id (mem_filterMap_entries.mp hid)
  let bar : OiSnapshot := .startFromSample (sampleAt 0 0)
  have hforwarded : bar ∈ wsForwarded none ⟨instruments, none⟩ [delivered bar] := by
    unfold wsForwarded
    rw [wsSubscribeHandler_authorized rfl, hfilter]
    exact List.mem_singleton_self bar
  exact hnotDenoted _ (h.sound hquery none none [delivered bar] bar hforwarded)

/-- A query keeps its promises exactly if it is empty or one of its entries can be read:
else the set that the handler builds is the empty one, which stands for the firehose. -/
theorem faithful_iff_some_entry_read (instruments : Option String) :
    Faithful instruments ↔ instruments.getD "" = "" ∨
      ∃ entry ∈ entries (instruments.getD ""), parseInstrument entry ≠ none := by
  constructor
  · intro h
    by_contra hnone
    obtain ⟨hquery, hunread⟩ := not_or.mp hnone
    exact not_faithful_of_unread hquery hunread h
  · intro h
    constructor
    case sound =>
      intro hquery auth token events bar hbar
      exact denoted_of_forwarded (h.resolve_left hquery) hbar
    case firehose =>
      intro hquery auth token hauth stream
      exact forwarded_of_empty hquery hauth stream
    case agrees =>
      intro requested hlists auth token hauth stream forwarded hok
      exact forwarded_eq_of_subscribe hlists hauth hok
    case narrow =>
      intro requested hlists bars status herror auth token events bar hbar
      by_cases hquery : instruments.getD "" = ""
      · unfold Lists at hlists
        rw [if_pos hquery] at hlists
        subst hlists
        cases herror
      · have hdenoted := denoted_of_forwarded (h.resolve_left hquery) hbar
        exact (denoted_iff_requested hquery hlists).mp hdenoted

/-- A single misspelt exchange, and the client receives every instrument. The gRPC method
refuses the same request. -/
theorem unknown_exchange_widens :
    ¬ ∀ instruments : Option String, Faithful instruments := by
  intro hall
  have h := (hall (some "noex:BTCUSDT")).sound (by decide) none none
    [delivered (.startFromSample (sampleAt 0 0))] _ (List.mem_singleton_self _)
  obtain ⟨entry, hentry, hdenotes⟩ := h
  have hentries : entries "noex:BTCUSDT" = ["noex:BTCUSDT"] := by decide
  change entry ∈ entries "noex:BTCUSDT" at hentry
  rw [hentries, List.mem_singleton] at hentry
  subst hentry
  have hread := parseInstrument_eq_some.mpr hdenotes
  have hnone : parseInstrument "noex:BTCUSDT" = none := by decide
  rw [hnone] at hread
  cases hread

end OiTerminal.Api.Subscribe
