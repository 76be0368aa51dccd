import OiTerminal.Api.Subscribe

/-!
# The API server

REST and WebSocket share one router behind the bearer middleware, the gRPC service stands
behind the interceptor. The middleware lets some paths through without a token, and the
WebSocket handler, which is on one of them, asks for the token itself.
-/
namespace OiTerminal.Api.Server

open OiTerminal.Core
open OiTerminal.Api.Auth
open OiTerminal.Api.Subscribe

set_option autoImplicit false

inductive Handler where
  | health
  | healthLive
  | ready
  | latest
  | range
  | fundingLatest
  | fundingRange
  | fundingEventLatest
  | fundingEventRange
  | rangeBatch
  | fundingRangeBatch
  | fundingEventRangeBatch
  | systemMetrics
  | wsSubscribeHandler
  deriving DecidableEq

/-- A route made with `get` takes `HEAD` as well. -/
inductive MethodRouter where
  | get
  | post
  deriving DecidableEq

def MethodRouter.takes : MethodRouter → String → Bool
  | .get, method => method == "GET" || method == "HEAD"
  | .post, method => method == "POST"

structure Route where
  path : String
  method : MethodRouter
  handler : Handler
  deriving DecidableEq

/-- The routes of `rest::router` and, merged with them, the one of `ws::router`. -/
def routes : List Route :=
  [⟨"/health", .get, .health⟩,
    ⟨"/health/live", .get, .healthLive⟩,
    ⟨"/health/ready", .get, .ready⟩,
    ⟨"/v1/oi/latest/:exchange/:symbol", .get, .latest⟩,
    ⟨"/v1/oi/range/:exchange/:symbol", .get, .range⟩,
    ⟨"/v1/funding/latest/:exchange/:symbol", .get, .fundingLatest⟩,
    ⟨"/v1/funding/range/:exchange/:symbol", .get, .fundingRange⟩,
    ⟨"/v1/funding/events/latest/:exchange/:symbol", .get, .fundingEventLatest⟩,
    ⟨"/v1/funding/events/range/:exchange/:symbol", .get, .fundingEventRange⟩,
    ⟨"/v1/oi/range/batch", .post, .rangeBatch⟩,
    ⟨"/v1/funding/range/batch", .post, .fundingRangeBatch⟩,
    ⟨"/v1/funding/events/range/batch", .post, .fundingEventRangeBatch⟩,
    ⟨"/v1/system/metrics", .get, .systemMetrics⟩,
    ⟨"/ws/v1/oi/subscribe", .get, .wsSubscribeHandler⟩]

def segments (path : String) : List (List Char) := path.toList.splitOn '/'

/-- The handlers under `/v1/`. -/
def Handler.isData (handler : Handler) : Bool :=
  routes.any fun route => route.handler == handler && startsWith route.path "/v1/"

/-- The handlers of the probes. -/
def Handler.isProbe : Handler → Bool
  | .health | .healthLive | .ready => true
  | _ => false

/-- What the gRPC service offers. -/
inductive Method where
  | latest
  | range
  | subscribe
  | latestFunding
  | fundingRange
  | latestFundingEvent
  | fundingEventRange
  deriving DecidableEq

/-- `authorization` is the first header of that name. `upgrade` is what the extractor of the
WebSocket upgrade makes of the request. -/
structure Request where
  method : String
  path : String
  query : String
  authorization : Option (List UInt8)
  upgrade : Except Response Unit

/-- What takes a request over: the handler of its route, extractors included, or, for the
WebSocket route, the socket with its filter. -/
inductive Served where
  | handler (handler : Handler)
  | upgraded (filter : List InstrumentId)

structure AuthConfig where
  enabled : Bool
  tokens : List String

/-- The router's rule for a captured segment and the parser of a query string belong to
other crates. -/
structure Web where
  captures : List Char → Bool
  parseQuery : String → Except Response SubscribeParams

namespace Web

variable (W : Web)

/-- A segment with a leading colon captures, every other one is literal. -/
def segmentMatches : List Char → List Char → Bool
  | ':' :: _, segment => W.captures segment
  | literal, segment => literal == segment

def templateMatches : List (List Char) → List (List Char) → Bool
  | [], [] => true
  | t :: template, s :: path => W.segmentMatches t s && templateMatches template path
  | _, _ => false

def dispatch (method path : String) : Except Response Handler :=
  match routes.find? fun route => W.templateMatches (segments route.path) (segments path) with
  | none => .error ⟨404, [], ""⟩
  | some route =>
    if route.method.takes method then .ok route.handler else .error ⟨405, [], ""⟩

/-- The WebSocket handler with its extractors. -/
def upgrade (auth : Option AuthState) (request : Request) : Except Response Served :=
  request.upgrade.bind fun _ =>
    (W.parseQuery request.query).bind fun params =>
      match wsSubscribeHandler auth params with
      | .error (status, body) => .error ⟨status, [], body⟩
      | .ok filter => .ok (.upgraded filter)

def route (auth : Option AuthState) (request : Request) : Except Response Served :=
  match W.dispatch request.method request.path with
  | .error response => .error response
  | .ok .wsSubscribeHandler => W.upgrade auth request
  | .ok handler => .ok (.handler handler)

/-- The REST and WebSocket side of the server. -/
def serveHttp (cfg : AuthConfig) (request : Request) : Except Response Served :=
  let authState : AuthState := ⟨cfg.tokens⟩
  let router := W.route (if cfg.enabled then some authState else none) request
  if cfg.enabled then restAuthMiddleware authState request.path request.authorization router
  else router

end Web

/-- The gRPC side of the server. -/
def serveGrpc (cfg : AuthConfig) (method : Method) (authorization : Option (List UInt8)) :
    Except Auth.Status Method :=
  if cfg.enabled then (grpcAuthInterceptor ⟨cfg.tokens⟩ authorization).map fun _ => method
  else .ok method

/-- The query names a token of the list. -/
def Web.Names (W : Web) (tokens : List String) (query : String) : Prop :=
  ∃ params, W.parseQuery query = .ok params ∧
    ∃ token ∈ tokens, params.token.map asBytes = some (asBytes token)

/-- What a server with authentication promises, given what it takes for a header to present
a token. -/
structure AdmitsListed (presents : Option (List UInt8) → String → Prop) : Prop where
  compared : ∀ a b, ctEq a b = true ↔ a = b
  rest : ∀ (W : Web) tokens request handler, handler.isData = true →
    (W.serveHttp ⟨true, tokens⟩ request = .ok (.handler handler) ↔
      W.dispatch request.method request.path = .ok handler ∧
        ∃ token ∈ tokens, presents request.authorization token)
  grpc : ∀ tokens method authorization,
    serveGrpc ⟨true, tokens⟩ method authorization = .ok method ↔
      ∃ token ∈ tokens, presents authorization token
  socket : ∀ (W : Web) tokens request,
    (∃ filter, W.serveHttp ⟨true, tokens⟩ request = .ok (.upgraded filter)) ↔
      W.dispatch request.method request.path = .ok .wsSubscribeHandler ∧
        request.upgrade = .ok () ∧ W.Names tokens request.query
  exempt : ∀ (W : Web) tokens request, isPublicPath request.path = true →
    ∀ served, W.serveHttp ⟨true, tokens⟩ request = .ok served →
      match served with
      | .handler handler => handler.isProbe = true
      | .upgraded _ => W.Names tokens request.query

/-- The word between the first two slashes. -/
theorem segments_of_startsWith {path : String} (word : String) (hword : '/' ∉ word.toList)
    (h : startsWith path ("/" ++ word ++ "/") = true) :
    (segments path)[1]? = some word.toList := by
  obtain ⟨rest, hrest⟩ := List.isPrefixOf_iff_prefix.mp h
  have hpath : path.toList = [] ++ '/' :: (word.toList ++ '/' :: rest) := by
    rw [← hrest]
    simp [String.toList_append]
  unfold segments
  rw [hpath, List.splitOn_append_cons_self, List.splitOn_append_cons_self,
    List.splitOn_eq_singleton hword]
  rfl

/-- The second segment of a path that the middleware lets through. -/
theorem segments_of_isPublicPath {path : String} (h : isPublicPath path = true) :
    (segments path)[1]? ∈
      [some "health".toList, some "metrics".toList, some "ws".toList] := by
  unfold isPublicPath at h
  simp only [Bool.or_eq_true, beq_iff_eq] at h
  rcases h with ((rfl | hhealth) | rfl) | hws
  · decide
  · rw [segments_of_startsWith "health" (by decide) hhealth]
    decide
  · decide
  · rw [segments_of_startsWith "ws" (by decide) hws]
    decide

section

variable {W : Web} {path : String} {handler : Handler}

/-- Where the template is literal the path agrees with it. -/
theorem literal_of_templateMatches {template segs : List (List Char)} {t : List Char} {i : Nat}
    (h : W.templateMatches template segs = true) (ht : template[i]? = some t)
    (hliteral : t.head? ≠ some ':') : segs[i]? = some t := by
  induction template generalizing segs i with
  | nil => cases ht
  | cons first template ih =>
    cases segs with
    | nil => cases h
    | cons s segs =>
      obtain ⟨hs, hrest⟩ := Bool.and_eq_true_iff.mp h
      cases i with
      | zero =>
        obtain rfl := Option.some.inj ht
        unfold Web.segmentMatches at hs
        split at hs
        · exact absurd rfl hliteral
        · exact congrArg some (beq_iff_eq.mp hs).symm
      | succ i =>
        have hsegs : segs[i]? = some t := ih hrest ht
        exact hsegs

/-- A template without captures matches one path. -/
theorem eq_of_templateMatches {template segs : List (List Char)}
    (hliteral : ∀ t ∈ template, t.head? ≠ some ':')
    (h : W.templateMatches template segs = true) : segs = template := by
  have hlen : segs.length = template.length := by
    clear hliteral
    induction template generalizing segs with
    | nil => cases segs <;> first | rfl | cases h
    | cons first template ih =>
      cases segs with
      | nil => cases h
      | cons s segs =>
        have hrest := ih (Bool.and_eq_true_iff.mp h).2
        simp [hrest]
  apply List.ext_getElem?
  intro i
  cases ht : template[i]? with
  | none =>
    rw [List.getElem?_eq_none_iff] at ht ⊢
    omega
  | some t => exact literal_of_templateMatches h ht (hliteral t (List.mem_of_getElem? ht))

theorem route_of_dispatch {method : String} (h : W.dispatch method path = .ok handler) :
    ∃ route ∈ routes, route.handler = handler ∧
      W.templateMatches (segments route.path) (segments path) = true := by
  unfold Web.dispatch at h
  split at h
  · cases h
  case h_2 route hfind =>
    split at h
    · have hmatches := List.find?_some hfind
      exact ⟨route, List.mem_of_find?_eq_some hfind, Except.ok.inj h, hmatches⟩
    · cases h

/-- The second segment tells the three kinds of routes apart. -/
theorem route_kinds : ∀ route ∈ routes,
    ((segments route.path)[1]? = some "health".toList ∧ route.handler.isProbe = true ∧
      route.handler.isData = false) ∨
    ((segments route.path)[1]? = some "v1".toList ∧ route.handler.isData = true) ∨
    ((segments route.path)[1]? = some "ws".toList ∧ route.handler = .wsSubscribeHandler ∧
      route.handler.isData = false) := by
  decide +kernel

/-- The second segment of every route is literal, so a path shares it with its route. -/
theorem second_of_matches {route : Route} (hroute : route ∈ routes)
    (h : W.templateMatches (segments route.path) (segments path) = true) :
    (segments path)[1]? = (segments route.path)[1]? := by
  rcases route_kinds route hroute with ⟨hword, _⟩ | ⟨hword, _⟩ | ⟨hword, _⟩
  all_goals
    rw [hword]
    exact literal_of_templateMatches h hword (by decide)

/-- Nothing under `/v1/` is on a path that the middleware lets through. -/
theorem not_public_of_isData {method : String} (h : W.dispatch method path = .ok handler)
    (hdata : handler.isData = true) : isPublicPath path = false := by
  obtain ⟨route, hroute, rfl, hmatches⟩ := route_of_dispatch h
  have hsecond := second_of_matches hroute hmatches
  rcases route_kinds route hroute with ⟨_, _, hother⟩ | ⟨hword, _⟩ | ⟨_, _, hother⟩
  · rw [hdata] at hother
    cases hother
  · by_contra hpublic
    have hsegments := segments_of_isPublicPath (Bool.of_not_eq_false hpublic)
    rw [hsecond, hword] at hsegments
    exact absurd hsegments (by decide)
  · rw [hdata] at hother
    cases hother

/-- Only the probes and the WebSocket handler are. -/
theorem probe_or_socket_of_public {method : String} (h : W.dispatch method path = .ok handler)
    (hpublic : isPublicPath path = true) :
    handler.isProbe = true ∨ handler = .wsSubscribeHandler := by
  obtain ⟨route, hroute, rfl, hmatches⟩ := route_of_dispatch h
  have hsecond := second_of_matches hroute hmatches
  rcases route_kinds route hroute with ⟨_, hprobe, _⟩ | ⟨hword, _⟩ | ⟨_, hsocket, _⟩
  · exact .inl hprobe
  · have hsegments := segments_of_isPublicPath hpublic
    rw [hsecond, hword] at hsegments
    exact absurd hsegments (by decide)
  · exact .inr hsocket

/-- The path of the WebSocket route is let through. -/
theorem public_of_socket {method : String}
    (h : W.dispatch method path = .ok .wsSubscribeHandler) : isPublicPath path = true := by
  have hsocket : ∀ route ∈ routes, route.handler = .wsSubscribeHandler →
      isPublicPath route.path = true ∧ ∀ t ∈ segments route.path, t.head? ≠ some ':' := by
    decide +kernel
  obtain ⟨route, hroute, hhandler, hmatches⟩ := route_of_dispatch h
  obtain ⟨hpublic, hliteral⟩ := hsocket route hroute hhandler
  have hsegments := congrArg (['/'].intercalate ·) (eq_of_templateMatches hliteral hmatches)
  unfold segments at hsegments
  simp only [List.intercalate_splitOn] at hsegments
  rw [String.toList_injective hsegments]
  exact hpublic

variable {request : Request} {tokens : List String}

theorem upgrade_eq_ok {auth : Option AuthState} {served : Served} :
    W.upgrade auth request = .ok served ↔
      request.upgrade = .ok () ∧ ∃ params, W.parseQuery request.query = .ok params ∧
        ∃ filter, wsSubscribeHandler auth params = .ok filter ∧ served = .upgraded filter := by
  unfold Web.upgrade
  cases request.upgrade with
  | error response => simp [Except.bind]
  | ok u =>
    cases W.parseQuery request.query with
    | error response => simp [Except.bind]
    | ok params =>
      cases hhandler : wsSubscribeHandler auth params with
      | error refusal => simp [Except.bind, hhandler]
      | ok filter => simp [Except.bind, hhandler, eq_comm]

/-- The parameter is let in if its bytes are those of a token of the list. -/
theorem authorized_iff {token : Option String} : authorized (some ⟨tokens⟩) token = true ↔
    ∃ valid ∈ tokens, token.map asBytes = some (asBytes valid) := by
  unfold authorized
  cases token with
  | none => simp
  | some presented =>
    simp only [Option.map_some, Option.getD_some, accepts_eq_true, Option.some.injEq]
    constructor
    · intro h
      exact ⟨presented, h, rfl⟩
    · intro h
      obtain ⟨valid, hvalid, heq⟩ := h
      rw [asBytes_injective heq]
      exact hvalid

theorem exists_filter_iff {auth : Option AuthState} {params : SubscribeParams} :
    (∃ filter, wsSubscribeHandler auth params = .ok filter) ↔
      authorized auth params.token = true := by
  unfold wsSubscribeHandler
  cases authorized auth params.token <;> simp

/-- The WebSocket handler upgrades exactly if its query names a token of the list. -/
theorem exists_upgraded_iff :
    (∃ filter, W.upgrade (some ⟨tokens⟩) request = .ok (.upgraded filter)) ↔
      request.upgrade = .ok () ∧ W.Names tokens request.query := by
  unfold Web.Names
  simp only [upgrade_eq_ok, ← authorized_iff, ← exists_filter_iff]
  constructor
  · intro h
    obtain ⟨filter, hextract, params, hparse, found, hfound, _⟩ := h
    exact ⟨hextract, params, hparse, found, hfound⟩
  · intro h
    obtain ⟨hextract, params, hparse, found, hfound⟩ := h
    exact ⟨found, hextract, params, hparse, found, hfound, rfl⟩

theorem route_eq_handler {auth : Option AuthState} (h : handler ≠ .wsSubscribeHandler) :
    W.route auth request = .ok (.handler handler) ↔
      W.dispatch request.method request.path = .ok handler := by
  unfold Web.route
  split
  case h_1 response hdispatch => simp [hdispatch]
  case h_2 hdispatch =>
    rw [hdispatch, upgrade_eq_ok]
    constructor
    · intro hupgrade
      obtain ⟨_, _, _, _, _, hserved⟩ := hupgrade
      cases hserved
    · intro hsame
      exact absurd (Except.ok.inj hsame).symm h
  case h_3 other hother hdispatch => simp [hdispatch]

theorem route_eq_upgraded {auth : Option AuthState} {filter : List InstrumentId} :
    W.route auth request = .ok (.upgraded filter) ↔
      W.dispatch request.method request.path = .ok .wsSubscribeHandler ∧
        W.upgrade auth request = .ok (.upgraded filter) := by
  unfold Web.route
  split
  case h_1 response hdispatch => simp [hdispatch]
  case h_2 hdispatch => simp [hdispatch]
  case h_3 other hother hdispatch =>
    simp only [hdispatch, Except.ok.injEq, reduceCtorEq, false_iff, not_and]
    intro hsocket
    exact absurd hsocket hother

/-- The middleware stands before every path, and a path it lets through is left alone. -/
theorem serveHttp_public (h : isPublicPath request.path = true) :
    W.serveHttp ⟨true, tokens⟩ request = W.route (some ⟨tokens⟩) request :=
  restAuthMiddleware_public h

theorem serveHttp_eq_ok {served : Served} (h : isPublicPath request.path = false) :
    W.serveHttp ⟨true, tokens⟩ request = .ok served ↔
      W.route (some ⟨tokens⟩) request = .ok served ∧
        ∃ token ∈ tokens, Bears request.authorization token ∧ Readable token :=
  restAuthMiddleware_eq_ok h

/-- A data handler is reached with a header that presents a token of the list. -/
theorem serveHttp_data_iff (hdata : handler.isData = true) :
    W.serveHttp ⟨true, tokens⟩ request = .ok (.handler handler) ↔
      W.dispatch request.method request.path = .ok handler ∧
        ∃ token ∈ tokens, Bears request.authorization token ∧ Readable token := by
  have hsocket : handler ≠ .wsSubscribeHandler := by
    rintro rfl
    exact absurd hdata (by decide)
  constructor
  · intro h
    cases hpublic : isPublicPath request.path with
    | true =>
      rw [serveHttp_public hpublic, route_eq_handler hsocket] at h
      rw [not_public_of_isData h hdata] at hpublic
      cases hpublic
    | false =>
      rw [serveHttp_eq_ok hpublic, route_eq_handler hsocket] at h
      exact h
  · intro h
    rw [serveHttp_eq_ok (not_public_of_isData h.1 hdata), route_eq_handler hsocket]
    exact h

theorem serveGrpc_eq_ok {method : Method} {authorization : Option (List UInt8)} :
    serveGrpc ⟨true, tokens⟩ method authorization = .ok method ↔
      ∃ token ∈ tokens, Bears authorization token ∧ Readable token := by
  have hpasses : grpcAuthInterceptor ⟨tokens⟩ authorization = .ok () ↔
      ∃ token ∈ tokens, Bears authorization token ∧ Readable token :=
    grpcAuthInterceptor_eq_ok
  rw [← hpasses]
  unfold serveGrpc
  cases grpcAuthInterceptor ⟨tokens⟩ authorization <;> simp [Except.map]

/-- The middleware lets the WebSocket route through, and its handler asks for the token. -/
theorem serveHttp_upgraded_iff :
    (∃ filter, W.serveHttp ⟨true, tokens⟩ request = .ok (.upgraded filter)) ↔
      W.dispatch request.method request.path = .ok .wsSubscribeHandler ∧
        request.upgrade = .ok () ∧ W.Names tokens request.query := by
  rw [← exists_upgraded_iff]
  constructor
  · intro h
    obtain ⟨filter, hserved⟩ := h
    cases hpublic : isPublicPath request.path with
    | true =>
      rw [serveHttp_public hpublic, route_eq_upgraded] at hserved
      exact ⟨hserved.1, filter, hserved.2⟩
    | false =>
      rw [serveHttp_eq_ok hpublic, route_eq_upgraded] at hserved
      exact ⟨hserved.1.1, filter, hserved.1.2⟩
  · intro h
    obtain ⟨hdispatch, filter, hupgrade⟩ := h
    refine ⟨filter, ?_⟩
    rw [serveHttp_public (public_of_socket hdispatch), route_eq_upgraded]
    exact ⟨hdispatch, hupgrade⟩

/-- A handler on a path without authentication is a probe. -/
theorem isProbe_of_public (hpublic : isPublicPath request.path = true)
    (h : W.serveHttp ⟨true, tokens⟩ request = .ok (.handler handler)) :
    handler.isProbe = true := by
  rw [serveHttp_public hpublic] at h
  unfold Web.route at h
  split at h
  · cases h
  case h_2 =>
    obtain ⟨_, _, _, _, _, hupgraded⟩ := upgrade_eq_ok.mp h
    cases hupgraded
  case h_3 other hother hdispatch =>
    cases h
    exact (probe_or_socket_of_public hdispatch hpublic).resolve_right hother

end

/-- The server admits exactly the tokens of its list. A header presents a token if it is the
prefix and the token's bytes, all of them visible ASCII. -/
theorem admits_readable_tokens :
    AdmitsListed fun authorization token => Bears authorization token ∧ Readable token := by
  constructor
  case compared => exact fun a b => ctEq_eq_true
  case rest => exact fun W tokens request handler hdata => serveHttp_data_iff hdata
  case grpc => exact fun tokens method authorization => serveGrpc_eq_ok
  case socket => exact fun W tokens request => serveHttp_upgraded_iff
  case exempt =>
    intro W tokens request hpublic served hserved
    cases served with
    | handler handler => exact isProbe_of_public hpublic hserved
    | upgraded filter => exact (serveHttp_upgraded_iff.mp ⟨filter, hserved⟩).2.2

/-- A listed token with an accent is refused, though the header has its very bytes: `to_str`
does not read them. -/
theorem accented_token_refused : ¬ AdmitsListed Bears := by
  intro h
  let W : Web := ⟨fun _ => true, fun _ => .error ⟨400, [], ""⟩⟩
  let request : Request :=
    ⟨"GET", "/v1/system/metrics", "", some (asBytes "Bearer " ++ asBytes "é"), .ok ()⟩
  have hdispatch : W.dispatch "GET" "/v1/system/metrics" = .ok .systemMetrics := by decide
  have hpublic : isPublicPath request.path = false := by decide
  have hserved := (h.rest W ["é"] request .systemMetrics (by decide)).mpr
    ⟨hdispatch, "é", List.mem_singleton_self _, rfl⟩
  obtain ⟨_, token, htoken, _, hreadable⟩ := (serveHttp_eq_ok hpublic).mp hserved
  rw [List.mem_singleton.mp htoken] at hreadable
  exact absurd hreadable (by decide)

end OiTerminal.Api.Server
