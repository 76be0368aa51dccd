import OiTerminal.Api.Auth
import OiTerminal.Collector.SweepPool
import OiTerminal.Exchanges.Rest

/-!
# The HTTP client of the adapters

Every REST call goes through one client. A request that fails, and a status that is no success,
become an error of the adapter. Otherwise the body is decoded, and most venues report a code of
their own in it. How a body decodes belongs to another crate, so it is a parameter.
-/
namespace OiTerminal.Exchanges.Http

open OiTerminal.Core OiTerminal.Core.Time
open OiTerminal.Collector.SweepPool (AdapterError)
open OiTerminal.Exchanges

set_option autoImplicit false

/-! ## Cutting a text -/

def byteLen (cs : List Char) : ℕ := (cs.map Char.utf8Size).sum

/-- Whether the first bytes of this number are whole characters. -/
def isCharBoundary : List Char → ℕ → Bool
  | _, 0 => true
  | [], _ + 1 => false
  | c :: cs, n + 1 => c.utf8Size ≤ n + 1 && isCharBoundary cs (n + 1 - c.utf8Size)

/-- The loop that steps back to a boundary. -/
def floorBoundary (cs : List Char) : ℕ → ℕ
  | 0 => 0
  | n + 1 => if isCharBoundary cs (n + 1) then n + 1 else floorBoundary cs n

/-- The characters of the first bytes, which end at a boundary. -/
def sliceTo : List Char → ℕ → List Char
  | [], _ => []
  | c :: cs, n => if c.utf8Size ≤ n then c :: sliceTo cs (n - c.utf8Size) else []

def truncate (s : String) (n : ℕ) : String :=
  if byteLen s.toList ≤ n then s
  else String.ofList (sliceTo s.toList (floorBoundary s.toList n)) ++ "…"

/-! ## Requests and responses -/

inductive Scalar where
  | text (s : String)
  | int (n : Int)
  deriving DecidableEq

inductive Request where
  | get (url : String)
  | post (url : String) (body : List (String × Scalar))
  deriving DecidableEq

/-- How a message names the request. -/
def Request.label : Request → String
  | .get url => "GET " ++ url
  | .post url _ => "POST " ++ url

/-- The body, or why it could not be read. -/
structure Response where
  status : ℕ
  retryAfter : Option (List UInt8)
  body : Except String String

/-- What comes of a request. A failure is a timeout or a failed connect, or it is neither. -/
inductive Sent where
  | failed (timeoutOrConnect : Bool) (error : String)
  | answered (resp : Response)

abbrev Transport := Request → Sent

/-- `str::parse::<u64>`. -/
def parseU64 (s : String) : Option ℕ :=
  let digits (cs : List Char) : Option ℕ :=
    if cs ≠ [] ∧ cs.all Char.isDigit then some (Nat.ofDigitChars 10 cs 0) else none
  let value :=
    match s.toList with
    | '+' :: rest => digits rest
    | cs => digits cs
  value.filter fun n => n < 2 ^ 64

def Response.retryAfterSecs (resp : Response) : Option ℕ :=
  (resp.retryAfter.bind Api.Auth.toStr).bind parseU64

/-- A body that cannot be read is shown as the empty text. -/
def Response.report (resp : Response) : String :=
  toString resp.status ++ ": " ++ truncate (resp.body.toOption.getD "") 200

def classify (exchangeCode : String) (resp : Response) : Except AdapterError Response :=
  if 200 ≤ resp.status ∧ resp.status < 300 then .ok resp
  else if resp.status = 418 then .error (.rateLimited resp.retryAfterSecs)
  else if resp.status = 429 then .error (.rateLimited resp.retryAfterSecs)
  else if 500 ≤ resp.status ∧ resp.status < 600 then
    .error (.transient "http_5xx" ("status " ++ toString resp.status))
  else if resp.status = 404 then .error (.notFound ("status 404 from " ++ exchangeCode))
  else if resp.status = 401 ∨ resp.status = 403 then .error (.auth resp.report)
  else .error (.schema resp.report)

def send (exchangeCode : String) (transport : Transport) (request : Request) :
    Except AdapterError Response :=
  match transport request with
  | .failed true e => .error (.transient "http" (request.label ++ ": " ++ e))
  | .failed false e => .error (.unexpected (request.label ++ ": " ++ e))
  | .answered resp => classify exchangeCode resp

def decoded {Payload : Type} (decode : String → Except String Payload) (request : Request)
    (resp : Response) : Except AdapterError Payload :=
  match resp.body >>= decode with
  | .ok payload => .ok payload
  | .error e => .error (.schema (request.label ++ " decode: " ++ e))

/-- `get_json` and `post_json`. -/
def json {Payload : Type} (exchangeCode : String) (decode : String → Except String Payload)
    (transport : Transport) (request : Request) : Except AdapterError Payload :=
  send exchangeCode transport request >>= decoded decode request

/-! ## The envelopes -/

structure Envelope (Code Data : Type) where
  code : Code
  msg : String
  data : Data

/-- The verdict on an envelope, by whether its code is one of success or one of throttling. -/
def verdict {Data : Type} (success throttled : Bool) (drift : String) (data : Data) :
    Except AdapterError Data :=
  if success then .ok data
  else if throttled then .error (.rateLimited none)
  else .error (.schema drift)

section

variable {Data : Type}

namespace Bybit

def rateLimitCodes : List String := ["10006", "10018", "10029"]

def check (env : Envelope Int Data) : Except AdapterError Data :=
  verdict (env.code == 0) (rateLimitCodes.contains (toString env.code))
    ("bybit retCode=" ++ toString env.code ++ " retMsg=" ++ env.msg) env.data

end Bybit

namespace Okx

/-- No code counts as throttling here. -/
def check (env : Envelope String Data) : Except AdapterError Data :=
  verdict (env.code == "0") false ("okx code=" ++ env.code ++ " msg=" ++ env.msg) env.data

end Okx

namespace Bitget

def rateLimitCodes : List String := ["40018", "40429", "429"]

def check (env : Envelope String Data) : Except AdapterError Data :=
  verdict (env.code == "00000") (rateLimitCodes.contains env.code)
    ("bitget code=" ++ env.code ++ " msg=" ++ env.msg) env.data

end Bitget

namespace BingX

def check (env : Envelope Int Data) : Except AdapterError Data :=
  verdict (env.code == 0) (env.code == 100410 || env.code == 80014 || env.code == 429)
    ("bingx code=" ++ toString env.code ++ " msg=" ++ env.msg) env.data

end BingX

namespace KuCoin

def rateLimitCodes : List String := ["429000", "429100", "429200"]

def check (env : Envelope String Data) : Except AdapterError Data :=
  verdict (env.code == "200000") (rateLimitCodes.contains env.code)
    ("kucoin code=" ++ env.code ++ " msg=" ++ env.msg) env.data

end KuCoin

namespace Mexc

/-- The envelope carries a flag of success and no text. -/
structure Envelope (Data : Type) where
  success : Bool
  code : Int
  data : Data

def check (env : Envelope Data) : Except AdapterError Data :=
  verdict (env.code == 0 && env.success) (env.code == 510 || env.code == 429)
    ("mexc code=" ++ toString env.code) env.data

end Mexc

end

/-! ## Calls -/

/-- A REST call of an adapter: the code of its client, what it asks for, how the body decodes, and
what the adapter makes of the payload. -/
structure Call (Out : Type) where
  exchangeCode : String
  request : Request
  Payload : Type
  decode : String → Except String Payload
  accept : Payload → Except AdapterError Out

def Call.run {Out : Type} (c : Call Out) (transport : Transport) : Except AdapterError Out :=
  json c.exchangeCode c.decode transport c.request >>= c.accept

/-- The venue turns the request away as unauthorised or forbidden. -/
def Forbidden (transport : Transport) (request : Request) : Bool :=
  match transport request with
  | .answered resp => resp.status == 401 || resp.status == 403
  | .failed _ _ => false

/-! ## What the texts and the errors are -/

section

variable {cs : List Char} {n : ℕ}

theorem isCharBoundary_cons {c : Char} (hn : n ≠ 0) :
    isCharBoundary (c :: cs) n = true ↔
      c.utf8Size ≤ n ∧ isCharBoundary cs (n - c.utf8Size) = true := by
  obtain ⟨k, rfl⟩ := Nat.exists_eq_succ_of_ne_zero hn
  rw [isCharBoundary, Bool.and_eq_true, decide_eq_true_eq]

theorem isCharBoundary_zero : isCharBoundary cs 0 = true := by
  cases cs <;> rfl

/-- The slice never cuts a character: it ends at the boundary that the loop stops at. -/
theorem isCharBoundary_floorBoundary (cs : List Char) (n : ℕ) :
    isCharBoundary cs (floorBoundary cs n) = true := by
  induction n with
  | zero => exact isCharBoundary_zero
  | succ n ih =>
    unfold floorBoundary
    split
    case isTrue hboundary => exact hboundary
    case isFalse => exact ih

theorem floorBoundary_le (cs : List Char) (n : ℕ) : floorBoundary cs n ≤ n := by
  induction n with
  | zero => exact Nat.le_refl 0
  | succ n ih =>
    unfold floorBoundary
    split
    · exact Nat.le_refl _
    · omega

/-- No boundary lies between the one where the loop stops and the limit. -/
theorem le_floorBoundary {k : ℕ} (hk : isCharBoundary cs k = true) (hle : k ≤ n) :
    k ≤ floorBoundary cs n := by
  induction n with
  | zero => exact hle
  | succ n ih =>
    unfold floorBoundary
    split
    · exact hle
    case isFalse hnot =>
      have hne : k ≠ n + 1 := fun h => hnot (h ▸ hk)
      apply ih
      omega

theorem sliceTo_prefix (cs : List Char) (n : ℕ) : sliceTo cs n <+: cs := by
  induction cs generalizing n with
  | nil => exact List.prefix_refl []
  | cons c cs ih =>
    unfold sliceTo
    split
    · exact (List.prefix_cons_inj c).mpr (ih _)
    · exact List.nil_prefix

theorem byteLen_sliceTo (h : isCharBoundary cs n = true) : byteLen (sliceTo cs n) = n := by
  induction cs generalizing n with
  | nil =>
    cases n with
    | zero => rfl
    | succ n => cases h
  | cons c cs ih =>
    have hpos := c.utf8Size_pos
    unfold sliceTo
    by_cases hn : n = 0
    · subst hn
      rw [if_neg (by omega)]
      rfl
    · obtain ⟨hle, hrest⟩ := (isCharBoundary_cons hn).mp h
      rw [if_pos hle]
      have htail := ih hrest
      unfold byteLen at htail ⊢
      rw [List.map_cons, List.sum_cons, htail]
      omega

/-- The bytes of the leading characters end at a boundary. -/
theorem isCharBoundary_byteLen {front : List Char} (h : front <+: cs) :
    isCharBoundary cs (byteLen front) = true := by
  induction front generalizing cs with
  | nil => exact isCharBoundary_zero
  | cons c front ih =>
    obtain ⟨rest, rfl⟩ := h
    have hpos := c.utf8Size_pos
    have hlen : byteLen (c :: front) = c.utf8Size + byteLen front := by
      unfold byteLen
      rw [List.map_cons, List.sum_cons]
    rw [List.cons_append, isCharBoundary_cons (by omega)]
    refine ⟨by omega, ?_⟩
    rw [hlen, Nat.add_sub_cancel_left]
    exact ih (List.prefix_append _ _)

/-- A text that is cut keeps the longest part of whole characters that fits. -/
theorem truncate_eq (s : String) (n : ℕ) :
    (byteLen s.toList ≤ n ∧ truncate s n = s) ∨
      ∃ front, front <+: s.toList ∧ byteLen front ≤ n ∧
        (∀ longer, longer <+: s.toList → byteLen longer ≤ n → byteLen longer ≤ byteLen front) ∧
        truncate s n = String.ofList front ++ "…" := by
  by_cases hfits : byteLen s.toList ≤ n
  · exact .inl ⟨hfits, if_pos hfits⟩
  · refine .inr ⟨_, sliceTo_prefix _ (floorBoundary s.toList n), ?_, ?_, if_neg hfits⟩
    · rw [byteLen_sliceTo (isCharBoundary_floorBoundary _ n)]
      exact floorBoundary_le _ n
    · intro longer hprefix hle
      rw [byteLen_sliceTo (isCharBoundary_floorBoundary _ n)]
      exact le_floorBoundary (isCharBoundary_byteLen hprefix) hle

end

theorem classify_error_isAuth {exchangeCode : String} {resp : Response} {e : AdapterError}
    (h : classify exchangeCode resp = .error e) :
    e.isAuth = (resp.status == 401 || resp.status == 403) := by
  unfold classify at h
  split_ifs at h with hsuccess hban hlimit hserver hfound hforbidden
  case pos => rw [← Except.error.inj h, hban]; rfl
  case pos => rw [← Except.error.inj h, hlimit]; rfl
  case pos =>
    have hno : (resp.status == 401 || resp.status == 403) = false := by simp; omega
    rw [← Except.error.inj h, hno]
    rfl
  case pos => rw [← Except.error.inj h, hfound]; rfl
  case pos =>
    have hyes : (resp.status == 401 || resp.status == 403) = true := by simpa using hforbidden
    rw [← Except.error.inj h, hyes]
    rfl
  case neg =>
    have hno : (resp.status == 401 || resp.status == 403) = false := by simpa using hforbidden
    rw [← Except.error.inj h, hno]
    rfl

theorem classify_ok_status {exchangeCode : String} {resp resp' : Response}
    (h : classify exchangeCode resp = .ok resp') : 200 ≤ resp.status ∧ resp.status < 300 := by
  unfold classify at h
  split_ifs at h with hsuccess
  exact hsuccess

/-- Whether a call ended with a failure of authorisation. -/
def endedAuth {Out : Type} : Except AdapterError Out → Bool
  | .ok _ => false
  | .error e => e.isAuth

/-- Of all answers the client calls only the forbidden ones a failure of authorisation. -/
theorem endedAuth_send (exchangeCode : String) (transport : Transport) (request : Request) :
    endedAuth (send exchangeCode transport request) = Forbidden transport request := by
  unfold send Forbidden
  cases transport request with
  | failed timeoutOrConnect text => cases timeoutOrConnect <;> rfl
  | answered resp =>
    dsimp only
    cases hclassify : classify exchangeCode resp with
    | error e => exact classify_error_isAuth hclassify
    | ok resp' =>
      have hstatus := classify_ok_status hclassify
      have hno : (resp.status == 401 || resp.status == 403) = false := by simp; omega
      exact hno.symm

theorem endedAuth_bind {α β : Type} {x : Except AdapterError α} {k : α → Except AdapterError β}
    (hk : ∀ a, endedAuth (k a) = false) : endedAuth (x >>= k) = endedAuth x := by
  cases x with
  | error e => rfl
  | ok a => exact hk a

/-- An envelope never speaks of authorisation. -/
theorem endedAuth_verdict {Data : Type} (success throttled : Bool) (drift : String) (data : Data) :
    endedAuth (verdict success throttled drift data) = false := by
  cases success with
  | true => rfl
  | false => cases throttled <;> rfl

/-- A call ends so exactly when its request was forbidden, unless the adapter does it itself. -/
theorem Call.endedAuth_run {Out : Type} (c : Call Out) (transport : Transport)
    (haccept : ∀ payload, endedAuth (c.accept payload) = false) :
    endedAuth (c.run transport) = Forbidden transport c.request := by
  have hdecoded : ∀ resp, endedAuth (decoded c.decode c.request resp) = false := by
    intro resp
    unfold decoded
    split <;> rfl
  unfold Call.run json
  rw [endedAuth_bind haccept, endedAuth_bind hdecoded]
  exact endedAuth_send _ _ _

end OiTerminal.Exchanges.Http
