import Mathlib.Data.List.Forall2

/-!
# Bearer tokens

The REST middleware and the gRPC interceptor read a token from the authorization header,
the WebSocket handler reads it from its query. All three ask the same list. The value of a
header is a string of bytes, and `to_str` reads visible ASCII only.
-/
namespace OiTerminal.Api.Auth

set_option autoImplicit false

/-- The bearer tokens that are accepted. -/
structure AuthState where
  tokens : List String

/-- `as_bytes`: the characters in UTF-8. -/
def asBytes (s : String) : List UInt8 := s.toList.flatMap String.utf8EncodeChar

/-- The loop looks at every byte, whatever the earlier ones were. -/
def ctEq (a b : List UInt8) : Bool :=
  if a.length ≠ b.length then false
  else (a.zip b).foldl (fun diff p => diff ||| (p.1 ^^^ p.2)) 0 == 0

def AuthState.accepts (auth : AuthState) (presented : String) : Bool :=
  auth.tokens.any fun valid => ctEq (asBytes valid) (asBytes presented)

/-- The bytes that `HeaderValue::to_str` and `MetadataValue::to_str` read. -/
def isVisibleAscii (b : UInt8) : Bool := 32 ≤ b && b < 127 || b == 9

def toStr (value : List UInt8) : Option String :=
  if value.all isVisibleAscii then some (String.ofList (value.map fun b => Char.ofNat b.toNat))
  else none

def startsWith (s pat : String) : Bool := pat.toList.isPrefixOf s.toList

def stripPrefix (s pat : String) : Option String :=
  if startsWith s pat then some (String.ofList (s.toList.drop pat.toList.length)) else none

def extractBearer (headerValue : Option String) : Option String :=
  headerValue.bind fun v => stripPrefix v "Bearer "

structure Response where
  status : Nat
  headers : List (String × String)
  body : String
  deriving DecidableEq

def unauthenticatedResponse : Response :=
  ⟨401, [("www-authenticate", "Bearer")], "missing or invalid bearer token"⟩

def isPublicPath (path : String) : Bool :=
  path == "/health" || startsWith path "/health/" || path == "/metrics" || startsWith path "/ws/"

/-- `next` is what the routes make of the request. -/
def restAuthMiddleware {α : Type} (state : AuthState) (path : String)
    (authorization : Option (List UInt8)) (next : Except Response α) : Except Response α :=
  if isPublicPath path then next
  else
    match extractBearer (authorization.bind toStr) with
    | none => .error unauthenticatedResponse
    | some token => if state.accepts token then next else .error unauthenticatedResponse

inductive Status where
  | unauthenticated (message : String)
  deriving DecidableEq

def grpcAuthInterceptor (state : AuthState) (authorization : Option (List UInt8)) :
    Except Status Unit :=
  match extractBearer (authorization.bind toStr) with
  | none => .error (.unauthenticated "missing bearer token")
  | some token =>
    if state.accepts token then .ok () else .error (.unauthenticated "invalid bearer token")

/-- The header is the prefix and the bytes of the token. -/
def Bears (authorization : Option (List UInt8)) (token : String) : Prop :=
  authorization = some (asBytes "Bearer " ++ asBytes token)

/-- The token can be written in a header that `to_str` reads. -/
def Readable (token : String) : Prop := (asBytes token).all isVisibleAscii = true

instance (token : String) : Decidable (Readable token) :=
  inferInstanceAs (Decidable (_ = true))

/-- The accumulator stays zero as long as no pair differs. -/
theorem foldl_diff_eq_zero (pairs : List (UInt8 × UInt8)) (diff : UInt8) :
    pairs.foldl (fun diff p => diff ||| (p.1 ^^^ p.2)) diff = 0 ↔
      diff = 0 ∧ ∀ p ∈ pairs, p.1 = p.2 := by
  induction pairs generalizing diff with
  | nil => simp
  | cons p rest ih =>
    rw [List.foldl_cons, ih, UInt8.or_eq_zero_iff, UInt8.xor_eq_zero_iff, and_assoc,
      List.forall_mem_cons]

/-- The comparison in constant time decides equality. -/
theorem ctEq_eq_true {a b : List UInt8} : ctEq a b = true ↔ a = b := by
  have hzip : a = b ↔ a.length = b.length ∧ ∀ p ∈ a.zip b, p.1 = p.2 := by
    rw [← List.forall₂_eq_eq_eq (α := UInt8), List.forall₂_iff_zip]
    constructor
    · intro h
      exact ⟨h.1, fun p hp => h.2 hp⟩
    · intro h
      exact ⟨h.1, fun hp => h.2 _ hp⟩
  unfold ctEq
  rw [hzip]
  by_cases hlen : a.length = b.length
  · rw [if_neg (not_not_intro hlen), beq_iff_eq, foldl_diff_eq_zero]
    simp [hlen]
  · rw [if_pos hlen]
    simp [hlen]

theorem asBytes_append (s t : String) : asBytes (s ++ t) = asBytes s ++ asBytes t := by
  unfold asBytes
  rw [String.toList_append, List.flatMap_append]

theorem asBytes_injective : Function.Injective asBytes := by
  intro s t h
  apply String.toByteArray_inj.mp
  rw [← String.utf8Encode_toList, ← String.utf8Encode_toList]
  exact congrArg List.toByteArray h

/-- A token is accepted exactly if it is on the list. -/
theorem accepts_eq_true {auth : AuthState} {presented : String} :
    auth.accepts presented = true ↔ presented ∈ auth.tokens := by
  unfold AuthState.accepts
  rw [List.any_eq_true]
  constructor
  · intro h
    obtain ⟨valid, hvalid, heq⟩ := h
    rw [← asBytes_injective (ctEq_eq_true.mp heq)]
    exact hvalid
  · intro h
    exact ⟨presented, h, ctEq_eq_true.mpr rfl⟩

/-- A readable byte is the character of that code, encoded as itself. -/
theorem utf8EncodeChar_ofNat {b : UInt8} (h : isVisibleAscii b = true) :
    String.utf8EncodeChar (Char.ofNat b.toNat) = [b] := by
  have hlt : b.toNat < 128 := by
    unfold isVisibleAscii at h
    simp only [Bool.or_eq_true, Bool.and_eq_true, decide_eq_true_eq, beq_iff_eq] at h
    rcases h with ⟨_, hb⟩ | hb
    · have := UInt8.lt_iff_toNat_lt.mp hb
      exact Nat.lt_trans this (by decide)
    · rw [hb]
      decide
  have hval : (Char.ofNat b.toNat).toNat = b.toNat := by
    have hvalid : b.toNat.isValidChar := .inl (by omega)
    unfold Char.ofNat
    rw [dif_pos hvalid]
    rfl
  unfold String.utf8EncodeChar
  show (if (Char.ofNat b.toNat).toNat ≤ 0x7f then _ else _) = _
  rw [if_pos (by omega)]
  show [UInt8.ofNat (Char.ofNat b.toNat).toNat] = [b]
  rw [hval, UInt8.ofNat_toNat]

theorem asBytes_of_visible {value : List UInt8} (h : value.all isVisibleAscii = true) :
    asBytes (String.ofList (value.map fun b => Char.ofNat b.toNat)) = value := by
  unfold asBytes
  rw [String.toList_ofList]
  induction value with
  | nil => rfl
  | cons b rest ih =>
    obtain ⟨hb, hrest⟩ := Bool.and_eq_true_iff.mp h
    rw [List.map_cons, List.flatMap_cons, utf8EncodeChar_ofNat hb, ih hrest]
    rfl

/-- What `to_str` reads are the bytes of the text, all of them visible. -/
theorem toStr_eq_some {value : List UInt8} {text : String} :
    toStr value = some text ↔ value.all isVisibleAscii = true ∧ asBytes text = value := by
  unfold toStr
  constructor
  · intro h
    split at h
    case isTrue hvisible =>
      obtain rfl := Option.some.inj h
      exact ⟨hvisible, asBytes_of_visible hvisible⟩
    case isFalse => cases h
  · intro h
    obtain ⟨hvisible, htext⟩ := h
    rw [if_pos hvisible]
    congr 1
    exact asBytes_injective ((asBytes_of_visible hvisible).trans htext.symm)

theorem stripPrefix_eq_some {s pat rest : String} :
    stripPrefix s pat = some rest ↔ s = pat ++ rest := by
  unfold stripPrefix startsWith
  constructor
  · intro h
    split at h
    case isTrue hfront =>
      obtain rfl := Option.some.inj h
      obtain ⟨tail, htail⟩ := List.isPrefixOf_iff_prefix.mp hfront
      apply String.toList_injective
      rw [String.toList_append, String.toList_ofList, ← htail, List.drop_left]
    case isFalse => cases h
  · intro h
    subst h
    have hfront : pat.toList.isPrefixOf (pat ++ rest).toList = true := by
      rw [List.isPrefixOf_iff_prefix, String.toList_append]
      exact List.prefix_append _ _
    rw [if_pos hfront, String.toList_append, List.drop_left, String.ofList_toList]

/-- The token that is taken out of a header. -/
theorem extractBearer_eq_some {authorization : Option (List UInt8)} {token : String} :
    extractBearer (authorization.bind toStr) = some token ↔
      Bears authorization token ∧ Readable token := by
  have hall : ∀ text : String, (asBytes ("Bearer " ++ text)).all isVisibleAscii = true ↔
      Readable text := by
    intro text
    have hpre : (asBytes "Bearer ").all isVisibleAscii = true := by decide
    unfold Readable
    rw [asBytes_append, List.all_append, hpre, Bool.true_and]
  unfold extractBearer Bears
  rw [Option.bind_eq_some_iff]
  constructor
  · intro h
    obtain ⟨text, hheader, hstrip⟩ := h
    obtain ⟨value, hvalue, hread⟩ := Option.bind_eq_some_iff.mp hheader
    obtain ⟨hvisible, rfl⟩ := toStr_eq_some.mp hread
    obtain rfl := stripPrefix_eq_some.mp hstrip
    exact ⟨by rw [hvalue, asBytes_append], (hall token).mp hvisible⟩
  · intro h
    obtain ⟨hbears, hreadable⟩ := h
    refine ⟨"Bearer " ++ token, ?_, stripPrefix_eq_some.mpr rfl⟩
    rw [hbears, ← asBytes_append]
    exact toStr_eq_some.mpr ⟨(hall token).mpr hreadable, rfl⟩

/-- A header is let in exactly if it presents a token of the list in visible ASCII. -/
theorem exists_accepted_iff {auth : AuthState} {authorization : Option (List UInt8)} :
    (∃ token, extractBearer (authorization.bind toStr) = some token ∧
        auth.accepts token = true) ↔
      ∃ token ∈ auth.tokens, Bears authorization token ∧ Readable token := by
  constructor
  · intro h
    obtain ⟨token, hextract, haccepts⟩ := h
    exact ⟨token, accepts_eq_true.mp haccepts, extractBearer_eq_some.mp hextract⟩
  · intro h
    obtain ⟨token, htoken, hpresents⟩ := h
    exact ⟨token, extractBearer_eq_some.mpr hpresents, accepts_eq_true.mpr htoken⟩

/-- The gRPC interceptor passes a request on exactly if its header is let in. -/
theorem grpcAuthInterceptor_eq_ok {state : AuthState} {authorization : Option (List UInt8)} :
    grpcAuthInterceptor state authorization = .ok () ↔
      ∃ token ∈ state.tokens, Bears authorization token ∧ Readable token := by
  rw [← exists_accepted_iff]
  unfold grpcAuthInterceptor
  cases extractBearer (authorization.bind toStr) with
  | none => simp
  | some token => simp

theorem restAuthMiddleware_public {α : Type} {state : AuthState} {path : String}
    {authorization : Option (List UInt8)} {next : Except Response α}
    (h : isPublicPath path = true) : restAuthMiddleware state path authorization next = next :=
  if_pos h

/-- On any other path the middleware passes a request on exactly if its header is let in. -/
theorem restAuthMiddleware_eq_ok {α : Type} {state : AuthState} {path : String}
    {authorization : Option (List UInt8)} {next : Except Response α} {served : α}
    (h : isPublicPath path = false) :
    restAuthMiddleware state path authorization next = .ok served ↔
      next = .ok served ∧
        ∃ token ∈ state.tokens, Bears authorization token ∧ Readable token := by
  rw [← exists_accepted_iff]
  unfold restAuthMiddleware
  rw [h]
  cases extractBearer (authorization.bind toStr) with
  | none => simp
  | some token => cases haccepts : state.accepts token <;> simp [haccepts]

end OiTerminal.Api.Auth
