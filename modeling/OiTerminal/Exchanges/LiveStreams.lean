import OiTerminal.Exchanges.Handlers
import OiTerminal.Exchanges.Okx

/-!
# Streams whose pushes carry the whole value

OKX, Bitget and Hyperliquid push the open interest as it is, without deltas. A shard keeps the last
value of each symbol over all its connections, and folds a sample when a push differs from it.
-/
namespace OiTerminal.Exchanges.LiveStreams

open OiTerminal.Core OiTerminal.Core.Time
open OiTerminal.Exchanges.BybitStream OiTerminal.Exchanges.Handlers
open OiTerminal.Lib.Register

set_option autoImplicit false

def asArray : Value → Option (List Value)
  | .array items => some items
  | _ => none

/-- What a push says about a symbol. -/
structure Update where
  symbol : String
  value : Decimal
  price : Option Decimal

/-- What the venues do in their own ways. The keepalive texts are taken before anything is decoded,
and a decoded control message is answered or dropped. -/
structure Dialect where
  exchange : Exchange
  keepalives : List String
  control : Value → Bool
  onMessage : (String → Except String Value) → Message → Except String Reply
  extractOiUpdate : DecimalText → Value → Option Update
  enrich : DecimalArith → RawOi → Except Panic OiSample

/-- The values that the shard has seen last. -/
abbrev Last := String → Option Decimal

namespace Dialect

variable (D : Dialect) (T : DecimalText) (parse : String → Except String Value)

def toRaw (u : Update) (now : Int) : RawOi :=
  let instrument : InstrumentId := ⟨D.exchange, u.symbol⟩
  ⟨instrument, u.value, .coins, floorToMinute now, now,
    u.price.map fun price => ⟨instrument, price, .mark, now⟩⟩

/-- The push of a frame, and the time at which it is handled. -/
def push (r : Received) : Option (Update × Int) :=
  match r.frame with
  | .raw => none
  | .payload value => (D.extractOiUpdate T value).map fun u => (u, r.now)

/-- One turn of the shard, up to the enrichment. A repeat goes no further. -/
def handleFrame (last : Last) (r : Received) : Last × Option RawOi :=
  match D.push T r with
  | none => (last, none)
  | some (u, now) =>
    let changed :=
      match last u.symbol with
      | some v => if v.units = u.value.units then false else true
      | none => true
    if changed then (Function.update last u.symbol (some u.value), some (D.toRaw u now))
    else (last, none)

/-- The samples that the shard folds. A panic ends it. -/
def runShard (A : DecimalArith) (last : Last) : List Received → Except Panic (List OiSample)
  | [] => .ok []
  | r :: rest =>
    let (last, raw) := D.handleFrame T last r
    match raw with
    | none => runShard A last rest
    | some raw => do
      let sample ← D.enrich A raw
      let samples ← runShard A last rest
      return sample :: samples

/-- Whether the handler can decode a message, as far as it tries. -/
def decodable : Message → Bool
  | .text t =>
    if t ∈ D.keepalives then true
    else
      match parse t with
      | .ok _ => true
      | .error _ => false
  | _ => true

/-- What a message pushes, apart from control messages. -/
def reads : Message → Option Update
  | .text t =>
    if t ∈ D.keepalives then none
    else
      match parse t with
      | .ok value => if D.control value then none else D.extractOiUpdate T value
      | .error _ => none
  | _ => none

/-- The pushes of a connection. A message that cannot be decoded ends it. -/
def heard (conn : List Delivery) : List (Update × Int) :=
  (conn.takeWhile fun d => D.decodable parse d.message).filterMap fun d =>
    (D.reads T parse d.message).map fun u => (u, d.now)

/-- A handler fails on what it cannot decode, and the frame that it surfaces is the push. -/
def Surfaces : Prop :=
  ∀ T parse m,
    match D.onMessage parse m with
    | .error _ => D.decodable parse m = false
    | .ok reply => D.decodable parse m = true ∧
        ∀ now, (reply.frame.bind fun frame => D.push T ⟨frame, now⟩) =
          (D.reads T parse m).map fun u => (u, now)

end Dialect

/-- A venue whose handler surfaces its pushes. -/
structure Venue extends Dialect where
  surfaces : toDialect.Surfaces

def symbolOf (p : Update × Int) : String := p.1.symbol

def unitsOf (p : Update × Int) : Int := p.1.value.units

/-- The pushes that differ from the last one of their symbol. -/
def changed (pushes : List (Update × Int)) : List (Update × Int) :=
  keyedChanges symbolOf unitsOf (fun _ => none) pushes

section

variable {D : Dialect} {T : DecimalText} {A : DecimalArith}
  {parse : String → Except String Value}

/-- The last values, as the change filter compares them. -/
def registers (last : Last) : String → Option Int := fun symbol => (last symbol).map Decimal.units

theorem registers_update (last : Last) (u : Update) :
    registers (Function.update last u.symbol (some u.value)) =
      Function.update (registers last) u.symbol (some u.value.units) := by
  funext symbol
  by_cases hown : symbol = u.symbol
  · subst hown
    unfold registers
    rw [Function.update_self, Function.update_self]
    rfl
  · unfold registers
    rw [Function.update_of_ne hown, Function.update_of_ne hown]

/-- One turn lets a push through if it differs from the register of its symbol. -/
theorem handleFrame_push {last : Last} {r : Received} {u : Update} {now : Int}
    (hpush : D.push T r = some (u, now)) :
    D.handleFrame T last r =
      if registers last u.symbol = some u.value.units then (last, none)
      else (Function.update last u.symbol (some u.value), some (D.toRaw u now)) := by
  unfold Dialect.handleFrame registers
  rw [hpush]
  dsimp only
  cases last u.symbol with
  | none => rfl
  | some v =>
    by_cases hsame : v.units = u.value.units
    · simp [hsame]
    · simp [hsame]

theorem handleFrame_other {last : Last} {r : Received} (hpush : D.push T r = none) :
    D.handleFrame T last r = (last, none) := by
  unfold Dialect.handleFrame
  rw [hpush]

theorem runShard_cons (last : Last) (r : Received) (rest : List Received) :
    D.runShard T A last (r :: rest) =
      match D.handleFrame T last r with
      | (last, none) => D.runShard T A last rest
      | (last, some raw) => do
        let sample ← D.enrich A raw
        let samples ← D.runShard T A last rest
        return sample :: samples := by
  rw [Dialect.runShard]
  cases D.handleFrame T last r with
  | mk last raw => cases raw <;> rfl

/-- The shard folds what differs from the registers. -/
theorem runShard_eq (last : Last) (frames : List Received) :
    D.runShard T A last frames =
      (keyedChanges symbolOf unitsOf (registers last) (frames.filterMap (D.push T))).mapM
        fun p => D.enrich A (D.toRaw p.1 p.2) := by
  induction frames generalizing last with
  | nil => rfl
  | cons r rest ih =>
    rw [runShard_cons]
    cases hpush : D.push T r with
    | none =>
      rw [handleFrame_other hpush, List.filterMap_cons_none hpush]
      exact ih last
    | some p =>
      obtain ⟨u, now⟩ := p
      rw [handleFrame_push hpush, List.filterMap_cons_some hpush, keyedChanges]
      change _ = (if registers last u.symbol = some u.value.units then _ else _ : List _).mapM _
      by_cases hsame : registers last u.symbol = some u.value.units
      · rw [if_pos hsame, if_pos hsame]
        exact ih last
      · rw [if_neg hsame, if_neg hsame, List.mapM_cons]
        have hrest := ih (Function.update last u.symbol (some u.value))
        rw [registers_update] at hrest
        dsimp only
        rw [hrest]
        rfl

theorem heard_cons (d : Delivery) (rest : List Delivery) :
    D.heard T parse (d :: rest) =
      if D.decodable parse d.message then
        ((D.reads T parse d.message).map fun u => (u, d.now)).toList ++ D.heard T parse rest
      else [] := by
  unfold Dialect.heard
  rw [List.takeWhile_cons]
  by_cases hdecodable : D.decodable parse d.message = true
  · rw [if_pos hdecodable, if_pos hdecodable, List.filterMap_cons]
    cases D.reads T parse d.message <;> rfl
  · rw [if_neg hdecodable, if_neg hdecodable, List.filterMap_nil]

/-- The frames of a connection carry the pushes that were heard on it. -/
theorem filterMap_connectOnce (hsurfaces : D.Surfaces) (conn : List Delivery) :
    (connectOnce (D.onMessage parse) conn).filterMap (D.push T) = D.heard T parse conn := by
  induction conn with
  | nil => rfl
  | cons d rest ih =>
    have hd := hsurfaces T parse d.message
    rw [heard_cons]
    unfold connectOnce
    cases hreply : D.onMessage parse d.message with
    | error e =>
      rw [hreply] at hd
      rw [if_neg (by simp [hd])]
      rfl
    | ok reply =>
      rw [hreply] at hd
      obtain ⟨hdecodable, hframe⟩ := hd
      dsimp only
      rw [if_pos hdecodable, List.filterMap_append, ih, ← hframe d.now]
      cases reply.frame with
      | none => rfl
      | some frame =>
        rw [Option.toList_some, List.map_singleton, Option.bind_some, List.filterMap_cons]
        cases D.push T ⟨frame, d.now⟩ <;> rfl

end

/-! ### The three venues -/

section

variable (T : DecimalText)

def okxRow (row : Value) : Okx.PushRow where
  instId := textOf row "instId"
  oiCcy := textOf row "oiCcy"

/-- The texts of a frame that the OKX parser looks at. -/
def okxPush (frame : Value) : Okx.Push where
  channel := (frame.get "arg").bind fun arg => textOf arg "channel"
  data := ((frame.get "data").bind asArray).map fun rows => rows.map okxRow

def okxExtract (frame : Value) : Option Update :=
  (Okx.extractOiUpdate T (okxPush frame)).map fun (instId, value) => ⟨instId, value, none⟩

def bitgetExtract (frame : Value) : Option Update := do
  let channel ← (← (← frame.get "arg").get "channel").asStr
  if channel ≠ "ticker" then none
  else
    let row ← (← asArray (← frame.get "data")).head?
    let instId ← (← row.get "instId").asStr
    let value ← pickDecimal T row "holdingAmount"
    return ⟨instId, value, pickDecimal T row "markPrice"⟩

def hyperliquidExtract (frame : Value) : Option Update := do
  let channel ← (← frame.get "channel").asStr
  if channel ≠ "activeAssetCtx" then none
  else
    let data ← frame.get "data"
    let coin ← (← data.get "coin").asStr
    let ctx ← data.get "ctx"
    let value ← pickDecimal T ctx "openInterest"
    return ⟨coin, value, pickDecimal T ctx "markPx"⟩

end

def okxDialect : Dialect where
  exchange := .okx
  keepalives := ["pong", "ping"]
  control value := (value.get "event").isSome
  onMessage := plainTextOnMessage
  extractOiUpdate := okxExtract
  enrich _ raw := .ok (Okx.enrichOkx raw)

def bitgetDialect : Dialect where
  exchange := .bitget
  keepalives := ["pong", "ping"]
  control value := (value.get "event").isSome
  onMessage := plainTextOnMessage
  extractOiUpdate := bitgetExtract
  enrich := enrichBitget

def hyperliquidDialect : Dialect where
  exchange := .hyperliquid
  keepalives := []
  control value := textOf value "method" = some "ping"
  onMessage := HyperliquidActiveAssetCtxWs.onMessage
  extractOiUpdate := hyperliquidExtract
  enrich := enrichHyperliquid

section

variable {T : DecimalText}

/-- The raw value of OKX is the one that its own builder makes. -/
theorem okx_toRaw (u : Update) (now : Int) (h : u.price = none) :
    okxDialect.toRaw u now = Okx.toRaw u.symbol u.value now := by
  unfold Dialect.toRaw Okx.toRaw
  rw [h]
  rfl

theorem okxExtract_arg {value : Value} (h : value.get "arg" = none) : okxExtract T value = none := by
  unfold okxExtract Okx.extractOiUpdate okxPush
  rw [h]
  rfl

theorem bitgetExtract_arg {value : Value} (h : value.get "arg" = none) :
    bitgetExtract T value = none := by
  unfold bitgetExtract
  rw [h]
  rfl

/-- OKX and Bitget surface whatever has an argument and is no event. -/
theorem plainText_surfaces {D : Dialect} (hkeepalives : D.keepalives = ["pong", "ping"])
    (hcontrol : ∀ value, D.control value = (value.get "event").isSome)
    (hmessage : D.onMessage = plainTextOnMessage)
    (harg : ∀ T value, value.get "arg" = none → D.extractOiUpdate T value = none) :
    D.Surfaces := by
  intro T parse m
  rw [hmessage]
  cases m with
  | binary lossy => exact ⟨rfl, fun _ => rfl⟩
  | other => exact ⟨rfl, fun _ => rfl⟩
  | text t =>
    unfold plainTextOnMessage Dialect.decodable Dialect.reads
    rw [hkeepalives]
    dsimp only
    by_cases hpong : t = "pong"
    · subst hpong
      exact ⟨rfl, fun _ => rfl⟩
    by_cases hping : t = "ping"
    · subst hping
      exact ⟨rfl, fun _ => rfl⟩
    have hplain : t ∉ ["pong", "ping"] := by simp [hpong, hping]
    rw [if_neg hpong, if_neg hping, if_neg hplain, if_neg hplain]
    cases parse t with
    | error e => rfl
    | ok value =>
      refine ⟨rfl, fun now => ?_⟩
      dsimp only
      rw [hcontrol]
      by_cases hevent : (value.get "event").isSome = true
      · rw [if_pos hevent, if_pos hevent]
        rfl
      rw [if_neg hevent, if_neg hevent]
      cases hsome : value.get "arg" with
      | none =>
        rw [harg T value hsome]
        rfl
      | some arg => rfl

theorem hyperliquidExtract_channel {value : Value}
    (h : textOf value "channel" ≠ some "activeAssetCtx") : hyperliquidExtract T value = none := by
  unfold textOf at h
  unfold hyperliquidExtract
  cases hvalue : value.get "channel" with
  | none => rfl
  | some field =>
    rw [hvalue] at h
    cases htext : field.asStr with
    | none => simp [htext]
    | some channel =>
      have hother : channel ≠ "activeAssetCtx" := fun heq => h (heq ▸ htext)
      simp [htext, hother]

/-- Hyperliquid surfaces whatever has a channel and is no acknowledgement, no error and no ping. -/
theorem hyperliquid_surfaces : hyperliquidDialect.Surfaces := by
  intro T parse m
  have hmessage : hyperliquidDialect.onMessage = HyperliquidActiveAssetCtxWs.onMessage := rfl
  rw [hmessage]
  cases m with
  | binary lossy => exact ⟨rfl, fun _ => rfl⟩
  | other => exact ⟨rfl, fun _ => rfl⟩
  | text t =>
    have hplain : t ∉ hyperliquidDialect.keepalives := List.not_mem_nil
    unfold HyperliquidActiveAssetCtxWs.onMessage Dialect.decodable Dialect.reads
    dsimp only
    rw [if_neg hplain, if_neg hplain]
    cases parse t with
    | error e => rfl
    | ok value =>
      refine ⟨rfl, fun now => ?_⟩
      dsimp only
      have hother : ∀ {name}, textOf value "channel" = some name → name ≠ "activeAssetCtx" →
          hyperliquidDialect.extractOiUpdate T value = none := by
        intro name hname hne
        refine hyperliquidExtract_channel fun hchannel => hne ?_
        rw [hname] at hchannel
        exact Option.some.inj hchannel
      split
      case h_1 hname => rw [hother hname (by decide), ite_self]; rfl
      case h_2 hname => rw [hother hname (by decide), ite_self]; rfl
      case h_3 hname => rw [hother hname (by decide), ite_self]; rfl
      case h_4 =>
        by_cases hping : textOf value "method" = some "ping"
        · have hcontrol : hyperliquidDialect.control value = true := decide_eq_true hping
          rw [if_pos hping, if_pos hcontrol]
          rfl
        have hcontrol : ¬ hyperliquidDialect.control value = true :=
          fun h => hping (of_decide_eq_true h)
        rw [if_neg hping, if_neg hcontrol]
        by_cases hsome : (textOf value "channel").isSome = true
        · rw [if_pos hsome]
          rfl
        · have hnone : hyperliquidDialect.extractOiUpdate T value = none :=
            hyperliquidExtract_channel fun hchannel => hsome (by rw [hchannel]; rfl)
          rw [if_neg hsome, hnone]
          rfl

end

def okx : Venue := ⟨okxDialect,
  plainText_surfaces rfl (fun _ => rfl) rfl fun _ _ h => okxExtract_arg h⟩

def bitget : Venue := ⟨bitgetDialect,
  plainText_surfaces rfl (fun _ => rfl) rfl fun _ _ h => bitgetExtract_arg h⟩

def hyperliquid : Venue := ⟨hyperliquidDialect, hyperliquid_surfaces⟩

/-- Over all connections of a shard, a sample is folded for each push that differs from the last one
of its symbol: for each symbol these are its pushes without consecutive repeats. Reconnects, control
messages and the other symbols make no difference. -/
theorem folds_each_change (V : Venue) (A : DecimalArith) (T : DecimalText)
    (parse : String → Except String Value) (conns : List (List Delivery)) :
    let pushes := conns.flatMap (V.heard T parse)
    V.runShard T A (fun _ => none) (conns.flatMap (connectOnce (V.onMessage parse))) =
        (changed pushes).mapM (fun p => V.enrich A (V.toRaw p.1 p.2)) ∧
      ∀ symbol, (changed pushes).filter (fun p => symbolOf p = symbol) =
        (pushes.filter fun p => symbolOf p = symbol).destutter fun a b => unitsOf a ≠ unitsOf b := by
  intro pushes
  have hpushes : (conns.flatMap (connectOnce (V.onMessage parse))).filterMap (V.push T) =
      pushes := by
    rw [List.filterMap_flatMap]
    exact List.flatMap_congr fun conn _ => filterMap_connectOnce V.surfaces conn
  refine ⟨?samples, fun symbol => ?values⟩
  case samples =>
    rw [runShard_eq, hpushes]
    rfl
  case values =>
    rw [changed, filter_keyedChanges]
    exact changesFrom_none unitsOf _

end OiTerminal.Exchanges.LiveStreams
