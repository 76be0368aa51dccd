import OiTerminal.Exchanges.BybitStream
import OiTerminal.Lib.Chunks

/-!
# The handlers of the venue sockets

A handler sends its subscriptions when the handshake is done, answers what the venue expects to
be answered, and surfaces the rest as frames. The symbols of a venue are spread over connections,
and over the messages of a connection.
-/
namespace OiTerminal.Exchanges.Handlers

open OiTerminal.Core
open OiTerminal.Exchanges.BybitStream
open OiTerminal.Lib.Chunks

set_option autoImplicit false

/-- A message that goes to the handler. Binary data are given by their lossy text. -/
inductive Message where
  | text (t : String)
  | binary (lossy : String)
  | other

/-- The text that the handler sends, and the frame that it surfaces. -/
structure Reply where
  sent : Option String
  frame : Option Frame

def Reply.none : Reply := ⟨.none, .none⟩

def Reply.answer (text : String) : Reply := ⟨some text, .none⟩

def Reply.payload (value : Value) : Reply := ⟨.none, some (.payload value)⟩

def textOf (value : Value) (key : String) : Option String := (value.get key).bind Value.asStr

/-- The messages that `on_connect` sends, and `on_message`. -/
structure Handler where
  onConnect : List Value
  onMessage : Message → Except String Reply

section

variable (parse : String → Except String Value)

/-- OKX and Bitget keep the connection alive with plain text, and tell their acknowledgements by
an `event` field. -/
def plainTextOnMessage : Message → Except String Reply
  | .text t =>
    if t = "pong" then .ok .none
    else if t = "ping" then .ok (.answer "pong")
    else
      (parse t).map fun value =>
        if (value.get "event").isSome then .none
        else if (value.get "arg").isSome then .payload value
        else .none
  | _ => .ok .none

/-- A message, and the time at which its frame is handled, if it has one. -/
structure Delivery where
  message : Message
  now : Int

/-- The frames that a connection surfaces: `connect_once` goes on until the handler fails. The
messages are those that arrive before the connection ends in another way. -/
def connectOnce (onMessage : Message → Except String Reply) : List Delivery → List Received
  | [] => []
  | d :: rest =>
    match onMessage d.message with
    | .error _ => []
    | .ok reply =>
      (reply.frame.toList.map fun frame => ⟨frame, d.now⟩) ++ connectOnce onMessage rest

/-- A subscribe message with these arguments. -/
def subscribeTo (args : List Value) : Value :=
  .object [("op", .string "subscribe"), ("args", .array args)]

namespace OkxOpenInterestWs

def maxArgsPerSub : ℕ := 40

def subscribeArg (instId : String) : Value :=
  .object [("channel", .string "open-interest"), ("instId", .string instId)]

def handler (instIds : List String) : Handler where
  onConnect := (chunks maxArgsPerSub instIds).map fun chunk => subscribeTo (chunk.map subscribeArg)
  onMessage := plainTextOnMessage parse

/-- The shards of `spawn_okx_live`. -/
def shards (instIds : List String) : List (List String) := chunks 200 instIds

end OkxOpenInterestWs

namespace BitgetTickerWs

def maxArgsPerSub : ℕ := 50

def subArg (instId : String) : Value :=
  .object [("instType", .string "USDT-FUTURES"), ("channel", .string "ticker"),
    ("instId", .string instId)]

def handler (instIds : List String) : Handler where
  onConnect := (chunks maxArgsPerSub instIds).map fun chunk => subscribeTo (chunk.map subArg)
  onMessage := plainTextOnMessage parse

/-- The shards of `spawn_bitget_live`. -/
def shards (instIds : List String) : List (List String) := chunks 150 instIds

end BitgetTickerWs

namespace HyperliquidActiveAssetCtxWs

def subscribe (coin : String) : Value :=
  .object [("method", .string "subscribe"),
    ("subscription", .object [("type", .string "activeAssetCtx"), ("coin", .string coin)])]

def ping : Value := .object [("method", .string "ping")]

def pongText : String := "\x7b\"method\":\"pong\"\x7d"

/-- An error frame may concern one subscription only, so the connection is kept. -/
def onMessage : Message → Except String Reply
  | .text t =>
    (parse t).map fun value =>
      match textOf value "channel" with
      | some "pong" | some "subscriptionResponse" | some "error" => .none
      | channel =>
        if textOf value "method" = some "ping" then .answer pongText
        else if channel.isSome then .payload value
        else .none
  | _ => .ok .none

def handler (coins : List String) : Handler where
  onConnect := coins.map subscribe ++ [ping]
  onMessage := onMessage parse

/-- `spawn_hyperliquid_live` opens one connection, unless there is no coin. -/
def shards (coins : List String) : List (List String) := if coins = [] then [] else [coins]

end HyperliquidActiveAssetCtxWs

namespace BybitTickersWs

def maxArgsPerSub : ℕ := 10

def topic (symbol : String) : String := "tickers." ++ symbol

def pongText : String := "\x7b\"op\":\"pong\"\x7d"

def onText (t : String) : Except String Reply :=
  match parse t with
  | .error e => .error ("bybit ws decode: " ++ e)
  | .ok value =>
    match textOf value "op" with
    | some "ping" => .ok (.answer pongText)
    | some "pong" | some "subscribe" | some "unsubscribe" | some "auth" => .ok .none
    | _ => .ok ⟨.none, some (if (value.get "topic").isSome then .payload value else .raw)⟩

def onMessage : Message → Except String Reply
  | .text t => onText parse t
  | .binary lossy => onText parse lossy
  | .other => .ok .none

def handler (symbols : List String) : Handler where
  onConnect := (chunks maxArgsPerSub (symbols.map topic)).map fun chunk =>
    subscribeTo (chunk.map Value.string)
  onMessage := onMessage parse

/-- The shards of `spawn_bybit_live`. -/
def shards (symbols : List String) : List (List String) := chunks 400 symbols

end BybitTickersWs

end

/-- The arguments of a subscribe message. -/
def argsOf (message : Value) : List Value :=
  match textOf message "op", message.get "args" with
  | some "subscribe", some (.array args) => args
  | _, _ => []

/-- How the symbols of a venue are spread: the connections, the handler of one, what the venue reads
from a message, and the most symbols of a connection, if that is bounded, and of a message. -/
structure Feed where
  shards : List String → List (List String)
  handler : (String → Except String Value) → List String → Handler
  requested : Value → List String
  connectionCap : Option ℕ
  messageCap : ℕ

def okx : Feed where
  shards := OkxOpenInterestWs.shards
  handler := OkxOpenInterestWs.handler
  requested message := (argsOf message).filterMap fun arg =>
    if textOf arg "channel" = some "open-interest" then textOf arg "instId" else none
  connectionCap := some 200
  messageCap := 40

def bitget : Feed where
  shards := BitgetTickerWs.shards
  handler := BitgetTickerWs.handler
  requested message := (argsOf message).filterMap fun arg =>
    if textOf arg "instType" = some "USDT-FUTURES" ∧ textOf arg "channel" = some "ticker" then
      textOf arg "instId"
    else none
  connectionCap := some 150
  messageCap := 50

def hyperliquid : Feed where
  shards := HyperliquidActiveAssetCtxWs.shards
  handler := HyperliquidActiveAssetCtxWs.handler
  requested message :=
    match textOf message "method", message.get "subscription" with
    | some "subscribe", some body =>
      if textOf body "type" = some "activeAssetCtx" then (textOf body "coin").toList else []
    | _, _ => []
  connectionCap := none
  messageCap := 1

def bybit : Feed where
  shards := BybitTickersWs.shards
  handler := BybitTickersWs.handler
  requested message := (argsOf message).filterMap fun arg =>
    arg.asStr.bind fun topic => stripPrefix topic "tickers."
  connectionCap := some 400
  messageCap := 10

def feeds : List Feed := [okx, bitget, hyperliquid, bybit]

/-- All connections together ask for each symbol once, in order. None of them is idle, and none
exceeds a bound. -/
structure Covers (F : Feed) (parse : String → Except String Value) (symbols : List String) :
    Prop where
  requested : ((F.shards symbols).flatMap fun shard =>
    (F.handler parse shard).onConnect.flatMap F.requested) = symbols
  connections : ∀ shard ∈ F.shards symbols, shard ≠ [] ∧ ∀ cap ∈ F.connectionCap, shard.length ≤ cap
  messages : ∀ shard ∈ F.shards symbols, ∀ message ∈ (F.handler parse shard).onConnect,
    (F.requested message).length ≤ F.messageCap

section

variable {parse : String → Except String Value} {read : Value → Option String} {arg : String → Value}

theorem argsOf_subscribeTo (args : List Value) : argsOf (subscribeTo args) = args := rfl

theorem filterMap_read (hread : ∀ symbol, read (arg symbol) = some symbol) (symbols : List String) :
    (symbols.map arg).filterMap read = symbols := by
  rw [List.filterMap_map, show (read ∘ arg) = some from funext hread, List.filterMap_some]

/-- The messages of a connection that cuts its symbols into chunks. -/
theorem requested_chunks (hread : ∀ symbol, read (arg symbol) = some symbol) (n : ℕ)
    (symbols : List String) :
    ((chunks n symbols).map fun chunk => subscribeTo (chunk.map arg)).flatMap
      (fun message => (argsOf message).filterMap read) = symbols := by
  have hchunk : (fun chunk => (argsOf (subscribeTo (chunk.map arg))).filterMap read) =
      (id : List String → List String) := funext fun chunk => filterMap_read hread chunk
  rw [List.flatMap_map, hchunk, List.flatMap_id, flatten_chunks]

theorem requested_le {n : ℕ} (hn : 0 < n) (hread : ∀ symbol, read (arg symbol) = some symbol)
    {symbols : List String} {message : Value}
    (h : message ∈ (chunks n symbols).map fun chunk => subscribeTo (chunk.map arg)) :
    ((argsOf message).filterMap read).length ≤ n := by
  obtain ⟨chunk, hchunk, rfl⟩ := List.mem_map.mp h
  rw [argsOf_subscribeTo, filterMap_read hread]
  exact (length_le_of_mem_chunks hn hchunk).2

/-- A venue whose connections are chunks of the symbols. -/
theorem flatMap_shards (n : ℕ) (symbols : List String) {ask : List String → List String}
    (hask : ∀ shard, ask shard = shard) : (chunks n symbols).flatMap ask = symbols := by
  rw [show ask = id from funext hask, List.flatMap_id, flatten_chunks]

theorem flatMap_singleton_some (symbols : List String) {ask : String → List String}
    (hask : ∀ symbol, ask symbol = [symbol]) : symbols.flatMap ask = symbols := by
  rw [show ask = fun symbol => [symbol] from funext hask]
  exact List.flatMap_singleton' symbols

end

theorem stripPrefix_append (front s : String) : stripPrefix (front ++ s) front = some s := by
  unfold stripPrefix
  rw [String.toList_append, if_pos, List.drop_left, String.ofList_toList]
  exact List.isPrefixOf_iff_prefix.mpr (List.prefix_append _ _)

/-- A feed that cuts its symbols into connections of `n` and these into messages of `m`. -/
structure Chunked (F : Feed) (n m : ℕ) (read : Value → Option String) (arg : String → Value)
    (parse : String → Except String Value) : Prop where
  shards : F.shards = chunks n
  onConnect : ∀ shard, (F.handler parse shard).onConnect =
    (chunks m shard).map fun chunk => subscribeTo (chunk.map arg)
  requested : F.requested = fun message => (argsOf message).filterMap read
  read_arg : ∀ symbol, read (arg symbol) = some symbol
  connectionCap : ∀ cap ∈ F.connectionCap, n ≤ cap
  messageCap : m ≤ F.messageCap

theorem Chunked.covers {F : Feed} {n m : ℕ} {read : Value → Option String} {arg : String → Value}
    {parse : String → Except String Value} (h : Chunked F n m read arg parse) (hn : 0 < n)
    (hm : 0 < m) (symbols : List String) : Covers F parse symbols where
  requested := by
    rw [h.shards, h.requested]
    refine flatMap_shards n symbols fun shard => ?_
    rw [h.onConnect]
    exact requested_chunks h.read_arg m shard
  connections shard hshard := by
    rw [h.shards] at hshard
    obtain ⟨hbusy, hlength⟩ := length_le_of_mem_chunks hn hshard
    exact ⟨hbusy, fun cap hcap => hlength.trans (h.connectionCap cap hcap)⟩
  messages shard _ message hmessage := by
    rw [h.onConnect] at hmessage
    rw [h.requested]
    exact (requested_le hm h.read_arg hmessage).trans h.messageCap

theorem le_cap_of_mem {n c cap : ℕ} (h : n ≤ c) (hcap : cap ∈ some c) : n ≤ cap := by
  obtain rfl := Option.mem_some.mp hcap
  exact h

section

variable (parse : String → Except String Value) (symbols : List String)

theorem okx_covers : Covers okx parse symbols :=
  Chunked.covers (n := 200) (m := 40) ⟨rfl, fun _ => rfl, rfl, fun _ => rfl,
    fun _ => le_cap_of_mem (by omega), by decide⟩ (by omega) (by omega) symbols

theorem bitget_covers : Covers bitget parse symbols :=
  Chunked.covers (n := 150) (m := 50) ⟨rfl, fun _ => rfl, rfl, fun _ => rfl,
    fun _ => le_cap_of_mem (by omega), by decide⟩ (by omega) (by omega) symbols

/-- One message for a coin, and a ping, which asks for nothing. -/
theorem hyperliquid_covers : Covers hyperliquid parse symbols where
  requested := by
    have hone : ∀ shard, ((hyperliquid.handler parse shard).onConnect.flatMap
        hyperliquid.requested) = shard := by
      intro shard
      have hcoins : (shard.map HyperliquidActiveAssetCtxWs.subscribe).flatMap
          hyperliquid.requested = shard := by
        rw [List.flatMap_map]
        exact flatMap_singleton_some shard fun _ => rfl
      change (shard.map _ ++ [HyperliquidActiveAssetCtxWs.ping]).flatMap _ = shard
      rw [List.flatMap_append, hcoins]
      exact List.append_nil shard
    change (HyperliquidActiveAssetCtxWs.shards symbols).flatMap _ = symbols
    unfold HyperliquidActiveAssetCtxWs.shards
    split
    case isTrue hnone => rw [hnone, List.flatMap_nil]
    case isFalse => rw [List.flatMap_singleton, hone]
  connections shard hshard := by
    refine ⟨?_, fun cap hmem => absurd hmem (Option.not_mem_none cap)⟩
    change shard ∈ HyperliquidActiveAssetCtxWs.shards symbols at hshard
    unfold HyperliquidActiveAssetCtxWs.shards at hshard
    split at hshard
    case isTrue => cases hshard
    case isFalse hsome =>
      obtain rfl := List.mem_singleton.mp hshard
      exact hsome
  messages shard _ message hmessage := by
    rcases List.mem_append.mp hmessage with hcoin | hping
    · obtain ⟨coin, _, rfl⟩ := List.mem_map.mp hcoin
      exact le_refl 1
    · obtain rfl := List.mem_singleton.mp hping
      exact Nat.zero_le 1

/-- The topics of a message are those of a chunk of the symbols. -/
theorem bybit_onConnect : (bybit.handler parse symbols).onConnect =
    (chunks 10 symbols).map fun chunk =>
      subscribeTo (chunk.map fun symbol => .string (BybitTickersWs.topic symbol)) := by
  change (chunks 10 (symbols.map BybitTickersWs.topic)).map _ = _
  rw [chunks_map, List.map_map]
  refine List.map_congr_left fun chunk _ => ?_
  exact congrArg subscribeTo List.map_map

theorem bybit_covers : Covers bybit parse symbols :=
  Chunked.covers (n := 400) (m := 10) ⟨rfl, bybit_onConnect parse, rfl,
    fun symbol => stripPrefix_append "tickers." symbol, fun _ => le_cap_of_mem (by omega),
    by decide⟩ (by omega) (by omega) symbols

end

/-- Whatever the symbols of a venue are, the live feeds subscribe to all of them, to each as often
as it is listed, within the bounds on a connection and a message. -/
theorem subscriptions_cover_symbols : ∀ F ∈ feeds, ∀ parse symbols, Covers F parse symbols := by
  intro F hF parse symbols
  rcases List.mem_cons.mp hF with rfl | hF
  · exact okx_covers parse symbols
  rcases List.mem_cons.mp hF with rfl | hF
  · exact bitget_covers parse symbols
  rcases List.mem_cons.mp hF with rfl | hF
  · exact hyperliquid_covers parse symbols
  obtain rfl := List.mem_singleton.mp hF
  exact bybit_covers parse symbols

/-- More symbols than a connection takes, and than a message of the second one. -/
theorem bybit_covers_411 :
    let symbols := (List.range 411).map fun i => "SYMBOL" ++ toString i
    (bybit.shards symbols).map List.length = [400, 11] ∧
      ((bybit.shards symbols).map fun shard =>
        (bybit.handler (fun _ => .ok .null) shard).onConnect.length) = [40, 2] ∧
      Covers bybit (fun _ => .ok .null) symbols := by
  intro symbols
  refine ⟨by decide +kernel, by decide +kernel, ?_⟩
  exact subscriptions_cover_symbols bybit (by simp [feeds]) _ symbols

end OiTerminal.Exchanges.Handlers
