import OiTerminal.Core.Snapshot
import OiTerminal.Storage.ClickHouse
import OiTerminal.Storage.Wal

/-!
# The pub/sub bus

Every snapshot goes to the firehose and to the channel of its exchange, as two commands of one
pipeline. Redis may execute any number of the commands of a pipeline that fails.
-/
namespace OiTerminal.Storage.PubSub

open OiTerminal.Core
open OiTerminal.Storage.ClickHouse

set_option autoImplicit false

def firehoseChannel : String := "oi:stream"

def exchangeChannel (ex : Exchange) : String := firehoseChannel ++ ":" ++ ex.code

theorem exchangeChannel_injective {ex ex' : Exchange}
    (h : exchangeChannel ex = exchangeChannel ex') : ex = ex' := by
  have hlist := congrArg String.toList h
  simp only [exchangeChannel, String.toList_append, List.append_right_inj] at hlist
  exact Exchange.code_injective (String.toList_injective hlist)

theorem exchangeChannel_ne_firehose (ex : Exchange) : exchangeChannel ex ≠ firehoseChannel := by
  cases ex <;> decide

/-- The MessagePack codec of one snapshot. Decoding inverts encoding where the latter succeeds. -/
structure SnapCodec where
  encode : OiSnapshot → Except String Bytes
  decode : Bytes → Option OiSnapshot
  decode_encode : ∀ snap bytes, encode snap = .ok bytes → decode bytes = some snap

/-- A `PUBLISH`: its channel and its payload. -/
abbrev Command := String × Bytes

/-- The messages of a channel, among all that the bus has carried. -/
def onChannel (channel : String) (bus : List Command) : List Bytes :=
  (bus.filter fun cmd => cmd.1 = channel).map Prod.snd

section

variable (C : SnapCodec)

/-- The commands of a pipeline. A snapshot that does not encode ends the call before any of them
is sent. -/
def pipeline : List OiSnapshot → Except CoreError (List Command)
  | [] => .ok []
  | s :: rest =>
    match C.encode s with
    | .error e => .error (.storage ("msgpack: " ++ e))
    | .ok bytes => (pipeline rest).map fun more =>
        (firehoseChannel, bytes) :: (exchangeChannel s.instrument.exchange, bytes) :: more

/-- One call of `publish`: its snapshots, how many commands Redis executes, and its answer. -/
structure PublishCall where
  snaps : List OiSnapshot
  executed : Nat
  answer : Except String Unit

def redisErr (e : String) : CoreError := .storage ("redis: " ++ e)

/-- The commands that a call puts on the bus, and what it returns. -/
def publish (call : PublishCall) : List Command × Except CoreError Unit :=
  if call.snaps = [] then ([], .ok ())
  else
    match pipeline C call.snaps with
    | .error e => ([], .error e)
    | .ok cmds => (cmds.take call.executed, call.answer.mapError redisErr)

/-- The bus after the calls. -/
def busAfter (calls : List PublishCall) : List Command := calls.flatMap fun call => (publish C call).1

/-- What a subscriber decodes. A payload that does not decode is passed over. -/
def stream (channel : String) (bus : List Command) : List OiSnapshot :=
  (onChannel channel bus).filterMap C.decode

/-- The pipeline of this call did not break off between the two commands of a snapshot. -/
def Unbroken (call : PublishCall) : Prop :=
  ∀ cmds, pipeline C call.snaps = .ok cmds → call.executed % 2 = 0 ∨ cmds.length ≤ call.executed

end

variable {C : SnapCodec} {snaps rest : List OiSnapshot} {cmds : List Command} {call : PublishCall}
  {calls : List PublishCall}

@[simp] theorem onChannel_append (channel : String) (bus more : List Command) :
    onChannel channel (bus ++ more) = onChannel channel bus ++ onChannel channel more := by
  simp [onChannel]

@[simp] theorem stream_append (channel : String) (bus more : List Command) :
    stream C channel (bus ++ more) = stream C channel bus ++ stream C channel more := by
  simp [stream]

theorem stream_cons_self (channel : String) (bytes : Bytes) (bus : List Command) :
    stream C channel ((channel, bytes) :: bus) = (C.decode bytes).toList ++ stream C channel bus := by
  unfold stream onChannel
  rw [List.filter_cons_of_pos (by simp), List.map_cons, List.filterMap_cons]
  cases C.decode bytes <;> rfl

theorem stream_cons_ne {channel other : String} (h : other ≠ channel) (bytes : Bytes)
    (bus : List Command) : stream C channel ((other, bytes) :: bus) = stream C channel bus := by
  unfold stream onChannel
  rw [List.filter_cons_of_neg (by simpa using h)]

theorem pipeline_cons {s : OiSnapshot} (h : pipeline C (s :: rest) = .ok cmds) :
    ∃ bytes more, C.encode s = .ok bytes ∧ pipeline C rest = .ok more ∧
      cmds = (firehoseChannel, bytes) ::
        (exchangeChannel s.instrument.exchange, bytes) :: more := by
  rw [pipeline] at h
  cases hbytes : C.encode s with
  | error e => simp [hbytes] at h
  | ok bytes =>
    cases hmore : pipeline C rest with
    | error e => simp [hbytes, hmore, Except.map] at h
    | ok more =>
      simp only [hbytes, hmore, Except.map, Except.ok.injEq] at h
      exact ⟨bytes, more, rfl, rfl, h.symm⟩

theorem pipeline_length (h : pipeline C snaps = .ok cmds) : cmds.length = 2 * snaps.length := by
  induction snaps generalizing cmds with
  | nil =>
    obtain rfl := Except.ok.inj h
    rfl
  | cons s rest ih =>
    obtain ⟨bytes, more, -, hmore, rfl⟩ := pipeline_cons h
    rw [List.length_cons, List.length_cons, List.length_cons, ih hmore]
    omega

/-- After `k` commands of a pipeline the firehose has carried the snapshots up to the half of
`k`, rounded up. -/
theorem firehose_take (h : pipeline C snaps = .ok cmds) (k : Nat) :
    stream C firehoseChannel (cmds.take k) = snaps.take ((k + 1) / 2) := by
  induction snaps generalizing cmds k with
  | nil =>
    obtain rfl := Except.ok.inj h
    simp [stream, onChannel]
  | cons s rest ih =>
    obtain ⟨bytes, more, hbytes, hmore, rfl⟩ := pipeline_cons h
    have hdecode := C.decode_encode s bytes hbytes
    have hne := exchangeChannel_ne_firehose s.instrument.exchange
    match k with
    | 0 => rfl
    | 1 =>
      rw [List.take_succ_cons, stream_cons_self, hdecode]
      rfl
    | k + 2 =>
      have hhalf : (k + 2 + 1) / 2 = (k + 1) / 2 + 1 := by omega
      rw [List.take_succ_cons, List.take_succ_cons, stream_cons_self, stream_cons_ne hne, hdecode,
        ih hmore, hhalf, List.take_succ_cons]
      rfl

/-- The channel of an exchange has carried those of its snapshots up to the half, rounded down. -/
theorem exchange_take (h : pipeline C snaps = .ok cmds) (ex : Exchange) (k : Nat) :
    stream C (exchangeChannel ex) (cmds.take k) =
      (snaps.take (k / 2)).filter fun s => s.instrument.exchange = ex := by
  induction snaps generalizing cmds k with
  | nil =>
    obtain rfl := Except.ok.inj h
    simp [stream, onChannel]
  | cons s rest ih =>
    obtain ⟨bytes, more, hbytes, hmore, rfl⟩ := pipeline_cons h
    have hdecode := C.decode_encode s bytes hbytes
    have hne := (exchangeChannel_ne_firehose ex).symm
    match k with
    | 0 => rfl
    | 1 =>
      rw [List.take_succ_cons, stream_cons_ne hne]
      rfl
    | k + 2 =>
      have hhalf : (k + 2) / 2 = k / 2 + 1 := by omega
      rw [List.take_succ_cons, List.take_succ_cons, stream_cons_ne hne, hhalf, List.take_succ_cons]
      by_cases hex : s.instrument.exchange = ex
      · rw [hex, stream_cons_self, hdecode, ih hmore, List.filter_cons_of_pos (by simpa using hex)]
        rfl
      · have hother : exchangeChannel s.instrument.exchange ≠ exchangeChannel ex := fun heq =>
          hex (exchangeChannel_injective heq)
        rw [stream_cons_ne hother, ih hmore, List.filter_cons_of_neg (by simpa using hex)]

/-- The snapshots of one exchange. -/
def ofExchange (ex : Exchange) (snaps : List OiSnapshot) : List OiSnapshot :=
  snaps.filter fun s => s.instrument.exchange = ex

@[simp] theorem ofExchange_append (ex : Exchange) (snaps more : List OiSnapshot) :
    ofExchange ex (snaps ++ more) = ofExchange ex snaps ++ ofExchange ex more :=
  List.filter_append ..

/-- What one call adds to a channel, seen from the snapshots of the call. -/
theorem publish_streams (C : SnapCodec) (call : PublishCall) :
    (∃ k, (∃ cmds, pipeline C call.snaps = .ok cmds ∧ k = min call.executed cmds.length) ∧
      stream C firehoseChannel (publish C call).1 = call.snaps.take ((k + 1) / 2) ∧
      ∀ ex, stream C (exchangeChannel ex) (publish C call).1 =
        ofExchange ex (call.snaps.take (k / 2))) ∨
    ((∃ e, pipeline C call.snaps = .error e) ∧ (publish C call).1 = []) := by
  unfold publish
  by_cases hempty : call.snaps = []
  · left
    rw [if_pos hempty, hempty]
    exact ⟨0, ⟨[], rfl, by simp⟩, rfl, fun ex => rfl⟩
  · rw [if_neg hempty]
    cases hcmds : pipeline C call.snaps with
    | error e => exact .inr ⟨⟨e, rfl⟩, rfl⟩
    | ok cmds =>
      left
      have htake : cmds.take call.executed = cmds.take (min call.executed cmds.length) := by
        rw [List.take_eq_take_iff]
        omega
      refine ⟨min call.executed cmds.length, ⟨cmds, rfl, rfl⟩, ?_, fun ex => ?_⟩
      · show stream C firehoseChannel (cmds.take call.executed) = _
        rw [htake, firehose_take hcmds]
      · show stream C (exchangeChannel ex) (cmds.take call.executed) = _
        rw [htake, exchange_take hcmds]
        rfl

/-- A call adds to the channel of an exchange some of what it adds to the firehose. -/
theorem publish_shard_sublist (C : SnapCodec) (call : PublishCall) (ex : Exchange) :
    (stream C (exchangeChannel ex) (publish C call).1).Sublist
      (ofExchange ex (stream C firehoseChannel (publish C call).1)) := by
  rcases publish_streams C call with ⟨k, -, hfirehose, hshard⟩ | ⟨-, hnone⟩
  · rw [hfirehose, hshard]
    exact (List.take_sublist_take_left (by omega)).filter _
  · rw [hnone]
    exact List.Sublist.refl _

/-- The last snapshot that went to the firehose is missing from the channel of its exchange, if
the call broke off between the two. -/
theorem publish_shard_eq_iff (C : SnapCodec) (call : PublishCall) :
    (∀ ex, stream C (exchangeChannel ex) (publish C call).1 =
      ofExchange ex (stream C firehoseChannel (publish C call).1)) ↔ Unbroken C call := by
  rcases publish_streams C call with ⟨k, ⟨cmds, hcmds, hk⟩, hfirehose, hshard⟩ | ⟨⟨e, herror⟩, hnone⟩
  · have hlength := pipeline_length hcmds
    have hunbroken : Unbroken C call ↔ k % 2 = 0 := by
      unfold Unbroken
      rw [hcmds]
      constructor
      · intro h
        rcases h cmds rfl with heven | hall <;> omega
      · intro heven cmds' hcmds'
        obtain rfl := Except.ok.inj hcmds'
        omega
    rw [hunbroken, hfirehose]
    constructor
    · intro h
      by_contra hodd
      have hlt : k / 2 < call.snaps.length := by omega
      have hnext : (k + 1) / 2 = k / 2 + 1 := by omega
      have heq := (hshard call.snaps[k / 2].instrument.exchange).symm.trans
        (h call.snaps[k / 2].instrument.exchange)
      rw [hnext, List.take_add_one, List.getElem?_eq_getElem hlt, ofExchange_append] at heq
      have hmissing := List.self_eq_append_right.mp heq
      simp [ofExchange] at hmissing
    · intro heven ex
      have hsame : (k + 1) / 2 = k / 2 := by omega
      rw [hshard, hsame]
  · have hunbroken : Unbroken C call := fun cmds hcmds => by
      rw [herror] at hcmds
      cases hcmds
    rw [hnone]
    exact ⟨fun _ => hunbroken, fun _ ex => rfl⟩

theorem append_eq_append_of_le {α : Type} {a b c d : List α} (ha : a.length ≤ c.length)
    (hb : b.length ≤ d.length) (h : a ++ b = c ++ d) : a = c ∧ b = d := by
  have hlength := congrArg List.length h
  rw [List.length_append, List.length_append] at hlength
  exact List.append_inj h (by omega)

theorem shard_sublist (C : SnapCodec) (calls : List PublishCall) (ex : Exchange) :
    (stream C (exchangeChannel ex) (busAfter C calls)).Sublist
      (ofExchange ex (stream C firehoseChannel (busAfter C calls))) := by
  induction calls with
  | nil => exact List.Sublist.refl _
  | cons call rest ih =>
    unfold busAfter
    rw [List.flatMap_cons, stream_append, stream_append, ofExchange_append]
    exact (publish_shard_sublist C call ex).append ih

/-- Whatever part of each pipeline Redis executes, the channel of an exchange carries a part of
what the firehose carries of it, in order. All channels carry all of it exactly if no pipeline
broke off between the two commands of a snapshot. -/
theorem shards_follow_firehose (C : SnapCodec) (calls : List PublishCall) :
    (∀ ex, (stream C (exchangeChannel ex) (busAfter C calls)).Sublist
      (ofExchange ex (stream C firehoseChannel (busAfter C calls)))) ∧
    ((∀ ex, stream C (exchangeChannel ex) (busAfter C calls) =
      ofExchange ex (stream C firehoseChannel (busAfter C calls))) ↔
        ∀ call ∈ calls, Unbroken C call) := by
  refine ⟨shard_sublist C calls, ?_⟩
  induction calls with
  | nil => exact ⟨fun _ call hcall => (nomatch hcall), fun _ ex => rfl⟩
  | cons call rest ih =>
    have hcons : busAfter C (call :: rest) = (publish C call).1 ++ busAfter C rest := rfl
    rw [List.forall_mem_cons, ← ih, ← publish_shard_eq_iff, ← forall_and, hcons]
    refine forall_congr' fun ex => ?_
    rw [stream_append, stream_append, ofExchange_append]
    constructor
    · exact append_eq_append_of_le (publish_shard_sublist C call ex).length_le
        (shard_sublist C rest ex).length_le
    · rintro ⟨hcall, hrest⟩
      rw [hcall, hrest]

end OiTerminal.Storage.PubSub
