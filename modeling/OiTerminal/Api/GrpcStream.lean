import OiTerminal.Api.Grpc
import OiTerminal.Lib.Transition
import OiTerminal.Storage.PubSub

/-!
# From the bus to a gRPC client

Every stream of the gRPC interface has a subscription and a task of its own. The task waits for
room in a bounded channel that the client reads from, so a slow client holds it up. It returns
when the subscription ends or when the client is gone.
-/
namespace OiTerminal.Api.GrpcStream

open OiTerminal.Core
open OiTerminal.Api.Grpc
open OiTerminal.Api.Subscribe (skips)
open OiTerminal.Lib.Transition
open OiTerminal.Storage
open OiTerminal.Storage.PubSub

set_option autoImplicit false

def channelCapacity : ℕ := 512

inductive Task where
  | connecting
  | streaming
  | returned
  deriving DecidableEq

/-- A message of the stream: a bar, or the text of an `unavailable` status. -/
abbrev Item := Except String Bar

/-- `next` is the message of the firehose that the task takes next. The subscription begins at
`start`, and `failure` is why there is none. Both influence nothing. -/
structure Stream where
  firehose : List Bytes
  task : Task
  start : ℕ
  next : ℕ
  failure : Option String
  queue : List Item
  received : List Item
  gone : Bool
  subscribeFrames : ℕ

def start : Stream := ⟨[], .connecting, 0, 0, none, [], [], false, 0⟩

inductive Act where
  | publish (call : PublishCall)
  | subscribed
  | subscribeFailed (error : String)
  | read
  | streamEnded
  | take
  | clientGone

section

variable (C : SnapCodec) (T : DecimalText) (filter : List InstrumentId)

/-- The task takes a message. What the filter lets through has to find room in the channel. -/
def read (s : Stream) : Option Stream :=
  if s.task = .streaming then
    (s.firehose[s.next]?).bind fun bytes =>
      match C.decode bytes with
      | none => some { s with next := s.next + 1 }
      | some snap =>
        if skips filter snap then some { s with next := s.next + 1 }
        else if s.gone then some { s with task := .returned }
        else if s.queue.length < channelCapacity then
          some { s with
            next := s.next + 1
            queue := s.queue ++ [.ok (snapToBar T snap)]
            subscribeFrames := s.subscribeFrames + 1 }
        else none
  else none

def step (s : Stream) : Act → Option Stream
  | .publish call =>
    some { s with firehose := s.firehose ++ onChannel firehoseChannel (PubSub.publish C call).1 }
  | .subscribed =>
    if s.task = .connecting then
      some { s with task := .streaming, start := s.firehose.length, next := s.firehose.length }
    else none
  | .subscribeFailed error =>
    if s.task = .connecting then
      some { s with
        task := .returned
        failure := some error
        queue := if s.gone then [] else [.error ("pubsub: " ++ error)] }
    else none
  | .read => read C T filter s
  | .streamEnded => if s.task = .streaming then some { s with task := .returned } else none
  | .take =>
    match s.queue with
    | [] => none
    | item :: rest => some { s with queue := rest, received := s.received ++ [item] }
  | .clientGone => some { s with gone := true, queue := [] }

/-- The bars of the messages that the task has taken and that pass the filter. -/
def bars (s : Stream) : List Item :=
  ((((s.firehose.take s.next).drop s.start).filterMap C.decode).filter fun snap =>
    !skips filter snap).map fun snap => .ok (snapToBar T snap)

/-- What the client is due: the status, if there is no subscription, and the bars. -/
def due (s : Stream) : List Item :=
  (s.failure.map fun error => .error ("pubsub: " ++ error)).toList ++ bars C T filter s

/-- No message is left out, doubled or moved on the way to the client, and never more than the
capacity of the channel wait for it. -/
structure Gapless (s : Stream) : Prop where
  start_le : s.start ≤ s.next
  next_le : s.next ≤ s.firehose.length
  bounded : s.queue.length ≤ channelCapacity
  all : s.gone = false → s.received ++ s.queue = due C T filter s
  part : s.received <+: due C T filter s
  counted : s.subscribeFrames = (bars C T filter s).length

end

variable {C : SnapCodec} {T : DecimalText} {filter : List InstrumentId} {s s' : Stream} {a : Act}

/-- The message at `next`, as the client is due it. -/
theorem bars_next {bytes : Bytes} (C : SnapCodec) (T : DecimalText) (filter : List InstrumentId)
    (hle : s.start ≤ s.next) (hbytes : s.firehose[s.next]? = some bytes)
    (queue : List Item) (frames : ℕ) :
    bars C T filter { s with next := s.next + 1, queue, subscribeFrames := frames } =
      bars C T filter s ++ ((C.decode bytes).toList.filter fun snap => !skips filter snap).map
        fun snap => .ok (snapToBar T snap) := by
  have hlt := (List.getElem?_eq_some_iff.mp hbytes).1
  have hwindow : (s.firehose.take (s.next + 1)).drop s.start =
      (s.firehose.take s.next).drop s.start ++ [bytes] := by
    rw [List.take_add_one, List.drop_append_of_le_length (by rw [List.length_take]; omega), hbytes]
    rfl
  have hdecode : [bytes].filterMap C.decode = (C.decode bytes).toList := by
    cases h : C.decode bytes <;> simp [h]
  unfold bars
  rw [hwindow, List.filterMap_append, List.filter_append, List.map_append, hdecode]

theorem read_cases (h : read C T filter s = some s') :
    s.task = .streaming ∧ ∃ bytes, s.firehose[s.next]? = some bytes ∧
      ((((C.decode bytes).toList.filter fun snap => !skips filter snap) = [] ∧
          s' = { s with next := s.next + 1 }) ∨
        (∃ snap, ((C.decode bytes).toList.filter fun snap => !skips filter snap) = [snap] ∧
          ((s.gone = true ∧ s' = { s with task := .returned }) ∨
            (s.gone = false ∧ s.queue.length < channelCapacity ∧
              s' = { s with
                next := s.next + 1
                queue := s.queue ++ [.ok (snapToBar T snap)]
                subscribeFrames := s.subscribeFrames + 1 })))) := by
  obtain ⟨htask, hbind⟩ := Option.ite_none_right_eq_some.mp h
  obtain ⟨bytes, hbytes, hrest⟩ := Option.bind_eq_some_iff.mp hbind
  refine ⟨htask, bytes, hbytes, ?_⟩
  cases hdecode : C.decode bytes with
  | none =>
    rw [hdecode] at hrest
    exact .inl ⟨rfl, (Option.some.inj hrest).symm⟩
  | some snap =>
    simp only [hdecode] at hrest
    by_cases hskips : skips filter snap = true
    · rw [if_pos hskips] at hrest
      exact .inl ⟨by simp [hskips], (Option.some.inj hrest).symm⟩
    · rw [if_neg hskips] at hrest
      refine .inr ⟨snap, by simp [hskips], ?_⟩
      by_cases hgone : s.gone = true
      · rw [if_pos hgone] at hrest
        exact .inl ⟨hgone, (Option.some.inj hrest).symm⟩
      · rw [if_neg hgone] at hrest
        obtain ⟨hroom, hs'⟩ := Option.ite_none_right_eq_some.mp hrest
        exact .inr ⟨Bool.eq_false_iff.mpr hgone, hroom, (Option.some.inj hs').symm⟩

/-- Besides, nothing is sent before the subscription, and nothing waits for a client that is
gone. -/
structure Inv (C : SnapCodec) (T : DecimalText) (filter : List InstrumentId) (s : Stream) :
    Prop where
  gapless : Gapless C T filter s
  connecting : s.task = .connecting → s.received = [] ∧ s.queue = [] ∧ s.subscribeFrames = 0
  failure : s.task ≠ .returned → s.failure = none
  gone : s.gone = true → s.queue = []

theorem bars_subscribed (C : SnapCodec) (T : DecimalText) (filter : List InstrumentId) (s : Stream)
    (n : ℕ) (task : Task) : bars C T filter { s with task, start := n, next := n } = [] := by
  have hwindow : (s.firehose.take n).drop n = [] := List.drop_eq_nil_of_le (List.length_take_le _ _)
  simp [bars, hwindow]

theorem bars_publish (C : SnapCodec) (T : DecimalText) (filter : List InstrumentId)
    (hle : s.next ≤ s.firehose.length) (more : List Bytes) :
    bars C T filter { s with firehose := s.firehose ++ more } = bars C T filter s := by
  unfold bars
  rw [List.take_append_of_le_length hle]

theorem inv_start : Inv C T filter start where
  gapless := ⟨Nat.le_refl _, Nat.le_refl _, Nat.zero_le _, fun _ => rfl, List.prefix_refl _, rfl⟩
  connecting _ := ⟨rfl, rfl, rfl⟩
  failure _ := rfl
  gone h := by cases h

theorem inv_read (hinv : Inv C T filter s) (h : read C T filter s = some s') :
    Inv C T filter s' := by
  obtain ⟨hstart, hnext, hbounded, hall, hpart, hcounted⟩ := hinv.gapless
  obtain ⟨htask, bytes, hbytes, hcases⟩ := read_cases h
  have hlt := (List.getElem?_eq_some_iff.mp hbytes).1
  have hconnecting : s.task ≠ .connecting := by
    rw [htask]
    decide
  rcases hcases with ⟨hnone, rfl⟩ | ⟨snap, hone, ⟨hgone, rfl⟩ | ⟨hthere, hroom, rfl⟩⟩
  · have hbars := bars_next C T filter hstart hbytes s.queue s.subscribeFrames
    rw [hnone, List.map_nil, List.append_nil] at hbars
    have hdue : due C T filter { s with next := s.next + 1 } = due C T filter s :=
      congrArg (_ ++ ·) hbars
    refine ⟨⟨Nat.le_succ_of_le hstart, hlt, hbounded, fun hthere => ?_, ?_, ?_⟩, fun hs => absurd hs hconnecting,
      hinv.failure, hinv.gone⟩
    · exact (hall hthere).trans hdue.symm
    · exact hdue ▸ hpart
    · exact hcounted.trans (congrArg List.length hbars.symm)
  · exact ⟨⟨hstart, hnext, hbounded, hall, hpart, hcounted⟩, fun hs => (nomatch hs),
      fun hs => absurd rfl hs, hinv.gone⟩
  · have hbars := bars_next C T filter hstart hbytes (s.queue ++ [.ok (snapToBar T snap)])
      (s.subscribeFrames + 1)
    rw [hone, List.map_singleton] at hbars
    have hdue : due C T filter { s with
        next := s.next + 1
        queue := s.queue ++ [.ok (snapToBar T snap)]
        subscribeFrames := s.subscribeFrames + 1 } =
        due C T filter s ++ [.ok (snapToBar T snap)] := by
      unfold due
      rw [hbars, List.append_assoc]
    refine ⟨⟨Nat.le_succ_of_le hstart, hlt, ?_, fun _ => ?_, ?_, ?_⟩, fun hs => absurd hs hconnecting,
      hinv.failure, fun hs => ?_⟩
    · show (s.queue ++ [_]).length ≤ channelCapacity
      rw [List.length_append, List.length_singleton]
      exact hroom
    · show s.received ++ (s.queue ++ [_]) = _
      rw [← List.append_assoc, hall hthere, hdue]
    · rw [hdue]
      exact hpart.trans (List.prefix_append _ _)
    · rw [hbars, List.length_append, List.length_singleton, ← hcounted]
    · rw [hthere] at hs
      cases hs

theorem inv_publish (hinv : Inv C T filter s) (call : PublishCall) :
    Inv C T filter { s with
      firehose := s.firehose ++ onChannel firehoseChannel (PubSub.publish C call).1 } := by
  obtain ⟨hstart, hnext, hbounded, hall, hpart, hcounted⟩ := hinv.gapless
  have hbars := bars_publish C T filter hnext
    (onChannel firehoseChannel (PubSub.publish C call).1)
  have hdue : due C T filter { s with
      firehose := s.firehose ++ onChannel firehoseChannel (PubSub.publish C call).1 } =
      due C T filter s := congrArg (_ ++ ·) hbars
  refine ⟨⟨hstart, ?_, hbounded, fun hthere => (hall hthere).trans hdue.symm, hdue ▸ hpart,
    hcounted.trans (congrArg List.length hbars.symm)⟩, hinv.connecting, hinv.failure, hinv.gone⟩
  rw [List.length_append]
  exact Nat.le_add_right_of_le hnext

theorem inv_subscribed (hinv : Inv C T filter s) (htask : s.task = .connecting) :
    Inv C T filter
      { s with task := .streaming, start := s.firehose.length, next := s.firehose.length } := by
  obtain ⟨hreceived, hqueue, hframes⟩ := hinv.connecting htask
  have hfailure := hinv.failure (by rw [htask]; decide)
  have hbars := bars_subscribed C T filter s s.firehose.length .streaming
  have hdue : due C T filter { s with
      task := .streaming, start := s.firehose.length, next := s.firehose.length } = [] := by
    unfold due
    rw [hbars, hfailure]
    rfl
  refine ⟨⟨Nat.le_refl _, Nat.le_refl _, hinv.gapless.bounded, fun _ => ?_, ?_, ?_⟩,
    fun hs => (nomatch hs), fun _ => hfailure, hinv.gone⟩
  · rw [hdue, hreceived, hqueue]
    rfl
  · rw [hreceived]
    exact List.nil_prefix
  · rw [hbars]
    exact hframes

theorem inv_subscribeFailed (hinv : Inv C T filter s) (htask : s.task = .connecting)
    (error : String) :
    Inv C T filter { s with
      task := .returned
      failure := some error
      queue := if s.gone then [] else [.error ("pubsub: " ++ error)] } := by
  obtain ⟨hreceived, hqueue, hframes⟩ := hinv.connecting htask
  have hnone : bars C T filter s = [] :=
    List.eq_nil_of_length_eq_zero (hinv.gapless.counted.symm.trans hframes)
  have hdue : due C T filter { s with
      task := .returned
      failure := some error
      queue := if s.gone then [] else [.error ("pubsub: " ++ error)] } =
      [.error ("pubsub: " ++ error)] := congrArg ([Except.error ("pubsub: " ++ error)] ++ ·) hnone
  refine ⟨⟨hinv.gapless.start_le, hinv.gapless.next_le, ?_, fun hthere => ?_, ?_,
    hinv.gapless.counted⟩, fun hs => (nomatch hs), fun hs => absurd rfl hs, fun hs => if_pos hs⟩
  · show (if s.gone then [] else _).length ≤ channelCapacity
    split
    · exact Nat.zero_le _
    · exact Nat.succ_le_of_lt (by decide)
  · change s.gone = false at hthere
    rw [hdue, hreceived, hthere]
    rfl
  · rw [hreceived]
    exact List.nil_prefix

theorem inv_take {item : Item} {rest : List Item} (hinv : Inv C T filter s)
    (hqueue : s.queue = item :: rest) :
    Inv C T filter { s with queue := rest, received := s.received ++ [item] } := by
  obtain ⟨hstart, hnext, hbounded, hall, hpart, hcounted⟩ := hinv.gapless
  have hthere : s.gone = false := by
    by_contra hgone
    have hempty := hinv.gone (Bool.eq_true_of_not_eq_false hgone)
    rw [hqueue] at hempty
    cases hempty
  have hmoved : s.received ++ [item] ++ rest = due C T filter s := by
    rw [← hall hthere, hqueue, List.append_assoc]
    rfl
  refine ⟨⟨hstart, hnext, ?_, fun _ => hmoved, ⟨rest, hmoved⟩, hcounted⟩, fun hs => ?_,
    hinv.failure, fun hs => ?_⟩
  · rw [hqueue, List.length_cons] at hbounded
    exact Nat.le_of_succ_le hbounded
  · obtain ⟨-, hempty, -⟩ := hinv.connecting hs
    rw [hqueue] at hempty
    cases hempty
  · rw [hthere] at hs
    cases hs

theorem inv_step (hinv : Inv C T filter s) (h : step C T filter s a = some s') :
    Inv C T filter s' := by
  cases a with
  | publish call =>
    obtain rfl := Option.some.inj h
    exact inv_publish hinv call
  | subscribed =>
    obtain ⟨htask, hs'⟩ := Option.ite_none_right_eq_some.mp h
    obtain rfl := Option.some.inj hs'
    exact inv_subscribed hinv htask
  | subscribeFailed error =>
    obtain ⟨htask, hs'⟩ := Option.ite_none_right_eq_some.mp h
    obtain rfl := Option.some.inj hs'
    exact inv_subscribeFailed hinv htask error
  | read => exact inv_read hinv h
  | streamEnded =>
    obtain ⟨-, hs'⟩ := Option.ite_none_right_eq_some.mp h
    obtain rfl := Option.some.inj hs'
    obtain ⟨hstart, hnext, hbounded, hall, hpart, hcounted⟩ := hinv.gapless
    exact ⟨⟨hstart, hnext, hbounded, hall, hpart, hcounted⟩, fun hs => (nomatch hs),
      fun hs => absurd rfl hs, hinv.gone⟩
  | take =>
    cases hqueue : s.queue with
    | nil => simp [step, hqueue] at h
    | cons item rest =>
      simp only [step, hqueue, Option.some.injEq] at h
      subst h
      exact inv_take hinv hqueue
  | clientGone =>
    obtain rfl := Option.some.inj h
    obtain ⟨hstart, hnext, hbounded, hall, hpart, hcounted⟩ := hinv.gapless
    refine ⟨⟨hstart, hnext, Nat.zero_le _, fun hs => (nomatch hs), hpart, hcounted⟩, fun hs => ?_,
      hinv.failure, fun _ => rfl⟩
    obtain ⟨hreceived, -, hframes⟩ := hinv.connecting hs
    exact ⟨hreceived, rfl, hframes⟩

/-- In every run: while the client is there, what it has received and what waits for it are exactly
the bars of the messages that were taken since the subscription and that pass its filter, in order.
At most 512 wait, and once the client is gone it has received a part from the beginning. -/
theorem stream_is_gapless (C : SnapCodec) (T : DecimalText) (filter : List InstrumentId)
    (acts : List Act) : Throughout (step C T filter) (Gapless C T filter) start acts :=
  throughout_of_step (fun _ _ _ hinv hstep => inv_step hinv hstep)
    (fun _ (hinv : Inv C T filter _) => hinv.gapless) inv_start

end OiTerminal.Api.GrpcStream
