import OiTerminal.Api.Subscribe
import OiTerminal.Lib.Broadcast
import OiTerminal.Lib.Transition
import OiTerminal.Storage.BarCodec
import OiTerminal.Storage.PubSub

/-!
# From the bus to the WebSocket clients

One task of the process subscribes to the firehose and puts what it decodes into a broadcast
ring. Each client reads the ring at its own pace and is sent what passes its filter. The
connection to Redis may end and come back, clients come and go, and all of them take their
turns in any order.
-/
namespace OiTerminal.Api.Broadcast

open OiTerminal.Core
open OiTerminal.Api.Subscribe (SocketEvent handleSocket skips)
open OiTerminal.Lib.Broadcast
open OiTerminal.Lib.Transition
open OiTerminal.Storage
open OiTerminal.Storage.BarCodec (barBytes)
open OiTerminal.Storage.PubSub

set_option autoImplicit false

def broadcastCapacity : ℕ := 4096

/-- The handler of a socket. `frames` has the texts that were sent, so that its length is
`frames_sent`. The rest is a record of the receiver, which influences nothing but `next`: where
it subscribed, what it has read and missed, and the state of the feed at that time. -/
structure Client where
  filter : List InstrumentId
  next : ℕ
  frames : List String
  closed : Bool
  start : ℕ
  kept : List ℕ
  skipped : ℕ
  since : Option ℕ
  outagesAtStart : ℕ

/-- `feed` is the next message of the firehose that the broadcaster handles, while it is
subscribed. `outages` counts the subscriptions that ended, and influences nothing. -/
structure Process where
  firehose : List Bytes
  feed : Option ℕ
  ring : List OiSnapshot
  clients : List Client
  outages : ℕ
  wsConnections : Int
  wsLagged : ℕ
  wsFramesSent : ℕ

def start : Process := ⟨[], none, [], [], 0, 0, 0, 0⟩

/-- What one turn of `handle_socket` meets. -/
inductive Turn where
  | inbound (closes : Bool)
  | heartbeat (timedOut : Bool)
  | snap (sent : Bool)

inductive Act where
  | publish (call : PublishCall)
  | subscribed
  | streamEnded
  | forward
  | accept (filter : List InstrumentId)
  | turn (client : ℕ) (event : Turn)

/-- The guard of the gauge drops when the handler returns. -/
def Process.drop (s : Process) (i : ℕ) (c : Client) : Process :=
  { s with clients := s.clients.set i { c with closed := true }, wsConnections := s.wsConnections - 1 }

section

variable (C : SnapCodec) (json : OiSnapshot → Option String)

/-- The text that a client with this filter is sent for a snapshot. -/
def frameOf (filter : List InstrumentId) (snap : OiSnapshot) : Option String :=
  if skips filter snap then none else json snap

/-- The turn in which the receiver has something. -/
def deliver (s : Process) (i : ℕ) (c : Client) (sent : Bool) : Option Process :=
  match recv broadcastCapacity s.ring c.next with
  | (.empty, _) => none
  | (.lagged n, next) =>
    some { s with
      clients := s.clients.set i { c with next, skipped := c.skipped + n }
      wsLagged := s.wsLagged + n }
  | (.value snap, next) =>
    let c := { c with next, kept := c.kept ++ [c.next] }
    match frameOf json c.filter snap with
    | none => some { s with clients := s.clients.set i c }
    | some payload =>
      if sent then
        let c := { c with frames := c.frames ++ [payload] }
        some { s with
          clients := s.clients.set i c
          wsFramesSent := s.wsFramesSent + if c.frames.length % 100 = 0 then 100 else 0 }
      else some (s.drop i c)

/-- A value that no receiver is there for does not enter the ring. -/
def send (s : Process) (snap : OiSnapshot) : Process :=
  if s.clients.any fun c => !c.closed then { s with ring := s.ring ++ [snap] } else s

/-- The broadcaster takes its next message. -/
def forward (s : Process) : Option Process :=
  s.feed.bind fun next => (s.firehose[next]?).map fun bytes =>
    let s := { s with feed := some (next + 1) }
    match C.decode bytes with
    | some snap => send s snap
    | none => s

def accept (s : Process) (filter : List InstrumentId) : Process :=
  { s with
    clients := s.clients ++
      [⟨filter, s.ring.length, [], false, s.ring.length, [], 0, s.feed, s.outages⟩]
    wsConnections := s.wsConnections + 1 }

def step (s : Process) : Act → Option Process
  | .publish call =>
    some { s with firehose := s.firehose ++ onChannel firehoseChannel (PubSub.publish C call).1 }
  | .subscribed =>
    if s.feed = none then some { s with feed := some s.firehose.length } else none
  | .streamEnded =>
    if s.feed = none then none else some { s with feed := none, outages := s.outages + 1 }
  | .forward => forward C s
  | .accept filter => some (accept s filter)
  | .turn i event =>
    match s.clients[i]? with
    | none => none
    | some c =>
      if c.closed then none
      else
        match event with
        | .inbound closes => some (if closes then s.drop i c else s)
        | .heartbeat timedOut => some (if timedOut then s.drop i c else s)
        | .snap sent => deliver json s i c sent

end

/-- What a client is sent is made of what it has read from the ring, up to the frame at which it
was given up. -/
structure Delivered (json : OiSnapshot → Option String) (ring : List OiSnapshot) (c : Client) :
    Prop where
  reads : Reads broadcastCapacity ring c.start c.next c.kept c.skipped
  frames : c.frames <+: (valuesAt ring c.kept).filterMap (frameOf json c.filter)
  all : c.closed = false → c.frames = (valuesAt ring c.kept).filterMap (frameOf json c.filter)

/-- What a turn makes of an open client, with the changes of the gauge and of the two counters. -/
inductive Moved (json : OiSnapshot → Option String) (ring : List OiSnapshot) (c : Client) :
    Client → Int → ℕ → ℕ → Prop where
  | same : Moved json ring c c 0 0 0
  | dropped : Moved json ring c { c with closed := true } (-1) 0 0
  | lagged {n next : ℕ} (h : recv broadcastCapacity ring c.next = (.lagged n, next)) :
    Moved json ring c { c with next, skipped := c.skipped + n } 0 n 0
  | passed {snap : OiSnapshot} {next : ℕ}
    (h : recv broadcastCapacity ring c.next = (.value snap, next))
    (hframe : frameOf json c.filter snap = none) :
    Moved json ring c { c with next, kept := c.kept ++ [c.next] } 0 0 0
  | sent {snap : OiSnapshot} {next : ℕ} {payload : String}
    (h : recv broadcastCapacity ring c.next = (.value snap, next))
    (hframe : frameOf json c.filter snap = some payload) :
    Moved json ring c
      { c with next, kept := c.kept ++ [c.next], frames := c.frames ++ [payload] } 0 0
      (if (c.frames.length + 1) % 100 = 0 then 100 else 0)
  | failed {snap : OiSnapshot} {next : ℕ} {payload : String}
    (h : recv broadcastCapacity ring c.next = (.value snap, next))
    (hframe : frameOf json c.filter snap = some payload) :
    Moved json ring c { c with next, kept := c.kept ++ [c.next], closed := true } (-1) 0 0

/-- The process after a client has moved. -/
def Process.moved (s : Process) (i : ℕ) (c' : Client) (gauge : Int) (lagged frames : ℕ) : Process :=
  { s with
    clients := s.clients.set i c'
    wsConnections := s.wsConnections + gauge
    wsLagged := s.wsLagged + lagged
    wsFramesSent := s.wsFramesSent + frames }

section

variable {C : SnapCodec} {json : OiSnapshot → Option String} {s s' : Process} {a : Act} {i : ℕ}
  {c c' : Client} {ring more : List OiSnapshot} {gauge : Int} {lagged frames : ℕ}

theorem deliver_cases {sent : Bool} (h : deliver json s i c sent = some s') :
    ∃ c' gauge lagged frames, Moved json s.ring c c' gauge lagged frames ∧
      s' = s.moved i c' gauge lagged frames := by
  unfold deliver at h
  cases hrecv : recv broadcastCapacity s.ring c.next with
  | mk got next =>
    rw [hrecv] at h
    cases got with
    | empty => cases h
    | lagged n =>
      refine ⟨_, _, _, _, .lagged hrecv, ?_⟩
      rw [← Option.some.inj h]
      simp [Process.moved]
    | value snap =>
      cases hframe : frameOf json c.filter snap with
      | none =>
        refine ⟨_, _, _, _, .passed hrecv hframe, ?_⟩
        simp only [hframe, Option.some.injEq] at h
        rw [← h]
        simp [Process.moved]
      | some payload =>
        cases sent with
        | true =>
          refine ⟨_, _, _, _, .sent hrecv hframe, ?_⟩
          simp only [hframe, ite_true, Option.some.injEq] at h
          rw [← h]
          simp [Process.moved]
        | false =>
          refine ⟨_, _, _, _, .failed hrecv hframe, ?_⟩
          simp only [hframe, Bool.false_eq_true, ite_false, Option.some.injEq] at h
          rw [← h]
          rfl

theorem moved_same (hi : s.clients[i]? = some c) : s.moved i c 0 0 0 = s := by
  have hset : s.clients.set i c = s.clients := by
    apply List.ext_getElem?
    intro j
    by_cases hj : i = j
    · subst hj
      rw [hi, List.getElem?_set_self (List.getElem?_eq_some_iff.mp hi).1]
    · rw [List.getElem?_set_ne hj]
  simp [Process.moved, hset]

/-- What a turn does: one open client moves. -/
theorem turn_cases {event : Turn} (h : step C json s (.turn i event) = some s') :
    ∃ c c' gauge lagged frames, s.clients[i]? = some c ∧ c.closed = false ∧
      Moved json s.ring c c' gauge lagged frames ∧ s' = s.moved i c' gauge lagged frames := by
  unfold step at h
  cases hi : s.clients[i]? with
  | none => simp [hi] at h
  | some c =>
    cases hclosed : c.closed with
    | true => simp [hi, hclosed] at h
    | false =>
      have hdrop : s.drop i c = s.moved i { c with closed := true } (-1) 0 0 := rfl
      simp only [hi, hclosed, Bool.false_eq_true, ite_false] at h
      cases event with
      | inbound closes =>
        cases closes with
        | true => exact ⟨c, _, _, _, _, rfl, hclosed, .dropped, (Option.some.inj h).symm.trans hdrop⟩
        | false =>
          exact ⟨c, _, _, _, _, rfl, hclosed, .same,
            (Option.some.inj h).symm.trans (moved_same hi).symm⟩
      | heartbeat timedOut =>
        cases timedOut with
        | true => exact ⟨c, _, _, _, _, rfl, hclosed, .dropped, (Option.some.inj h).symm.trans hdrop⟩
        | false =>
          exact ⟨c, _, _, _, _, rfl, hclosed, .same,
            (Option.some.inj h).symm.trans (moved_same hi).symm⟩
      | snap sent =>
        obtain ⟨c', gauge, lagged, frames, hmoved, hs'⟩ := deliver_cases h
        exact ⟨c, c', gauge, lagged, frames, rfl, hclosed, hmoved, hs'⟩

theorem subscribed_cases (h : step C json s .subscribed = some s') :
    s.feed = none ∧ s' = { s with feed := some s.firehose.length } := by
  obtain ⟨hfeed, hs'⟩ := Option.ite_none_right_eq_some.mp h
  exact ⟨hfeed, (Option.some.inj hs').symm⟩

theorem streamEnded_cases (h : step C json s .streamEnded = some s') :
    s' = { s with feed := none, outages := s.outages + 1 } := by
  obtain ⟨-, hs'⟩ := Option.ite_none_left_eq_some.mp h
  exact (Option.some.inj hs').symm

/-- What the broadcaster does with a message: the ring grows by what was decoded, if any client
is there. -/
theorem forward_cases (h : forward C s = some s') :
    ∃ next bytes, s.feed = some next ∧ s.firehose[next]? = some bytes ∧
      s' = { s with
        feed := some (next + 1)
        ring := s.ring ++
          if s.clients.any fun c => !c.closed then (C.decode bytes).toList else [] } := by
  unfold forward at h
  obtain ⟨next, hfeed, hrest⟩ := Option.bind_eq_some_iff.mp h
  obtain ⟨bytes, hbytes, hs'⟩ := Option.map_eq_some_iff.mp hrest
  refine ⟨next, bytes, hfeed, hbytes, ?_⟩
  rw [← hs']
  cases C.decode bytes with
  | none => simp
  | some snap =>
    by_cases hany : (s.clients.any fun c => !c.closed) = true
    · simp [send, hany]
    · simp [send, hany]

/-- What a turn leaves of a client as it was. -/
theorem Moved.fixed (h : Moved json ring c c' gauge lagged frames) :
    c'.filter = c.filter ∧ c'.start = c.start ∧ c'.since = c.since ∧
      c'.outagesAtStart = c.outagesAtStart := by
  cases h <;> exact ⟨rfl, rfl, rfl, rfl⟩

/-- A turn of an open client is a turn of `handleSocket`. -/
theorem Moved.handleSocket (h : Moved json ring c c' gauge lagged frames)
    (hopen : c.closed = false) :
    ∃ event given, (∀ rest, handleSocket c.filter (event :: rest) =
        given ++ if c'.closed then [] else handleSocket c.filter rest) ∧
      (c'.closed = false → c'.frames = c.frames ++ given.filterMap json) := by
  cases h with
  | same => exact ⟨.clientFrame, [], fun rest => by simp [Subscribe.handleSocket, hopen], by simp⟩
  | dropped => exact ⟨.clientClosed, [], fun rest => rfl, by simp⟩
  | lagged hrecv =>
    exact ⟨.lagged lagged, [], fun rest => by simp [Subscribe.handleSocket, hopen], by simp⟩
  | @passed snap next hrecv hframe =>
    refine ⟨.snap snap (json snap).isSome true, [], fun rest => ?_, by simp⟩
    by_cases hskips : skips c.filter snap = true
    · simp [Subscribe.handleSocket, hskips, hopen]
    · have hnone : json snap = none := by simpa [frameOf, hskips] using hframe
      simp [Subscribe.handleSocket, hskips, hnone, hopen]
  | @sent snap next payload hrecv hframe =>
    have hskips : skips c.filter snap = false := by
      by_contra hskips
      simp [frameOf, hskips] at hframe
    have hjson : json snap = some payload := by simpa [frameOf, hskips] using hframe
    exact ⟨.snap snap true true, [snap],
      fun rest => by simp [Subscribe.handleSocket, hskips, hopen], fun _ => by simp [hjson]⟩
  | @failed snap next payload hrecv hframe =>
    have hskips : skips c.filter snap = false := by
      by_contra hskips
      simp [frameOf, hskips] at hframe
    exact ⟨.snap snap true false, [snap], fun rest => by simp [Subscribe.handleSocket, hskips],
      by simp⟩

theorem valuesAt_frames (json : OiSnapshot → Option String) {snap : OiSnapshot} {next : ℕ}
    (kept : List ℕ) (filter : List InstrumentId) (h : ring[next]? = some snap) :
    (valuesAt ring (kept ++ [next])).filterMap (frameOf json filter) =
      (valuesAt ring kept).filterMap (frameOf json filter) ++ (frameOf json filter snap).toList := by
  rw [valuesAt_concat h, List.filterMap_append]
  cases hframe : frameOf json filter snap <;> simp [hframe]

theorem Delivered.moved (h : Delivered json ring c) (hopen : c.closed = false)
    (hmoved : Moved json ring c c' gauge lagged frames) : Delivered json ring c' := by
  have hall := h.all hopen
  cases hmoved with
  | same => exact h
  | dropped => exact ⟨h.reads, h.frames, fun hclosed => nomatch hclosed⟩
  | lagged hrecv => exact ⟨h.reads.lagged hrecv, h.frames, h.all⟩
  | passed hrecv hframe =>
    have hnone := valuesAt_frames json c.kept c.filter (recv_value hrecv).1
    rw [hframe, Option.toList_none, List.append_nil] at hnone
    exact ⟨h.reads.value hrecv, hnone ▸ h.frames, fun _ => hnone ▸ hall⟩
  | @sent snap next payload hrecv hframe =>
    have hone := valuesAt_frames json c.kept c.filter (recv_value hrecv).1
    rw [hframe, Option.toList_some, ← hall] at hone
    exact ⟨h.reads.value hrecv, hone ▸ List.prefix_refl _, fun _ => hone.symm⟩
  | failed hrecv hframe =>
    have hone := valuesAt_frames json c.kept c.filter (recv_value hrecv).1
    rw [← hall] at hone
    exact ⟨h.reads.value hrecv, hone ▸ List.prefix_append _ _, fun hclosed => nomatch hclosed⟩

theorem Delivered.send (h : Delivered json ring c) (more : List OiSnapshot) :
    Delivered json (ring ++ more) c where
  reads := h.reads.send more
  frames := by
    rw [h.reads.valuesAt_send more]
    exact h.frames
  all := by
    rw [h.reads.valuesAt_send more]
    exact h.all

/-- One step from the view of the clients: each of them is as before, has just come, or has moved. -/
theorem clients_step (h : step C json s a = some s') (hall : ∀ c ∈ s.clients, Delivered json s.ring c) :
    ∀ c ∈ s'.clients, Delivered json s'.ring c := by
  cases a with
  | publish call =>
    obtain rfl := Option.some.inj h
    exact hall
  | subscribed =>
    obtain ⟨-, rfl⟩ := subscribed_cases h
    exact hall
  | streamEnded =>
    obtain rfl := streamEnded_cases h
    exact hall
  | forward =>
    obtain ⟨next, bytes, -, -, rfl⟩ := forward_cases h
    exact fun c hc => (hall c hc).send _
  | accept filter =>
    obtain rfl := Option.some.inj h
    intro c hc
    rcases List.mem_append.mp hc with hold | hnew
    · exact hall c hold
    · rw [List.mem_singleton.mp hnew]
      exact ⟨.subscribe _ _, List.prefix_refl _, fun _ => rfl⟩
  | turn i event =>
    obtain ⟨c, c', gauge, lagged, frames, hi, hopen, hmoved, rfl⟩ := turn_cases h
    intro d hd
    rcases List.mem_or_eq_of_mem_set hd with hold | rfl
    · exact hall d hold
    · exact (hall c (List.mem_of_getElem? hi)).moved hopen hmoved

end

/-- In every run and for every client: the frames that it is sent are, in order, the texts of the
values that it reads from the ring and that pass its filter, without the one at which it is given
up. It reads each position once and in order, and misses only values that have left the ring, as
many as it is told. -/
theorem clients_read_in_order (C : SnapCodec) (json : OiSnapshot → Option String)
    (acts : List Act) :
    Throughout (step C json) (fun s => ∀ c ∈ s.clients, Delivered json s.ring c) start acts :=
  throughout_of_step (fun _ _ _ hall hstep => clients_step hstep hall)
    (fun s (hall : ∀ c ∈ s.clients, Delivered json s.ring c) => hall)
    fun _ hc => (List.not_mem_nil hc).elim

/-- The gauge and the counters of the process, against its clients. A client adds to the frames
that are counted when its own number of frames is a multiple of 100. -/
structure Counted (s : Process) : Prop where
  connections : s.wsConnections = (s.clients.countP fun c => !c.closed : ℕ)
  lagged : s.wsLagged = (s.clients.map Client.skipped).sum
  frames : s.wsFramesSent + (s.clients.map fun c => c.frames.length % 100).sum =
    (s.clients.map fun c => c.frames.length).sum

section

variable {C : SnapCodec} {json : OiSnapshot → Option String} {s s' : Process} {a : Act} {i : ℕ}
  {c c' : Client} {ring : List OiSnapshot} {gauge : Int} {lagged frames : ℕ}

theorem Moved.counted (h : Moved json ring c c' gauge lagged frames) (hopen : c.closed = false) :
    (if c'.closed then 0 else 1 : Int) = 1 + gauge ∧ c'.skipped = c.skipped + lagged ∧
      frames + c'.frames.length % 100 + c.frames.length =
        c.frames.length % 100 + c'.frames.length := by
  cases h with
  | same => simp [hopen]
  | dropped => simp
  | lagged hrecv => simp [hopen]
  | passed hrecv hframe => simp [hopen]
  | sent hrecv hframe =>
    refine ⟨by simp [hopen], rfl, ?_⟩
    rw [List.length_append, List.length_singleton]
    split <;> omega
  | failed hrecv hframe => simp

theorem counted_moved (h : Counted s) (hi : s.clients[i]? = some c) (hopen : c.closed = false)
    (hmoved : Moved json ring c c' gauge lagged frames) :
    Counted (s.moved i c' gauge lagged frames) := by
  obtain ⟨hgauge, hskipped, hframes⟩ := hmoved.counted hopen
  obtain ⟨hlt, hget⟩ := List.getElem?_eq_some_iff.mp hi
  have hsplit : s.clients = s.clients.take i ++ c :: s.clients.drop (i + 1) := by
    rw [← hget, List.getElem_cons_drop, List.take_append_drop]
  have hset : s.clients.set i c' = s.clients.take i ++ c' :: s.clients.drop (i + 1) :=
    List.set_eq_take_append_cons_drop.trans (if_pos hlt)
  have hconnections := h.connections
  have hlagged := h.lagged
  have hcount := h.frames
  rw [hsplit] at hconnections hlagged hcount
  simp only [List.countP_append, List.countP_cons, List.map_append, List.map_cons, List.sum_append,
    List.sum_cons] at hconnections hlagged hcount
  constructor
  · show s.wsConnections + gauge = ((s.clients.set i c').countP fun c => !c.closed : ℕ)
    rw [hset, List.countP_append, List.countP_cons, hconnections]
    cases hclosed : c'.closed <;> simp [hclosed, hopen] at hgauge ⊢ <;> omega
  · show s.wsLagged + lagged = ((s.clients.set i c').map Client.skipped).sum
    rw [hset, List.map_append, List.map_cons, List.sum_append, List.sum_cons]
    omega
  · show s.wsFramesSent + frames + ((s.clients.set i c').map fun c => c.frames.length % 100).sum =
      ((s.clients.set i c').map fun c => c.frames.length).sum
    simp only [hset, List.map_append, List.map_cons, List.sum_append, List.sum_cons]
    omega

theorem counted_step (h : step C json s a = some s') (hcounted : Counted s) : Counted s' := by
  cases a with
  | publish call =>
    obtain rfl := Option.some.inj h
    exact ⟨hcounted.connections, hcounted.lagged, hcounted.frames⟩
  | subscribed =>
    obtain ⟨-, rfl⟩ := subscribed_cases h
    exact ⟨hcounted.connections, hcounted.lagged, hcounted.frames⟩
  | streamEnded =>
    obtain rfl := streamEnded_cases h
    exact ⟨hcounted.connections, hcounted.lagged, hcounted.frames⟩
  | forward =>
    obtain ⟨next, bytes, -, -, rfl⟩ := forward_cases h
    exact ⟨hcounted.connections, hcounted.lagged, hcounted.frames⟩
  | accept filter =>
    obtain rfl := Option.some.inj h
    have hconnections := hcounted.connections
    have hlagged := hcounted.lagged
    have hframes := hcounted.frames
    constructor
    · simp [accept, List.countP_append, hconnections]
    · simp [accept, hlagged]
    · simpa [accept] using hframes
  | turn i event =>
    obtain ⟨c, c', gauge, lagged, frames, hi, hopen, hmoved, rfl⟩ := turn_cases h
    exact counted_moved hcounted hi hopen hmoved

end

/-- In every run the gauge is the number of open sockets, the lag counter is what the clients were
told that they missed, and the frame counter lags behind the frames by what each client has sent
since its last full hundred. -/
theorem metrics_follow_clients (C : SnapCodec) (json : OiSnapshot → Option String)
    (acts : List Act) : Throughout (step C json) Counted start acts :=
  throughout_of_step (fun _ _ _ hcounted hstep => counted_step hstep hcounted)
    (fun _ (hcounted : Counted _) => hcounted) ⟨rfl, rfl, rfl⟩

/-- While the subscription lasts that an open client found, the ring has gained what the broadcaster
has decoded since. -/
structure Fed (C : SnapCodec) (s : Process) (c : Client) : Prop where
  start_le : c.start ≤ s.ring.length
  outages_le : c.outagesAtStart ≤ s.outages
  gained : c.closed = false → c.outagesAtStart = s.outages → ∀ p₀, c.since = some p₀ →
    ∃ p, s.feed = some p ∧ p₀ ≤ p ∧ p ≤ s.firehose.length ∧
      s.ring.drop c.start = ((s.firehose.take p).drop p₀).filterMap C.decode

section

variable {C : SnapCodec} {json : OiSnapshot → Option String} {s s' : Process} {a : Act} {i : ℕ}
  {c c' : Client} {ring : List OiSnapshot} {gauge : Int} {lagged frames : ℕ}

theorem Moved.open_of (h : Moved json ring c c' gauge lagged frames) (hopen : c'.closed = false) :
    c.closed = false := by
  cases h with
  | same => exact hopen
  | dropped => cases hopen
  | lagged hrecv => exact hopen
  | passed hrecv hframe => exact hopen
  | sent hrecv hframe => exact hopen
  | failed hrecv hframe => cases hopen

theorem Fed.forward {next : ℕ} {bytes : Bytes} (h : Fed C s c) (hc : c ∈ s.clients)
    (hfeed : s.feed = some next) (hbytes : s.firehose[next]? = some bytes) :
    Fed C { s with
      feed := some (next + 1)
      ring := s.ring ++
        if s.clients.any fun c => !c.closed then (C.decode bytes).toList else [] } c where
  start_le := by
    show c.start ≤ (s.ring ++ _).length
    rw [List.length_append]
    exact Nat.le_add_right_of_le h.start_le
  outages_le := h.outages_le
  gained hopen hsame p₀ hsince := by
    obtain ⟨p, hp, hle, -, hdrop⟩ := h.gained hopen hsame p₀ hsince
    obtain rfl : next = p := Option.some.inj (hfeed.symm.trans hp)
    have hany : (s.clients.any fun c => !c.closed) = true :=
      List.any_eq_true.mpr ⟨c, hc, by simp [hopen]⟩
    have hlt := (List.getElem?_eq_some_iff.mp hbytes).1
    refine ⟨next + 1, rfl, by omega, hlt, ?_⟩
    show (s.ring ++ _).drop c.start = ((s.firehose.take (next + 1)).drop p₀).filterMap C.decode
    rw [if_pos hany, List.drop_append_of_le_length h.start_le, hdrop, List.take_add_one,
      List.drop_append_of_le_length (by rw [List.length_take]; omega), hbytes, List.filterMap_append]
    cases hdecode : C.decode bytes <;> simp [hdecode]

/-- The broadcaster never stands behind the end of the firehose. -/
def FeedWithin (s : Process) : Prop := ∀ p, s.feed = some p → p ≤ s.firehose.length

theorem feedWithin_step (h : step C json s a = some s') (hwithin : FeedWithin s) :
    FeedWithin s' := by
  cases a with
  | publish call =>
    obtain rfl := Option.some.inj h
    intro p hp
    rw [List.length_append]
    exact Nat.le_add_right_of_le (hwithin p hp)
  | subscribed =>
    obtain ⟨-, rfl⟩ := subscribed_cases h
    intro p hp
    exact Nat.le_of_eq (Option.some.inj hp).symm
  | streamEnded =>
    obtain rfl := streamEnded_cases h
    intro p hp
    cases hp
  | forward =>
    obtain ⟨next, bytes, -, hbytes, rfl⟩ := forward_cases h
    intro p hp
    obtain rfl := Option.some.inj hp
    exact (List.getElem?_eq_some_iff.mp hbytes).1
  | accept filter =>
    obtain rfl := Option.some.inj h
    exact hwithin
  | turn i event =>
    obtain ⟨c, c', gauge, lagged, frames, -, -, -, rfl⟩ := turn_cases h
    exact hwithin

theorem fed_accept (hwithin : FeedWithin s) (filter : List InstrumentId) :
    Fed C (accept s filter)
      ⟨filter, s.ring.length, [], false, s.ring.length, [], 0, s.feed, s.outages⟩ where
  start_le := Nat.le_refl _
  outages_le := Nat.le_refl _
  gained _ _ p₀ hsince := by
    refine ⟨p₀, hsince, Nat.le_refl _, hwithin p₀ hsince, ?_⟩
    show s.ring.drop s.ring.length = ((s.firehose.take p₀).drop p₀).filterMap C.decode
    rw [List.drop_length, List.drop_eq_nil_of_le (List.length_take_le p₀ s.firehose)]
    rfl

theorem fed_step (h : step C json s a = some s') (hwithin : FeedWithin s)
    (hall : ∀ c ∈ s.clients, Fed C s c) : ∀ c ∈ s'.clients, Fed C s' c := by
  cases a with
  | publish call =>
    obtain rfl := Option.some.inj h
    intro c hc
    obtain ⟨hstart, houtages, hgained⟩ := hall c hc
    refine ⟨hstart, houtages, fun hopen hsame p₀ hsince => ?_⟩
    obtain ⟨p, hp, hle, hlength, hdrop⟩ := hgained hopen hsame p₀ hsince
    refine ⟨p, hp, hle, ?_, ?_⟩
    · rw [List.length_append]
      exact Nat.le_add_right_of_le hlength
    · rw [List.take_append_of_le_length hlength]
      exact hdrop
  | subscribed =>
    obtain ⟨hfeed, rfl⟩ := subscribed_cases h
    intro c hc
    obtain ⟨hstart, houtages, hgained⟩ := hall c hc
    refine ⟨hstart, houtages, fun hopen hsame p₀ hsince => ?_⟩
    obtain ⟨p, hp, -⟩ := hgained hopen hsame p₀ hsince
    rw [hfeed] at hp
    cases hp
  | streamEnded =>
    obtain rfl := streamEnded_cases h
    intro c hc
    obtain ⟨hstart, houtages, -⟩ := hall c hc
    refine ⟨hstart, Nat.le_succ_of_le houtages, fun _ hsame => ?_⟩
    change c.outagesAtStart = s.outages + 1 at hsame
    omega
  | forward =>
    obtain ⟨next, bytes, hfeed, hbytes, rfl⟩ := forward_cases h
    exact fun c hc => (hall c hc).forward hc hfeed hbytes
  | accept filter =>
    obtain rfl := Option.some.inj h
    intro c hc
    rcases List.mem_append.mp hc with hold | hnew
    · obtain ⟨hstart, houtages, hgained⟩ := hall c hold
      exact ⟨hstart, houtages, hgained⟩
    · rw [List.mem_singleton.mp hnew]
      exact fed_accept hwithin filter
  | turn i event =>
    obtain ⟨c, c', gauge, lagged, frames, hi, hopen, hmoved, rfl⟩ := turn_cases h
    intro d hd
    rcases List.mem_or_eq_of_mem_set hd with hold | rfl
    · obtain ⟨hstart, houtages, hgained⟩ := hall d hold
      exact ⟨hstart, houtages, hgained⟩
    · obtain ⟨-, hstart, hsince, houtages⟩ := hmoved.fixed
      have hfed := hall c (List.mem_of_getElem? hi)
      refine ⟨hstart ▸ hfed.start_le, houtages ▸ hfed.outages_le, fun hd hsame p₀ hp₀ => ?_⟩
      rw [hstart]
      exact hfed.gained (hmoved.open_of hd) (houtages ▸ hsame) p₀ (hsince ▸ hp₀)

/-- What every run keeps of the clients. -/
structure Inv (C : SnapCodec) (json : OiSnapshot → Option String) (s : Process) : Prop where
  within : FeedWithin s
  delivered : ∀ c ∈ s.clients, Delivered json s.ring c
  fed : ∀ c ∈ s.clients, Fed C s c

theorem inv_start : Inv C json start where
  within p hp := by cases hp
  delivered _ hc := (List.not_mem_nil hc).elim
  fed _ hc := (List.not_mem_nil hc).elim

theorem inv_step (h : step C json s a = some s') (hinv : Inv C json s) : Inv C json s' where
  within := feedWithin_step h hinv.within
  delivered := clients_step h hinv.delivered
  fed := fed_step h hinv.within hinv.fed

theorem inv_run {acts : List Act} (hinv : Inv C json s) (hrun : run (step C json) s acts = some s') :
    Inv C json s' :=
  throughout_run
    (throughout_of_step (fun _ _ _ hinv hstep => inv_step hstep hinv) (fun _ hinv => hinv) hinv) hrun

/-- An open client that has missed nothing and has read everything has been sent what the
broadcaster has decoded since it came. -/
theorem frames_of_caught_up (hinv : Inv C json s) (hc : c ∈ s.clients) (hopen : c.closed = false)
    (hskipped : c.skipped = 0) (hnext : c.next = s.ring.length) (houtages : c.outagesAtStart = s.outages)
    {p₀ p : ℕ} (hsince : c.since = some p₀) (hfeed : s.feed = some p) :
    c.frames = (((s.firehose.take p).drop p₀).filterMap C.decode).filterMap
      (frameOf json c.filter) := by
  have hdelivered := hinv.delivered c hc
  obtain ⟨q, hq, -, -, hdrop⟩ := (hinv.fed c hc).gained hopen houtages p₀ hsince
  obtain rfl : p = q := Option.some.inj (hfeed.symm.trans hq)
  have hreads := hdelivered.reads
  rw [hskipped] at hreads
  rw [hdelivered.all hopen, hreads.valuesAt_eq, hnext, List.take_length, hdrop]

/-- The calls of `publish` in a run. -/
def Act.call : Act → Option PublishCall
  | .publish call => some call
  | _ => none

/-- The snapshots of a call that went to the firehose. -/
def published (C : SnapCodec) (call : PublishCall) : List OiSnapshot :=
  stream C firehoseChannel (PubSub.publish C call).1

/-- The firehose carries what the calls publish, and nothing else. -/
theorem firehose_run {acts : List Act} (hrun : run (step C json) s acts = some s') :
    ∃ more, s'.firehose = s.firehose ++ more ∧
      more.filterMap C.decode = (acts.filterMap Act.call).flatMap (published C) := by
  induction acts generalizing s with
  | nil =>
    obtain rfl := Option.some.inj hrun
    exact ⟨[], (List.append_nil _).symm, rfl⟩
  | cons a rest ih =>
    obtain ⟨next, hstep, hrest⟩ := run_cons_eq_some.mp hrun
    obtain ⟨more, hmore, hdecoded⟩ := ih hrest
    have hsame : next.firehose = s.firehose → Act.call a = none → ∃ more,
        s'.firehose = s.firehose ++ more ∧
          more.filterMap C.decode = ((a :: rest).filterMap Act.call).flatMap (published C) := by
      intro hfirehose hcall
      rw [List.filterMap_cons_none hcall, ← hfirehose]
      exact ⟨more, hmore, hdecoded⟩
    cases a with
    | publish call =>
      obtain rfl := Option.some.inj hstep
      refine ⟨onChannel firehoseChannel (PubSub.publish C call).1 ++ more, ?_, ?_⟩
      · rw [hmore, List.append_assoc]
      · have hcall : Act.call (.publish call) = some call := rfl
        rw [List.filterMap_append, hdecoded, List.filterMap_cons_some hcall, List.flatMap_cons]
        rfl
    | subscribed =>
      obtain ⟨-, rfl⟩ := subscribed_cases hstep
      exact hsame rfl rfl
    | streamEnded =>
      obtain rfl := streamEnded_cases hstep
      exact hsame rfl rfl
    | forward =>
      obtain ⟨p, bytes, -, -, rfl⟩ := forward_cases hstep
      exact hsame rfl rfl
    | accept filter =>
      obtain rfl := Option.some.inj hstep
      exact hsame rfl rfl
    | turn i event =>
      obtain ⟨c, c', gauge, lagged, frames, -, -, -, rfl⟩ := turn_cases hstep
      exact hsame rfl rfl

/-- The client at an index stays the one that came, and an outage is counted. -/
theorem fixed_step (h : step C json s a = some s') (hi : s.clients[i]? = some c) :
    ∃ c', s'.clients[i]? = some c' ∧ c'.filter = c.filter ∧ c'.start = c.start ∧
      c'.since = c.since ∧ c'.outagesAtStart = c.outagesAtStart := by
  have hsame : s'.clients = s.clients → ∃ c', s'.clients[i]? = some c' ∧ c'.filter = c.filter ∧
      c'.start = c.start ∧ c'.since = c.since ∧ c'.outagesAtStart = c.outagesAtStart := by
    intro hclients
    rw [hclients]
    exact ⟨c, hi, rfl, rfl, rfl, rfl⟩
  cases a with
  | publish call =>
    obtain rfl := Option.some.inj h
    exact hsame rfl
  | subscribed =>
    obtain ⟨-, rfl⟩ := subscribed_cases h
    exact hsame rfl
  | streamEnded =>
    obtain rfl := streamEnded_cases h
    exact hsame rfl
  | forward =>
    obtain ⟨next, bytes, -, -, rfl⟩ := forward_cases h
    exact hsame rfl
  | accept filter =>
    obtain rfl := Option.some.inj h
    refine ⟨c, ?_, rfl, rfl, rfl, rfl⟩
    rw [← hi]
    exact List.getElem?_append_left (List.getElem?_eq_some_iff.mp hi).1
  | turn j event =>
    obtain ⟨d, d', gauge, lagged, frames, hj, -, hmoved, rfl⟩ := turn_cases h
    show ∃ c', (s.clients.set j d')[i]? = some c' ∧ _
    by_cases hij : j = i
    · subst hij
      obtain rfl := Option.some.inj (hj.symm.trans hi)
      exact ⟨d', List.getElem?_set_self (List.getElem?_eq_some_iff.mp hi).1, hmoved.fixed⟩
    · rw [List.getElem?_set_ne hij]
      exact ⟨c, hi, rfl, rfl, rfl, rfl⟩

theorem outages_step (h : step C json s a = some s') (hends : a ≠ .streamEnded) :
    s'.outages = s.outages := by
  cases a with
  | publish call =>
    obtain rfl := Option.some.inj h
    rfl
  | subscribed =>
    obtain ⟨-, rfl⟩ := subscribed_cases h
    rfl
  | streamEnded => exact absurd rfl hends
  | forward =>
    obtain ⟨next, bytes, -, -, rfl⟩ := forward_cases h
    rfl
  | accept filter =>
    obtain rfl := Option.some.inj h
    rfl
  | turn j event =>
    obtain ⟨c, c', gauge, lagged, frames, -, -, -, rfl⟩ := turn_cases h
    rfl

theorem fixed_run {acts : List Act} (hi : s.clients[i]? = some c) (hends : .streamEnded ∉ acts)
    (hrun : run (step C json) s acts = some s') :
    s'.outages = s.outages ∧ ∃ c', s'.clients[i]? = some c' ∧ c'.filter = c.filter ∧
      c'.start = c.start ∧ c'.since = c.since ∧ c'.outagesAtStart = c.outagesAtStart := by
  induction acts generalizing s c with
  | nil =>
    obtain rfl := Option.some.inj hrun
    exact ⟨rfl, c, hi, rfl, rfl, rfl, rfl⟩
  | cons a rest ih =>
    obtain ⟨next, hstep, hrest⟩ := run_cons_eq_some.mp hrun
    obtain ⟨ha, hmore⟩ := not_or.mp (List.mem_cons.not.mp hends)
    obtain ⟨d, hd, hfilter, hstart, hsince, houtages⟩ := fixed_step hstep hi
    obtain ⟨hsame, c', hc', hfilter', hstart', hsince', houtages'⟩ := ih hd hmore hrest
    exact ⟨hsame.trans (outages_step hstep (Ne.symm ha)), c', hc', hfilter'.trans hfilter,
      hstart'.trans hstart, hsince'.trans hsince, houtages'.trans houtages⟩

end

/-- A client that comes while the broadcaster is subscribed and has nothing left to handle, that is
told of no missed value and has read all there is, is sent the texts of exactly the snapshots that
are published after it came and that pass its filter, in order, as long as the subscription lasts. -/
theorem client_is_sent_what_is_published (C : SnapCodec) (json : OiSnapshot → Option String)
    {before after : List Act} {s s' : Process} {filter : List InstrumentId} {c : Client}
    (hbefore : run (step C json) start before = some s) (hready : s.feed = some s.firehose.length)
    (hafter : run (step C json) (accept s filter) after = some s') (hlasts : .streamEnded ∉ after)
    (hc : s'.clients[s.clients.length]? = some c) (hopen : c.closed = false)
    (hskipped : c.skipped = 0) (hnext : c.next = s'.ring.length)
    (hdone : s'.feed = some s'.firehose.length) :
    c.frames = ((after.filterMap Act.call).flatMap (published C)).filterMap (frameOf json filter) := by
  have haccept : step C json s (.accept filter) = some (accept s filter) := rfl
  have hinv : Inv C json s' := inv_run (inv_step haccept (inv_run inv_start hbefore)) hafter
  have hnew : (accept s filter).clients[s.clients.length]? =
      some ⟨filter, s.ring.length, [], false, s.ring.length, [], 0, s.feed, s.outages⟩ := by
    show (s.clients ++ [_])[s.clients.length]? = _
    rw [List.getElem?_append_right (Nat.le_refl _), Nat.sub_self]
    rfl
  obtain ⟨houtages, d, hd, hfilter, -, hsince, hat⟩ := fixed_run hnew hlasts hafter
  obtain rfl : d = c := Option.some.inj (hd.symm.trans hc)
  obtain ⟨more, hmore, hdecoded⟩ := firehose_run hafter
  have hframes := frames_of_caught_up hinv (List.mem_of_getElem? hc) hopen hskipped hnext
    (hat.trans houtages.symm) (hsince.trans hready) hdone
  have hfirehose : (accept s filter).firehose = s.firehose := rfl
  rw [hframes, List.take_length, hmore, hfirehose, List.drop_left, hdecoded, hfilter]

/-- A codec that reads the given bars, for runs on fixed inputs. -/
def snapCodecOf (known : List OiSnapshot) : SnapCodec where
  encode snap :=
    if (known.find? fun bar => (barBytes bar).isPrefixOf (barBytes snap)) = some snap then
      .ok (barBytes snap)
    else .error "unknown bar"
  decode bytes := known.find? fun bar => (barBytes bar).isPrefixOf bytes
  decode_encode snap bytes h := by
    split at h
    case isTrue hread =>
      obtain rfl := Except.ok.inj h
      exact hread
    case isFalse => cases h

def symbolBar (symbol : String) : OiSnapshot :=
  .startFromSample { sampleAt 0 0 with instrument := ⟨.bybit, symbol⟩ }

/-- Two bars are published, and one of them passes the filter. The frames are named by the
symbols. -/
theorem filtered_bar_is_sent :
    let C := snapCodecOf [symbolBar "ETHUSDT", symbolBar "BTCUSDT"]
    let json (snap : OiSnapshot) : Option String := some snap.instrument.symbol
    let acts : List Act := [.publish ⟨[symbolBar "ETHUSDT", symbolBar "BTCUSDT"], 4, .ok ()⟩,
      .forward, .turn 0 (.snap true), .forward, .turn 0 (.snap true)]
    ∃ s, run (step C json) (accept { start with feed := some 0 } [⟨.bybit, "BTCUSDT"⟩]) acts =
        some s ∧ s.ring.length = 2 ∧
      ∃ c, s.clients[0]? = some c ∧ c.frames = ["BTCUSDT"] := by
  intro C json acts
  have hrun : ∃ s ∈ run (step C json) (accept { start with feed := some 0 }
      [⟨.bybit, "BTCUSDT"⟩]) acts, s.ring.length = 2 ∧ s.feed = some s.firehose.length ∧
      ∃ c ∈ s.clients[0]?, c.closed = false ∧ c.skipped = 0 ∧ c.next = s.ring.length := by
    decide +kernel
  obtain ⟨s, hafter, hring, hdone, c, hc, hopen, hskipped, hnext⟩ := hrun
  have hsent : ((acts.filterMap Act.call).flatMap (published C)).filterMap
      (frameOf json [⟨.bybit, "BTCUSDT"⟩]) = ["BTCUSDT"] := by decide +kernel
  have hbefore : run (step C json) start [.subscribed] = some { start with feed := some 0 } := rfl
  have hlasts : .streamEnded ∉ acts := by simp [acts]
  refine ⟨s, hafter, hring, c, hc, Eq.trans ?_ hsent⟩
  exact client_is_sent_what_is_published C json hbefore rfl hafter hlasts hc hopen hskipped hnext
    hdone

end OiTerminal.Api.Broadcast
