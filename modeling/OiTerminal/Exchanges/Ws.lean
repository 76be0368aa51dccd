import OiTerminal.Lib.Transition

/-!
# The receive loop of a WebSocket connection

Each iteration waits for the ping tick or for the next message under the idle timeout.
Whichever comes first ends the iteration, and the next one starts a new idle timer. Timers
fire when they are due: time does not pass beyond a due timer while the loop waits.
-/
namespace OiTerminal.Exchanges.Ws

open OiTerminal.Lib.Transition

set_option autoImplicit false

/-- Durations and instants are nanoseconds, counted from the start of the loop. -/
def secs (n : Nat) : Nat := n * 1000000000

/-- The two durations of a `WsHandler`. -/
structure WsHandler where
  pingInterval : Nat
  idleTimeout : Nat
  deriving DecidableEq, Repr

/-- The trait's own durations, which a handler may override. -/
def defaults : WsHandler := ⟨secs 20, secs 60⟩

def binanceMarkPriceWs : WsHandler := { defaults with idleTimeout := secs 30 }

def bybitTickersWs : WsHandler := ⟨secs 20, secs 60⟩

def okxOpenInterestWs : WsHandler := ⟨secs 20, secs 60⟩

def bitgetTickerWs : WsHandler := ⟨secs 25, secs 60⟩

def hyperliquidActiveAssetCtxWs : WsHandler := ⟨secs 20, secs 60⟩

def handlers : List WsHandler :=
  [binanceMarkPriceWs, bybitTickersWs, okxOpenInterestWs, bitgetTickerWs,
    hyperliquidActiveAssetCtxWs]

theorem pingInterval_lt_idleTimeout : ∀ h ∈ handlers, h.pingInterval < h.idleTimeout := by decide

/-- Why `connect_once` returns. -/
inductive Closed where
  | pingFailed (error : String)
  | idleTimeout
  | streamEnded
  | readError (error : String)
  | closeFrame (frame : String)
  | handlerFailed (error : String)
  | consumerDropped
  deriving DecidableEq, Repr

def Closed.result : Closed → Except String String
  | .pingFailed error => .ok ("ping send failed: " ++ error)
  | .idleTimeout => .ok "idle timeout"
  | .streamEnded => .ok "stream ended"
  | .readError error => .error ("ws read error: " ++ error)
  | .closeFrame frame => .ok ("close frame: " ++ frame)
  | .handlerFailed error => .error error
  | .consumerDropped => .ok "consumer dropped"

theorem result_eq_idleTimeout {reason : Closed} (h : reason.result = .ok "idle timeout") :
    reason = .idleTimeout := by
  have hhead : ∀ {text text' : String}, text = text' → text.toList.head? = text'.toList.head? :=
    fun heq => by rw [heq]
  cases reason with
  | idleTimeout => rfl
  | pingFailed error => exact absurd (hhead (Except.ok.inj h)) (by simp)
  | closeFrame frame => exact absurd (hhead (Except.ok.inj h)) (by simp)
  | streamEnded => exact absurd (hhead (Except.ok.inj h)) (by simp)
  | consumerDropped => exact absurd (hhead (Except.ok.inj h)) (by simp)
  | readError error => cases h
  | handlerFailed error => cases h

/-- What becomes of a message that goes to the handler. -/
inductive Handled where
  | swallowed
  | delivered
  | failed (error : String)
  | dropped
  deriving DecidableEq, Repr

/-- What `src.next()` yields. -/
inductive Inbound where
  | ended
  | readError (error : String)
  | ping
  | pong
  | close (frame : String)
  | other (handled : Handled)
  deriving DecidableEq, Repr

/-- `none` where the loop goes on. -/
def Inbound.closes : Inbound → Option Closed
  | .ended => some .streamEnded
  | .readError error => some (.readError error)
  | .ping | .pong => none
  | .close frame => some (.closeFrame frame)
  | .other .swallowed | .other .delivered => none
  | .other (.failed error) => some (.handlerFailed error)
  | .other .dropped => some .consumerDropped

theorem closes_ne_idleTimeout (msg : Inbound) : msg.closes ≠ some .idleTimeout := by
  rcases msg with _ | _ | _ | _ | _ | handled
  case other => cases handled <;> simp [Inbound.closes]
  all_goals simp [Inbound.closes]

structure State where
  now : Nat
  lastInbound : Nat
  iterStart : Nat
  nextTick : Nat
  returned : Option Closed
  deriving DecidableEq, Repr

inductive Act where
  | elapse (d : Nat)
  | inbound (msg : Inbound)
  | pingTick (failed : Option String)
  | idleTimeout
  deriving DecidableEq, Repr

/-- One event of the loop. The branch that loses the `select!` is dropped and built anew
in the next iteration, so both kinds of event start the idle timer again. -/
def step (h : WsHandler) (s : State) (a : Act) : Option State :=
  match s.returned, a with
  | some _, _ => none
  | none, .elapse d =>
    if s.now + d ≤ s.nextTick ∧ s.now + d ≤ s.iterStart + h.idleTimeout then
      some { s with now := s.now + d }
    else none
  | none, .inbound msg =>
    match msg.closes with
    | some reason => some { s with lastInbound := s.now, returned := some reason }
    | none => some { s with lastInbound := s.now, iterStart := s.now }
  | none, .pingTick failed =>
    if s.nextTick ≤ s.now then
      match failed with
      | some error => some { s with returned := some (.pingFailed error) }
      | none => some { s with iterStart := s.now, nextTick := s.nextTick + h.pingInterval }
    else none
  | none, .idleTimeout =>
    if s.iterStart + h.idleTimeout ≤ s.now then some { s with returned := some .idleTimeout }
    else none

/-- The handshake is done and the immediate first tick consumed. -/
def start (h : WsHandler) : State where
  now := 0
  lastInbound := 0
  iterStart := 0
  nextTick := h.pingInterval
  returned := none

/-- While the loop waits, the last message is at most the idle timeout ago. -/
def IdleEnforced (h : WsHandler) (s : State) : Prop :=
  s.returned = none → s.now ≤ s.lastInbound + h.idleTimeout

/-- A silence in which a ping tick has fired does not outlast the idle timeout. -/
def PingedSilenceEnds (h : WsHandler) (s : State) : Act → Prop
  | .elapse d => s.lastInbound < s.iterStart → s.now + d ≤ s.lastInbound + h.idleTimeout
  | _ => True

/-- The idle timer started with the last message or later. -/
def Inv (h : WsHandler) (s : State) : Prop :=
  s.returned = none → s.lastInbound ≤ s.iterStart ∧ s.iterStart ≤ s.now ∧
    s.now ≤ s.lastInbound + h.idleTimeout

variable {h : WsHandler} {s s' : State} {a : Act}

/-- What an event does to a waiting loop that goes on. -/
theorem step_waiting (hstep : step h s a = some s') (hwaiting : s'.returned = none) :
    s.returned = none ∧
      ((∃ d, a = .elapse d ∧ s.now + d ≤ s.nextTick ∧ s.now + d ≤ s.iterStart + h.idleTimeout ∧
        s' = { s with now := s.now + d }) ∨
      (∃ msg, a = .inbound msg ∧ s' = { s with lastInbound := s.now, iterStart := s.now }) ∨
      (a = .pingTick none ∧ s.nextTick ≤ s.now ∧
        s' = { s with iterStart := s.now, nextTick := s.nextTick + h.pingInterval })) := by
  cases hreturned : s.returned with
  | some reason => simp [step, hreturned] at hstep
  | none =>
    refine ⟨rfl, ?_⟩
    cases a with
    | elapse d =>
      simp only [step, hreturned, Option.ite_none_right_eq_some, Option.some.injEq] at hstep
      obtain ⟨⟨htick, hidle⟩, rfl⟩ := hstep
      exact .inl ⟨d, rfl, htick, hidle, rfl⟩
    | inbound msg =>
      simp only [step, hreturned] at hstep
      split at hstep
      · obtain rfl := Option.some.inj hstep
        cases hwaiting
      · exact .inr (.inl ⟨msg, rfl, (Option.some.inj hstep).symm⟩)
    | pingTick failed =>
      simp only [step, hreturned, Option.ite_none_right_eq_some] at hstep
      obtain ⟨htick, hstep⟩ := hstep
      cases failed with
      | some error =>
        obtain rfl := Option.some.inj hstep
        cases hwaiting
      | none => exact .inr (.inr ⟨rfl, htick, (Option.some.inj hstep).symm⟩)
    | idleTimeout =>
      simp only [step, hreturned, Option.ite_none_right_eq_some, Option.some.injEq] at hstep
      obtain ⟨_, rfl⟩ := hstep
      cases hwaiting

theorem inv_step (hinv : Inv h s) (hok : PingedSilenceEnds h s a) (hstep : step h s a = some s') :
    Inv h s' := by
  intro hwaiting
  obtain ⟨hreturned, hcases⟩ := step_waiting hstep hwaiting
  obtain ⟨hlast, hiter, hsilence⟩ := hinv hreturned
  rcases hcases with ⟨d, rfl, _, hidle, rfl⟩ | ⟨msg, rfl, rfl⟩ | ⟨rfl, _, rfl⟩
  · refine ⟨hlast, Nat.le_add_right_of_le hiter, ?_⟩
    -- without a tick the timer still counts from the last message
    by_cases hticked : s.lastInbound < s.iterStart
    · exact hok hticked
    · have heq : s.iterStart = s.lastInbound := by omega
      rw [heq] at hidle
      exact hidle
  · exact ⟨Nat.le_refl _, Nat.le_refl _, Nat.le_add_right _ _⟩
  · exact ⟨Nat.le_trans hlast hiter, Nat.le_refl _, hsilence⟩

theorem pingedSilenceEnds_of_idleEnforced (hstep : step h s a = some s')
    (henforced : IdleEnforced h s') : PingedSilenceEnds h s a := by
  cases a with
  | elapse d =>
    intro _
    cases hreturned : s.returned with
    | some reason => simp [step, hreturned] at hstep
    | none =>
      simp only [step, hreturned, Option.ite_none_right_eq_some, Option.some.injEq] at hstep
      obtain ⟨_, rfl⟩ := hstep
      exact henforced rfl
  | _ => trivial

/-- The idle timeout is enforced in exactly the runs where no silence outlasts it once a
ping tick has fired in the silence. -/
theorem idleEnforced_iff_pingedSilenceEnds (h : WsHandler) (acts : List Act) :
    Throughout (step h) (IdleEnforced h) (start h) acts ↔
      Along (step h) (PingedSilenceEnds h) (start h) acts := by
  have hstart : Inv h (start h) := fun _ => ⟨Nat.le_refl _, Nat.le_refl _, Nat.zero_le _⟩
  exact throughout_iff_along (fun _ _ _ hinv hok hstep => inv_step hinv hok hstep)
    (fun _ hinv hwaiting => (hinv hwaiting).2.2)
    (fun _ _ _ _ hstep henforced => pingedSilenceEnds_of_idleEnforced hstep henforced) hstart

/-- The next tick is due within a ping interval of the iteration's start. -/
def TickAhead (h : WsHandler) (s : State) : Prop :=
  s.returned ≠ some .idleTimeout ∧
    (s.returned = none → s.nextTick ≤ s.iterStart + h.pingInterval ∧ s.iterStart ≤ s.now ∧
      s.now ≤ s.nextTick)

theorem tickAhead_step (hlt : h.pingInterval < h.idleTimeout) (hinv : TickAhead h s)
    (hstep : step h s a = some s') : TickAhead h s' := by
  refine ⟨fun hidle => ?_, fun hwaiting => ?_⟩
  · cases hreturned : s.returned with
    | some reason => simp [step, hreturned] at hstep
    | none =>
      obtain ⟨hsoon, _, hahead⟩ := hinv.2 hreturned
      cases a with
      | elapse d =>
        simp only [step, hreturned, Option.ite_none_right_eq_some, Option.some.injEq] at hstep
        obtain ⟨_, rfl⟩ := hstep
        cases hidle
      | inbound msg =>
        simp only [step, hreturned] at hstep
        split at hstep
        · rename_i reason hcloses
          obtain rfl := Option.some.inj hstep
          exact closes_ne_idleTimeout msg (hcloses.trans hidle)
        · obtain rfl := Option.some.inj hstep
          cases hidle
      | pingTick failed =>
        simp only [step, hreturned, Option.ite_none_right_eq_some] at hstep
        obtain ⟨_, hstep⟩ := hstep
        cases failed <;> obtain rfl := Option.some.inj hstep <;> cases hidle
      | idleTimeout =>
        -- the tick is due before the idle timer, and time does not pass beyond it
        simp only [step, hreturned, Option.ite_none_right_eq_some] at hstep
        omega
  · obtain ⟨hreturned, hcases⟩ := step_waiting hstep hwaiting
    obtain ⟨hsoon, hiter, hahead⟩ := hinv.2 hreturned
    rcases hcases with ⟨d, rfl, htick, _, rfl⟩ | ⟨msg, rfl, rfl⟩ | ⟨rfl, hdue, rfl⟩
    · exact ⟨hsoon, Nat.le_add_right_of_le hiter, htick⟩
    · refine ⟨?_, Nat.le_refl _, hahead⟩
      show s.nextTick ≤ s.now + h.pingInterval
      omega
    · refine ⟨?_, Nat.le_refl _, Nat.le_add_right_of_le hahead⟩
      show s.nextTick + h.pingInterval ≤ s.now + h.pingInterval
      omega

/-- A handler that pings more often than it times out never times out. -/
theorem idleTimeout_never_returned (hlt : h.pingInterval < h.idleTimeout) (acts : List Act) :
    Throughout (step h) (fun s => s.returned.map Closed.result ≠ some (.ok "idle timeout"))
      (start h) acts := by
  have hstart : TickAhead h (start h) :=
    ⟨by simp [start], fun _ => ⟨Nat.le_add_left _ _, Nat.le_refl _, Nat.zero_le _⟩⟩
  refine throughout_of_step (fun _ _ _ => tickAhead_step hlt) (fun s hinv heq => ?_) hstart
  obtain ⟨reason, hreason, hresult⟩ := Option.map_eq_some_iff.mp heq
  exact hinv.1 (hreason.trans (congrArg some (result_eq_idleTimeout hresult)))

/-- So no handler of the repository ever returns "idle timeout". -/
theorem handlers_never_time_out (hh : h ∈ handlers) (acts : List Act) :
    Throughout (step h) (fun s => s.returned.map Closed.result ≠ some (.ok "idle timeout"))
      (start h) acts :=
  idleTimeout_never_returned (pingInterval_lt_idleTimeout h hh) acts

/-- Four ping intervals without a message: the loop still waits 80 s after the handshake. -/
theorem silent_connection_kept :
    ¬ ∀ h : WsHandler, h.pingInterval < h.idleTimeout → ∀ acts : List Act,
      Throughout (step h) (IdleEnforced h) (start h) acts := by
  intro hall
  let quiet : List Act := [.elapse (secs 20), .pingTick none]
  let acts : List Act := quiet ++ quiet ++ quiet ++ quiet
  have hrun : (run (step bybitTickersWs) (start bybitTickersWs) acts).map
      (fun s => (s.now, s.lastInbound, s.returned)) = some (secs 80, 0, none) := by
    decide +kernel
  obtain ⟨s, hs, hproj⟩ := Option.map_eq_some_iff.mp hrun
  obtain ⟨hnow, hrest⟩ := Prod.mk.inj hproj
  obtain ⟨hlast, hreturned⟩ := Prod.mk.inj hrest
  have henforced := throughout_run (hall bybitTickersWs (by decide) acts) hs hreturned
  rw [hnow, hlast] at henforced
  exact absurd henforced (by decide)

end OiTerminal.Exchanges.Ws
