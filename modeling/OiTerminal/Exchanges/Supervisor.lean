import OiTerminal.Exchanges.Ws
import OiTerminal.Lib.Backoff

/-!
# Reconnecting

The supervisor builds one backoff iterator, before its loop, and takes the next delay from it
after every return of `connect_once`. The iterator belongs to another crate: its k-th call
yields the doubled and capped delay with jitter of at most the same amount.
-/
namespace OiTerminal.Exchanges.Supervisor

open OiTerminal.Exchanges.Ws (Closed)
open OiTerminal.Lib.Backoff

set_option autoImplicit false

/-- How `connect_once` ends: before the handshake, in `on_connect`, or in the receive loop. -/
inductive Outcome where
  | connectTimeout
  | connectFailed (error : String)
  | subscribeFailed (error : String)
  | closed (reason : Closed)

/-- There was no handshake. -/
def Outcome.failedConnect : Outcome → Bool
  | .connectTimeout => true
  | .connectFailed _ => true
  | .subscribeFailed _ => false
  | .closed _ => false

/-- In milliseconds, for the k-th call. -/
def backoffDelay (k : Nat) : Nat := capped 500 30000 k

structure Jitter where
  amount : Nat → Nat
  le_delay : ∀ k, amount k ≤ backoffDelay k

/-- The iterator, which counts its calls. -/
structure Backoff where
  calls : Nat

def Backoff.next (J : Jitter) (backoff : Backoff) : Option Nat × Backoff :=
  (some (backoffDelay backoff.calls + J.amount backoff.calls), ⟨backoff.calls + 1⟩)

/-- One turn of the loop. -/
inductive Turn where
  | consumerDropped
  | attempt (outcome : Outcome)

/-- The delays that the loop sleeps. Whether the connection was good is logged only. -/
def superviseLoop (J : Jitter) : Backoff → List Turn → List Nat
  | _, [] => []
  | _, .consumerDropped :: _ => []
  | backoff, .attempt _ :: rest =>
    let (delay, backoff) := backoff.next J
    delay.getD 30000 :: superviseLoop J backoff rest

def runSupervisor (J : Jitter) (turns : List Turn) : List Nat := superviseLoop J ⟨0⟩ turns

/-- What the attempts came to until the consumer was gone. -/
def attempts : List Turn → List Outcome
  | [] => []
  | .consumerDropped :: _ => []
  | .attempt outcome :: rest => outcome :: attempts rest

/-- Every sleep is within the delay, with jitter, for the connects that failed since the last
handshake. -/
def RestartsAfterHandshake (turns : List Turn) : Prop :=
  ∀ (J : Jitter) (i slept : Nat), (runSupervisor J turns)[i]? = some slept →
    slept ≤ 2 * backoffDelay (failures Outcome.failedConnect ((attempts turns).take (i + 1)))

theorem length_superviseLoop (J : Jitter) (backoff : Backoff) (turns : List Turn) :
    (superviseLoop J backoff turns).length = (attempts turns).length := by
  induction turns generalizing backoff with
  | nil => rfl
  | cons turn rest ih =>
    cases turn with
    | consumerDropped => rfl
    | attempt outcome => exact congrArg Nat.succ (ih _)

/-- The delay goes by the calls before it, whatever became of the connections. -/
theorem getElem?_superviseLoop (J : Jitter) (calls : Nat) {turns : List Turn} {i : Nat}
    (hi : i < (attempts turns).length) : (superviseLoop J ⟨calls⟩ turns)[i]? =
      some (backoffDelay (calls + i) + J.amount (calls + i)) := by
  induction turns generalizing calls i with
  | nil => cases hi
  | cons turn rest ih =>
    cases turn with
    | consumerDropped => cases hi
    | attempt outcome =>
      cases i with
      | zero => rfl
      | succ i =>
        have hrest := ih (calls + 1) (Nat.lt_of_succ_lt_succ hi)
        rw [Nat.add_right_comm] at hrest
        exact hrest

theorem slept_of_runSupervisor {J : Jitter} {turns : List Turn} {i slept : Nat}
    (h : (runSupervisor J turns)[i]? = some slept) :
    i < (attempts turns).length ∧ slept = backoffDelay i + J.amount i := by
  have hlt := (List.getElem?_eq_some_iff.mp h).1
  rw [runSupervisor, length_superviseLoop] at hlt
  have hslept := getElem?_superviseLoop J 0 hlt
  rw [Nat.zero_add] at hslept
  exact ⟨hlt, Option.some.inj (h.symm.trans hslept)⟩

/-- From the seventh delay on, every reconnect waits at least thirty seconds. -/
theorem thirty_seconds_le {J : Jitter} {turns : List Turn} {i slept : Nat}
    (h : (runSupervisor J turns)[i]? = some slept) (hi : 6 ≤ i) : 30000 ≤ slept := by
  obtain ⟨-, rfl⟩ := slept_of_runSupervisor h
  have hcap : backoffDelay 6 = 30000 := capped_of_le (by decide)
  calc 30000 = backoffDelay 6 := hcap.symm
    _ ≤ backoffDelay i := capped_mono hi
    _ ≤ backoffDelay i + J.amount i := Nat.le_add_right ..

/-- With the most jitter each delay is doubled. -/
def fullJitter : Jitter := ⟨backoffDelay, fun _ => le_refl _⟩

theorem restarts_iff_delays (turns : List Turn) : RestartsAfterHandshake turns ↔
    ∀ i < (attempts turns).length, backoffDelay i ≤
      backoffDelay (failures Outcome.failedConnect ((attempts turns).take (i + 1))) := by
  constructor
  · intro h i hi
    have hslept := getElem?_superviseLoop fullJitter 0 hi
    rw [Nat.zero_add] at hslept
    have hle := h fullJitter i _ hslept
    change backoffDelay i + backoffDelay i ≤ _ at hle
    omega
  · intro h J i slept hslept
    obtain ⟨hlt, rfl⟩ := slept_of_runSupervisor hslept
    have hle := h i hlt
    have hjitter := J.le_delay i
    omega

/-- The delays follow the failures since the last handshake in those runs in which no attempt
after the first one gets to a handshake. -/
theorem restartsAfterHandshake_iff (turns : List Turn) : RestartsAfterHandshake turns ↔
    ∀ outcome ∈ (attempts turns).tail, outcome.failedConnect = true := by
  rw [restarts_iff_delays]
  exact le_since_iff capped_mono (capped_zero_lt (by decide) (by decide)) (attempts turns)

/-- Seven connections are established and closed by the venue, and the next one has to wait for
thirty seconds. -/
theorem churn_exhausts_backoff : ¬ ∀ turns : List Turn, RestartsAfterHandshake turns := by
  intro h
  let churn : List Turn := List.replicate 7 (.attempt (.closed .streamEnded))
  have hle := h churn ⟨fun _ => 0, fun _ => Nat.zero_le _⟩ 6 30000 (by decide)
  exact absurd hle (by decide)

end OiTerminal.Exchanges.Supervisor
