import Mathlib.Data.List.Basic
import OiTerminal.Lib.Transition

/-!
# A list sent through a bounded channel

A task sends the items of a list in order and waits for room in the channel. It returns when it has
sent them all, or when it finds the receiver gone.
-/
namespace OiTerminal.Lib.Outbox

open OiTerminal.Lib.Transition

set_option autoImplicit false

structure Channel (α : Type) where
  unsent : List α
  queue : List α
  received : List α
  running : Bool
  gone : Bool

inductive Act where
  | send
  | take
  | leave

section

variable {α : Type} (capacity : ℕ)

def send (s : Channel α) : Option (Channel α) :=
  match s.unsent with
  | [] => some { s with running := false }
  | item :: rest =>
    if s.gone then some { s with running := false }
    else if s.queue.length < capacity then
      some { s with unsent := rest, queue := s.queue ++ [item] }
    else none

def step (s : Channel α) : Act → Option (Channel α)
  | .send => if s.running then send capacity s else none
  | .take =>
    match s.queue with
    | [] => none
    | item :: rest => some { s with queue := rest, received := s.received ++ [item] }
  | .leave => some { s with gone := true, queue := [] }

def start (items : List α) : Channel α := ⟨items, [], [], true, false⟩

/-- Nothing is left out, doubled or moved on the way. A task that has returned has sent all. -/
structure Delivers (items : List α) (s : Channel α) : Prop where
  bounded : s.queue.length ≤ capacity
  all : s.gone = false → s.received ++ s.queue ++ s.unsent = items
  part : s.received <+: items
  returned : s.gone = false → s.running = false → s.unsent = []
  gone : s.gone = true → s.queue = []

end

section

variable {α : Type} {capacity : ℕ} {items : List α} {s s' : Channel α} {a : Act}

theorem delivers_start (items : List α) : Delivers capacity items (start items) where
  bounded := Nat.zero_le _
  all _ := rfl
  part := List.nil_prefix
  returned _ h := by cases h
  gone h := by cases h

theorem delivers_send (h : Delivers capacity items s) (hsend : send capacity s = some s') :
    Delivers capacity items s' := by
  obtain ⟨unsent, queue, received, running, gone⟩ := s
  cases unsent with
  | nil =>
    obtain rfl := Option.some.inj hsend
    exact ⟨h.bounded, h.all, h.part, fun _ _ => rfl, h.gone⟩
  | cons item rest =>
    cases gone with
    | true =>
      obtain rfl := Option.some.inj hsend
      exact ⟨h.bounded, h.all, h.part, fun hthere => (by cases hthere), h.gone⟩
    | false =>
      obtain ⟨hroom, hs'⟩ := Option.ite_none_right_eq_some.mp hsend
      obtain rfl := Option.some.inj hs'
      refine ⟨?_, fun _ => ?_, h.part, fun _ hreturned => ?_, fun hleft => (by cases hleft)⟩
      · rw [List.length_append]
        exact hroom
      · rw [← h.all rfl, List.append_assoc, List.append_assoc, List.append_assoc]
        rfl
      · cases h.returned rfl hreturned

theorem delivers_step (h : Delivers capacity items s) (hstep : step capacity s a = some s') :
    Delivers capacity items s' := by
  cases a with
  | send =>
    obtain ⟨-, hsend⟩ := Option.ite_none_right_eq_some.mp hstep
    exact delivers_send h hsend
  | take =>
    cases hqueue : s.queue with
    | nil => simp [step, hqueue] at hstep
    | cons item rest =>
      simp only [step, hqueue, Option.some.injEq] at hstep
      subst hstep
      have hthere : s.gone = false := by
        cases hgone : s.gone with
        | false => rfl
        | true =>
          have hempty := h.gone hgone
          rw [hqueue] at hempty
          cases hempty
      have hall := h.all hthere
      have hmoved : s.received ++ [item] ++ rest ++ s.unsent = items := by
        rw [← hall, hqueue, List.append_assoc s.received]
        rfl
      have hbounded := h.bounded
      rw [hqueue, List.length_cons] at hbounded
      refine ⟨Nat.le_of_succ_le hbounded, fun _ => hmoved, ?_, h.returned, fun hgone => ?_⟩
      · exact ⟨rest ++ s.unsent, by rw [← List.append_assoc, hmoved]⟩
      · rw [hthere] at hgone
        cases hgone
  | leave =>
    obtain rfl := Option.some.inj hstep
    exact ⟨Nat.zero_le _, fun hthere => (by cases hthere), h.part, fun hthere => (by cases hthere),
      fun _ => rfl⟩

/-- The receiver takes what waits. -/
theorem run_take (capacity : ℕ) (s : Channel α) :
    ∃ acts, run (step capacity) s acts =
      some { s with queue := [], received := s.received ++ s.queue } := by
  obtain ⟨unsent, queue, received, running, gone⟩ := s
  induction queue generalizing received with
  | nil => exact ⟨[], by simp [run]⟩
  | cons item rest ih =>
    obtain ⟨acts, hacts⟩ := ih (received ++ [item])
    refine ⟨.take :: acts, run_cons_eq_some.mpr ⟨_, rfl, ?_⟩⟩
    rw [hacts]
    simp

/-- The task never gets stuck: a receiver that stays and takes gets all the rest. -/
theorem run_drain (hcapacity : 0 < capacity) (s : Channel α) (hthere : s.gone = false)
    (hreturned : s.running = false → s.unsent = []) :
    ∃ acts t, run (step capacity) s acts = some t ∧
      t.received = s.received ++ s.queue ++ s.unsent ∧ t.running = false := by
  obtain ⟨unsent, queue, received, running, gone⟩ := s
  obtain rfl : gone = false := hthere
  induction unsent generalizing queue received with
  | nil =>
    obtain ⟨acts, hacts⟩ := run_take capacity ⟨[], queue, received, running, false⟩
    cases running with
    | false => exact ⟨acts, _, hacts, (List.append_nil _).symm, rfl⟩
    | true =>
      have hsend : run (step capacity) ⟨[], [], received ++ queue, true, false⟩ [.send] =
          some ⟨[], [], received ++ queue, false, false⟩ := rfl
      exact ⟨acts ++ [.send], _, (run_append hacts).trans hsend, (List.append_nil _).symm, rfl⟩
  | cons item rest ih =>
    obtain ⟨acts, hacts⟩ :=
      run_take capacity ⟨item :: rest, queue, received, running, false⟩
    cases running with
    | false => cases hreturned rfl
    | true =>
      obtain ⟨more, t, hmore, hreceived, hended⟩ := ih [item] (received ++ queue) (fun h => by cases h)
      have hsend : step capacity ⟨item :: rest, [], received ++ queue, true, false⟩ .send =
          some ⟨rest, [item], received ++ queue, true, false⟩ := if_pos hcapacity
      refine ⟨acts ++ .send :: more, t, (run_append hacts).trans ?_, ?_, hended⟩
      · exact run_cons_eq_some.mpr ⟨_, hsend, hmore⟩
      · rw [hreceived, List.append_assoc (received ++ queue)]
        rfl

end

end OiTerminal.Lib.Outbox
