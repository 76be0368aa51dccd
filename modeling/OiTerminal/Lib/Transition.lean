import Mathlib.Logic.Function.Basic

/-!
# Guarded runs of an executable transition function

A step function answers `none` when the action is not enabled. Runs are lists of
actions, so a concrete run is evaluated and an arbitrary one is met by induction.
`Along` and `Throughout` look at the steps that are taken and at the states that
are visited; an action that is not enabled ends both.
-/
namespace OiTerminal.Lib.Transition

set_option autoImplicit false

variable {State Action : Type*}

/-- Take the actions in order. -/
def run (step : State → Action → Option State) : State → List Action → Option State
  | s, [] => some s
  | s, a :: rest => (step s a).bind fun s' => run step s' rest

/-- Every step that is taken is taken where `ok` allows it. -/
def Along (step : State → Action → Option State) (ok : State → Action → Prop) :
    State → List Action → Prop
  | _, [] => True
  | s, a :: rest => ∀ s', step s a = some s' → ok s a ∧ Along step ok s' rest

/-- Every state that is visited satisfies `P`. -/
def Throughout (step : State → Action → Option State) (P : State → Prop) :
    State → List Action → Prop
  | s, [] => P s
  | s, a :: rest => P s ∧ ∀ s', step s a = some s' → Throughout step P s' rest

instance decidableAlong (step : State → Action → Option State) (ok : State → Action → Prop)
    [∀ s a, Decidable (ok s a)] : ∀ s acts, Decidable (Along step ok s acts)
  | _, [] => isTrue trivial
  | s, a :: rest =>
    match h : step s a with
    | none => isTrue fun s' hs' => by rw [h] at hs'; cases hs'
    | some next =>
      have : Decidable (Along step ok next rest) := decidableAlong step ok next rest
      decidable_of_iff (ok s a ∧ Along step ok next rest) ⟨fun hok s' hs' => by
        rw [h] at hs'
        obtain rfl := Option.some.inj hs'
        exact hok, fun hok => hok next h⟩

variable {step : State → Action → Option State} {ok : State → Action → Prop}
  {P inv : State → Prop}

theorem run_cons_eq_some {s t : State} {a : Action} {rest : List Action} :
    run step s (a :: rest) = some t ↔ ∃ s', step s a = some s' ∧ run step s' rest = some t := by
  simp only [run, Option.bind_eq_some_iff]

theorem run_append {s t : State} {acts rest : List Action} (h : run step s acts = some t) :
    run step s (acts ++ rest) = run step t rest := by
  induction acts generalizing s with
  | nil =>
    obtain rfl := Option.some.inj h
    rfl
  | cons a more ih =>
    obtain ⟨s', hs', hmore⟩ := run_cons_eq_some.mp h
    show (step s a).bind (fun s' => run step s' (more ++ rest)) = run step t rest
    rw [hs']
    exact ih hmore

/-- The end of a run is one of the states it visits. -/
theorem throughout_run {s t : State} {acts : List Action} (h : Throughout step P s acts)
    (hrun : run step s acts = some t) : P t := by
  induction acts generalizing s with
  | nil =>
    obtain rfl := Option.some.inj hrun
    exact h
  | cons a rest ih =>
    obtain ⟨s', hs', hrest⟩ := run_cons_eq_some.mp hrun
    exact ih (h.2 s' hs') hrest

/-- Actions that are allowed in every state make an allowed run. -/
theorem along_of_forall {ok : Action → Prop} {acts : List Action} (h : ∀ a ∈ acts, ok a)
    (s : State) : Along step (fun _ a => ok a) s acts := by
  induction acts generalizing s with
  | nil => trivial
  | cons a rest ih =>
    exact fun s' _ => ⟨h a List.mem_cons_self, ih (fun b hb => h b (List.mem_cons_of_mem a hb)) s'⟩

/-- Where every action is enabled, an allowed run has allowed actions only. -/
theorem along_iff_forall {ok : Action → Prop} {next : State → Action → State}
    (htotal : ∀ s a, step s a = some (next s a)) {acts : List Action} {s : State} :
    Along step (fun _ a => ok a) s acts ↔ ∀ a ∈ acts, ok a := by
  refine ⟨fun h => ?_, fun h => along_of_forall h s⟩
  induction acts generalizing s with
  | nil =>
    intro a ha
    cases ha
  | cons b rest ih =>
    obtain ⟨hb, hrest⟩ := h _ (htotal s b)
    exact List.forall_mem_cons.mpr ⟨hb, ih hrest⟩

theorem Along.mono {ok' : State → Action → Prop} (himp : ∀ s a, ok' s a → ok s a) {s : State}
    {acts : List Action} (h : Along step ok' s acts) : Along step ok s acts := by
  induction acts generalizing s with
  | nil => trivial
  | cons a rest ih =>
    intro s' hs'
    obtain ⟨ha, htail⟩ := h s' hs'
    exact ⟨himp s a ha, ih htail⟩

/-- A step that is taken in the middle of an allowed run is allowed. -/
theorem Along.of_run {s t t' : State} {acts rest : List Action} {a : Action}
    (h : Along step ok s (acts ++ a :: rest)) (hrun : run step s acts = some t)
    (hstep : step t a = some t') : ok t a := by
  induction acts generalizing s with
  | nil =>
    obtain rfl := Option.some.inj hrun
    exact (h t' hstep).1
  | cons b more ih =>
    obtain ⟨s', hs', hmore⟩ := run_cons_eq_some.mp hrun
    exact ih (h s' hs').2 hmore

/-- With `inv` carried along an allowed run, each of its steps is also allowed by `ok'`. -/
theorem along_of_along {ok' : State → Action → Prop}
    (hstep : ∀ s a s', inv s → ok s a → step s a = some s' → inv s')
    (himp : ∀ s a s', inv s → ok s a → step s a = some s' → ok' s a)
    {s : State} {acts : List Action} (hs : inv s) (hok : Along step ok s acts) :
    Along step ok' s acts := by
  induction acts generalizing s with
  | nil => trivial
  | cons a rest ih =>
    intro s' hs'
    obtain ⟨ha, htail⟩ := hok s' hs'
    exact ⟨himp s a s' hs ha hs', ih (hstep s a s' hs ha hs') htail⟩

/-- Where each allowed step keeps `P`, and `inv` supports the argument, every state
of an allowed run satisfies `P`. -/
theorem throughout_of_along
    (hstep : ∀ s a s', inv s → ok s a → step s a = some s' → inv s')
    (himp : ∀ s, inv s → P s) {s : State} {acts : List Action} (hs : inv s)
    (hok : Along step ok s acts) : Throughout step P s acts := by
  induction acts generalizing s with
  | nil => exact himp s hs
  | cons a rest ih =>
    refine ⟨himp s hs, fun s' hs' => ?_⟩
    obtain ⟨ha, htail⟩ := hok s' hs'
    exact ih (hstep s a s' hs ha hs') htail

/-- Likewise when every step keeps `inv`. -/
theorem throughout_of_step (hstep : ∀ s a s', inv s → step s a = some s' → inv s')
    (himp : ∀ s, inv s → P s) {s : State} {acts : List Action} (hs : inv s) :
    Throughout step P s acts := by
  induction acts generalizing s with
  | nil => exact himp s hs
  | cons a rest ih => exact ⟨himp s hs, fun s' hs' => ih (hstep s a s' hs hs')⟩

/-- If an allowed step keeps `inv`, and a step that is not allowed breaks `P`, the runs
that keep `P` are exactly the allowed ones. -/
theorem throughout_iff_along
    (hstep : ∀ s a s', inv s → ok s a → step s a = some s' → inv s')
    (himp : ∀ s, inv s → P s)
    (hbad : ∀ s a s', inv s → step s a = some s' → P s' → ok s a)
    {s : State} {acts : List Action} (hs : inv s) :
    Throughout step P s acts ↔ Along step ok s acts := by
  refine ⟨fun h => ?_, throughout_of_along hstep himp hs⟩
  induction acts generalizing s with
  | nil => trivial
  | cons a rest ih =>
    intro s' hs'
    have htail : Throughout step P s' rest := h.2 s' hs'
    have hnext : P s' := by
      cases rest with
      | nil => exact htail
      | cons b more => exact htail.1
    have hok : ok s a := hbad s a s' hs hs' hnext
    exact ⟨hok, ih (hstep s a s' hs hok hs') htail⟩

end OiTerminal.Lib.Transition
