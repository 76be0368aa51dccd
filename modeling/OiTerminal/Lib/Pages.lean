import Mathlib.Data.List.Basic

/-!
# Listings that come in pages

A listing is asked for page by page. Each page but the last names the cursor of the next one. The
loop goes along the cursors, and stops after a number of pages even if the last one names another.
-/
namespace OiTerminal.Lib.Pages

set_option autoImplicit false

variable {Row Cursor Error : Type*}

structure Page (Row Cursor : Type*) where
  rows : List Row
  next : Option Cursor

/-- The answer to the request of a number, which asks for the page of a cursor, or the first. -/
abbrev Server (Row Cursor Error : Type*) := ℕ → Option Cursor → Except Error (Page Row Cursor)

/-- The pages that are left to the loop, the number of the next request and its cursor. -/
def collect (ask : Server Row Cursor Error) : ℕ → ℕ → Option Cursor → Except Error (List Row)
  | 0, _, _ => .ok []
  | left + 1, k, cursor =>
    match ask k cursor with
    | .error e => .error e
    | .ok page =>
      match page.next with
      | none => .ok page.rows
      | some next => (collect ask left (k + 1) (some next)).map fun rows => page.rows ++ rows

/-- The pages are answers to the requests from this one on, each to the cursor of the one before. -/
def Follows (ask : Server Row Cursor Error) : ℕ → Option Cursor → List (Page Row Cursor) → Prop
  | _, _, [] => True
  | k, cursor, page :: rest => ask k cursor = .ok page ∧
      (rest = [] ∨ ∃ next, page.next = some next ∧ Follows ask (k + 1) (some next) rest)

/-- The cursor after the pages, which starts from this one. -/
def cursorAfter (cursor : Option Cursor) (pages : List (Page Row Cursor)) : Option Cursor :=
  match pages.getLast? with
  | some page => page.next
  | none => cursor

/-- Nothing more is to be asked for after these pages. -/
def Ended (pages : List (Page Row Cursor)) : Prop := ∃ page ∈ pages.getLast?, page.next = none

variable {ask : Server Row Cursor Error} {left k : ℕ} {cursor : Option Cursor}
  {page : Page Row Cursor} {pages : List (Page Row Cursor)}

theorem ended_cons (hpages : pages ≠ []) : Ended (page :: pages) ↔ Ended pages := by
  obtain ⟨first, rest, rfl⟩ := List.exists_cons_of_ne_nil hpages
  unfold Ended
  rw [List.getLast?_cons_cons]

theorem ended_singleton : Ended [page] ↔ page.next = none := by
  simp [Ended]

theorem follows_singleton : Follows ask k cursor [page] ↔ ask k cursor = .ok page := by
  simp [Follows]

/-- The listing stands on these pages, of which the last names no other. -/
structure Lists (ask : Server Row Cursor Error) (k : ℕ) (cursor : Option Cursor)
    (pages : List (Page Row Cursor)) : Prop where
  follows : Follows ask k cursor pages
  ended : Ended pages

theorem not_ended_nil : ¬ Ended ([] : List (Page Row Cursor)) := by
  rintro ⟨_, hlast, -⟩
  cases hlast

/-- A page that names the next one is the last of them only if nothing follows. -/
theorem ended_of_next {next : Cursor} (hnext : page.next = some next)
    (h : Ended (page :: pages)) : Ended pages := by
  by_cases hpages : pages = []
  · subst hpages
    rw [ended_singleton, hnext] at h
    cases h
  · exact (ended_cons hpages).mp h

theorem follows_cons {next : Cursor} (hnext : page.next = some next) :
    Follows ask k cursor (page :: pages) ↔
      ask k cursor = .ok page ∧ Follows ask (k + 1) (some next) pages := by
  refine and_congr_right fun _ => ?_
  constructor
  · rintro (rfl | ⟨next', hsome, hfollows⟩)
    · trivial
    · rw [hnext] at hsome
      rwa [Option.some.inj hsome]
  · exact fun hfollows => .inr ⟨next, hnext, hfollows⟩

theorem cursorAfter_cons {next : Cursor} (hnext : page.next = some next) :
    cursorAfter cursor (page :: pages) = cursorAfter (some next) pages := by
  cases pages with
  | nil => exact hnext
  | cons first rest =>
    unfold cursorAfter
    rw [List.getLast?_cons_cons]
    rfl

/-- Nothing follows a page that names no other. -/
theorem eq_nil_of_follows (hnext : page.next = none)
    (h : Follows ask k cursor (page :: pages)) : pages = [] := by
  rcases h.2 with hnil | ⟨next, hsome, -⟩
  · exact hnil
  · rw [hnext] at hsome
    cases hsome

/-- One turn of the loop: it returns at the last page, and goes on from any other. -/
theorem collect_succ_eq_ok {rows : List Row} : collect ask (left + 1) k cursor = .ok rows ↔
    ∃ page, ask k cursor = .ok page ∧
      (page.next = none ∧ rows = page.rows ∨
        ∃ next more, page.next = some next ∧ collect ask left (k + 1) (some next) = .ok more ∧
          rows = page.rows ++ more) := by
  rw [collect]
  cases ask k cursor with
  | error e => simp
  | ok page =>
    dsimp only
    cases hnext : page.next with
    | none => simp [hnext, eq_comm]
    | some next =>
      cases hmore : collect ask left (k + 1) (some next) <;>
        simp [hnext, hmore, Except.map, eq_comm]

theorem collect_succ_eq_error {e : Error} : collect ask (left + 1) k cursor = .error e ↔
    ask k cursor = .error e ∨ ∃ page next, ask k cursor = .ok page ∧ page.next = some next ∧
      collect ask left (k + 1) (some next) = .error e := by
  rw [collect]
  cases ask k cursor with
  | error e => simp
  | ok page =>
    dsimp only
    cases hnext : page.next with
    | none => simp [hnext]
    | some next =>
      cases hmore : collect ask left (k + 1) (some next) <;> simp [hnext, hmore, Except.map]

/-- The loop returns what stands on the pages that it goes along: all of them up to one that is the
last, or as many as it may ask for. -/
theorem collect_eq_ok {rows : List Row} : collect ask left k cursor = .ok rows ↔
    ∃ pages, Follows ask k cursor pages ∧ rows = pages.flatMap Page.rows ∧
      pages.length ≤ left ∧ (pages.length = left ∨ Ended pages) := by
  induction left generalizing k cursor rows with
  | zero =>
    constructor
    · intro h
      exact ⟨[], trivial, (Except.ok.inj h).symm, Nat.le_refl 0, .inl rfl⟩
    · rintro ⟨pages, -, rfl, hlength, -⟩
      obtain rfl := List.length_eq_zero_iff.mp (Nat.le_zero.mp hlength)
      rfl
  | succ left ih =>
    rw [collect_succ_eq_ok]
    constructor
    · rintro ⟨page, hask, ⟨hnext, rfl⟩ | ⟨next, more, hnext, hmore, rfl⟩⟩
      · refine ⟨[page], follows_singleton.mpr hask, (List.flatMap_singleton _ _).symm, ?_,
          .inr (ended_singleton.mpr hnext)⟩
        rw [List.length_singleton]
        omega
      · obtain ⟨pages, hfollows, rfl, hlength, hstops⟩ := ih.mp hmore
        refine ⟨page :: pages, (follows_cons hnext).mpr ⟨hask, hfollows⟩, List.flatMap_cons.symm,
          Nat.succ_le_succ hlength, ?_⟩
        rcases hstops with hfull | hended
        · exact .inl (congrArg (· + 1) hfull)
        · exact .inr ((ended_cons fun hnil => not_ended_nil (hnil ▸ hended)).mpr hended)
    · rintro ⟨_ | ⟨page, pages⟩, hfollows, rfl, hlength, hstops⟩
      · rcases hstops with hfull | hended
        · cases hfull
        · exact absurd hended not_ended_nil
      · refine ⟨page, hfollows.1, ?_⟩
        cases hnext : page.next with
        | none =>
          rw [eq_nil_of_follows hnext hfollows]
          exact .inl ⟨rfl, List.flatMap_singleton _ _⟩
        | some next =>
          refine .inr ⟨next, pages.flatMap Page.rows, rfl, ih.mpr ?_, List.flatMap_cons⟩
          refine ⟨pages, ((follows_cons hnext).mp hfollows).2, rfl, Nat.le_of_succ_le_succ hlength,
            ?_⟩
          exact hstops.imp Nat.succ_inj.mp (ended_of_next hnext)

/-- The loop fails with the first request that fails, if it comes to it. -/
theorem collect_eq_error {e : Error} : collect ask left k cursor = .error e ↔
    ∃ pages, Follows ask k cursor pages ∧ pages.length < left ∧ ¬ Ended pages ∧
      ask (k + pages.length) (cursorAfter cursor pages) = .error e := by
  induction left generalizing k cursor with
  | zero =>
    constructor
    · intro h
      cases h
    · rintro ⟨pages, -, hlength, -⟩
      exact absurd hlength (Nat.not_lt_zero _)
  | succ left ih =>
    rw [collect_succ_eq_error]
    constructor
    · rintro (herror | ⟨page, next, hask, hnext, hmore⟩)
      · exact ⟨[], trivial, Nat.succ_pos left, not_ended_nil, herror⟩
      · obtain ⟨pages, hfollows, hlength, hended, herror⟩ := ih.mp hmore
        refine ⟨page :: pages, (follows_cons hnext).mpr ⟨hask, hfollows⟩,
          Nat.succ_lt_succ hlength, fun h => hended (ended_of_next hnext h), ?_⟩
        rw [cursorAfter_cons hnext, List.length_cons, ← Nat.add_assoc, Nat.add_right_comm]
        exact herror
    · rintro ⟨_ | ⟨page, pages⟩, hfollows, hlength, hended, herror⟩
      · exact .inl herror
      · cases hnext : page.next with
        | none =>
          rw [eq_nil_of_follows hnext hfollows] at hended
          exact absurd (ended_singleton.mpr hnext) hended
        | some next =>
          refine .inr ⟨page, next, hfollows.1, hnext, ih.mpr ⟨pages, ?_, ?_, ?_, ?_⟩⟩
          · exact ((follows_cons hnext).mp hfollows).2
          · exact Nat.lt_of_succ_lt_succ hlength
          · intro h
            exact hended ((ended_cons fun hnil => not_ended_nil (hnil ▸ h)).mpr h)
          · rwa [cursorAfter_cons hnext, List.length_cons, ← Nat.add_assoc, Nat.add_right_comm]
              at herror

/-- Of a listing the loop returns what stands on its first pages. -/
theorem Lists.collect_eq (h : Lists ask k cursor pages) (left : ℕ) :
    collect ask left k cursor = .ok ((pages.take left).flatMap Page.rows) := by
  induction left generalizing k cursor pages with
  | zero => rfl
  | succ left ih =>
    obtain ⟨hfollows, hended⟩ := h
    cases pages with
    | nil => exact absurd hended not_ended_nil
    | cons page rest =>
      rw [collect_succ_eq_ok]
      refine ⟨page, hfollows.1, ?_⟩
      cases hnext : page.next with
      | none =>
        rw [eq_nil_of_follows hnext hfollows]
        exact .inl ⟨rfl, by simp⟩
      | some next =>
        exact .inr ⟨next, _, rfl,
          ih ⟨((follows_cons hnext).mp hfollows).2, ended_of_next hnext hended⟩,
          List.flatMap_cons⟩

end OiTerminal.Lib.Pages
