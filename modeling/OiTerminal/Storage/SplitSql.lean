import Mathlib.Data.List.DropRight
import OiTerminal.Lib.EarlyExit
import OiTerminal.Lib.Reader
import OiTerminal.Storage.ClickHouse

/-!
# Statements of the schema script

`ensure_schema` sends a script to the server statement by statement. `split_sql` finds the
statements without reading quoted literals: it cuts each line at the first `--` and what is
left at each `;`. The reference reads the script character by character and knows what is
code, comment and literal.
-/
namespace OiTerminal.Storage.SplitSql

open OiTerminal.Lib
open OiTerminal.Storage.ClickHouse (CoreError)

set_option autoImplicit false

/-- `char::is_whitespace`. -/
def isWhitespace (c : Char) : Bool :=
  decide (0x09 ≤ c.toNat ∧ c.toNat ≤ 0x0d) || decide (0x2000 ≤ c.toNat ∧ c.toNat ≤ 0x200a) ||
    [0x20, 0x85, 0xa0, 0x1680, 0x2028, 0x2029, 0x202f, 0x205f, 0x3000].contains c.toNat

/-- `str::trim`. -/
def trim (s : List Char) : List Char := (s.dropWhile isWhitespace).rdropWhile isWhitespace

/-- `str::strip_suffix` for one character. -/
def stripSuffix (c : Char) (s : List Char) : Option (List Char) :=
  if s.getLast? = some c then some s.dropLast else none

/-- `str::split_inclusive('\n')`. -/
def splitInclusive : List Char → List (List Char)
  | [] => []
  | c :: rest =>
    if c = '\n' then [c] :: splitInclusive rest
    else
      match splitInclusive rest with
      | [] => [[c]]
      | line :: later => (c :: line) :: later

/-- `str::lines`: a line ends in a line feed, with or without a carriage return before it. -/
def lines (s : List Char) : List (List Char) :=
  (splitInclusive s).map fun line =>
    match stripSuffix '\n' line with
    | none => line
    | some line => (stripSuffix '\r' line).getD line

/-- `str::find`. -/
def find (pat s : List Char) : Option Nat := s.tails.findIdx? pat.isPrefixOf

def codeOf (line : List Char) : List Char :=
  match find ['-', '-'] line with
  | some idx => line.take idx
  | none => line

def stripped (sql : List Char) : List Char := (lines sql).flatMap fun line => codeOf line ++ ['\n']

def splitSql (sql : String) : List String :=
  (((stripped sql.toList).splitOn ';').map fun s => String.ofList (trim s)).filter
    fun s => !s.isEmpty

def chErr (e : String) : CoreError := .storage ("clickhouse: " ++ e)

/-- One turn of the loop of `ensure_schema`. -/
def send {σ : Type} (execute : String → σ → Except String Unit × σ) (statement : String)
    (db : σ) : Except CoreError Unit × σ :=
  let (answer, db) := execute statement db
  (answer.mapError chErr, db)

def ensureSchema {σ : Type} (execute : String → σ → Except String Unit × σ) (sql : String) :
    σ → Except CoreError Unit × σ :=
  EarlyExit.loop (send execute) (splitSql sql)

/-- The quoting rules of a dialect: which characters open a literal, each closed by the same
character, and which of them take the next character of a literal as it stands. A quote written
twice closes the literal and opens it again. -/
structure Quoting where
  opens : Char → Bool
  escapes : Char → Bool
  apart : ∀ c, opens c → c ∉ [';', '-', '\r', '\n']

inductive Mode (q : Quoting) where
  | code
  | comment
  | literal (quote : Char) (opened : q.opens quote)
  | escaped (quote : Char) (opened : q.opens quote)

inductive Part where
  | code
  | comment
  | literal
  deriving DecidableEq, Repr

/-- The reference tokenizer. Two dashes in code open a comment, and the line feed after it is
code again. -/
def tokenizer (q : Quoting) : Reader (Mode q) Char Part where
  label
    | .code, c, ahead =>
      if c = '-' ∧ ahead = some '-' then .comment else if q.opens c then .literal else .code
    | .comment, c, _ => if c = '\n' then .code else .comment
    | .literal _ _, _, _ => .literal
    | .escaped _ _, _, _ => .literal
  next
    | .code, c, ahead =>
      if c = '-' ∧ ahead = some '-' then .comment
      else if opened : q.opens c then .literal c opened else .code
    | .comment, c, _ => if c = '\n' then .code else .comment
    | .literal quote opened, c, _ =>
      if c = quote then .code
      else if q.escapes c then .escaped quote opened else .literal quote opened
    | .escaped quote opened, _, _ => .literal quote opened

def tokens (q : Quoting) (script : List Char) : List (Part × Char) :=
  (tokenizer q).read .code script

/-- A statement's text has no comments. -/
def textChar : Part × Char → Option Char
  | (.comment, _) => none
  | (_, c) => some c

/-- The non-blank statements that the tokenizer finds. -/
def statements (q : Quoting) (script : List Char) : List String :=
  (((tokens q script).splitOn (.code, ';')).map fun s =>
    String.ofList (trim (s.filterMap textChar))).filter fun s => !s.isEmpty

/-- No quoted literal has a semicolon, a line break or two dashes in it. -/
structure Plain (q : Quoting) (script : List Char) : Prop where
  semicolon : (.literal, ';') ∉ tokens q script
  lineBreak : (.literal, '\n') ∉ tokens q script
  dashes : ¬ [(.literal, '-'), (.literal, '-')] <:+: tokens q script

/-- The script with its line endings written as line feeds. -/
def lf : List Char → List Char
  | [] => []
  | c :: rest => if c = '\r' ∧ rest.head? = some '\n' then lf rest else c :: lf rest

/-- Literals between single quotes. -/
def singleQuotes : Quoting where
  opens c := decide (c = '\x27')
  escapes _ := false
  apart c h := by
    rw [of_decide_eq_true h]
    decide

theorem codeOf_cons (c : Char) (rest : List Char) :
    codeOf (c :: rest) =
      if c = '-' ∧ rest.head? = some '-' then [] else c :: codeOf rest := by
  have hpat : ['-', '-'].isPrefixOf (c :: rest) ↔ c = '-' ∧ rest.head? = some '-' := by
    cases rest with
    | nil => simp [List.isPrefixOf]
    | cons d later =>
      simp only [List.isPrefixOf, Bool.and_true, Bool.and_eq_true, beq_iff_eq, List.head?_cons,
        Option.some.injEq]
      exact and_congr eq_comm eq_comm
  unfold codeOf find
  rw [List.tails, List.findIdx?_cons]
  by_cases hdashes : c = '-' ∧ rest.head? = some '-'
  · rw [if_pos hdashes, if_pos (hpat.mpr hdashes)]
    rfl
  · rw [if_neg hdashes, if_neg (hpat.not.mpr hdashes)]
    cases List.findIdx? (['-', '-'].isPrefixOf) rest.tails with
    | none => rfl
    | some idx => rfl

theorem stripSuffix_concat (c : Char) (s : List Char) : stripSuffix c (s ++ [c]) = some s := by
  unfold stripSuffix
  rw [List.getLast?_concat, if_pos rfl, List.dropLast_concat]

/-- What is left of a line after its carriage return, if it has one, is taken off. -/
theorem withoutReturn_cons (c : Char) {s : List Char} (hs : s ≠ []) :
    (stripSuffix '\r' (c :: s)).getD (c :: s) = c :: (stripSuffix '\r' s).getD s := by
  unfold stripSuffix
  rw [List.getLast?_cons_of_ne_nil hs, List.dropLast_cons_of_ne_nil hs]
  split
  · rfl
  · rfl

theorem withoutReturn_subset (s : List Char) : (stripSuffix '\r' s).getD s ⊆ s := by
  unfold stripSuffix
  split
  · exact List.dropLast_subset s
  · exact List.Subset.refl s

theorem splitInclusive_break {line : List Char} (h : '\n' ∉ line) (rest : List Char) :
    splitInclusive (line ++ '\n' :: rest) = (line ++ ['\n']) :: splitInclusive rest := by
  induction line with
  | nil => rfl
  | cons c line ih =>
    obtain ⟨hc, hline⟩ := List.ne_and_not_mem_of_not_mem_cons h
    rw [List.cons_append, splitInclusive, if_neg (Ne.symm hc), ih hline]
    rfl

theorem splitInclusive_last {line : List Char} (h : '\n' ∉ line) (hne : line ≠ []) :
    splitInclusive line = [line] := by
  induction line with
  | nil => exact absurd rfl hne
  | cons c line ih =>
    obtain ⟨hc, hline⟩ := List.ne_and_not_mem_of_not_mem_cons h
    rw [splitInclusive, if_neg (Ne.symm hc)]
    by_cases hnil : line = []
    · rw [hnil]
      rfl
    · rw [ih hline hnil]

theorem stripped_break {line : List Char} (h : '\n' ∉ line) (rest : List Char) :
    stripped (line ++ '\n' :: rest) =
      codeOf ((stripSuffix '\r' line).getD line) ++ '\n' :: stripped rest := by
  unfold stripped lines
  rw [splitInclusive_break h, List.map_cons, stripSuffix_concat, List.flatMap_cons,
    List.append_assoc]
  rfl

theorem stripped_last {line : List Char} (h : '\n' ∉ line) (hne : line ≠ []) :
    stripped line = codeOf line ++ ['\n'] := by
  have hlast : stripSuffix '\n' line = none :=
    if_neg fun hlast => h (List.mem_of_getLast? hlast)
  unfold stripped lines
  rw [splitInclusive_last h hne, List.map_singleton, hlast, List.flatMap_singleton]

theorem lf_break {line : List Char} (h : '\n' ∉ line) (rest : List Char) :
    lf (line ++ '\n' :: rest) = (stripSuffix '\r' line).getD line ++ '\n' :: lf rest := by
  induction line with
  | nil => rfl
  | cons c line ih =>
    have hline := List.not_mem_of_not_mem_cons h
    rw [List.cons_append, lf]
    cases line with
    | nil =>
      by_cases hc : c = '\r'
      · rw [hc, if_pos ⟨rfl, rfl⟩]
        rfl
      · have hstrip : stripSuffix '\r' [c] = none := if_neg fun hlast => hc (Option.some.inj hlast)
        rw [if_neg fun hcrlf => hc hcrlf.1, hstrip]
        rfl
    | cons d line =>
      have hd := List.ne_of_not_mem_cons hline
      rw [if_neg fun hcrlf => hd (Option.some.inj hcrlf.2).symm, ih hline,
        withoutReturn_cons c (List.cons_ne_nil d line)]
      rfl

theorem lf_eq_self {script : List Char} (h : ¬ ['\r', '\n'] <:+: script) :
    lf script = script := by
  induction script with
  | nil => rfl
  | cons c rest ih =>
    have hrest : ¬ ['\r', '\n'] <:+: rest :=
      fun hpart => h (hpart.trans (List.suffix_cons c rest).isInfix)
    have hcrlf : ¬ (c = '\r' ∧ rest.head? = some '\n') := by
      rintro ⟨rfl, hfeed⟩
      obtain ⟨later, rfl⟩ := List.head?_eq_some_iff.mp hfeed
      exact h ⟨[], later, rfl⟩
    rw [lf, if_neg hcrlf, ih hrest]

/-- A last line keeps its carriage return. -/
theorem lf_last {line : List Char} (h : '\n' ∉ line) : lf line = line := by
  refine lf_eq_self fun hcrlf => h (hcrlf.subset ?_)
  exact List.mem_cons_of_mem _ List.mem_cons_self

theorem head?_lf (script : List Char) :
    (lf script).head? = some '-' ↔ script.head? = some '-' := by
  induction script with
  | nil => exact Iff.rfl
  | cons c rest ih =>
    by_cases hcrlf : c = '\r' ∧ rest.head? = some '\n'
    · rw [lf, if_pos hcrlf, ih, hcrlf.2, hcrlf.1, List.head?_cons]
      decide
    · rw [lf, if_neg hcrlf]
      exact Iff.rfl

section

variable {q : Quoting}

/-- No step reads a character into a literal that a plain script has not in one. -/
def Harmless (q : Quoting) (mode : Mode q) (c : Char) (ahead : Option Char) : Prop :=
  (tokenizer q).label mode c ahead = .literal →
    c ≠ ';' ∧ c ≠ '\n' ∧ ¬ (c = '-' ∧ ahead = some '-')

theorem Quoting.not_opens (q : Quoting) {c : Char} (hc : c ∈ [';', '-', '\r', '\n']) :
    ¬ q.opens c := fun h => q.apart c h hc

/-- In code, a character that starts nothing leaves the mode as it is. -/
theorem step_code {c : Char} (hdash : c ≠ '-') (hopens : ¬ q.opens c) (ahead : Option Char) :
    (tokenizer q).label .code c ahead = .code ∧ (tokenizer q).next .code c ahead = .code := by
  have hdashes : ¬ (c = '-' ∧ ahead = some '-') := fun h => hdash h.1
  simp only [tokenizer, if_neg hdashes, if_neg hopens, dif_neg hopens, and_self]

/-- The mode is inside a literal. -/
def Mode.InLiteral : Mode q → Prop
  | .code => False
  | .comment => False
  | .literal _ _ => True
  | .escaped _ _ => True

theorem label_inLiteral {mode : Mode q} (h : mode.InLiteral) (c : Char) (ahead : Option Char) :
    (tokenizer q).label mode c ahead = .literal := by
  cases mode with
  | code => cases h
  | comment => cases h
  | literal quote opened => rfl
  | escaped quote opened => rfl

/-- A literal ends at a quote only. -/
theorem next_inLiteral {mode : Mode q} (h : mode.InLiteral) {c : Char} (hc : ¬ q.opens c)
    (ahead : Option Char) : ((tokenizer q).next mode c ahead).InLiteral := by
  cases mode with
  | code => cases h
  | comment => cases h
  | literal quote opened =>
    have hquote : c ≠ quote := fun heq => hc (heq ▸ opened)
    simp only [tokenizer, if_neg hquote]
    by_cases hescape : q.escapes c
    · rw [if_pos hescape]
      trivial
    · rw [if_neg hescape]
      trivial
  | escaped quote opened => trivial

/-- What is labelled as part of a literal and is no quote is inside it. -/
theorem inLiteral_of_label {mode : Mode q} {c : Char} (hc : ¬ q.opens c) {ahead : Option Char}
    (h : (tokenizer q).label mode c ahead = .literal) : mode.InLiteral := by
  cases mode with
  | code =>
    simp only [tokenizer, if_neg hc] at h
    split at h
    · cases h
    · cases h
  | comment =>
    simp only [tokenizer] at h
    split at h
    · cases h
    · cases h
  | literal quote opened => trivial
  | escaped quote opened => trivial

theorem along_of_read (mode : Mode q) (script : List Char)
    (hsemicolon : (.literal, ';') ∉ (tokenizer q).read mode script)
    (hbreak : (.literal, '\n') ∉ (tokenizer q).read mode script)
    (hdashes : ¬ [(.literal, '-'), (.literal, '-')] <:+: (tokenizer q).read mode script) :
    (tokenizer q).Along (Harmless q) mode script := by
  induction script generalizing mode with
  | nil => trivial
  | cons c rest ih =>
    refine ⟨fun hlabel => ⟨?semicolon, ?lineBreak, ?dashes⟩, ih _ ?_ ?_ ?_⟩
    case semicolon =>
      rintro rfl
      exact hsemicolon (hlabel ▸ List.mem_cons_self)
    case lineBreak =>
      rintro rfl
      exact hbreak (hlabel ▸ List.mem_cons_self)
    case dashes =>
      rintro ⟨rfl, hahead⟩
      obtain ⟨later, rfl⟩ := List.head?_eq_some_iff.mp hahead
      have hopens : ¬ q.opens '-' := q.not_opens (by decide)
      have hinside := next_inLiteral (inLiteral_of_label hopens hlabel) hopens
        ('-' :: later).head?
      rw [Reader.read, Reader.read, hlabel, label_inLiteral hinside] at hdashes
      exact hdashes ⟨[], _, rfl⟩
    · exact fun hmem => hsemicolon (List.mem_cons_of_mem _ hmem)
    · exact fun hmem => hbreak (List.mem_cons_of_mem _ hmem)
    · exact fun hpart => hdashes (hpart.trans (List.suffix_cons _ _).isInfix)

theorem Plain.along {script : List Char} (h : Plain q script) :
    (tokenizer q).Along (Harmless q) .code script :=
  along_of_read .code script h.semicolon h.lineBreak h.dashes

/-- Of the character ahead a step sees whether it is a dash. -/
theorem step_congr (mode : Mode q) (c : Char) {ahead ahead' : Option Char}
    (h : ahead = some '-' ↔ ahead' = some '-') :
    (tokenizer q).label mode c ahead = (tokenizer q).label mode c ahead' ∧
      (tokenizer q).next mode c ahead = (tokenizer q).next mode c ahead' := by
  cases mode with
  | code => simp only [tokenizer, h, and_self]
  | comment => exact ⟨rfl, rfl⟩
  | literal quote opened => exact ⟨rfl, rfl⟩
  | escaped quote opened => exact ⟨rfl, rfl⟩

/-- A carriage return before a line feed leaves the mode as it is. -/
theorem along_return {mode : Mode q} {rest : List Char} (hfeed : rest.head? = some '\n')
    (h : (tokenizer q).Along (Harmless q) mode ('\r' :: rest)) :
    (tokenizer q).Along (Harmless q) mode rest := by
  obtain ⟨later, rfl⟩ := List.head?_eq_some_iff.mp hfeed
  obtain ⟨-, hfeed, hlater⟩ := h
  have hopens : ¬ q.opens '\r' := q.not_opens (by decide)
  by_cases hinside : mode.InLiteral
  · -- the line feed would be in the literal
    have hnext := next_inLiteral hinside hopens ('\n' :: later).head?
    exact absurd rfl (hfeed (label_inLiteral hnext '\n' _)).2.1
  · cases mode with
    | code =>
      rw [(step_code (by decide) hopens _).2] at hfeed hlater
      exact ⟨hfeed, hlater⟩
    | comment => exact ⟨hfeed, hlater⟩
    | literal quote opened => exact absurd trivial hinside
    | escaped quote opened => exact absurd trivial hinside

theorem along_lf {mode : Mode q} {script : List Char}
    (h : (tokenizer q).Along (Harmless q) mode script) :
    (tokenizer q).Along (Harmless q) mode (lf script) := by
  induction script generalizing mode with
  | nil => trivial
  | cons c rest ih =>
    by_cases hcrlf : c = '\r' ∧ rest.head? = some '\n'
    · obtain ⟨rfl, hfeed⟩ := hcrlf
      rw [lf, if_pos ⟨rfl, hfeed⟩]
      exact ih (along_return hfeed h)
    · obtain ⟨hc, hrest⟩ := h
      have hsame := step_congr mode c (head?_lf rest)
      rw [lf, if_neg hcrlf]
      unfold Reader.Along Harmless
      rw [hsame.1, hsame.2, head?_lf]
      exact ⟨hc, ih hrest⟩

/-- What a statement keeps of a line that is entered in a mode. -/
def lineText : Mode q → List Char → List Char
  | .comment, _ => []
  | _, line => codeOf line

theorem step_text {mode : Mode q} {c : Char} {line : List Char} {ahead : Option Char}
    (hahead : ahead = some '-' ↔ line.head? = some '-') (hc : c ≠ '\n')
    (h : Harmless q mode c ahead) :
    (textChar ((tokenizer q).label mode c ahead, c)).toList ++
      lineText ((tokenizer q).next mode c ahead) line = lineText mode (c :: line) := by
  cases mode with
  | code =>
    simp only [tokenizer, lineText, codeOf_cons, hahead]
    by_cases hdashes : c = '-' ∧ line.head? = some '-'
    · rw [if_pos hdashes, if_pos hdashes, if_pos hdashes]
      rfl
    · rw [if_neg hdashes, if_neg hdashes, if_neg hdashes]
      by_cases hopens : q.opens c
      · rw [if_pos hopens, dif_pos hopens]
        rfl
      · rw [if_neg hopens, dif_neg hopens]
        rfl
  | comment =>
    simp only [tokenizer, if_neg hc]
    rfl
  | literal quote opened =>
    have hdashes := (h rfl).2.2
    rw [hahead] at hdashes
    simp only [tokenizer, lineText, codeOf_cons, if_neg hdashes]
    by_cases hquote : c = quote
    · rw [if_pos hquote]
      rfl
    · rw [if_neg hquote]
      by_cases hescape : q.escapes c
      · rw [if_pos hescape]
        rfl
      · rw [if_neg hescape]
        rfl
  | escaped quote opened =>
    have hdashes := (h rfl).2.2
    rw [hahead] at hdashes
    simp only [tokenizer, lineText, codeOf_cons, if_neg hdashes]
    rfl

theorem text_cons (token : Part × Char) (later : List (Part × Char)) :
    (token :: later).filterMap textChar = (textChar token).toList ++ later.filterMap textChar := by
  cases htoken : textChar token with
  | none => rw [List.filterMap_cons_none htoken, Option.toList_none, List.nil_append]
  | some c => rw [List.filterMap_cons_some htoken, Option.toList_some, List.singleton_append]

theorem text_line {line tail : List Char} (hline : '\n' ∉ line) (htail : tail.head? ≠ some '-')
    {mode : Mode q} (h : (tokenizer q).Along (Harmless q) mode (line ++ tail)) :
    ∃ after, (tokenizer q).Along (Harmless q) after tail ∧
      ((tokenizer q).read mode (line ++ tail)).filterMap textChar =
        lineText mode line ++ ((tokenizer q).read after tail).filterMap textChar := by
  induction line generalizing mode with
  | nil =>
    refine ⟨mode, h, ?_⟩
    cases mode with
    | code => rfl
    | comment => rfl
    | literal quote opened => rfl
    | escaped quote opened => rfl
  | cons c line ih =>
    obtain ⟨hc, hrest⟩ := List.ne_and_not_mem_of_not_mem_cons hline
    rw [List.cons_append] at h ⊢
    obtain ⟨hharmless, halong⟩ := h
    obtain ⟨after, hafter, htext⟩ := ih hrest halong
    have hahead : (line ++ tail).head? = some '-' ↔ line.head? = some '-' := by
      cases line with
      | nil => simp [htail]
      | cons d later => exact Iff.rfl
    refine ⟨after, hafter, ?_⟩
    rw [Reader.read, text_cons, htext, ← List.append_assoc,
      step_text hahead (Ne.symm hc) hharmless]

/-- The line feed at the end of a line is code, and what follows it is entered as code. -/
theorem text_feed {mode : Mode q} {rest : List Char}
    (h : (tokenizer q).Along (Harmless q) mode ('\n' :: rest)) :
    (tokenizer q).Along (Harmless q) .code rest ∧
      ((tokenizer q).read mode ('\n' :: rest)).filterMap textChar =
        '\n' :: ((tokenizer q).read .code rest).filterMap textChar := by
  obtain ⟨hharmless, hrest⟩ := h
  by_cases hinside : mode.InLiteral
  · exact absurd rfl (hharmless (label_inLiteral hinside '\n' _)).2.1
  · cases mode with
    | code =>
      have hopens : ¬ q.opens '\n' := q.not_opens (by decide)
      obtain ⟨hlabel, hnext⟩ := step_code (by decide) hopens rest.head?
      rw [hnext] at hrest
      rw [Reader.read, hlabel, hnext]
      exact ⟨hrest, rfl⟩
    | comment => exact ⟨hrest, rfl⟩
    | literal quote opened => exact absurd trivial hinside
    | escaped quote opened => exact absurd trivial hinside

/-- Line by line `split_sql` keeps what the tokenizer keeps, and a line feed at the end of a
last line without one. -/
theorem stripped_eq {script : List Char}
    (h : (tokenizer q).Along (Harmless q) .code (lf script)) :
    ∃ ending, (ending = [] ∨ ending = ['\n']) ∧
      stripped script = (tokens q (lf script)).filterMap textChar ++ ending := by
  induction script using Reader.lineInduction '\n' with
  | last line hline =>
    by_cases hnil : line = []
    · subst hnil
      exact ⟨[], .inl rfl, rfl⟩
    · -- `split_sql` ends every line with a line feed, also the last one
      rw [lf_last hline, ← List.append_nil line] at h
      obtain ⟨after, -, htext⟩ := text_line hline (by simp) h
      refine ⟨['\n'], .inr rfl, ?_⟩
      rw [List.append_nil] at htext
      rw [stripped_last hline hnil, lf_last hline, tokens, htext]
      simp [lineText, Reader.read]
  | step line rest hline ih =>
    rw [lf_break hline] at h
    have hkept : '\n' ∉ (stripSuffix '\r' line).getD line :=
      fun hmem => hline (withoutReturn_subset line hmem)
    obtain ⟨after, hafter, htext⟩ := text_line hkept (by simp) h
    obtain ⟨hrest, hfeed⟩ := text_feed hafter
    obtain ⟨ending, hending, hstripped⟩ := ih hrest
    refine ⟨ending, hending, ?_⟩
    unfold tokens at hstripped ⊢
    rw [stripped_break hline, hstripped, lf_break hline, htext, hfeed, List.append_assoc]
    rfl

theorem trim_feed (s : List Char) : trim (s ++ ['\n']) = trim s := by
  have hfeed : isWhitespace '\n' = true := by decide
  unfold trim
  rw [List.dropWhile_append]
  split
  case isTrue hblank =>
    rw [List.isEmpty_iff.mp hblank, List.dropWhile_cons_of_pos hfeed]
    rfl
  case isFalse => rw [List.rdropWhile_concat_pos _ _ _ hfeed]

/-- The line feed after the last line is trimmed. -/
theorem pieces_ending {ending : List Char} (h : ending = [] ∨ ending = ['\n'])
    (text : List Char) :
    ((text ++ ending).splitOn ';').map trim = (text.splitOn ';').map trim := by
  rcases h with rfl | rfl
  · rw [List.append_nil]
  · obtain ⟨pieces, last, hcut, hcut'⟩ := Reader.splitOnP_concat (· == ';')
      (show ('\n' == ';') = false by decide) text
    rw [List.splitOn_eq_splitOnP, List.splitOn_eq_splitOnP, hcut, hcut', List.map_append,
      List.map_append, List.map_singleton, List.map_singleton, trim_feed]

/-- The semicolons that a statement's text would keep are those that end statements. -/
theorem pieces_text {script : List Char}
    (h : (tokenizer q).Along (Harmless q) .code script) :
    ((tokens q script).filterMap textChar).splitOn ';' =
      ((tokens q script).splitOn (.code, ';')).map (List.filterMap textChar) := by
  rw [List.splitOn_eq_splitOnP, List.splitOn_eq_splitOnP]
  refine Reader.splitOnP_filterMap textChar _ _ ?_
  rintro ⟨part, c⟩ hmem
  cases part with
  | code => simp [textChar]
  | comment => simp [textChar]
  | literal =>
    obtain ⟨mode, ahead, hharmless, hlabel⟩ := Reader.exists_of_mem_read h hmem
    simp [textChar, (hharmless hlabel).1]

theorem splitSql_eq {script : String} (h : Plain q script.toList) :
    splitSql script = statements q (lf script.toList) := by
  have halong := along_lf h.along
  obtain ⟨ending, hending, hstripped⟩ := stripped_eq halong
  have hpieces : ((stripped script.toList).splitOn ';').map trim =
      ((tokens q (lf script.toList)).splitOn (.code, ';')).map
        fun s => trim (s.filterMap textChar) := by
    rw [hstripped, pieces_ending hending, pieces_text halong, List.map_map]
    rfl
  have htexts := congrArg (List.map String.ofList) hpieces
  rw [List.map_map, List.map_map] at htexts
  exact congrArg (List.filter fun s => !s.isEmpty) htexts

/-- The server is sent the tokenizer's statements in their order, up to the first that it
refuses. -/
theorem ensureSchema_sends {σ : Type} (execute : String → σ → Except String Unit × σ)
    {script : String} (h : Plain q script.toList) (db : σ) :
    ∃ sent left mid, statements q (lf script.toList) = sent ++ left ∧
      EarlyExit.Passes (send execute) sent db mid ∧
      EarlyExit.Ends (send execute) mid left (ensureSchema execute script db) := by
  rw [← splitSql_eq h]
  exact EarlyExit.loop_split (send execute) (splitSql script) db

end

/-- `split_sql` returns the tokenizer's statements, with the script's line endings written as
line feeds. -/
theorem splitSql_agrees (q : Quoting) (script : String) (h : Plain q script.toList) :
    splitSql script = statements q (lf script.toList) ∧
      (¬ ['\r', '\n'] <:+: script.toList → splitSql script = statements q script.toList) := by
  have heq := splitSql_eq h
  refine ⟨heq, fun hcrlf => ?_⟩
  rw [heq, lf_eq_self hcrlf]

theorem commented_script_split :
    splitSql "CREATE DATABASE oi; -- a; b\r\n;\nCREATE TABLE oi.a\r\n(t DateTime64(3, 'UTC'))" =
      ["CREATE DATABASE oi", "CREATE TABLE oi.a\n(t DateTime64(3, 'UTC'))"] := by
  refine (splitSql_agrees singleQuotes _ ⟨?semicolon, ?lineBreak, ?dashes⟩).1.trans ?split
  case semicolon => decide +kernel
  case lineBreak => decide +kernel
  case dashes => decide +kernel
  case split => decide +kernel

/-- A statement over two lines loses the carriage return between them. -/
theorem carriage_return_dropped :
    ¬ ∀ script : String, Plain singleQuotes script.toList →
      splitSql script = statements singleQuotes script.toList := by
  intro h
  have hsplit := h "SELECT 1\r\nFROM t;" ⟨by decide +kernel, by decide +kernel, by decide +kernel⟩
  exact absurd hsplit (by decide +kernel)

end OiTerminal.Storage.SplitSql
