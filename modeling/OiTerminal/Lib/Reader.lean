import Mathlib.Data.List.Basic

/-!
# Texts read from left to right

A reader passes over a text one symbol after the other. At each symbol it sees its mode, the
symbol and the one that follows, labels the symbol and goes on in another mode. A text of
labelled symbols is cut and cleaned like any list; what the cut pieces keep of a text is cut
from what the whole text keeps.
-/
namespace OiTerminal.Lib

set_option autoImplicit false

universe u v w

structure Reader (σ : Type u) (α : Type v) (κ : Type w) where
  label : σ → α → Option α → κ
  next : σ → α → Option α → σ

namespace Reader

variable {σ α κ β : Type*}

section

variable (R : Reader σ α κ)

def read : σ → List α → List (κ × α)
  | _, [] => []
  | s, a :: rest => (R.label s a rest.head?, a) :: read (R.next s a rest.head?) rest

/-- Each step of the reader is allowed. -/
def Along (ok : σ → α → Option α → Prop) : σ → List α → Prop
  | _, [] => True
  | s, a :: rest => ok s a rest.head? ∧ Along ok (R.next s a rest.head?) rest

variable {R} {ok : σ → α → Option α → Prop}

theorem exists_of_mem_read {s : σ} {text : List α} (h : R.Along ok s text) {k : κ} {a : α}
    (hmem : (k, a) ∈ R.read s text) : ∃ t ahead, ok t a ahead ∧ R.label t a ahead = k := by
  induction text generalizing s with
  | nil => cases hmem
  | cons b rest ih =>
    obtain ⟨hb, hrest⟩ := h
    rcases List.mem_cons.mp hmem with hhead | htail
    · obtain ⟨rfl, rfl⟩ := Prod.mk.inj hhead
      exact ⟨s, rest.head?, hb, rfl⟩
    · exact ih hrest htail

end

section

variable (f : α → Option β) (p : β → Bool) (sep : α → Bool)

/-- Where only the separators keep a separator, cutting and cleaning change places. -/
theorem splitOnP_filterMap {text : List α} (h : ∀ a ∈ text, sep a = (f a).any p) :
    (text.filterMap f).splitOnP p = (text.splitOnP sep).map (List.filterMap f) := by
  induction text with
  | nil => rfl
  | cons a rest ih =>
    have ha := h a List.mem_cons_self
    have hrest := ih fun b hb => h b (List.mem_cons_of_mem a hb)
    obtain ⟨piece, later, hcut⟩ := List.exists_cons_of_ne_nil (List.splitOnP_ne_nil sep rest)
    rw [List.splitOnP_cons_eq_if_modifyHead, hcut]
    rw [hcut] at hrest
    cases hf : f a with
    | none =>
      rw [hf, Option.any_none] at ha
      rw [List.filterMap_cons_none hf, hrest, ha, if_neg Bool.false_ne_true,
        List.modifyHead_cons, List.map_cons, List.map_cons, List.filterMap_cons_none hf]
    | some b =>
      rw [hf, Option.any_some] at ha
      rw [List.filterMap_cons_some hf, List.splitOnP_cons_eq_if_modifyHead, hrest, ha]
      cases p b with
      | true => rfl
      | false =>
        rw [if_neg Bool.false_ne_true, if_neg Bool.false_ne_true, List.map_cons,
          List.modifyHead_cons, List.modifyHead_cons, List.map_cons, List.filterMap_cons_some hf]

/-- A symbol that separates nothing, at the end of a text, ends its last piece. -/
theorem splitOnP_concat {a : α} (ha : sep a = false) (text : List α) :
    ∃ pieces last, text.splitOnP sep = pieces ++ [last] ∧
      (text ++ [a]).splitOnP sep = pieces ++ [last ++ [a]] := by
  induction text with
  | nil =>
    refine ⟨[], [], rfl, ?_⟩
    rw [List.nil_append, List.splitOnP_eq_singleton]
    · rfl
    · exact List.forall_mem_singleton.mpr ha
  | cons b rest ih =>
    obtain ⟨pieces, last, hcut, hcut'⟩ := ih
    rw [List.cons_append, List.splitOnP_cons_eq_if_modifyHead,
      List.splitOnP_cons_eq_if_modifyHead, hcut, hcut']
    cases sep b with
    | true => exact ⟨[] :: pieces, last, rfl, rfl⟩
    | false =>
      cases pieces with
      | nil => exact ⟨[], b :: last, rfl, rfl⟩
      | cons piece later => exact ⟨(b :: piece) :: later, last, rfl, rfl⟩

end

/-- Induction over the lines of a text: the last has no break, each of the others ends in
one. -/
theorem lineInduction [DecidableEq α] (brk : α) {motive : List α → Prop}
    (last : ∀ line, brk ∉ line → motive line)
    (step : ∀ line rest, brk ∉ line → motive rest → motive (line ++ brk :: rest))
    (text : List α) : motive text := by
  induction hlen : text.length using Nat.strongRecOn generalizing text with
  | ind n ih =>
    by_cases hbrk : brk ∈ text
    · obtain ⟨line, rest, rfl, hline⟩ := List.eq_append_cons_of_mem hbrk
      have hshort : rest.length < n := by
        rw [← hlen, List.length_append, List.length_cons]
        omega
      exact step line rest hline (ih rest.length hshort rest rfl)
    · exact last text hbrk

end Reader

end OiTerminal.Lib
