import Mathlib.Data.List.Basic
import Mathlib.Tactic.Common

/-!
# The last field of a text

`splitOn` cuts a text at a separator.  A program that looks at the last piece only asks
a simpler question: how does the text end?  `lastField_eq_iff` is that question, and
`append_cons_inj` says that a field behind the last separator can be told from what is
before it.
-/

namespace FrameworkTests

variable {α : Type*} [DecidableEq α] {sep : α}

/-- What is behind the last separator. -/
def lastField (sep : α) (l : List α) : List α := (l.splitOn sep).getLast (l.splitOn_ne_nil sep)

theorem lastField_of_notMem {l : List α} (h : sep ∉ l) : lastField sep l = l := by
  simp [lastField, List.splitOn_eq_singleton h]

theorem lastField_append_cons (xs l : List α) :
    lastField sep (xs ++ sep :: l) = lastField sep l := by
  simp only [lastField, List.splitOn_append_cons_self]
  exact List.getLast_append_of_ne_nil _ (List.splitOn_ne_nil sep l)

/-- A text is one field, or ends in one. -/
theorem field_cases (sep : α) (l : List α) :
    sep ∉ l ∨ ∃ xs as, l = xs ++ sep :: as ∧ sep ∉ as := by
  induction l with
  | nil => exact .inl List.not_mem_nil
  | cons x l ih =>
      rcases ih with hl | ⟨xs, as, rfl, has⟩
      · by_cases hx : x = sep
        · exact .inr ⟨[], l, by rw [hx]; rfl, hl⟩
        · left
          rw [List.mem_cons, not_or]
          exact ⟨fun h => hx h.symm, hl⟩
      · exact .inr ⟨x :: xs, as, rfl, has⟩

/-- **The last field of a text** is what it ends in: a part without a separator, with
nothing or a separator before it. -/
theorem lastField_eq_iff {l field : List α} :
    lastField sep l = field ↔ sep ∉ field ∧ (l = field ∨ ∃ xs, l = xs ++ sep :: field) := by
  constructor
  · rintro rfl
    rcases field_cases sep l with hl | ⟨xs, as, rfl, has⟩
    · rw [lastField_of_notMem hl]
      exact ⟨hl, .inl rfl⟩
    · rw [lastField_append_cons, lastField_of_notMem has]
      exact ⟨has, .inr ⟨xs, rfl⟩⟩
  · intro h
    obtain ⟨hfield, rfl | ⟨xs, rfl⟩⟩ := h
    · exact lastField_of_notMem hfield
    · rw [lastField_append_cons, lastField_of_notMem hfield]

/-- What is before the last separator and the field behind it are both determined. -/
theorem append_cons_inj {xs ys as bs : List α} (has : sep ∉ as) (hbs : sep ∉ bs) :
    xs ++ sep :: as = ys ++ sep :: bs ↔ xs = ys ∧ as = bs := by
  constructor
  · intro h
    have hfield : as = bs := by
      have hlast := congrArg (lastField sep) h
      rwa [lastField_append_cons, lastField_append_cons, lastField_of_notMem has,
        lastField_of_notMem hbs] at hlast
    subst hfield
    exact ⟨List.append_cancel_right h, rfl⟩
  · intro h
    rw [h.1, h.2]

end FrameworkTests
