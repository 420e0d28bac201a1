import Mathlib.Data.List.Basic
import Mathlib.Tactic.Common

/-!
# Selected elements with the one before

A filter that shows each selected element of a list and the element before it shows
the list in groups, each of them a part of the list without a gap.  `groups` computes
them by cutting the list at what is not shown, and `mem_groups_iff` says what is in
them.

## Main definitions

* `withNext sel xs` — each element, with whether it or the next one is selected.
* `stretches sel xs` — the list cut at the elements that are not shown.
* `groups sel xs` — the stretches that are not empty.
-/

namespace FrameworkTests

variable {α : Type*} (sel : α → Bool)

/-- Each element, with whether it or the one behind it is selected. -/
def withNext : List α → List (α × Bool)
  | [] => []
  | x :: xs => (x, sel x || xs.head?.any sel) :: withNext xs

/-- The list cut at each element that is not shown. -/
def stretches (xs : List α) : List (List α) :=
  ((withNext sel xs).splitOnP fun x => !x.2).map (List.map Prod.fst)

/-- The stretches that are not empty. -/
def groups (xs : List α) : List (List α) := (stretches sel xs).filter (!·.isEmpty)

@[simp] theorem stretches_nil : stretches sel [] = [[]] := rfl

theorem stretches_cons_shown {x : α} {xs : List α} (h : (sel x || xs.head?.any sel) = true) :
    stretches sel (x :: xs) = (stretches sel xs).modifyHead (x :: ·) := by
  rw [stretches, withNext, List.splitOnP_cons_eq_if_modifyHead, h, stretches]
  cases (withNext sel xs).splitOnP fun x => !x.2 <;> simp

theorem stretches_cons_hidden {x : α} {xs : List α} (h : (sel x || xs.head?.any sel) = false) :
    stretches sel (x :: xs) = [] :: stretches sel xs := by
  rw [stretches, withNext, List.splitOnP_cons_eq_if_modifyHead, h, stretches]
  simp

/-- There is always a stretch to go on with. -/
theorem exists_stretches_eq_cons (xs : List α) : ∃ p ps, stretches sel xs = p :: ps := by
  have hne : stretches sel xs ≠ [] := by simp [stretches]
  exact List.exists_cons_of_ne_nil hne

theorem mem_flatten_stretches {x : α} {xs : List α} : x ∈ (stretches sel xs).flatten ↔
    ∃ pre post, xs = pre ++ x :: post ∧ (sel x || post.head?.any sel) = true := by
  induction xs with
  | nil => simp
  | cons y ys ih =>
      have hsplit :
          (∃ pre post, y :: ys = pre ++ x :: post ∧ (sel x || post.head?.any sel) = true) ↔
          (x = y ∧ (sel y || ys.head?.any sel) = true) ∨
            ∃ pre post, ys = pre ++ x :: post ∧ (sel x || post.head?.any sel) = true := by
        constructor
        · rintro ⟨pre, post, heq, hshown⟩
          cases pre with
          | nil =>
              obtain ⟨rfl, rfl⟩ := List.cons_eq_cons.mp heq
              exact .inl ⟨rfl, hshown⟩
          | cons z pre =>
              obtain ⟨rfl, rfl⟩ := List.cons_eq_cons.mp heq
              exact .inr ⟨pre, post, rfl, hshown⟩
        · rintro (⟨rfl, hshown⟩ | ⟨pre, post, rfl, hshown⟩)
          · exact ⟨[], ys, rfl, hshown⟩
          · exact ⟨y :: pre, post, rfl, hshown⟩
      rw [hsplit, ← ih]
      cases hshown : (sel y || ys.head?.any sel) with
      | true =>
          rw [stretches_cons_shown sel hshown]
          obtain ⟨p, ps, hps⟩ := exists_stretches_eq_cons sel ys
          simp [hps]
      | false =>
          rw [stretches_cons_hidden sel hshown]
          simp

/-- **The groups hold what is selected, and what comes before it.** -/
theorem mem_groups_iff {x : α} {xs : List α} : (∃ g ∈ groups sel xs, x ∈ g) ↔
    ∃ pre post, xs = pre ++ x :: post ∧ (sel x || post.head?.any sel) = true := by
  rw [← mem_flatten_stretches, List.mem_flatten]
  constructor
  · rintro ⟨g, hg, hx⟩
    exact ⟨g, (List.mem_filter.mp hg).1, hx⟩
  · rintro ⟨g, hg, hx⟩
    have hne : g ≠ [] := List.ne_nil_of_mem hx
    exact ⟨g, List.mem_filter.mpr ⟨hg, by simpa using hne⟩, hx⟩

/-- A separator between lists stands before each but the first. -/
theorem intercalate_cons (sep : List α) (g : List α) (gs : List (List α)) :
    sep.intercalate (g :: gs) = g ++ gs.flatMap (sep ++ ·) := by
  induction gs generalizing g with
  | nil => simp
  | cons h gs ih =>
      rw [List.intercalate_cons_cons, ih]
      simp

end FrameworkTests
