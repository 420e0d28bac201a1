import Mathlib.Data.List.Basic
import Mathlib.Data.List.Infix
import Mathlib.Tactic.Common

/-!
# Lines of a list

A line runs up to and including the first delimiter; the last line may lack one.
`IsLineChunk nl n u c` is the specification of reading one line under a limit: `c`
is the longest prefix of `u` of at most `n` elements in which the delimiter occurs
at most at the end.  `isLineChunk_iff` computes it.

## Main definitions

* `firstLine nl u` — the first line of `u`, with its delimiter.
* `lines nl u` — all lines of `u`, each with its delimiter.
* `IsLineChunk nl n u c` — reading one line under the limit `n`.
-/

namespace FrameworkTests

variable {α : Type*} [DecidableEq α] (nl : α)

/-- Everything up to and including the first delimiter. -/
def firstLine : List α → List α
  | [] => []
  | x :: xs => if x = nl then [x] else x :: firstLine xs

/-- The lines of a list, each with its delimiter. -/
def lines : List α → List (List α)
  | [] => []
  | x :: xs =>
      if x = nl then [x] :: lines xs
      else match lines xs with
        | [] => [[x]]
        | l :: ls => (x :: l) :: ls

/-- `c` is the longest prefix of `u` that has at most `n` elements and contains
the delimiter at most as its last element. -/
def IsLineChunk (n : ℕ) (u c : List α) : Prop :=
  (c <+: u ∧ c.length ≤ n ∧ nl ∉ c.dropLast) ∧
    ∀ c', c' <+: u → c'.length ≤ n → nl ∉ c'.dropLast → c'.length ≤ c.length

@[simp] theorem firstLine_nil : firstLine nl [] = [] := rfl
@[simp] theorem lines_nil : lines nl [] = [] := rfl

theorem firstLine_cons (x : α) (xs : List α) :
    firstLine nl (x :: xs) = if x = nl then [x] else x :: firstLine nl xs := rfl

theorem firstLine_isPrefix (u : List α) : firstLine nl u <+: u := by
  induction u with
  | nil => exact List.prefix_refl _
  | cons x xs ih =>
      rw [firstLine_cons]
      split
      · exact ⟨xs, rfl⟩
      · exact List.prefix_cons_inj x |>.mpr ih

theorem firstLine_eq_nil_iff (u : List α) : firstLine nl u = [] ↔ u = [] := by
  cases u with
  | nil => simp
  | cons x xs => rw [firstLine_cons]; split <;> simp

/-- A first line holds the delimiter at most at its end. -/
theorem notMem_dropLast_firstLine (u : List α) : nl ∉ (firstLine nl u).dropLast := by
  induction u with
  | nil => simp
  | cons x xs ih =>
      rw [firstLine_cons]
      split
      · simp
      · next hx =>
          cases hl : firstLine nl xs with
          | nil => simp
          | cons y ys =>
              rw [hl] at ih
              rw [List.dropLast_cons_of_ne_nil (by simp), List.mem_cons]
              rintro (h | h)
              · exact hx h.symm
              · exact ih h

/-- A prefix with the delimiter at most at its end stays within the first line. -/
theorem isPrefix_firstLine {u c : List α} (hc : c <+: u) (hnl : nl ∉ c.dropLast) :
    c <+: firstLine nl u := by
  induction u generalizing c with
  | nil => simpa using hc
  | cons x xs ih =>
      cases c with
      | nil => exact List.nil_prefix
      | cons y ys =>
          obtain ⟨rfl, hys⟩ := List.cons_prefix_cons.mp hc
          cases ys with
          | nil =>
              rw [firstLine_cons]
              split
              · exact List.prefix_refl _
              · exact ⟨firstLine nl xs, rfl⟩
          | cons z zs =>
              rw [List.dropLast_cons_of_ne_nil (by simp), List.mem_cons, not_or] at hnl
              rw [firstLine_cons, if_neg (Ne.symm hnl.1)]
              exact (List.prefix_cons_inj y).mpr (ih hys hnl.2)

omit [DecidableEq α] in
theorem notMem_dropLast_of_isPrefix {c l : List α} (hc : c <+: l) (hnl : nl ∉ l.dropLast) :
    nl ∉ c.dropLast := by
  obtain ⟨r, rfl⟩ := hc
  intro h
  apply hnl
  rcases List.eq_nil_or_concat r with rfl | ⟨r', x, rfl⟩
  · simpa using h
  · rw [List.concat_eq_append, ← List.append_assoc, List.dropLast_concat]
    exact List.mem_append_left _ (List.mem_of_mem_dropLast h)

/-- **Reading a line under a limit takes that much of the first line.** -/
theorem isLineChunk_iff (n : ℕ) (u c : List α) :
    IsLineChunk nl n u c ↔ c = (firstLine nl u).take n := by
  -- the computed chunk is a candidate, and every candidate is a prefix of it
  have htake : (firstLine nl u).take n <+: firstLine nl u := List.take_prefix _ _
  have hpre : (firstLine nl u).take n <+: u := htake.trans (firstLine_isPrefix nl u)
  have hnl : nl ∉ ((firstLine nl u).take n).dropLast :=
    notMem_dropLast_of_isPrefix nl htake (notMem_dropLast_firstLine nl u)
  have hmax : ∀ c', c' <+: u → c'.length ≤ n → nl ∉ c'.dropLast →
      c' <+: (firstLine nl u).take n := by
    intro c' hp hn hd
    exact List.prefix_take_iff.mpr ⟨isPrefix_firstLine nl hp hd, hn⟩
  constructor
  · rintro ⟨⟨hp, hn, hd⟩, hlongest⟩
    have hle := hlongest _ hpre (List.length_take_le _ _) hnl
    exact (hmax c hp hn hd).eq_of_length_le hle
  · rintro rfl
    refine ⟨⟨hpre, List.length_take_le _ _, hnl⟩, ?_⟩
    intro c' hp hn hd
    exact (hmax c' hp hn hd).length_le

/-- The lines of a non-empty list: the first one, and those of the rest. -/
theorem lines_eq_cons {u : List α} (hu : u ≠ []) :
    lines nl u = firstLine nl u :: lines nl (u.drop (firstLine nl u).length) := by
  induction u with
  | nil => exact absurd rfl hu
  | cons x xs ih =>
      rw [lines, firstLine_cons]
      by_cases hx : x = nl
      · simp [hx]
      · rw [if_neg hx, if_neg hx]
        by_cases hxs : xs = []
        · subst hxs; simp
        · rw [ih hxs, List.length_cons, List.drop_succ_cons]

theorem flatten_lines (u : List α) : (lines nl u).flatten = u := by
  generalize hk : u.length = k
  induction k using Nat.strong_induction_on generalizing u with
  | _ k ih =>
    by_cases hu : u = []
    · simp [hu]
    · have hpos := List.length_pos_iff.mpr (mt (firstLine_eq_nil_iff nl u).mp hu)
      have hsplit := List.prefix_iff_eq_append.mp (firstLine_isPrefix nl u)
      have hle := (firstLine_isPrefix nl u).length_le
      have hlen : (u.drop (firstLine nl u).length).length < k := by
        rw [List.length_drop]
        omega
      rw [lines_eq_cons nl hu, List.flatten_cons, ih _ hlen _ rfl, hsplit]

end FrameworkTests
