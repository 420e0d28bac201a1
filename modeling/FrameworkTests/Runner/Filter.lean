import FrameworkTests.Lib.Groups
import FrameworkTests.Runner.Script

/-!
# What quiet mode shows of a test

In quiet mode the output of a binary goes through two filters, and the status of the
second one is what the script takes for the status of the test.  The first filter is
modelled line by line, as it works; here it is compared, for output that is text, with
what it is for: the groups of lines that are failures or stand before one, kept apart
by a line `--`.

That line is no `PASS` line, so it gets through the second filter.  A test therefore
counts as passed in quiet mode as soon as two groups are shown, whatever is in them.

## Main definitions

* `failureGroups lines` — the groups of the first filter.
* `joined` — what the first filter prints from any of its states.
* `quiet_mode` — what is shown of a test, and when it counts as passed.
-/

namespace FrameworkTests.Runner

/-- The groups of failures, each with the line before it. -/
def failureGroups (lines : List Word) : List (List Word) := groups isFailure lines

def isPass (line : Word) : Bool := "PASS".toList.isPrefixOf line

/-- The pieces of the input that are left, as they are printed: with a separator before
each group, except before the very first group, and before one that goes on with lines
that are out already. -/
def joined (printed apart : Bool) (ps : List (List Word)) : List Word :=
  if printed then
    if apart then (ps.filter (!·.isEmpty)).flatMap ("--".toList :: ·)
    else ps.headD [] ++ (ps.tail.filter (!·.isEmpty)).flatMap ("--".toList :: ·)
  else ["--".toList].intercalate (ps.filter (!·.isEmpty))

/-- Behind a line that is not shown, the next group stands apart. -/
theorem joined_nil_cons (printed apart : Bool) (ps : List (List Word)) :
    joined printed apart ([] :: ps) = joined printed true ps := by
  cases printed with
  | false => simp [joined]
  | true => cases apart <;> simp [joined]

/-- A group that comes first is printed with the separator before it that is due. -/
theorem joined_cons (printed apart : Bool) {p : List Word} (hp : p ≠ []) (ps : List (List Word)) :
    joined printed apart (p :: ps) =
      (if printed && apart then ["--".toList] else []) ++ p ++
        (ps.filter (!·.isEmpty)).flatMap ("--".toList :: ·) := by
  have hp' : (!p.isEmpty) = true := by simpa using hp
  cases printed with
  | false =>
      rw [joined, if_neg (by simp), List.filter_cons, if_pos hp', intercalate_cons]
      simp
  | true => cases apart <;> simp [joined, hp]

/-- **The first filter from any of its states**: it prints the groups of what is not out
yet, the last line before the rest among it. -/
theorem withContext_eq (lines : List Word) (printed apart : Bool) (before : Option Word)
    (hbefore : ∀ line ∈ before, isFailure line = false) :
    withContext printed apart before lines =
      joined printed apart (stretches isFailure (before.toList ++ lines)) := by
  induction lines generalizing printed apart before with
  | nil =>
      cases before with
      | none => simp [withContext, joined]
      | some line =>
          have hhidden : (isFailure line || ([] : List Word).head?.any isFailure) = false := by
            simp [hbefore line rfl]
          rw [withContext, Option.toList_some, List.append_nil, stretches_cons_hidden _ hhidden,
            joined_nil_cons]
          simp [joined]
  | cons line lines ih =>
      cases hline : isFailure line with
      | true =>
          obtain ⟨p, ps, hps⟩ := exists_stretches_eq_cons isFailure lines
          -- the line before, the failure and what goes on from it are one group
          have hgroup : stretches isFailure (before.toList ++ line :: lines) =
              (before.toList ++ line :: p) :: ps := by
            have hshown : stretches isFailure (line :: lines) = (line :: p) :: ps := by
              rw [stretches_cons_shown _ (by simp [hline]), hps]
              rfl
            cases before with
            | none => simpa using hshown
            | some b =>
                rw [Option.toList_some, List.singleton_append,
                  stretches_cons_shown _ (by simp [hline]), hshown]
                rfl
          rw [withContext, if_pos hline, ih true false none (by simp), hgroup,
            joined_cons _ _ (by simp)]
          simp [joined, hps]
      | false =>
          have hskip := ih printed (apart || before.isSome) (some line) (by simpa using hline)
          rw [withContext, hline, if_neg (by simp), hskip]
          cases before with
          | none => simp
          | some b =>
              have hb : isFailure b = false := hbefore b rfl
              have hhidden : (isFailure b || (line :: lines).head?.any isFailure) = false := by
                simp [hb, hline]
              simp only [Option.toList_some, List.singleton_append]
              rw [stretches_cons_hidden _ hhidden, joined_nil_cons]
              simp

/-- **The first filter prints the groups of failures**, with a separator between them. -/
theorem withContext_start (lines : List Word) : withContext false false none lines =
    ["--".toList].intercalate (failureGroups lines) := by
  rw [withContext_eq lines false false none (by simp)]
  rfl

theorem failures_eq_filter (text : Text) : failures (.text text) =
    (["--".toList].intercalate (failureGroups text.lines)).filter fun line => !isPass line := by
  rw [failures, egrep, withContext_start]
  rfl

/-- A line gets through the second filter: one of a group, or the separator when there
are two groups. -/
theorem exists_not_isPass_iff (gs : List (List Word)) :
    (∃ line ∈ ["--".toList].intercalate gs, isPass line = false) ↔
      2 ≤ gs.length ∨ ∃ g ∈ gs, ∃ line ∈ g, isPass line = false := by
  have hseparator : isPass "--".toList = false := by decide
  cases gs with
  | nil => simp
  | cons g gs =>
      rw [intercalate_cons]
      cases gs with
      | nil => simp
      | cons h gs =>
          refine iff_of_true ⟨"--".toList, by simp, hseparator⟩ (.inl (by simp))

/-- A test counts as passed when two groups of failures are shown or one of their lines
is no `PASS` line, whatever its exit code is. -/
theorem pipelineStatus_eq_zero_iff (text : Text) (code : ℕ) :
    pipelineStatus (some (.text text, code)) = 0 ↔
      2 ≤ (failureGroups text.lines).length ∨ ∃ pre line post, text.lines = pre ++ line :: post ∧
        (isFailure line || post.head?.any isFailure) = true ∧ isPass line = false := by
  have hshown : (∃ g ∈ failureGroups text.lines, ∃ line ∈ g, isPass line = false) ↔
      ∃ pre line post, text.lines = pre ++ line :: post ∧
        (isFailure line || post.head?.any isFailure) = true ∧ isPass line = false := by
    constructor
    · rintro ⟨g, hg, line, hline, hpass⟩
      obtain ⟨pre, post, hlines, hfailure⟩ := (mem_groups_iff isFailure).mp ⟨g, hg, hline⟩
      exact ⟨pre, line, post, hlines, hfailure, hpass⟩
    · rintro ⟨pre, line, post, hlines, hfailure, hpass⟩
      obtain ⟨g, hg, hline⟩ := (mem_groups_iff isFailure).mpr ⟨pre, post, hlines, hfailure⟩
      exact ⟨g, hg, line, hline, hpass⟩
  have hstatus : pipelineStatus (some (.text text, code)) = 0 ↔ failures (.text text) ≠ [] := by
    by_cases h : failures (.text text) = [] <;> simp [pipelineStatus, h]
  have hne : failures (.text text) ≠ [] ↔
      ∃ line ∈ ["--".toList].intercalate (failureGroups text.lines), isPass line = false := by
    rw [failures_eq_filter, ne_eq, List.filter_eq_nil_iff]
    simp only [Bool.not_eq_true', Bool.not_eq_false, not_forall, exists_prop, Bool.not_eq_true]
  rw [hstatus, hne, exists_not_isPass_iff, hshown]

/-- **Quiet mode**: what it shows of a test that prints text, and when the test counts
as passed. -/
theorem quiet_mode (text : Text) (code : ℕ) :
    failures (.text text) =
        (["--".toList].intercalate (failureGroups text.lines)).filter (fun line => !isPass line) ∧
      (pipelineStatus (some (.text text, code)) = 0 ↔
        2 ≤ (failureGroups text.lines).length ∨
          ∃ pre line post, text.lines = pre ++ line :: post ∧
            (isFailure line || post.head?.any isFailure) = true ∧ isPass line = false) :=
  ⟨failures_eq_filter text, pipelineStatus_eq_zero_iff text code⟩

example : pipelineStatus (some (.text ⟨["PASS   : request()".toList,
    "Totals: 1 passed, 0 failed, 0 skipped".toList], by decide⟩, 0)) = 0 := by decide

end FrameworkTests.Runner
