import FrameworkTests.Transport.Outgoing
import Mathlib.Data.PNat.Basic

/-!
# Reading lines through `readLineData`

The base class calls `readLineData` with a limit that already leaves room for the
terminating zero.  The override forwards the limit to `readLine` of the ingoing
buffer, which keeps one byte of it back once more.  `lineContract_iff`: the lines
come out as they should exactly when every one of them is shorter than the limit.

## Main definitions

* `Splits n t cs` — repeated calls with limit `n` yield the chunks `cs`, each as
  specified by `IsLineChunk`, until nothing is unread.
* `LineContract n t` — the unread content splits completely.
-/

namespace FrameworkTests.HttpMemoryTransport

open Run

/-- Calling `readLineData` with limit `n` until the content is used up yields these
chunks, each the longest line chunk of what remained and none of them empty. -/
inductive Splits (n : ℕ) : HttpMemoryTransport → List Bytes → Prop
  | done {t : HttpMemoryTransport} : t.ingoing.unread = [] → Splits n t []
  | chunk {t : HttpMemoryTransport} {c : Bytes} {cs : List Bytes} :
      t.ingoing.unread ≠ [] → (t.readLineData n).1 = some c → c ≠ [] →
      IsLineChunk newline n t.ingoing.unread c → Splits n (t.readLineData n).2 cs →
      Splits n t (c :: cs)

/-- The calls split the unread content into line chunks whose concatenation it is. -/
def LineContract (n : ℕ) (t : HttpMemoryTransport) : Prop :=
  ∃ cs, Splits n t cs ∧ cs.flatten = t.ingoing.unread

/-- What `readLineData` does on an open, unfinished ingoing buffer. -/
theorem readLineData_eq {t : HttpMemoryTransport} (h : t.ingoing.openMode = .readWrite)
    {n : ℕ} (hn : 2 ≤ n) (hu : t.ingoing.unread ≠ []) :
    (t.readLineData n).1 = some ((firstLine newline t.ingoing.unread).take (n - 1)) ∧
      (t.readLineData n).2.ingoing.unread =
        t.ingoing.unread.drop ((firstLine newline t.ingoing.unread).take (n - 1)).length ∧
      (t.readLineData n).2.ingoing.openMode = .readWrite := by
  have hguard : ¬ (t.ingoing.openMode = .notOpen ∨ n < 2 ∨ t.ingoing.unread = []) := by
    rw [h]
    simp only [reduceCtorEq, hu, or_false, false_or]
    omega
  simp only [readLineData, Buffer.readLine, if_neg hguard]
  exact ⟨trivial, t.ingoing.cursor.unread_read _, h⟩

theorem readLineData_of_lt {t : HttpMemoryTransport} {n : ℕ} (hn : n < 2) :
    (t.readLineData n).1 = none := by
  simp [readLineData, Buffer.readLine, hn]

/-- A complete splitting means that every line fits below the limit. -/
theorem length_lt_of_splits {n : ℕ} (hn : 0 < n) {t : HttpMemoryTransport} {cs : List Bytes}
    (h : Splits n t cs) (hopen : t.ingoing.openMode = .readWrite) :
    ∀ l ∈ lines newline t.ingoing.unread, l.length < n := by
  induction h with
  | done hu => simp [hu]
  | @chunk t c cs hu hc _ hchunk _ ih =>
      have hn2 : 2 ≤ n := by
        by_contra hlt
        rw [readLineData_of_lt (by omega)] at hc
        simp at hc
      obtain ⟨hout, hunread, hmode⟩ := readLineData_eq hopen hn2 hu
      -- the chunk the code returns and the one specified are the same
      have hshort : c = (firstLine newline t.ingoing.unread).take (n - 1) :=
        Option.some.inj (hc.symm.trans hout)
      have hlong := (isLineChunk_iff newline n _ c).mp hchunk
      have hlen : (firstLine newline t.ingoing.unread).length < n := by
        have := congrArg List.length (hshort.symm.trans hlong)
        simp only [List.length_take] at this
        omega
      rw [List.take_of_length_le (by omega)] at hunread
      rw [lines_eq_cons newline hu, List.forall_mem_cons, ← hunread]
      exact ⟨hlen, ih hmode⟩

/-- Lines below the limit come out one by one. -/
theorem splits_of_length_lt {n : ℕ} {t : HttpMemoryTransport}
    (hopen : t.ingoing.openMode = .readWrite)
    (h : ∀ l ∈ lines newline t.ingoing.unread, l.length < n) :
    Splits n t (lines newline t.ingoing.unread) := by
  generalize hk : t.ingoing.unread.length = k
  induction k using Nat.strong_induction_on generalizing t with
  | _ k ih =>
    by_cases hu : t.ingoing.unread = []
    · rw [hu]
      exact .done hu
    · have hline : firstLine newline t.ingoing.unread ≠ [] :=
        mt (firstLine_eq_nil_iff newline _).mp hu
      have hpos := List.length_pos_iff.mpr hline
      have hle := (firstLine_isPrefix newline t.ingoing.unread).length_le
      rw [lines_eq_cons newline hu, List.forall_mem_cons] at h
      obtain ⟨hlen, hrest⟩ := h
      obtain ⟨hout, hunread, hmode⟩ := readLineData_eq (n := n) hopen (by omega) hu
      have htake : (firstLine newline t.ingoing.unread).take (n - 1) =
          firstLine newline t.ingoing.unread := List.take_of_length_le (by omega)
      rw [htake] at hout hunread
      rw [lines_eq_cons newline hu]
      refine .chunk hu hout hline ?_ ?_
      · rw [isLineChunk_iff, List.take_of_length_le (Nat.le_of_lt hlen)]
      · rw [← hunread] at hrest ⊢
        refine ih _ ?_ hmode hrest rfl
        rw [hunread, List.length_drop]
        omega

/-- **Line splitting is right exactly when every line, its newline included, is
shorter than the limit.** -/
theorem lineContract_iff (ops : List Op) (n : ℕ+) :
    LineContract n (after step ops new) ↔
      ∀ l ∈ lines newline (after step ops new).ingoing.unread, l.length < n := by
  have hopen := (live_after ops).ingoing_open
  constructor
  · rintro ⟨cs, hcs, -⟩
    exact length_lt_of_splits n.pos hcs hopen
  · intro h
    exact ⟨_, splits_of_length_lt hopen h, flatten_lines newline _⟩

/-- The line `ab` with its newline under the limit 3: the call returns two bytes. -/
theorem lineContract_full_line :
    ¬ LineContract 3 (after step [.setIncoming [97, 98, 10]] new) := by
  rintro ⟨cs, hcs, -⟩
  cases hcs with
  | done hu => exact absurd hu (by decide)
  | @chunk _ c cs _ hc _ hchunk _ =>
      have hc' : c = [97, 98] := (Option.some.inj hc).symm
      have := hchunk.2 [97, 98, 10] (by decide) (by decide) (by decide)
      rw [hc'] at this
      exact absurd this (by decide)

end FrameworkTests.HttpMemoryTransport
