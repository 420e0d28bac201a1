import FrameworkTests.Multipart.Fragments

/-!
# The end of a transfer

A test that feeds a stream in parts first takes back the end of the buffer, appends
the parts, and announces the end behind the last one.  A reader that works while this
goes on only sees the buffer: it stops when the buffer is at its end and hands out
nothing any more.

`transfers_announced` says that this is never too early, whatever the parts and
whenever the reader reads, and that it always comes to that.  It also says what the
reader has to live with: the end comes after the last `readyRead`, so nobody tells it.

## Main definitions

* `fragmentedTransfer parts` — what a test does to the buffer.
* `Announced c parts ops` — what a reader may rely on in a run over the parts.
-/

namespace FrameworkTests.HttpMultiPartReaderTest

open Run

/-- The parts behind the one in the buffer, with the end announced behind them. -/
def fragmentedTransfer (parts : List Bytes) : List Op :=
  .setAtEnd false :: parts.map .appendToBuffer ++ [.setAtEnd true]

/-- What a reader may rely on in a run over the content `c` and the `parts`. -/
structure Announced (c : Bytes) (parts : List Bytes) (ops : List Op) : Prop where
  /-- From the start of the transfer on, a reader that finds the end and nothing to read
  has the whole stream. -/
  whole : ∀ pre, pre <+: ops → .setAtEnd false ∈ pre → (run c pre).atEnd = true →
    Exhausted (run c pre) → delivered c pre = c ++ parts.flatten
  /-- Inside a `readyRead` the end is not announced. -/
  early : ∀ pre data, pre ++ [.appendToBuffer data] <+: ops →
    (run c (pre ++ [.appendToBuffer data])).atEnd = false
  /-- Behind the end nothing is heard any more. -/
  silent : ∀ pre post, ops = pre ++ post → .setAtEnd false ∈ pre → (run c pre).atEnd = true →
    appends post = 0
  ended : (run c ops).atEnd = true
  heard : (run c ops).emitted = List.replicate parts.length .readyRead

/-! ### The announced end -/

/-- The end that an operation announces or takes back. -/
def Op.flag? : Op → Option Bool
  | .setAtEnd isAtEnd => some isAtEnd
  | .appendToBuffer _ | .read _ => none

theorem atEnd_after (ops : List Op) {t : TestBuffer} (ht : t.Ready) :
    (after step ops t).atEnd = (ops.filterMap Op.flag?).getLast?.getD t.atEnd := by
  induction ops generalizing t with
  | nil => rfl
  | cons op ops ih =>
      rw [after_cons, ih (ready_step op ht)]
      cases op with
      | setAtEnd b =>
          rw [List.filterMap_cons_some (by rfl), List.getLast?_cons]
          rfl
      | appendToBuffer data =>
          rw [isAtEnd_step _ ht (by simp), List.filterMap_cons_none (by rfl)]
      | read n =>
          rw [isAtEnd_step _ ht (by simp), List.filterMap_cons_none (by rfl)]

/-- The end is announced by the test alone. -/
theorem atEnd_run (c : Bytes) (ops : List Op) :
    (run c ops).atEnd = ((script ops).filterMap Op.flag?).getLast?.getD true := by
  have hscript : (script ops).filterMap Op.flag? = ops.filterMap Op.flag? := by
    rw [script, List.filterMap_filter]
    apply List.filterMap_congr
    intro op _
    cases op <;> rfl
  rw [run, atEnd_after ops (ready_createBuffer c), hscript]
  rfl

theorem appends_script (ops : List Op) : appends (script ops) = appends ops := by
  induction ops with
  | nil => rfl
  | cons op ops ih => cases op <;> simp_all [script, appends]

/-! ### How far a transfer has come -/

theorem flags_appends (parts : List Bytes) :
    (parts.map Op.appendToBuffer).filterMap Op.flag? = [] := by
  simp [Op.flag?]

theorem fragments_fragmentedTransfer (parts : List Bytes) :
    fragments (fragmentedTransfer parts) = parts.flatten := by
  have hparts : fragments (parts.map Op.appendToBuffer) = parts.flatten := by
    simp [fragments, Op.fragment, Function.comp_def]
  rw [fragmentedTransfer, fragments_append, fragments_cons, hparts]
  simp [fragments, Op.fragment]

/-- A part of a transfer that has taken back the end is all of it, or has not announced
the end again. -/
theorem isPrefix_cases {parts : List Bytes} {pre : List Op}
    (hpre : pre <+: fragmentedTransfer parts) (hbegun : .setAtEnd false ∈ pre) :
    pre = fragmentedTransfer parts ∨ pre.filterMap Op.flag? = [false] := by
  rcases List.prefix_concat_iff.mp hpre with rfl | hpre
  · exact .inl rfl
  · right
    have hflags := hpre.filterMap Op.flag?
    rw [List.filterMap_cons_some (by rfl), flags_appends] at hflags
    have hmem : false ∈ pre.filterMap Op.flag? := List.mem_filterMap.mpr ⟨_, hbegun, rfl⟩
    exact hflags.eq_of_length_le (List.length_pos_of_mem hmem)

section Run
variable {c : Bytes} {parts : List Bytes} {ops : List Op}
  (h : script ops = fragmentedTransfer parts)
include h

/-- **The end is seen again only when all parts are there.** -/
theorem script_of_atEnd {pre : List Op} (hpre : pre <+: ops) (hbegun : .setAtEnd false ∈ pre)
    (hend : (run c pre).atEnd = true) : script pre = fragmentedTransfer parts := by
  have hscript : script pre <+: fragmentedTransfer parts := h ▸ hpre.filter _
  have hmem : .setAtEnd false ∈ script pre := List.mem_filter.mpr ⟨hbegun, rfl⟩
  rcases isPrefix_cases hscript hmem with hall | hflags
  · exact hall
  · rw [atEnd_run, hflags] at hend
    simp at hend

/-- Nothing is appended before the end is taken back. -/
theorem begun_of_append {pre : List Op} (data : Bytes) (hpre : pre <+: ops)
    (hmem : .appendToBuffer data ∈ pre) : .setAtEnd false ∈ pre := by
  have hscript : script pre <+: fragmentedTransfer parts := h ▸ hpre.filter _
  have happend : .appendToBuffer data ∈ script pre := List.mem_filter.mpr ⟨hmem, rfl⟩
  obtain ⟨op, rest, hcons⟩ := List.exists_cons_of_ne_nil (List.ne_nil_of_mem happend)
  rw [hcons] at hscript
  obtain ⟨rfl, -⟩ := List.cons_prefix_cons.mp hscript
  exact List.mem_of_mem_filter (hcons ▸ List.mem_cons_self)

/-- **The end of a transfer** is announced when all is there and not before. -/
theorem announced_of_script (c : Bytes) : Announced c parts ops where
  whole := by
    intro pre hpre hbegun hend hex
    have hscript := script_of_atEnd h hpre hbegun hend
    rw [delivered_of_exhausted hex, ← fragments_script, hscript, fragments_fragmentedTransfer]
  early := by
    intro pre data hpre
    apply Bool.eq_false_iff.mpr
    intro hend
    have hbegun := begun_of_append h data hpre (by simp)
    have hscript := script_of_atEnd h hpre hbegun hend
    -- an append is not the last thing a transfer does
    have hlast := congrArg List.getLast? hscript
    have happend :
        script (pre ++ [.appendToBuffer data]) = script pre ++ [.appendToBuffer data] := by
      rw [script, List.filter_append]
      rfl
    rw [happend, fragmentedTransfer, List.getLast?_concat, List.getLast?_concat] at hlast
    simp at hlast
  silent := by
    rintro pre post rfl hbegun hend
    have hscript := script_of_atEnd h (List.prefix_append pre post) hbegun hend
    have hpost : script post = [] := by
      have hsplit : script pre ++ script post = fragmentedTransfer parts := by
        rw [← h, script, script, script, List.filter_append]
      rw [hscript] at hsplit
      exact List.append_right_eq_self.mp hsplit
    rw [← appends_script, hpost]
    rfl
  ended := by
    rw [atEnd_run, h, fragmentedTransfer, List.filterMap_append, List.getLast?_append]
    rfl
  heard := by
    rw [(faithful c ops).heard, ← appends_script, h]
    simp [fragmentedTransfer, appends]

end Run

/-! ### Byte by byte -/

/-- A transfer of one byte at a time is one in parts, if there is any byte. -/
theorem bytePerByteTransfer_eq {input : Bytes} (hne : input ≠ []) :
    bytePerByteTransfer input = fragmentedTransfer (input.map fun byte => [byte]) := by
  -- the bound of the loop stays while the induction consumes the input
  have key : ∀ (n k : ℕ) (bytes : Bytes), bytes ≠ [] → k + bytes.length = n →
      ((bytes.zipIdx k).flatMap fun item : UInt8 × ℕ =>
        Op.appendToBuffer [item.1] :: if n ≤ item.2 + 1 then [.setAtEnd true] else []) =
        (bytes.map fun byte => [byte]).map Op.appendToBuffer ++ [.setAtEnd true] := by
    intro n k bytes
    induction bytes generalizing k with
    | nil => exact fun h => absurd rfl h
    | cons byte bytes ih =>
        intro _ hn
        rw [List.length_cons] at hn
        rw [List.zipIdx_cons, List.flatMap_cons]
        cases bytes with
        | nil =>
            have hlast : n ≤ k + 1 := by simp at hn; omega
            simp [hlast]
        | cons byte' bytes =>
            have hmore : ¬ n ≤ k + 1 := by rw [List.length_cons] at hn; omega
            rw [ih (k + 1) (by simp) (by omega)]
            simp [hmore]
  exact congrArg (List.cons (.setAtEnd false)) (key input.length 0 input hne (by simp))

/-- **The end of a transfer** is announced when all is there and not before, for every cut
of the stream and all moments of reading. -/
theorem transfers_announced :
    (∀ c parts ops, script ops = fragmentedTransfer parts → Announced c parts ops) ∧
      ∀ input ops, input ≠ [] → script ops = bytePerByteTransfer input →
        Announced [] (input.map fun byte => [byte]) ops := by
  refine ⟨fun c _ _ h => announced_of_script h c, ?_⟩
  intro input ops hne h
  exact announced_of_script (h.trans (bytePerByteTransfer_eq hne)) []

/-- A reader that reads early, and one that reads on behind the end. -/
theorem transfers_announced_cuts :
    Announced [45] [[45, 97], [10]] [.setAtEnd false, .read 1, .appendToBuffer [45, 97],
        .appendToBuffer [10], .read 2, .setAtEnd true] ∧
      Announced [] ([45, 97].map fun byte => [byte]) [.setAtEnd false, .appendToBuffer [45],
        .appendToBuffer [97], .read 9, .setAtEnd true, .read 9] :=
  ⟨transfers_announced.1 _ _ _ (by decide),
    transfers_announced.2 [45, 97] _ (by decide) (by decide)⟩

end FrameworkTests.HttpMultiPartReaderTest
