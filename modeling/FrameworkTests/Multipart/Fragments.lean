import FrameworkTests.Multipart.TestBuffer

/-!
# Fragmentation independence

The multipart tests cut one stream into different fragments and expect the same
outcome.  That is only a test of the reader if the fixture itself hands out the same
bytes for every cut and every moment of reading.  `fragmentation_independent` says
that it does: the fixture is a `Source` whose every step keeps the stream, so the
laws of sources hold for it, and two of its runs over one stream agree.

## Main definitions

* `run`, `delivered`, `fragments` — the state after a run, what it handed out, what
  it put in.
* `Faithful` — what a single run promises.
* `Agree` — what two runs over the same stream promise each other.
* `bytePerByteTransfer` — the finest cut.
-/

namespace FrameworkTests.HttpMultiPartReaderTest

open Run

/-- The fixture as a source: what is unread is owed. -/
def stream : Source TestBuffer Op UInt8 where
  step := step
  read n := .read n
  supply := Op.fragment
  owed t := t.buffer.unread
  Valid := TestBuffer.Ready
  supply_read _ := rfl
  valid_step op _ ht := ready_step op ht
  read_out n t ht := by rw [step, read_eq n ht]
  read_owed n t ht := by
    rw [step, read_eq n ht]
    exact Buffer.unread_read ht.openMode n

/-- Every step of the fixture keeps the stream. -/
theorem keeps_step (op : Op) {t : TestBuffer} (ht : t.Ready) : stream.Keeps op t :=
  unread_step op ht

/-- The buffer made over `c`, after a run. -/
def run (c : Bytes) (ops : List Op) : TestBuffer := after step ops (createBuffer c)

/-- All bytes the reader received during a run, in order. -/
def delivered (c : Bytes) (ops : List Op) : Bytes :=
  ((history step ops (createBuffer c)).map Prod.snd).flatten

/-- All bytes appended during a run, in order. -/
def fragments (ops : List Op) : Bytes := (ops.map Op.fragment).flatten

/-- How often a run appends. -/
def appends (ops : List Op) : ℕ := ops.countP (· matches .appendToBuffer _)

/-- Asked for at least one byte, the buffer hands out none. -/
def Exhausted (t : TestBuffer) : Prop := ∃ n, 0 < n ∧ (t.read n).1 = []

/-- What a run over `c` promises to the reader. -/
structure Faithful (c : Bytes) (ops : List Op) : Prop where
  content : (run c ops).buffer.data = c ++ fragments ops
  keeps_pos : ∀ d, (appendToBuffer d (run c ops)).pos = (run c ops).pos
  delivered_prefix : delivered c ops <+: c ++ fragments ops
  complete : Exhausted (run c ops) → delivered c ops = c ++ fragments ops
  /-- One read that asks for enough exhausts the buffer. -/
  read_all : ∀ n, (run c ops).buffer.bytesAvailable ≤ n →
    Exhausted (run c (ops ++ [.read n])) ∧ delivered c (ops ++ [.read n]) = c ++ fragments ops
  /-- Over the whole run nothing is heard but `readyRead`, as often as is appended. -/
  heard : (run c ops).emitted = List.replicate (appends ops) .readyRead
  heard_once : ∀ d, (appendToBuffer d (run c ops)).emitted = (run c ops).emitted ++ [.readyRead]

/-- Neither run hands out anything that the other contradicts, and read to
exhaustion both hand out the same. -/
structure Agree (c : Bytes) (ops : List Op) (c' : Bytes) (ops' : List Op) : Prop where
  comparable : delivered c ops <+: delivered c' ops' ∨ delivered c' ops' <+: delivered c ops
  equal : Exhausted (run c ops) → Exhausted (run c' ops') → delivered c ops = delivered c' ops'

theorem ready_run (c : Bytes) (ops : List Op) : (run c ops).Ready :=
  Source.valid_after (S := stream) ops (ready_createBuffer c)

@[simp] theorem fragments_cons (op : Op) (ops : List Op) :
    fragments (op :: ops) = op.fragment ++ fragments ops := by
  simp [fragments]

theorem fragments_append (ops ops' : List Op) :
    fragments (ops ++ ops') = fragments ops ++ fragments ops' := by
  simp [fragments]

theorem data_after (ops : List Op) {t : TestBuffer} (ht : t.Ready) :
    (after step ops t).buffer.data = t.buffer.data ++ fragments ops := by
  induction ops generalizing t with
  | nil => simp [fragments]
  | cons op ops ih =>
      rw [after_cons, ih (ready_step op ht), data_step op ht, fragments_cons, List.append_assoc]

theorem emitted_after (ops : List Op) {t : TestBuffer} (ht : t.Ready) :
    (after step ops t).emitted = t.emitted ++ (ops.map Op.heard).flatten := by
  induction ops generalizing t with
  | nil => simp
  | cons op ops ih =>
      rw [after_cons, ih (ready_step op ht), emitted_step op ht, List.map_cons, List.flatten_cons,
        List.append_assoc]

/-- Listeners hear one `readyRead` for each append. -/
theorem flatten_heard (ops : List Op) :
    (ops.map Op.heard).flatten = List.replicate (appends ops) .readyRead := by
  induction ops with
  | nil => rfl
  | cons op ops ih =>
      rw [List.map_cons, List.flatten_cons, ih]
      cases op <;> simp [appends, Op.heard, List.replicate_succ]

/-- The stream law, at every run of the fixture. -/
theorem law_run (c : Bytes) (ops : List Op) : stream.Law ops (createBuffer c) := by
  have hready := ready_createBuffer c
  exact Source.law_of_along hready (Source.along_keeps (fun op _ _ ht => keeps_step op ht) hready)

theorem exhausted_iff {t : TestBuffer} (ht : t.Ready) : Exhausted t ↔ t.buffer.unread = [] := by
  constructor
  · intro h
    obtain ⟨n, hn, hread⟩ := h
    rw [read_eq n ht, List.take_eq_nil_iff] at hread
    exact hread.resolve_left (Nat.ne_of_gt hn)
  · intro h
    refine ⟨1, Nat.one_pos, ?_⟩
    rw [read_eq 1 ht, h, List.take_nil]

theorem delivered_of_exhausted {c : Bytes} {ops : List Op} (h : Exhausted (run c ops)) :
    delivered c ops = c ++ fragments ops := by
  obtain ⟨n, hn, hread⟩ := h
  exact (law_run c ops).complete ⟨n, hn⟩ hread

theorem exhausted_read {c : Bytes} {ops : List Op} {n : ℕ}
    (h : (run c ops).buffer.bytesAvailable ≤ n) : Exhausted (run c (ops ++ [.read n])) := by
  have hready := ready_run c ops
  have hnext : run c (ops ++ [.read n]) = ((run c ops).read n).2 := by
    rw [run, after_append]
    rfl
  rw [exhausted_iff (ready_run c _), hnext, read_eq n hready]
  rw [← Buffer.length_unread] at h
  calc ((run c ops).buffer.read n).2.unread
      = (run c ops).buffer.unread.drop n := Buffer.unread_read hready.openMode n
    _ = [] := List.drop_eq_nil_of_le h

/-- Every run of the fixture keeps its promises. -/
theorem faithful (c : Bytes) (ops : List Op) : Faithful c ops := by
  have hready := ready_run c ops
  refine ⟨data_after ops (ready_createBuffer c), ?_, (law_run c ops).safe, delivered_of_exhausted,
    ?_, ?_, ?_⟩
  · intro d
    rw [appendToBuffer_eq d hready]
    rfl
  · intro n hn
    have hex := exhausted_read hn
    refine ⟨hex, ?_⟩
    rw [delivered_of_exhausted hex, fragments_append]
    simp [fragments, Op.fragment]
  · rw [run, emitted_after ops (ready_createBuffer c), flatten_heard]
    rfl
  · intro d
    rw [appendToBuffer_eq d hready]

/-- Two runs over one stream agree. -/
theorem agree {c c' : Bytes} {ops ops' : List Op}
    (h : c ++ fragments ops = c' ++ fragments ops') : Agree c ops c' ops' where
  comparable := (law_run c ops).comparable (law_run c' ops') h
  equal := by
    intro hex hex'
    rw [delivered_of_exhausted hex, delivered_of_exhausted hex', h]

/-- **The fixture delivers the stream, whatever the fragments and whenever they are
read.** -/
theorem fragmentation_independent :
    (∀ c ops, Faithful c ops) ∧
      ∀ c ops c' ops', c ++ fragments ops = c' ++ fragments ops' → Agree c ops c' ops' :=
  ⟨faithful, fun _ _ _ _ h => agree h⟩

/-- Two cuts of `--a`, read at different moments. -/
theorem fragmentation_independent_cuts :
    [45, 45] ++ fragments [.read 1, .appendToBuffer [97], .read 9] =
        [] ++ fragments [.appendToBuffer [45], .appendToBuffer [45, 97], .read 2, .read 2] ∧
      Agree [45, 45] [.read 1, .appendToBuffer [97], .read 9]
        [] [.appendToBuffer [45], .appendToBuffer [45, 97], .read 2, .read 2] :=
  ⟨by decide, fragmentation_independent.2 _ _ _ _ (by decide)⟩

/-! ### The finest cut

`happyPath` puts the whole input into the buffer at once, `bytePerByteTransfer`
appends it byte by byte.  The reader runs in between in either test. -/

/-- What the test does to a run's buffer, the reader's reads left out. -/
def script (ops : List Op) : List Op := ops.filter fun op => !(op matches .read _)

/-- The loop of the test: the end is announced with the last byte. -/
def bytePerByteTransfer (input : Bytes) : List Op :=
  .setAtEnd false :: input.zipIdx.flatMap fun (byte, i) =>
    .appendToBuffer [byte] :: if input.length ≤ i + 1 then [.setAtEnd true] else []

theorem fragments_script (ops : List Op) : fragments (script ops) = fragments ops := by
  induction ops with
  | nil => rfl
  | cons op ops ih => cases op <;> simp_all [script, Op.fragment]

end FrameworkTests.HttpMultiPartReaderTest
