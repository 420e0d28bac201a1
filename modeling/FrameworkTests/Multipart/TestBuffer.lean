import FrameworkTests.Lib.Stream
import FrameworkTests.Qt.Buffer

/-!
# The streaming fixture

The multipart tests feed the reader under test from a `TestBuffer`, an in-memory
buffer that is at its end when the test says so.  Later parts of the stream arrive
through `appendToBuffer`: with signals blocked the buffer is closed, its content
grown, the buffer reopened at position 0 and moved back to where it was, and only
then is `readyRead` emitted.

The reader runs inside that emission or later, in both cases after everything else
in `appendToBuffer`, so its reads are operations of their own here.

## Main definitions

* `TestBuffer` and its member functions.
* `HttpMultiPartReaderTest.createBuffer`, `HttpMultiPartReaderTest.appendToBuffer`.
* `HttpMultiPartReaderTest.Op`, `HttpMultiPartReaderTest.step` — feeding and reading
  as one step function.
* `HttpMultiPartReaderTest.appendToBuffer_eq` — all that an append changes.
-/

namespace FrameworkTests

/-- An in-memory buffer with an end of its own, and what its listeners were told. -/
structure TestBuffer where
  buffer : Buffer
  isAtEnd : Bool
  signalsBlocked : Bool
  emitted : List Signal
  deriving DecidableEq

namespace TestBuffer

/-- A buffer as constructed: closed, empty and at its end. -/
def new : TestBuffer := ⟨.new, true, false, []⟩

def atEnd (t : TestBuffer) : Bool := t.isAtEnd
def pos (t : TestBuffer) : ℕ := t.buffer.pos

def blockSignals (block : Bool) (t : TestBuffer) : TestBuffer := { t with signalsBlocked := block }

/-- Listeners hear nothing while signals are blocked. -/
def emit (signal : Signal) (t : TestBuffer) : TestBuffer :=
  if t.signalsBlocked then t else { t with emitted := t.emitted ++ [signal] }

def setData (data : Bytes) (t : TestBuffer) : TestBuffer :=
  { t with buffer := t.buffer.setData data }

def «open» (mode : OpenMode) (t : TestBuffer) : TestBuffer :=
  { t with buffer := t.buffer.open mode }

/-- An open buffer announces that it closes. -/
def close (t : TestBuffer) : TestBuffer :=
  if t.buffer.openMode = .notOpen then t
  else
    let t := t.emit .aboutToClose
    { t with buffer := t.buffer.close }

/-- Append to the array below the device. -/
def append (data : Bytes) (t : TestBuffer) : TestBuffer :=
  { t with buffer := t.buffer.append data }

def seek (p : ℤ) (t : TestBuffer) : Bool × TestBuffer :=
  ((t.buffer.seek p).1, { t with buffer := (t.buffer.seek p).2 })

/-- A read that fails hands out no bytes. -/
def read (maxSize : ℕ) (t : TestBuffer) : Bytes × TestBuffer :=
  ((t.buffer.read maxSize).1.getD [], { t with buffer := (t.buffer.read maxSize).2 })

/-- Open, with its listeners connected. -/
structure Ready (t : TestBuffer) : Prop where
  openMode : t.buffer.openMode = .readWrite
  unblocked : t.signalsBlocked = false

end TestBuffer

namespace HttpMultiPartReaderTest

def createBuffer (data : Bytes) : TestBuffer :=
  let buffer := TestBuffer.new
  let buffer := buffer.setData data
  buffer.open .readWrite

def appendToBuffer (data : Bytes) (buffer : TestBuffer) : TestBuffer :=
  let buffer := buffer.blockSignals true
  let pos := buffer.pos
  let buffer := buffer.close
  let buffer := buffer.append data
  let buffer := buffer.open .readWrite
  let buffer := (buffer.seek pos).2
  let buffer := buffer.blockSignals false
  buffer.emit .readyRead

/-- What a test and the reader under test do to the buffer. -/
inductive Op
  | appendToBuffer (data : Bytes)
  | read (maxSize : ℕ)
  | setAtEnd (isAtEnd : Bool)
  deriving DecidableEq, Repr

/-- One operation, with the bytes it hands to the reader. -/
def step : Op → TestBuffer → Bytes × TestBuffer
  | .appendToBuffer data, t => ([], appendToBuffer data t)
  | .read maxSize, t => t.read maxSize
  | .setAtEnd isAtEnd, t => ([], { t with isAtEnd })

/-- What an operation adds to the stream. -/
def Op.fragment : Op → Bytes
  | .appendToBuffer data => data
  | .read _ => []
  | .setAtEnd _ => []

/-- What an operation makes listeners hear. -/
def Op.heard : Op → List Signal
  | .appendToBuffer _ => [.readyRead]
  | .read _ => []
  | .setAtEnd _ => []

theorem ready_createBuffer (c : Bytes) : (createBuffer c).Ready := ⟨rfl, rfl⟩

/-- **An append grows the content and is heard once; nothing else about the buffer
changes.**  The announcement of the close falls into the blocked stretch, and the
seek undoes the rewind of the reopening. -/
theorem appendToBuffer_eq (data : Bytes) {t : TestBuffer} (ht : t.Ready) :
    appendToBuffer data t =
      { t with buffer := t.buffer.append data, emitted := t.emitted ++ [.readyRead] } := by
  have hclose : (t.blockSignals true).close =
      { t with buffer := t.buffer.close, signalsBlocked := true } := by
    simp [TestBuffer.close, TestBuffer.blockSignals, TestBuffer.emit, ht.openMode]
  have hback : (((t.buffer.close.append data).open .readWrite).seek t.pos).2 =
      t.buffer.append data := by
    rw [Buffer.seek_natCast rfl]
    refine congrArg₂ Buffer.mk ht.openMode.symm ?_
    exact Cursor.seek_rewind 0 (t.buffer.cursor.append data)
  have hpos : (t.blockSignals true).pos = t.pos := rfl
  simp only [appendToBuffer, hclose, hpos]
  simp only [TestBuffer.append, TestBuffer.open, TestBuffer.seek, hback]
  simp [TestBuffer.blockSignals, TestBuffer.emit, ht.unblocked]

theorem read_eq (n : ℕ) {t : TestBuffer} (ht : t.Ready) :
    t.read n = (t.buffer.unread.take n, { t with buffer := (t.buffer.read n).2 }) := by
  rw [TestBuffer.read, Buffer.read_eq ht.openMode]
  rfl

section Step
variable (op : Op) {t : TestBuffer} (ht : t.Ready)
include ht

theorem ready_step : (step op t).2.Ready := by
  cases op with
  | appendToBuffer data =>
      rw [step, appendToBuffer_eq data ht]
      exact ⟨ht.openMode, ht.unblocked⟩
  | read n =>
      rw [step, read_eq n ht]
      exact ⟨by rw [Buffer.openMode_read, ht.openMode], ht.unblocked⟩
  | setAtEnd b => exact ⟨ht.openMode, ht.unblocked⟩

theorem data_step : (step op t).2.buffer.data = t.buffer.data ++ op.fragment := by
  cases op with
  | appendToBuffer data =>
      rw [step, appendToBuffer_eq data ht]
      rfl
  | read n =>
      rw [step, read_eq n ht, Op.fragment, List.append_nil]
      exact Buffer.data_read n t.buffer
  | setAtEnd b => simp [step, Op.fragment]

theorem emitted_step : (step op t).2.emitted = t.emitted ++ op.heard := by
  cases op with
  | appendToBuffer data => rw [step, appendToBuffer_eq data ht, Op.heard]
  | read n => rw [step, read_eq n ht, Op.heard, List.append_nil]
  | setAtEnd b => simp [step, Op.heard]

theorem isAtEnd_step (h : ∀ b, op ≠ .setAtEnd b) : (step op t).2.atEnd = t.atEnd := by
  cases op with
  | appendToBuffer data =>
      rw [step, appendToBuffer_eq data ht]
      rfl
  | read n => rfl
  | setAtEnd b => exact absurd rfl (h b)

/-- What a step hands out and what it leaves unread are together what was unread
and what it adds. -/
theorem unread_step : (step op t).1 ++ (step op t).2.buffer.unread =
    t.buffer.unread ++ op.fragment := by
  cases op with
  | appendToBuffer data =>
      rw [step, appendToBuffer_eq data ht]
      exact Cursor.unread_append data t.buffer.cursor
  | read n =>
      rw [step, read_eq n ht, Op.fragment, List.append_nil]
      calc t.buffer.unread.take n ++ (t.buffer.read n).2.unread
          = t.buffer.unread.take n ++ t.buffer.unread.drop n := by
            rw [Buffer.unread_read ht.openMode]
        _ = t.buffer.unread := List.take_append_drop n t.buffer.unread
  | setAtEnd b => simp [step, Op.fragment]

end Step
end HttpMultiPartReaderTest
end FrameworkTests
