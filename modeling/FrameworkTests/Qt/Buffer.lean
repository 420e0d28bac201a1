import FrameworkTests.Lib.Cursor
import FrameworkTests.Lib.Lines
import FrameworkTests.Qt.IODevice

/-!
# The in-memory buffer

`Buffer` is the in-memory device: a cursor over bytes with an open mode.  It is
unbuffered, so its own position is the only one.  A closed buffer refuses every
access but keeps its content; content is replaced only while it is closed.

## Main definitions

* `Buffer` — a cursor with an open mode.
* `Buffer.open`, `Buffer.close`, `Buffer.setData`, `Buffer.append` — life cycle and content.
* `Buffer.read`, `Buffer.write`, `Buffer.seek`, `Buffer.reset`, `Buffer.readLine` — access.
* `Buffer.size`, `Buffer.atEnd`, `Buffer.bytesAvailable`, `Buffer.canReadLine` — queries.
-/

namespace FrameworkTests

/-- The line feed. -/
def newline : UInt8 := 10

/-- Content with one position, and the open mode. -/
structure Buffer where
  openMode : OpenMode
  cursor : Cursor UInt8
  deriving DecidableEq

namespace Buffer

/-- A buffer as constructed: closed and empty. -/
def new : Buffer := ⟨.notOpen, .empty⟩

def data (b : Buffer) : Bytes := b.cursor.data
def pos (b : Buffer) : ℕ := b.cursor.pos
def unread (b : Buffer) : Bytes := b.cursor.unread

/-- Opening keeps the content and starts at its beginning. -/
def «open» (mode : OpenMode) (b : Buffer) : Buffer := ⟨mode, b.cursor.rewind⟩

def close (b : Buffer) : Buffer := ⟨.notOpen, b.cursor.rewind⟩

/-- Replacing the content is ignored while the buffer is open. -/
def setData (bytes : Bytes) (b : Buffer) : Buffer :=
  if b.openMode = .notOpen then { b with cursor := .ofList bytes } else b

/-- Grow the content behind the device's back, through the array it lies in. -/
def append (bytes : Bytes) (b : Buffer) : Buffer := { b with cursor := b.cursor.append bytes }

def read (n : ℕ) (b : Buffer) : Option Bytes × Buffer :=
  if b.openMode = .notOpen then (none, b)
  else (some (b.cursor.read n).1, { b with cursor := (b.cursor.read n).2 })

def write (bytes : Bytes) (b : Buffer) : Option ℕ × Buffer :=
  if b.openMode = .notOpen then (none, b)
  else (some bytes.length, { b with cursor := b.cursor.write bytes })

/-- A seek past the end of a writable buffer pads with zero bytes. -/
def seek (p : ℤ) (b : Buffer) : Bool × Buffer :=
  if b.openMode = .notOpen ∨ p < 0 then (false, b)
  else (true, { b with cursor := b.cursor.seek 0 p.toNat })

def reset (b : Buffer) : Bool × Buffer := b.seek 0

/-- Read a line of at most `n - 1` bytes: one byte of the limit is kept for the
terminating zero, and a limit below 2 is refused. -/
def readLine (n : ℕ) (b : Buffer) : Option Bytes × Buffer :=
  if b.openMode = .notOpen ∨ n < 2 ∨ b.unread = [] then (none, b)
  else
    let line := (firstLine newline b.unread).take (n - 1)
    (some line, { b with cursor := (b.cursor.read line.length).2 })

def size (b : Buffer) : ℕ := b.data.length
def bytesAvailable (b : Buffer) : ℕ := b.size - b.pos
def atEnd (b : Buffer) : Bool := decide (b.openMode = .notOpen ∨ b.bytesAvailable = 0)
def canReadLine (b : Buffer) : Bool := decide (b.openMode ≠ .notOpen ∧ newline ∈ b.unread)

@[simp] theorem data_new : new.data = [] := rfl
@[simp] theorem openMode_open (mode : OpenMode) (b : Buffer) : (b.open mode).openMode = mode := rfl
@[simp] theorem data_open (mode : OpenMode) (b : Buffer) : (b.open mode).data = b.data := rfl
@[simp] theorem pos_open (mode : OpenMode) (b : Buffer) : (b.open mode).pos = 0 := rfl
@[simp] theorem unread_open (mode : OpenMode) (b : Buffer) : (b.open mode).unread = b.data := rfl

@[simp] theorem openMode_read (n : ℕ) (b : Buffer) : (b.read n).2.openMode = b.openMode := by
  rw [read]; split <;> rfl

@[simp] theorem openMode_write (bytes : Bytes) (b : Buffer) :
    (b.write bytes).2.openMode = b.openMode := by
  rw [write]; split <;> rfl

@[simp] theorem openMode_seek (p : ℤ) (b : Buffer) : (b.seek p).2.openMode = b.openMode := by
  rw [seek]; split <;> rfl

@[simp] theorem openMode_reset (b : Buffer) : b.reset.2.openMode = b.openMode :=
  openMode_seek 0 b

@[simp] theorem data_read (n : ℕ) (b : Buffer) : (b.read n).2.data = b.data := by
  rw [read]; split <;> rfl

/-- A seek that fails moves nothing. -/
theorem seek_of_failed {p : ℤ} {b : Buffer} (h : (b.seek p).1 = false) : (b.seek p).2 = b := by
  rw [seek] at h ⊢
  split <;> simp_all

theorem length_unread (b : Buffer) : b.unread.length = b.bytesAvailable :=
  b.cursor.length_unread

theorem unread_eq_nil_iff (b : Buffer) : b.unread = [] ↔ b.bytesAvailable = 0 := by
  rw [← length_unread, List.length_eq_zero_iff]

section Open
variable {b : Buffer} (hb : b.openMode = .readWrite)
include hb

theorem read_eq (n : ℕ) :
    b.read n = (some (b.unread.take n), { b with cursor := (b.cursor.read n).2 }) := by
  simp [read, hb, unread]

theorem write_eq (bytes : Bytes) :
    b.write bytes = (some bytes.length, { b with cursor := b.cursor.write bytes }) := by
  simp [write, hb]

/-- An open buffer seeks to every position that is not negative. -/
theorem seek_natCast (p : ℕ) :
    b.seek p = (true, { b with cursor := b.cursor.seek 0 p }) := by
  simp [seek, hb]

theorem reset_eq : b.reset = (true, { b with cursor := b.cursor.rewind }) := by
  have h : b.cursor.seek 0 0 = b.cursor.rewind := by
    simp [Cursor.seek, Cursor.rewind, Cursor.ofList]
  simpa [reset, h] using seek_natCast hb 0

theorem unread_read (n : ℕ) : (b.read n).2.unread = b.unread.drop n := by
  rw [read_eq hb]
  exact b.cursor.unread_read n

theorem atEnd_iff : b.atEnd = true ↔ b.unread = [] := by
  simp [atEnd, hb, unread_eq_nil_iff]

theorem canReadLine_iff : b.canReadLine = true ↔ newline ∈ b.unread := by
  simp [canReadLine, hb]

end Open
end Buffer
end FrameworkTests
