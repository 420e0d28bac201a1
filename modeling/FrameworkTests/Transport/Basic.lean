import FrameworkTests.Lib.Run
import FrameworkTests.Qt.Buffer

/-!
# The memory transport

`HttpMemoryTransport` is the device the HTTP tests run over: a request is put into
the ingoing buffer, the client under test reads it through the device and writes
its response, which is captured in the outgoing buffer.  Reads and writes are the
template methods of the base class over the virtual functions below.

Every emission is recorded with the open mode its listeners find.  `close` takes
what the listeners of `aboutToClose` do as a function; they run inside it.

## Main definitions

* `HttpMemoryTransport` and its member functions, under their own names.
* `HttpMemoryTransport.read`, `HttpMemoryTransport.write` — the public access of
  the base class.
* `HttpMemoryTransport.Op`, `HttpMemoryTransport.step` — the public operations as
  one step function.
-/

namespace FrameworkTests

/-- The transport: base-class state, the two buffers, and what was emitted. -/
structure HttpMemoryTransport where
  base : IODevice
  /-- Transport to client. -/
  ingoing : Buffer
  /-- Client to transport. -/
  outgoing : Buffer
  /-- Each emission with the open mode at that moment. -/
  emitted : List (Signal × OpenMode)
  deriving DecidableEq

namespace HttpMemoryTransport

/-- The constructor: both buffers and the device itself are opened. -/
def new : HttpMemoryTransport where
  base := IODevice.new.setOpenMode .readWrite
  ingoing := Buffer.new.open .readWrite
  outgoing := Buffer.new.open .readWrite
  emitted := []

def inData (t : HttpMemoryTransport) : Bytes := t.ingoing.data
def outData (t : HttpMemoryTransport) : Bytes := t.outgoing.data

def isOpen (t : HttpMemoryTransport) : Bool := t.base.isOpen

/-- Emit a signal to listeners that do not touch the transport. -/
def emit (signal : Signal) (t : HttpMemoryTransport) : HttpMemoryTransport :=
  { t with emitted := t.emitted ++ [(signal, t.base.openMode)] }

def clearOutgoing (t : HttpMemoryTransport) : HttpMemoryTransport :=
  { t with outgoing := ((t.outgoing.close).setData []).open .readWrite }

def setIncoming (data : Bytes) (t : HttpMemoryTransport) : HttpMemoryTransport :=
  emit .readyRead { t with ingoing := (t.ingoing.write data).2.reset.2 }

/-- The mode changes first, then the listeners of `aboutToClose` run. -/
def close (listener : HttpMemoryTransport → HttpMemoryTransport) (t : HttpMemoryTransport) :
    HttpMemoryTransport :=
  listener (emit .aboutToClose { t with base := t.base.setOpenMode .notOpen })

def pos (t : HttpMemoryTransport) : ℕ := t.ingoing.pos
def size (t : HttpMemoryTransport) : ℕ := t.ingoing.size

def seek (p : ℤ) (t : HttpMemoryTransport) : Bool × HttpMemoryTransport :=
  ((t.ingoing.seek p).1, { t with ingoing := (t.ingoing.seek p).2 })

def atEnd (t : HttpMemoryTransport) : Bool := t.ingoing.atEnd
def bytesAvailable (t : HttpMemoryTransport) : ℕ := t.ingoing.bytesAvailable

def reset (t : HttpMemoryTransport) : Bool × HttpMemoryTransport :=
  (t.ingoing.reset.1, { t with ingoing := t.ingoing.reset.2 })

def canReadLine (t : HttpMemoryTransport) : Bool := t.ingoing.canReadLine

def readData (maxlen : ℕ) (t : HttpMemoryTransport) : Option Bytes × HttpMemoryTransport :=
  ((t.ingoing.read maxlen).1, { t with ingoing := (t.ingoing.read maxlen).2 })

def readLineData (maxlen : ℕ) (t : HttpMemoryTransport) : Option Bytes × HttpMemoryTransport :=
  ((t.ingoing.readLine maxlen).1, { t with ingoing := (t.ingoing.readLine maxlen).2 })

/-- The base position is sent back to 0 before the bytes go to the outgoing buffer. -/
def writeData (data : Bytes) (t : HttpMemoryTransport) : Option ℕ × HttpMemoryTransport :=
  let t := { t with base := (t.base.seek 0).2 }
  ((t.outgoing.write data).1, { t with outgoing := (t.outgoing.write data).2 })

/-- The overrides the base class calls. -/
def virtuals : IODevice.Virtuals HttpMemoryTransport where
  base := base
  setBase := fun b t => { t with base := b }
  seek := seek
  readData := readData
  writeData := writeData

/-- The public `read` of the base class. -/
def read (n : ℕ) (t : HttpMemoryTransport) : Option Bytes × HttpMemoryTransport :=
  virtuals.read n t

/-- The public `write` of the base class. -/
def write (data : Bytes) (t : HttpMemoryTransport) : Option ℕ × HttpMemoryTransport :=
  virtuals.write data t

/-- `open` is not overridden. -/
def «open» (mode : OpenMode) (t : HttpMemoryTransport) : HttpMemoryTransport :=
  { t with base := t.base.open mode }

/-! ## The public operations as one step function -/

inductive Op
  | read (n : ℕ)
  | write (data : Bytes)
  | seek (p : ℤ)
  | reset
  | setIncoming (data : Bytes)
  | clearOutgoing
  | close
  | «open»
  deriving DecidableEq, Repr

/-- What an operation returns to its caller. -/
inductive Report
  | bytes (got : Option Bytes)
  | count (written : Option ℕ)
  | flag (ok : Bool)
  | done
  deriving DecidableEq, Repr

def step : Op → HttpMemoryTransport → Report × HttpMemoryTransport
  | .read n, t => (.bytes (t.read n).1, (t.read n).2)
  | .write data, t => (.count (t.write data).1, (t.write data).2)
  | .seek p, t => (.flag (t.seek p).1, (t.seek p).2)
  | .reset, t => (.flag t.reset.1, t.reset.2)
  | .setIncoming data, t => (.done, t.setIncoming data)
  | .clearOutgoing, t => (.done, t.clearOutgoing)
  | .close, t => (.done, t.close id)
  | .open, t => (.done, t.open .readWrite)

/-! ## What every operation keeps

The two buffers are opened by the constructor and no operation leaves one closed;
the outgoing buffer stands at its end, so that every write appends. -/

/-- The invariant of every reachable state. -/
structure Live (t : HttpMemoryTransport) : Prop where
  ingoing_open : t.ingoing.openMode = .readWrite
  outgoing_open : t.outgoing.openMode = .readWrite
  outgoing_atEnd : t.outgoing.unread = []

theorem live_new : Live new := ⟨rfl, rfl, rfl⟩

@[simp] theorem base_emit (s : Signal) (t : HttpMemoryTransport) : (t.emit s).base = t.base := rfl
@[simp] theorem ingoing_emit (s : Signal) (t : HttpMemoryTransport) :
    (t.emit s).ingoing = t.ingoing := rfl
@[simp] theorem outgoing_emit (s : Signal) (t : HttpMemoryTransport) :
    (t.emit s).outgoing = t.outgoing := rfl

/-- Clearing closes, empties and reopens the outgoing buffer. -/
@[simp] theorem outgoing_clearOutgoing (t : HttpMemoryTransport) :
    t.clearOutgoing.outgoing = ⟨.readWrite, .empty⟩ := rfl

@[simp] theorem outData_clearOutgoing (t : HttpMemoryTransport) : t.clearOutgoing.outData = [] :=
  rfl

theorem isOpen_congr {t t' : HttpMemoryTransport} (h : t'.base.openMode = t.base.openMode) :
    t'.isOpen = t.isOpen := by
  simp only [isOpen, IODevice.isOpen, h]

/-- Open means `ReadWrite`: there is no other open mode. -/
theorem isOpen_iff (t : HttpMemoryTransport) :
    t.isOpen = true ↔ t.base.openMode = .readWrite := by
  cases h : t.base.openMode <;> simp [isOpen, IODevice.isOpen, h]

/-- The ingoing buffer after the virtual `seek` that precedes device access. -/
def repositioned (t : HttpMemoryTransport) : Buffer :=
  if t.base.pos = t.base.devicePos then t.ingoing
  else { t.ingoing with cursor := t.ingoing.cursor.seek 0 t.base.pos }

/-- The ingoing buffer is open, so repositioning never fails. -/
theorem reposition_eq {t : HttpMemoryTransport} (h : t.ingoing.openMode = .readWrite) :
    virtuals.reposition t = (true, { t with ingoing := t.repositioned }) := by
  rw [IODevice.Virtuals.reposition, repositioned]
  change (if t.base.pos = t.base.devicePos then _ else t.seek t.base.pos) = _
  split
  · rfl
  · simp [seek, Buffer.seek_natCast h]

/-- **The effect of a write on an open transport.**  The bytes are appended to the
outgoing buffer, the ingoing buffer is repositioned, and both base positions end
at the number of bytes written. -/
theorem write_eq {t : HttpMemoryTransport} (ht : t.Live) (hopen : t.base.openMode = .readWrite)
    (data : Bytes) :
    t.write data = (some data.length,
      { t with
        base :=
          { t.base with
            pos := data.length
            devicePos := data.length
            buffer := (if 0 < t.base.pos then [] else t.base.buffer).drop data.length }
        ingoing := t.repositioned
        outgoing := { t.outgoing with cursor := t.outgoing.cursor.write data } }) := by
  have hahead : (if (0 : ℤ).toNat < t.base.pos ∨
        t.base.buffer.length ≤ (0 : ℤ).toNat - t.base.pos then []
      else t.base.buffer.drop ((0 : ℤ).toNat - t.base.pos)) =
      if 0 < t.base.pos then [] else t.base.buffer := by
    by_cases hp : 0 < t.base.pos
    · simp [hp]
    · cases hb : t.base.buffer <;> simp [hp]
  have hbase : (virtuals.base t).openMode ≠ .notOpen := by
    change t.base.openMode ≠ _
    simp [hopen]
  rw [write, IODevice.Virtuals.write, if_neg hbase, reposition_eq ht.ingoing_open]
  simp only [virtuals, writeData, IODevice.seek, hopen, Buffer.write_eq ht.outgoing_open, hahead]
  simp

/-- A closed transport refuses every write. -/
theorem write_of_closed {t : HttpMemoryTransport} (h : t.base.openMode = .notOpen)
    (data : Bytes) : t.write data = (none, t) := by
  have hbase : (virtuals.base t).openMode = .notOpen := h
  rw [write, IODevice.Virtuals.write, if_pos hbase]

theorem read_of_closed {t : HttpMemoryTransport} (h : t.base.openMode = .notOpen)
    (n : ℕ) : t.read n = (none, t) := by
  have hbase : (virtuals.base t).openMode = .notOpen := h
  rw [read, IODevice.Virtuals.read, if_pos hbase]

/-- A read that the read-ahead satisfies does not touch the device. -/
theorem read_of_le {t : HttpMemoryTransport} (hopen : t.base.openMode = .readWrite) {n : ℕ}
    (hn : n ≤ t.base.buffer.length) :
    t.read n = (some (t.base.buffer.take n),
      { t with base := { t.base with pos := t.base.pos + n, buffer := t.base.buffer.drop n } }) := by
  have hbase : (virtuals.base t).openMode ≠ .notOpen := by
    change t.base.openMode ≠ _
    simp [hopen]
  rw [read, IODevice.Virtuals.read, if_neg hbase]
  simp [virtuals, IODevice.Virtuals.serve, List.length_take_of_le hn]

/-- Fetching hands out the next unread bytes and keeps what it got beyond them. -/
theorem fetch_eq {t : HttpMemoryTransport} (h : t.ingoing.openMode = .readWrite)
    (hbuf : t.base.buffer = []) (rest : ℕ) :
    virtuals.fetch rest t = (some (t.ingoing.unread.take rest),
      { t with
        base :=
          { t.base with
            pos := t.base.pos + (t.ingoing.unread.take rest).length
            devicePos :=
              t.base.devicePos + (t.ingoing.unread.take (max rest IODevice.chunkSize)).length
            buffer := (t.ingoing.unread.take (max rest IODevice.chunkSize)).drop rest }
        ingoing :=
          { t.ingoing with
            cursor := (t.ingoing.cursor.read (max rest IODevice.chunkSize)).2 } }) := by
  rw [IODevice.Virtuals.fetch]
  by_cases hc : IODevice.chunkSize ≤ rest
  · rw [if_pos hc, Nat.max_eq_left hc]
    have hdrop : (t.ingoing.unread.take rest).drop rest = [] :=
      List.drop_eq_nil_of_le (List.length_take_le _ _)
    simp only [virtuals, readData, Buffer.read_eq h, Option.getD_some, hdrop, hbuf]
  · rw [if_neg hc, Nat.max_eq_right (by omega)]
    have htake : (t.ingoing.unread.take IODevice.chunkSize).take rest =
        t.ingoing.unread.take rest := by
      rw [List.take_take, Nat.min_eq_left (by omega)]
    simp only [virtuals, readData, Buffer.read_eq h, Option.getD_some, IODevice.Virtuals.serve,
      Option.map_some, htake]

/-- The state in which a read that needs the device repositions it: the read-ahead
is handed out. -/
def drained (t : HttpMemoryTransport) : HttpMemoryTransport :=
  { t with base := { t.base with pos := t.base.pos + t.base.buffer.length, buffer := [] } }

/-- The ingoing buffer stays open when repositioned. -/
@[simp] theorem openMode_repositioned (t : HttpMemoryTransport) :
    t.repositioned.openMode = t.ingoing.openMode := by
  rw [repositioned]; split <;> rfl

/-- What a read of `n` bytes asks the device for, the read-ahead being used up. -/
def request (n : ℕ) (t : HttpMemoryTransport) : ℕ :=
  max (n - t.base.buffer.length) IODevice.chunkSize

/-- **The effect of a read that needs the device**: the read-ahead, then what the
repositioned ingoing buffer still holds. -/
theorem read_of_lt {t : HttpMemoryTransport} (h : t.ingoing.openMode = .readWrite)
    (hopen : t.base.openMode = .readWrite) {n : ℕ} (hn : t.base.buffer.length < n) :
    let ahead := t.base.buffer
    let source := t.drained.repositioned
    t.read n = (some (ahead ++ source.unread.take (n - ahead.length)),
      { t with
        base :=
          { t.base with
            pos := t.base.pos + ahead.length + (source.unread.take (n - ahead.length)).length
            devicePos := t.base.devicePos + (source.unread.take (t.request n)).length
            buffer := (source.unread.take (t.request n)).drop (n - ahead.length) }
        ingoing := { source with cursor := (source.cursor.read (t.request n)).2 } }) := by
  intro ahead source
  have hbase : (virtuals.base t).openMode ≠ .notOpen := by
    change t.base.openMode ≠ _
    simp [hopen]
  have htake : t.base.buffer.take n = t.base.buffer := List.take_of_length_le (by omega)
  have hserve : virtuals.serve n t = (t.base.buffer, t.drained) := by
    simp [IODevice.Virtuals.serve, virtuals, drained, htake,
      List.drop_eq_nil_of_le (Nat.le_of_lt hn)]
  have hrep : virtuals.reposition t.drained = (true, { t.drained with ingoing := source }) :=
    reposition_eq h
  have hmode : source.openMode = .readWrite := (openMode_repositioned t.drained).trans h
  have hfetch := fetch_eq (t := { t.drained with ingoing := source }) hmode rfl (n - ahead.length)
  rw [read, IODevice.Virtuals.read, if_neg hbase, hserve]
  simp only [Nat.ne_of_lt hn, if_false, hrep, if_true]
  rw [hfetch]
  rfl

end HttpMemoryTransport
end FrameworkTests
