import Mathlib.Data.List.Basic
import Mathlib.Data.Int.Notation
import Mathlib.Tactic.Common

/-!
# The buffered random-access device

The base class of a device keeps its open mode, a logical position, the position
it believes the device to be at, and the bytes read ahead but not yet handed out.
Its public `read` and `write` are template methods: they call the virtual `seek`,
`readData` and `writeData` of the derived class and keep the books around them.
The virtual functions may change the base state themselves, so the template
methods run on the state of the derived class and reach the base through
`Virtuals`.

Only a device that is not sequential is modelled, with the open modes `NotOpen`
and `ReadWrite`.  A negative return value is `none`.

## Main definitions

* `IODevice` — the base-class state.
* `IODevice.seek`, `IODevice.open`, `IODevice.setOpenMode` — the base functions.
* `IODevice.Virtuals` — the virtual functions of a derived class.
* `IODevice.Virtuals.read`, `IODevice.Virtuals.write` — the template methods.
-/

namespace FrameworkTests

/-- A byte array. -/
abbrev Bytes := List UInt8

inductive OpenMode
  | notOpen
  | readWrite
  deriving DecidableEq, Repr

inductive Signal
  | readyRead
  | aboutToClose
  deriving DecidableEq, Repr

/-- The state of the base class. -/
structure IODevice where
  openMode : OpenMode
  pos : ℕ
  devicePos : ℕ
  /-- Bytes obtained from the device and not handed out yet. -/
  buffer : Bytes
  deriving DecidableEq, Repr

namespace IODevice

/-- A device as constructed: closed, both positions 0, nothing read ahead. -/
def new : IODevice := ⟨.notOpen, 0, 0, []⟩

def isOpen (d : IODevice) : Bool := decide (d.openMode ≠ .notOpen)

/-- Change the mode; a device that is no longer readable drops its read-ahead. -/
def setOpenMode (mode : OpenMode) (d : IODevice) : IODevice :=
  { d with openMode := mode, buffer := if mode = .notOpen then [] else d.buffer }

/-- Opening resets the logical position and the read-ahead, not `devicePos`. -/
def «open» (mode : OpenMode) (d : IODevice) : IODevice :=
  { d with openMode := mode, pos := 0, buffer := [] }

/-- The base `seek`: both positions move.  What is read ahead survives only a
forward move that stays inside it. -/
def seek (p : ℤ) (d : IODevice) : Bool × IODevice :=
  if d.openMode = .notOpen ∨ p < 0 then (false, d)
  else
    let target := p.toNat
    let ahead :=
      if target < d.pos ∨ d.buffer.length ≤ target - d.pos then []
      else d.buffer.drop (target - d.pos)
    (true, { d with pos := target, devicePos := target, buffer := ahead })

/-- How many bytes one refill of the read-ahead asks the device for. -/
def chunkSize : ℕ := 16384

/-- The virtual functions of a derived class with states `σ`, and where the base
state lies in it. -/
structure Virtuals (σ : Type) where
  base : σ → IODevice
  setBase : IODevice → σ → σ
  seek : ℤ → σ → Bool × σ
  readData : ℕ → σ → Option Bytes × σ
  writeData : Bytes → σ → Option ℕ × σ

namespace Virtuals
variable {σ : Type} (v : Virtuals σ)

/-- Before touching the device: seek to the logical position when the device is
believed to be elsewhere. -/
def reposition (s : σ) : Bool × σ :=
  if (v.base s).pos = (v.base s).devicePos then (true, s) else v.seek (v.base s).pos s

/-- Hand out at most `n` bytes of the read-ahead. -/
def serve (n : ℕ) (s : σ) : Bytes × σ :=
  let b := v.base s
  (b.buffer.take n,
    v.setBase { b with pos := b.pos + (b.buffer.take n).length, buffer := b.buffer.drop n } s)

/-- Ask the device for `rest` more bytes, the read-ahead being used up.  A large
request goes to the caller directly, a small one through a refill of the read-ahead
by a single `readData`. -/
def fetch (rest : ℕ) (s : σ) : Option Bytes × σ :=
  if chunkSize ≤ rest then
    let (got, s₁) := v.readData rest s
    let bytes := got.getD []
    let b := v.base s₁
    (got, v.setBase { b with pos := b.pos + bytes.length,
                             devicePos := b.devicePos + bytes.length } s₁)
  else
    let (got, s₁) := v.readData chunkSize s
    let bytes := got.getD []
    let b := v.base s₁
    let (out, s₂) := v.serve rest
      (v.setBase { b with devicePos := b.devicePos + bytes.length, buffer := bytes } s₁)
    (got.map fun _ => out, s₂)

/-- The public `read`: first the read-ahead, then the device at the logical
position.  An error counts only when nothing was handed out before it. -/
def read (n : ℕ) (s : σ) : Option Bytes × σ :=
  if (v.base s).openMode = .notOpen then (none, s)
  else
    let (ahead, s₁) := v.serve n s
    if ahead.length = n then (some ahead, s₁)
    else
      let (there, s₂) := v.reposition s₁
      let (got, s₃) := if there then v.fetch (n - ahead.length) s₂ else (none, s₂)
      match got with
      | some bytes => (some (ahead ++ bytes), s₃)
      | none => (if ahead = [] then none else some ahead, s₃)

/-- The public `write`: reposition, hand all bytes to `writeData`, and advance
both positions and the read-ahead by what it reports. -/
def write (bytes : Bytes) (s : σ) : Option ℕ × σ :=
  if (v.base s).openMode = .notOpen then (none, s)
  else
    let (there, s₁) := v.reposition s
    if there then
      let (written, s₂) := v.writeData bytes s₁
      let k := written.getD 0
      let b := v.base s₂
      (written, v.setBase { b with pos := b.pos + k, devicePos := b.devicePos + k,
                                   buffer := b.buffer.drop k } s₂)
    else (none, s₁)

end Virtuals
end IODevice
end FrameworkTests
