import FrameworkTests.Transport.Basic

/-!
# What the outgoing buffer captures

The outgoing buffer stands at its end in every reachable state, so a write on an
open transport appends.  The template `write` first repositions the ingoing buffer,
which never fails, so no write is dropped.  Everything else leaves the captured
bytes alone: the transport refines the two-field machine `capture`.

## Main definitions

* `capture` — what one operation does to the open flag and the captured bytes.
* `captured ops` — the bytes written while open since the last clearing.
-/

namespace FrameworkTests.HttpMemoryTransport

open Run

/-- A read touches neither the modes nor the outgoing buffer. -/
theorem read_frame {t : HttpMemoryTransport} (h : t.ingoing.openMode = .readWrite) (n : ℕ) :
    (t.read n).2.base.openMode = t.base.openMode ∧
      (t.read n).2.ingoing.openMode = .readWrite ∧ (t.read n).2.outgoing = t.outgoing := by
  cases hopen : t.base.openMode with
  | notOpen =>
      rw [read_of_closed hopen]
      exact ⟨hopen, h, rfl⟩
  | readWrite =>
      by_cases hn : n ≤ t.base.buffer.length
      · rw [read_of_le hopen hn]
        exact ⟨hopen, h, rfl⟩
      · rw [read_of_lt h hopen (by omega)]
        refine ⟨hopen, ?_, rfl⟩
        exact (openMode_repositioned t.drained).trans h

/-- A write keeps the modes; it appends when the transport is open and is refused
otherwise. -/
theorem write_frame {t : HttpMemoryTransport} (ht : t.Live) (data : Bytes) :
    (t.write data).2.base.openMode = t.base.openMode ∧ (t.write data).2.Live ∧
      (t.write data).2.outData = t.outData ++ if t.isOpen then data else [] := by
  cases hopen : t.base.openMode with
  | notOpen =>
      rw [write_of_closed hopen]
      refine ⟨hopen, ht, ?_⟩
      simp [isOpen, IODevice.isOpen, hopen]
  | readWrite =>
      rw [write_eq ht hopen]
      refine ⟨hopen, ⟨?_, ht.outgoing_open, ?_⟩, ?_⟩
      · exact (openMode_repositioned t).trans ht.ingoing_open
      · exact Cursor.unread_write_of_unread_eq_nil ht.outgoing_atEnd data
      · simp only [isOpen, IODevice.isOpen, hopen]
        exact Cursor.data_write_of_unread_eq_nil ht.outgoing_atEnd data

/-- Every operation keeps the two buffers open and the outgoing one at its end. -/
theorem live_step {t : HttpMemoryTransport} (ht : t.Live) (op : Op) : (step op t).2.Live := by
  cases op with
  | read n =>
      obtain ⟨-, hin, hout⟩ := read_frame ht.ingoing_open n
      exact ⟨hin, hout ▸ ht.outgoing_open, hout ▸ ht.outgoing_atEnd⟩
  | write data => exact (write_frame ht data).2.1
  | seek p =>
      refine ⟨?_, ht.outgoing_open, ht.outgoing_atEnd⟩
      exact (Buffer.openMode_seek p _).trans ht.ingoing_open
  | reset =>
      refine ⟨?_, ht.outgoing_open, ht.outgoing_atEnd⟩
      exact (Buffer.openMode_reset _).trans ht.ingoing_open
  | setIncoming data =>
      refine ⟨?_, ht.outgoing_open, ht.outgoing_atEnd⟩
      exact (Buffer.openMode_reset _).trans ((Buffer.openMode_write data _).trans ht.ingoing_open)
  | clearOutgoing => exact ⟨ht.ingoing_open, rfl, rfl⟩
  | close => exact ⟨ht.ingoing_open, ht.outgoing_open, ht.outgoing_atEnd⟩
  | «open» => exact ⟨ht.ingoing_open, ht.outgoing_open, ht.outgoing_atEnd⟩

/-- Every reachable state is live. -/
theorem live_after (ops : List Op) : (after step ops new).Live :=
  invariant (I := Live) (fun _ op ht => live_step ht op) ops live_new

/-- Whether the transport is open, and what has been captured since the last
clearing. -/
def capture : Op → Bool × Bytes → Bool × Bytes
  | .write data, (true, out) => (true, out ++ data)
  | .clearOutgoing, (isOpen, _) => (isOpen, [])
  | .close, (_, out) => (false, out)
  | .open, (_, out) => (true, out)
  | _, c => c

/-- The bytes passed, in order, to the writes made while open since the last
clearing, or since construction. -/
def captured (ops : List Op) : Bytes := (ops.foldl (fun c op => capture op c) (true, [])).2

/-- A live transport and the abstract machine agree. -/
def Captures (t : HttpMemoryTransport) (c : Bool × Bytes) : Prop :=
  t.Live ∧ t.isOpen = c.1 ∧ t.outData = c.2

theorem captures_step {t : HttpMemoryTransport} {c : Bool × Bytes} (op : Op)
    (h : Captures t c) : Captures (step op t).2 (capture op c) := by
  obtain ⟨ht, hopen, hout⟩ := h
  refine ⟨live_step ht op, ?_⟩
  obtain ⟨isOpen', out⟩ := c
  dsimp only at hopen hout
  subst hopen hout
  cases op with
  | read n =>
      obtain ⟨hmode, -, hout⟩ := read_frame ht.ingoing_open n
      exact ⟨isOpen_congr hmode, congrArg Buffer.data hout⟩
  | write data =>
      obtain ⟨hmode, -, hout⟩ := write_frame ht data
      have hopen : (t.write data).2.isOpen = t.isOpen := isOpen_congr hmode
      cases ho : t.isOpen <;> simp [step, capture, hopen, hout, ho]
  | seek p => exact ⟨rfl, rfl⟩
  | reset => exact ⟨rfl, rfl⟩
  | setIncoming data => exact ⟨rfl, rfl⟩
  | clearOutgoing => exact ⟨rfl, rfl⟩
  | close => exact ⟨rfl, rfl⟩
  | «open» => exact ⟨rfl, rfl⟩

/-- **Outgoing capture law.**  After any run the outgoing data is exactly what was
written while open since the last clearing, and a write on the open transport
reports its full length. -/
theorem outData_after (ops : List Op) :
    (after step ops new).outData = captured ops ∧
      ∀ data, (after step ops new).isOpen = true →
        (step (.write data) (after step ops new)).1 = .count (some data.length) := by
  have hlive : (after step ops new).Live := live_after ops
  constructor
  · have hc : Captures (after step ops new) (ops.foldl (fun c op => capture op c) (true, [])) :=
      simulation (fun t c op h => captures_step op h) ops ⟨live_new, rfl, rfl⟩
    exact hc.2.2
  · intro data hopen
    simp only [step, write_eq hlive ((isOpen_iff _).mp hopen)]

end FrameworkTests.HttpMemoryTransport
