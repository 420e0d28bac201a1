import FrameworkTests.Transport.Outgoing

/-!
# Who changes the request bytes

The ingoing buffer is opened writable, so a seek past its end grows it.  Such a seek
comes from the public `seek`, or from any read or write whose base position and
`devicePos` differ.  `seekTarget` names the position an operation asks the ingoing
buffer to seek to; `inData_unchanged_iff`: the request bytes stay what they were
through a run without `setIncoming` exactly when no step seeks past the end.

## Main definitions

* `Op.feeds` — the operation that is meant to change the request bytes.
* `seekTarget`, `StaysInside` — where an operation seeks, and that it is inside.
-/

namespace FrameworkTests.HttpMemoryTransport

open Run

def Op.feeds : Op → Bool
  | .setIncoming _ => true
  | _ => false

/-- Where an operation asks the ingoing buffer to seek to, if it does.  A read that
needs the device asks for the base position behind the read-ahead. -/
def seekTarget : Op → HttpMemoryTransport → Option ℕ
  | .read n, t =>
      if t.isOpen ∧ t.base.buffer.length < n ∧
        t.base.pos + t.base.buffer.length ≠ t.base.devicePos then
        some (t.base.pos + t.base.buffer.length)
      else none
  | .write _, t =>
      if t.isOpen ∧ t.base.pos ≠ t.base.devicePos then some t.base.pos else none
  | .seek p, _ => if 0 ≤ p then some p.toNat else none
  | .reset, _ => some 0
  | _, _ => none

/-- The operation does not seek past the end of the ingoing buffer. -/
def StaysInside (op : Op) (t : HttpMemoryTransport) : Prop :=
  ∀ p ∈ seekTarget op t, p ≤ t.size

instance (op : Op) (t : HttpMemoryTransport) : Decidable (StaysInside op t) :=
  inferInstanceAs (Decidable (∀ p ∈ seekTarget op t, p ≤ t.size))

/-- The content of the ingoing buffer after an optional seek. -/
def soughtData (target : Option ℕ) (t : HttpMemoryTransport) : Bytes :=
  match target with
  | none => t.inData
  | some p => (t.ingoing.cursor.seek 0 p).data

theorem soughtData_eq_iff (target : Option ℕ) (t : HttpMemoryTransport) :
    soughtData target t = t.inData ↔ ∀ p ∈ target, p ≤ t.size := by
  cases target with
  | none => simp [soughtData]
  | some p =>
      simp only [soughtData, Option.mem_def, Option.some.injEq, forall_eq']
      exact Cursor.data_seek_eq_iff 0 p t.ingoing.cursor

theorem data_repositioned (t : HttpMemoryTransport) :
    t.repositioned.data =
      soughtData (if t.base.pos = t.base.devicePos then none else some t.base.pos) t := by
  rw [repositioned]
  split <;> rfl

/-- **Apart from `setIncoming`, an operation changes the request bytes only by its
seek.** -/
theorem inData_step {t : HttpMemoryTransport} (ht : t.Live) {op : Op} (hop : op.feeds = false) :
    (step op t).2.inData = soughtData (seekTarget op t) t := by
  cases op with
  | read n =>
      change (t.read n).2.ingoing.data = _
      cases hopen : t.base.openMode with
      | notOpen => simp [read_of_closed hopen, seekTarget, isOpen, IODevice.isOpen, hopen,
          soughtData, inData]
      | readWrite =>
          have ho := (isOpen_iff t).mpr hopen
          by_cases hn : n ≤ t.base.buffer.length
          · have hnlt : ¬ t.base.buffer.length < n := by omega
            rw [read_of_le hopen hn]
            simp [seekTarget, hnlt, soughtData, inData]
          · have hlt : t.base.buffer.length < n := by omega
            rw [read_of_lt ht.ingoing_open hopen hlt]
            change t.drained.repositioned.data = _
            rw [data_repositioned]
            simp only [seekTarget, ho, hlt, true_and, ne_eq, ite_not]
            rfl
  | write data =>
      change (t.write data).2.ingoing.data = _
      cases hopen : t.base.openMode with
      | notOpen => simp [write_of_closed hopen, seekTarget, isOpen, IODevice.isOpen, hopen,
          soughtData, inData]
      | readWrite =>
          have ho := (isOpen_iff t).mpr hopen
          rw [write_eq ht hopen]
          change t.repositioned.data = _
          rw [data_repositioned]
          simp only [seekTarget, ho, true_and, ne_eq, ite_not]
  | seek p =>
      change (t.ingoing.seek p).2.data = _
      by_cases hp : 0 ≤ p
      · obtain ⟨k, rfl⟩ := Int.eq_ofNat_of_zero_le hp
        have hs := Buffer.seek_natCast ht.ingoing_open k
        simp only [seekTarget, hp, if_true, soughtData]
        exact congrArg (fun r => Buffer.data r.2) hs
      · have hneg : p < 0 := by omega
        simp [Buffer.seek, hneg, seekTarget, hp, soughtData, inData]
  | reset =>
      change t.ingoing.reset.2.data = _
      rw [Buffer.reset_eq ht.ingoing_open]
      exact (Cursor.data_seek_of_le 0 (Nat.zero_le _)).symm
  | setIncoming data => simp [Op.feeds] at hop
  | clearOutgoing => rfl
  | close => rfl
  | «open» => rfl

/-- **The request bytes and the size stay what they were through a run without
`setIncoming` exactly when no step seeks past the end; a seek that fails never moves
the ingoing position.** -/
theorem inData_unchanged_iff (before ops : List Op) (hops : ∀ op ∈ ops, op.feeds = false) :
    ((∀ js, js <+: ops →
        (after step js (after step before new)).inData = (after step before new).inData ∧
        (after step js (after step before new)).size = (after step before new).size) ↔
      Along step StaysInside ops (after step before new)) ∧
    ∀ p, ((after step before new).seek p).1 = false →
      ((after step before new).seek p).2.pos = (after step before new).pos := by
  have hlive := live_after before
  generalize after step before new = t at hlive
  constructor
  · have hstep : ∀ op ∈ ops, ∀ t, t.Live →
        ((step op t).2.inData = t.inData ↔ StaysInside op t) := by
      intro op hmem t ht
      rw [inData_step ht (hops op hmem)]
      exact soughtData_eq_iff _ t
    rw [← along_congr (I := Live) step (fun op _ ht => live_step ht op) ops hstep hlive,
      ← constant_iff]
    constructor
    · intro h js hjs
      exact (h js hjs).1
    · intro h js hjs
      exact ⟨h js hjs, congrArg List.length (h js hjs)⟩
  · intro p hp
    exact congrArg Buffer.pos (Buffer.seek_of_failed hp)

/-- The run applies to reads and writes that stay inside. -/
theorem inData_unchanged_short_exchange :
    (after step [.read 1, .write [1], .read 1] (after step [.setIncoming [97, 98]] new)).inData =
      (after step [.setIncoming [97, 98]] new).inData :=
  (((inData_unchanged_iff [.setIncoming [97, 98]] [.read 1, .write [1], .read 1]
    (by decide)).1.mpr (by decide)) _ (List.prefix_refl _)).1

/-- Reads and writes alone grow the request: after a response of ten bytes the base
position lies behind the end of `abcd`, and the next write seeks there. -/
theorem inData_grown_by_write :
    ¬ ∀ js, js <+: [.read 1, .write (List.replicate 10 0), .read 1, .write [1]] →
      (after step js (after step [.setIncoming [97, 98, 99, 100]] new)).inData =
        (after step [.setIncoming [97, 98, 99, 100]] new).inData := by
  intro h
  exact absurd (h _ (List.prefix_refl _)) (by decide)

end FrameworkTests.HttpMemoryTransport
