import FrameworkTests.Transport.Ingoing

/-!
# What a run shows and what it leaves

Two results about all runs of public operations.

What the outside gets to see of a transport depends on its mode only: which calls are
refused, what is emitted, and with which mode its listeners meet it.
`shows_after` is the automaton of modes that every run follows; a seek and a reset are
accepted on a closed transport as on an open one, since their overrides do not look.

And what a run without `setIncoming` leaves of the request is the request itself,
padded up to the furthest place that one of its steps has asked the ingoing buffer to
seek to (`inData_padded`).  No byte of it is changed or lost.

## Main definitions

* `modeStep`, `emission` — what an operation does to the mode, and what it emits.
* `Answers op m r` — the report `r` is that of `op` in the mode `m`.
* `soughtAlong` — where the steps of a run ask to seek to.
-/

namespace FrameworkTests.HttpMemoryTransport

open Run

/-! ### The automaton of modes -/

def modeStep (m : OpenMode) : Op → OpenMode
  | .close => .notOpen
  | .open => .readWrite
  | _ => m

/-- What an operation emits in a mode, with the mode its listeners find. -/
def emission (m : OpenMode) : Op → List (Signal × OpenMode)
  | .setIncoming _ => [(.readyRead, m)]
  | .close => [(.aboutToClose, .notOpen)]
  | _ => []

/-- The mode behind some operations of a transport. -/
def modeAfter (ops : List Op) : OpenMode := ops.foldl modeStep .readWrite

/-- What some operations emit, from a mode on. -/
def emissions : OpenMode → List Op → List (Signal × OpenMode)
  | _, [] => []
  | m, op :: ops => emission m op ++ emissions (modeStep m op) ops

/-- Reads and writes are refused in a closed mode and complete in the other; a seek is
refused to negative positions only. -/
def Answers : Op → OpenMode → Report → Prop
  | .read _, m, r => ∃ got, r = .bytes got ∧ (got = none ↔ m = .notOpen)
  | .write data, m, r => r = .count (if m = .notOpen then none else some data.length)
  | .seek p, _, r => r = .flag (0 ≤ p)
  | .reset, _, r => r = .flag true
  | .setIncoming _, _, r | .clearOutgoing, _, r | .close, _, r | .open, _, r => r = .done

theorem emitted_read {t : HttpMemoryTransport} (h : t.ingoing.openMode = .readWrite) (n : ℕ) :
    (t.read n).2.emitted = t.emitted := by
  cases hopen : t.base.openMode with
  | notOpen => rw [read_of_closed hopen]
  | readWrite =>
      by_cases hn : n ≤ t.base.buffer.length
      · rw [read_of_le hopen hn]
      · rw [read_of_lt h hopen (by omega)]

/-- **One operation**: the mode, the emission and the report are those of the automaton. -/
theorem shows_step {t : HttpMemoryTransport} (ht : t.Live) (op : Op) :
    (step op t).2.base.openMode = modeStep t.base.openMode op ∧
      (step op t).2.emitted = t.emitted ++ emission t.base.openMode op ∧
      Answers op t.base.openMode (step op t).1 := by
  cases op with
  | read n =>
      refine ⟨(read_frame ht.ingoing_open n).1, ?_, (t.read n).1, rfl, ?_⟩
      · exact (emitted_read ht.ingoing_open n).trans (List.append_nil _).symm
      · cases hopen : t.base.openMode with
        | notOpen => simp [read_of_closed hopen]
        | readWrite =>
            by_cases hn : n ≤ t.base.buffer.length
            · simp [read_of_le hopen hn]
            · simp [read_of_lt ht.ingoing_open hopen (Nat.lt_of_not_le hn)]
  | write data =>
      cases hopen : t.base.openMode with
      | notOpen => simp [step, write_of_closed hopen, hopen, modeStep, emission, Answers]
      | readWrite => simp [step, write_eq ht hopen, hopen, modeStep, emission, Answers]
  | seek p =>
      refine ⟨rfl, (List.append_nil _).symm, ?_⟩
      by_cases hp : 0 ≤ p
      · obtain ⟨k, rfl⟩ := Int.eq_ofNat_of_zero_le hp
        have hs := Buffer.seek_natCast ht.ingoing_open k
        simp [Answers, step, seek, hs]
      · have hneg : p < 0 := by omega
        simp [Answers, step, seek, Buffer.seek, hneg]
  | reset =>
      refine ⟨rfl, (List.append_nil _).symm, ?_⟩
      simp [Answers, step, reset, Buffer.reset_eq ht.ingoing_open]
  | setIncoming data => exact ⟨rfl, rfl, rfl⟩
  | clearOutgoing => exact ⟨rfl, (List.append_nil _).symm, rfl⟩
  | close => exact ⟨rfl, rfl, rfl⟩
  | «open» => exact ⟨rfl, (List.append_nil _).symm, rfl⟩

theorem shows_run (ops : List Op) {t : HttpMemoryTransport} (ht : t.Live) :
    (after step ops t).base.openMode = ops.foldl modeStep t.base.openMode ∧
      (after step ops t).emitted = t.emitted ++ emissions t.base.openMode ops := by
  induction ops generalizing t with
  | nil => simp [emissions]
  | cons op ops ih =>
      obtain ⟨hmode, hemitted, -⟩ := shows_step ht op
      obtain ⟨hmode', hemitted'⟩ := ih (live_step ht op)
      rw [after_cons, hmode', hemitted', hmode, hemitted, emissions, List.append_assoc]
      exact ⟨rfl, rfl⟩

/-- **What the outside sees of a run depends on modes only**: its mode, its emissions, and
the answer to whatever is done next. -/
theorem shows_after (ops : List Op) :
    (after step ops new).base.openMode = modeAfter ops ∧
      (after step ops new).emitted = emissions .readWrite ops ∧
      ∀ op, Answers op (modeAfter ops) (step op (after step ops new)).1 := by
  obtain ⟨hmode, hemitted⟩ := shows_run ops live_new
  refine ⟨hmode, hemitted, ?_⟩
  intro op
  have hanswers := (shows_step (live_after ops) op).2.2
  rwa [hmode] at hanswers

/-! ### What is left of the request -/

/-- Where the steps of a run ask the ingoing buffer to seek to. -/
def soughtAlong : List Op → HttpMemoryTransport → List ℕ
  | [], _ => []
  | op :: ops, t => (seekTarget op t).toList ++ soughtAlong ops (step op t).2

/-- The furthest of some places, 0 if there is none. -/
def furthest (ps : List ℕ) : ℕ := ps.foldr max 0

theorem soughtData_eq (target : Option ℕ) (t : HttpMemoryTransport) :
    soughtData target t =
      t.inData ++ List.replicate (furthest target.toList - t.inData.length) 0 := by
  cases target with
  | none => simp [soughtData, furthest]
  | some p =>
      rw [soughtData, Cursor.data_seek]
      simp [furthest, inData, Buffer.data]

theorem furthest_append (ps qs : List ℕ) :
    furthest (ps ++ qs) = max (furthest ps) (furthest qs) := by
  induction ps with
  | nil => simp [furthest]
  | cons p ps ih => simpa [furthest, max_assoc] using congrArg (max p) ih

theorem inData_after_eq (ops : List Op) (hops : ∀ op ∈ ops, op.feeds = false)
    {t : HttpMemoryTransport} (ht : t.Live) :
    (after step ops t).inData =
      t.inData ++ List.replicate (furthest (soughtAlong ops t) - t.inData.length) 0 := by
  induction ops generalizing t with
  | nil => simp [soughtAlong, furthest]
  | cons op ops ih =>
      rw [List.forall_mem_cons] at hops
      have hstep := inData_step ht hops.1
      rw [soughtData_eq] at hstep
      rw [after_cons, ih hops.2 (live_step ht op), hstep, soughtAlong, furthest_append,
        List.append_assoc, ← List.replicate_add]
      congr 2
      simp only [List.length_append, List.length_replicate]
      omega

/-- **A run without `setIncoming` only pads the request**, behind any run before it and
up to the furthest place its steps seek to. -/
theorem inData_padded (before ops : List Op) (hops : ∀ op ∈ ops, op.feeds = false) :
    let t := after step before new
    (after step ops t).inData =
      t.inData ++ List.replicate (furthest (soughtAlong ops t) - t.inData.length) 0 :=
  inData_after_eq ops hops (live_after before)

/-- A response of ten bytes to a request of four, and one byte more. -/
theorem inData_padded_by_write :
    (∀ op ∈ [Op.read 1, .write (List.replicate 10 0), .read 1, .write [1]], op.feeds = false) ∧
      let t := after step [.setIncoming [97, 98, 99, 100]] new
      let ops := [Op.read 1, .write (List.replicate 10 0), .read 1, .write [1]]
      (after step ops t).inData =
        t.inData ++ List.replicate (furthest (soughtAlong ops t) - t.inData.length) 0 :=
  ⟨by decide, inData_padded _ _ (by decide)⟩

example : furthest (soughtAlong [.read 1, .write (List.replicate 10 0), .read 1, .write [1]]
    (after step [.setIncoming [97, 98, 99, 100]] new)) = 11 := by decide

end FrameworkTests.HttpMemoryTransport
