import FrameworkTests.Transport.Ingoing
import Mathlib.Data.List.Forall2
import Mathlib.Data.Set.Insert

/-!
# Two channels that do not mix

The transport carries a request one way and a response the other over one device,
and the positions of the two do mix: where the request is read depends on how much
was written.  The bytes do not mix.  Two runs that differ only in the bytes they
write, not in how many, report the same; what comes in and how it is read has no
influence on what is captured; and a byte that is read either came in or is a zero
that a seek past the end has put there.

## Main definitions

* `reports ops` — what the operations of a run return.
* `Op.Alike` — operations that differ at most in the bytes they write.
* `Op.isOutgoing` — the operations the captured bytes depend on.
* `received ops` — the bytes that came in during a run.
-/

namespace FrameworkTests.HttpMemoryTransport

open Run

/-- What the operations of a run on a fresh transport return, in order. -/
def reports (ops : List Op) : List Report := (history step ops new).map Prod.snd

/-! ### From the response to the request -/

/-- The operations differ at most in the bytes they write, not in their number. -/
def Op.Alike : Op → Op → Prop
  | .write data, op => ∃ data', op = .write data' ∧ data'.length = data.length
  | op, op' => op = op'

/-- The outgoing buffer is nothing a read looks at. -/
theorem read_outgoing {t : HttpMemoryTransport} (h : t.ingoing.openMode = .readWrite) (n : ℕ)
    (b : Buffer) :
    ({ t with outgoing := b } : HttpMemoryTransport).read n =
      ((t.read n).1, { (t.read n).2 with outgoing := b }) := by
  cases hopen : t.base.openMode with
  | notOpen => rw [read_of_closed hopen, read_of_closed (t := { t with outgoing := b }) hopen]
  | readWrite =>
      by_cases hn : n ≤ t.base.buffer.length
      · rw [read_of_le hopen hn, read_of_le (t := { t with outgoing := b }) hopen hn]
      · have hlt : t.base.buffer.length < n := by omega
        rw [read_of_lt h hopen hlt, read_of_lt (t := { t with outgoing := b }) h hopen hlt]
        rfl

/-- Live transports that differ at most in what they captured. -/
def Alongside (t t' : HttpMemoryTransport) : Prop :=
  (t.Live ∧ t'.Live) ∧ ∃ b, t' = { t with outgoing := b }

theorem write_alongside {t t' : HttpMemoryTransport} (h : Alongside t t') {data data' : Bytes}
    (hlen : data'.length = data.length) :
    (t.write data).1 = (t'.write data').1 ∧
      ∃ b, (t'.write data').2 = { (t.write data).2 with outgoing := b } := by
  obtain ⟨⟨ht, ht'⟩, b, rfl⟩ := h
  cases hopen : t.base.openMode with
  | notOpen =>
      rw [write_of_closed hopen, write_of_closed (t := { t with outgoing := b }) hopen]
      exact ⟨rfl, b, rfl⟩
  | readWrite =>
      rw [write_eq ht hopen, write_eq ht' hopen, hlen]
      exact ⟨rfl, _, rfl⟩

/-- One step of two runs: the same report, and again no difference but in the capture. -/
theorem step_alongside {t t' : HttpMemoryTransport} (h : Alongside t t') {op op' : Op}
    (hop : op.Alike op') :
    (step op t).1 = (step op' t').1 ∧ Alongside (step op t).2 (step op' t').2 := by
  have hlive := live_step h.1.1 op
  have hlive' := live_step h.1.2 op'
  suffices hsame : (step op t).1 = (step op' t').1 ∧
      ∃ b, (step op' t').2 = { (step op t).2 with outgoing := b } from
    ⟨hsame.1, ⟨hlive, hlive'⟩, hsame.2⟩
  cases op with
  | write data =>
      obtain ⟨data', rfl, hlen⟩ := hop
      obtain ⟨hreport, hstate⟩ := write_alongside h hlen
      exact ⟨congrArg Report.count hreport, hstate⟩
  | read n =>
      obtain rfl : Op.read n = op' := hop
      obtain ⟨⟨ht, -⟩, b, rfl⟩ := h
      have hread := read_outgoing ht.ingoing_open n b
      refine ⟨?_, b, congrArg Prod.snd hread⟩
      change Report.bytes _ = Report.bytes _
      rw [hread]
  | clearOutgoing =>
      obtain rfl : Op.clearOutgoing = op' := hop
      obtain ⟨-, b, rfl⟩ := h
      exact ⟨rfl, _, rfl⟩
  | seek p =>
      obtain rfl : Op.seek p = op' := hop
      obtain ⟨-, b, rfl⟩ := h
      exact ⟨rfl, b, rfl⟩
  | reset =>
      obtain rfl : Op.reset = op' := hop
      obtain ⟨-, b, rfl⟩ := h
      exact ⟨rfl, b, rfl⟩
  | setIncoming data =>
      obtain rfl : Op.setIncoming data = op' := hop
      obtain ⟨-, b, rfl⟩ := h
      exact ⟨rfl, b, rfl⟩
  | close =>
      obtain rfl : Op.close = op' := hop
      obtain ⟨-, b, rfl⟩ := h
      exact ⟨rfl, b, rfl⟩
  | «open» =>
      obtain rfl : Op.open = op' := hop
      obtain ⟨-, b, rfl⟩ := h
      exact ⟨rfl, b, rfl⟩

/-! ### From the request to the response -/

/-- The operations that open, close, write and clear. -/
def Op.isOutgoing : Op → Bool
  | .write _ | .clearOutgoing | .close | .open => true
  | .read _ | .seek _ | .reset | .setIncoming _ => false

/-- The other operations leave the open flag and the captured bytes alone. -/
theorem capture_of_not_isOutgoing {op : Op} (h : op.isOutgoing = false) (c : Bool × Bytes) :
    capture op c = c := by
  cases op <;> simp_all [Op.isOutgoing, capture]

theorem captured_filter (ops : List Op) (c : Bool × Bytes) :
    (ops.filter Op.isOutgoing).foldl (fun c op => capture op c) c =
      ops.foldl (fun c op => capture op c) c := by
  induction ops generalizing c with
  | nil => rfl
  | cons op ops ih =>
      cases hop : op.isOutgoing with
      | true => simp [hop, ih]
      | false => simp [hop, ih, capture_of_not_isOutgoing hop]

/-- The open flag and the capture of a run, read off its outgoing operations. -/
theorem captures_after (ops : List Op) :
    Captures (after step ops new)
      ((ops.filter Op.isOutgoing).foldl (fun c op => capture op c) (true, [])) := by
  rw [captured_filter]
  exact simulation (fun t c op h => captures_step op h) ops ⟨live_new, rfl, rfl⟩

/-- **The channels are independent.**  Runs that write other bytes, but as many, report
the same, and hold and announce the same; and runs with the same outgoing operations
capture the same, whatever comes in between them and however it is read. -/
theorem channels_independent (ops ops' : List Op) :
    (List.Forall₂ Op.Alike ops ops' → reports ops = reports ops' ∧
      (after step ops new).ingoing = (after step ops' new).ingoing ∧
      (after step ops new).emitted = (after step ops' new).emitted) ∧
    (ops.filter Op.isOutgoing = ops'.filter Op.isOutgoing →
      (after step ops new).outData = (after step ops' new).outData ∧
      (after step ops new).isOpen = (after step ops' new).isOpen) := by
  constructor
  · intro halike
    have hstart : Alongside new new := ⟨⟨live_new, live_new⟩, new.outgoing, rfl⟩
    have hstep : ∀ op op' t t', Op.Alike op op' → Alongside t t' →
        (step op t).1 = (step op' t').1 ∧ Alongside (step op t).2 (step op' t').2 :=
      fun op op' t t' hop h => step_alongside h hop
    obtain ⟨hreports, -, b, hb⟩ := lockstep (Q := Eq) hstep halike hstart
    rw [List.forall₂_eq_eq_eq] at hreports
    rw [hb]
    exact ⟨hreports, rfl, rfl⟩
  · intro hfilter
    have h := captures_after ops
    have h' := captures_after ops'
    rw [hfilter] at h
    exact ⟨h.2.2.trans h'.2.2.symm, h.2.1.trans h'.2.1.symm⟩

/-- Two responses of one byte to the request `ab`. -/
theorem channels_independent_short :
    (reports [.setIncoming [97, 98], .read 1, .write [1], .read 1] =
      reports [.setIncoming [97, 98], .read 1, .write [2], .read 1]) ∧
    (after step [.setIncoming [97, 98], .read 1, .write [1]] new).outData =
      (after step [.write [1], .seek 7] new).outData := by
  refine ⟨((channels_independent _ _).1 ?_).1, ((channels_independent _ _).2 (by decide)).1⟩
  exact .cons rfl (.cons rfl (.cons ⟨[2], rfl, rfl⟩ (.cons rfl .nil)))

/-! ### Where a byte that is read comes from -/

/-- The bytes an operation brings in. -/
def Op.chunk : Op → Bytes
  | .setIncoming data => data
  | _ => []

/-- The bytes that came in during a run. -/
def received (ops : List Op) : Bytes := ops.flatMap Op.chunk

/-- The bytes an operation hands out. -/
def Report.handed : Report → Bytes
  | .bytes got => got.getD []
  | _ => []

/-- All bytes the reader may still get to see lie in `S`. -/
def Carries (S : Set UInt8) (t : HttpMemoryTransport) : Prop :=
  (∀ b ∈ t.inData, b ∈ S) ∧ ∀ b ∈ t.base.buffer, b ∈ S

/-- A seek adds zeros, and none inside the content. -/
theorem mem_soughtData {S : Set UInt8} {t : HttpMemoryTransport} {target : Option ℕ}
    (hS : ∀ b ∈ t.inData, b ∈ S) (h : (0 : UInt8) ∈ S ∨ ∀ p ∈ target, p ≤ t.size) :
    ∀ b ∈ soughtData target t, b ∈ S := by
  rcases h with hzero | hinside
  · intro b hb
    cases target with
    | none => exact hS b hb
    | some p =>
        rw [soughtData, Cursor.data_seek, List.mem_append] at hb
        rcases hb with hb | hb
        · exact hS b hb
        · rwa [List.eq_of_mem_replicate hb]
  · rwa [(soughtData_eq_iff target t).mpr hinside]

/-- A read hands out, and reads ahead, what was read ahead before or lies in the
ingoing buffer now. -/
theorem mem_read {t : HttpMemoryTransport} (h : t.ingoing.openMode = .readWrite) (n : ℕ)
    {b : UInt8} (hb : b ∈ (t.read n).1.getD [] ∨ b ∈ (t.read n).2.base.buffer) :
    b ∈ t.base.buffer ∨ b ∈ (t.read n).2.inData := by
  cases hopen : t.base.openMode with
  | notOpen =>
      rw [read_of_closed hopen] at hb
      exact .inl (hb.resolve_left List.not_mem_nil)
  | readWrite =>
      by_cases hn : n ≤ t.base.buffer.length
      · rw [read_of_le hopen hn] at hb
        exact .inl (hb.elim List.mem_of_mem_take List.mem_of_mem_drop)
      · have hlt : t.base.buffer.length < n := by omega
        rw [read_of_lt h hopen hlt] at hb ⊢
        rcases hb with hb | hb
        · rcases List.mem_append.mp hb with hb | hb
          · exact .inl hb
          · exact .inr (List.mem_of_mem_drop (List.mem_of_mem_take hb))
        · exact .inr (List.mem_of_mem_drop (List.mem_of_mem_take (List.mem_of_mem_drop hb)))

theorem mem_inData_setIncoming {t : HttpMemoryTransport} (h : t.ingoing.openMode = .readWrite)
    (data : Bytes) {b : UInt8} (hb : b ∈ (t.setIncoming data).inData) :
    b ∈ t.inData ∨ b ∈ data := by
  have hw : (t.ingoing.write data).2.openMode = .readWrite := by simp [h]
  have hdata : (t.setIncoming data).inData = (t.ingoing.cursor.write data).data := by
    change (t.ingoing.write data).2.reset.2.data = _
    rw [Buffer.reset_eq hw, Buffer.write_eq h]
    rfl
  rw [hdata, Cursor.data_write, List.mem_append, List.mem_append] at hb
  rcases hb with (hb | hb) | hb
  · exact .inl (List.mem_of_mem_take hb)
  · exact .inr hb
  · exact .inl (List.mem_of_mem_drop hb)

/-- What is read ahead only changes in a read, apart from being dropped. -/
theorem mem_buffer_step {t : HttpMemoryTransport} (ht : t.Live) (op : Op) {b : UInt8}
    (hb : b ∈ (step op t).2.base.buffer) : b ∈ t.base.buffer ∨ b ∈ (step op t).2.inData := by
  cases op with
  | read n => exact mem_read ht.ingoing_open n (.inr hb)
  | write data =>
      left
      cases hopen : t.base.openMode with
      | notOpen =>
          rw [step, write_of_closed hopen] at hb
          exact hb
      | readWrite =>
          rw [step, write_eq ht hopen] at hb
          have hmem := List.mem_of_mem_drop hb
          split at hmem
          · exact absurd hmem List.not_mem_nil
          · exact hmem
  | close => exact absurd hb List.not_mem_nil
  | «open» => exact absurd hb List.not_mem_nil
  | seek p => exact .inl hb
  | reset => exact .inl hb
  | setIncoming data => exact .inl hb
  | clearOutgoing => exact .inl hb

/-- **One step** keeps to `S`, if what it brings in and what it pads with lies there. -/
theorem carries_step {S : Set UInt8} {t : HttpMemoryTransport} (ht : t.Live) (h : Carries S t)
    {op : Op} (hchunk : ∀ b ∈ op.chunk, b ∈ S) (hpad : (0 : UInt8) ∈ S ∨ StaysInside op t) :
    Carries S (step op t).2 ∧ ∀ b ∈ (step op t).1.handed, b ∈ S := by
  have hdata : ∀ b ∈ (step op t).2.inData, b ∈ S := by
    cases hfeeds : op.feeds with
    | false =>
        rw [inData_step ht hfeeds]
        exact mem_soughtData h.1 hpad
    | true =>
        cases op with
        | setIncoming data =>
            intro b hb
            exact (mem_inData_setIncoming ht.ingoing_open data hb).elim (h.1 b) (hchunk b)
        | _ => simp [Op.feeds] at hfeeds
  refine ⟨⟨hdata, fun b hb => (mem_buffer_step ht op hb).elim (h.2 b) (hdata b)⟩, ?_⟩
  intro b hb
  cases op with
  | read n => exact (mem_read ht.ingoing_open n (.inl hb)).elim (h.2 b) (hdata b)
  | _ => exact absurd hb List.not_mem_nil

/-- What may come in and be padded with during a run is all that its reads hand out. -/
theorem handed_of_along {S : Set UInt8} {ops : List Op} (hchunk : ∀ b ∈ received ops, b ∈ S)
    (hpad : (0 : UInt8) ∈ S ∨ Along step StaysInside ops new) :
    ∀ r ∈ reports ops, ∀ b ∈ r.handed, b ∈ S := by
  have hchunks : Along step (fun op _ => ∀ b ∈ op.chunk, b ∈ S) ops new := by
    rw [along_const]
    intro op hop b hb
    exact hchunk b (List.mem_flatMap.mpr ⟨op, hop, hb⟩)
  have hpads : Along step (fun op t => (0 : UInt8) ∈ S ∨ StaysInside op t) ops new := by
    rcases hpad with hzero | hinside
    · exact along_of_forall step (fun _ _ _ => .inl hzero) new
    · exact along_imp step (fun _ _ => .inr) ops new hinside
  have hnew : Carries S new :=
    ⟨fun b hb => absurd hb List.not_mem_nil, fun b hb => absurd hb List.not_mem_nil⟩
  have hboth := (along_and step _ _ ops new).mpr ⟨hchunks, hpads⟩
  have hrun := history_induction
    (I := fun h t => t.Live ∧ Carries S t ∧ ∀ e ∈ h, ∀ b ∈ e.2.handed, b ∈ S) ?_ hboth
    ⟨live_new, hnew, by simp⟩
  · intro r hr
    obtain ⟨e, he, rfl⟩ := List.mem_map.mp hr
    exact hrun.2.2 e he
  · intro h t op hop hI
    obtain ⟨ht, hcarries, hh⟩ := hI
    obtain ⟨hnext, hhanded⟩ := carries_step ht hcarries hop.1 hop.2
    refine ⟨live_step ht op, hnext, ?_⟩
    rw [List.forall_mem_append, List.forall_mem_singleton]
    exact ⟨hh, hhanded⟩

/-- **Every byte that a read hands out came in, or is a zero** that a seek past the end
of the request has put there. -/
theorem read_provenance (ops : List Op) :
    ∀ r ∈ reports ops, ∀ b ∈ r.handed,
      b ∈ received ops ∨ b = 0 ∧ ¬ Along step StaysInside ops new := by
  by_cases hinside : Along step StaysInside ops new
  · intro r hr b hb
    left
    exact handed_of_along (S := {b | b ∈ received ops}) (fun b hb => hb) (.inr hinside) r hr b hb
  · intro r hr b hb
    have hmem := handed_of_along (S := insert 0 {b | b ∈ received ops})
      (fun b hb => Set.mem_insert_of_mem 0 hb) (.inl (Set.mem_insert 0 _)) r hr b hb
    rcases Set.mem_insert_iff.mp hmem with rfl | hmem
    · exact .inr ⟨rfl, hinside⟩
    · exact .inl hmem

/-- A chunk behind a seek past the end is read with two zeros before it. -/
theorem read_provenance_padded :
    .bytes (some [0, 0, 97]) ∈ reports [.seek 2, .setIncoming [97], .read 3] ∧
      ∀ b ∈ [0, 0, 97], b ∈ received [.seek 2, .setIncoming [97], .read 3] ∨
        b = 0 ∧ ¬ Along step StaysInside [.seek 2, .setIncoming [97], .read 3] new := by
  have hmem : .bytes (some [0, 0, 97]) ∈ reports [.seek 2, .setIncoming [97], .read 3] := by
    decide
  exact ⟨hmem, read_provenance _ _ hmem⟩

end FrameworkTests.HttpMemoryTransport
