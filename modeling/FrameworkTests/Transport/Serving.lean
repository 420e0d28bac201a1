import FrameworkTests.Transport.Exchange

/-!
# Serving a request

Writing moves the place the request is read from, so reads and writes cannot be mixed
at will.  The client under test mixes them all the same: it reads a header, may send
`100 Continue`, reads the body and sends its response behind it.  This is a
discipline under which nothing goes wrong: before the whole request has been read,
nothing is written but once.  `served_of_disciplined` says that under it the
transport is exact both ways, whatever the sizes of the reads.

## Main definitions

* `Disciplined d es` — a run over the request `d` that keeps the discipline.
* `written es` — all bytes written during a run.
* `Served d es` — the request is read and the response captured, byte for byte.
-/

namespace FrameworkTests.HttpMemoryTransport

open Run

def Exchange.isWrite : Exchange → Bool
  | .read _ => false
  | .write _ => true

/-- The bytes an operation writes. -/
def Exchange.output : Exchange → Bytes
  | .read _ => []
  | .write data => data

/-- All bytes written during a run, in order. -/
def written (es : List Exchange) : Bytes := es.flatMap Exchange.output

/-- A write is the first one, or comes when the whole request has been read. -/
def InTurn (d : Bytes) (pre : List Exchange) (e : Exchange) : Prop :=
  e.isWrite → (∀ e ∈ pre, e.isWrite = false) ∨ requestRead d pre = d

instance (d : Bytes) (pre : List Exchange) (e : Exchange) : Decidable (InTurn d pre e) :=
  inferInstanceAs (Decidable (_ → _ ∨ _))

/-- Every write of the run comes in turn. -/
def Disciplined (d : Bytes) (es : List Exchange) : Prop := Throughout (InTurn d) es

instance (d : Bytes) (es : List Exchange) : Decidable (Disciplined d es) :=
  inferInstanceAs (Decidable (Throughout _ es))

/-- **The request is read and the response captured**, and the request is what it was. -/
structure Served (d : Bytes) (es : List Exchange) : Prop where
  /-- Wherever the run is broken off and however it is read on. -/
  request : ∀ gs, gs <+: es → ∀ ns : List ℕ+, RequestLaw d (gs ++ ns.map .read)
  response : (after exchange es (new.setIncoming d)).outData = written es
  unchanged : (after exchange es (new.setIncoming d)).inData = d

/-! ### Before the first write -/

/-- The base class believes the ingoing buffer to be where it is. -/
def Aligned (t : HttpMemoryTransport) : Prop := t.base.devicePos = t.ingoing.pos

theorem aligned_read {t : HttpMemoryTransport} (ht : t.Synced) (h : t.Aligned) (n : ℕ) :
    (t.read n).2.Aligned := by
  by_cases hn : n ≤ t.base.buffer.length
  · rw [read_of_le ht.isOpen hn]
    exact h
  · have hread := read_of_lt ht.live.ingoing_open ht.isOpen (n := n) (by omega)
    simp only [ht.repositioned_drained] at hread
    have hle := t.ingoing.cursor.pos_le
    have hunread := t.ingoing.cursor.length_unread
    rw [hread, Aligned]
    change t.base.devicePos + (t.ingoing.cursor.unread.take (t.request n)).length =
      min (t.ingoing.cursor.pos + t.request n) t.ingoing.cursor.data.length
    rw [List.length_take, hunread, h]
    change t.ingoing.cursor.pos + _ = _
    omega

/-- Reads alone keep the two positions aligned. -/
theorem aligned_after {es : List Exchange} (hes : ∀ e ∈ es, e.isWrite = false)
    {t : HttpMemoryTransport} (ht : t.Synced) (h : t.Aligned) :
    (after exchange es t).Aligned := by
  induction es generalizing t with
  | nil => exact h
  | cons e es ih =>
      rw [List.forall_mem_cons] at hes
      cases e with
      | read n => exact ih hes.2 (read_synced ht n).2.2.2 (aligned_read ht h n)
      | write data => simp [Exchange.isWrite] at hes

/-! ### The discipline keeps in step -/

/-- Along a run in step, what was read and what is owed make up the request. -/
theorem requestRead_append_owed {d : Bytes} {es : List Exchange}
    (h : Along exchange InStep es (new.setIncoming d)) :
    requestRead d es ++ (after exchange es (new.setIncoming d)).owed = d := by
  have hkeeps : Along exchange requestSource.Keeps es (new.setIncoming d) :=
    (along_congr exchange requestSource.valid_step es
      (fun e _ t ht => keeps_exchange_iff ht e) (synced_setIncoming d)).mpr h
  have hbalance := Source.delivered_append_owed (S := requestSource) hkeeps
  rw [supplied_requestSource, List.append_nil] at hbalance
  exact hbalance.trans (owed_setIncoming d)

theorem inStep_of_disciplined {d : Bytes} {es : List Exchange} (h : Disciplined d es) :
    Along exchange InStep es (new.setIncoming d) := by
  by_contra hnot
  obtain ⟨pre, e, post, rfl, hpre, he⟩ := exists_first_of_not_along exchange hnot
  cases e with
  | read n => exact he trivial
  | write data =>
      apply he
      have hturn : InTurn d pre (.write data) :=
        (throughout_concat.mp (h.of_isPrefix ⟨post, by simp⟩)).2
      rcases hturn rfl with hfirst | hall
      · right
        exact aligned_after hfirst (synced_setIncoming d) rfl
      · left
        have howed := requestRead_append_owed hpre
        rw [hall, List.append_right_eq_self, owed] at howed
        exact (List.append_eq_nil_iff.mp howed).1

/-! ### The request and the response -/

/-- A write in step leaves the request as it is. -/
theorem inData_write {t : HttpMemoryTransport} (ht : t.Synced) {data : Bytes}
    (h : InStep (.write data) t) : (t.write data).2.inData = t.inData := by
  have hdevice := ht.devicePos_eq
  rw [write_eq ht.live ht.isOpen]
  change t.repositioned.data = t.ingoing.data
  rw [repositioned]
  split
  · rfl
  · rename_i hne
    have hle : t.ingoing.pos ≤ t.ingoing.data.length := t.ingoing.cursor.pos_le
    apply Cursor.data_seek_of_le
    rcases h with hbuf | hpos
    · simp [hbuf] at hdevice
      omega
    · change _ ≤ t.ingoing.data.length
      omega

theorem inData_after {es : List Exchange} {t : HttpMemoryTransport} (ht : t.Synced)
    (h : Along exchange InStep es t) : (after exchange es t).inData = t.inData := by
  induction es generalizing t with
  | nil => rfl
  | cons e es ih =>
      rw [after_cons, ih (synced_exchange ht e) h.2]
      cases e with
      | read n => exact (read_synced ht n).2.2.1
      | write data => exact inData_write ht h.1

/-- Nothing written is lost, in step or not. -/
theorem outData_exchange (es : List Exchange) {t : HttpMemoryTransport} (ht : t.Synced) :
    (after exchange es t).outData = t.outData ++ written es := by
  induction es generalizing t with
  | nil => simp [written]
  | cons e es ih =>
      rw [after_cons, ih (synced_exchange ht e)]
      cases e with
      | read n =>
          have hout := (read_frame ht.live.ingoing_open n).2.2
          simp [exchange, outData, hout, written, Exchange.output]
      | write data =>
          have hout := (write_frame ht.live data).2.2
          rw [(isOpen_iff t).mpr ht.isOpen] at hout
          simp [exchange, hout, written, Exchange.output]

/-- **A client that keeps the discipline is served**: it reads the whole request and
nothing else, its response is captured as it wrote it, and the request stays. -/
theorem served_of_disciplined {d : Bytes} {es : List Exchange} (h : Disciplined d es) :
    Served d es := by
  have hstep := inStep_of_disciplined h
  have hsynced := synced_setIncoming d
  refine ⟨?_, ?_, ?_⟩
  · have hlaw := (Source.law_iff (S := requestSource) es hsynced).mpr
      ((along_congr exchange requestSource.valid_step es
        (fun e _ t ht => keeps_exchange_iff ht e) hsynced).mpr hstep)
    simp only [law_requestSource_iff] at hlaw
    exact hlaw
  · exact outData_exchange es hsynced
  · exact (inData_after hsynced hstep).trans (data_setIncoming d)

/-- A request of a header `h` and a body `b`: the client answers behind the header, reads
the body and answers again. -/
theorem served_continue :
    Served [104, 98] [.read 1, .write [49], .read 1, .write [50], .write [51]] :=
  served_of_disciplined (by decide +kernel)

end FrameworkTests.HttpMemoryTransport
