import FrameworkTests.Lib.Stream
import FrameworkTests.Transport.Outgoing

/-!
# Reading the request while writing the response

A request is set once; then the client reads and writes in any order.  What it is
still owed lies in two places: the read-ahead of the base class and the unread part
of the ingoing buffer.  As long as `devicePos` runs ahead of the base position by
the read-ahead, reads take from the front of the two (`read_synced`).

A write empties the read-ahead.  Before that, the base class seeks the ingoing
buffer to the base position, but `writeData` has restarted that position at every
earlier write, so it is in general not the place the reader is at.
`requestLaw_iff` gives the exact condition, `InStep`: at each write the read-ahead
is empty, or `devicePos` is the position of the ingoing buffer.

## Main definitions

* `owed` — what further reads are due.
* `Synced` — the invariant of runs of reads and writes.
* `Exchange`, `exchange`, `RequestLaw`, `InStep` — the runs, their law, its condition.
-/

namespace FrameworkTests.HttpMemoryTransport

open Run

/-- The read-ahead and the unread part of the ingoing buffer. -/
def owed (t : HttpMemoryTransport) : Bytes := t.base.buffer ++ t.ingoing.unread

/-- The state between reads and writes after the request is set. -/
structure Synced (t : HttpMemoryTransport) : Prop where
  live : t.Live
  isOpen : t.base.openMode = .readWrite
  devicePos_eq : t.base.devicePos = t.base.pos + t.base.buffer.length
  pos_pos : t.base.buffer ≠ [] → 0 < t.base.pos
  /-- The read-ahead is what precedes the position of the ingoing buffer. -/
  suffix : t.owed <:+ t.ingoing.data

@[simp] theorem data_setIncoming (d : Bytes) : (new.setIncoming d).ingoing.data = d := by
  have hw : (new.ingoing.write d).2.openMode = .readWrite := rfl
  change (new.ingoing.write d).2.reset.2.data = d
  rw [Buffer.reset_eq hw]
  exact Cursor.data_write_of_unread_eq_nil (c := .empty) rfl d

@[simp] theorem owed_setIncoming (d : Bytes) : (new.setIncoming d).owed = d :=
  data_setIncoming d

theorem synced_setIncoming (d : Bytes) : (new.setIncoming d).Synced where
  live := live_step live_new (.setIncoming d)
  isOpen := rfl
  devicePos_eq := rfl
  pos_pos := fun h => absurd rfl h
  suffix := List.suffix_refl _

/-- Nothing is repositioned while `devicePos` runs ahead by the read-ahead. -/
theorem Synced.repositioned_drained {t : HttpMemoryTransport} (ht : t.Synced) :
    t.drained.repositioned = t.ingoing := by
  have h : t.drained.base.pos = t.drained.base.devicePos := ht.devicePos_eq.symm
  rw [repositioned, if_pos h]
  rfl

private theorem drop_take_append_drop {α : Type*} (u : List α) {r k : ℕ} (h : r ≤ k) :
    (u.take k).drop r ++ u.drop k = u.drop r := by
  have hk : u.drop k = (u.drop r).drop (k - r) := by
    rw [List.drop_drop, Nat.add_sub_cancel' h]
  rw [List.drop_take, hk, List.take_append_drop]

/-- **A read in a synced state** takes from the front of what is owed, leaves the
content of the ingoing buffer alone, and keeps the state synced. -/
theorem read_synced {t : HttpMemoryTransport} (ht : t.Synced) (n : ℕ) :
    (t.read n).1 = some (t.owed.take n) ∧ (t.read n).2.owed = t.owed.drop n ∧
      (t.read n).2.ingoing.data = t.ingoing.data ∧ (t.read n).2.Synced := by
  have hlive : (t.read n).2.Live := live_step ht.live (.read n)
  have hmode := (read_frame ht.live.ingoing_open n).1.trans ht.isOpen
  have hsuffix : t.owed.drop n <:+ t.ingoing.data := (List.drop_suffix n _).trans ht.suffix
  have hdevice := ht.devicePos_eq
  by_cases hn : n ≤ t.base.buffer.length
  · have htake : t.owed.take n = t.base.buffer.take n := List.take_append_of_le_length hn
    have hdrop : t.owed.drop n = t.base.buffer.drop n ++ t.ingoing.unread :=
      List.drop_append_of_le_length hn
    rw [read_of_le ht.isOpen hn] at hlive hmode ⊢
    refine ⟨congrArg some htake.symm, hdrop.symm, rfl, hlive, hmode, ?_, ?_, ?_⟩
    · simp only [List.length_drop]
      omega
    · intro hne
      have hb : t.base.buffer ≠ [] := by
        rintro hb
        simp [hb] at hne
      exact Nat.add_pos_left (ht.pos_pos hb) n
    · rw [hdrop] at hsuffix
      exact hsuffix
  · have hlt : t.base.buffer.length < n := by omega
    have hreq : n - t.base.buffer.length ≤ t.request n := Nat.le_max_left _ _
    have htake : t.owed.take n =
        t.base.buffer ++ t.ingoing.unread.take (n - t.base.buffer.length) := by
      rw [owed, List.take_append, List.take_of_length_le (Nat.le_of_lt hlt)]
    have hdrop : t.owed.drop n = (t.ingoing.unread.take (t.request n)).drop
        (n - t.base.buffer.length) ++ t.ingoing.unread.drop (t.request n) := by
      rw [owed, List.drop_append, List.drop_eq_nil_of_le (Nat.le_of_lt hlt), List.nil_append,
        drop_take_append_drop _ hreq]
    have hread := read_of_lt ht.live.ingoing_open ht.isOpen hlt
    simp only [ht.repositioned_drained] at hread
    have howed : (t.read n).2.owed = t.owed.drop n := by
      rw [hdrop, hread]
      exact congrArg _ (t.ingoing.cursor.unread_read _)
    refine ⟨?_, howed, ?_, hlive, hmode, ?_, ?_, ?_⟩
    · rw [hread, htake]
    · rw [hread]
      rfl
    · rw [hread]
      simp only [List.length_take, List.length_drop]
      omega
    · rw [hread]
      intro hne
      have := List.length_pos_iff.mpr hne
      simp only [List.length_take, List.length_drop] at this ⊢
      omega
    · rw [howed, hread]
      exact hsuffix

/-- **A write in a synced state** empties the read-ahead; what is owed afterwards is
what the repositioned ingoing buffer holds. -/
theorem write_synced {t : HttpMemoryTransport} (ht : t.Synced) (data : Bytes) :
    (t.write data).2.owed = t.repositioned.unread ∧ (t.write data).2.Synced := by
  have hahead : (if 0 < t.base.pos then [] else t.base.buffer).drop data.length = [] := by
    by_cases hb : t.base.buffer = []
    · simp [hb]
    · simp [ht.pos_pos hb]
  have hlive : (t.write data).2.Live := (write_frame ht.live data).2.1
  have hmode := (write_frame ht.live data).1.trans ht.isOpen
  have howed : (t.write data).2.owed = t.repositioned.unread := by
    rw [write_eq ht.live ht.isOpen, owed, hahead, List.nil_append]
  have hbuf : (t.write data).2.base.buffer = [] := by
    rw [write_eq ht.live ht.isOpen]
    exact hahead
  refine ⟨howed, hlive, hmode, ?_, fun h => absurd hbuf h, ?_⟩
  · rw [hbuf, write_eq ht.live ht.isOpen]
    rfl
  · rw [howed, write_eq ht.live ht.isOpen]
    exact List.drop_suffix _ _

/-- **A write loses or repeats nothing exactly when the read-ahead is empty or
`devicePos` is where the ingoing buffer is.** -/
theorem unread_repositioned_eq_owed_iff {t : HttpMemoryTransport} (ht : t.Synced) :
    t.repositioned.unread = t.owed ↔
      t.base.buffer = [] ∨ t.base.devicePos = t.ingoing.pos := by
  have hdevice := ht.devicePos_eq
  by_cases hb : t.base.buffer = []
  · have heq : t.base.pos = t.base.devicePos := by simp [hdevice, hb]
    simp [repositioned, heq, owed, hb]
  · have hlen : 0 < t.base.buffer.length := List.length_pos_iff.mpr hb
    have hne : t.base.pos ≠ t.base.devicePos := by omega
    have hle := t.ingoing.cursor.pos_le
    have howed : t.owed.length =
        t.base.buffer.length + (t.ingoing.data.length - t.ingoing.pos) := by
      rw [owed, List.length_append, Buffer.length_unread]
      rfl
    rw [repositioned, if_neg hne]
    simp only [hb, false_or]
    change (t.ingoing.cursor.seek 0 t.base.pos).unread = t.owed ↔ _
    constructor
    · intro h
      have hl := congrArg List.length h
      rw [Cursor.length_unread, Cursor.length_data_seek, Cursor.pos_seek, howed] at hl
      simp only [Buffer.data, Buffer.pos] at hl hle ⊢
      omega
    · intro h
      have hsuf := ht.suffix.length_le
      have hdrop := List.suffix_iff_eq_drop.mp ht.suffix
      rw [howed] at hdrop hsuf
      simp only [Buffer.data, Buffer.pos] at *
      rw [Cursor.unread, Cursor.data_seek_of_le 0 (by omega), Cursor.pos_seek, hdrop]
      congr 1
      omega

/-! ## Runs of reads and writes -/

/-- Reads of at least one byte, and writes. -/
inductive Exchange
  | read (n : ℕ+)
  | write (data : Bytes)

def exchange : Exchange → HttpMemoryTransport → Bytes × HttpMemoryTransport
  | .read n, t => ((t.read n).1.getD [], (t.read n).2)
  | .write data, t => ([], (t.write data).2)

/-- All bytes the reads of a run handed out, the request `d` being set first. -/
def requestRead (d : Bytes) (es : List Exchange) : Bytes :=
  ((history exchange es (new.setIncoming d)).map Prod.snd).flatten

/-- **The request law**: what was read is a prefix of the request, and all of it once
a read returns nothing. -/
structure RequestLaw (d : Bytes) (es : List Exchange) : Prop where
  safe : requestRead d es <+: d
  complete : ∀ n, (exchange (.read n) (after exchange es (new.setIncoming d))).1 = [] →
    requestRead d es = d

/-- A write finds nothing read ahead, or `devicePos` at the position of the ingoing
buffer. -/
def InStep : Exchange → HttpMemoryTransport → Prop
  | .read _, _ => True
  | .write _, t => t.base.buffer = [] ∨ t.base.devicePos = t.ingoing.pos

theorem synced_exchange {t : HttpMemoryTransport} (ht : t.Synced) (e : Exchange) :
    (exchange e t).2.Synced := by
  cases e with
  | read n => exact (read_synced ht n).2.2.2
  | write data => exact (write_synced ht data).2

/-- The transport as a source of the request; writes add nothing to it. -/
def requestSource : Source HttpMemoryTransport Exchange UInt8 where
  step := exchange
  read := .read
  supply := fun _ => []
  owed := owed
  Valid := Synced
  supply_read := fun _ => rfl
  valid_step := fun e _ ht => synced_exchange ht e
  read_out := fun n _ ht => by simp [exchange, (read_synced ht n).1]
  read_owed := fun n _ ht => (read_synced ht n).2.1

theorem keeps_exchange_iff {t : HttpMemoryTransport} (ht : t.Synced) (e : Exchange) :
    requestSource.Keeps e t ↔ InStep e t := by
  cases e with
  | read n => exact iff_of_true (Source.keeps_read n ht) trivial
  | write data =>
      rw [InStep, ← unread_repositioned_eq_owed_iff ht, ← (write_synced ht data).1]
      change [] ++ _ = _ ++ [] ↔ _
      rw [List.nil_append, List.append_nil]
      rfl

theorem supplied_requestSource (es : List Exchange) : requestSource.supplied es = [] := by
  induction es with
  | nil => rfl
  | cons e es ih => rw [Source.supplied_cons, ih]; rfl

theorem law_requestSource_iff (d : Bytes) (es : List Exchange) :
    requestSource.Law es (new.setIncoming d) ↔ RequestLaw d es := by
  have hall : requestSource.owed (new.setIncoming d) ++ requestSource.supplied es = d := by
    rw [supplied_requestSource, List.append_nil]
    exact owed_setIncoming d
  constructor
  · intro h
    have hsafe := h.safe
    rw [hall] at hsafe
    exact ⟨hsafe, fun n hn => (h.complete n hn).trans hall⟩
  · intro h
    refine ⟨?_, fun n hn => (h.complete n hn).trans hall.symm⟩
    rw [hall]
    exact h.safe

/-- **Writing never disturbs reading in a run, however it is read on from any point,
exactly when every write of the run is in step.** -/
theorem requestLaw_iff (d : Bytes) (es : List Exchange) :
    (∀ gs, gs <+: es → ∀ ns : List ℕ+, RequestLaw d (gs ++ ns.map .read)) ↔
      Along exchange InStep es (new.setIncoming d) := by
  have hlaw := Source.law_iff (S := requestSource) es (synced_setIncoming d)
  have hstep := along_congr exchange requestSource.valid_step es
    (fun e _ t ht => keeps_exchange_iff ht e) (synced_setIncoming d)
  simp only [law_requestSource_iff] at hlaw
  exact hlaw.trans hstep

/-- Of the request `abcdef`, read one byte at a time, the second write makes the
reader skip `c`: the first write restarted the base position. -/
theorem requestLaw_second_write :
    ¬ RequestLaw [97, 98, 99, 100, 101, 102]
      [.read 1, .write [1, 2], .read 1, .write [3], .read 1] := by
  intro law
  exact absurd law.safe (by decide)

end FrameworkTests.HttpMemoryTransport
