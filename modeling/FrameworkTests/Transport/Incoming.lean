import FrameworkTests.Lib.Stream
import FrameworkTests.Transport.Basic

/-!
# The incoming byte stream

`setIncoming` hands the transport the next chunk of a request.  It writes at the
one position the ingoing buffer has and rewinds, so what the reader gets depends on
how much had been read when the chunk arrived: unread bytes are overwritten, bytes
already read come again.  `incomingLaw_iff` gives the exact condition under which
the stream survives, `Cursor.OverwriteAppends`: in an ordinary run the chunk is the
first one.

## Main definitions

* `Feed`, `feed` — setting a chunk and reading through `readData`.
* `IncomingLaw` — the stream law from a fresh transport.
* `Appends` — the chunk lands behind what is unread.
-/

namespace FrameworkTests.HttpMemoryTransport

open Run

/-- Chunks arriving and reads of at least one byte. -/
inductive Feed
  | setIncoming (data : Bytes)
  | readData (n : ℕ+)

def feed : Feed → HttpMemoryTransport → Bytes × HttpMemoryTransport
  | .setIncoming data, t => ([], t.setIncoming data)
  | .readData n, t => ((t.readData n).1.getD [], (t.readData n).2)

/-- The chunk an operation brings. -/
def Feed.chunk : Feed → Bytes
  | .setIncoming data => data
  | .readData _ => []

/-- All chunks set so far. -/
def chunks (fs : List Feed) : Bytes := (fs.map Feed.chunk).flatten

/-- All bytes the reads of a run from a fresh transport handed out. -/
def handedOut (fs : List Feed) : Bytes := ((history feed fs new).map Prod.snd).flatten

/-- **The incoming byte-stream law**: what was read is a prefix of the chunks set so
far, and all of them once a read returns no bytes. -/
structure IncomingLaw (fs : List Feed) : Prop where
  safe : handedOut fs <+: chunks fs
  complete : ∀ n, (feed (.readData n) (after feed fs new)).1 = [] → handedOut fs = chunks fs

/-- The chunk is written where it extends the unread bytes. -/
def Appends : Feed → HttpMemoryTransport → Prop
  | .setIncoming data, t => t.ingoing.cursor.OverwriteAppends data
  | .readData _, _ => True

/-- Setting a chunk overwrites at the position and rewinds. -/
theorem unread_setIncoming {t : HttpMemoryTransport} (h : t.ingoing.openMode = .readWrite)
    (data : Bytes) :
    (t.setIncoming data).ingoing.unread = (t.ingoing.cursor.write data).rewind.unread := by
  have hw : (t.ingoing.write data).2.openMode = .readWrite := by simp [h]
  change (t.ingoing.write data).2.reset.2.unread = _
  rw [Buffer.reset_eq hw, Buffer.write_eq h]
  rfl

theorem feed_readData {t : HttpMemoryTransport} (h : t.ingoing.openMode = .readWrite) (n : ℕ+) :
    (feed (.readData n) t).1 = t.ingoing.unread.take n := by
  simp [feed, readData, Buffer.read_eq h]

theorem openMode_feed {t : HttpMemoryTransport} (h : t.ingoing.openMode = .readWrite) (f : Feed) :
    (feed f t).2.ingoing.openMode = .readWrite := by
  cases f with
  | setIncoming data =>
      exact (Buffer.openMode_reset _).trans ((Buffer.openMode_write data _).trans h)
  | readData n => exact (Buffer.openMode_read n _).trans h

/-- The transport as a source fed by `setIncoming`: it owes what is unread. -/
def feedSource : Source HttpMemoryTransport Feed UInt8 where
  step := feed
  read := .readData
  supply := Feed.chunk
  owed := fun t => t.ingoing.unread
  Valid := fun t => t.ingoing.openMode = .readWrite
  supply_read := fun _ => rfl
  valid_step := fun f _ h => openMode_feed h f
  read_out := fun n _ h => feed_readData h n
  read_owed := fun n _ h => Buffer.unread_read h n

/-- A step keeps the stream exactly when its chunk appends. -/
theorem keeps_feed_iff {t : HttpMemoryTransport} (h : t.ingoing.openMode = .readWrite)
    (f : Feed) : feedSource.Keeps f t ↔ Appends f t := by
  cases f with
  | setIncoming data =>
      rw [Appends, ← Cursor.write_rewind_eq_iff, ← unread_setIncoming h]
      rfl
  | readData n => exact iff_of_true (Source.keeps_read n h) trivial

theorem law_feedSource_iff (fs : List Feed) : feedSource.Law fs new ↔ IncomingLaw fs :=
  ⟨fun h => ⟨h.safe, h.complete⟩, fun h => ⟨h.safe, h.complete⟩⟩

/-- **The law holds throughout a run of chunks and reads, however it is read on from
any point, exactly when every chunk of the run appends.** -/
theorem incomingLaw_iff (fs : List Feed) :
    (∀ gs, gs <+: fs → ∀ ns : List ℕ+, IncomingLaw (gs ++ ns.map .readData)) ↔
      Along feed Appends fs new := by
  have hopen : feedSource.Valid new := rfl
  have hlaw := Source.law_iff (S := feedSource) fs hopen
  have hstep := along_congr feed feedSource.valid_step fs
    (fun f _ t h => keeps_feed_iff h f) hopen
  simp only [law_feedSource_iff] at hlaw
  exact hlaw.trans hstep

/-- A second chunk that arrives before the first is read overwrites it: of `ab` and
`c` the reader gets `cb`. -/
theorem incomingLaw_second_chunk :
    ¬ IncomingLaw [.setIncoming [97, 98], .setIncoming [99], .readData 3] := by
  intro law
  exact absurd law.safe (by decide)

end FrameworkTests.HttpMemoryTransport
