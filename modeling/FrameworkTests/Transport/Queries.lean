import FrameworkTests.Transport.Exchange

/-!
# What the transport reports about itself

`bytesAvailable`, `atEnd`, `canReadLine` and `pos` answer from the ingoing buffer
alone, while the first small read moves up to `IODevice.chunkSize` bytes from there
into the read-ahead of the base class.  `reportsTruthfully_iff`: the four answers
are right exactly while nothing is read ahead.

## Main definitions

* `Remaining t r` — `r` is what further reads would still return.
* `ReportsTruthfully t k` — the four answers agree with it, `k` bytes having been read.
-/

namespace FrameworkTests.HttpMemoryTransport

open Run

/-- All bytes that reads of the given sizes return from `t` on. -/
def readOn (ns : List ℕ+) (t : HttpMemoryTransport) : Bytes :=
  ((history exchange (ns.map .read) t).map Prod.snd).flatten

/-- `r` is what further reads would still return: no reads return more, and some
return all of it. -/
def Remaining (t : HttpMemoryTransport) (r : Bytes) : Prop :=
  (∀ ns, readOn ns t <+: r) ∧ ∃ ns, readOn ns t = r

/-- The queries agree with what further reads return, `k` bytes having been read. -/
def ReportsTruthfully (t : HttpMemoryTransport) (k : ℕ) : Prop :=
  ∃ r, Remaining t r ∧ t.bytesAvailable = r.length ∧ (t.atEnd = true ↔ r.length = 0) ∧
    (t.canReadLine = true ↔ newline ∈ r) ∧ t.pos = k

/-- Reads keep the state synced and the content as it is. -/
theorem readOn_spec (ns : List ℕ+) {t : HttpMemoryTransport} (ht : t.Synced) :
    readOn ns t ++ (after exchange (ns.map .read) t).owed = t.owed ∧
      (after exchange (ns.map .read) t).ingoing.data = t.ingoing.data ∧
      (after exchange (ns.map .read) t).Synced := by
  refine ⟨?_, ?_, Source.valid_after (S := requestSource) _ ht⟩
  · have h := Source.delivered_append_owed (S := requestSource)
      (Source.along_reads (S := requestSource) ns ht)
    rw [supplied_requestSource, List.append_nil] at h
    exact h
  · induction ns generalizing t with
    | nil => rfl
    | cons n ns ih =>
        obtain ⟨-, -, hdata, hsynced⟩ := read_synced ht n
        exact (ih hsynced).trans hdata

/-- What is owed is what further reads would still return, and nothing else is. -/
theorem remaining_iff {t : HttpMemoryTransport} (ht : t.Synced) (r : Bytes) :
    Remaining t r ↔ r = t.owed := by
  obtain ⟨n, hall, -⟩ := Source.exists_read_all (S := requestSource) ht
  have hread : readOn [n] t = t.owed := by
    change (exchange (.read n) t).1 ++ [] = _
    rw [List.append_nil]
    exact hall
  have hle : ∀ ns, readOn ns t <+: t.owed := fun ns => ⟨_, (readOn_spec ns ht).1⟩
  constructor
  · rintro ⟨hmax, ns, rfl⟩
    have h : t.owed <+: readOn ns t := hread ▸ hmax [n]
    exact (hle ns).eq_of_length_le h.length_le
  · rintro rfl
    exact ⟨hle, [n], hread⟩

/-- The number of bytes read ahead separates the position of the ingoing buffer from
that of the reader. -/
theorem pos_eq_of_append_owed {t : HttpMemoryTransport} {out : Bytes}
    (h : out ++ t.owed = t.ingoing.data) : t.pos = out.length + t.base.buffer.length := by
  have hlen := congrArg List.length h
  have hle : t.ingoing.pos ≤ t.ingoing.data.length := t.ingoing.cursor.pos_le
  rw [List.length_append, owed, List.length_append, Buffer.length_unread] at hlen
  simp only [pos, Buffer.bytesAvailable, Buffer.size] at hlen ⊢
  omega

/-- **After any reads of a request the reports are truthful exactly when the
read-ahead is empty.** -/
theorem reportsTruthfully_iff (d : Bytes) (ns : List ℕ+) :
    ReportsTruthfully (after exchange (ns.map .read) (new.setIncoming d))
        (readOn ns (new.setIncoming d)).length ↔
      (after exchange (ns.map .read) (new.setIncoming d)).base.buffer = [] := by
  obtain ⟨hout, hdata, ht⟩ := readOn_spec ns (synced_setIncoming d)
  generalize after exchange (ns.map .read) (new.setIncoming d) = t at *
  rw [owed_setIncoming] at hout
  rw [data_setIncoming] at hdata
  have hpos := pos_eq_of_append_owed (hout.trans hdata.symm)
  have hmode := ht.live.ingoing_open
  constructor
  · rintro ⟨r, -, -, -, -, hk⟩
    rw [← List.length_eq_zero_iff]
    omega
  · intro hb
    have howed : t.owed = t.ingoing.unread := by rw [owed, hb, List.nil_append]
    refine ⟨t.owed, (remaining_iff ht _).mpr rfl, ?_, ?_, ?_, ?_⟩
    · rw [howed, Buffer.length_unread]
      rfl
    · rw [howed, List.length_eq_zero_iff]
      exact Buffer.atEnd_iff hmode
    · rw [howed]
      exact Buffer.canReadLine_iff hmode
    · rw [hpos, hb]
      rfl

/-- One byte read of `ab`: the other one is in the read-ahead, so the transport
reports position 2. -/
theorem reportsTruthfully_after_one :
    ¬ ReportsTruthfully (after exchange [.read 1] (new.setIncoming [97, 98]))
      (readOn [1] (new.setIncoming [97, 98])).length := by
  rintro ⟨r, -, -, -, -, hpos⟩
  exact absurd hpos (by decide)

end FrameworkTests.HttpMemoryTransport
