import FrameworkTests.Transport.Channels
import FrameworkTests.Transport.Queries

/-!
# Clearing and reopening a transport

`initTestCase` of the RESTful test lets a server handle a first request and then makes
the transport ready for the tests: it clears the outgoing buffer and opens the
transport anew.  Opening resets the base position but not `devicePos`, and touches
neither buffer.

`reopened_iff` says what this amounts to behind any run.  The response side is as good
as new.  The request can be read once more from its start exactly when `devicePos` is
not 0, so that the base class seeks, or the ingoing buffer stands at its start anyway.

## Main definitions

* `initTestCase before` — a run that is cleared and reopened.
* `Tracks` — the base position says where the reader is.
-/

namespace FrameworkTests.HttpMemoryTransport

open Run

/-- A run of the server, and what the test does behind it. -/
def initTestCase (before : List Op) : List Op := before ++ [.clearOutgoing, .open]

/-- What a reader at the base position has before it. -/
def ahead (t : HttpMemoryTransport) : Bytes := t.inData.drop t.base.pos

/-- The base position is the reader's place in the request: what is read ahead lies
behind it, and where the base class will not seek, the ingoing buffer is in place. -/
structure Tracks (t : HttpMemoryTransport) : Prop where
  live : t.Live
  isOpen : t.base.openMode = .readWrite
  buffer : t.base.buffer <+: t.ahead
  inside : t.base.pos ≤ t.size
  aligned : t.base.pos + t.base.buffer.length = t.base.devicePos →
    t.ingoing.pos = t.base.devicePos

theorem length_ahead (t : HttpMemoryTransport) : t.ahead.length = t.size - t.base.pos := by
  rw [ahead, List.length_drop]
  rfl

/-- Behind the read-ahead, the ingoing buffer is where the reader goes on. -/
theorem Tracks.source {t : HttpMemoryTransport} (ht : t.Tracks) :
    t.drained.repositioned.data = t.inData ∧
      t.drained.repositioned.pos = t.base.pos + t.base.buffer.length ∧
      t.drained.repositioned.unread = t.ahead.drop t.base.buffer.length := by
  suffices hplace : t.drained.repositioned.data = t.inData ∧
      t.drained.repositioned.pos = t.base.pos + t.base.buffer.length by
    refine ⟨hplace.1, hplace.2, ?_⟩
    change t.drained.repositioned.data.drop t.drained.repositioned.pos = _
    rw [hplace.1, hplace.2, ahead, List.drop_drop]
  have hpos : t.drained.base.pos = t.base.pos + t.base.buffer.length := rfl
  have hdevice : t.drained.base.devicePos = t.base.devicePos := rfl
  rw [repositioned, hpos, hdevice]
  split
  · rename_i heq
    exact ⟨rfl, (ht.aligned heq).trans heq.symm⟩
  · have hlen := ht.buffer.length_le
    have hinside := ht.inside
    rw [length_ahead] at hlen
    refine ⟨Cursor.data_seek_of_le 0 ?_, rfl⟩
    change _ ≤ t.size
    omega

private theorem drop_length_take {α : Type*} (u : List α) (k : ℕ) :
    u.drop (u.take k).length = u.drop k := by
  rw [List.length_take]
  rcases Nat.le_total k u.length with h | h
  · rw [Nat.min_eq_left h]
  · rw [Nat.min_eq_right h, List.drop_length, List.drop_eq_nil_of_le h]

/-- **A read by a tracked reader** hands out what is before it. -/
theorem read_tracks {t : HttpMemoryTransport} (ht : t.Tracks) (n : ℕ) :
    (t.read n).1 = some (t.ahead.take n) ∧ (t.read n).2.ahead = t.ahead.drop n ∧
      (t.read n).2.inData = t.inData ∧ (t.read n).2.Tracks := by
  have hlive : (t.read n).2.Live := live_step ht.live (.read n)
  have hmode := (read_frame ht.live.ingoing_open n).1.trans ht.isOpen
  have hlen := ht.buffer.length_le
  have hinside := ht.inside
  rw [length_ahead] at hlen
  obtain ⟨rest, hrest⟩ := ht.buffer
  by_cases hn : n ≤ t.base.buffer.length
  · rw [read_of_le ht.isOpen hn] at hlive hmode ⊢
    have hahead : t.inData.drop (t.base.pos + n) = t.ahead.drop n := by
      rw [ahead, List.drop_drop]
    refine ⟨?_, hahead, rfl, hlive, hmode, ?_, ?_, ?_⟩
    · rw [← hrest, List.take_append_of_le_length hn]
    · change t.base.buffer.drop n <+: t.inData.drop (t.base.pos + n)
      rw [hahead]
      exact ht.buffer.drop n
    · change t.base.pos + n ≤ t.size
      omega
    · change t.base.pos + n + (t.base.buffer.drop n).length = t.base.devicePos → _
      rw [List.length_drop]
      intro h
      exact ht.aligned (by omega)
  · have hlt : t.base.buffer.length < n := by omega
    have hreq : n - t.base.buffer.length ≤ t.request n := Nat.le_max_left _ _
    obtain ⟨hdata, hpos, hunread⟩ := ht.source
    rw [← hrest, List.drop_left] at hunread
    have hrestlen := congrArg List.length hrest
    rw [List.length_append, length_ahead] at hrestlen
    have hdrop : t.ahead.drop n = rest.drop (n - t.base.buffer.length) := by
      rw [← hrest, List.drop_append, List.drop_eq_nil_of_le (Nat.le_of_lt hlt), List.nil_append]
    have hread := read_of_lt ht.live.ingoing_open ht.isOpen hlt
    simp only [hunread] at hread
    -- the state behind the read, part by part
    have hpos' : (t.read n).2.base.pos = t.base.pos + t.base.buffer.length +
        (rest.take (n - t.base.buffer.length)).length := by rw [hread]
    have hbuffer' : (t.read n).2.base.buffer =
        (rest.take (t.request n)).drop (n - t.base.buffer.length) := by rw [hread]
    have hdevice' : (t.read n).2.base.devicePos =
        t.base.devicePos + (rest.take (t.request n)).length := by rw [hread]
    have hdata' : (t.read n).2.inData = t.inData := by
      rw [hread]
      exact hdata
    have hingoing' : (t.read n).2.ingoing.pos =
        min (t.base.pos + t.base.buffer.length + t.request n) t.size := by
      rw [hread]
      change min (t.drained.repositioned.pos + t.request n) t.drained.repositioned.data.length = _
      rw [hpos, hdata]
      rfl
    have hahead' : (t.read n).2.ahead = t.ahead.drop n := by
      rw [hdrop, ahead, hdata', hpos', ← List.drop_drop, ← List.drop_drop]
      change ((t.ahead.drop _).drop _) = _
      rw [← hrest, List.drop_left, drop_length_take]
    have hsize' : (t.read n).2.size = t.size := congrArg List.length hdata'
    refine ⟨?_, hahead', hdata', hlive, hmode, ?_, ?_, ?_⟩
    · rw [hread, ← hrest, List.take_append, List.take_of_length_le (Nat.le_of_lt hlt)]
    · rw [hbuffer', hahead', hdrop]
      exact (List.take_prefix _ _).drop _
    · rw [hpos', hsize', List.length_take]
      omega
    · rw [hpos', hbuffer', hdevice', hingoing', List.length_drop, List.length_take,
        List.length_take]
      intro h
      omega

/-- Reading on, a tracked reader gets what is before it. -/
theorem readOn_tracks (ns : List ℕ+) {t : HttpMemoryTransport} (ht : t.Tracks) :
    ∃ rest, readOn ns t ++ rest = t.ahead := by
  induction ns generalizing t with
  | nil => exact ⟨t.ahead, rfl⟩
  | cons n ns ih =>
      obtain ⟨hout, hahead, -, htracks⟩ := read_tracks ht n
      obtain ⟨rest, hrest⟩ := ih htracks
      have hcons : readOn (n :: ns) t = t.ahead.take n ++ readOn ns (t.read n).2 := by
        simp [readOn, exchange, hout]
      refine ⟨rest, ?_⟩
      rw [hcons, List.append_assoc, hrest, hahead, List.take_append_drop]

theorem remaining_of_tracks {t : HttpMemoryTransport} (ht : t.Tracks) : Remaining t t.ahead := by
  refine ⟨fun ns => readOn_tracks ns ht, [t.ahead.length.succPNat], ?_⟩
  change (exchange (.read _) t).1 ++ [] = _
  rw [List.append_nil, exchange, (read_tracks ht _).1]
  exact List.take_of_length_le (Nat.le_succ _)

/-! ### Behind any run -/

/-- A live transport, reopened. -/
theorem tracks_reopened {t : HttpMemoryTransport} (ht : t.Live)
    (h : t.base.devicePos ≠ 0 ∨ t.ingoing.pos = 0) : (t.open .readWrite).Tracks where
  live := live_step ht .open
  isOpen := rfl
  buffer := List.nil_prefix
  inside := Nat.zero_le _
  aligned := by
    intro hzero
    have hdevice : t.base.devicePos = 0 := hzero.symm
    exact (h.resolve_left (not_not_intro hdevice)).trans hdevice.symm

/-- Without a seek the reopened transport reads on where the ingoing buffer stands. -/
theorem synced_reopened {t : HttpMemoryTransport} (ht : t.Live) (h : t.base.devicePos = 0) :
    (t.open .readWrite).Synced where
  live := live_step ht .open
  isOpen := rfl
  devicePos_eq := h
  pos_pos := fun hne => absurd rfl hne
  suffix := List.drop_suffix _ _

/-- **Reopening behind any run.**  From then on the capture is that of a fresh transport;
and what reads return is the request from its start exactly when the base class seeks
there, or the ingoing buffer is there already. -/
theorem reopened_iff (before : List Op) :
    (∀ ops, (after step (initTestCase before ++ ops) new).outData =
        (after step ops new).outData ∧
      (after step (initTestCase before ++ ops) new).isOpen = (after step ops new).isOpen) ∧
    (Remaining (after step (initTestCase before) new) (after step before new).inData ↔
      (after step before new).base.devicePos ≠ 0 ∨ (after step before new).ingoing.pos = 0) := by
  constructor
  · intro ops
    have hready : ∀ c, (initTestCase before).foldl (fun c op => capture op c) c = (true, []) := by
      intro c
      rw [initTestCase, List.foldl_append]
      rfl
    have h := captures_after (initTestCase before ++ ops)
    have h' := captures_after ops
    rw [captured_filter, List.foldl_append, hready] at h
    rw [captured_filter] at h'
    exact ⟨h.2.2.trans h'.2.2.symm, h.2.1.trans h'.2.1.symm⟩
  · have hlive := live_step (live_after before) .clearOutgoing
    have hrun : after step (initTestCase before) new =
        (after step before new).clearOutgoing.open .readWrite := by
      rw [initTestCase, after_append]
      rfl
    rw [hrun]
    generalize after step before new = t at hlive ⊢
    constructor
    · intro hall
      by_contra hnot
      rw [not_or, not_not] at hnot
      have howed := (remaining_iff (synced_reopened hlive hnot.1) _).mp hall
      have hlen : t.size = t.ingoing.bytesAvailable :=
        (congrArg List.length howed).trans t.ingoing.length_unread
      have hle : t.ingoing.pos ≤ t.size := t.ingoing.cursor.pos_le
      change t.size = t.size - t.ingoing.pos at hlen
      omega
    · intro h
      exact remaining_of_tracks (tracks_reopened hlive h)

end FrameworkTests.HttpMemoryTransport
