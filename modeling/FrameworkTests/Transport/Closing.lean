import FrameworkTests.Transport.Outgoing

/-!
# The close protocol

A device that closes first announces it, so that listeners of `aboutToClose` can
still write what they hold back, and an already closed device announces nothing.
The override changes the mode first and has no guard.

The protocol has four parts, each a condition on single steps.  `closeProtocol_iff`
says which part holds of which runs: what comes after `close` is always right, the
number of announcements is right when each `close` finds the transport open, and
what listeners write is lost at every `close`.  The whole protocol holds of exactly
the runs that never close.

## Main definitions

* `Session`, `session` — opening, writing and closing, with a writing listener.
* `AnnouncesOnce`, `AnnouncesOpen`, `CapturesListener`, `EndsClosed` — the parts.
* `CloseProtocol` — all of them along a run.
-/

namespace FrameworkTests.HttpMemoryTransport

open Run

inductive Session
  | «open»
  | write (data : Bytes)
  | close
  deriving DecidableEq

/-- How often `aboutToClose` was emitted. -/
def announcements (t : HttpMemoryTransport) : ℕ := t.emitted.countP (·.1 = .aboutToClose)

/-- Write several byte arrays in order. -/
def writeAll (ws : List Bytes) (t : HttpMemoryTransport) : HttpMemoryTransport :=
  ws.foldl (fun t data => (t.write data).2) t

/-- The listener writes `notice k` when it is notified for the `k`-th time. -/
def listener (notice : ℕ → List Bytes) (t : HttpMemoryTransport) : HttpMemoryTransport :=
  writeAll (notice t.announcements) t

def session (notice : ℕ → List Bytes) : Session → HttpMemoryTransport → Unit × HttpMemoryTransport
  | .open, t => ((), t.open .readWrite)
  | .write data, t => ((), (t.write data).2)
  | .close, t => ((), t.close (listener notice))

section Parts
variable (notice : ℕ → List Bytes) (s : Session) (t : HttpMemoryTransport)

/-- One announcement for a transition from open to closed, and none otherwise. -/
def AnnouncesOnce : Prop :=
  (session notice s t).2.announcements =
    t.announcements + if t.isOpen ∧ ¬ (session notice s t).2.isOpen then 1 else 0

/-- Whatever the step emits, its listeners find the transport open. -/
def AnnouncesOpen : Prop :=
  ∀ e ∈ (session notice s t).2.emitted.drop t.emitted.length, e.2 = .readWrite

/-- The listener's bytes follow those captured before. -/
def CapturesListener : Prop :=
  s = .close → t.isOpen = true →
    (session notice s t).2.outData = t.outData ++ (notice (t.announcements + 1)).flatten

/-- A `close` ends closed, and a closed transport captures nothing. -/
def EndsClosed : Prop :=
  (s = .close → (session notice s t).2.isOpen = false) ∧
    (t.isOpen = false → (session notice s t).2.outData = t.outData)

end Parts

/-- **The close protocol** of a run on a fresh transport. -/
def CloseProtocol (notice : ℕ → List Bytes) (ss : List Session) : Prop :=
  Along (session notice) (fun s t => (AnnouncesOnce notice s t ∧ AnnouncesOpen notice s t) ∧
    CapturesListener notice s t ∧ EndsClosed notice s t) ss new

/-- Writes on a closed transport change nothing. -/
theorem writeAll_of_closed {t : HttpMemoryTransport} (h : t.base.openMode = .notOpen)
    (ws : List Bytes) : writeAll ws t = t := by
  induction ws with
  | nil => rfl
  | cons data ws ih =>
      change writeAll ws (t.write data).2 = t
      rw [write_of_closed h]
      exact ih

/-- The listener of `close` finds the transport closed, so it changes nothing. -/
theorem close_listener (notice : ℕ → List Bytes) (t : HttpMemoryTransport) :
    t.close (listener notice) = t.close id :=
  writeAll_of_closed rfl _

@[simp] theorem emitted_write (t : HttpMemoryTransport) (ht : t.Live) (data : Bytes) :
    (t.write data).2.emitted = t.emitted := by
  cases hopen : t.base.openMode with
  | notOpen => rw [write_of_closed hopen]
  | readWrite => rw [write_eq ht hopen]

theorem live_session {notice : ℕ → List Bytes} {t : HttpMemoryTransport} (ht : t.Live)
    (s : Session) : (session notice s t).2.Live := by
  cases s with
  | «open» => exact live_step ht .open
  | write data => exact live_step ht (.write data)
  | close =>
      simp only [session, close_listener]
      exact live_step ht .close

@[simp] theorem emitted_close (t : HttpMemoryTransport) :
    (t.close id).emitted = t.emitted ++ [(.aboutToClose, .notOpen)] := rfl

theorem announcesOnce_iff {notice : ℕ → List Bytes} {s : Session} {t : HttpMemoryTransport}
    (ht : t.Live) : AnnouncesOnce notice s t ↔ (s = .close → t.isOpen = true) := by
  cases s with
  | «open» =>
      have hopen : (t.open .readWrite).isOpen = true := rfl
      simp only [AnnouncesOnce, session, hopen, not_true_eq_false, and_false, if_false,
        reduceCtorEq, false_implies, iff_true]
      rfl
  | write data =>
      have hopen : (t.write data).2.isOpen = t.isOpen := isOpen_congr (write_frame ht data).1
      simp [AnnouncesOnce, session, hopen, announcements, emitted_write t ht]
  | close =>
      have hclosed : (t.close id).isOpen = false := rfl
      have hcount : (t.close id).announcements = t.announcements + 1 := by
        simp [announcements]
      simp only [AnnouncesOnce, session, close_listener, hclosed, hcount, forall_const]
      cases t.isOpen <;> simp

theorem announcesOpen_iff {notice : ℕ → List Bytes} {s : Session} {t : HttpMemoryTransport}
    (ht : t.Live) : AnnouncesOpen notice s t ↔ s ≠ .close := by
  cases s with
  | «open» => simp [AnnouncesOpen, session, HttpMemoryTransport.open]
  | write data => simp [AnnouncesOpen, session, emitted_write t ht]
  | close => simp [AnnouncesOpen, session, close_listener]

theorem capturesListener_iff {notice : ℕ → List Bytes} {s : Session} {t : HttpMemoryTransport} :
    CapturesListener notice s t ↔
      (s = .close → t.isOpen = true → (notice (t.announcements + 1)).flatten = []) := by
  rw [CapturesListener]
  refine forall_congr' fun hs => forall_congr' fun _ => ?_
  subst hs
  have hout : (session notice .close t).2.outData = t.outData := by
    simp only [session, close_listener]
    rfl
  rw [hout]
  exact List.self_eq_append_right

theorem endsClosed {notice : ℕ → List Bytes} (s : Session) {t : HttpMemoryTransport}
    (ht : t.Live) : EndsClosed notice s t := by
  cases s with
  | «open» => exact ⟨by simp, fun _ => rfl⟩
  | write data =>
      refine ⟨by simp, fun hclosed => ?_⟩
      simp [session, (write_frame ht data).2.2, hclosed]
  | close =>
      simp only [EndsClosed, session, close_listener]
      exact ⟨fun _ => rfl, fun _ => rfl⟩

/-- **The close protocol holds of a run exactly when the run never closes.**  Of its
parts, the announcements are counted right exactly when each `close` finds the
transport open, the listener's bytes are captured exactly when it writes none at
such a `close`, and what follows a `close` is always right. -/
theorem closeProtocol_iff (notice : ℕ → List Bytes) (ss : List Session) :
    (CloseProtocol notice ss ↔ .close ∉ ss) ∧
    (Along (session notice) (AnnouncesOnce notice) ss new ↔
      Along (session notice) (fun s t => s = .close → t.isOpen = true) ss new) ∧
    (Along (session notice) (CapturesListener notice) ss new ↔
      Along (session notice) (fun s t => s = .close → t.isOpen = true →
        (notice (t.announcements + 1)).flatten = []) ss new) ∧
    Along (session notice) (EndsClosed notice) ss new := by
  have hlive : ∀ s t, t.Live → (session notice s t).2.Live := fun s _ ht => live_session ht s
  refine ⟨?_, ?_, ?_, ?_⟩
  · have hall : ∀ s ∈ ss, ∀ t, t.Live →
        ((AnnouncesOnce notice s t ∧ AnnouncesOpen notice s t) ∧
          CapturesListener notice s t ∧ EndsClosed notice s t ↔ s ≠ .close) := by
      intro s _ t ht
      rw [announcesOnce_iff ht, announcesOpen_iff ht, capturesListener_iff]
      constructor
      · exact fun h => h.1.2
      · exact fun hne => ⟨⟨fun h => absurd h hne, hne⟩, fun h => absurd h hne, endsClosed s ht⟩
    rw [CloseProtocol, along_congr _ hlive ss hall live_new, along_const]
    exact List.forall_mem_ne'
  · exact along_congr _ hlive ss (fun s _ t ht => announcesOnce_iff ht) live_new
  · exact along_congr _ hlive ss (fun s _ t _ => capturesListener_iff) live_new
  · refine (along_congr _ hlive ss (D := fun _ _ => True) ?_ live_new).mpr ?_
    · exact fun s _ t ht => iff_true_intro (endsClosed s ht)
    · exact (along_const _ (fun _ => True) ss new).mpr (fun _ _ => trivial)

/-- A single `close` with a listener that writes one byte: the byte is lost. -/
theorem closeProtocol_one_close : ¬ CloseProtocol (fun _ => [[1]]) [.close] := by
  rintro ⟨⟨-, hcaptures, -⟩, -⟩
  exact absurd (hcaptures rfl rfl) (by decide)

end FrameworkTests.HttpMemoryTransport
