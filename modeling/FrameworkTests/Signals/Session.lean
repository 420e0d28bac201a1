import FrameworkTests.Signals.Oracle

/-!
# A session of the signal tests

The test functions share one object: its map and its last signal survive from one
function to the next, and only `init`, which runs before each, resets them.  What the
handler under test does is taken as it comes: while events are processed some slots run,
and the callback a test has installed is called with some numbers.

`verdicts_session` says what a session proves of the handler.  Each function passes
exactly when its own deliveries were as expected, in whatever order the functions are
run and whatever was delivered in the others.  The callbacks of earlier rows are taken
not to be called any more: the variable they write to is gone.

## Main definitions

* `Delivery` — what happens while events are processed.
* `verifySignalEmitsSpecificSignal`, `verifySIGALRMonlyEmitsSignalRaised`,
  `testUnregistration` — the test functions.
* `TestFunction.Expected` — the deliveries a function accepts.
-/

namespace FrameworkTests.UnixSignalHandlerTest

open Run

variable {P : Platform}

/-- A slot of the object runs, or the callback of the test is called. -/
inductive Delivery
  | slot (slot : Slot)
  | callback (id : ℤ)
  deriving DecidableEq, Repr

/-- The object and `cbSignal` behind a delivery. -/
def deliver (s : UnixSignalHandlerTest P × ℤ) : Delivery → UnixSignalHandlerTest P × ℤ
  | .slot slot => (s.1.invoke slot, s.2)
  | .callback id => (s.1, id)

/-- The test of one row; `QVERIFY` and `QCOMPARE` return from it when they fail. -/
def verifySignalEmitsSpecificSignal (fuel : ℕ) (signal : ℤ) (deliveries : List Delivery)
    (t : UnixSignalHandlerTest P) : Exec Fault (Bool × UnixSignalHandlerTest P) := do
  let (t, cbSignal) := deliveries.foldl deliver (t, 0)
  let r ← t.wasOnlyTheGivenSignalInvoked fuel signal
  if !r.value then return (false, r.object)
  else if cbSignal ≠ signal then return (false, r.object)
  else return (r.object.lastSignal = signal, r.object)

/-- `i < sizeof signalMap && !signalMap[i]`, with an index of type `size_t`. -/
def sizeGoesOn (t : UnixSignalHandlerTest P) (i : ℕ) : Exec Fault Bool :=
  if i < sizeofSignalMap P then do
    let set ← t.entry i
    return !set
  else return false

/-- The loop over the map again, with an index of type `size_t`. -/
def sizeScan (fuel : ℕ) (t : UnixSignalHandlerTest P) : Exec Fault ℕ :=
  .whileLoop t.sizeGoesOn (fun i => .done ((i + 1) % 2 ^ 64)) fuel 0

def verifySIGALRMonlyEmitsSignalRaised (fuel : ℕ) (SIGALRM : ℤ) (slots : List Slot)
    (t : UnixSignalHandlerTest P) : Exec Fault (Bool × UnixSignalHandlerTest P) := do
  let t := invokeAll slots t
  let i ← t.sizeScan fuel
  if t.lastSignal ≠ SIGALRM then return (false, t)
  else return (i = sizeofSignalMap P, t)

/-- What the handler answers while `SIGURG` is registered and unregistered. -/
structure Registration where
  listenToUnixSignal : Bool
  isListeningTo : Bool
  ignoreUnixSignal : Bool
  isStillListeningTo : Bool
  deriving DecidableEq, Repr

/-- The four checks of the registration pass. -/
def Registration.verified (r : Registration) : Bool :=
  r.listenToUnixSignal && r.isListeningTo && r.ignoreUnixSignal && !r.isStillListeningTo

/-- The signal is only raised behind the checks. -/
def testUnregistration (r : Registration) (slots : List Slot) (t : UnixSignalHandlerTest P) :
    Exec Fault (Bool × UnixSignalHandlerTest P) :=
  if !r.verified then return (false, t)
  else
    let t := invokeAll slots t
    return (t.lastSignal = 0, t)

/-- A test function with what happens in it. -/
inductive TestFunction
  | verifySignalEmitsSpecificSignal (signal : ℤ) (deliveries : List Delivery)
  | verifySIGALRMonlyEmitsSignalRaised (slots : List Slot)
  | testUnregistration (r : Registration) (slots : List Slot)

/-- `init` and the test function. -/
def TestFunction.run (fuel : ℕ) (SIGALRM : ℤ) (f : TestFunction) (t : UnixSignalHandlerTest P) :
    Exec Fault (Bool × UnixSignalHandlerTest P) :=
  match f with
  | verifySignalEmitsSpecificSignal signal deliveries =>
      t.reset.verifySignalEmitsSpecificSignal fuel signal deliveries
  | verifySIGALRMonlyEmitsSignalRaised slots =>
      t.reset.verifySIGALRMonlyEmitsSignalRaised fuel SIGALRM slots
  | testUnregistration r slots => t.reset.testUnregistration r slots

/-! ### What passes -/

/-- The number passed last, 0 if there is none. -/
def lastId (ids : List ℤ) : ℤ := ids.getLast?.getD 0

def Slot.id? : Slot → Option ℤ
  | genericSignal id => some id
  | _ => none

def Delivery.slot? : Delivery → Option Slot
  | slot s => some s
  | callback _ => none

def Delivery.id? : Delivery → Option ℤ
  | slot _ => none
  | callback id => some id

/-- Of the slots that belong to a signal, that of `sig` ran and no other. -/
def OnlyOwn (P : Platform) (sig : ℤ) (slots : List Slot) : Prop :=
  (∃ slot ∈ slots, slot.signal P = some sig) ∧ ∀ slot ∈ slots, ∀ n ∈ slot.signal P, n = sig

instance (P : Platform) (sig : ℤ) (slots : List Slot) : Decidable (OnlyOwn P sig slots) :=
  inferInstanceAs (Decidable (_ ∧ _))

/-- The deliveries the function accepts.  `testUnregistration` only looks at the number
that was passed last, so it takes a slot of a signal, or the number 0, for nothing. -/
def TestFunction.Expected (P : Platform) (SIGALRM : ℤ) : TestFunction → Prop
  | verifySignalEmitsSpecificSignal signal deliveries =>
      OnlyOwn P signal (deliveries.filterMap Delivery.slot?) ∧
      lastId (deliveries.filterMap Delivery.id?) = signal ∧
      lastId ((deliveries.filterMap Delivery.slot?).filterMap Slot.id?) = signal
  | verifySIGALRMonlyEmitsSignalRaised slots =>
      lastId (slots.filterMap Slot.id?) = SIGALRM ∧ ∀ slot ∈ slots, slot.signal P = none
  | testUnregistration r slots => r.verified ∧ lastId (slots.filterMap Slot.id?) = 0

instance (P : Platform) (SIGALRM : ℤ) : ∀ f : TestFunction, Decidable (f.Expected P SIGALRM)
  | .verifySignalEmitsSpecificSignal _ _ => inferInstanceAs (Decidable (_ ∧ _ ∧ _))
  | .verifySIGALRMonlyEmitsSignalRaised _ => inferInstanceAs (Decidable (_ ∧ _))
  | .testUnregistration _ _ => inferInstanceAs (Decidable (_ ∧ _))

/-- A row is about a signal number. -/
def TestFunction.InRange (P : Platform) : TestFunction → Prop
  | verifySignalEmitsSpecificSignal signal _ => 0 ≤ signal ∧ signal < P.NSIG
  | _ => True

/-! ### What is left of the deliveries -/

theorem lastSignal_invokeAll (slots : List Slot) (t : UnixSignalHandlerTest P) :
    (invokeAll slots t).lastSignal = (slots.filterMap Slot.id?).getLast?.getD t.lastSignal := by
  induction slots generalizing t with
  | nil => rfl
  | cons slot slots ih =>
      have hstep : invokeAll (slot :: slots) t = invokeAll slots (t.invoke slot) := rfl
      rw [hstep, ih]
      cases slot with
      | genericSignal id =>
          rw [List.filterMap_cons_some (by rfl), List.getLast?_cons]
          rfl
      | sigTerm | sigInt | sigUsr1 | sigUsr2 =>
          rw [List.filterMap_cons_none (by rfl)]
          rfl

theorem lastSignal_of_reset (slots : List Slot) (t : UnixSignalHandlerTest P) :
    (invokeAll slots t.reset).lastSignal = lastId (slots.filterMap Slot.id?) :=
  lastSignal_invokeAll slots t.reset

/-- The object sees the slots and `cbSignal` the callbacks, however they are mixed. -/
theorem foldl_deliver (deliveries : List Delivery) (t : UnixSignalHandlerTest P) (id : ℤ) :
    deliveries.foldl deliver (t, id) =
      (invokeAll (deliveries.filterMap Delivery.slot?) t,
        (deliveries.filterMap Delivery.id?).getLast?.getD id) := by
  induction deliveries generalizing t id with
  | nil => rfl
  | cons d ds ih =>
      rw [List.foldl_cons]
      cases d with
      | slot slot =>
          rw [deliver, ih, List.filterMap_cons_some (b := slot) (by rfl),
            List.filterMap_cons_none (by rfl)]
          rfl
      | callback id' =>
          rw [deliver, ih, List.filterMap_cons_none (by rfl),
            List.filterMap_cons_some (b := id') (by rfl), List.getLast?_cons]
          rfl

/-! ### The loop with an index of type `size_t` -/

/-- **The loop ends at the end of the map exactly when nothing is pending.** -/
theorem sizeScan_eq (t : UnixSignalHandlerTest P) :
    ∃ i, (i = sizeofSignalMap P ↔ t.pending = ∅) ∧
      ∀ fuel, P.NSIG < fuel → t.sizeScan fuel = .done i := by
  have hlt := P.NSIG_lt
  -- the entries below the index were seen to be clear
  have hround : ∀ i : ℕ, Scanned t i →
      (t.sizeGoesOn i = .done false ∧ (i = P.NSIG ∨ (i : ℤ) ∈ t.pending)) ∨
        t.sizeGoesOn i = .done true ∧ i < P.NSIG ∧ Scanned t (i + 1 : ℕ) := by
    intro i hi
    have hle := hi.le
    rw [sizeGoesOn, sizeofSignalMap_eq]
    by_cases hend : i = P.NSIG
    · left
      rw [if_neg (by omega)]
      exact ⟨rfl, .inl hend⟩
    rw [if_pos (by omega)]
    by_cases hset : (i : ℤ) ∈ t.pending
    · left
      rw [entry_of_mem hset]
      exact ⟨rfl, .inr hset⟩
    right
    rw [entry_of_notMem (by omega) (by omega) hset]
    refine ⟨rfl, by omega, by omega, by omega, ?_⟩
    intro j hj
    have hij := hi.below j hj
    have hne : (i : ℤ) ≠ j := fun heq => hset (heq ▸ hj)
    omega
  have hstart : Scanned t (0 : ℕ) := ⟨le_rfl, by omega, fun j hj => hj.1⟩
  have hrule : ∀ i : ℕ, Scanned t i → t.sizeGoesOn i = .done false ∨
      t.sizeGoesOn i = .done true ∧ ∃ i' : ℕ, (.done ((i + 1) % 2 ^ 64) : Exec Fault ℕ) =
        .done i' ∧ Scanned t i' ∧ P.NSIG - i' < P.NSIG - i := by
    intro i hi
    rcases hround i hi with ⟨hstop, -⟩ | ⟨hmore, hin, hnext⟩
    · exact .inl hstop
    · refine .inr ⟨hmore, i + 1, ?_, hnext, by omega⟩
      rw [Nat.mod_eq_of_lt (by omega)]
  obtain ⟨i, hi, hstop, hloop⟩ := Exec.whileLoop_eq_done _ hrule hstart
  refine ⟨i, ?_, fun fuel hfuel => hloop fuel (by omega)⟩
  rw [sizeofSignalMap_eq]
  rcases hround i hi with ⟨-, hend⟩ | ⟨hmore, -⟩
  · constructor
    · intro heq
      apply Set.eq_empty_of_forall_notMem
      intro j hj
      have hij := hi.below j hj
      have hjlt := lt_of_mem_pending hj
      omega
    · intro hempty
      apply hend.resolve_right
      rw [hempty]
      exact Set.notMem_empty _
  · rw [hstop] at hmore
    simp at hmore

/-! ### The verdicts -/

theorem verifySignalEmitsSpecificSignal_eq {fuel : ℕ} (hfuel : P.NSIG < fuel) {signal : ℤ}
    (h0 : 0 ≤ signal) (h : signal < P.NSIG) (deliveries : List Delivery)
    (t : UnixSignalHandlerTest P) :
    ∃ t', t.reset.verifySignalEmitsSpecificSignal fuel signal deliveries = .done
      (decide (OnlyOwn P signal (deliveries.filterMap Delivery.slot?) ∧
        lastId (deliveries.filterMap Delivery.id?) = signal ∧
        lastId ((deliveries.filterMap Delivery.slot?).filterMap Slot.id?) = signal), t') := by
  obtain ⟨n, rfl⟩ := Int.eq_ofNat_of_zero_le h0
  obtain ⟨r, hr, hcall⟩ := exists_answer
    (invokeAll (deliveries.filterMap Delivery.slot?) t.reset) (n := n) (by omega)
  have hown : r.value = true ↔ OnlyOwn P n (deliveries.filterMap Delivery.slot?) :=
    hr.value_iff.trans (pending_eq_singleton_iff _ t n)
  have hlast : r.object.lastSignal =
      lastId ((deliveries.filterMap Delivery.slot?).filterMap Slot.id?) := by
    rw [hr.object_eq, ← lastSignal_of_reset _ t]
    rfl
  have hcallback : (deliveries.filterMap Delivery.id?).getLast?.getD 0 =
      lastId (deliveries.filterMap Delivery.id?) := rfl
  refine ⟨r.object, ?_⟩
  rw [verifySignalEmitsSpecificSignal, foldl_deliver, hcallback]
  simp only [hcall fuel hfuel, Exec.done_bind, hlast, ← hown]
  -- the checks in their order
  cases r.value with
  | false => simp
  | true =>
      by_cases hcb : lastId (deliveries.filterMap Delivery.id?) = n
      · simp [hcb]
      · simp [hcb]

theorem verifySIGALRMonlyEmitsSignalRaised_eq {fuel : ℕ} (hfuel : P.NSIG < fuel) (SIGALRM : ℤ)
    (slots : List Slot) (t : UnixSignalHandlerTest P) :
    ∃ t', t.reset.verifySIGALRMonlyEmitsSignalRaised fuel SIGALRM slots = .done
      (decide (lastId (slots.filterMap Slot.id?) = SIGALRM ∧
        ∀ slot ∈ slots, slot.signal P = none), t') := by
  obtain ⟨i, hi, hscan⟩ := sizeScan_eq (invokeAll slots t.reset)
  have hnone : i = sizeofSignalMap P ↔ ∀ slot ∈ slots, slot.signal P = none := by
    rw [hi, pending_invokeAll, pending_reset, Set.union_empty, Set.eq_empty_iff_forall_notMem]
    constructor
    · intro h slot hslot
      apply Option.eq_none_iff_forall_ne_some.mpr
      intro n hn
      exact h n ⟨slot, hslot, hn⟩
    · rintro h n ⟨slot, hslot, hn⟩
      rw [h slot hslot] at hn
      simp at hn
  refine ⟨invokeAll slots t.reset, ?_⟩
  simp only [verifySIGALRMonlyEmitsSignalRaised, hscan fuel hfuel, Exec.done_bind,
    lastSignal_of_reset]
  by_cases hlast : lastId (slots.filterMap Slot.id?) = SIGALRM
  · simp [hlast, hnone]
  · simp [hlast]

theorem testUnregistration_eq (r : Registration) (slots : List Slot)
    (t : UnixSignalHandlerTest P) :
    ∃ t', t.reset.testUnregistration r slots = .done
      (decide (r.verified = true ∧ lastId (slots.filterMap Slot.id?) = 0), t') := by
  cases hr : r.verified with
  | false => exact ⟨t.reset, by simp [testUnregistration, hr]⟩
  | true =>
      exact ⟨invokeAll slots t.reset, by simp [testUnregistration, hr, lastSignal_of_reset]⟩

/-- **A session is as good as its functions**: each passes exactly when what was
delivered in it was as expected, after any functions before it. -/
theorem verdicts_session {fuel : ℕ} (hfuel : P.NSIG < fuel) (SIGALRM : ℤ)
    {tests : List TestFunction} (htests : ∀ f ∈ tests, f.InRange P)
    (t : UnixSignalHandlerTest P) :
    ∃ t', Exec.runAll (TestFunction.run fuel SIGALRM) tests t =
      .done (tests.map fun f => decide (f.Expected P SIGALRM), t') := by
  refine Exec.runAll_memoryless ?_ htests t
  intro f s hf
  cases f with
  | verifySignalEmitsSpecificSignal signal deliveries =>
      exact verifySignalEmitsSpecificSignal_eq hfuel hf.1 hf.2 deliveries s
  | verifySIGALRMonlyEmitsSignalRaised slots =>
      exact verifySIGALRMonlyEmitsSignalRaised_eq hfuel SIGALRM slots s
  | testUnregistration r slots => exact testUnregistration_eq r slots s

/-- `SIGUSR1` arrives as it should, `SIGALRM` brings a slot of its own along, and
`SIGURG` is really gone. -/
def mixedSession : List TestFunction :=
  [.verifySignalEmitsSpecificSignal 10 [.slot .sigUsr1, .callback 10, .slot (.genericSignal 10)],
    .verifySIGALRMonlyEmitsSignalRaised [.genericSignal 14, .sigTerm],
    .testUnregistration ⟨true, true, true, false⟩ []]

theorem verdicts_session_mixed :
    (linux.NSIG < 66 ∧ ∀ f ∈ mixedSession, f.InRange linux) ∧
      ∃ t', Exec.runAll (TestFunction.run 66 14) mixedSession uninitialised =
        .done (mixedSession.map fun f => decide (f.Expected linux 14), t') := by
  have hrange : ∀ f ∈ mixedSession, f.InRange linux := by
    simp [mixedSession, TestFunction.InRange, linux]
  exact ⟨⟨by decide, hrange⟩, verdicts_session (by decide) 14 hrange _⟩

example : (mixedSession.map fun f => decide (f.Expected linux 14)) = [true, false, true] := by
  decide

end FrameworkTests.UnixSignalHandlerTest
