import FrameworkTests.Signals.Slots

/-!
# The signal oracle

`wasOnlyTheGivenSignalInvoked` decides a test: was this signal delivered since the
reset, and no other?  It clears the entry of the signal and scans the map for
another one.  The scan is a `for` loop without a body over an `int` index, with the
size of the map both as its bound and as the mark for having found nothing.

Reads and the index are checked here, so that a result means that nothing was read
outside the map and no index overflowed.

## Main definitions

* `wasOnlyTheGivenSignalInvoked` — the oracle, with `scan`.
* `Answer` — the three ways it answers.
* `wasOnlyTheGivenSignalInvoked_iff` — the oracle over every run of slots.
-/

namespace FrameworkTests.UnixSignalHandlerTest
variable {P : Platform}

/-- What would leave the language's guarantees. -/
inductive Fault
  | outOfBounds (index : ℤ)
  | overflow
  deriving DecidableEq, Repr

/-- The returned value, what was printed, and the object afterwards. -/
structure Reply (P : Platform) where
  value : Bool
  printed : List String
  object : UnixSignalHandlerTest P
  deriving DecidableEq

def notSet (sig : ℤ) : String := s!"** Signal {sig} not set"
def alsoInvoked (i : ℤ) : String := s!"** Also invoked {i}"

/-- An `int` compared with a `size_t` is converted to it. -/
def toSize (i : ℤ) : ℕ := (i % 2 ^ 64).toNat

/-- `sizeof signalMap` -/
def sizeofSignalMap (P : Platform) : ℕ := P.NSIG * P.sizeofBool

/-- `signalMap[i]` -/
def entry (i : ℤ) (t : UnixSignalHandlerTest P) : Exec Fault Bool :=
  if h : 0 ≤ i ∧ i.toNat < P.NSIG then .done t.signalMap[i.toNat] else .fault (.outOfBounds i)

/-- `signalMap[i] = false` -/
def clear (i : ℤ) (t : UnixSignalHandlerTest P) : Exec Fault (UnixSignalHandlerTest P) :=
  if h : 0 ≤ i ∧ i.toNat < P.NSIG then .done (t.put false i.toNat h.2)
  else .fault (.outOfBounds i)

/-- `i++` -/
def increment (i : ℤ) : Exec Fault ℤ :=
  if i + 1 < 2 ^ 31 then .done (i + 1) else .fault .overflow

/-- `i < sizeof signalMap && !signalMap[i]` -/
def goesOn (t : UnixSignalHandlerTest P) (i : ℤ) : Exec Fault Bool :=
  if toSize i < sizeofSignalMap P then do
    let set ← t.entry i
    return !set
  else return false

/-- The loop over the map, from index 0. -/
def scan (fuel : ℕ) (t : UnixSignalHandlerTest P) : Exec Fault ℤ :=
  .whileLoop t.goesOn increment fuel 0

def wasOnlyTheGivenSignalInvoked (fuel : ℕ) (sig : ℤ) (t : UnixSignalHandlerTest P) :
    Exec Fault (Reply P) := do
  let set ← t.entry sig
  if !set then return ⟨false, [notSet sig], t⟩
  else
    let t ← t.clear sig
    let i ← t.scan fuel
    if toSize i ≠ sizeofSignalMap P then return ⟨false, [alsoInvoked i], t⟩
    else return ⟨true, [], t⟩

/-! ### The accesses -/

theorem sizeofSignalMap_eq : sizeofSignalMap P = P.NSIG := by
  rw [sizeofSignalMap, P.sizeofBool_eq, Nat.mul_one]

theorem toSize_of_le {i : ℤ} (h0 : 0 ≤ i) (h : i ≤ P.NSIG) : toSize i = i.toNat := by
  have := P.NSIG_lt
  rw [toSize, Int.emod_eq_of_lt h0 (by omega)]

theorem entry_of_mem {t : UnixSignalHandlerTest P} {i : ℤ} (h : i ∈ t.pending) :
    t.entry i = .done true := by
  have hlt := lt_of_mem_pending h
  obtain ⟨h0, hset⟩ := h
  have hrange : 0 ≤ i ∧ i.toNat < P.NSIG := by omega
  obtain ⟨_, hset⟩ := Vector.getElem?_eq_some_iff.mp hset
  rw [entry, dif_pos hrange, hset]

theorem entry_of_notMem {t : UnixSignalHandlerTest P} {i : ℤ} (h0 : 0 ≤ i) (h : i < P.NSIG)
    (hi : i ∉ t.pending) : t.entry i = .done false := by
  have hrange : 0 ≤ i ∧ i.toNat < P.NSIG := by omega
  have hset : t.signalMap[i.toNat] ≠ true := by
    intro hset
    exact hi ⟨h0, Vector.getElem?_eq_some_iff.mpr ⟨hrange.2, hset⟩⟩
  rw [entry, dif_pos hrange, Bool.eq_false_of_not_eq_true hset]

theorem clear_eq (t : UnixSignalHandlerTest P) {n : ℕ} (h : n < P.NSIG) :
    t.clear n = .done (t.put false n h) := by
  have hrange : 0 ≤ (n : ℤ) ∧ (n : ℤ).toNat < P.NSIG := by omega
  rw [clear, dif_pos hrange]
  rfl

/-! ### The scan -/

/-- Every entry below the index was seen to be clear. -/
structure Scanned (t : UnixSignalHandlerTest P) (i : ℤ) : Prop where
  nonneg : 0 ≤ i
  le : i ≤ P.NSIG
  below : ∀ j ∈ t.pending, i ≤ j

/-- One evaluation of the loop's condition: it stops at an entry that is set and at
the end of the map, and otherwise goes on to the next index. -/
theorem goesOn_cases {t : UnixSignalHandlerTest P} {i : ℤ} (h : Scanned t i) :
    (t.goesOn i = .done false ∧ (i = P.NSIG ∨ i ∈ t.pending)) ∨
      (t.goesOn i = .done true ∧ increment i = .done (i + 1) ∧ Scanned t (i + 1) ∧ i < P.NSIG) := by
  have hlt := P.NSIG_lt
  have h0 := h.nonneg
  have hle := h.le
  rw [goesOn, toSize_of_le h0 hle, sizeofSignalMap_eq]
  by_cases hend : i = P.NSIG
  · left
    rw [if_neg (by omega)]
    exact ⟨rfl, .inl hend⟩
  rw [if_pos (by omega)]
  by_cases hset : i ∈ t.pending
  · left
    rw [entry_of_mem hset]
    exact ⟨rfl, .inr hset⟩
  right
  rw [entry_of_notMem h0 (by omega) hset]
  refine ⟨rfl, if_pos (by omega), ⟨by omega, by omega, fun j hj => ?_⟩, by omega⟩
  have hij := h.below j hj
  have hne : i ≠ j := fun heq => hset (heq ▸ hj)
  omega

/-- **The scan ends at the first entry that is set, or at the end of a clear map.** -/
theorem scan_eq (t : UnixSignalHandlerTest P) :
    (t.pending = ∅ ∧ ∀ fuel, P.NSIG < fuel → t.scan fuel = .done P.NSIG) ∨
      ∃ i ∈ t.pending, (∀ j ∈ t.pending, i ≤ j) ∧
        ∀ fuel, P.NSIG < fuel → t.scan fuel = .done i := by
  have hstart : Scanned t 0 := ⟨le_rfl, by omega, fun j hj => hj.1⟩
  have hround : ∀ i, Scanned t i → t.goesOn i = .done false ∨
      t.goesOn i = .done true ∧ ∃ i', increment i = .done i' ∧ Scanned t i' ∧
        (P.NSIG - i').toNat < (P.NSIG - i).toNat := by
    intro i hi
    rcases goesOn_cases hi with ⟨hstop, -⟩ | ⟨hmore, hinc, hnext, hlt⟩
    · exact .inl hstop
    · exact .inr ⟨hmore, i + 1, hinc, hnext, by omega⟩
  obtain ⟨i, hi, hstop, hloop⟩ := Exec.whileLoop_eq_done _ hround hstart
  have hscan : ∀ fuel, P.NSIG < fuel → t.scan fuel = .done i :=
    fun fuel hfuel => hloop fuel (by omega)
  rcases goesOn_cases hi with ⟨-, rfl | hset⟩ | ⟨hmore, -⟩
  · refine .inl ⟨?_, hscan⟩
    apply Set.eq_empty_of_forall_notMem
    intro j hj
    exact absurd (hi.below j hj) (not_le.mpr (lt_of_mem_pending hj))
  · exact .inr ⟨i, hset, hi.below, hscan⟩
  · rw [hstop] at hmore
    simp at hmore

/-! ### The answer -/

/-- The three ways the oracle answers when asked for the signal `n`. -/
inductive Answer (n : ℕ) (h : n < P.NSIG) (t : UnixSignalHandlerTest P) : Reply P → Prop
  | notSet : (n : ℤ) ∉ t.pending → Answer n h t ⟨false, [notSet n], t⟩
  | alsoInvoked (i : ℤ) : (n : ℤ) ∈ t.pending → i ∈ t.pending → i ≠ n →
      (∀ j ∈ t.pending, j ≠ n → i ≤ j) →
      Answer n h t ⟨false, [alsoInvoked i], t.put false n h⟩
  | only : t.pending = {(n : ℤ)} → Answer n h t ⟨true, [], t.put false n h⟩

/-- **The oracle returns, with one of the three answers.** -/
theorem exists_answer (t : UnixSignalHandlerTest P) {n : ℕ} (h : n < P.NSIG) :
    ∃ r, Answer n h t r ∧
      ∀ fuel, P.NSIG < fuel → t.wasOnlyTheGivenSignalInvoked fuel n = .done r := by
  by_cases hset : (n : ℤ) ∈ t.pending
  swap
  · refine ⟨_, .notSet hset, fun fuel _ => ?_⟩
    rw [wasOnlyTheGivenSignalInvoked, entry_of_notMem (by omega) (by omega) hset]
    rfl
  -- the map is scanned without the entry that was asked for
  have hmem : ∀ j, j ∈ (t.put false n h).pending ↔ j ∈ t.pending ∧ j ≠ n := by
    intro j
    rw [pending_put_false, Set.mem_sdiff, Set.mem_singleton_iff]
  rcases scan_eq (t.put false n h) with ⟨hempty, hscan⟩ | ⟨i, hi, hfirst, hscan⟩
  · refine ⟨_, .only ?_, fun fuel hfuel => ?_⟩
    · ext j
      rw [Set.mem_singleton_iff]
      constructor
      · intro hj
        by_contra hne
        exact Set.notMem_empty j (hempty ▸ (hmem j).mpr ⟨hj, hne⟩)
      · intro hj
        exact hj ▸ hset
    · have hend : toSize P.NSIG = sizeofSignalMap P := by
        rw [toSize_of_le (by omega) le_rfl, sizeofSignalMap_eq]
        rfl
      simp [wasOnlyTheGivenSignalInvoked, entry_of_mem hset, clear_eq t h, hscan fuel hfuel, hend]
  · obtain ⟨hset', hne⟩ := (hmem i).mp hi
    refine ⟨_, .alsoInvoked i hset hset' hne ?_, fun fuel hfuel => ?_⟩
    · intro j hj hjn
      exact hfirst j ((hmem j).mpr ⟨hj, hjn⟩)
    · have hfound : toSize i ≠ sizeofSignalMap P := by
        have h0 := hset'.1
        have hlt := lt_of_mem_pending hset'
        rw [toSize_of_le h0 hlt.le, sizeofSignalMap_eq]
        omega
      simp [wasOnlyTheGivenSignalInvoked, entry_of_mem hset, clear_eq t h, hscan fuel hfuel, hfound]

namespace Answer
variable {n : ℕ} {h : n < P.NSIG} {t : UnixSignalHandlerTest P} {r : Reply P}

theorem value_iff (hr : Answer n h t r) : r.value = true ↔ t.pending = {(n : ℤ)} := by
  cases hr with
  | notSet hset =>
      refine ⟨fun hv => by simp at hv, fun heq => absurd ?_ hset⟩
      rw [heq]
      exact Set.mem_singleton _
  | alsoInvoked i _ hi hne _ =>
      refine ⟨fun hv => by simp at hv, fun heq => absurd ?_ hne⟩
      rwa [heq] at hi
  | only heq => exact ⟨fun _ => heq, fun _ => rfl⟩

/-- However it answers, the entry asked for ends clear and nothing else changes. -/
theorem object_eq (hr : Answer n h t r) : r.object = t.put false n h := by
  cases hr with
  | notSet hset => exact (put_false_of_notMem h hset).symm
  | alsoInvoked => rfl
  | only => rfl

theorem pending_object (hr : Answer n h t r) : r.object.pending = t.pending \ {(n : ℤ)} := by
  rw [hr.object_eq, pending_put_false]

/-- An entry that is clear is not accepted. -/
theorem value_of_notMem (hr : Answer n h t r) (hn : (n : ℤ) ∉ t.pending) : r.value = false := by
  apply Bool.eq_false_of_not_eq_true
  intro hv
  apply hn
  rw [hr.value_iff.mp hv]
  exact Set.mem_singleton _

end Answer

/-! ### Over runs -/

/-- What a call for `sig` owes the test, the slots having run up to the object `s`. -/
structure Judges (slots : List Slot) (sig : ℤ) (s : UnixSignalHandlerTest P) (r : Reply P) :
    Prop where
  value_iff : r.value = true ↔ (∃ slot ∈ slots, slot.signal P = some sig) ∧
    ∀ slot ∈ slots, ∀ n, slot.signal P = some n → n = sig
  others : ∀ j : ℕ, (j : ℤ) ≠ sig → r.object.signalMap[j]? = s.signalMap[j]?
  lastSignal : r.object.lastSignal = s.lastSignal
  cleared : r.object.signalMap[sig.toNat]? = some false
  /-- Asked once more, the oracle says no. -/
  again : ∃ r', r'.value = false ∧ ∀ fuel, P.NSIG < fuel →
    r.object.wasOnlyTheGivenSignalInvoked fuel sig = .done r'

/-- After a reset the oracle accepts exactly the runs in which the signal's own slot
ran and no other signal's did. -/
theorem pending_eq_singleton_iff (slots : List Slot) (t : UnixSignalHandlerTest P) (sig : ℤ) :
    (invokeAll slots t.reset).pending = {sig} ↔ (∃ slot ∈ slots, slot.signal P = some sig) ∧
      ∀ slot ∈ slots, ∀ n, slot.signal P = some n → n = sig := by
  rw [pending_invokeAll, pending_reset, Set.union_empty, Set.eq_singleton_iff_unique_mem]
  refine and_congr Iff.rfl ⟨fun h slot hslot n hn => h n ⟨slot, hslot, hn⟩, ?_⟩
  rintro h n ⟨slot, hslot, hn⟩
  exact h slot hslot n hn

/-- **The oracle accepts exactly the runs it should**, after any slots since a reset
and for every signal number. -/
theorem wasOnlyTheGivenSignalInvoked_iff (t : UnixSignalHandlerTest P) (slots : List Slot) {sig : ℤ}
    (h0 : 0 ≤ sig) (h : sig < P.NSIG) :
    ∃ r, Judges slots sig (invokeAll slots t.reset) r ∧ ∀ fuel, P.NSIG < fuel →
      (invokeAll slots t.reset).wasOnlyTheGivenSignalInvoked fuel sig = .done r := by
  obtain ⟨n, rfl⟩ := Int.eq_ofNat_of_zero_le h0
  have hn : n < P.NSIG := by omega
  obtain ⟨r, hr, hcall⟩ := exists_answer (invokeAll slots t.reset) hn
  obtain ⟨r', hr', hagain⟩ := exists_answer r.object hn
  refine ⟨r, ⟨?_, ?_, ?_, ?_, r', hr'.value_of_notMem ?_, hagain⟩, hcall⟩
  · rw [hr.value_iff, pending_eq_singleton_iff]
  · intro j hj
    rw [hr.object_eq, getElem?_put_of_ne false hn _ (by omega)]
  · rw [hr.object_eq]
    rfl
  · rw [hr.object_eq, Int.toNat_natCast, getElem?_put_self]
  · rw [hr.pending_object]
    exact fun hmem => hmem.2 rfl

/-- The constants of Linux on common processors. -/
def linux : Platform where
  NSIG := 65
  SIGTERM := 15
  SIGINT := 2
  SIGUSR1 := 10
  SIGUSR2 := 12
  sizeofBool := 1
  sizeofBool_eq := rfl
  nodup := by decide
  lt_NSIG := by decide
  NSIG_lt := by decide

/-- `SIGUSR1` twice, with its number from the general slot, on a map that was not
initialised before the reset. -/
def twiceUsr1 : UnixSignalHandlerTest linux :=
  invokeAll [.sigUsr1, .genericSignal 10, .sigUsr1] (reset ⟨0, Vector.replicate _ true⟩)

theorem wasOnlyTheGivenSignalInvoked_twiceUsr1 :
    ((0 : ℤ) ≤ 10 ∧ (10 : ℤ) < linux.NSIG) ∧
      ∃ r, Judges [.sigUsr1, .genericSignal 10, .sigUsr1] 10 twiceUsr1 r ∧
        ∀ fuel, linux.NSIG < fuel → twiceUsr1.wasOnlyTheGivenSignalInvoked fuel 10 = .done r :=
  ⟨by decide, wasOnlyTheGivenSignalInvoked_iff _ _ (by decide) (by decide)⟩

/-! ### As a machine over sets

The object refines a set of signals: slots add to it, a reset empties it, and the
oracle compares it with one signal and removes that. -/

/-- The calls a test makes. -/
inductive Op
  | slot (slot : Slot)
  | reset
  | ask (sig : ℤ)
  deriving DecidableEq, Repr

/-- A question is about a signal number. -/
def Op.InRange (P : Platform) : Op → Prop
  | .ask sig => 0 ≤ sig ∧ sig < P.NSIG
  | _ => True

def step (fuel : ℕ) : Op → UnixSignalHandlerTest P →
    Exec Fault (Option Bool × UnixSignalHandlerTest P)
  | .slot slot, t => return (none, t.invoke slot)
  | .reset, t => return (none, t.reset)
  | .ask sig, t => do
      let r ← t.wasOnlyTheGivenSignalInvoked fuel sig
      return (some r.value, r.object)

open Classical in
/-- What the calls mean for the set of signals delivered and not yet asked for. -/
noncomputable def spec (P : Platform) : Op → Set ℤ → Option Bool × Set ℤ
  | .slot slot, S => (none, {n | slot.signal P = some n} ∪ S)
  | .reset, _ => (none, ∅)
  | .ask sig, S => (some (decide (S = {sig})), S \ {sig})

/-- **Every run of calls answers as the set of signals does.** -/
theorem runAll_spec {fuel : ℕ} (hfuel : P.NSIG < fuel) {ops : List Op}
    (hops : ∀ op ∈ ops, op.InRange P) (t : UnixSignalHandlerTest P) :
    ∃ t', Exec.runAll (step fuel) ops t =
        .done ((Run.history (spec P) ops t.pending).map Prod.snd, t') ∧
      t'.pending = Run.after (spec P) ops t.pending := by
  refine Exec.runAll_refines (R := fun (t : UnixSignalHandlerTest P) S => t.pending = S) ?_ hops rfl
  rintro op s S hop rfl
  cases op with
  | slot slot => exact ⟨s.invoke slot, rfl, pending_invoke slot s⟩
  | reset => exact ⟨s.reset, rfl, pending_reset s⟩
  | ask sig =>
      obtain ⟨n, rfl⟩ := Int.eq_ofNat_of_zero_le hop.1
      obtain ⟨r, hr, hcall⟩ := exists_answer s (n := n) (Int.ofNat_lt.mp hop.2)
      refine ⟨r.object, ?_, hr.pending_object⟩
      have hvalue : r.value = decide (s.pending = {(n : ℤ)}) := by
        rw [Bool.eq_iff_iff, hr.value_iff, decide_eq_true_iff]
      simp [step, spec, hcall fuel hfuel, hvalue]

/-- `SIGUSR1` is asked for too early, in vain beside `SIGTERM`, and after a reset. -/
def usr1Calls : List Op :=
  [.ask 10, .slot .sigUsr1, .slot .sigTerm, .ask 10, .reset, .slot .sigUsr1, .ask 10, .ask 10]

/-- The object as it is before the first reset, with a map that is set throughout. -/
def uninitialised : UnixSignalHandlerTest linux := ⟨0, Vector.replicate _ true⟩

theorem runAll_spec_usr1 :
    (linux.NSIG < 66 ∧ ∀ op ∈ usr1Calls, op.InRange linux) ∧
      ∃ t', Exec.runAll (step 66) usr1Calls uninitialised =
        .done ((Run.history (spec linux) usr1Calls uninitialised.pending).map Prod.snd, t') ∧
        t'.pending = Run.after (spec linux) usr1Calls uninitialised.pending := by
  have hrange : ∀ op ∈ usr1Calls, op.InRange linux := by
    simp [usr1Calls, Op.InRange, linux]
  exact ⟨⟨by decide, hrange⟩, runAll_spec (by decide) hrange _⟩

end FrameworkTests.UnixSignalHandlerTest
