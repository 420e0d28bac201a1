import FrameworkTests.Lib.Exec
import Mathlib.Data.Set.Insert
import Mathlib.Algebra.Ring.Int.Defs
import Mathlib.Algebra.Ring.Nat

/-!
# The slots of the signal test

The signal test records deliveries: one slot for each of four signals sets an entry
of `signalMap`, `genericSignal` keeps the last number, and `reset` clears both.  The
map is indexed by signal number, and nothing initialises it before the first reset.

What the map is for is the set of signals delivered since the reset.  `pending` reads
that set off the map and `pending_invokeAll` says that it is the right one.

## Main definitions

* `Platform` — the constants of the system headers.
* `UnixSignalHandlerTest` — the test object, with its slots and `reset`.
* `pending` — the signals whose entry is set.
* `pending_invokeAll` — what is pending after a run of slots.
-/

namespace FrameworkTests

/-- Constants of the platform, with what is taken for granted about them. -/
structure Platform where
  /-- `_NSIG` -/
  NSIG : ℕ
  SIGTERM : ℕ
  SIGINT : ℕ
  SIGUSR1 : ℕ
  SIGUSR2 : ℕ
  sizeofBool : ℕ
  sizeofBool_eq : sizeofBool = 1
  nodup : [SIGTERM, SIGINT, SIGUSR1, SIGUSR2].Nodup
  lt_NSIG : ∀ n ∈ [SIGTERM, SIGINT, SIGUSR1, SIGUSR2], n < NSIG
  /-- `_NSIG` is an `int`. -/
  NSIG_lt : NSIG < 2 ^ 31

/-- The recording part of the test object. -/
structure UnixSignalHandlerTest (P : Platform) where
  lastSignal : ℤ
  signalMap : Vector Bool P.NSIG
  deriving DecidableEq

namespace UnixSignalHandlerTest
variable {P : Platform}

/-- `signalMap[n] = b` -/
def put (b : Bool) (n : ℕ) (h : n < P.NSIG) (t : UnixSignalHandlerTest P) :
    UnixSignalHandlerTest P :=
  { t with signalMap := t.signalMap.set n b h }

def genericSignal (id : ℤ) (t : UnixSignalHandlerTest P) : UnixSignalHandlerTest P :=
  { t with lastSignal := id }

def sigTerm : UnixSignalHandlerTest P → UnixSignalHandlerTest P :=
  put true P.SIGTERM (P.lt_NSIG _ (by simp))

def sigInt : UnixSignalHandlerTest P → UnixSignalHandlerTest P :=
  put true P.SIGINT (P.lt_NSIG _ (by simp))

def sigUsr1 : UnixSignalHandlerTest P → UnixSignalHandlerTest P :=
  put true P.SIGUSR1 (P.lt_NSIG _ (by simp))

def sigUsr2 : UnixSignalHandlerTest P → UnixSignalHandlerTest P :=
  put true P.SIGUSR2 (P.lt_NSIG _ (by simp))

def reset (_ : UnixSignalHandlerTest P) : UnixSignalHandlerTest P where
  signalMap := Vector.replicate P.NSIG false
  lastSignal := 0

/-- The slots of the object. -/
inductive Slot
  | genericSignal (id : ℤ)
  | sigTerm
  | sigInt
  | sigUsr1
  | sigUsr2
  deriving DecidableEq, Repr

def invoke : Slot → UnixSignalHandlerTest P → UnixSignalHandlerTest P
  | .genericSignal id => genericSignal id
  | .sigTerm => sigTerm
  | .sigInt => sigInt
  | .sigUsr1 => sigUsr1
  | .sigUsr2 => sigUsr2

/-- The signal a slot belongs to; `genericSignal` serves them all. -/
def Slot.signal (P : Platform) : Slot → Option ℤ
  | .genericSignal _ => none
  | .sigTerm => some P.SIGTERM
  | .sigInt => some P.SIGINT
  | .sigUsr1 => some P.SIGUSR1
  | .sigUsr2 => some P.SIGUSR2

/-- Some slots run, one after another. -/
def invokeAll (slots : List Slot) (t : UnixSignalHandlerTest P) : UnixSignalHandlerTest P :=
  slots.foldl (fun t slot => t.invoke slot) t

/-- The signals whose entry is set. -/
def pending (t : UnixSignalHandlerTest P) : Set ℤ :=
  {n | 0 ≤ n ∧ t.signalMap[n.toNat]? = some true}

theorem mem_pending {t : UnixSignalHandlerTest P} {n : ℤ} :
    n ∈ t.pending ↔ 0 ≤ n ∧ t.signalMap[n.toNat]? = some true := Iff.rfl

instance (t : UnixSignalHandlerTest P) (n : ℤ) : Decidable (n ∈ t.pending) :=
  decidable_of_iff _ mem_pending.symm

/-- Only numbers below `_NSIG` can be pending. -/
theorem lt_of_mem_pending {t : UnixSignalHandlerTest P} {n : ℤ} (h : n ∈ t.pending) :
    n < P.NSIG := by
  obtain ⟨hn, hset⟩ := h
  obtain ⟨hlt, -⟩ := Vector.getElem?_eq_some_iff.mp hset
  omega

theorem mem_pending_put (b : Bool) (n : ℕ) (hn : n < P.NSIG) (t : UnixSignalHandlerTest P)
    (m : ℤ) : m ∈ (t.put b n hn).pending ↔ if m = n then b = true else m ∈ t.pending := by
  rw [mem_pending, mem_pending, put, Vector.getElem?_set]
  by_cases hm : m = n
  · simp [hm]
  · by_cases h0 : 0 ≤ m
    · have hne : n ≠ m.toNat := by omega
      simp [hm, hne]
    · simp [hm, h0]

theorem getElem?_put_of_ne (b : Bool) {n j : ℕ} (hn : n < P.NSIG) (t : UnixSignalHandlerTest P)
    (h : j ≠ n) : (t.put b n hn).signalMap[j]? = t.signalMap[j]? := by
  rw [put, Vector.getElem?_set, if_neg (Ne.symm h)]

theorem getElem?_put_self (b : Bool) {n : ℕ} (hn : n < P.NSIG) (t : UnixSignalHandlerTest P) :
    (t.put b n hn).signalMap[n]? = some b := by
  rw [put, Vector.getElem?_set, if_pos rfl]

/-- Clearing an entry that is clear changes nothing. -/
theorem put_false_of_notMem {n : ℕ} (hn : n < P.NSIG) {t : UnixSignalHandlerTest P}
    (h : (n : ℤ) ∉ t.pending) : t.put false n hn = t := by
  have hclear : t.signalMap[n] = false := by
    refine Bool.eq_false_of_not_eq_true fun hset => h ⟨Int.natCast_nonneg n, ?_⟩
    exact Vector.getElem?_eq_some_iff.mpr ⟨hn, hset⟩
  rw [put, ← hclear, Vector.set_getElem_self]

theorem pending_put_true (n : ℕ) (hn : n < P.NSIG) (t : UnixSignalHandlerTest P) :
    (t.put true n hn).pending = insert (n : ℤ) t.pending := by
  ext m
  rw [mem_pending_put, Set.mem_insert_iff]
  by_cases hm : m = n <;> simp [hm]

theorem pending_put_false (n : ℕ) (hn : n < P.NSIG) (t : UnixSignalHandlerTest P) :
    (t.put false n hn).pending = t.pending \ {(n : ℤ)} := by
  ext m
  rw [mem_pending_put, Set.mem_sdiff, Set.mem_singleton_iff]
  by_cases hm : m = n <;> simp [hm]

@[simp] theorem pending_reset (t : UnixSignalHandlerTest P) : t.reset.pending = ∅ := by
  ext n
  simp [mem_pending, reset, Vector.getElem?_replicate]

/-- A slot adds the signal it belongs to. -/
theorem pending_invoke (slot : Slot) (t : UnixSignalHandlerTest P) :
    (t.invoke slot).pending = {n | slot.signal P = some n} ∪ t.pending := by
  have hput : ∀ n (hn : n < P.NSIG), (t.put true n hn).pending =
      {m | some (n : ℤ) = some m} ∪ t.pending := by
    intro n hn
    rw [pending_put_true]
    ext m
    simp [eq_comm]
  cases slot with
  | genericSignal id =>
      ext m
      simp [Slot.signal, invoke, genericSignal, mem_pending]
  | sigTerm => exact hput _ _
  | sigInt => exact hput _ _
  | sigUsr1 => exact hput _ _
  | sigUsr2 => exact hput _ _

/-- **After some slots those signals are pending that were before or that a slot
belongs to.** -/
theorem pending_invokeAll (slots : List Slot) (t : UnixSignalHandlerTest P) :
    (invokeAll slots t).pending = {n | ∃ slot ∈ slots, slot.signal P = some n} ∪ t.pending := by
  induction slots generalizing t with
  | nil => simp [invokeAll]
  | cons slot slots ih =>
      have hstep : invokeAll (slot :: slots) t = invokeAll slots (t.invoke slot) := rfl
      rw [hstep, ih, pending_invoke]
      ext n
      simp [or_left_comm, or_assoc]

end UnixSignalHandlerTest
end FrameworkTests
