import FrameworkTests.Lib.Run
import Mathlib.Data.PNat.Basic

/-!
# Sources of a stream

A `Source` is a component that is read from and that other operations may add to.
At every moment it owes its reader some list, the one further reads hand out from
the front.  `Law` is what a reader of a stream relies on: what was handed out is a
prefix of what was put in, and all of it once a read comes back empty.

An operation `Keeps` the stream when what it hands out and what it leaves owed are
together what was owed before and what it adds.  `law_iff` says that this is the
exact condition: the law holds throughout a run, however it is read on from any
point, if and only if every step keeps the stream.

## Main definitions

* `Source` — a step function, its reads, what operations add and what is owed.
* `Source.Law`, `Source.Keeps` — the stream law and its step condition.
* `Source.law_iff` — the two agree over runs.
-/

namespace FrameworkTests

open Run

/-- A component with reads.  On valid states a read of `n` hands out the first `n`
elements owed and nothing else changes hands. -/
structure Source (σ ι α : Type*) where
  step : ι → σ → List α × σ
  read : ℕ+ → ι
  /-- What an operation adds to the stream. -/
  supply : ι → List α
  /-- What further reads are due to hand out. -/
  owed : σ → List α
  Valid : σ → Prop
  supply_read : ∀ n, supply (read n) = []
  valid_step : ∀ i s, Valid s → Valid (step i s).2
  read_out : ∀ n s, Valid s → (step (read n) s).1 = (owed s).take n
  read_owed : ∀ n s, Valid s → owed (step (read n) s).2 = (owed s).drop n

namespace Source
variable {σ ι α : Type*} (S : Source σ ι α)

/-- Everything handed out during a run, in order. -/
def delivered (is : List ι) (s : σ) : List α := ((history S.step is s).map Prod.snd).flatten

/-- Everything put in during a run, in order. -/
def supplied (is : List ι) : List α := (is.map S.supply).flatten

/-- **The stream law** after a run from `s`. -/
structure Law (is : List ι) (s : σ) : Prop where
  safe : S.delivered is s <+: S.owed s ++ S.supplied is
  complete : ∀ n, (S.step (S.read n) (after S.step is s)).1 = [] →
    S.delivered is s = S.owed s ++ S.supplied is

/-- The step neither loses nor invents anything. -/
def Keeps (i : ι) (s : σ) : Prop :=
  (S.step i s).1 ++ S.owed (S.step i s).2 = S.owed s ++ S.supply i

@[simp] theorem delivered_nil (s : σ) : S.delivered [] s = [] := rfl
@[simp] theorem delivered_cons (i : ι) (is : List ι) (s : σ) :
    S.delivered (i :: is) s = (S.step i s).1 ++ S.delivered is (S.step i s).2 := by
  simp [delivered]
@[simp] theorem supplied_nil : S.supplied [] = [] := rfl
@[simp] theorem supplied_cons (i : ι) (is : List ι) :
    S.supplied (i :: is) = S.supply i ++ S.supplied is := by
  simp [supplied]

theorem delivered_append (is js : List ι) (s : σ) :
    S.delivered (is ++ js) s = S.delivered is s ++ S.delivered js (after S.step is s) := by
  simp [delivered, history_append]

theorem supplied_append (is js : List ι) :
    S.supplied (is ++ js) = S.supplied is ++ S.supplied js := by
  simp [supplied]

variable {S}

theorem valid_after (is : List ι) {s : σ} (hs : S.Valid s) : S.Valid (after S.step is s) :=
  invariant (I := S.Valid) (fun s i hs => S.valid_step i s hs) is hs

/-- A read keeps the stream. -/
theorem keeps_read (n : ℕ+) {s : σ} (hs : S.Valid s) : S.Keeps (S.read n) s := by
  rw [Keeps, S.read_out n s hs, S.read_owed n s hs, S.supply_read, List.append_nil]
  exact List.take_append_drop _ _

/-- Operations that keep the stream in every valid state keep it along a run. -/
theorem along_keeps {is : List ι} (h : ∀ i ∈ is, ∀ s, S.Valid s → S.Keeps i s) {s : σ}
    (hs : S.Valid s) : Along S.step S.Keeps is s := by
  induction is generalizing s with
  | nil => trivial
  | cons i is ih =>
      rw [List.forall_mem_cons] at h
      exact ⟨h.1 s hs, ih h.2 (S.valid_step i s hs)⟩

theorem along_reads (ns : List ℕ+) {s : σ} (hs : S.Valid s) :
    Along S.step S.Keeps (ns.map S.read) s := by
  refine along_keeps ?_ hs
  intro i hi t ht
  obtain ⟨n, -, rfl⟩ := List.mem_map.mp hi
  exact keeps_read n ht

/-- The balance of a run that keeps the stream. -/
theorem delivered_append_owed {is : List ι} {s : σ} (h : Along S.step S.Keeps is s) :
    S.delivered is s ++ S.owed (after S.step is s) = S.owed s ++ S.supplied is := by
  induction is generalizing s with
  | nil => simp
  | cons i is ih =>
      have hstep : (S.step i s).1 ++ S.owed (S.step i s).2 = S.owed s ++ S.supply i := h.1
      calc S.delivered (i :: is) s ++ S.owed (after S.step (i :: is) s)
          = (S.step i s).1 ++ (S.delivered is (S.step i s).2 ++
              S.owed (after S.step is (S.step i s).2)) := by simp
        _ = ((S.step i s).1 ++ S.owed (S.step i s).2) ++ S.supplied is := by
            rw [ih h.2, List.append_assoc]
        _ = S.owed s ++ S.supplied (i :: is) := by
            rw [hstep, supplied_cons, List.append_assoc]

theorem supplied_reads (ns : List ℕ+) : S.supplied (ns.map S.read) = [] := by
  induction ns with
  | nil => rfl
  | cons n ns ih => rw [List.map_cons, supplied_cons, ih, S.supply_read, List.append_nil]

/-- Reads hand out the front of what is owed. -/
theorem delivered_reads (ns : List ℕ+) {s : σ} (hs : S.Valid s) :
    S.delivered (ns.map S.read) s ++ S.owed (after S.step (ns.map S.read) s) = S.owed s := by
  rw [delivered_append_owed (along_reads ns hs), supplied_reads, List.append_nil]

/-- A read that comes back empty means that nothing is owed. -/
theorem owed_eq_nil_of_read {n : ℕ+} {s : σ} (hs : S.Valid s) (h : (S.step (S.read n) s).1 = []) :
    S.owed s = [] := by
  rw [S.read_out n s hs, List.take_eq_nil_iff] at h
  exact h.resolve_left n.ne_zero

theorem law_of_along {is : List ι} {s : σ} (hs : S.Valid s) (h : Along S.step S.Keeps is s) :
    S.Law is s where
  safe := ⟨_, delivered_append_owed h⟩
  complete := by
    intro n hn
    have howed := owed_eq_nil_of_read (valid_after is hs) hn
    simpa [howed] using delivered_append_owed h

/-- Two runs over the same stream never contradict each other: however each was
supplied and read, one delivered a beginning of what the other did. -/
theorem Law.comparable {is js : List ι} {s t : σ} (hs : S.Law is s) (ht : S.Law js t)
    (h : S.owed s ++ S.supplied is = S.owed t ++ S.supplied js) :
    S.delivered is s <+: S.delivered js t ∨ S.delivered js t <+: S.delivered is s :=
  List.prefix_or_prefix_of_prefix hs.safe (h ▸ ht.safe)

/-- One large read empties a source. -/
theorem exists_read_all {s : σ} (hs : S.Valid s) :
    ∃ n, (S.step (S.read n) s).1 = S.owed s ∧ S.owed (S.step (S.read n) s).2 = [] := by
  refine ⟨(S.owed s).length.succPNat, ?_, ?_⟩
  · rw [S.read_out _ s hs]
    exact List.take_of_length_le (Nat.le_succ _)
  · rw [S.read_owed _ s hs]
    exact List.drop_eq_nil_of_le (Nat.le_succ _)

/-- A first step that does not keep the stream shows when the source is read empty
behind it. -/
theorem not_law_of_not_keeps {is : List ι} {i : ι} {s : σ} (hs : S.Valid s)
    (h : Along S.step S.Keeps is s) (hi : ¬ S.Keeps i (after S.step is s)) :
    ∃ n, ¬ S.Law ((is ++ [i]) ++ [S.read n]) s := by
  have hbefore := delivered_append_owed h
  generalize hm : after S.step is s = m at hi hbefore
  have hvalid : S.Valid (S.step i m).2 := S.valid_step i m (hm ▸ valid_after is hs)
  obtain ⟨n, hall, hempty⟩ := exists_read_all hvalid
  refine ⟨n, fun law => hi ?_⟩
  have hlast : (S.step (S.read 1) (after S.step ((is ++ [i]) ++ [S.read n]) s)).1 = [] := by
    simp only [after_append, hm, after_cons, after_nil]
    rw [S.read_out _ _ (S.valid_step _ _ hvalid), hempty, List.take_nil]
  have heq := law.complete 1 hlast
  simp only [delivered_append, supplied_append, hm, delivered_cons, delivered_nil, supplied_cons,
    supplied_nil, S.supply_read, after_cons, after_nil, List.append_nil, hall,
    List.append_assoc] at heq
  rw [← List.append_assoc (S.owed s), ← hbefore, List.append_assoc] at heq
  exact List.append_cancel_left heq

/-- **The stream law holds throughout a run, however it is read on from any point,
exactly when every step of the run keeps the stream.** -/
theorem law_iff (is : List ι) {s : σ} (hs : S.Valid s) :
    (∀ js, js <+: is → ∀ ns : List ℕ+, S.Law (js ++ ns.map S.read) s) ↔
      Along S.step S.Keeps is s := by
  constructor
  · intro h
    by_contra hnot
    obtain ⟨js, i, ks, rfl, hjs, hi⟩ := exists_first_of_not_along S.step hnot
    obtain ⟨n, hn⟩ := not_law_of_not_keeps hs hjs hi
    exact hn (h (js ++ [i]) ⟨ks, by simp⟩ [n])
  · rintro h js ⟨ks, rfl⟩ ns
    have hjs := ((along_append S.step S.Keeps js ks s).mp h).1
    refine law_of_along hs ((along_append _ _ _ _ _).mpr ⟨hjs, ?_⟩)
    exact along_reads ns (valid_after js hs)

end Source
end FrameworkTests
