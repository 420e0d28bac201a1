import FrameworkTests.Lib.Exec
import Mathlib.Algebra.Ring.Int.Defs
import Mathlib.Algebra.Ring.Nat

/-!
# The tests of iteration

Three tests walk through a variant with an iterator and count its items with an `int`:
over one value, over a list, and over a map.  The iterator is what they test.  It may
stop too early, visit other items, or never come to its end, and the tests guard
against that: they give up on the first item beyond the size of the container.

`tests_return` says that they always come to a verdict, without an overflow of the
counter, and which iterators pass.

## Main definitions

* `Subject σ` — what the framework answers about one variant, with iterators in `σ`.
* `iterate` — the loop of the tests.
* `Subject.Visits` — the items from an iterator up to the end.
* `IterationTest`, `IterationTest.Expected` — the tests, and what should pass.
-/

namespace FrameworkTests.VariantTest

/-- A Qt container: its size is an `int`. -/
structure Container (α : Type) where
  items : List α
  length_lt : items.length < 2 ^ 31

def Container.size {α : Type} (c : Container α) : ℤ := c.items.length

/-- A variant as the framework shows it, and the iterators over it. -/
structure Subject (σ : Type) where
  isGeneric : Bool
  isList : Bool
  isMap : Bool
  itemCount : ℤ
  begin : σ
  /-- The comparison with the end. -/
  isEnd : σ → Bool
  next : σ → σ
  /-- The current item as a number. -/
  toInt : σ → ℤ
  /-- The current key as a text. -/
  key : σ → String
  /-- The current value as a text. -/
  value : σ → String

/-- An `int` went beyond its range. -/
inductive Fault
  | overflow
  deriving DecidableEq, Repr

/-- `i++` -/
def increment (i : ℤ) : Exec Fault ℤ :=
  if i + 1 < 2 ^ 31 then .done (i + 1) else .fault .overflow

variable {σ : Type}

/-- The loop from an iterator and a counter on; `check` is what the test asks of an item. -/
def iterate (v : Subject σ) (size : ℤ) (check : σ → ℤ → Bool) : ℕ → σ → ℤ → Exec Fault Bool
  | 0, _, _ => .unfinished
  | fuel + 1, it, i =>
      if v.isEnd it then return i = size
      else if i = size then return false
      else if !check it i then return false
      else do
        let i ← increment i
        iterate v size check fuel (v.next it) i

/-- The loop behind the two questions a test asks first. -/
def test (v : Subject σ) (kind : Bool) (size : ℤ) (check : σ → ℤ → Bool) (fuel : ℕ) :
    Exec Fault Bool :=
  if !kind then return false
  else if v.itemCount ≠ size then return false
  else iterate v size check fuel v.begin 0

def iterateOverGeneric (generic : ℤ) (v : Subject σ) (fuel : ℕ) : Exec Fault Bool :=
  test v v.isGeneric 1 (fun it _ => v.toInt it = generic) fuel

def iterateOverList (list : Container ℤ) (v : Subject σ) (fuel : ℕ) : Exec Fault Bool :=
  test v v.isList list.size (fun it i => v.toInt it = i) fuel

def iterateOverMap (map : Container (ℤ × String)) (v : Subject σ) (fuel : ℕ) : Exec Fault Bool :=
  test v v.isMap map.size (fun it _ => v.key it = v.value it) fuel

/-- A test with the container it iterates over. -/
inductive IterationTest
  | iterateOverGeneric (generic : ℤ)
  | iterateOverList (list : Container ℤ)
  | iterateOverMap (map : Container (ℤ × String))

namespace IterationTest

def run (v : Subject σ) (fuel : ℕ) : IterationTest → Exec Fault Bool
  | iterateOverGeneric generic => VariantTest.iterateOverGeneric generic v fuel
  | iterateOverList list => VariantTest.iterateOverList list v fuel
  | iterateOverMap map => VariantTest.iterateOverMap map v fuel

/-- The number of items. -/
def size : IterationTest → ℕ
  | iterateOverGeneric _ => 1
  | iterateOverList list => list.items.length
  | iterateOverMap map => map.items.length

end IterationTest

/-! ### What should pass -/

/-- From `it` on, the iterator is at `its` one after another, and then at the end. -/
def Subject.Visits (v : Subject σ) : σ → List σ → Prop
  | it, [] => v.isEnd it = true
  | it, it' :: its => v.isEnd it = false ∧ it' = it ∧ v.Visits (v.next it) its

/-- The variant is of its kind and size, and the iteration over it ends, with the items
the test is there to accept. -/
def IterationTest.Expected (v : Subject σ) : IterationTest → Prop
  | iterateOverGeneric generic => v.isGeneric = true ∧ v.itemCount = 1 ∧
      ∃ its, v.Visits v.begin its ∧ its.map v.toInt = [generic]
  | iterateOverList list => v.isList = true ∧ v.itemCount = list.size ∧
      ∃ its, v.Visits v.begin its ∧
        its.map v.toInt = (List.range list.items.length).map Nat.cast
  | iterateOverMap map => v.isMap = true ∧ v.itemCount = map.size ∧
      ∃ its, v.Visits v.begin its ∧ its.length = map.items.length ∧
        its.map v.key = its.map v.value

/-! ### The loop -/

/-- The loop accepts the iteration from `it` on: it ends after `k` items, and they all
pass the check, counted from `i`. -/
def Accepted (v : Subject σ) (check : σ → ℤ → Bool) (k : ℕ) (it : σ) (i : ℕ) : Prop :=
  ∃ its, v.Visits it its ∧ its.length = k ∧ ∀ x ∈ its.zipIdx i, check x.1 x.2 = true

section Loop
variable {v : Subject σ} {check : σ → ℤ → Bool} {it : σ}

/-- At the end, nothing is accepted but the empty rest. -/
theorem accepted_of_isEnd (h : v.isEnd it = true) (k i : ℕ) : Accepted v check k it i ↔ k = 0 := by
  constructor
  · intro h'
    obtain ⟨its, hvisits, hlen, -⟩ := h'
    cases its with
    | nil => exact hlen.symm
    | cons it' its => simp [Subject.Visits, h] at hvisits
  · intro hk
    exact ⟨[], h, hk.symm, by simp⟩

theorem not_accepted_zero (h : v.isEnd it = false) (i : ℕ) : ¬ Accepted v check 0 it i := by
  intro h'
  obtain ⟨its, hvisits, hlen, -⟩ := h'
  rw [List.length_eq_zero_iff.mp hlen, Subject.Visits, h] at hvisits
  simp at hvisits

/-- An item is accepted with the rest behind it. -/
theorem accepted_succ (h : v.isEnd it = false) (k i : ℕ) : Accepted v check (k + 1) it i ↔
    check it i = true ∧ Accepted v check k (v.next it) (i + 1) := by
  constructor
  · intro h'
    obtain ⟨its, hvisits, hlen, hcheck⟩ := h'
    cases its with
    | nil => simp at hlen
    | cons it' its =>
        obtain ⟨-, rfl, hrest⟩ := hvisits
        rw [List.zipIdx_cons, List.forall_mem_cons] at hcheck
        exact ⟨hcheck.1, its, hrest, Nat.succ.inj hlen, hcheck.2⟩
  · intro h'
    obtain ⟨hit, its, hrest, rfl, hcheck⟩ := h'
    refine ⟨it :: its, ⟨h, rfl, hrest⟩, rfl, ?_⟩
    rw [List.zipIdx_cons, List.forall_mem_cons]
    exact ⟨hit, hcheck⟩

end Loop

/-- **The loop returns**, whatever the iterator does: it accepts exactly the iterations of
the right length whose items pass the check. -/
theorem iterate_eq (v : Subject σ) (check : σ → ℤ → Bool) {size : ℕ} (hsize : size < 2 ^ 31)
    (k : ℕ) (it : σ) (i : ℕ) (hi : i + k = size) :
    ∃ verdict, (verdict = true ↔ Accepted v check k it i) ∧
      ∀ fuel, iterate v size check (fuel + k + 1) it i = .done verdict := by
  induction k generalizing it i with
  | zero =>
      have hend : (i : ℤ) = size := by omega
      cases h : v.isEnd it with
      | false => exact ⟨false, by simp [not_accepted_zero h], fun fuel => by simp [iterate, h, hend]⟩
      | true => exact ⟨true, by simp [accepted_of_isEnd h], fun fuel => by simp [iterate, h, hend]⟩
  | succ k ih =>
      have hmore : (i : ℤ) ≠ size := by omega
      cases h : v.isEnd it with
      | true =>
          exact ⟨false, by simp [accepted_of_isEnd h], fun fuel => by simp [iterate, h, hmore]⟩
      | false =>
          cases hit : check it i with
          | false =>
              refine ⟨false, by simp [accepted_succ h, hit], fun fuel => ?_⟩
              simp [iterate, h, hmore, hit]
          | true =>
              -- the counter is below the size, which is an `int`
              have hinc : increment i = .done ((i + 1 : ℕ) : ℤ) := if_pos (by omega)
              obtain ⟨verdict, hverdict, hloop⟩ := ih (v.next it) (i + 1) (by omega)
              refine ⟨verdict, ?_, fun fuel => ?_⟩
              · rw [hverdict, accepted_succ h, and_iff_right hit]
              · rw [iterate, h, if_neg (by decide), if_neg hmore, hit, hinc]
                exact hloop fuel

/-- **A test returns**: it accepts the right kind and number of items, with an iteration
over them that the loop accepts. -/
theorem test_eq (v : Subject σ) (kind : Bool) (check : σ → ℤ → Bool) {size : ℕ}
    (hsize : size < 2 ^ 31) :
    ∃ verdict, (verdict = true ↔
        kind = true ∧ v.itemCount = size ∧ Accepted v check size v.begin 0) ∧
      ∀ fuel, size < fuel → test v kind size check fuel = .done verdict := by
  obtain ⟨verdict, hverdict, hloop⟩ := iterate_eq v check hsize size v.begin 0 (Nat.zero_add size)
  cases hkind : kind with
  | false => exact ⟨false, by simp, fun fuel _ => by simp [test]⟩
  | true =>
      by_cases hcount : v.itemCount = size
      · refine ⟨verdict, by simp [hcount, hverdict], ?_⟩
        intro fuel hfuel
        obtain ⟨m, rfl⟩ := Nat.exists_eq_add_of_lt hfuel
        rw [show size + m + 1 = m + size + 1 by omega]
        simpa [test, hcount] using hloop m
      · exact ⟨false, by simp [hcount], fun fuel _ => by simp [test, hcount]⟩

/-! ### The items -/

/-- The items that pass a check of their own, whatever their place. -/
theorem forall_mem_zipIdx {α : Type} (p : α → Prop) (xs : List α) (i : ℕ) :
    (∀ x ∈ xs.zipIdx i, p x.1) ↔ ∀ x ∈ xs, p x := by
  induction xs generalizing i with
  | nil => simp
  | cons x xs ih => rw [List.zipIdx_cons, List.forall_mem_cons, List.forall_mem_cons, ih]

/-- The items that are their own places. -/
theorem eq_index_iff {α : Type} (f : α → ℤ) (xs : List α) (i : ℕ) :
    (∀ x ∈ xs.zipIdx i, f x.1 = x.2) ↔ xs.map f = (List.range' i xs.length).map Nat.cast := by
  induction xs generalizing i with
  | nil => simp
  | cons x xs ih =>
      rw [List.zipIdx_cons, List.forall_mem_cons, ih, List.length_cons, List.range'_succ,
        List.map_cons, List.map_cons, List.cons.injEq]

variable {v : Subject σ}

/-- What the list test accepts of a list of `n` items. -/
theorem accepted_list_iff (n : ℕ) :
    Accepted v (fun it i => v.toInt it = i) n v.begin 0 ↔
      ∃ its, v.Visits v.begin its ∧ its.map v.toInt = (List.range n).map Nat.cast := by
  simp only [Accepted, decide_eq_true_iff, eq_index_iff, List.range_eq_range']
  refine exists_congr fun its => and_congr_right fun _ => ⟨?_, ?_⟩
  · intro h
    obtain ⟨rfl, hitems⟩ := h
    exact hitems
  · intro hitems
    have hlen : its.length = n := by simpa using congrArg List.length hitems
    exact ⟨hlen, hlen ▸ hitems⟩

theorem accepted_map_iff (n : ℕ) :
    Accepted v (fun it _ => v.key it = v.value it) n v.begin 0 ↔
      ∃ its, v.Visits v.begin its ∧ its.length = n ∧ its.map v.key = its.map v.value := by
  simp only [Accepted, decide_eq_true_iff, List.map_inj_left]
  refine exists_congr fun its => and_congr_right fun _ => and_congr_right fun _ => ?_
  exact forall_mem_zipIdx (fun it => v.key it = v.value it) its 0

theorem accepted_generic_iff (generic : ℤ) :
    Accepted v (fun it _ => v.toInt it = generic) 1 v.begin 0 ↔
      ∃ its, v.Visits v.begin its ∧ its.map v.toInt = [generic] := by
  simp only [Accepted, decide_eq_true_iff]
  refine exists_congr fun its => and_congr_right fun _ => ?_
  rw [forall_mem_zipIdx (fun it => v.toInt it = generic) its 0]
  have hone := List.eq_replicate_iff (a := generic) (n := 1) (l := its.map v.toInt)
  rw [List.length_map, List.forall_mem_map] at hone
  exact hone.symm

/-! ### The verdicts -/

/-- **The tests of iteration come to a verdict** on every iterator, also on one that never
ends, and without an overflow; they accept exactly what they should. -/
theorem tests_return (v : Subject σ) (f : IterationTest) :
    ∃ verdict, (verdict = true ↔ f.Expected v) ∧
      ∀ fuel, f.size < fuel → f.run v fuel = .done verdict := by
  cases f with
  | iterateOverGeneric generic =>
      obtain ⟨verdict, hverdict, hrun⟩ := test_eq v v.isGeneric
        (fun it _ => v.toInt it = generic) (by decide : 1 < 2 ^ 31)
      exact ⟨verdict, hverdict.trans (by rw [accepted_generic_iff]; rfl), hrun⟩
  | iterateOverList list =>
      obtain ⟨verdict, hverdict, hrun⟩ := test_eq v v.isList
        (fun it i => v.toInt it = i) list.length_lt
      exact ⟨verdict, hverdict.trans (by rw [accepted_list_iff]; rfl), hrun⟩
  | iterateOverMap map =>
      obtain ⟨verdict, hverdict, hrun⟩ := test_eq v v.isMap
        (fun it _ => v.key it = v.value it) map.length_lt
      exact ⟨verdict, hverdict.trans (by rw [accepted_map_iff]; rfl), hrun⟩

/-- A list of numbers as a variant should show it. -/
def shown (xs : List ℤ) : Subject (List ℤ) where
  isGeneric := false
  isList := true
  isMap := false
  itemCount := xs.length
  begin := xs
  isEnd := List.isEmpty
  next := List.tail
  toInt := fun rest => rest.headD 0
  key := fun _ => ""
  value := fun _ => ""

example : (IterationTest.iterateOverList ⟨[0, 1, 2, 3], by decide⟩).run (shown [0, 1, 2, 3]) 5 =
    .done true := by decide

/-- An iterator that comes to no end is given up behind the last item. -/
example : (IterationTest.iterateOverList ⟨[0, 1, 2, 3], by decide⟩).run
    { shown [0, 1, 2, 3] with isEnd := fun _ => false } 5 = .done false := by decide

end FrameworkTests.VariantTest
