import FrameworkTests.Lib.Run

/-!
# Computations that may fault or not finish

`Exec ε α` is the result of running imperative code: a value, a fault `ε` such as
an access out of bounds, or nothing yet.  The last is for loops, which run on fuel.
`whileLoop_eq_done` is the rule for a loop that ends well: from an invariant that
rules out faults and a measure that decreases, one value is the result for every
fuel above the measure.

## Main definitions

* `Exec ε α` — with its monad.
* `Exec.whileLoop` — `while (test) body`.
* `Exec.runAll` — one operation after another, collecting what they report.
* `Exec.runAll_refines` — a simulation of steps is a simulation of runs.
* `Exec.runAll_memoryless` — steps whose reports do not depend on the state.
-/

namespace FrameworkTests

/-- How a computation ends within its fuel. -/
inductive Exec (ε α : Type) where
  | done (a : α)
  | fault (e : ε)
  | unfinished
  deriving DecidableEq, Repr

namespace Exec

variable {ε α β σ τ ι ο : Type}

protected def bind : Exec ε α → (α → Exec ε β) → Exec ε β
  | done a, f => f a
  | fault e, _ => fault e
  | unfinished, _ => unfinished

instance : Monad (Exec ε) where
  pure := done
  bind := Exec.bind

@[simp] theorem pure_eq (a : α) : (pure a : Exec ε α) = done a := rfl
@[simp] theorem done_bind (a : α) (f : α → Exec ε β) : (done a >>= f) = f a := rfl

/-! ### Loops -/

/-- `while (test) body`, with fuel for one evaluation of the test each. -/
def whileLoop (test : σ → Exec ε Bool) (body : σ → Exec ε σ) : ℕ → σ → Exec ε σ
  | 0, _ => unfinished
  | fuel + 1, s => do
      let more ← test s
      if more then
        let s ← body s
        whileLoop test body fuel s
      else return s

section Loop
variable {test : σ → Exec ε Bool} {body : σ → Exec ε σ}

theorem whileLoop_of_false {s : σ} (h : test s = done false) (fuel : ℕ) :
    whileLoop test body (fuel + 1) s = done s := by
  simp [whileLoop, h]

theorem whileLoop_of_true {s s' : σ} (h : test s = done true) (hbody : body s = done s')
    (fuel : ℕ) : whileLoop test body (fuel + 1) s = whileLoop test body fuel s' := by
  simp [whileLoop, h, hbody]

/-- **Total correctness of a loop.**  An invariant under which test and body do not
fault, and a measure the body decreases: the loop ends in one state, for every fuel
above the measure. -/
theorem whileLoop_eq_done {I : σ → Prop} (v : σ → ℕ)
    (h : ∀ s, I s → test s = done false ∨
      test s = done true ∧ ∃ s', body s = done s' ∧ I s' ∧ v s' < v s)
    {s : σ} (hs : I s) :
    ∃ s', I s' ∧ test s' = done false ∧
      ∀ fuel, v s < fuel → whileLoop test body fuel s = done s' := by
  induction hk : v s using Nat.strongRecOn generalizing s with
  | ind k ih =>
      subst hk
      rcases h s hs with hfalse | ⟨htrue, s', hbody, hs', hlt⟩
      · refine ⟨s, hs, hfalse, fun fuel hfuel => ?_⟩
        obtain ⟨m, rfl⟩ := Nat.exists_eq_add_one_of_ne_zero (Nat.ne_zero_of_lt hfuel)
        exact whileLoop_of_false hfalse m
      · obtain ⟨s'', hI, hend, hloop⟩ := ih (v s') hlt hs' rfl
        refine ⟨s'', hI, hend, fun fuel hfuel => ?_⟩
        obtain ⟨m, rfl⟩ := Nat.exists_eq_add_one_of_ne_zero (Nat.ne_zero_of_lt hfuel)
        rw [whileLoop_of_true htrue hbody, hloop m (by omega)]

end Loop

/-! ### Runs -/

/-- Operations one after another, with their reports. -/
def runAll (step : ι → σ → Exec ε (ο × σ)) : List ι → σ → Exec ε (List ο × σ)
  | [], s => return ([], s)
  | i :: is, s => do
      let (o, s) ← step i s
      let (os, s) ← runAll step is s
      return (o :: os, s)

/-- **Simulation.**  When every admissible step returns the report of the abstract
step and keeps the relation, so does every run of admissible steps. -/
theorem runAll_refines {step : ι → σ → Exec ε (ο × σ)} {spec : ι → τ → ο × τ} {C : ι → Prop}
    {R : σ → τ → Prop}
    (h : ∀ i s a, C i → R s a → ∃ s', step i s = done ((spec i a).1, s') ∧ R s' (spec i a).2)
    {is : List ι} (his : ∀ i ∈ is, C i) {s : σ} {a : τ} (hR : R s a) :
    ∃ s', runAll step is s = done ((Run.history spec is a).map Prod.snd, s') ∧
      R s' (Run.after spec is a) := by
  induction is generalizing s a with
  | nil => exact ⟨s, rfl, hR⟩
  | cons i is ih =>
      rw [List.forall_mem_cons] at his
      obtain ⟨s₁, hstep, hR₁⟩ := h i s a his.1 hR
      obtain ⟨s₂, hrun, hR₂⟩ := ih his.2 hR₁
      exact ⟨s₂, by simp [runAll, hstep, hrun], hR₂⟩

/-- Steps whose reports do not depend on the state report one by one in a run. -/
theorem runAll_memoryless {step : ι → σ → Exec ε (ο × σ)} {report : ι → ο} {C : ι → Prop}
    (h : ∀ i s, C i → ∃ s', step i s = done (report i, s'))
    {is : List ι} (his : ∀ i ∈ is, C i) (s : σ) :
    ∃ s', runAll step is s = done (is.map report, s') := by
  induction is generalizing s with
  | nil => exact ⟨s, rfl⟩
  | cons i is ih =>
      rw [List.forall_mem_cons] at his
      obtain ⟨s₁, hstep⟩ := h i s his.1
      obtain ⟨s₂, hrun⟩ := ih his.2 s₁
      exact ⟨s₂, by simp [runAll, hstep, hrun]⟩

end Exec
end FrameworkTests
