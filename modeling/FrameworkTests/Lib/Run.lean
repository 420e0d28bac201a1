import Mathlib.Data.List.Basic
import Mathlib.Tactic.Common

/-!
# Runs of a reporting step function

A component is a step function: an operation and a state give a report and the
next state.  A run applies a list of operations in order.  Every claim about a
component is a claim about its runs, so the induction over a run is done once
here: `history_induction` carries an invariant that may speak about everything
done and reported so far, and `Along` restricts a run to steps that meet a
condition in the state before them.

## Main definitions

* `after step is s` — the state a run ends in.
* `history step is s` — the operations of a run with their reports.
* `Along step C is s` — every step of the run meets `C` in the state before it.
* `lockstep` — two runs side by side.
* `Throughout P es` — every element of a log meets `P` with what is logged before it.
-/

namespace FrameworkTests.Run

variable {σ ι ο : Type*} (step : ι → σ → ο × σ)

/-- The state reached by a run. -/
def after : List ι → σ → σ
  | [], s => s
  | i :: is, s => after is (step i s).2

/-- The operations of a run, each with the report it gave. -/
def history : List ι → σ → List (ι × ο)
  | [], _ => []
  | i :: is, s => (i, (step i s).1) :: history is (step i s).2

/-- Every step of the run meets `C` in the state it starts from. -/
def Along (C : ι → σ → Prop) : List ι → σ → Prop
  | [], _ => True
  | i :: is, s => C i s ∧ Along C is (step i s).2

instance Along.decidable (C : ι → σ → Prop) [∀ i s, Decidable (C i s)] :
    ∀ is s, Decidable (Along step C is s)
  | [], _ => inferInstanceAs (Decidable True)
  | i :: is, s =>
      haveI := Along.decidable C is (step i s).2
      inferInstanceAs (Decidable (C i s ∧ Along step C is (step i s).2))

@[simp] theorem after_nil (s : σ) : after step [] s = s := rfl
@[simp] theorem after_cons (i : ι) (is : List ι) (s : σ) :
    after step (i :: is) s = after step is (step i s).2 := rfl
@[simp] theorem history_nil (s : σ) : history step [] s = [] := rfl
@[simp] theorem history_cons (i : ι) (is : List ι) (s : σ) :
    history step (i :: is) s = (i, (step i s).1) :: history step is (step i s).2 := rfl
@[simp] theorem along_nil (C : ι → σ → Prop) (s : σ) : Along step C [] s := trivial
@[simp] theorem along_cons (C : ι → σ → Prop) (i : ι) (is : List ι) (s : σ) :
    Along step C (i :: is) s ↔ C i s ∧ Along step C is (step i s).2 := Iff.rfl

theorem after_append (is js : List ι) (s : σ) :
    after step (is ++ js) s = after step js (after step is s) := by
  induction is generalizing s with
  | nil => rfl
  | cons i is ih => simp only [List.cons_append, after_cons, ih]

theorem history_append (is js : List ι) (s : σ) :
    history step (is ++ js) s = history step is s ++ history step js (after step is s) := by
  induction is generalizing s with
  | nil => rfl
  | cons i is ih => simp only [List.cons_append, history_cons, after_cons, ih]

theorem along_append (C : ι → σ → Prop) (is js : List ι) (s : σ) :
    Along step C (is ++ js) s ↔ Along step C is s ∧ Along step C js (after step is s) := by
  induction is generalizing s with
  | nil => simp
  | cons i is ih => simp only [List.cons_append, along_cons, after_cons, ih, and_assoc]

/-- A condition that every operation of the list meets in every state is met
along the run. -/
theorem along_of_forall {C : ι → σ → Prop} {is : List ι} (h : ∀ i ∈ is, ∀ s, C i s) (s : σ) :
    Along step C is s := by
  induction is generalizing s with
  | nil => trivial
  | cons i is ih =>
      refine ⟨h i (by simp) s, ih ?_ _⟩
      intro j hj
      exact h j (by simp [hj])

/-- A condition on the operations alone. -/
theorem along_const (P : ι → Prop) (is : List ι) (s : σ) :
    Along step (fun i _ => P i) is s ↔ ∀ i ∈ is, P i := by
  induction is generalizing s with
  | nil => simp
  | cons i is ih => simp only [along_cons, ih, List.forall_mem_cons]

theorem along_imp {C D : ι → σ → Prop} (h : ∀ i s, C i s → D i s) (is : List ι) (s : σ)
    (hC : Along step C is s) : Along step D is s := by
  induction is generalizing s with
  | nil => trivial
  | cons i is ih => exact ⟨h i s hC.1, ih _ hC.2⟩

theorem along_and (C D : ι → σ → Prop) (is : List ι) (s : σ) :
    Along step (fun i s => C i s ∧ D i s) is s ↔ Along step C is s ∧ Along step D is s := by
  induction is generalizing s with
  | nil => simp
  | cons i is ih => simp only [along_cons, ih, and_assoc, and_left_comm]

/-- An observation stays what it was at the start exactly when every step keeps it. -/
theorem constant_iff {β : Type*} (f : σ → β) (is : List ι) (s : σ) :
    (∀ js, js <+: is → f (after step js s) = f s) ↔
      Along step (fun i s => f (step i s).2 = f s) is s := by
  induction is generalizing s with
  | nil => simp
  | cons i is ih =>
      rw [along_cons, ← ih]
      constructor
      · intro h
        have hi : f (step i s).2 = f s := h [i] ⟨is, rfl⟩
        refine ⟨hi, fun js hjs => ?_⟩
        exact (h (i :: js) (List.cons_prefix_cons.mpr ⟨rfl, hjs⟩)).trans hi.symm
      · rintro ⟨hi, h⟩ js hjs
        cases js with
        | nil => rfl
        | cons j js =>
            obtain ⟨rfl, hrest⟩ := List.cons_prefix_cons.mp hjs
            exact (h js hrest).trans hi

/-- The run stops meeting the condition at a first step: everything before it
meets `C`, the step itself does not. -/
theorem exists_first_of_not_along {C : ι → σ → Prop} {is : List ι} {s : σ}
    (h : ¬ Along step C is s) :
    ∃ js i ks, is = js ++ i :: ks ∧ Along step C js s ∧ ¬ C i (after step js s) := by
  induction is generalizing s with
  | nil => exact absurd trivial h
  | cons i is ih =>
      by_cases hi : C i s
      · have hrest : ¬ Along step C is (step i s).2 := fun hr => h ⟨hi, hr⟩
        obtain ⟨js, j, ks, rfl, hjs, hj⟩ := ih hrest
        exact ⟨i :: js, j, ks, rfl, ⟨hi, hjs⟩, hj⟩
      · exact ⟨[], i, is, rfl, trivial, hi⟩

/-- Conditions that agree on an invariant agree along runs. -/
theorem along_congr {C D : ι → σ → Prop} {I : σ → Prop} (hI : ∀ i s, I s → I (step i s).2)
    (is : List ι) (h : ∀ i ∈ is, ∀ s, I s → (C i s ↔ D i s)) {s : σ} (hs : I s) :
    Along step C is s ↔ Along step D is s := by
  induction is generalizing s with
  | nil => exact Iff.rfl
  | cons i is ih =>
      rw [List.forall_mem_cons] at h
      exact and_congr (h.1 s hs) (ih h.2 (hI i s hs))

variable {step}

/-- **Induction along a run.**  An invariant of history and state that holds at
the start and survives every step meeting `C` holds after a run along `C`. -/
theorem history_induction {C : ι → σ → Prop} {I : List (ι × ο) → σ → Prop}
    (hstep : ∀ h s i, C i s → I h s → I (h ++ [(i, (step i s).1)]) (step i s).2)
    {is : List ι} {s : σ} (hC : Along step C is s) (h0 : I [] s) :
    I (history step is s) (after step is s) := by
  have key : ∀ (is : List ι) (h : List (ι × ο)) (s : σ), Along step C is s → I h s →
      I (h ++ history step is s) (after step is s) := by
    intro is
    induction is with
    | nil => intro h s _ hI; simpa using hI
    | cons i is ih =>
        intro h s hC hI
        have := ih _ _ hC.2 (hstep h s i hC.1 hI)
        simpa using this
  simpa using key is [] s hC h0

/-- The unconditional form: an invariant of the state alone. -/
theorem invariant {I : σ → Prop} (hstep : ∀ s i, I s → I (step i s).2)
    (is : List ι) {s : σ} (h0 : I s) : I (after step is s) :=
  history_induction (C := fun _ _ => True) (I := fun _ s => I s)
    (fun _ s i _ hI => hstep s i hI) (along_of_forall step (by simp) s) h0

/-- **Simulation.**  A relation to the states of an abstract machine that every
step keeps relates the two final states. -/
theorem simulation {τ : Type*} {abs : ι → τ → τ} {R : σ → τ → Prop}
    (hstep : ∀ s a i, R s a → R (step i s).2 (abs i a)) (is : List ι) {s : σ} {a : τ}
    (h0 : R s a) : R (after step is s) (is.foldl (fun a i => abs i a) a) := by
  induction is generalizing s a with
  | nil => exact h0
  | cons i is ih => exact ih (hstep s a i h0)

/-- **Two runs side by side.**  Operations that are alike one by one keep a relation
between the states of two runs, and their reports are related one by one. -/
theorem lockstep {σ' ι' ο' : Type*} {step' : ι' → σ' → ο' × σ'} {L : ι → ι' → Prop}
    {R : σ → σ' → Prop} {Q : ο → ο' → Prop}
    (hstep : ∀ i i' s s', L i i' → R s s' →
      Q (step i s).1 (step' i' s').1 ∧ R (step i s).2 (step' i' s').2)
    {is : List ι} {is' : List ι'} (his : List.Forall₂ L is is') {s : σ} {s' : σ'} (h0 : R s s') :
    List.Forall₂ Q ((history step is s).map Prod.snd) ((history step' is' s').map Prod.snd) ∧
      R (after step is s) (after step' is' s') := by
  induction his generalizing s s' with
  | nil => exact ⟨.nil, h0⟩
  | cons hi _ ih =>
      obtain ⟨hreport, hnext⟩ := hstep _ _ s s' hi h0
      obtain ⟨hreports, hlast⟩ := ih hnext
      exact ⟨.cons hreport hreports, hlast⟩

/-! ### Logs

A log is a run too: its state is what was logged before. -/

/-- The step that logs an element. -/
def logging {α : Type*} (e : α) (es : List α) : Unit × List α := ((), es ++ [e])

theorem after_logging {α : Type*} (es fs : List α) : after logging fs es = es ++ fs := by
  induction fs generalizing es with
  | nil => simp
  | cons f fs ih => simp [logging, ih]

/-- Every element meets `P` with the elements before it. -/
def Throughout {α : Type*} (P : List α → α → Prop) (es : List α) : Prop :=
  Along logging (fun e es => P es e) es []

instance {α : Type*} (P : List α → α → Prop) [∀ es e, Decidable (P es e)] (es : List α) :
    Decidable (Throughout P es) :=
  Along.decidable logging (fun e es => P es e) es []

section Throughout

variable {α : Type*} {P : List α → α → Prop} {es fs : List α}

@[simp] theorem throughout_nil : Throughout P [] := trivial

@[simp] theorem throughout_concat {e : α} :
    Throughout P (es ++ [e]) ↔ Throughout P es ∧ P es e := by
  simp [Throughout, along_append, after_logging]

/-- Conditions that agree on every element agree on the log. -/
theorem throughout_congr {Q : List α → α → Prop} (h : Throughout (fun es e => P es e ↔ Q es e) es) :
    Throughout P es ↔ Throughout Q es :=
  ⟨fun hP => along_imp _ (fun _ _ h => h.1.mp h.2) es [] ((along_and ..).mpr ⟨h, hP⟩),
    fun hQ => along_imp _ (fun _ _ h => h.1.mpr h.2) es [] ((along_and ..).mpr ⟨h, hQ⟩)⟩

/-- What holds of an element in the middle of a log. -/
theorem Throughout.at_append_cons {e : α} (h : Throughout P (es ++ e :: fs)) : P es e := by
  rw [List.append_cons] at h
  exact (throughout_concat.mp ((along_append _ _ _ _ _).mp h).1).2

theorem Throughout.append_of_forall (h : Throughout P es) (hfs : ∀ f ∈ fs, ∀ gs, P gs f) :
    Throughout P (es ++ fs) :=
  (along_append _ _ _ _ _).mpr ⟨h, along_of_forall _ hfs _⟩

theorem Throughout.of_isPrefix (h : Throughout P fs) (hes : es <+: fs) : Throughout P es := by
  rcases hes with ⟨gs, rfl⟩
  exact ((along_append _ _ _ _ _).mp h).1

end Throughout

-- From here on a log is only read through the lemmas above; unfolding a concrete run
-- would evaluate it.
attribute [irreducible] Throughout

end FrameworkTests.Run
