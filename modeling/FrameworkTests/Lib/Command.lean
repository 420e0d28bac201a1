import Mathlib.Data.List.Basic
import Mathlib.Order.Defs.Unbundled
import Mathlib.Tactic.Common

/-!
# Commands that return a status or exit

A shell command takes a state; it either returns with a status or ends the whole
script with one.  Commands compose as the shell composes them: one after another,
with a look at the status just returned, once for each word of a list, or in a
subshell, whose exit is only a return.

Two kinds of fact compose along with them.  `Triple P c Q E` is the specification
of `c` by what holds before it, after it returns and after it exits; its rule for
loops, `triple_forEach`, has an invariant over the words done so far.  `Moves R c`
says that every run of `c` moves the state along a preorder `R`, such as a log
that only grows.  `triple_assuming` joins the two: an invariant that is only
claimed while nothing has gone wrong, where going wrong is for good.

## Main definitions

* `Outcome σ`, `Command σ` — a return or an exit, with status and state.
* `andThen`, `block`, `forEach`, `subshell` — the compositions.
* `Triple P c Q E` — pre- and postconditions.
* `Moves R c` — the relation of the states before and after.
* `Follows R X c f` — `c` does what `f` says, up to an exit.
-/

namespace FrameworkTests

/-- How a command ends. -/
inductive Outcome (σ : Type*) where
  | done (status : ℕ) (state : σ)
  | exit (status : ℕ) (state : σ)

namespace Outcome

variable {σ : Type*}

def status : Outcome σ → ℕ
  | done n _ => n
  | exit n _ => n

def state : Outcome σ → σ
  | done _ s => s
  | exit _ s => s

/-- The outcome is a return in `Q` or an exit in `E`. -/
def Holds (Q E : ℕ → σ → Prop) : Outcome σ → Prop
  | done n s => Q n s
  | exit n s => E n s

@[simp] theorem status_done (n : ℕ) (s : σ) : (done n s).status = n := rfl
@[simp] theorem status_exit (n : ℕ) (s : σ) : (exit n s).status = n := rfl
@[simp] theorem state_done (n : ℕ) (s : σ) : (done n s).state = s := rfl
@[simp] theorem state_exit (n : ℕ) (s : σ) : (exit n s).state = s := rfl
@[simp] theorem holds_done (Q E : ℕ → σ → Prop) (n : ℕ) (s : σ) :
    (done n s).Holds Q E ↔ Q n s := Iff.rfl
@[simp] theorem holds_exit (Q E : ℕ → σ → Prop) (n : ℕ) (s : σ) :
    (exit n s).Holds Q E ↔ E n s := Iff.rfl

theorem Holds.imp {Q Q' E E' : ℕ → σ → Prop} {o : Outcome σ} (h : o.Holds Q E)
    (hQ : ∀ n s, Q n s → Q' n s) (hE : ∀ n s, E n s → E' n s) : o.Holds Q' E' := by
  cases o with
  | done n s => exact hQ n s h
  | exit n s => exact hE n s h

/-- A fact that does not depend on how the command ends. -/
theorem holds_same {P : ℕ → σ → Prop} {o : Outcome σ} :
    o.Holds P P ↔ P o.status o.state := by
  cases o <;> exact Iff.rfl

end Outcome

/-- A command on states `σ`. -/
abbrev Command (σ : Type*) := σ → Outcome σ

namespace Command

variable {σ α : Type*}

/-- A command that returns the status and the state `f` computes. -/
def act (f : σ → ℕ × σ) : Command σ := fun s => .done (f s).1 (f s).2

/-- `exit n`. -/
def exitWith (n : ℕ) : Command σ := fun s => .exit n s

/-- Run `c`; when it returns, run what follows with its status as `$?`. -/
def andThen (c : Command σ) (k : ℕ → Command σ) : Command σ := fun s =>
  match c s with
  | .done n s' => k n s'
  | .exit n s' => .exit n s'

/-- `c₁; c₂; …`, with the status of the last. -/
def block : List (Command σ) → Command σ
  | [] => act fun s => (0, s)
  | [c] => c
  | c :: d :: cs => c.andThen fun _ => block (d :: cs)

/-- The remaining rounds of a loop, `n` being the status so far. -/
def forFrom (body : α → Command σ) (n : ℕ) : List α → Command σ
  | [] => act fun s => (n, s)
  | x :: xs => (body x).andThen fun n => forFrom body n xs

/-- `for x in xs; do body; done`: the status of the last round, 0 without one. -/
def forEach (body : α → Command σ) : List α → Command σ := forFrom body 0

/-- `(c)`: an exit of `c` is a return, and of its state only what `restore` keeps
reaches the caller. -/
def subshell (restore : σ → σ → σ) (c : Command σ) : Command σ := fun s =>
  .done (c s).status (restore s (c s).state)

@[simp] theorem act_apply (f : σ → ℕ × σ) (s : σ) : act f s = .done (f s).1 (f s).2 := rfl
@[simp] theorem exitWith_apply (n : ℕ) (s : σ) : exitWith n s = .exit n s := rfl
@[simp] theorem block_singleton (c : Command σ) : block [c] = c := rfl
@[simp] theorem block_cons_cons (c d : Command σ) (cs : List (Command σ)) :
    block (c :: d :: cs) = c.andThen fun _ => block (d :: cs) := rfl

theorem andThen_of_done {c : Command σ} {k : ℕ → Command σ} {s s' : σ} {n : ℕ}
    (h : c s = .done n s') : c.andThen k s = k n s' := by
  simp only [andThen, h]

theorem andThen_of_exit {c : Command σ} {k : ℕ → Command σ} {s s' : σ} {n : ℕ}
    (h : c s = .exit n s') : c.andThen k s = .exit n s' := by
  simp only [andThen, h]

@[simp] theorem act_andThen (f : σ → ℕ × σ) (k : ℕ → Command σ) (s : σ) :
    (act f).andThen k s = k (f s).1 (f s).2 := rfl

theorem andThen_assoc (c : Command σ) (k l : ℕ → Command σ) :
    (c.andThen k).andThen l = c.andThen fun n => (k n).andThen l := by
  ext s
  cases hc : c s with
  | done n s' => rw [andThen_of_done hc, andThen, andThen_of_done hc]; rfl
  | exit n s' => rw [andThen_of_exit hc, andThen, andThen_of_exit hc]

theorem forFrom_append (body : α → Command σ) (n : ℕ) (xs ys : List α) :
    forFrom body n (xs ++ ys) = (forFrom body n xs).andThen fun m => forFrom body m ys := by
  induction xs generalizing n with
  | nil => rfl
  | cons x xs ih =>
      have hcons : forFrom body n (x :: xs ++ ys) =
          (body x).andThen fun m => forFrom body m (xs ++ ys) := rfl
      rw [hcons, forFrom, andThen_assoc]
      simp only [ih]

/-- A loop over two lists, one after the other; the status is that of the second. -/
theorem forEach_append (body : α → Command σ) (xs : List α) {ys : List α} (hys : ys ≠ []) :
    forEach body (xs ++ ys) = (forEach body xs).andThen fun _ => forEach body ys := by
  rw [forEach, forFrom_append]
  cases ys with
  | nil => exact absurd rfl hys
  | cons y ys => rfl

/-! ### Pre- and postconditions -/

/-- From a state in `P`, `c` returns in `Q` or exits in `E`. -/
def Triple (P : σ → Prop) (c : Command σ) (Q E : ℕ → σ → Prop) : Prop :=
  ∀ s, P s → (c s).Holds Q E

theorem triple_andThen {P : σ → Prop} {c : Command σ} {k : ℕ → Command σ}
    {Q R E : ℕ → σ → Prop} (hc : Triple P c Q E) (hk : ∀ n, Triple (Q n) (k n) R E) :
    Triple P (c.andThen k) R E := by
  intro s hs
  have h := hc s hs
  cases hcs : c s with
  | done n s' =>
      rw [hcs] at h
      rw [andThen_of_done hcs]
      exact hk n s' h
  | exit n s' =>
      rw [hcs] at h
      rw [andThen_of_exit hcs]
      exact h

private theorem triple_forFrom {body : α → Command σ} {I : List α → ℕ → σ → Prop}
    {E : ℕ → σ → Prop} (xs : List α) :
    ∀ (done : List α) (n : ℕ),
      (∀ pre x post, xs = pre ++ x :: post → ∀ n,
        Triple (I (done ++ pre) n) (body x) (I (done ++ pre ++ [x])) E) →
      Triple (I done n) (forFrom body n xs) (I (done ++ xs)) E := by
  induction xs with
  | nil =>
      intro done n _ s hs
      simpa [forFrom] using hs
  | cons x xs ih =>
      intro done n hbody
      have hx : Triple (I done n) (body x) (I (done ++ [x])) E := by
        simpa using hbody [] x xs rfl n
      have hxs : ∀ n, Triple (I (done ++ [x]) n) (forFrom body n xs)
          (I (done ++ x :: xs)) E := by
        intro n
        have := ih (done ++ [x]) n (fun pre y post hxs m => by
          simpa using hbody (x :: pre) y post (by simp [hxs]) m)
        simpa using this
      exact triple_andThen hx hxs

/-- **The loop rule.**  The invariant speaks about the words done so far, the
status of the last round and the state. -/
theorem triple_forEach {body : α → Command σ} {I : List α → ℕ → σ → Prop}
    {E : ℕ → σ → Prop} {xs : List α}
    (h : ∀ pre x post, xs = pre ++ x :: post → ∀ n,
      Triple (I pre n) (body x) (I (pre ++ [x])) E) :
    Triple (I [] 0) (forEach body xs) (I xs) E :=
  triple_forFrom xs [] 0 h

/-- A loop keeps what every round keeps. -/
theorem triple_forEach_const {body : α → Command σ} {P : σ → Prop} {E : ℕ → σ → Prop}
    (h : ∀ x, Triple P (body x) (fun _ => P) E) (xs : List α) :
    Triple P (forEach body xs) (fun _ => P) E :=
  triple_forEach (I := fun _ _ => P) fun _ x _ _ _ => h x

/-! ### Moving along a preorder -/

section Moves

variable {R : σ → σ → Prop}

/-- Every run of `c` moves the state along `R`. -/
def Moves (R : σ → σ → Prop) (c : Command σ) : Prop := ∀ s, R s (c s).state

theorem moves_exitWith [Std.Refl R] (n : ℕ) : Moves R (exitWith n) := fun s => refl_of R s

theorem moves_andThen [IsTrans σ R] {c : Command σ} {k : ℕ → Command σ} (hc : Moves R c)
    (hk : ∀ n, Moves R (k n)) : Moves R (c.andThen k) := by
  intro s
  have h := hc s
  cases hcs : c s with
  | done n s' =>
      rw [hcs] at h
      rw [andThen_of_done hcs]
      exact trans_of R h (hk n s')
  | exit n s' =>
      rw [hcs] at h
      rw [andThen_of_exit hcs]
      exact h

theorem moves_block_nil [Std.Refl R] : Moves R (block []) := fun s => refl_of R s

variable [IsPreorder σ R]

theorem moves_block_cons {c : Command σ} {cs : List (Command σ)} (hc : Moves R c)
    (hcs : Moves R (block cs)) : Moves R (block (c :: cs)) := by
  cases cs with
  | nil => exact hc
  | cons d cs => exact moves_andThen hc fun _ => hcs

end Moves

/-- **Invariants under an assumption.**  If a command only moves the state along
`R`, and `Fine` is lost for good along `R`, then an invariant claimed under the
assumption `Fine` may use that `Fine` holds already before the command. -/
theorem triple_assuming {R : σ → σ → Prop} {Fine P : σ → Prop} {Q E : ℕ → σ → Prop}
    {c : Command σ} (hfine : ∀ s t, R s t → Fine t → Fine s) (hmoves : Moves R c)
    (h : ∀ s, P s → Fine (c s).state → (c s).Holds Q E) :
    Triple (fun s => Fine s → P s) c (fun n s => Fine s → Q n s)
      (fun n s => Fine s → E n s) := by
  intro s hs
  have hback : Fine (c s).state → (c s).Holds Q E := fun hf => h s (hs (hfine _ _ (hmoves s) hf)) hf
  cases hcs : c s with
  | done n s' => simpa [hcs] using hback
  | exit n s' => simpa [hcs] using hback

/-! ### Following a plan

A command that does what a function on abstract states says, except that it may exit
on the way. -/

section Follows

variable {τ : Type*} {R X : σ → τ → Prop}

/-- From states in `R`, `c` returns in a state that `R` relates to what `f` computes;
or it exits, in a state that `X` relates to it. -/
def Follows (R X : σ → τ → Prop) (c : Command σ) (f : τ → τ) : Prop :=
  ∀ s t, R s t → (c s).Holds (fun _ s' => R s' (f t)) (fun _ s' => X s' (f t))

theorem follows_andThen {c : Command σ} {k : ℕ → Command σ} {f g : τ → τ}
    (hX : ∀ s t, X s t → X s (g t)) (hc : Follows R X c f) (hk : ∀ n, Follows R X (k n) g) :
    Follows R X (c.andThen k) fun t => g (f t) := by
  intro s t hst
  have h := hc s t hst
  cases hs : c s with
  | done n s' =>
      rw [hs] at h
      rw [andThen_of_done hs]
      exact hk n s' (f t) h
  | exit n s' =>
      rw [hs] at h
      rw [andThen_of_exit hs]
      exact hX s' (f t) h

/-- **The loop rule for a plan.**  Once the command has exited, the rest of the plan
must keep `X`. -/
theorem follows_forEach {c : α → Command σ} {f : τ → α → τ} (hX : ∀ s t x, X s t → X s (f t x))
    (h : ∀ x, Follows R X (c x) fun t => f t x) (xs : List α) :
    Follows R X (forEach c xs) fun t => xs.foldl f t := by
  have key : ∀ n, Follows R X (forFrom c n xs) fun t => xs.foldl f t := by
    induction xs with
    | nil => exact fun n s t hst => hst
    | cons x xs ih =>
        intro n
        refine follows_andThen ?_ (h x) ih
        intro s t hst
        exact List.foldlRecOn xs f hst fun t ht x _ => hX s t x ht
  exact key 0

end Follows

end Command
end FrameworkTests
