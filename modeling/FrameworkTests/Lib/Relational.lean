import FrameworkTests.Lib.Command

/-!
# Two commands side by side

A relation between the states of two commands, kept by both as they run in step:
`Alike Q R c d` says that from related states `c` and `d` end the same way, with
related states again.  The statuses they return with need only be in `Q`, so that a
comparison may leave them open where nothing depends on them; an exit must be with
one status.

There is one rule for each way commands compose.

## Main definitions

* `Outcome.Both Q R` — two outcomes of one kind.
* `Alike Q R c d` — two commands that keep a relation.
* `alike_andThen`, `alike_forEach`, `alike_subshell` — the rules.
-/

namespace FrameworkTests

variable {σ τ : Type*}

/-- Both return, with statuses in `Q`, or both exit, with one status. -/
inductive Outcome.Both (Q : ℕ → ℕ → Prop) (R : σ → τ → Prop) : Outcome σ → Outcome τ → Prop
  | done {m n : ℕ} {s : σ} {t : τ} : Q m n → R s t → Both Q R (.done m s) (.done n t)
  | exit {n : ℕ} {s : σ} {t : τ} : R s t → Both Q R (.exit n s) (.exit n t)

namespace Outcome.Both

variable {Q Q' : ℕ → ℕ → Prop} {R R' : σ → τ → Prop} {o : Outcome σ} {o' : Outcome τ}

theorem state (h : Both Q R o o') : R o.state o'.state := by
  cases h with
  | done _ hR => exact hR
  | exit hR => exact hR

theorem status (h : Both Q R o o') (hQ : ∀ n, Q n n) : Q o.status o'.status := by
  cases h with
  | done hQ _ => exact hQ
  | exit _ => exact hQ _

theorem imp (h : Both Q R o o') (hQ : ∀ m n, Q m n → Q' m n) (hR : ∀ s t, R s t → R' s t) :
    Both Q' R' o o' := by
  cases h with
  | done hm hs => exact .done (hQ _ _ hm) (hR _ _ hs)
  | exit hs => exact .exit (hR _ _ hs)

end Outcome.Both

namespace Command

variable {α : Type*} {Q Q' : ℕ → ℕ → Prop} {R : σ → τ → Prop}

/-- From related states, `c` and `d` end in one way and in related states. -/
def Alike (Q : ℕ → ℕ → Prop) (R : σ → τ → Prop) (c : Command σ) (d : Command τ) : Prop :=
  ∀ s t, R s t → (c s).Both Q R (d t)

theorem alike_exitWith (n : ℕ) : Alike Q R (exitWith n) (exitWith n) := fun _ _ h => .exit h

theorem alike_act {f : σ → ℕ × σ} {g : τ → ℕ × τ}
    (h : ∀ s t, R s t → Q (f s).1 (g t).1 ∧ R (f s).2 (g t).2) : Alike Q R (act f) (act g) := by
  intro s t hst
  obtain ⟨hstatus, hstate⟩ := h s t hst
  exact .done hstatus hstate

theorem Alike.imp {c : Command σ} {d : Command τ} (h : Alike Q R c d)
    (hQ : ∀ m n, Q m n → Q' m n) : Alike Q' R c d :=
  fun s t hst => (h s t hst).imp hQ fun _ _ h => h

theorem alike_andThen {c : Command σ} {d : Command τ} {k : ℕ → Command σ} {l : ℕ → Command τ}
    (hc : Alike Q R c d) (hk : ∀ m n, Q m n → Alike Q' R (k m) (l n)) :
    Alike Q' R (c.andThen k) (d.andThen l) := by
  intro s t hst
  have h := hc s t hst
  cases hcs : c s with
  | done m s' =>
      cases hdt : d t with
      | done n t' =>
          rw [hcs, hdt] at h
          rw [andThen_of_done hcs, andThen_of_done hdt]
          cases h with
          | done hmn hst' => exact hk m n hmn s' t' hst'
      | exit n t' =>
          rw [hcs, hdt] at h
          cases h
  | exit m s' =>
      cases hdt : d t with
      | done n t' =>
          rw [hcs, hdt] at h
          cases h
      | exit n t' =>
          rw [hcs, hdt] at h
          rw [andThen_of_exit hcs, andThen_of_exit hdt]
          cases h with
          | exit hst' => exact .exit hst'

theorem alike_block_nil (h : Q 0 0) : Alike Q R (block []) (block []) :=
  alike_act fun _ _ hst => ⟨h, hst⟩

/-- Only the last command of a block has to return with a status in `Q`. -/
theorem alike_block_cons {c c' : Command σ} {d d' : Command τ} {cs : List (Command σ)}
    {ds : List (Command τ)} (hc : Alike Q' R c d)
    (hcs : Alike Q R (block (c' :: cs)) (block (d' :: ds))) :
    Alike Q R (block (c :: c' :: cs)) (block (d :: d' :: ds)) :=
  alike_andThen hc fun _ _ _ => hcs

theorem alike_forFrom {c : α → Command σ} {d : α → Command τ} (h : ∀ x, Alike Q R (c x) (d x))
    (xs : List α) {m n : ℕ} (hmn : Q m n) : Alike Q R (forFrom c m xs) (forFrom d n xs) := by
  induction xs generalizing m n with
  | nil => exact alike_act fun _ _ hst => ⟨hmn, hst⟩
  | cons x xs ih => exact alike_andThen (h x) fun _ _ hmn => ih hmn

/-- **Two loops side by side.** -/
theorem alike_forEach {c : α → Command σ} {d : α → Command τ} (h0 : Q 0 0)
    (h : ∀ x, Alike Q R (c x) (d x)) (xs : List α) : Alike Q R (forEach c xs) (forEach d xs) :=
  alike_forFrom h xs h0

/-- Two subshells: what is kept of their states must be related. -/
theorem alike_subshell {c : Command σ} {d : Command τ} {f : σ → σ → σ} {g : τ → τ → τ}
    (hQ : ∀ n, Q n n) (hfg : ∀ s t s' t', R s t → R s' t' → R (f s s') (g t t'))
    (h : Alike Q R c d) : Alike Q R (subshell f c) (subshell g d) := by
  intro s t hst
  have hinner := h s t hst
  exact .done (hinner.status hQ) (hfg s t _ _ hst hinner.state)

end Command
end FrameworkTests
