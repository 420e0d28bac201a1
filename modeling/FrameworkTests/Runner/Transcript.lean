import FrameworkTests.Runner.Plan

/-!
# What a run logs, and how it ends

The loops pass on the status of what they did last, and a build that fails ends the
script.  Together with the plan this is all there is to say about a run:
`runAllTests_answers` gives its log and its outcome for every tree, all answers of the
world and all arguments that do not ask for help.

## Main definitions

* `lastStatus V log` — the status of the last entry of a log.
* `Returns`, `Dies` — how the loops end, by their logs.
-/

namespace FrameworkTests.Runner

open Command

/-- The status of the last entry: that of a test, or 0 for an entry the loops skipped. -/
def lastStatus (Verbose : Bool) (log : Log) : ℕ :=
  match log.getLast? with
  | some ⟨_, _, .run _ result⟩ => testStatus Verbose result
  | _ => 0

/-- A command returns with the status of the last entry, as long as no build failed. -/
def Returns (V : Bool) (n : ℕ) (s : Shell) : Prop :=
  ¬ BuildFailed s.log ∧ n = lastStatus V s.log

/-- The script exits with status 1 behind a failed build. -/
def Dies (n : ℕ) (s : Shell) : Prop := n = 1 ∧ BuildFailed s.log

@[simp] theorem lastStatus_run (V : Bool) (log : Log) (j : Word) (dir : Path)
    (command : List Word) (result : Result) :
    lastStatus V (log ++ [⟨j, dir, .run command result⟩]) = testStatus V result := by
  simp [lastStatus]

variable {w : World}

/-- A build and run round in its body. -/
theorem returns_buildAndRun (V : Bool) :
    Triple (fun s => ¬ BuildFailed s.log) (buildAndRun w V) (Returns V) Dies := by
  intro s hs
  have hbuilding : ¬ BuildFailed (building w s).log := by
    rw [log_building]
    simp [hs, Deed.isFailedBuild]
  by_cases hstatus : buildStatus w V s = 0
  · rw [buildAndRun_of_built w hstatus]
    refine ⟨?_, ?_⟩
    · rw [log_tested, log_testing, log_built]
      simp [hbuilding, Deed.isFailedBuild]
    · rw [log_tested, lastStatus_run]
  · rw [buildAndRun_of_failed w hstatus]
    refine ⟨rfl, ?_⟩
    rw [log_failed]
    simp [hstatus, Deed.isFailedBuild]

/-- A round that is not over a directory counts as passed. -/
theorem returns_beginning (V : Bool) (j : Word) {s : Shell} (hs : ¬ BuildFailed s.log) :
    Returns V 0 (s.beginning j) := by
  refine ⟨?_, ?_⟩
  · simp [hs, Deed.isFailedBuild]
  · simp [lastStatus]

/-- **One round.** -/
theorem returns_round (V : Bool) (j : Word) :
    Triple (fun s => ¬ BuildFailed s.log) (round w (buildAndRun w V) j) (Returns V) Dies := by
  intro s hs
  have hbegin := returns_beginning V j hs
  rw [round_apply]
  split
  · exact returns_buildAndRun V _ hbegin.1
  · exact hbegin

/-- **The loop over a module** goes round at least once, and takes the status of its last
round. -/
theorem returns_forTests (V : Bool) (i : Word) :
    Triple (fun s => ¬ BuildFailed s.log) (forTests w (buildAndRun w V) i) (Returns V) Dies := by
  intro s hs
  have hne : w.expand s.cwd (i ++ "/*".toList) ≠ [] := w.expand_ne_nil ⟨'/', by simp, rfl⟩
  have hloop : Triple (fun s => ¬ BuildFailed s.log)
      (forEach (round w (buildAndRun w V)) (w.expand s.cwd (i ++ "/*".toList)))
      (fun n s' => ¬ BuildFailed s'.log ∧
        (w.expand s.cwd (i ++ "/*".toList) ≠ [] → Returns V n s')) Dies := by
    intro s hs
    refine triple_forEach
      (I := fun pre n s' => ¬ BuildFailed s'.log ∧ (pre ≠ [] → Returns V n s')) ?_ s ?_
    · intro pre j post _ n s' hs'
      exact (returns_round V j s' hs'.1).imp (fun _ _ h => ⟨h.1, fun _ => h⟩) fun _ _ h => h
    · exact ⟨hs, fun h => absurd rfl h⟩
  exact (hloop s hs).imp (fun _ _ h => h.2 hne) fun _ _ h => h

/-- **The build and run loop**, when the log before it does not end with a failing
test. -/
theorem returns_forModules (V : Bool) (Modules : List Word) :
    Triple (Returns V 0) (forModules w Modules (buildAndRun w V)) (Returns V) Dies := by
  intro s hs
  refine triple_forEach (I := fun _ n s => Returns V n s) ?_ s hs
  intro pre i post _ n s hs
  exact returns_forTests V i s hs.1

/-- Cleaning builds and tests nothing. -/
theorem returns_cleanTest (V : Bool) :
    Triple (fun s => ¬ BuildFailed s.log) (cleanTest w) (fun _ => Returns V 0) Dies := by
  intro s hs
  obtain ⟨n, happly⟩ := cleanTest_apply w s
  rw [happly]
  refine ⟨?_, ?_⟩
  · rw [Shell.log_moved, log_cleaned, log_cleaning_note]
    simp [hs, Deed.isFailedBuild]
  · rw [Shell.log_moved, log_cleaned]
    simp [lastStatus]

/-- **A round of the rebuild loop** leaves the verdict of an empty run. -/
theorem returns_cleanRound (V : Bool) (j : Word) :
    Triple (Returns V 0) (round w (cleanTest w) j) (fun _ => Returns V 0) Dies := by
  intro s hs
  have hbegin := returns_beginning V j hs.1
  rw [round_apply]
  split
  · exact returns_cleanTest V _ hbegin.1
  · exact hbegin

/-- **Both loops.** -/
theorem returns_runModules (w : World) (o : Options) :
    (runModules w o (initial w)).Holds (Returns o.Verbose) Dies :=
  triple_runModules (returns_cleanRound o.Verbose) (returns_forModules o.Verbose o.Modules)
    (initial w) ⟨not_buildFailed_nil, rfl⟩

/-- **Every run answers its plan**: it goes on as planned to the end, where it returns with
the status of the last entry, or to the first build that fails, where the script exits with
status 1 and a message. -/
theorem runAllTests_answers (w : World) {args : List Word} (h : isHelp (args.headD []) = false) :
    (¬ BuildFailed (answered w args) →
      ∃ s, runAllTests w args =
          .done (lastStatus (options w args).Verbose (answered w args)) s ∧
        s.log = answered w args) ∧
      (BuildFailed (answered w args) →
        ∃ s, runAllTests w args = .exit 1 s ∧ Stops (answered w args) s.log) := by
  have hplan := follows_plan w h
  have hstatus := returns_runModules w (options w args)
  rw [← runAllTests_eq w h] at hstatus
  cases hrun : runAllTests w args with
  | done n s =>
      rw [hrun] at hplan hstatus
      obtain ⟨hok, hlog⟩ := hplan
      obtain ⟨_, hn⟩ := hstatus
      exact ⟨fun _ => ⟨s, by rw [hn, hlog], hlog⟩, fun hfailed => absurd hfailed hok⟩
  | exit n s =>
      rw [hrun] at hplan hstatus
      exact ⟨fun hok => absurd hplan.buildFailed hok, fun _ => ⟨s, by rw [hstatus.1], hplan⟩⟩

/-- In the repository both loops go round, and no build fails. -/
theorem runAllTests_answers_checkout :
    ∃ s, runAllTests checkout ["-r".toList, "Network".toList] =
        .done (lastStatus (options checkout ["-r".toList, "Network".toList]).Verbose
          (answered checkout ["-r".toList, "Network".toList])) s ∧
      s.log = answered checkout ["-r".toList, "Network".toList] :=
  (runAllTests_answers checkout (by decide)).1 (by decide +kernel)

end FrameworkTests.Runner
