import FrameworkTests.Lib.Run
import FrameworkTests.Runner.Script

/-!
# One round of the loops

The rounds of the rebuild loop and of the build and run loop, computed once: in
which directory each command of a round runs, what it adds to the log and how the
round ends.  Everything the other modules say about the script goes through these
equations and through the fact that its log only grows.

## Main definitions

* `Grows s s'` — the log of `s'` continues that of `s`.
* `cleaning`, `building`, `testing` — the shells in which `make clean`, `make` and
  the binary of a round are run.
* `Leads t j p` — for a round that begins in the directory of the script, `j` leads
  into `p`, from where `../..` leads back.
-/

namespace FrameworkTests.Runner

open Command Run

variable (w : World)

@[simp] theorem Shell.cwd_note (s : Shell) (d : Deed) : (s.note d).cwd = s.cwd := rfl
@[simp] theorem Shell.j_note (s : Shell) (d : Deed) : (s.note d).j = s.j := rfl
@[simp] theorem Shell.log_note (s : Shell) (d : Deed) :
    (s.note d).log = s.log ++ [⟨s.j, s.cwd, d⟩] := rfl
@[simp] theorem log_leave (s t : Shell) : (leave s t).log = t.log := rfl

@[simp] theorem firstArg_note (s : Shell) (d : Deed) :
    firstArg w (s.note d) = firstArg w s := rfl

/-- The shell at the beginning of a round over `j`. -/
def Shell.beginning (s : Shell) (j : Word) : Shell := ({ s with j := j } : Shell).note .round

@[simp] theorem Shell.cwd_beginning (s : Shell) (j : Word) : (s.beginning j).cwd = s.cwd := rfl
@[simp] theorem Shell.j_beginning (s : Shell) (j : Word) : (s.beginning j).j = j := rfl
@[simp] theorem Shell.log_beginning (s : Shell) (j : Word) :
    (s.beginning j).log = s.log ++ [⟨j, s.cwd, .round⟩] := rfl

theorem round_apply (body : Command Shell) (j : Word) (s : Shell) :
    round w body j s =
      if w.isDirectory s.cwd j then body (s.beginning j) else .done 0 (s.beginning j) := rfl

/-! ### The log grows -/

/-- The log goes on. -/
def Grows (s s' : Shell) : Prop := s.log <+: s'.log

instance : IsPreorder Shell Grows where
  refl _ := List.prefix_rfl
  trans _ _ _ h h' := List.IsPrefix.trans h h'

theorem moves_note (f : Shell → ℕ) (d : Shell → Deed) :
    Moves Grows (act fun s => (f s, s.note (d s))) :=
  fun s => ⟨[⟨s.j, s.cwd, d s⟩], rfl⟩

theorem moves_cd (words : Shell → List Word) : Moves Grows (cd w words) := by
  intro s
  simp only [cd, act_apply]
  split <;> exact refl_of Grows s

theorem moves_die (text : Word) : Moves Grows (die text) :=
  moves_block_cons (moves_note _ _) (moves_exitWith 1)

/-- Both branches around `make` in one. -/
theorem make_eq (V : Bool) : (if V then make w true else make w false) = make w V := by
  cases V <;> rfl

theorem moves_buildTest (V : Bool) (name : Word) : Moves Grows (buildTest w V name) := by
  rw [buildTest, make_eq]
  apply moves_block_cons (moves_cd w _)
  apply moves_block_cons (moves_note _ _)
  apply moves_andThen (moves_note _ _)
  intro status
  by_cases hs : status ≠ 0
  · rw [if_pos hs]
    exact moves_die _
  · rw [if_neg hs]
    exact moves_cd w _

theorem moves_runTest (V : Bool) (name : Word) : Moves Grows (runTest w V name) :=
  fun s => moves_block_cons (moves_note _ _)
    (moves_block_cons (moves_note _ _) moves_block_nil) s

theorem moves_cleanTest : Moves Grows (cleanTest w) := by
  apply moves_block_cons (moves_cd w _)
  apply moves_block_cons (moves_note _ _)
  apply moves_block_cons (moves_note _ _)
  exact moves_cd w _

theorem moves_buildAndRun (V : Bool) : Moves Grows (buildAndRun w V) := by
  have hrun : Moves Grows (block [cd w fun s => w.expand s.cwd s.j,
      fun s => runTest w V (firstArg w s) s]) :=
    moves_block_cons (moves_cd w _) fun s => moves_runTest w V _ s
  exact moves_block_cons (fun s => moves_buildTest w V _ s) fun s => hrun s

variable {w} {body : Command Shell} (hbody : Moves Grows body)
include hbody

theorem moves_round (j : Word) : Moves Grows (round w body j) := by
  intro s
  have hbegin : Grows s (s.beginning j) := ⟨_, rfl⟩
  rw [round_apply]
  split
  · exact trans_of Grows hbegin (hbody _)
  · exact hbegin

omit hbody

/-! ### What every round keeps -/

section Keeps

variable {P : Shell → Prop} {E : ℕ → Shell → Prop}
  (h : ∀ j, Triple P (round w body j) (fun _ => P) E)
include h

theorem triple_forTests (i : Word) : Triple P (forTests w body i) (fun _ => P) E :=
  fun s => triple_forEach_const h _ s

/-- What every round keeps, the loops keep. -/
theorem triple_forModules (Modules : List Word) :
    Triple P (forModules w Modules body) (fun _ => P) E :=
  fun s => triple_forEach_const (triple_forTests h) _ s

end Keeps

/-- Both loops: what the rounds of the rebuild loop keep is there for the other one. -/
theorem triple_runModules {P : Shell → Prop} {Q E : ℕ → Shell → Prop} {o : Options}
    (hclean : ∀ j, Triple P (round w (cleanTest w) j) (fun _ => P) E)
    (hbuild : Triple P (forModules w o.Modules (buildAndRun w o.Verbose)) Q E) :
    Triple P (runModules w o) Q E := by
  refine triple_andThen ?_ fun _ => hbuild
  by_cases hrebuild : o.Rebuild
  · rw [if_pos hrebuild]
    exact triple_forModules hclean o.Modules
  · rw [if_neg hrebuild]
    exact fun s hs => hs

/-! ### The shells of a round -/

/-- The shell after `cd` with these words. -/
def Shell.moved (w : World) (s : Shell) (ws : List Word) : Shell :=
  match w.cd s.oldpwd s.cwd ws with
  | .ok p => { s with cwd := p, oldpwd := some s.cwd }
  | .error _ => s

/-- The shell in which `make clean` is run. -/
def cleaning (w : World) (s : Shell) : Shell := s.moved w (w.expand s.cwd s.j)

/-- The shell behind `rm`. -/
def cleaned (w : World) (s : Shell) : Shell :=
  let c := (cleaning w s).note .makeClean
  c.note (.rm ((found w c.log c.cwd).flatMap (w.expand c.cwd)))

/-- The shell in which `make` is run. -/
def building (w : World) (s : Shell) : Shell :=
  (s.moved w [firstArg w s]).note (.echo ("##### Building ".toList ++ firstArg w s))

def buildStatus (w : World) (V : Bool) (s : Shell) : ℕ :=
  w.make V (building w s).log (building w s).cwd

/-- The shell behind a build that succeeded. -/
def built (w : World) (s : Shell) : Shell :=
  ((building w s).note (.make 0)).moved w ["../..".toList]

/-- The shell behind a build that failed. -/
def failed (w : World) (V : Bool) (s : Shell) : Shell :=
  ((building w s).note (.make (buildStatus w V s))).note
    (.echo ("##### Failed to build ".toList ++ firstArg w s))

/-- The subshell in which the binary is run. -/
def testing (w : World) (s : Shell) : Shell :=
  let t := s.moved w (w.expand s.cwd s.j)
  t.note (.echo ("##### Running test ".toList ++ firstArg w t))

def testCommand (w : World) (s : Shell) : List Word :=
  w.expand (testing w s).cwd (binary w.toTree (testing w s).cwd (firstArg w (testing w s)))

def testResult (w : World) (V : Bool) (s : Shell) : Result :=
  w.exec V (testing w s).log (testing w s).cwd (testCommand w s)

/-- The shell behind a test. -/
def tested (w : World) (V : Bool) (s : Shell) : Shell :=
  leave s ((testing w s).note (.run (testCommand w s) (testResult w V s)))

@[simp] theorem Shell.j_moved (s : Shell) (ws : List Word) : (s.moved w ws).j = s.j := by
  rw [Shell.moved]
  split <;> rfl

@[simp] theorem Shell.log_moved (s : Shell) (ws : List Word) : (s.moved w ws).log = s.log := by
  rw [Shell.moved]
  split <;> rfl

theorem Shell.cwd_moved {s : Shell} {ws : List Word} {p : Path}
    (h : w.cd s.oldpwd s.cwd ws = .ok p) : (s.moved w ws).cwd = p := by
  simp [Shell.moved, h]

/-- Two levels up from a directory that can be entered. -/
theorem Shell.cwd_moved_up {s : Shell} (h : w.enter s.cwd) :
    (s.moved w ["../..".toList]).cwd = s.cwd.dropLast.dropLast := by
  have hup : w.enter s.cwd.dropLast.dropLast := w.enter_dropLast (w.enter_dropLast h)
  exact Shell.cwd_moved (w.cd_path (by decide) (w.resolve_up _ h) hup)

/-! ### What a round logs -/

theorem log_cleaned (s : Shell) :
    (cleaned w s).log = ((cleaning w s).note .makeClean).log ++
      [⟨s.j, (cleaning w s).cwd, .rm ((found w ((cleaning w s).note .makeClean).log
        (cleaning w s).cwd).flatMap (w.expand (cleaning w s).cwd))⟩] := by
  simp [cleaned, cleaning]

theorem log_cleaning_note (s : Shell) : ((cleaning w s).note .makeClean).log =
    s.log ++ [⟨s.j, (cleaning w s).cwd, .makeClean⟩] := by
  simp [cleaning]

theorem log_building (s : Shell) : (building w s).log = s.log ++
    [⟨s.j, (building w s).cwd, .echo ("##### Building ".toList ++ firstArg w s)⟩] := by
  simp [building]

@[simp] theorem j_building (s : Shell) : (building w s).j = s.j := by
  simp [building]

theorem log_built (s : Shell) : (built w s).log =
    (building w s).log ++ [⟨s.j, (building w s).cwd, .make 0⟩] := by
  simp [built, building]

theorem log_failed (V : Bool) (s : Shell) : (failed w V s).log =
    ((building w s).log ++ [⟨s.j, (building w s).cwd, .make (buildStatus w V s)⟩]) ++
      [⟨s.j, (building w s).cwd,
        .echo ("##### Failed to build ".toList ++ firstArg w s)⟩] := by
  simp [failed, building]

theorem log_testing (s : Shell) : (testing w s).log = s.log ++
    [⟨s.j, (testing w s).cwd,
      .echo ("##### Running test ".toList ++ firstArg w (testing w s))⟩] := by
  simp [testing]

theorem log_tested (V : Bool) (s : Shell) : (tested w V s).log = (testing w s).log ++
    [⟨s.j, (testing w s).cwd, .run (testCommand w s) (testResult w V s)⟩] := by
  simp [tested, testing]

/-! ### Failed builds -/

def Deed.isFailedBuild : Deed → Bool
  | .make status => status ≠ 0
  | _ => false

/-- A build failed. -/
def BuildFailed (log : Log) : Prop := ∃ e ∈ log, e.deed.isFailedBuild

instance (log : Log) : Decidable (BuildFailed log) :=
  inferInstanceAs (Decidable (∃ e ∈ log, _))

@[simp] theorem not_buildFailed_nil : ¬ BuildFailed [] := by simp [BuildFailed]

@[simp] theorem buildFailed_cons {log : Log} {e : Entry} :
    BuildFailed (e :: log) ↔ e.deed.isFailedBuild ∨ BuildFailed log := by
  simp [BuildFailed]

@[simp] theorem buildFailed_append {log log' : Log} :
    BuildFailed (log ++ log') ↔ BuildFailed log ∨ BuildFailed log' := by
  simp [BuildFailed, or_and_right, exists_or]

theorem buildFailed_concat {log : Log} {e : Entry} :
    BuildFailed (log ++ [e]) ↔ BuildFailed log ∨ e.deed.isFailedBuild := by
  simp

/-- Without a failed build every `make` returned 0. -/
theorem make_eq_zero {log : Log} (h : ¬ BuildFailed log) {e : Entry} (he : e ∈ log) {status : ℕ}
    (hdeed : e.deed = .make status) : status = 0 := by
  by_contra hne
  exact h ⟨e, he, by simpa [hdeed, Deed.isFailedBuild] using hne⟩

/-- Without a call for help, a run is its loops. -/
theorem runAllTests_eq (w : World) {args : List Word} (h : isHelp (args.headD []) = false) :
    runAllTests w args = runModules w (options w args) (initial w) := by
  rw [runAllTests, h]
  rfl

/-- The usage text is only echoed. -/
theorem usage_apply (texts : List Word) (s : Shell) :
    block (texts.map echo ++ [exitWith 0]) s =
      .exit 0 { s with log := s.log ++ texts.map fun text => ⟨s.j, s.cwd, .echo text⟩ } := by
  induction texts generalizing s with
  | nil => simp
  | cons text texts ih =>
      have hblock : block ((text :: texts).map echo ++ [exitWith 0]) s =
          block (texts.map echo ++ [exitWith 0]) (s.note (.echo text)) := by
        cases texts <;> rfl
      rw [hblock, ih]
      simp [Shell.note]

/-! ### Rounds that begin at home -/

/-- From the directory of the script, the first word of `$j` and all of them lead into
`p`, and two levels up is where they came from. -/
structure Leads (t : Tree) (j : Word) (p : Path) : Prop where
  builds : t.cd none t.start [(t.expand t.start j).headD []] = .ok p
  runs : t.cd none t.start (t.expand t.start j) = .ok p
  returns : p.dropLast.dropLast = t.start

theorem leads_iff {t : Tree} {j : Word} {p : Path} : Leads t j p ↔
    t.cd none t.start [(t.expand t.start j).headD []] = .ok p ∧
      t.cd none t.start (t.expand t.start j) = .ok p ∧ p.dropLast.dropLast = t.start :=
  ⟨fun h => ⟨h.1, h.2, h.3⟩, fun h => ⟨h.1, h.2.1, h.2.2⟩⟩

instance (t : Tree) (j : Word) (p : Path) : Decidable (Leads t j p) :=
  decidable_of_iff _ leads_iff.symm

@[simp] theorem j_built (s : Shell) : (built w s).j = s.j := by
  simp [built]

namespace Leads

variable {s : Shell} {p : Path} (h : Leads w.toTree s.j p) (hs : s.cwd = w.start)
include h hs

/-- `cd $j` -/
theorem cwd_moved : (s.moved w (w.expand s.cwd s.j)).cwd = p := by
  rw [hs]
  exact Shell.cwd_moved (by rw [hs]; exact w.cd_of_none h.runs _)

theorem cwd_cleaning : (cleaning w s).cwd = p := h.cwd_moved hs

theorem cwd_cleaned_up : ((cleaned w s).moved w ["../..".toList]).cwd = w.start := by
  have hp : (cleaned w s).cwd = p := h.cwd_cleaning hs
  rw [Shell.cwd_moved_up (hp ▸ w.enter_of_cd h.runs), hp, h.returns]

theorem cwd_building : (building w s).cwd = p := by
  rw [building, firstArg, hs]
  exact Shell.cwd_moved (by rw [hs]; exact w.cd_of_none h.builds _)

/-- The shell that built is back where it was. -/
theorem cwd_built : (built w s).cwd = w.start := by
  have hp : ((building w s).note (.make 0)).cwd = p := h.cwd_building hs
  rw [built, Shell.cwd_moved_up (hp ▸ w.enter_of_cd h.runs), hp, h.returns]

theorem cwd_testing : (testing w (built w s)).cwd = p := by
  have hbuilt : Leads w.toTree (built w s).j p := by rwa [j_built]
  exact hbuilt.cwd_moved (h.cwd_built hs)

end Leads

/-! ### The rounds, computed -/

variable (w)

theorem cd_apply (words : Shell → List Word) (s : Shell) :
    ∃ n, cd w words s = .done n (s.moved w (words s)) := by
  cases h : w.cd s.oldpwd s.cwd (words s) with
  | ok p => exact ⟨0, by simp [cd, Shell.moved, h]⟩
  | error n => exact ⟨n, by simp [cd, Shell.moved, h]⟩

theorem cleanTest_apply (s : Shell) :
    ∃ n, cleanTest w s = .done n ((cleaned w s).moved w ["../..".toList]) := by
  obtain ⟨n, hcd⟩ := cd_apply w (fun s => w.expand s.cwd s.j) s
  obtain ⟨m, hup⟩ := cd_apply w (fun _ => ["../..".toList]) (cleaned w s)
  refine ⟨m, ?_⟩
  rw [cleanTest, block_cons_cons, andThen_of_done hcd]
  exact hup

/-- A call of `buildTest` up to the status of `make`. -/
theorem buildTest_apply (V : Bool) (s : Shell) :
    buildTest w V (firstArg w s) s =
      (if buildStatus w V s ≠ 0 then die ("##### Failed to build ".toList ++ firstArg w s)
        else cd w fun _ => ["../..".toList])
        ((building w s).note (.make (buildStatus w V s))) := by
  obtain ⟨n, hcd⟩ := cd_apply w (fun _ => [firstArg w s]) s
  rw [buildTest, make_eq, block_cons_cons, andThen_of_done hcd]
  rfl

/-- **A build and run round whose build fails** exits. -/
theorem buildAndRun_of_failed {s : Shell} {V : Bool} (h : buildStatus w V s ≠ 0) :
    buildAndRun w V s = .exit 1 (failed w V s) := by
  have hbuild : buildTest w V (firstArg w s) s = .exit 1 (failed w V s) := by
    rw [buildTest_apply, if_pos h]
    rfl
  exact andThen_of_exit hbuild

/-- **A build and run round whose build succeeds** ends with its test, back in the
shell that built. -/
theorem buildAndRun_of_built {s : Shell} {V : Bool} (h : buildStatus w V s = 0) :
    buildAndRun w V s =
      .done (testStatus V (testResult w V (built w s))) (tested w V (built w s)) := by
  obtain ⟨n, hup⟩ := cd_apply w (fun _ => ["../..".toList]) ((building w s).note (.make 0))
  have hbuild : buildTest w V (firstArg w s) s = .done n (built w s) := by
    rw [buildTest_apply, if_neg (by simp [h]), h]
    exact hup
  obtain ⟨m, hcd⟩ := cd_apply w (fun s => w.expand s.cwd s.j) (built w s)
  have hrun : block [cd w fun s => w.expand s.cwd s.j, fun s => runTest w V (firstArg w s) s]
      (built w s) = .done (testStatus V (testResult w V (built w s)))
        ((testing w (built w s)).note (.run (testCommand w (built w s))
          (testResult w V (built w s)))) := by
    rw [block_cons_cons, andThen_of_done hcd]
    rfl
  rw [buildAndRun, block_cons_cons, andThen_of_done (c := fun s => buildTest w V (firstArg w s) s)
    hbuild, block_singleton, subshell, hrun]
  rfl

end FrameworkTests.Runner
