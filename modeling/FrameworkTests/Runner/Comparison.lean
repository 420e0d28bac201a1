import FrameworkTests.Lib.Relational
import FrameworkTests.Runner.Selection
import FrameworkTests.Runner.Verdict

/-!
# Runs side by side

Two runs of the script are compared step by step, up to a `Tolerance`: what the log of
one has before that of the other, and how far results of tests, statuses and the loop
variable may differ.  The worlds may answer differently as long as what they answer to
builds does not look at what is tolerated.

Three things follow.  Tests decide nothing but the exit status: with other results the
script goes to the same directories and builds and runs the same there.  The flags for
verbosity, wherever they stand, change nothing that is done, as long as builds and tests
do not look where their output goes.  And a run over several modules is a run over the
first ones and, if no build failed there, another one over the rest.

## Main definitions

* `Tolerance`, `Shell.Agrees`, `World.Agrees` — equal up to what is tolerated.
* `World.ModeFree` — builds and tests do not depend on the mode.
* `alike_runModules` — the loops in worlds that agree.
* `tests_decide_nothing`, `verbosity_only_shows`, `runAllTests_append` — the results.
-/

namespace FrameworkTests.Runner

open Command

/-- How far two runs may differ. -/
structure Tolerance where
  /-- What the first log has before the second begins. -/
  before : Log
  results : Result → Result → Prop
  statuses : ℕ → ℕ → Prop
  /-- Values of `j` outside a round. -/
  vars : Word → Word → Prop
  statuses_refl : ∀ n, statuses n n
  vars_refl : ∀ j, vars j j

/-- Any two. -/
def anyTwo {α : Type} (_ _ : α) : Prop := True

namespace Tolerance

/-- Only results of tests, and what statuses they lead to. -/
def ofResults (results : Result → Result → Prop) : Tolerance where
  before := []
  results := results
  statuses := anyTwo
  vars := Eq
  statuses_refl _ := trivial
  vars_refl _ := rfl

/-- Nothing but a log of its own, and the last value of `j` there. -/
def behind (before : Log) : Tolerance where
  before := before
  results := Eq
  statuses := Eq
  vars := anyTwo
  statuses_refl _ := rfl
  vars_refl _ := trivial

/-- Within a round `j` is the same. -/
def inRound (T : Tolerance) : Tolerance := { T with vars := Eq, vars_refl := fun _ => rfl }

/-- Results that are tolerated lead to statuses that are tolerated. -/
def Modes (T : Tolerance) (V V' : Bool) : Prop :=
  ∀ r r', T.results r r' → T.statuses (testStatus V r) (testStatus V' r')

end Tolerance

variable {T : Tolerance}

/-- The same deed, with results of a test in `Q`. -/
inductive Deed.Agrees (Q : Result → Result → Prop) : Deed → Deed → Prop
  | same (d : Deed) : Agrees Q d d
  | run (command : List Word) {r r' : Result} : Q r r' →
      Agrees Q (.run command r) (.run command r')

structure Entry.Agrees (Q : Result → Result → Prop) (e e' : Entry) : Prop where
  j : e.j = e'.j
  dir : e.dir = e'.dir
  deed : e.deed.Agrees Q e'.deed

/-- Logs that are the same behind what the first has before, up to results of tests. -/
def Log.Agrees (T : Tolerance) (log log' : Log) : Prop :=
  ∃ own, log = T.before ++ own ∧ List.Forall₂ (Entry.Agrees T.results) own log'

structure Shell.Agrees (T : Tolerance) (s t : Shell) : Prop where
  cwd : s.cwd = t.cwd
  oldpwd : s.oldpwd = t.oldpwd
  vars : T.vars s.j t.j
  log : Log.Agrees T s.log t.log

/-- Worlds over one tree, one in the mode `V` and the other in `V'`: what they answer to
builds does not look at what is tolerated, and neither do their results of tests beyond
that. -/
structure World.AgreesIn (T : Tolerance) (V V' : Bool) (w w' : World) : Prop where
  toTree : w.toTree = w'.toTree
  bracket : w.bracket = w'.bracket
  make : ∀ {log log'}, Log.Agrees T log log' → w.make V log = w'.make V' log'
  executables : ∀ {log log'}, Log.Agrees T log log' → w.executables log = w'.executables log'
  exec : ∀ {log log'}, Log.Agrees T log log' →
    ∀ dir command, T.results (w.exec V log dir command) (w'.exec V' log' dir command)

/-- Worlds that agree in the same mode, whichever it is. -/
def World.Agrees (T : Tolerance) (w w' : World) : Prop := ∀ V, w.AgreesIn T V V w'

/-- Builds and tests turn out the same wherever their output goes. -/
structure World.ModeFree (w : World) : Prop where
  make : ∀ V V', w.make V = w.make V'
  exec : ∀ V V', w.exec V = w.exec V'

/-! ### Logs and shells -/

theorem Entry.Agrees.eq {e e' : Entry} (h : e.Agrees Eq e') : e = e' := by
  obtain ⟨hj, hdir, hdeed⟩ := h
  rcases e with ⟨j, dir, deed⟩
  rcases e' with ⟨j', dir', deed'⟩
  obtain rfl : j = j' := hj
  obtain rfl : dir = dir' := hdir
  cases hdeed with
  | same => rfl
  | run command hr => rw [hr]

/-- Where results must be the same, the logs are, behind what the first has before. -/
theorem Log.Agrees.eq (hT : T.results = Eq) {log log' : Log} (h : Log.Agrees T log log') :
    log = T.before ++ log' := by
  obtain ⟨own, rfl, hown⟩ := h
  rw [hT] at hown
  have hsame : own = log' := by
    induction hown with
    | nil => rfl
    | cons he _ ih => rw [he.eq, ih]
  rw [hsame]

theorem Shell.Agrees.eq {s t : Shell} (h : s.Agrees (.ofResults Eq) t) : s = t := by
  rcases s with ⟨cwd, oldpwd, j, log⟩
  rcases t with ⟨cwd', oldpwd', j', log'⟩
  obtain ⟨rfl, rfl, hvars, hlog⟩ := h
  obtain rfl : j = j' := hvars
  obtain rfl : log = log' := Log.Agrees.eq rfl hlog
  rfl

/-- A world agrees with itself in another mode, if that does not count. -/
theorem World.ModeFree.agreesIn {w : World} (h : w.ModeFree) (V V' : Bool) :
    w.AgreesIn (.ofResults Eq) V V' w where
  toTree := rfl
  bracket := rfl
  make hlog := by rw [h.make V V', hlog.eq rfl]; rfl
  executables hlog := by rw [hlog.eq rfl]; rfl
  exec hlog := by
    rw [h.exec V V', hlog.eq rfl]
    exact fun _ _ => rfl

namespace Shell.Agrees

variable {s t : Shell}

theorem j (h : s.Agrees T.inRound t) : s.j = t.j := h.vars

theorem of_inRound (h : s.Agrees T.inRound t) : s.Agrees T t where
  cwd := h.cwd
  oldpwd := h.oldpwd
  vars := by
    rw [h.j]
    exact T.vars_refl _
  log := h.log

theorem note (h : s.Agrees T.inRound t) {d d' : Deed} (hd : d.Agrees T.results d') :
    (s.note d).Agrees T.inRound (t.note d') where
  cwd := h.cwd
  oldpwd := h.oldpwd
  vars := h.vars
  log := by
    obtain ⟨own, hlog, hown⟩ := h.log
    refine ⟨own ++ [⟨s.j, s.cwd, d⟩], ?_, ?_⟩
    · rw [Shell.log_note, hlog, List.append_assoc]
    · exact List.rel_append hown (.cons ⟨h.j, h.cwd, hd⟩ .nil)

theorem note_same (h : s.Agrees T.inRound t) (d : Deed) :
    (s.note d).Agrees T.inRound (t.note d) :=
  h.note (.same d)

/-- A round gives `j` its value. -/
theorem at_beginning (h : s.Agrees T t) (j : Word) :
    (s.beginning j).Agrees T.inRound (t.beginning j) := by
  have hj : ({ s with j := j } : Shell).Agrees T.inRound { t with j := j } :=
    ⟨h.cwd, h.oldpwd, rfl, h.log⟩
  exact hj.note_same .round

end Shell.Agrees

/-! ### The commands -/

section Commands

variable {w w' : World} {V V' : Bool} (hw : w.AgreesIn T V V' w')
include hw

theorem firstArg_agrees {s t : Shell} (h : s.Agrees T.inRound t) :
    firstArg w s = firstArg w' t := by
  rw [firstArg, firstArg, hw.toTree, h.cwd, h.j]

theorem alike_cd {words words' : Shell → List Word}
    (hwords : ∀ s t, s.Agrees T.inRound t → words s = words' t) :
    Alike T.statuses (Shell.Agrees T.inRound) (cd w words) (cd w' words') := by
  intro s t h
  simp only [cd, act_apply, hwords s t h, hw.toTree, h.cwd, h.oldpwd]
  split
  · exact .done (T.statuses_refl _) ⟨rfl, rfl, h.vars, h.log⟩
  · exact .done (T.statuses_refl _) h

theorem alike_cd_const (words : List Word) :
    Alike T.statuses (Shell.Agrees T.inRound) (cd w fun _ => words) (cd w' fun _ => words) :=
  alike_cd hw fun _ _ _ => rfl

/-- `cd $j` -/
theorem alike_cd_j : Alike T.statuses (Shell.Agrees T.inRound) (cd w fun s => w.expand s.cwd s.j)
    (cd w' fun s => w'.expand s.cwd s.j) := by
  apply alike_cd hw
  intro s t h
  rw [hw.toTree, h.cwd, h.j]

omit hw in
theorem alike_note (d : Deed) : Alike T.statuses (Shell.Agrees T.inRound)
    (act fun s => (0, s.note d)) (act fun s => (0, s.note d)) :=
  alike_act fun _ _ h => ⟨T.statuses_refl 0, h.note_same d⟩

/-- The status of `make` decides how a run goes on, so it must be the same. -/
theorem alike_make : Alike Eq (Shell.Agrees T.inRound) (make w V) (make w' V') := by
  apply alike_act
  intro s t h
  simp only [hw.make h.log, h.cwd]
  exact ⟨trivial, h.note_same _⟩

theorem alike_rmFound : Alike T.statuses (Shell.Agrees T.inRound) (rmFound w) (rmFound w') := by
  apply alike_act
  intro s t h
  have hfound : found w s.log s.cwd = found w' t.log t.cwd := by
    rw [found, found, hw.executables h.log, h.cwd]
  rw [hfound, hw.toTree, h.cwd]
  exact ⟨T.statuses_refl 0, h.note_same _⟩

theorem alike_buildTest (Path : Word) :
    Alike T.statuses (Shell.Agrees T.inRound) (buildTest w V Path) (buildTest w' V' Path) := by
  rw [buildTest, buildTest, make_eq, make_eq]
  apply alike_block_cons (alike_cd_const hw _)
  apply alike_block_cons (alike_note _)
  apply alike_andThen (alike_make hw)
  rintro status _ rfl
  split
  · exact alike_block_cons (alike_note _) (alike_exitWith 1)
  · exact alike_cd_const hw _

theorem alike_cleanTest :
    Alike T.statuses (Shell.Agrees T.inRound) (cleanTest w) (cleanTest w') := by
  apply alike_block_cons (alike_cd_j hw)
  apply alike_block_cons (alike_note _)
  apply alike_block_cons (alike_rmFound hw)
  exact alike_cd_const hw _

section Modes

variable (hV : T.Modes V V')
include hV

theorem alike_runBinary (Binary : Word) :
    Alike T.statuses (Shell.Agrees T.inRound) (runBinary w V Binary) (runBinary w' V' Binary) := by
  apply alike_act
  intro s t h
  have hresult := hw.exec h.log t.cwd (w'.expand t.cwd Binary)
  rw [hw.toTree, h.cwd]
  exact ⟨hV _ _ hresult, h.note (.run _ hresult)⟩

theorem alike_runTest (Name : Word) :
    Alike T.statuses (Shell.Agrees T.inRound) (runTest w V Name) (runTest w' V' Name) := by
  intro s t h
  have hbinary : binary w.toTree s.cwd Name = binary w'.toTree t.cwd Name := by
    rw [hw.toTree, h.cwd]
  simp only [runTest, hbinary]
  exact alike_block_cons (alike_note _) (alike_runBinary hw hV _) s t h

theorem alike_buildAndRun :
    Alike T.statuses (Shell.Agrees T.inRound) (buildAndRun w V) (buildAndRun w' V') := by
  have hbuild : Alike T.statuses (Shell.Agrees T.inRound) (fun s => buildTest w V (firstArg w s) s)
      fun s => buildTest w' V' (firstArg w' s) s := by
    intro s t h
    simp only [firstArg_agrees hw h]
    exact alike_buildTest hw _ s t h
  have hrun : Alike T.statuses (Shell.Agrees T.inRound) (fun s => runTest w V (firstArg w s) s)
      fun s => runTest w' V' (firstArg w' s) s := by
    intro s t h
    simp only [firstArg_agrees hw h]
    exact alike_runTest hw hV _ s t h
  apply alike_block_cons hbuild
  apply alike_subshell T.statuses_refl
  · intro s t s' t' h h'
    exact ⟨h.cwd, h.oldpwd, h.vars, h'.log⟩
  · exact alike_block_cons (alike_cd_j hw) hrun

end Modes

/-! ### The loops -/

section Loops

variable {c c' : Command Shell} (hc : Alike T.statuses (Shell.Agrees T.inRound) c c')
include hc

theorem alike_round (j : Word) :
    Alike T.statuses (Shell.Agrees T) (round w c j) (round w' c' j) := by
  intro s t h
  have hbegin := h.at_beginning j
  rw [round_apply, round_apply, hw.toTree, h.cwd]
  split
  · exact (hc _ _ hbegin).imp (fun _ _ h => h) fun _ _ h => h.of_inRound
  · exact .done (T.statuses_refl 0) hbegin.of_inRound

theorem alike_forTests (i : Word) :
    Alike T.statuses (Shell.Agrees T) (forTests w c i) (forTests w' c' i) := by
  intro s t h
  simp only [forTests, hw.toTree, h.cwd]
  exact alike_forEach (T.statuses_refl 0) (alike_round hw hc) _ s t h

theorem alike_forModules (Modules : List Word) :
    Alike T.statuses (Shell.Agrees T) (forModules w Modules c) (forModules w' Modules c') := by
  intro s t h
  simp only [forModules, hw.toTree, h.cwd]
  exact alike_forEach (T.statuses_refl 0) (alike_forTests hw hc) _ s t h

end Loops

omit hw in
/-- **The loops in two worlds that agree.** -/
theorem alike_runModules {o o' : Options} (hw : w.AgreesIn T o.Verbose o'.Verbose w')
    (hrebuild : o.Rebuild = o'.Rebuild) (hmodules : o.Modules = o'.Modules)
    (hV : T.Modes o.Verbose o'.Verbose) :
    Alike T.statuses (Shell.Agrees T) (runModules w o) (runModules w' o') := by
  have hclean : Alike T.statuses (Shell.Agrees T)
      (if o'.Rebuild then forModules w o'.Modules (cleanTest w) else block [])
      (if o'.Rebuild then forModules w' o'.Modules (cleanTest w') else block []) := by
    split
    · exact alike_forModules hw (alike_cleanTest hw) _
    · exact alike_block_nil (T.statuses_refl 0)
  rw [runModules, runModules, hrebuild, hmodules]
  exact alike_block_cons hclean (alike_forModules hw (alike_buildAndRun hw hV) _)

omit hw in
theorem alike_usage (texts : List Word) :
    Alike T.statuses (Shell.Agrees T.inRound) (block (texts.map echo ++ [exitWith 0]))
      (block (texts.map echo ++ [exitWith 0])) := by
  induction texts with
  | nil => exact alike_exitWith 0
  | cons text texts ih =>
      cases texts with
      | nil => exact alike_block_cons (alike_note _) ih
      | cons text' texts => exact alike_block_cons (alike_note _) ih

theorem equals_agrees : w.equals = w'.equals := by
  ext arg word
  rw [World.equals, World.equals, hw.toTree, hw.bracket]

theorem parse_agrees (o : Options) (args : List Word) : parse w o args = parse w' o args := by
  induction args generalizing o with
  | nil => rfl
  | cons arg args ih => rw [parse, parse, equals_agrees hw, ih, ih, ih]

theorem options_agrees (args : List Word) : options w args = options w' args := by
  rw [options, options, parse_agrees hw]

end Commands

/-! ### Two runs from the start -/

theorem initial_agrees {Q : Result → Result → Prop} {w w' : World} {V V' : Bool}
    (hw : w.AgreesIn (.ofResults Q) V V' w') (hold : w.oldpwd = w'.oldpwd) :
    (initial w).Agrees (.ofResults Q) (initial w') where
  cwd := congrArg Tree.start hw.toTree
  oldpwd := hold
  vars := rfl
  log := ⟨[], rfl, .nil⟩

/-- The script in two worlds that agree, with arguments that select the same. -/
theorem both_runAllTests {Q : Result → Result → Prop} {w w' : World} {args args' : List Word}
    (hw : w.AgreesIn (.ofResults Q) (options w args).Verbose (options w' args').Verbose w')
    (hold : w.oldpwd = w'.oldpwd)
    (hhelp : isHelp (args.headD []) = isHelp (args'.headD []))
    (hrebuild : (options w args).Rebuild = (options w' args').Rebuild)
    (hmodules : (options w args).Modules = (options w' args').Modules) :
    (runAllTests w args).Both anyTwo (Shell.Agrees (.ofResults Q)) (runAllTests w' args') := by
  have hstart := initial_agrees hw hold
  rw [runAllTests, runAllTests, hhelp]
  split
  · exact alike_usage (T := .ofResults Q) _ _ _ hstart
  · exact alike_runModules hw hrebuild hmodules (fun _ _ _ => trivial) _ _ hstart

/-! ### Verbosity -/

/-- The argument turns on verbosity. -/
def World.verbosity (w : World) (arg : Word) : Bool :=
  w.equals arg "-v".toList || w.equals arg "--verbose".toList

/-- The other options only depend on the other arguments. -/
theorem parse_filter_verbosity (w : World) {o o' : Options} (hrebuild : o.Rebuild = o'.Rebuild)
    (hmodules : o.Modules = o'.Modules) (args : List Word) :
    (parse w o args).Rebuild = (parse w o' (args.filter fun arg => !w.verbosity arg)).Rebuild ∧
      (parse w o args).Modules =
        (parse w o' (args.filter fun arg => !w.verbosity arg)).Modules := by
  induction args generalizing o o' with
  | nil => exact ⟨hrebuild, hmodules⟩
  | cons arg args ih =>
      by_cases hv : w.verbosity arg
      · rw [List.filter_cons_of_neg (by simp [hv]), parse, ← World.verbosity, if_pos hv]
        exact ih hrebuild hmodules
      · rw [List.filter_cons_of_pos (by simp [hv]), parse, parse, ← World.verbosity, if_neg hv,
          if_neg hv]
        split
        · exact ih rfl hmodules
        · exact ih hrebuild (by rw [hmodules])

theorem options_of_filter_verbosity (w : World) {args args' : List Word}
    (h : (args.filter fun arg => !w.verbosity arg) = args'.filter fun arg => !w.verbosity arg) :
    (options w args).Rebuild = (options w args').Rebuild ∧
      (options w args).Modules = (options w args').Modules := by
  obtain ⟨hrebuild, hmodules⟩ := parse_filter_verbosity w (o := ⟨false, false, []⟩) rfl rfl args
  obtain ⟨hrebuild', hmodules'⟩ := parse_filter_verbosity w (o := ⟨false, false, []⟩) rfl rfl args'
  rw [← h] at hrebuild' hmodules'
  rw [options, options, hmodules.trans hmodules'.symm]
  split
  · exact ⟨hrebuild.trans hrebuild'.symm, rfl⟩
  · exact ⟨hrebuild.trans hrebuild'.symm, hmodules.trans hmodules'.symm⟩

/-! ### The results -/

/-- **Tests decide nothing**: in a world with other results of tests, the script does the
same in the same places, and ends in the same way. -/
theorem tests_decide_nothing {w w' : World} (h : w.Agrees (.ofResults anyTwo) w')
    (hold : w.oldpwd = w'.oldpwd) (args : List Word) :
    (runAllTests w args).Both anyTwo (Shell.Agrees (.ofResults anyTwo)) (runAllTests w' args) := by
  have hoptions : options w args = options w' args := options_agrees (h true) args
  refine both_runAllTests ?_ hold rfl (by rw [hoptions]) (by rw [hoptions])
  rw [hoptions]
  exact h _

/-- The tests that fail in one world and pass in the other. -/
theorem tests_decide_nothing_failing :
    (checkout.Agrees (.ofResults anyTwo) failing ∧ checkout.oldpwd = failing.oldpwd) ∧
      (runAllTests checkout ["Network".toList]).Both anyTwo (Shell.Agrees (.ofResults anyTwo))
        (runAllTests failing ["Network".toList]) := by
  have hagrees : checkout.Agrees (.ofResults anyTwo) failing :=
    fun _ => ⟨rfl, rfl, fun _ => rfl, fun _ => rfl, fun _ _ _ => trivial⟩
  exact ⟨⟨hagrees, rfl⟩, tests_decide_nothing hagrees rfl _⟩

/-- **Flags for verbosity change nothing that is done**, wherever they stand, as long as
they do not hide a call for help and builds and tests do not look at them: the final
states are the same, and so is the status when a build fails. -/
theorem verbosity_only_shows {w : World} (hw : w.ModeFree) {args args' : List Word}
    (hargs : (args.filter fun arg => !w.verbosity arg) = args'.filter fun arg => !w.verbosity arg)
    (hhelp : isHelp (args.headD []) = isHelp (args'.headD [])) :
    (runAllTests w args).Both anyTwo Eq (runAllTests w args') := by
  obtain ⟨hrebuild, hmodules⟩ := options_of_filter_verbosity w hargs
  have hboth := both_runAllTests (hw.agreesIn _ _) rfl hhelp hrebuild hmodules
  exact hboth.imp (fun _ _ h => h) fun _ _ h => h.eq

theorem verbosity_only_shows_checkout :
    (checkout.ModeFree ∧
      (["-v".toList, "Network".toList].filter fun arg => !checkout.verbosity arg) =
        (["Network".toList, "--verbose".toList].filter fun arg => !checkout.verbosity arg) ∧
      isHelp (["-v".toList, "Network".toList].headD []) =
        isHelp (["Network".toList, "--verbose".toList].headD [])) ∧
      (runAllTests checkout ["-v".toList, "Network".toList]).Both anyTwo Eq
        (runAllTests checkout ["Network".toList, "--verbose".toList]) := by
  have hargs : (["-v".toList, "Network".toList].filter fun arg => !checkout.verbosity arg) =
      ["Network".toList, "--verbose".toList].filter fun arg => !checkout.verbosity arg := by
    decide +kernel
  have hmode : checkout.ModeFree := ⟨fun _ _ => rfl, fun _ _ => rfl⟩
  exact ⟨⟨hmode, hargs, by decide⟩, verbosity_only_shows hmode hargs (by decide)⟩

/-! ### One module after another -/

/-- The world as it is behind a run: it remembers the log. -/
def World.behind (w : World) (s : Shell) : World :=
  { w with
    oldpwd := s.oldpwd
    make := fun V log => w.make V (s.log ++ log)
    exec := fun V log => w.exec V (s.log ++ log)
    executables := fun log => w.executables (s.log ++ log) }

theorem World.agrees_behind (w : World) (s : Shell) : w.Agrees (.behind s.log) (w.behind s) := by
  intro V
  refine ⟨rfl, rfl, ?_, ?_, ?_⟩
  · intro log log' h
    rw [h.eq rfl]
    rfl
  · intro log log' h
    rw [h.eq rfl]
    rfl
  · intro log log' h
    rw [h.eq rfl]
    exact fun _ _ => rfl

/-- Arguments without a rebuild that name modules, in words that stay as they are. -/
structure Selects (args : List Word) : Prop where
  plain : ∀ arg ∈ args, Plain arg
  noRebuild : args.any isRebuild = false
  names : named args ≠ []
  noHelp : isHelp (args.headD []) = false

theorem flatMap_expand_plain (t : Tree) (c : Path) {ms : List Word} (h : ∀ m ∈ ms, Plain m) :
    ms.flatMap (t.expand c) = ms := by
  induction ms with
  | nil => rfl
  | cons m ms ih =>
      rw [List.forall_mem_cons] at h
      rw [List.flatMap_cons, t.expand_plain h.1, ih h.2]
      rfl

namespace Selects

variable {args args' : List Word} (h : Selects args)
include h

theorem plain_named : ∀ m ∈ named args, Plain m :=
  fun m hm => h.plain m (List.mem_of_mem_filter hm)

/-- A run is a loop over the modules. -/
theorem run_eq (w : World) : runAllTests w args =
    forEach (forTests w (buildAndRun w (args.any isVerbose))) (named args) (initial w) := by
  rw [runAllTests_eq w h.noHelp, options_of_plain w h.plain, h.noRebuild, if_neg h.names]
  change forModules w (named args) (buildAndRun w (args.any isVerbose)) (initial w) = _
  rw [forModules, flatMap_expand_plain _ _ h.plain_named]

theorem append (h' : Selects args') : Selects (args ++ args') where
  plain := by
    rw [List.forall_mem_append]
    exact ⟨h.plain, h'.plain⟩
  noRebuild := by rw [List.any_append, h.noRebuild, h'.noRebuild]; rfl
  names := by
    rw [named, List.filter_append]
    exact List.append_ne_nil_of_left_ne_nil h.names _
  noHelp := by
    have hne : args ≠ [] := by
      rintro rfl
      exact h.names rfl
    obtain ⟨arg, rest, rfl⟩ := List.exists_cons_of_ne_nil hne
    exact h.noHelp

end Selects

/-- **One module after another.**  A run over two selections is the run over the first
one; if that stops at a build it is all, and if it ends where it began, the run over the
second one follows, in the world as it is behind the first. -/
theorem runAllTests_append {w : World} {args args' : List Word} (h : Selects args)
    (h' : Selects args') (hverbose : args.any isVerbose = args'.any isVerbose) :
    (∀ n s, runAllTests w args = .exit n s → runAllTests w (args ++ args') = .exit n s) ∧
      ∀ n s, runAllTests w args = .done n s → s.cwd = w.start →
        (runAllTests w (args ++ args')).Both Eq (Shell.Agrees (.behind s.log))
          (runAllTests (w.behind s) args') := by
  have hnamed : named (args ++ args') = named args ++ named args' := List.filter_append ..
  have hrun := h.run_eq w
  have happend := (h.append h').run_eq w
  rw [List.any_append, ← hverbose, Bool.or_self, hnamed, forEach_append _ _ h'.names] at happend
  constructor
  · intro n s hexit
    rw [happend]
    exact andThen_of_exit (hrun ▸ hexit)
  · intro n s hdone hhome
    have hstart : s.Agrees (.behind s.log) (initial (w.behind s)) :=
      ⟨hhome, rfl, trivial, [], (List.append_nil _).symm, .nil⟩
    have hmodes : (Tolerance.behind s.log).Modes (args.any isVerbose) (args.any isVerbose) := by
      intro r r' hr
      cases hr
      rfl
    have hagrees := w.agrees_behind s (args.any isVerbose)
    have hloop := alike_forEach ((Tolerance.behind s.log).statuses_refl 0)
      (alike_forTests hagrees (alike_buildAndRun hagrees hmodes)) (named args') s _ hstart
    rw [happend, andThen_of_done (hrun ▸ hdone), h'.run_eq (w.behind s), ← hverbose]
    exact hloop

/-- A run without a failed build returns. -/
theorem exists_done {w : World} {args : List Word} (hhelp : isHelp (args.headD []) = false)
    (hok : ¬ BuildFailed (runAllTests w args).state.log) :
    ∃ n s, runAllTests w args = .done n s := by
  have hrun := returns_runModules w (options w args)
  rw [← runAllTests_eq w hhelp] at hrun
  cases hout : runAllTests w args with
  | done n s => exact ⟨n, s, rfl⟩
  | exit n s =>
      rw [hout] at hrun hok
      exact absurd hrun.2 hok

theorem selects_core : Selects ["Core".toList] := ⟨by decide, by decide, by decide, by decide⟩

theorem selects_network : Selects ["Network".toList] := ⟨by decide, by decide, by decide, by decide⟩

/-- `Core`, which ends where it began, and then `Network`. -/
theorem runAllTests_append_checkout :
    (Selects ["Core".toList] ∧ Selects ["Network".toList] ∧
      ["Core".toList].any isVerbose = ["Network".toList].any isVerbose) ∧
      ∃ n s, runAllTests checkout ["Core".toList] = .done n s ∧ s.cwd = checkout.start ∧
        (runAllTests checkout (["Core".toList] ++ ["Network".toList])).Both Eq
          (Shell.Agrees (.behind s.log)) (runAllTests (checkout.behind s) ["Network".toList]) := by
  refine ⟨⟨selects_core, selects_network, by decide⟩, ?_⟩
  obtain ⟨n, s, hdone⟩ := exists_done (w := checkout) selects_core.noHelp
    (not_buildFailed_run (fun _ _ _ => rfl) _)
  have hhome : (runAllTests checkout ["Core".toList]).state.cwd = checkout.start := by
    decide +kernel
  rw [hdone] at hhome
  have happend := runAllTests_append (w := checkout) selects_core selects_network (by decide)
  exact ⟨n, s, hdone, hhome, happend.2 n s hdone hhome⟩

end FrameworkTests.Runner
