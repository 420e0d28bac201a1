import FrameworkTests.Runner.Rounds

/-!
# The plan of a run, and the answers to it

Where the script goes depends on the tree and on its arguments, not on how builds and
tests turn out: they only decide how far it gets.  The plan lists what the script
would do if every build succeeded.  It is a function on shells that asks no command
for an answer.  A run asks the builds and tests of the plan one by one, and goes no
further than the first build that fails: `log_runAllTests` is this refinement.

## Main definitions

* `plan w args` — the entries of a run in which every build succeeds.
* `ask w V log es` — the answers of `w` to the entries `es` behind `log`.
* `answered w args` — the plan with the answers of the world.
* `Stops log log'` — behind a build that failed there is only the message about it.
-/

namespace FrameworkTests.Runner

open Command Run

/-! ### The plan -/

/-- Two levels up again behind a round of the rebuild loop. -/
def planClean (w : World) (s : Shell) : Shell := (cleaned w s).moved w ["../..".toList]

/-- A build that succeeds, and its test without an answer. -/
def planTest (w : World) (s : Shell) : Shell :=
  let s := built w s
  leave s ((testing w s).note (.run (testCommand w s) none))

/-- A round over `j`, whose body `f` counts only for a directory. -/
def planRound (w : World) (f : Shell → Shell) (s : Shell) (j : Word) : Shell :=
  if w.isDirectory s.cwd j then f (s.beginning j) else s.beginning j

/-- The rounds over the entries of a module. -/
def planTests (w : World) (f : Shell → Shell) (s : Shell) (i : Word) : Shell :=
  (w.expand s.cwd (i ++ "/*".toList)).foldl (planRound w f) s

/-- The rounds over all modules. -/
def planModules (w : World) (Modules : List Word) (f : Shell → Shell) (s : Shell) : Shell :=
  (Modules.flatMap (w.expand s.cwd)).foldl (planTests w f) s

/-- The two loops. -/
def planLoops (w : World) (o : Options) (s : Shell) : Shell :=
  planModules w o.Modules (planTest w)
    (if o.Rebuild then planModules w o.Modules (planClean w) s else s)

/-- What the script does when no build fails. -/
def plan (w : World) (args : List Word) : Log :=
  if isHelp (args.headD []) then usage.map fun text => ⟨[], w.start, .echo text⟩
  else (planLoops w (options w args) (initial w)).log

/-- The entries again, with the answers of the world to builds and tests, up to the
first build that fails. -/
def ask (w : World) (V : Bool) : Log → List Entry → Log
  | log, [] => log
  | log, e :: es =>
      match e.deed with
      | .make _ =>
          if w.make V log e.dir = 0 then ask w V (log ++ [⟨e.j, e.dir, .make 0⟩]) es
          else log ++ [⟨e.j, e.dir, .make (w.make V log e.dir)⟩]
      | .run command _ =>
          ask w V (log ++ [⟨e.j, e.dir, .run command (w.exec V log e.dir command)⟩]) es
      | _ => ask w V (log ++ [e]) es

/-- The plan with the answers of the world. -/
def answered (w : World) (args : List Word) : Log :=
  ask w (options w args).Verbose [] (plan w args)

/-- The log stops at a build that failed, and goes on with the message about it. -/
def Stops (log log' : Log) : Prop :=
  ∃ pre j dir name status, status ≠ 0 ∧
    log = pre ++ [⟨j, dir, .echo ("##### Building ".toList ++ name)⟩, ⟨j, dir, .make status⟩] ∧
    log' = log ++ [⟨j, dir, .echo ("##### Failed to build ".toList ++ name)⟩]

variable {w : World} {V : Bool}

theorem Stops.buildFailed {log log' : Log} (h : Stops log log') : BuildFailed log := by
  obtain ⟨pre, j, dir, name, status, hstatus, rfl, -⟩ := h
  simp [Deed.isFailedBuild, hstatus]

/-! ### Asking -/

/-- The entry with what the world answers behind `log`. -/
def Entry.answer (e : Entry) (w : World) (V : Bool) (log : Log) : Entry :=
  match e.deed with
  | .make _ => ⟨e.j, e.dir, .make (w.make V log e.dir)⟩
  | .run command _ => ⟨e.j, e.dir, .run command (w.exec V log e.dir command)⟩
  | _ => e

@[simp] theorem answer_answer (e : Entry) (log : Log) :
    (e.answer w V log).answer w V log = e.answer w V log := by
  rcases e with ⟨j, dir, deed⟩
  cases deed <;> rfl

/-- **One step of asking**: the answer is logged, and what follows is asked unless a build
failed. -/
theorem ask_cons (log : Log) (e : Entry) (es : List Entry) :
    ask w V log (e :: es) =
      if (e.answer w V log).deed.isFailedBuild then log ++ [e.answer w V log]
      else ask w V (log ++ [e.answer w V log]) es := by
  rcases e with ⟨j, dir, deed⟩
  cases deed with
  | make status => by_cases hs : w.make V log dir = 0 <;>
      simp [ask, Entry.answer, Deed.isFailedBuild, hs]
  | _ => rfl

/-- Asking stops at the first failed build, and goes on otherwise. -/
theorem ask_append {log : Log} (h : ¬ BuildFailed log) (es fs : List Entry) :
    ask w V log (es ++ fs) =
      if BuildFailed (ask w V log es) then ask w V log es else ask w V (ask w V log es) fs := by
  induction es generalizing log with
  | nil => simp [ask, h]
  | cons e es ih =>
      rw [List.cons_append, ask_cons, ask_cons]
      by_cases hf : (e.answer w V log).deed.isFailedBuild
      · simp [hf]
      · rw [if_neg hf, if_neg hf]
        exact ih (by simp [h, hf])

/-- What the world answers to one entry behind a log without a failed build. -/
theorem ask_concat {es : List Entry} (h : ¬ BuildFailed (ask w V [] es)) (e : Entry) :
    ask w V [] (es ++ [e]) = ask w V (ask w V [] es) [e] := by
  rw [ask_append not_buildFailed_nil, if_neg h]

/-- A test is always asked for. -/
theorem ask_run (log : Log) (j : Word) (dir : Path) (command : List Word) (result : Result) :
    ask w V log [⟨j, dir, .run command result⟩] =
      log ++ [⟨j, dir, .run command (w.exec V log dir command)⟩] := rfl

/-! ### The plan grows -/

theorem grows_planTest (s : Shell) : Grows ((building w s).note (.make 0)) (planTest w s) := by
  simp [Grows, planTest, testing, built]

theorem grows_planRound (s : Shell) (j : Word) : Grows s (planRound w (planTest w) s j) := by
  have hbegin : Grows s (s.beginning j) := ⟨_, rfl⟩
  have hbuild : Grows (s.beginning j) ((building w (s.beginning j)).note (.make 0)) := by
    simp [Grows, building]
  rw [planRound]
  split
  · exact trans_of Grows hbegin (trans_of Grows hbuild (grows_planTest _))
  · exact hbegin

/-- What the rounds of both loops keep, the plan keeps. -/
theorem planLoops_induction {P : Shell → Prop}
    (hclean : ∀ s j, P s → P (planRound w (planClean w) s j))
    (htest : ∀ s j, P s → P (planRound w (planTest w) s j)) (o : Options) {s : Shell} (hs : P s) :
    P (planLoops w o s) := by
  have hmodules : ∀ f, (∀ s j, P s → P (planRound w f s j)) → ∀ s, P s →
      P (planModules w o.Modules f s) := by
    intro f hf s hs
    exact List.foldlRecOn _ _ hs fun s hs i _ => List.foldlRecOn _ _ hs fun s hs j _ => hf s j hs
  refine hmodules _ htest _ ?_
  split
  · exact hmodules _ hclean _ hs
  · exact hs

/-! ### The relation between a run and the plan -/

/-- The shell of a run whose log answers that of the plan. -/
def Answers (w : World) (V : Bool) (s t : Shell) : Prop :=
  s = { t with log := ask w V [] t.log } ∧ ¬ BuildFailed s.log

/-- The run has ended with a build that failed, somewhere on the plan. -/
def Stopped (w : World) (V : Bool) (s t : Shell) : Prop := Stops (ask w V [] t.log) s.log

theorem stopped_of_grows {s t t' : Shell} (h : Stopped w V s t) (hG : Grows t t') :
    Stopped w V s t' := by
  obtain ⟨es, hes⟩ := hG
  have hsame : ask w V [] t'.log = ask w V [] t.log := by
    rw [← hes, ask_append not_buildFailed_nil, if_pos h.buildFailed]
  rw [Stopped, hsame]
  exact h

namespace Answers

variable {s t : Shell} (h : Answers w V s t)
include h

theorem cwd_eq : s.cwd = t.cwd := by rw [h.1]
theorem j_eq : s.j = t.j := by rw [h.1]
theorem log_eq : s.log = ask w V [] t.log := by rw [h.1]

theorem firstArg_eq : firstArg w s = firstArg w t := by
  rw [firstArg, firstArg, h.cwd_eq, h.j_eq]

theorem moved (ws : List Word) : Answers w V (s.moved w ws) (t.moved w ws) := by
  refine ⟨?_, by simpa using h.2⟩
  rw [Shell.log_moved, h.1]
  cases hcd : w.cd t.oldpwd t.cwd ws <;> simp [Shell.moved, hcd]

/-- An entry that has an answer. -/
theorem note_of_ask {d d' : Deed} (hd : d'.isFailedBuild = false)
    (hask : ask w V s.log [⟨s.j, s.cwd, d⟩] = s.log ++ [⟨s.j, s.cwd, d'⟩]) :
    Answers w V (s.note d') (t.note d) := by
  have hlog : ask w V [] (t.log ++ [⟨t.j, t.cwd, d⟩]) = s.log ++ [⟨s.j, s.cwd, d'⟩] := by
    rw [ask_concat (h.log_eq ▸ h.2), ← h.log_eq, ← h.j_eq, ← h.cwd_eq, hask]
  refine ⟨?_, ?_⟩
  · rw [Shell.log_note, hlog]
    simp only [Shell.note, h.j_eq, h.cwd_eq]
    rw [h.1]
  · rw [Shell.log_note, buildFailed_concat, hd]
    simpa using h.2

theorem at_beginning (j : Word) : Answers w V (s.beginning j) (t.beginning j) := by
  have hj : Answers w V ({ s with j := j } : Shell) { t with j := j } := ⟨by rw [h.1], h.2⟩
  exact hj.note_of_ask rfl rfl

theorem echo (text : Word) : Answers w V (s.note (.echo text)) (t.note (.echo text)) :=
  h.note_of_ask rfl rfl

theorem at_building : Answers w V (building w s) (building w t) := by
  rw [building, building, h.firstArg_eq]
  exact (h.moved _).echo _

theorem at_built (hs : buildStatus w V s = 0) : Answers w V (built w s) (built w t) := by
  refine Answers.moved (h.at_building.note_of_ask rfl ?_) _
  rw [buildStatus] at hs
  simp only [ask, hs, if_true]

theorem at_testing : Answers w V (testing w s) (testing w t) := by
  have hmoved : Answers w V (s.moved w (w.expand s.cwd s.j)) (t.moved w (w.expand t.cwd t.j)) := by
    rw [h.cwd_eq, h.j_eq]
    exact h.moved _
  simp only [testing, hmoved.firstArg_eq]
  exact hmoved.echo _

theorem testCommand_eq : testCommand w s = testCommand w t := by
  have htesting := h.at_testing
  rw [testCommand, testCommand, htesting.firstArg_eq, htesting.cwd_eq]

/-- A test behind a build that succeeded. -/
theorem at_tested (hs : buildStatus w V s = 0) :
    Answers w V (tested w V (built w s)) (planTest w t) := by
  have hbuilt := h.at_built hs
  have hrun : Answers w V
      ((testing w (built w s)).note (.run (testCommand w (built w s)) (testResult w V (built w s))))
      ((testing w (built w t)).note (.run (testCommand w (built w s)) none)) :=
    hbuilt.at_testing.note_of_ask rfl rfl
  refine ⟨?_, hrun.2⟩
  rw [tested, planTest, leave, leave, hrun.log_eq, ← hbuilt.testCommand_eq]
  rw [hbuilt.1]

/-- A build that fails ends the run on the plan. -/
theorem at_failed (hs : buildStatus w V s ≠ 0) : Stopped w V (failed w V s) (planTest w t) := by
  have hbuilding := h.at_building
  have hmake : ask w V [] ((building w t).note (.make 0)).log =
      (building w s).log ++ [⟨s.j, (building w s).cwd, .make (buildStatus w V s)⟩] := by
    rw [Shell.log_note, ask_concat (hbuilding.log_eq ▸ hbuilding.2), ← hbuilding.log_eq,
      ← hbuilding.cwd_eq]
    rw [buildStatus] at hs ⊢
    simp only [ask, if_neg hs, j_building, h.j_eq]
  have hstopped : Stopped w V (failed w V s) ((building w t).note (.make 0)) := by
    rw [Stopped, hmake, log_failed]
    refine ⟨s.log, s.j, (building w s).cwd, firstArg w s, buildStatus w V s, hs, ?_, rfl⟩
    rw [log_building]
    simp
  exact stopped_of_grows hstopped (grows_planTest t)

end Answers

/-! ### The loops -/

section Loops

variable {R X : Shell → Shell → Prop} {c : Command Shell} {f : Shell → Shell}

theorem follows_round (hcwd : ∀ s t, R s t → s.cwd = t.cwd)
    (hbegin : ∀ s t j, R s t → R (s.beginning j) (t.beginning j))
    (h : Follows R X c f) (j : Word) :
    Follows R X (round w c j) fun t => planRound w f t j := by
  intro s t hst
  have hst' := hbegin s t j hst
  rw [round_apply, hcwd s t hst]
  simp only [planRound]
  split
  · exact h _ _ hst'
  · exact hst'

/-- **A loop over the modules** follows its plan when its body does. -/
theorem follows_forModules (hcwd : ∀ s t, R s t → s.cwd = t.cwd)
    (hbegin : ∀ s t j, R s t → R (s.beginning j) (t.beginning j))
    (hX : ∀ s t j, X s t → X s (planRound w f t j)) (h : Follows R X c f)
    (Modules : List Word) :
    Follows R X (forModules w Modules c) (planModules w Modules f) := by
  have htests : ∀ i, Follows R X (forTests w c i) fun t => planTests w f t i := by
    intro i s t hst
    simp only [forTests, planTests, hcwd s t hst]
    exact follows_forEach hX (follows_round hcwd hbegin h) _ s t hst
  intro s t hst
  simp only [forModules, planModules, hcwd s t hst]
  refine follows_forEach ?_ htests _ s t hst
  intro s t i hst
  exact List.foldlRecOn _ _ hst fun t ht j _ => hX s t j ht

end Loops

/-- **The build and run loop** follows the plan. -/
theorem follows_buildAndRun (V : Bool) :
    Follows (Answers w V) (Stopped w V) (buildAndRun w V) (planTest w) := by
  intro s t h
  by_cases hs : buildStatus w V s = 0
  · rw [buildAndRun_of_built w hs]
    exact h.at_tested hs
  · rw [buildAndRun_of_failed w hs]
    exact h.at_failed hs

/-- In the rebuild loop nothing is asked, so the plan is the run. -/
theorem follows_cleanTest :
    Follows (fun s t => s = t ∧ Answers w V s t) (fun _ _ => False) (cleanTest w)
      (planClean w) := by
  rintro s _ ⟨rfl, h⟩
  obtain ⟨n, happly⟩ := cleanTest_apply w s
  rw [happly]
  have hcleaning : Answers w V (cleaning w s) (cleaning w s) := h.moved _
  have hclean := hcleaning.note_of_ask (d := .makeClean) rfl rfl
  have hcleaned : Answers w V (cleaned w s) (cleaned w s) := hclean.note_of_ask rfl rfl
  exact ⟨rfl, hcleaned.moved _⟩

/-- The loops of the script follow the plan. -/
theorem follows_runModules (o : Options) {s : Shell} (hs : Answers w o.Verbose s s) :
    (runModules w o s).Holds (fun _ s' => Answers w o.Verbose s' (planLoops w o s))
      (fun _ s' => Stopped w o.Verbose s' (planLoops w o s)) := by
  have hclean : Follows (fun s t => s = t ∧ Answers w o.Verbose s t) (fun _ _ => False)
      (if o.Rebuild then forModules w o.Modules (cleanTest w) else block [])
      fun t => if o.Rebuild then planModules w o.Modules (planClean w) t else t := by
    by_cases hrebuild : o.Rebuild
    · simp only [hrebuild, if_true]
      refine follows_forModules ?_ ?_ (fun _ _ _ h => h) follows_cleanTest o.Modules
      · exact fun s t hst => hst.2.cwd_eq
      · exact fun s t j hst => ⟨congrArg (·.beginning j) hst.1, hst.2.at_beginning j⟩
    · simp only [hrebuild]
      exact fun s t hst => hst
  have hbuild := follows_forModules (fun _ _ h => h.cwd_eq) (fun _ _ j h => h.at_beginning j)
    (fun s t j h => stopped_of_grows h (grows_planRound t j))
    (follows_buildAndRun (w := w) o.Verbose) o.Modules
  have h := hclean s s ⟨rfl, hs⟩
  rw [runModules, block_cons_cons]
  cases hrun : (if o.Rebuild then forModules w o.Modules (cleanTest w) else block []) s with
  | done n s' =>
      rw [hrun] at h
      rw [andThen_of_done hrun]
      exact hbuild s' _ h.2
  | exit n s' =>
      rw [hrun] at h
      exact h.elim

/-- **The script follows its plan**: it returns with the answers to all of it, or exits
behind a build that failed. -/
theorem follows_plan (w : World) {args : List Word} (h : isHelp (args.headD []) = false) :
    (runAllTests w args).Holds
      (fun _ s => ¬ BuildFailed (answered w args) ∧ s.log = answered w args)
      (fun _ s => Stops (answered w args) s.log) := by
  have hplan : plan w args = (planLoops w (options w args) (initial w)).log := by
    rw [plan, h]
    rfl
  have hstart : Answers w (options w args).Verbose (initial w) (initial w) :=
    ⟨rfl, not_buildFailed_nil⟩
  have hrun := follows_runModules (options w args) hstart
  rw [runAllTests_eq w h, answered, hplan]
  exact hrun.imp (fun _ s hs => ⟨hs.log_eq ▸ hs.2, hs.log_eq⟩) fun _ s hs => hs

/-- Echoed lines have no answer. -/
theorem ask_echoes (log : Log) (es : List Entry) (h : ∀ e ∈ es, ∃ text, e.deed = .echo text) :
    ask w V log es = log ++ es := by
  induction es generalizing log with
  | nil => simp [ask]
  | cons e es ih =>
      rw [List.forall_mem_cons] at h
      obtain ⟨text, htext⟩ := h.1
      have hanswer : e.answer w V log = e := by simp only [Entry.answer, htext]
      rw [ask_cons, hanswer, htext, if_neg (by simp [Deed.isFailedBuild]), ih _ h.2,
        List.append_assoc]
      rfl

/-- The plan of a call for help is the usage text. -/
theorem answered_of_isHelp (w : World) {args : List Word} (h : isHelp (args.headD [])) :
    answered w args = usage.map fun text => ⟨[], w.start, .echo text⟩ := by
  have hechoes : ∀ e ∈ usage.map fun text => (⟨[], w.start, .echo text⟩ : Entry),
      ∃ text, e.deed = .echo text := by
    intro e he
    obtain ⟨text, _, rfl⟩ := List.mem_map.mp he
    exact ⟨text, rfl⟩
  rw [answered, plan, if_pos h, ask_echoes [] _ hechoes, List.nil_append]

/-- What any run logs: the answers to its plan, and behind a build that failed the
message about it. -/
theorem log_runAllTests (w : World) (args : List Word) :
    (¬ BuildFailed (answered w args) ∧ (runAllTests w args).state.log = answered w args) ∨
      Stops (answered w args) (runAllTests w args).state.log := by
  by_cases hhelp : isHelp (args.headD [])
  · rw [answered_of_isHelp w hhelp, runAllTests, if_pos hhelp, usage_apply]
    refine .inl ⟨?_, rfl⟩
    simp [BuildFailed, Deed.isFailedBuild]
  · have hrun := follows_plan w (Bool.eq_false_iff.mpr hhelp)
    cases h : runAllTests w args with
    | done n s =>
        rw [h] at hrun
        exact .inl hrun
    | exit n s =>
        rw [h] at hrun
        exact .inr hrun

/-! ### What is asked and what is answered -/

/-- An entry without its answer. -/
def Entry.asked (e : Entry) : Entry :=
  match e.deed with
  | .make _ => ⟨e.j, e.dir, .make 0⟩
  | .run command _ => ⟨e.j, e.dir, .run command none⟩
  | _ => e

@[simp] theorem asked_answer (e : Entry) (log : Log) : (e.answer w V log).asked = e.asked := by
  rcases e with ⟨j, dir, deed⟩
  cases deed <;> rfl

/-- What is logged are answers. -/
theorem throughout_ask {log : Log} (h : Throughout (fun log e => e.answer w V log = e) log)
    (es : List Entry) : Throughout (fun log e => e.answer w V log = e) (ask w V log es) := by
  induction es generalizing log with
  | nil => exact h
  | cons e es ih =>
      have hlog := throughout_concat.mpr ⟨h, answer_answer e log⟩
      rw [ask_cons]
      split
      · exact hlog
      · exact ih hlog

/-- Every entry is an answer behind those before it. -/
theorem answer_of_ask {es pre post : List Entry} {e : Entry}
    (h : ask w V [] es = pre ++ e :: post) : e.answer w V pre = e := by
  have hanswers := throughout_ask (w := w) (V := V) throughout_nil es
  rw [h] at hanswers
  exact hanswers.at_append_cons

/-- What is asked comes from the plan, in its order, and all of it is asked unless a build
fails. -/
theorem asked_ask (w : World) (V : Bool) (log : Log) (es : List Entry) :
    ∃ own, ask w V log es = log ++ own ∧ own.map Entry.asked <+: es.map Entry.asked ∧
      (¬ BuildFailed own → own.map Entry.asked = es.map Entry.asked) := by
  induction es generalizing log with
  | nil => exact ⟨[], by simp [ask], by simp, by simp⟩
  | cons e es ih =>
      rw [ask_cons, List.map_cons]
      split
      · rename_i hf
        refine ⟨[e.answer w V log], rfl, ?_, fun hok => absurd (by simp [hf]) hok⟩
        rw [List.map_singleton, asked_answer]
        exact ⟨es.map Entry.asked, rfl⟩
      · obtain ⟨own, hown, hpart, hall⟩ := ih (log ++ [e.answer w V log])
        refine ⟨e.answer w V log :: own, by simp [hown], ?_, fun hok => ?_⟩
        · rw [List.map_cons, asked_answer]
          exact (List.prefix_cons_inj _).mpr hpart
        · rw [buildFailed_cons, not_or] at hok
          rw [List.map_cons, asked_answer, hall hok.2]

/-- A build that fails is an entry of the plan, and what is behind it is not asked. -/
theorem exists_of_buildFailed {log : Log} (hlog : ¬ BuildFailed log) {es : List Entry}
    (h : BuildFailed (ask w V log es)) :
    ∃ fs j dir status gs, es = fs ++ ⟨j, dir, .make status⟩ :: gs ∧
      ¬ BuildFailed (ask w V log fs) ∧ ∃ status', status' ≠ 0 ∧
        ask w V log es = ask w V log fs ++ [⟨j, dir, .make status'⟩] := by
  induction es generalizing log with
  | nil => exact absurd h hlog
  | cons e es ih =>
      rw [ask_cons] at h ⊢
      by_cases hf : (e.answer w V log).deed.isFailedBuild
      · rw [if_pos hf]
        rcases e with ⟨j, dir, deed⟩
        cases deed with
        | make status =>
            exact ⟨[], j, dir, status, es, rfl, hlog, _, of_decide_eq_true hf, rfl⟩
        | _ => cases hf
      · rw [if_neg hf] at h ⊢
        obtain ⟨fs, j, dir, status, gs, rfl, hok, hfails⟩ := ih (by simp [hlog, hf]) h
        refine ⟨e :: fs, j, dir, status, gs, rfl, ?_⟩
        rw [ask_cons, if_neg hf]
        exact ⟨hok, hfails⟩

/-- Where every `make` succeeds, no build fails. -/
theorem not_buildFailed_ask (hmake : ∀ log dir, w.make V log dir = 0) {log : Log}
    (hlog : ¬ BuildFailed log) (es : List Entry) : ¬ BuildFailed (ask w V log es) := by
  induction es generalizing log with
  | nil => exact hlog
  | cons e es ih =>
      have hok : (e.answer w V log).deed.isFailedBuild = false := by
        rcases e with ⟨j, dir, deed⟩
        cases deed <;> simp [Entry.answer, Deed.isFailedBuild, hmake]
      rw [ask_cons, hok, if_neg (by simp)]
      exact ih (by simp [hlog, hok])

/-- A run in which every `make` succeeds has no failed build. -/
theorem not_buildFailed_run (hmake : ∀ V log dir, w.make V log dir = 0) (args : List Word) :
    ¬ BuildFailed (runAllTests w args).state.log := by
  have hok : ¬ BuildFailed (answered w args) :=
    not_buildFailed_ask (hmake _) not_buildFailed_nil _
  rcases log_runAllTests w args with ⟨_, hlog⟩ | hstops
  · rwa [hlog]
  · exact absurd hstops.buildFailed hok

end FrameworkTests.Runner
