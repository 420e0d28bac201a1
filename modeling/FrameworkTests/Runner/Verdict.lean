import FrameworkTests.Runner.Selection
import FrameworkTests.Runner.Transcript

/-!
# What the exit status says

A caller reads the exit status of the script as its verdict: zero when every test
directory of the selected modules was built, and its binary was there and exited
with zero.  A failing build does end the script with status 1.  But a test only
reaches the status of the script when nothing is visited after it, and in quiet mode
what counts of it is not its exit code but whether `grep` had a line to print.

So the status can only be relied on where there is nothing to hide: `alwaysSound_iff` is
about all outcomes of builds and tests for a tree and arguments.

## Main definitions

* `AllGood w args` — every test directory was built and its binary exited with zero.
* `Sound w args` — the exit status is zero exactly when all is good.
* `AlwaysSound w args` — it is sound for all outcomes of builds and tests.
* `LastAlone w args d` — `d` is the only test directory, and its test the last thing done.
-/

namespace FrameworkTests.Runner

open Command Run

/-! ### The verdict that is due -/

/-- The statuses `make` returned in a directory. -/
def buildsIn (log : Log) (dir : Path) : List ℕ :=
  log.filterMap fun e =>
    match e.deed with
    | .make status => if e.dir = dir then some status else none
    | _ => none

/-- What became of a command that was run in a directory. -/
def resultsIn (log : Log) (dir : Path) (command : List Word) : List Result :=
  log.filterMap fun e =>
    match e.deed with
    | .run ran result => if e.dir = dir ∧ ran = command then some result else none
    | _ => none

/-- The binary exists and exited with zero. -/
def exitedZero (result : Result) : Bool := result.any fun r => r.2 = 0

/-- A test directory was built successfully, and its binary exited with zero. -/
def Good (log : Log) (dir : Path) : Prop :=
  (buildsIn log dir ≠ [] ∧ ∀ status ∈ buildsIn log dir, status = 0) ∧
    resultsIn log dir [testBinary dir] ≠ [] ∧
      ∀ result ∈ resultsIn log dir [testBinary dir], exitedZero result

/-- All test directories of the selected modules are good. -/
def AllGood (w : World) (args : List Word) : Prop :=
  ∀ dir ∈ testDirs w args, Good (runAllTests w args).state.log dir

instance (log : Log) (dir : Path) : Decidable (Good log dir) :=
  inferInstanceAs (Decidable ((_ ∧ _) ∧ _ ∧ _))

instance (w : World) (args : List Word) : Decidable (AllGood w args) :=
  inferInstanceAs (Decidable (∀ dir ∈ testDirs w args, _))

/-- **The exit status is a sound verdict.** -/
def Sound (w : World) (args : List Word) : Prop :=
  (runAllTests w args).status = 0 ↔ AllGood w args

/-- The same world with these outcomes of builds and tests. -/
def World.answering (w : World) (make : Bool → Log → Path → ℕ)
    (exec : Bool → Log → Path → List Word → Result) : World :=
  { w with make := make, exec := exec }

/-- The exit status is a sound verdict however builds and tests turn out. -/
def AlwaysSound (w : World) (args : List Word) : Prop :=
  ∀ make exec, Sound (w.answering make exec) args

/-- `d` is the only test directory.  The script builds it, and the last thing it does
when no build fails is to run the test there, for the first time. -/
structure LastAlone (w : World) (args : List Word) (d : Path) : Prop where
  only : ∀ dir, dir ∈ testDirs w args ↔ dir = d
  built : .built d ∈ visits (plan w args)
  last : (plan w args).getLast?.bind Entry.visit = some (.ran d [testBinary d])
  once : (visits (plan w args)).count (.ran d [testBinary d]) = 1

variable {w : World} {args : List Word}

/-! ### Logs -/

@[simp] theorem resultsIn_append (log log' : Log) (dir : Path) (command : List Word) :
    resultsIn (log ++ log') dir command =
      resultsIn log dir command ++ resultsIn log' dir command :=
  List.filterMap_append

theorem mem_visits_built {log : Log} {dir : Path} :
    .built dir ∈ visits log ↔ buildsIn log dir ≠ [] := by
  constructor
  · intro h
    obtain ⟨pre, e, post, rfl, hvisit⟩ := exists_of_mem_visits h
    obtain ⟨status, hdeed, hdir⟩ := visit_eq_built.mp hvisit
    simp [buildsIn, hdeed, hdir]
  · intro h
    obtain ⟨status, h⟩ := List.exists_mem_of_ne_nil _ h
    obtain ⟨⟨j, d, deed⟩, he, hstatus⟩ := List.mem_filterMap.mp h
    cases deed <;> simp only [Option.ite_none_right_eq_some, reduceCtorEq] at hstatus
    obtain ⟨rfl, -⟩ := hstatus
    exact List.mem_filterMap.mpr ⟨_, he, rfl⟩

theorem count_visits_ran (log : Log) (dir : Path) (command : List Word) :
    (visits log).count (.ran dir command) = (resultsIn log dir command).length := by
  induction log with
  | nil => rfl
  | cons e log ih =>
      have hone : (visits [e]).count (.ran dir command) = (resultsIn [e] dir command).length := by
        rcases e with ⟨j, d, deed⟩
        cases deed with
        | run ran result =>
            by_cases h : d = dir ∧ ran = command <;>
              simp [visits, Entry.visit, resultsIn, h]
        | _ => simp [visits, Entry.visit, resultsIn, List.filterMap_cons]
      have hcons : e :: log = [e] ++ log := rfl
      rw [hcons, visits_append, resultsIn_append, List.count_append, List.length_append, hone, ih]

/-- Where no build failed, a good directory is one that was built, with results that are
zero. -/
theorem good_iff {log : Log} (h : ¬ BuildFailed log) {dir : Path} :
    Good log dir ↔ .built dir ∈ visits log ∧ resultsIn log dir [testBinary dir] ≠ [] ∧
      ∀ result ∈ resultsIn log dir [testBinary dir], exitedZero result := by
  have hzero : ∀ status ∈ buildsIn log dir, status = 0 := by
    intro status hstatus
    obtain ⟨⟨j, d, deed⟩, he, hdeed⟩ := List.mem_filterMap.mp hstatus
    cases deed <;> simp only [Option.ite_none_right_eq_some, reduceCtorEq] at hdeed
    obtain ⟨-, hsame⟩ := hdeed
    cases hsame
    exact make_eq_zero h he rfl
  rw [Good, mem_visits_built]
  exact and_congr_left fun _ => and_iff_left hzero

/-! ### The verdict that is given -/

/-- **The exit status** is zero when no build fails and the last entry passes. -/
theorem status_eq_zero_iff (w : World) (args : List Word) :
    (runAllTests w args).status = 0 ↔ ¬ BuildFailed (answered w args) ∧
      lastStatus (options w args).Verbose (answered w args) = 0 := by
  by_cases hhelp : isHelp (args.headD [])
  · rw [answered_of_isHelp w hhelp, runAllTests, if_pos hhelp, usage_apply]
    refine iff_of_true rfl ⟨?_, rfl⟩
    simp [BuildFailed, Deed.isFailedBuild]
  · have hhelp := Bool.eq_false_iff.mpr hhelp
    have hplan := follows_plan w hhelp
    have hstatus := returns_runModules w (options w args)
    rw [← runAllTests_eq w hhelp] at hstatus
    cases hrun : runAllTests w args with
    | done n s =>
        rw [hrun] at hplan hstatus
        obtain ⟨hok, hlog⟩ := hplan
        rw [Outcome.status_done, hstatus.2, hlog]
        exact (and_iff_right hok).symm
    | exit n s =>
        rw [hrun] at hplan hstatus
        rw [Outcome.status_exit, hstatus.1]
        exact iff_of_false Nat.one_ne_zero fun h => h.1 hplan.buildFailed

/-- The message about a failed build is no news for the verdict. -/
theorem allGood_iff (w : World) (args : List Word) :
    AllGood w args ↔ ∀ dir ∈ testDirs w args, Good (answered w args) dir := by
  rw [AllGood]
  rcases log_runAllTests w args with ⟨-, hlog⟩ | ⟨pre, j, d, name, status, -, -, hlog⟩
  · rw [hlog]
  · have hgood : ∀ dir, Good (answered w args ++
        [⟨j, d, .echo ("##### Failed to build ".toList ++ name)⟩]) dir ↔
          Good (answered w args) dir := by
      intro dir
      simp [Good, buildsIn, resultsIn]
    rw [hlog]
    exact forall₂_congr fun dir _ => hgood dir

/-- The verdict by the answers to the plan. -/
theorem sound_iff (w : World) (args : List Word) : Sound w args ↔
    (¬ BuildFailed (answered w args) ∧
        lastStatus (options w args).Verbose (answered w args) = 0 ↔
      ∀ dir ∈ testDirs w args, Good (answered w args) dir) := by
  rw [Sound, status_eq_zero_iff, allGood_iff]

/-! ### Other outcomes

The outcomes of builds and tests are no part of the plan. -/

section Answering

variable (w) (args) (make : Bool → Log → Path → ℕ)
  (exec : Bool → Log → Path → List Word → Result)

theorem parse_answering (o : Options) : parse (w.answering make exec) o args = parse w o args := by
  induction args generalizing o with
  | nil => rfl
  | cons arg args ih =>
      rw [parse, parse, ih, ih, ih]
      rfl

theorem options_answering : options (w.answering make exec) args = options w args := by
  rw [options, options, parse_answering]

theorem plan_answering : plan (w.answering make exec) args = plan w args := by
  rw [plan, plan, options_answering]
  rfl

theorem answered_answering : answered (w.answering make exec) args =
    ask (w.answering make exec) (options w args).Verbose [] (plan w args) := by
  rw [answered, options_answering, plan_answering]

end Answering

/-! ### Outcomes that mask a failure -/

/-- A test that fails and says so; only in verbose mode the one behind `n` entries
passes. -/
def masking (n : ℕ) (V : Bool) (log : Log) (_ : Path) (_ : List Word) : Result :=
  if V ∧ log.length = n then some (.nothing, 0)
  else some (.text ⟨["FAIL!  : request()".toList], by decide⟩, 1)

theorem exitedZero_masking {n : ℕ} {V : Bool} {log : Log} (dir : Path) (command : List Word) :
    exitedZero (masking n V log dir command) ↔ V ∧ log.length = n := by
  rw [masking]
  split <;> simp_all [exitedZero]

/-- The test behind `n` entries counts as passed in either mode. -/
theorem testStatus_masking (V : Bool) {n : ℕ} {log : Log} (h : log.length = n) (dir : Path)
    (command : List Word) : testStatus V (masking n V log dir command) = 0 := by
  cases V with
  | true => simp [masking, testStatus, directStatus, h]
  | false =>
      simp only [masking, Bool.false_eq_true, false_and, if_false]
      decide

/-- The world in which all builds succeed, and the tests before the last step of the run
fail. -/
def World.masked (w : World) (args : List Word) : World :=
  w.answering (fun _ _ _ => 0) (masking ((plan w args).length - 1))

/-- A plan that is made to its end is as long as its answers. -/
theorem length_ask {V : Bool} {es : List Entry} (h : ¬ BuildFailed (ask w V [] es)) :
    (ask w V [] es).length = es.length := by
  obtain ⟨own, hown, -, hall⟩ := asked_ask w V [] es
  rw [List.nil_append] at hown
  rw [hown] at h ⊢
  simpa using congrArg List.length (hall h)

theorem answered_masked (w : World) (args : List Word) : answered (w.masked args) args =
    ask (w.masked args) (options w args).Verbose [] (plan w args) :=
  answered_answering w args _ _

/-- Masked failures leave the exit status 0. -/
theorem lastStatus_masked (w : World) (args : List Word) :
    ¬ BuildFailed (answered (w.masked args) args) ∧
      lastStatus (options w args).Verbose (answered (w.masked args) args) = 0 := by
  have hok : ∀ es, ¬ BuildFailed (ask (w.masked args) (options w args).Verbose [] es) :=
    fun es => not_buildFailed_ask (fun _ _ => rfl) not_buildFailed_nil es
  rw [answered_masked]
  refine ⟨hok _, ?_⟩
  rcases List.eq_nil_or_concat (plan w args) with hnil | ⟨es, e, hes⟩
  · rw [hnil]
    rfl
  · rw [List.concat_eq_append] at hes
    have hlen : (ask (w.masked args) (options w args).Verbose [] es).length =
        (plan w args).length - 1 := by
      rw [length_ask (hok es), hes]
      simp
    rw [hes, ask_concat (hok es)]
    rcases e with ⟨j, dir, deed⟩
    cases deed with
    | run command result =>
        rw [ask_run, lastStatus_run]
        exact testStatus_masking _ hlen dir command
    | make status => simp [ask, World.masked, World.answering, lastStatus]
    | _ => simp [ask, lastStatus]

/-- A result logged in the masked world that exited with zero is the last one. -/
theorem last_of_exitedZero {pre post : Log} {e : Entry} {command : List Word} {result : Result}
    (h : answered (w.masked args) args = pre ++ e :: post) (he : e.deed = .run command result)
    (hzero : exitedZero result) : (options w args).Verbose ∧ post = [] := by
  have hok := (lastStatus_masked w args).1
  rw [answered_masked] at h hok
  have hlen := length_ask hok
  rw [h, List.length_append, List.length_cons] at hlen
  have hresult : masking ((plan w args).length - 1) (options w args).Verbose pre e.dir command =
      result := by
    have hdeed := congrArg Entry.deed (answer_of_ask h)
    simp only [Entry.answer, he, Deed.run.injEq, true_and] at hdeed
    exact hdeed
  rw [← hresult, exitedZero_masking] at hzero
  exact ⟨hzero.1, List.eq_nil_of_length_eq_zero (by omega)⟩

/-- A directory that is good among masked failures is built, and its test is run by the
last step and by no other. -/
theorem last_of_good {d : Path} (h : Good (answered (w.masked args) args) d) :
    (options w args).Verbose ∧ .built d ∈ visits (plan w args) ∧
      (plan w args).getLast?.bind Entry.visit = some (.ran d [testBinary d]) ∧
      (visits (plan w args)).count (.ran d [testBinary d]) = 1 := by
  have hok := (lastStatus_masked w args).1
  rw [good_iff hok] at h
  obtain ⟨hbuilt, hne, hzero⟩ := h
  have hlast : ∀ pre e post, answered (w.masked args) args = pre ++ e :: post →
      e.visit = some (.ran d [testBinary d]) → (options w args).Verbose ∧ post = [] := by
    intro pre e post heq hvisit
    obtain ⟨result, hdeed, hdir⟩ := visit_eq_ran.mp hvisit
    refine last_of_exitedZero heq hdeed (hzero result ?_)
    rw [heq]
    simp [resultsIn, hdeed, hdir]
  have hran : .ran d [testBinary d] ∈ visits (answered (w.masked args) args) := by
    rw [← List.count_pos_iff, count_visits_ran]
    exact List.length_pos_iff.mpr hne
  obtain ⟨pre, e, post, heq, hvisit⟩ := exists_of_mem_visits hran
  obtain ⟨hV, rfl⟩ := hlast pre e post heq hvisit
  have hnone : (visits pre).count (.ran d [testBinary d]) = 0 := by
    rw [List.count_eq_zero]
    intro hmem
    obtain ⟨pre', e', post', rfl, hvisit'⟩ := exists_of_mem_visits hmem
    have hend := (hlast pre' e' (post' ++ [e]) (by rw [heq]; simp) hvisit').2
    simp at hend
  rw [answered_masked] at hok hbuilt heq
  rw [← getLast_ask hok, ← (visits_ask _ _ _).2 hok]
  refine ⟨hV, hbuilt, ?_, ?_⟩
  · rw [heq]
    simpa using hvisit
  · rw [heq, visits_append, List.count_append, hnone]
    simp [visits, hvisit]

/-- **Necessity** among test directories: their only one is tested last. -/
theorem lastAlone_of_sound (h : Sound (w.masked args) args) {d : Path}
    (hd : d ∈ testDirs w args) : (options w args).Verbose ∧ LastAlone w args d := by
  have hoptions : options (w.masked args) args = options w args := options_answering w args _ _
  rw [sound_iff, hoptions] at h
  have hgood : ∀ dir ∈ testDirs w args, Good (answered (w.masked args) args) dir :=
    h.mp (lastStatus_masked w args)
  obtain ⟨hV, hbuilt, hlast, honce⟩ := last_of_good (hgood d hd)
  refine ⟨hV, fun dir => ⟨fun hdir => ?_, fun hdir => hdir ▸ hd⟩, hbuilt, hlast, honce⟩
  have hsame := (last_of_good (hgood dir hdir)).2.2.1
  rw [hlast] at hsame
  simp_all

/-- A build on the plan fails when all builds do. -/
theorem not_built_of_sound (h : Sound (w.answering (fun _ _ _ => 1) w.exec) args)
    (hnone : testDirs w args = []) (d : Path) : .built d ∉ visits (plan w args) := by
  intro hbuilt
  have hdirs : testDirs (w.answering (fun _ _ _ => 1) w.exec) args = [] := hnone
  rw [sound_iff, hdirs, answered_answering] at h
  obtain ⟨hok, -⟩ := h.mpr (by simp)
  rw [← (visits_ask _ _ _).2 hok] at hbuilt
  obtain ⟨pre, e, post, heq, hvisit⟩ := exists_of_mem_visits hbuilt
  obtain ⟨status, hdeed, hdir⟩ := visit_eq_built.mp hvisit
  have hanswer := congrArg Entry.deed (answer_of_ask heq)
  simp only [Entry.answer, hdeed, Deed.make.injEq] at hanswer
  have hone : 1 = status := hanswer
  have hzero : status = 0 := make_eq_zero hok (by rw [heq]; simp) hdeed
  omega

/-! ### Plans without failures to mask -/

/-- Where nothing is built nothing is tested. -/
theorem isCleaning_of_not_built (h : ∀ d, .built d ∉ visits (plan w args)) :
    ∀ v ∈ visits (plan w args), v.isCleaning := by
  have hplan : (∃ d, .built d ∈ visits (plan w args)) ∨
      ∀ v ∈ visits (plan w args), v.isCleaning := by
    rw [plan]
    split
    · refine .inr fun v hv => ?_
      obtain ⟨e, he, hvisit⟩ := List.mem_filterMap.mp hv
      obtain ⟨text, _, rfl⟩ := List.mem_map.mp he
      cases hvisit
    · have hstart : ∀ v ∈ visits (initial w).log, v.isCleaning := by simp [initial, visits]
      refine planLoops_induction
        (P := fun s => (∃ d, .built d ∈ visits s.log) ∨ ∀ v ∈ visits s.log, v.isCleaning)
        ?_ ?_ _ (.inr hstart)
      · intro s j hs
        rw [planRound]
        split
        · rw [visits_planClean, visits_beginning]
          rcases hs with ⟨d, hd⟩ | hs
          · exact .inl ⟨d, List.mem_append_left _ hd⟩
          · rw [List.forall_mem_append]
            exact .inr ⟨hs, by simp [Visit.isCleaning]⟩
        · rwa [visits_beginning]
      · intro s j hs
        rw [planRound]
        split
        · rw [visits_planTest]
          exact .inl ⟨_, List.mem_append_right _ List.mem_cons_self⟩
        · rwa [visits_beginning]
  exact hplan.resolve_left (not_exists.mpr h)

theorem lastStatus_eq_zero {V : Bool} {log : Log}
    (h : ∀ dir command, log.getLast?.bind Entry.visit ≠ some (.ran dir command)) :
    lastStatus V log = 0 := by
  rw [lastStatus]
  split
  · rename_i j dir command result hlast
    exact absurd (by rw [hlast]; rfl) (h dir command)
  · rfl

/-- Without a build the status is 0. -/
theorem sound_of_not_built (h : testDirs w args = [] ∧ ∀ d, .built d ∉ visits (plan w args)) :
    AlwaysSound w args := by
  obtain ⟨hnone, hbuilt⟩ := h
  intro make exec
  have hvisits := (visits_ask (w.answering make exec) (options w args).Verbose (plan w args)).1
  have hdirs : testDirs (w.answering make exec) args = [] := hnone
  rw [sound_iff, hdirs, options_answering, answered_answering]
  refine iff_of_true ⟨?_, lastStatus_eq_zero ?_⟩ (by simp)
  · rintro ⟨⟨j, dir, deed⟩, he, hfailed⟩
    cases deed <;> simp only [Deed.isFailedBuild, Bool.false_eq_true] at hfailed
    exact hbuilt dir (hvisits.subset (List.mem_filterMap.mpr ⟨_, he, rfl⟩))
  · intro dir command hlast
    obtain ⟨e, he, hvisit⟩ := Option.bind_eq_some_iff.mp hlast
    have hran := List.mem_filterMap.mpr ⟨e, List.mem_of_getLast? he, hvisit⟩
    have hkind := isCleaning_of_not_built hbuilt _ (hvisits.subset hran)
    simp [Visit.isCleaning] at hkind

theorem verbose_eq_zero_iff (result : Result) : testStatus true result = 0 ↔ exitedZero result := by
  rcases result with _ | ⟨output, code⟩ <;> simp [testStatus, directStatus, exitedZero]

/-- In verbose mode the status is that of the last test. -/
theorem sound_of_lastAlone {d : Path} (hV : (options w args).Verbose) (h : LastAlone w args d) :
    AlwaysSound w args := by
  intro make exec
  obtain ⟨⟨j, dir, deed⟩, hlast, hvisit⟩ := Option.bind_eq_some_iff.mp h.last
  obtain ⟨es, hplan⟩ := List.getLast?_eq_some_iff.mp hlast
  obtain ⟨result, hdeed, hdir⟩ := visit_eq_ran.mp hvisit
  obtain rfl : deed = .run [testBinary d] result := hdeed
  obtain rfl : d = dir := hdir.symm
  have hfirst : (visits es).count (.ran d [testBinary d]) = 0 := by
    have honce := h.once
    rw [hplan, visits_append, List.count_append] at honce
    simpa [visits, Entry.visit] using honce
  -- the steps before the test have no result for it
  have hnone : resultsIn (ask (w.answering make exec) true [] es) d [testBinary d] = [] := by
    rw [← List.length_eq_zero_iff, ← count_visits_ran]
    exact Nat.eq_zero_of_le_zero (hfirst ▸ (visits_ask _ _ es).1.sublist.count_le _)
  have hbuilt := h.built
  have hdirs : testDirs (w.answering make exec) args = testDirs w args := rfl
  rw [sound_iff, hdirs, options_answering, answered_answering, hV]
  simp only [h.only, forall_eq]
  rw [hplan] at hbuilt ⊢
  by_cases hfailed : BuildFailed (ask (w.answering make exec) true [] es)
  · rw [ask_append not_buildFailed_nil, if_pos hfailed]
    exact iff_of_false (fun hok => hok.1 hfailed) fun hgood => hgood.2.1 hnone
  · have hok : ¬ BuildFailed (ask (w.answering make exec) true []
        (es ++ [⟨j, d, .run [testBinary d] result⟩])) := by
      rw [ask_concat hfailed, ask_run, buildFailed_concat]
      simpa [Deed.isFailedBuild] using hfailed
    rw [good_iff hok, (visits_ask _ _ _).2 hok, and_iff_right hok, and_iff_right hbuilt,
      ask_concat hfailed, ask_run, lastStatus_run, resultsIn_append, hnone]
    simpa [resultsIn] using verbose_eq_zero_iff _

/-! ### On ways to the test directories -/

/-- With ways to the test directories, the last step is a test when the last word is a
directory. -/
theorem last_plan_of_ways {ps : List Path} (hhelp : isHelp (args.headD []) = false)
    (h : Ways w.toTree (options w args).Modules ps) :
    ((plan w args).getLast?.bind Entry.visit).isSome =
      (w.loopWords (options w args).Modules).getLast?.any (w.isDirectory w.start) := by
  have hplan : plan w args = (planLoops w (options w args) (initial w)).log := by
    rw [plan, hhelp]
    rfl
  have hhome : (if (options w args).Rebuild then
      planModules w (options w args).Modules (planClean w) (initial w) else initial w).cwd =
        w.start := by
    split
    · exact ((cleanBody w).visits_of_ways (s := initial w) rfl h).1
    · rfl
  rw [hplan, planLoops]
  rcases List.eq_nil_or_concat (w.loopWords (options w args).Modules) with hnil | ⟨js, j, hwords⟩
  · have hclean := (cleanBody w).planModules_of_ways (s := initial w) rfl h
    have htest := (testBody w).planModules_of_ways hhome h
    rw [hnil, List.foldl_nil] at hclean htest
    change planModules w (options w args).Modules (planClean w) (initial w) = _ at hclean
    change planModules w (options w args).Modules (planTest w) _ = _ at htest
    rw [htest, hclean, ite_self, hnil]
    rfl
  · rw [List.concat_eq_append] at hwords
    obtain ⟨t, ht, hlast⟩ := (testBody w).exists_last_round hhome h hwords
    change planModules w (options w args).Modules (planTest w) _ = planRound w (planTest w) t j
      at hlast
    rw [hlast, hwords, planRound, ht]
    cases hdir : w.isDirectory w.start j with
    | true => simp [planTest, Entry.visit, hdir]
    | false => simp [Entry.visit, hdir]

theorem visits_plan (hhelp : isHelp (args.headD []) = false) {ps : List Path}
    (h : Ways w.toTree (options w args).Modules ps) :
    visits (plan w args) = expected (options w args).Rebuild ps := by
  rw [plan, hhelp]
  exact visits_plan_of_ways h

theorem count_testings (ps : List Path) (d : Path) :
    (ps.flatMap testings).count (.ran d [testBinary d]) = ps.count d := by
  induction ps with
  | nil => rfl
  | cons p ps ih =>
      have hone : (testings p).count (.ran d [testBinary d]) = [p].count d := by
        by_cases hp : p = d <;> simp [testings, hp]
      rw [List.flatMap_cons, List.count_append, hone, ih, ← List.count_append]
      rfl

theorem count_expected (rebuild : Bool) (ps : List Path) (d : Path) :
    (expected rebuild ps).count (.ran d [testBinary d]) = ps.count d := by
  have hclean : (if rebuild then ps.flatMap cleanings else []).count
      (.ran d [testBinary d]) = 0 := by
    rw [List.count_eq_zero]
    intro hmem
    split at hmem
    · exact absurd (isCleaning_cleanings ps _ hmem) (by simp [Visit.isCleaning])
    · exact List.not_mem_nil hmem
  rw [expected, List.count_append, hclean, Nat.zero_add, count_testings]

/-- On ways to the test directories, the only one is tested last when the last word is a
directory. -/
theorem exists_lastAlone_iff (hhelp : isHelp (args.headD []) = false)
    (h : Ways w.toTree (options w args).Modules (testDirs w args)) :
    (∃ d, LastAlone w args d) ↔ (∃ d, testDirs w args = [d]) ∧
      (w.loopWords (options w args).Modules).getLast?.any (w.isDirectory w.start) := by
  have hvisits := visits_plan hhelp h
  rw [← last_plan_of_ways hhelp h]
  constructor
  · rintro ⟨d, hlast⟩
    refine ⟨⟨d, ?_⟩, by rw [hlast.last]; rfl⟩
    have honce := hlast.once
    rw [hvisits, count_expected] at honce
    have hsame : testDirs w args = List.replicate (testDirs w args).length d :=
      List.eq_replicate_of_mem fun dir hdir => (hlast.only dir).mp hdir
    rw [hsame, List.count_replicate_self] at honce
    rw [hsame, honce]
    rfl
  · rintro ⟨⟨d, hd⟩, hsome⟩
    obtain ⟨v, hv⟩ := Option.isSome_iff_exists.mp hsome
    obtain ⟨e, he, hvisit⟩ := Option.bind_eq_some_iff.mp hv
    obtain ⟨es, hes⟩ := List.getLast?_eq_some_iff.mp he
    have hlast : (visits (plan w args)).getLast? = some v := by
      rw [hes, visits_append]
      simp [visits, hvisit]
    rw [hd] at hvisits
    refine ⟨d, fun dir => by rw [hd, List.mem_singleton], ?_, ?_, ?_⟩
    · rw [hvisits]
      simp [expected, testings]
    · rw [hvisits] at hlast
      rw [hv, ← hlast]
      simp [expected, testings]
    · rw [hvisits, count_expected]
      simp

/-! ### When the verdict is sound -/

/-- **When the exit status is sound**, however builds and tests turn out: when nothing is
there to be built, and in verbose mode when the only test directory is tested last.  On
ways to the test directories it is tested last when the last word that the loops go round
is a directory. -/
theorem alwaysSound_iff (w : World) (args : List Word) :
    (AlwaysSound w args ↔
      (testDirs w args = [] ∧ ∀ d, .built d ∉ visits (plan w args)) ∨
        ((options w args).Verbose ∧ ∃ d, LastAlone w args d)) ∧
      (isHelp (args.headD []) = false →
        Ways w.toTree (options w args).Modules (testDirs w args) →
          (AlwaysSound w args ↔ testDirs w args = [] ∨
            ((options w args).Verbose ∧ (∃ d, testDirs w args = [d]) ∧
              (w.loopWords (options w args).Modules).getLast?.any (w.isDirectory w.start)))) := by
  have hiff : AlwaysSound w args ↔
      (testDirs w args = [] ∧ ∀ d, .built d ∉ visits (plan w args)) ∨
        ((options w args).Verbose ∧ ∃ d, LastAlone w args d) := by
    constructor
    · intro h
      by_cases hnone : testDirs w args = []
      · exact .inl ⟨hnone, not_built_of_sound (h _ _) hnone⟩
      · obtain ⟨d, hd⟩ := List.exists_mem_of_ne_nil _ hnone
        obtain ⟨hV, hlast⟩ := lastAlone_of_sound (h _ _) hd
        exact .inr ⟨hV, d, hlast⟩
    · rintro (h | ⟨hV, d, h⟩)
      · exact sound_of_not_built h
      · exact sound_of_lastAlone hV h
  refine ⟨hiff, fun hhelp hways => ?_⟩
  rw [hiff, exists_lastAlone_iff hhelp hways, visits_plan hhelp hways]
  refine or_congr_left ?_
  refine and_iff_left_of_imp fun hnone => ?_
  rw [hnone]
  simp [expected]

/-- The only test directory of `Network`, in verbose mode. -/
theorem alwaysSound_network : AlwaysSound checkout ["-v".toList, "Network".toList] :=
  ((alwaysSound_iff checkout _).2 (by decide) (by decide +kernel)).mpr
    (.inr ⟨by decide +kernel, ⟨_, rfl⟩, by decide +kernel⟩)

/-- The repository with tests that fail and say so. -/
def failing : World :=
  { checkout with
    exec := fun _ _ _ _ => some (.text
      ⟨["FAIL!  : request()".toList, "Totals: 0 passed, 1 failed".toList], by decide⟩, 1) }

/-- In quiet mode the only test directory fails, and the status is 0: the last `grep`
has lines to print. -/
theorem not_sound_failing : ¬ Sound failing ["Network".toList] := by
  rw [Sound]
  decide +kernel

end FrameworkTests.Runner
