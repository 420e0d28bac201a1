import FrameworkTests.Runner.Selection
import FrameworkTests.Runner.Transcript

/-!
# The order of a run, and where it stops

The script builds a test directory, runs its test, and goes on to the next one; a
build that fails ends it.  `FailStop` is that order, for one run.  It says nothing
about the exit codes of tests because nothing in a run depends on them.

The order rests on the `cd` of each round, which nobody checks, and on every module being
selected once.  `failStop_iff` is about all answers of builds and tests and all flags:
where the loops go round `Ways` to different test directories the order holds, and for
modules that are given by a name it holds nowhere else.

## Main definitions

* `Act`, `acts log` — the builds, with their success, and the tests of a run.
* `FailStop w args ms` — the order of a run over the modules `ms`.
* `AlwaysFailStop t ms` — the order of all runs over these modules in this tree.
* `Ordinary t ms` — modules by name that some arguments select.
-/

namespace FrameworkTests.Runner

open Command

/-! ### The order that is due -/

/-- A build or a test. -/
inductive Act where
  | built (dir : Path) (succeeded : Bool)
  | ran (dir : Path) (command : List Word)
  deriving DecidableEq

def Entry.act (e : Entry) : Option Act :=
  match e.deed with
  | .make status => some (.built e.dir (status = 0))
  | .run command _ => some (.ran e.dir command)
  | _ => none

/-- The builds and tests a log tells of, in order. -/
def acts (log : Log) : List Act := log.filterMap Entry.act

/-- A test directory that is done with: built, then its test run. -/
def passed (dir : Path) : List Act := [.built dir true, .ran dir [testBinary dir]]

/-- The test directories of modules, one module after another. -/
def Tree.allTests (t : Tree) (ms : List Word) : List Path := ms.flatMap t.testDirs

/-- **The fail-stop order** of a run over the modules `ms`. -/
structure FailStop (w : World) (args ms : List Word) : Prop where
  /-- Without a failed build every test directory is built and run, one after another. -/
  complete : ¬ BuildFailed (runAllTests w args).state.log →
    acts (runAllTests w args).state.log = (w.allTests ms).flatMap passed
  /-- Without a failed build every test directory is built and run exactly once. -/
  once : ¬ BuildFailed (runAllTests w args).state.log → ∀ dir ∈ w.allTests ms,
    (acts (runAllTests w args).state.log).count (.built dir true) = 1 ∧
      (acts (runAllTests w args).state.log).count (.ran dir [testBinary dir]) = 1
  /-- Behind a failed build nothing is built or run, and the script exits with status 1. -/
  stops : BuildFailed (runAllTests w args).state.log →
    ∃ pre dir post, w.allTests ms = pre ++ dir :: post ∧
      acts (runAllTests w args).state.log = pre.flatMap passed ++ [.built dir false] ∧
      ∃ s, runAllTests w args = .exit 1 s

/-- The order holds however builds and tests turn out, and by whatever arguments the
modules are selected. -/
def AlwaysFailStop (t : Tree) (ms : List Word) : Prop :=
  ∀ (w : World) (args : List Word), w.toTree = t → isHelp (args.headD []) = false →
    (options w args).Modules = ms → FailStop w args ms

/-- Modules given by their names, that can be selected.  They have no special characters
should `HOME` be one of the test directories. -/
structure Ordinary (t : Tree) (ms : List Word) : Prop where
  selectable : ∃ (w : World) (args : List Word), w.toTree = t ∧
    isHelp (args.headD []) = false ∧ (options w args).Modules = ms
  isName : ∀ m ∈ ms, IsName m
  home : t.home ∈ t.allTests ms → ∀ m ∈ ms, Plain m

variable {w : World}

/-! ### Acts and visits -/

/-- What a visit says of a run without a failed build. -/
def Visit.act : Visit → Option Act
  | cleaned _ | removed _ => none
  | built dir => some (.built dir true)
  | ran dir command => some (.ran dir command)

def Act.visit : Act → Visit
  | built dir _ => .built dir
  | ran dir command => .ran dir command

@[simp] theorem acts_append (log log' : Log) : acts (log ++ log') = acts log ++ acts log' :=
  List.filterMap_append

/-- Without a failed build the acts are the visits. -/
theorem acts_eq {log : Log} (h : ¬ BuildFailed log) :
    acts log = (visits log).filterMap Visit.act := by
  rw [acts, visits, List.filterMap_filterMap]
  refine List.filterMap_congr ?_
  rintro ⟨j, dir, deed⟩ he
  cases deed with
  | make status =>
      have hstatus : status = 0 := make_eq_zero h he rfl
      simp [Entry.act, Entry.visit, Visit.act, hstatus]
  | _ => rfl

theorem map_visit_filterMap_act {vs : List Visit} (h : ∀ v ∈ vs, v.isCleaning = false) :
    (vs.filterMap Visit.act).map Act.visit = vs := by
  induction vs with
  | nil => rfl
  | cons v vs ih =>
      rw [List.forall_mem_cons] at h
      cases v with
      | cleaned dir => exact absurd h.1 (by simp [Visit.isCleaning])
      | removed dir => exact absurd h.1 (by simp [Visit.isCleaning])
      | built dir => simp [Visit.act, Act.visit, ih h.2]
      | ran dir command => simp [Visit.act, Act.visit, ih h.2]

theorem map_visit_passed (ps : List Path) :
    (ps.flatMap passed).map Act.visit = ps.flatMap testings := by
  rw [List.map_flatMap]
  rfl

/-- The acts that are expected. -/
theorem filterMap_act_expected (rebuild : Bool) (ps : List Path) :
    (expected rebuild ps).filterMap Visit.act = ps.flatMap passed := by
  have hclean : (ps.flatMap cleanings).filterMap Visit.act = [] := by
    rw [List.filterMap_eq_nil_iff]
    intro v hv
    obtain ⟨p, _, hv⟩ := List.mem_flatMap.mp hv
    rcases List.mem_pair.mp hv with rfl | rfl <;> rfl
  have htest : (ps.flatMap testings).filterMap Visit.act = ps.flatMap passed := by
    rw [List.filterMap_flatMap]
    rfl
  rw [expected, List.filterMap_append, htest]
  split
  · rw [hclean, List.nil_append]
  · rfl

/-- A build among the acts that are due belongs to one of the directories, and those before
it are done with. -/
theorem exists_of_flatMap_passed {ps : List Path} {us vs : List Act} {dir : Path}
    (h : ps.flatMap passed = us ++ .built dir true :: vs) :
    ∃ pre post, ps = pre ++ dir :: post ∧ us = pre.flatMap passed := by
  induction ps generalizing us with
  | nil => simp at h
  | cons p ps ih =>
      rw [List.flatMap_cons, passed, List.cons_append, List.cons_append, List.nil_append] at h
      match us with
      | [] =>
          obtain ⟨hp, -⟩ := List.cons_eq_cons.mp h
          cases hp
          exact ⟨[], ps, rfl, rfl⟩
      | [u] =>
          obtain ⟨-, hran⟩ := List.cons_eq_cons.mp h
          cases (List.cons_eq_cons.mp hran).1
      | u :: v :: us =>
          obtain ⟨rfl, htail⟩ := List.cons_eq_cons.mp h
          obtain ⟨rfl, hrest⟩ := List.cons_eq_cons.mp htail
          obtain ⟨pre, post, rfl, rfl⟩ := ih hrest
          exact ⟨p :: pre, post, rfl, rfl⟩

theorem count_passed (ps : List Path) (dir : Path) :
    (ps.flatMap passed).count (.built dir true) = ps.count dir ∧
      (ps.flatMap passed).count (.ran dir [testBinary dir]) = ps.count dir := by
  induction ps with
  | nil => exact ⟨rfl, rfl⟩
  | cons p ps ih =>
      by_cases hp : p = dir <;> simp [passed, ih.1, ih.2, hp]

/-! ### On ways to different test directories -/

/-- **Sufficiency**, for one run. -/
theorem failStop_of_ways {args ms : List Word} (hhelp : isHelp (args.headD []) = false)
    (hms : (options w args).Modules = ms) (h : Ways w.toTree ms (w.allTests ms))
    (hnodup : (w.allTests ms).Nodup) : FailStop w args ms := by
  subst hms
  have hplan : visits (plan w args) =
      expected (options w args).Rebuild (w.allTests (options w args).Modules) := by
    rw [plan, hhelp]
    exact visits_plan_of_ways h
  have hcomplete : ¬ BuildFailed (runAllTests w args).state.log →
      acts (runAllTests w args).state.log =
        (w.allTests (options w args).Modules).flatMap passed := by
    intro hok
    rw [acts_eq hok, visits_runAllTests hok, hplan, filterMap_act_expected]
  refine ⟨hcomplete, ?_, ?_⟩
  · intro hok dir hdir
    obtain ⟨hbuilt, hran⟩ := count_passed (w.allTests (options w args).Modules) dir
    rw [hcomplete hok, hbuilt, hran]
    exact ⟨List.count_eq_one_of_mem hnodup hdir, List.count_eq_one_of_mem hnodup hdir⟩
  · intro hfailed
    have hstatus := returns_runModules w (options w args)
    rw [← runAllTests_eq w hhelp] at hstatus
    cases hrun : runAllTests w args with
    | done n s =>
        rw [hrun] at hstatus hfailed
        exact absurd hfailed hstatus.1
    | exit n s =>
        rw [hrun] at hstatus
        obtain ⟨rfl, -⟩ := hstatus
        have hstops : Stops (answered w args) s.log := by
          have hplan := follows_plan w hhelp
          rwa [hrun] at hplan
        obtain ⟨fs, j, dir, status, gs, hsplit, hok, status', hne, hask⟩ :=
          exists_of_buildFailed not_buildFailed_nil hstops.buildFailed
        obtain ⟨_, _, _, _, _, -, -, hlog⟩ := hstops
        have hacts : acts s.log = (visits fs).filterMap Visit.act ++ [.built dir false] := by
          rw [hlog, answered, hask, acts_append, acts_append, acts_eq hok,
            (visits_ask w _ fs).2 hok]
          simp [acts, Entry.act, hne]
        -- the build that failed is due
        have hdue : (w.allTests (options w args).Modules).flatMap passed =
            (visits fs).filterMap Visit.act ++
              .built dir true :: (visits gs).filterMap Visit.act := by
          rw [← filterMap_act_expected (options w args).Rebuild, ← hplan, hsplit, visits_append,
            List.filterMap_append]
          rfl
        obtain ⟨pre, post, hps, hpre⟩ := exists_of_flatMap_passed hdue
        exact ⟨pre, dir, post, hps, by rw [Outcome.state_exit, hacts, hpre], s, rfl⟩

/-! ### Words the argument loop takes for modules -/

/-- The argument loop takes the word for a module. -/
def World.names (w : World) (arg : Word) : Bool :=
  !(w.equals arg "-v".toList || w.equals arg "--verbose".toList) &&
    !(w.equals arg "-r".toList || w.equals arg "--rebuild".toList)

theorem parse_of_names {ms : List Word} (h : ∀ m ∈ ms, w.names m) (o : Options) :
    parse w o ms = { o with Modules := o.Modules ++ ms } := by
  induction ms generalizing o with
  | nil => simp [parse]
  | cons m ms ih =>
      rw [List.forall_mem_cons, World.names, Bool.and_eq_true, Bool.not_eq_true',
        Bool.not_eq_true'] at h
      rw [parse, h.1.1, h.1.2, if_neg (by simp), if_neg (by simp), ih h.2]
      simp

theorem names_of_mem_parse {o : Options} (ho : ∀ m ∈ o.Modules, w.names m) (args : List Word) :
    ∀ m ∈ (parse w o args).Modules, w.names m := by
  induction args generalizing o with
  | nil => exact ho
  | cons arg args ih =>
      rw [parse]
      split
      · exact ih ho
      · split
        · exact ih ho
        · refine ih ?_
          rw [List.forall_mem_append, List.forall_mem_singleton]
          exact ⟨ho, by simp_all [World.names]⟩

/-- What can be selected as modules is no flag. -/
theorem names_of_mem_options {args : List Word} :
    ∀ m ∈ (options w args).Modules, w.names m := by
  rw [options]
  split
  · intro m hm
    obtain rfl : m = "Core".toList := List.mem_singleton.mp hm
    simp only [World.names, equals_of_plain w (show Plain "Core".toList by decide)]
    decide
  · exact names_of_mem_parse (by simp) args

theorem modules_ne_nil (w : World) (args : List Word) : (options w args).Modules ≠ [] := by
  rw [options]
  split
  · simp [KnownModules]
  · assumption

/-- A verbose run over modules that can be selected. -/
theorem options_verbose {ms : List Word} (h : ∀ m ∈ ms, w.names m) (hne : ms ≠ []) :
    options w ("-v".toList :: ms) = ⟨true, false, ms⟩ := by
  have hverbose : w.equals "-v".toList "-v".toList := by
    rw [equals_of_plain w (by decide)]
    rfl
  rw [options, parse, hverbose, Bool.true_or, if_pos rfl, parse_of_names h]
  simp [hne]

/-! ### Back from the order to the ways -/

/-- The world with the same shell in which all builds and tests succeed. -/
def World.passing (w : World) : World := { World.succeeding w.toTree with bracket := w.bracket }

/-- `cd` with one word, where neither `HOME` nor `OLDPWD` would do. -/
theorem resolve_of_cd {t : Tree} {old : Option Path} {c p : Path} {x : Word}
    (h : t.cd old c [x] = .ok p) (hold : old ≠ some p) (hhome : t.home ≠ p) :
    x.head? ≠ some '-' ∧ t.resolve c x = some p := by
  have hnohome : Tree.cd.change t (some t.home) ≠ .ok p :=
    fun hcd => hhome (Option.some.inj (t.eq_of_change hcd).1)
  by_cases hhead : x.head? = some '-'
  · exfalso
    rw [Tree.cd, Tree.cdOperands] at h
    by_cases hdashes : x = "--".toList
    · rw [if_pos hdashes] at h
      exact hnohome h
    · rw [if_neg hdashes] at h
      by_cases hdash : x = ['-']
      · subst hdash
        exact hold (t.eq_of_change h).1
      · rw [if_pos (by simp [hhead, hdash])] at h
        by_cases hall : x.tail.all "LPe".toList.contains
        · rw [if_pos hall] at h
          exact hnohome h
        · rw [if_neg hall] at h
          cases h
  · have hdash : x ≠ ['-'] := by
      rintro rfl
      exact hhead rfl
    simp only [Tree.cd, Tree.cdOperands_cons hhead, if_neg hdash] at h
    exact ⟨hhead, (t.eq_of_change h).1⟩

/-- A round that arrives by neither of them arrives without them. -/
theorem Arrived.way_of_fresh {t : Tree} {old : Option Path} {j : Word} {p : Path}
    (h : Arrived t old j p) (hold : old ≠ some p) (hhome : t.home ≠ p) : Way t j p := by
  obtain ⟨hhead, hp⟩ := resolve_of_cd h.builds hold hhome
  have hcd : t.cd none t.start [(t.expand t.start j).headD []] = .ok p :=
    t.cd_path hhead hp (t.enter_of_cd h.builds)
  have hruns := h.runs
  have hwords : t.expand t.start j = [(t.expand t.start j).headD []] := by
    generalize t.expand t.start j = words at hruns hhead ⊢
    rcases words with _ | ⟨x, _ | ⟨y, ws⟩⟩
    · have hcdhome : Tree.cd.change t (some t.home) = .ok p := hruns
      exact absurd (Option.some.inj (t.eq_of_change hcdhome).1) hhome
    · rfl
    · have hoperands : Tree.cdOperands (x :: y :: ws) = some (x :: y :: ws) :=
        Tree.cdOperands_cons hhead _
      rw [Tree.cd, hoperands] at hruns
      cases hruns
  refine ⟨⟨hcd, ?_, h.returns⟩, h.command⟩
  rw [hwords]
  exact hcd

/-- The visits of a run over modules by name in which all builds and tests succeed. -/
theorem visits_of_complete {ms : List Word} (hms : ∀ m ∈ ms, w.names m) (hne : ms ≠ [])
    (h : acts (runAllTests w.passing ("-v".toList :: ms)).state.log =
      (w.allTests ms).flatMap passed) :
    visits (planModules w.passing ms (planTest w.passing) (initial w.passing)).log =
      (w.allTests ms).flatMap testings := by
  have hok : ¬ BuildFailed (runAllTests w.passing ("-v".toList :: ms)).state.log :=
    not_buildFailed_run (fun _ _ _ => rfl) _
  have hoptions : options w.passing ("-v".toList :: ms) = ⟨true, false, ms⟩ :=
    options_verbose hms hne
  have hplan : plan w.passing ("-v".toList :: ms) =
      (planModules w.passing ms (planTest w.passing) (initial w.passing)).log := by
    rw [plan, hoptions]
    rfl
  rw [acts_eq hok, visits_runAllTests hok, hplan] at h
  obtain ⟨vs, hvs, hkind⟩ := Body.adds_modules (B := testBody w.passing) (initial w.passing)
    (ms.flatMap (w.passing.expand (initial w.passing).cwd))
  have hnone : ∀ v ∈ visits (planModules w.passing ms (planTest w.passing)
      (initial w.passing)).log, v.isCleaning = false := by
    have hall : visits (planModules w.passing ms (planTest w.passing)
        (initial w.passing)).log = vs := hvs
    rw [hall]
    exact hkind
  rw [← map_visit_filterMap_act hnone, h, map_visit_passed]

/-- **Necessity**, by the run over modules by name in which all builds and tests succeed. -/
theorem ways_of_alwaysFailStop {ms : List Word} (hms : ∀ m ∈ ms, w.names m) (hne : ms ≠ [])
    (hnames : ∀ m ∈ ms, IsName m) (hhome : w.home ∈ w.allTests ms → ∀ m ∈ ms, Plain m)
    (halways : AlwaysFailStop w.toTree ms) :
    Ways w.toTree ms (w.allTests ms) ∧ (w.allTests ms).Nodup := by
  have hoptions : options w.passing ("-v".toList :: ms) = ⟨true, false, ms⟩ :=
    options_verbose hms hne
  have hstop : FailStop w.passing ("-v".toList :: ms) ms :=
    halways w.passing _ rfl rfl (by rw [hoptions])
  have hok : ¬ BuildFailed (runAllTests w.passing ("-v".toList :: ms)).state.log :=
    not_buildFailed_run (fun _ _ _ => rfl) _
  have hcomplete : acts (runAllTests w.passing ("-v".toList :: ms)).state.log =
      (w.allTests ms).flatMap passed := hstop.complete hok
  have hnodup : (w.allTests ms).Nodup := by
    rw [List.nodup_iff_count_eq_one]
    intro dir hdir
    rw [← (count_passed (w.allTests ms) dir).1, ← hcomplete]
    exact (hstop.once hok dir hdir).1
  refine ⟨?_, hnodup⟩
  -- `OLDPWD` is never one of the directories still to come
  refine ((testBody w.passing).ways_of_visits
    (K := fun old ps => (∀ q, old = some q → q ∉ ps) ∧ ps.Nodup ∧ ps ⊆ w.allTests ms)
    ?_ (below_testDirs hnames) ?_ (s := initial w.passing) rfl ?_
    (visits_of_complete hms hne hcomplete)).1
  · intro old p ps hold
    obtain ⟨_, hnodup, hsub⟩ := hold
    rw [List.nodup_cons] at hnodup
    rw [List.cons_subset] at hsub
    refine ⟨fun q hq => ?_, hnodup.2, hsub.2⟩
    cases hq
    exact hnodup.1
  · intro j hj old p ps hold harrived
    obtain ⟨hfresh, _, hsub⟩ := hold
    by_cases hp : w.home = p
    · have hplain := hhome (hp ▸ hsub List.mem_cons_self)
      refine harrived.way_of_slash (slash_mem_of_mem_loopWords w.toTree ?_ hj)
      exact fun m hm => ⟨hplain m hm, (hnames m hm).2.1⟩
    · exact harrived.way_of_fresh (fun hold => hfresh p hold List.mem_cons_self) hp
  · exact ⟨by simp [initial, World.passing, World.succeeding], hnodup, List.Subset.refl _⟩

/-- **When the fail-stop order holds** for all answers of builds and tests: where the loops
go round ways to different test directories, and of modules that are given by a name for no
others. -/
theorem failStop_iff {t : Tree} {ms : List Word} :
    (Ways t ms (t.allTests ms) ∧ (t.allTests ms).Nodup → AlwaysFailStop t ms) ∧
      (Ordinary t ms → AlwaysFailStop t ms →
        Ways t ms (t.allTests ms) ∧ (t.allTests ms).Nodup) := by
  constructor
  · rintro ⟨hways, hnodup⟩ w args rfl hhelp hms
    exact failStop_of_ways hhelp hms hways hnodup
  · rintro ⟨⟨w, args, rfl, _, rfl⟩, hnames, hhome⟩ halways
    exact ways_of_alwaysFailStop names_of_mem_options (modules_ne_nil w args) hnames hhome halways

/-- The repository with both modules selected. -/
theorem alwaysFailStop_checkout :
    AlwaysFailStop checkout.toTree ["Core".toList, "Network".toList] :=
  failStop_iff.1 ⟨by decide +kernel, by decide +kernel⟩

/-- A tree with the module `-x` and its test `t`. -/
def dashed : Tree.Directories where
  all := [[], ["-x".toList], ["-x".toList, "t".toList]]
  nodup := by decide
  isName := by decide
  closed := by decide

def dashedWorld : World := World.succeeding (Tree.ofDirectories dashed [] (by decide))

/-- `cd` takes `-x/t` for an option, and the build is made in the directory of the
script. -/
theorem not_failStop_dashed :
    ((options dashedWorld ["-x".toList]).Modules = ["-x".toList] ∧
      dashedWorld.isDirectory [] "-x".toList ∧ dashedWorld.enter ["-x".toList, "t".toList]) ∧
      ¬ FailStop dashedWorld ["-x".toList] ["-x".toList] := by
  refine ⟨⟨by decide +kernel, by decide +kernel, by decide +kernel⟩, ?_⟩
  intro hstop
  exact absurd (hstop.complete (not_buildFailed_run (fun _ _ _ => rfl) _)) (by decide +kernel)

end FrameworkTests.Runner
