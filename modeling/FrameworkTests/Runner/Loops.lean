import FrameworkTests.Runner.Modules
import FrameworkTests.Runner.Plan
import Mathlib.Data.List.Forall2

/-!
# The test directories a plan visits

The rebuild loop and the build and run loop go round the same words and owe visits to
the same test directories.  They are one argument, about a `Body`: what a round has to
do in a test directory, and what follows when it did so.

`Ways` is a condition on the tree and the words alone.  Where it holds the plan makes
the visits that are due (`Body.visits_of_ways`); and a plan that makes them found its
way to every one of these directories (`Body.ways_of_visits`), because a round that
arrives where it should returns to where the next one begins.

## Main definitions

* `Visit`, `visits log` — what the log says was done in which directory.
* `loopDirs Modules` — the directories that the loops go round.
* `Way t j p` — the word `j` leads to the test directory `p`, and back.
* `Ways t Modules ps` — what the loops go round are ways to the directories `ps`.
* `Body` — the body of a loop, with the visits that are due.
-/

namespace FrameworkTests.Runner

/-! ### Visits -/

/-- What is done in a directory. -/
inductive Visit where
  | cleaned (dir : Path)
  | removed (dir : Path)
  | built (dir : Path)
  | ran (dir : Path) (command : List Word)
  deriving DecidableEq

/-- A visit of the rebuild loop. -/
def Visit.isCleaning : Visit → Bool
  | cleaned _ | removed _ => true
  | built _ | ran _ _ => false

def Entry.visit (e : Entry) : Option Visit :=
  match e.deed with
  | .makeClean => some (.cleaned e.dir)
  | .rm _ => some (.removed e.dir)
  | .make _ => some (.built e.dir)
  | .run command _ => some (.ran e.dir command)
  | .round | .echo _ => none

/-- The visits a log tells of. -/
def visits (log : Log) : List Visit := log.filterMap Entry.visit

/-- What a rebuild owes to a test directory. -/
def cleanings (dir : Path) : List Visit := [.cleaned dir, .removed dir]

/-- What every run owes to a test directory: it is built, and its test is run. -/
def testings (dir : Path) : List Visit := [.built dir, .ran dir [testBinary dir]]

/-! ### Words and ways -/

/-- What the loops over the modules go round in the directory of the script. -/
def Tree.loopWords (t : Tree) (Modules : List Word) : List Word :=
  (Modules.flatMap (t.expand t.start)).flatMap fun i => t.expand t.start (i ++ "/*".toList)

/-- The directories among them. -/
def Tree.loopDirs (t : Tree) (Modules : List Word) : List Word :=
  (t.loopWords Modules).filter (t.isDirectory t.start)

/-- The word `j` leads into the test directory `p` and back, and the test is run by the
name of the directory. -/
structure Way (t : Tree) (j : Word) (p : Path) : Prop extends Leads t j p where
  command : t.expand p (binary t p ((t.expand p j).headD [])) = [testBinary p]

instance (t : Tree) (j : Word) (p : Path) : Decidable (Way t j p) :=
  decidable_of_iff
    (Leads t j p ∧ t.expand p (binary t p ((t.expand p j).headD [])) = [testBinary p])
    ⟨fun h => ⟨h.1, h.2⟩, fun h => ⟨h.toLeads, h.command⟩⟩

/-- One after the other, the directories that the loops over `Modules` go round are ways
to the directories `ps`. -/
def Ways (t : Tree) (Modules : List Word) (ps : List Path) : Prop :=
  List.Forall₂ (Way t) (t.loopDirs Modules) ps

instance (t : Tree) (Modules : List Word) (ps : List Path) : Decidable (Ways t Modules ps) :=
  inferInstanceAs (Decidable (List.Forall₂ _ _ _))

variable {w : World}

/-! ### Visits of a round -/

/-- Answers make no difference to the visits. -/
@[simp] theorem visit_asked (e : Entry) : e.asked.visit = e.visit := by
  rcases e with ⟨j, dir, deed⟩
  cases deed <;> rfl

theorem visits_map_asked (log : Log) : visits (log.map Entry.asked) = visits log := by
  rw [visits, List.filterMap_map]
  exact List.filterMap_congr fun e _ => visit_asked e

/-- Asking goes along the visits, to their end unless a build fails. -/
theorem visits_ask (w : World) (V : Bool) (es : List Entry) :
    visits (ask w V [] es) <+: visits es ∧
      (¬ BuildFailed (ask w V [] es) → visits (ask w V [] es) = visits es) := by
  obtain ⟨own, hown, hpart, hall⟩ := asked_ask w V [] es
  rw [List.nil_append] at hown
  rw [hown, ← visits_map_asked own, ← visits_map_asked es]
  exact ⟨hpart.filterMap _, fun hok => congrArg visits (hall hok)⟩

/-- The last entry is the last one asked, unless a build fails. -/
theorem getLast_ask {V : Bool} {es : List Entry} (h : ¬ BuildFailed (ask w V [] es)) :
    (ask w V [] es).getLast?.bind Entry.visit = es.getLast?.bind Entry.visit := by
  obtain ⟨own, hown, -, hall⟩ := asked_ask w V [] es
  rw [List.nil_append] at hown
  rw [hown] at h ⊢
  have hlast := congrArg (fun log : Log => log.getLast?.bind Entry.visit) (hall h)
  simpa [Option.bind_map, Function.comp_def] using hlast

/-- A run without a failed build makes the visits of its plan. -/
theorem visits_runAllTests {args : List Word}
    (h : ¬ BuildFailed (runAllTests w args).state.log) :
    visits (runAllTests w args).state.log = visits (plan w args) := by
  rcases log_runAllTests w args with ⟨hok, hlog⟩ | hstops
  · rw [hlog]
    exact (visits_ask w _ _).2 hok
  · obtain ⟨pre, j, dir, name, status, hstatus, hlog, hlog'⟩ := hstops
    refine absurd ?_ h
    rw [hlog', hlog]
    simp [Deed.isFailedBuild, hstatus]

theorem visit_eq_built {e : Entry} {dir : Path} :
    e.visit = some (.built dir) ↔ ∃ status, e.deed = .make status ∧ e.dir = dir := by
  rcases e with ⟨j, d, deed⟩
  cases deed <;> simp [Entry.visit]

theorem visit_eq_ran {e : Entry} {dir : Path} {command : List Word} :
    e.visit = some (.ran dir command) ↔
      ∃ result, e.deed = .run command result ∧ e.dir = dir := by
  rcases e with ⟨j, d, deed⟩
  cases deed <;> simp [Entry.visit, and_comm]

/-- Where a visit was made. -/
theorem exists_of_mem_visits {log : Log} {v : Visit} (h : v ∈ visits log) :
    ∃ pre e post, log = pre ++ e :: post ∧ e.visit = some v := by
  obtain ⟨e, he, hvisit⟩ := List.mem_filterMap.mp h
  obtain ⟨pre, post, hlog⟩ := List.append_of_mem he
  exact ⟨pre, e, post, hlog, hvisit⟩

@[simp] theorem visits_append (log log' : Log) : visits (log ++ log') = visits log ++ visits log' :=
  List.filterMap_append

@[simp] theorem visits_beginning (s : Shell) (j : Word) :
    visits (s.beginning j).log = visits s.log := by
  simp [visits, Entry.visit]

theorem visits_planClean (s : Shell) : visits (planClean w s).log =
    visits s.log ++ [.cleaned (cleaning w s).cwd, .removed (cleaning w s).cwd] := by
  rw [planClean, Shell.log_moved, log_cleaned, log_cleaning_note]
  simp [visits, Entry.visit]

theorem visits_planTest (s : Shell) : visits (planTest w s).log = visits s.log ++
    [.built (building w s).cwd,
      .ran (testing w (built w s)).cwd (testCommand w (built w s))] := by
  rw [planTest, log_leave, Shell.log_note, log_testing, log_built, log_building]
  simp [visits, Entry.visit, List.filterMap_cons]

/-- Another directory is only reached by a `cd` that succeeds, and that one it left is
remembered. -/
theorem cd_of_cwd_moved {s : Shell} {ws : List Word} {p : Path} (h : (s.moved w ws).cwd = p)
    (hp : p ≠ s.cwd) : w.cd s.oldpwd s.cwd ws = .ok p ∧ (s.moved w ws).oldpwd = some s.cwd := by
  cases hcd : w.cd s.oldpwd s.cwd ws with
  | ok q =>
      simp only [Shell.moved, hcd] at h ⊢
      rw [h]
      exact ⟨rfl, trivial⟩
  | error n =>
      simp only [Shell.moved, hcd] at h
      exact absurd h.symm hp

/-! ### The bodies of the two loops -/

/-- The body of a loop by its plan.  A round on a way to a test directory arrives there
and returns home; and a round that makes the visits due to a directory two levels down
has returned home, and says something about its word. -/
structure Body (w : World) where
  run : Shell → Shell
  due : Path → List Visit
  isCleaning : Bool
  /-- What is learnt from a round over a word by which `OLDPWD` it arrived. -/
  Learnt : Option Path → Word → Path → Prop
  length_due : ∀ p, (due p).length = 2
  goes : ∀ s, ∃ vs, visits (run s).log = visits s.log ++ vs ∧ vs.length = 2 ∧
    ∀ v ∈ vs, v.isCleaning = isCleaning
  arrives : ∀ s p, s.cwd = w.start → Way w.toTree s.j p →
    (run s).cwd = w.start ∧ visits (run s).log = visits s.log ++ due p
  returns : ∀ s p, s.cwd = w.start → p ≠ w.start → p.dropLast.dropLast = w.start →
    visits (run s).log = visits s.log ++ due p →
      Learnt s.oldpwd s.j p ∧ (run s).cwd = w.start ∧ (run s).oldpwd = some p

/-- From a directory two levels down that was reached by `cd`, `../..` leads home. -/
theorem moved_up {s : Shell} {p : Path} (hp : s.cwd = p) (henter : w.enter p)
    (hne : p ≠ w.start) (hup : p.dropLast.dropLast = w.start) :
    (s.moved w ["../..".toList]).cwd = w.start ∧
      (s.moved w ["../..".toList]).oldpwd = some p := by
  have hcwd : (s.moved w ["../..".toList]).cwd = w.start := by
    rw [Shell.cwd_moved_up (hp ▸ henter), hp, hup]
  have hold := (cd_of_cwd_moved hcwd (hp ▸ hne.symm)).2
  exact ⟨hcwd, hp ▸ hold⟩

/-- The rebuild loop. -/
def cleanBody (w : World) : Body w where
  run := planClean w
  due := cleanings
  isCleaning := true
  Learnt _ _ _ := True
  length_due _ := rfl
  goes s := ⟨_, visits_planClean s, rfl, by simp [Visit.isCleaning]⟩
  arrives := by
    intro s p hs hway
    refine ⟨hway.cwd_cleaned_up hs, ?_⟩
    rw [visits_planClean, hway.cwd_cleaning hs]
    rfl
  returns := by
    intro s p hs hne hup hvisits
    rw [visits_planClean, List.append_cancel_left_eq] at hvisits
    have hp : (cleaning w s).cwd = p := by simpa [cleanings] using hvisits
    have henter := w.enter_of_cd (cd_of_cwd_moved hp (hs ▸ hne)).1
    exact ⟨trivial, moved_up hp henter hne hup⟩

/-- By this word and this `OLDPWD`, a build and run round arrives in `p`. -/
structure Arrived (t : Tree) (old : Option Path) (j : Word) (p : Path) : Prop where
  builds : t.cd old t.start [(t.expand t.start j).headD []] = .ok p
  runs : t.cd (some p) t.start (t.expand t.start j) = .ok p
  returns : p.dropLast.dropLast = t.start
  command : t.expand p (binary t p ((t.expand p j).headD [])) = [testBinary p]

/-- The command by which a test is run in `p`. -/
theorem testCommand_of_cwd {s : Shell} {p : Path} (hp : (testing w s).cwd = p) :
    testCommand w s = w.expand p (binary w.toTree p ((w.expand p s.j).headD [])) := by
  have hj : (testing w s).j = s.j := by simp [testing]
  rw [testCommand, firstArg, hp, hj]

/-- The build and run loop. -/
def testBody (w : World) : Body w where
  run := planTest w
  due := testings
  isCleaning := false
  Learnt := Arrived w.toTree
  length_due _ := rfl
  goes s := ⟨_, visits_planTest s, rfl, by simp [Visit.isCleaning]⟩
  arrives := by
    intro s p hs hway
    have htesting := hway.cwd_testing hs
    refine ⟨hway.cwd_built hs, ?_⟩
    rw [visits_planTest, hway.cwd_building hs, htesting, testCommand_of_cwd htesting, j_built,
      hway.command]
    rfl
  returns := by
    intro s p hs hne hup hvisits
    rw [visits_planTest, List.append_cancel_left_eq] at hvisits
    obtain ⟨hp, hq, hcommand⟩ : (building w s).cwd = p ∧ (testing w (built w s)).cwd = p ∧
        testCommand w (built w s) = [testBinary p] := by
      simpa [testings] using hvisits
    have hbuild := (cd_of_cwd_moved (s := s) hp (hs ▸ hne)).1
    obtain ⟨hcwd, hold⟩ := moved_up (s := (building w s).note (.make 0)) hp
      (w.enter_of_cd hbuild) hne hup
    have hcwd' : (built w s).cwd = w.start := hcwd
    have hold' : (built w s).oldpwd = some p := hold
    have hrun := (cd_of_cwd_moved (s := built w s) hq (hcwd' ▸ hne)).1
    rw [testCommand_of_cwd hq, j_built] at hcommand
    refine ⟨⟨?_, ?_, hup, hcommand⟩, hcwd, hold⟩
    · rw [firstArg, hs] at hbuild
      exact hbuild
    · rw [hcwd', hold', j_built] at hrun
      exact hrun

/-- The directories are two levels down. -/
def Below (w : World) (ps : List Path) : Prop :=
  ∀ p ∈ ps, p ≠ w.start ∧ p.dropLast.dropLast = w.start

namespace Body

variable (B : Body w)

/-! ### What the loops add -/

/-- The loop has added visits of its kind. -/
def Adds (s s' : Shell) : Prop :=
  ∃ vs, visits s'.log = visits s.log ++ vs ∧ ∀ v ∈ vs, v.isCleaning = B.isCleaning

variable {B}

theorem Adds.refl (s : Shell) : B.Adds s s := ⟨[], by simp, by simp⟩

theorem Adds.trans {s s' s'' : Shell} (h : B.Adds s s') (h' : B.Adds s' s'') : B.Adds s s'' := by
  obtain ⟨vs, hvs, hkind⟩ := h
  obtain ⟨vs', hvs', hkind'⟩ := h'
  refine ⟨vs ++ vs', by rw [hvs', hvs, List.append_assoc], ?_⟩
  rw [List.forall_mem_append]
  exact ⟨hkind, hkind'⟩

theorem Adds.isPrefix {s s' : Shell} (h : B.Adds s s') : visits s.log <+: visits s'.log := by
  obtain ⟨vs, hvs, -⟩ := h
  exact ⟨vs, hvs.symm⟩

theorem adds_round (s : Shell) (j : Word) : B.Adds s (planRound w B.run s j) := by
  rw [planRound]
  split
  · obtain ⟨vs, hvs, _, hkind⟩ := B.goes (s.beginning j)
    exact ⟨vs, by rw [hvs, visits_beginning], hkind⟩
  · exact ⟨[], by rw [visits_beginning, List.append_nil], by simp⟩

theorem adds_rounds (s : Shell) (js : List Word) : B.Adds s (js.foldl (planRound w B.run) s) :=
  List.foldlRecOn js _ (Adds.refl s) fun _ h j _ => h.trans (adds_round _ j)

theorem adds_modules (s : Shell) (is : List Word) : B.Adds s (is.foldl (planTests w B.run) s) :=
  List.foldlRecOn is _ (Adds.refl s) fun _ h _ _ => h.trans (adds_rounds _ _)

/-! ### On ways to the test directories -/

/-- A loop at home, over words that are ways to `ps`. -/
theorem arrives_rounds {js : List Word} {ps : List Path} {s : Shell} (hs : s.cwd = w.start)
    (h : List.Forall₂ (Way w.toTree) (js.filter (w.isDirectory w.start)) ps) :
    (js.foldl (planRound w B.run) s).cwd = w.start ∧
      visits (js.foldl (planRound w B.run) s).log = visits s.log ++ ps.flatMap B.due := by
  induction js generalizing s ps with
  | nil =>
      rw [List.filter_nil, List.forall₂_nil_left_iff] at h
      subst h
      exact ⟨hs, by simp⟩
  | cons j js ih =>
      rw [List.foldl_cons, planRound, hs]
      cases hdir : w.isDirectory w.start j with
      | true =>
          rw [List.filter_cons_of_pos hdir, List.forall₂_cons_left_iff] at h
          obtain ⟨p, ps, hway, hways, rfl⟩ := h
          obtain ⟨hhome, hvisits⟩ := B.arrives (s.beginning j) p hs hway
          obtain ⟨hcwd, hrest⟩ := ih hhome hways
          refine ⟨hcwd, ?_⟩
          rw [if_pos rfl, hrest, hvisits, visits_beginning, List.flatMap_cons, List.append_assoc]
      | false =>
          rw [List.filter_cons_of_neg (by simp [hdir])] at h
          obtain ⟨hcwd, hrest⟩ := ih (s := s.beginning j) hs h
          refine ⟨hcwd, ?_⟩
          rw [if_neg (by simp), hrest, visits_beginning]

private theorem forall₂_append_left {α β : Type*} {R : α → β → Prop} {xs ys : List α}
    {zs : List β} (h : List.Forall₂ R (xs ++ ys) zs) :
    ∃ us vs, zs = us ++ vs ∧ List.Forall₂ R xs us ∧ List.Forall₂ R ys vs := by
  induction xs generalizing zs with
  | nil => exact ⟨[], zs, rfl, .nil, h⟩
  | cons x xs ih =>
      obtain ⟨z, zs, hz, hzs, rfl⟩ := List.forall₂_cons_left_iff.mp h
      obtain ⟨us, vs, rfl, hus, hvs⟩ := ih hzs
      exact ⟨z :: us, vs, rfl, .cons hz hus, hvs⟩

/-- The loops over the modules are one loop over their words. -/
theorem foldl_planTests {is : List Word} {ps : List Path} {s : Shell} (hs : s.cwd = w.start)
    (h : List.Forall₂ (Way w.toTree) ((is.flatMap fun i =>
      w.expand w.start (i ++ "/*".toList)).filter (w.isDirectory w.start)) ps) :
    is.foldl (planTests w B.run) s =
      (is.flatMap fun i => w.expand w.start (i ++ "/*".toList)).foldl (planRound w B.run) s := by
  induction is generalizing s ps with
  | nil => rfl
  | cons i is ih =>
      rw [List.flatMap_cons, List.filter_append] at h
      obtain ⟨ps, qs, rfl, hps, hqs⟩ := forall₂_append_left h
      rw [List.foldl_cons, List.flatMap_cons, List.foldl_append, planTests, hs]
      exact ih (arrives_rounds (B := B) hs hps).1 hqs

theorem planModules_of_ways {Modules : List Word} {ps : List Path} {s : Shell}
    (hs : s.cwd = w.start) (h : Ways w.toTree Modules ps) :
    planModules w Modules B.run s = (w.loopWords Modules).foldl (planRound w B.run) s := by
  rw [planModules, hs]
  exact foldl_planTests hs h

/-- **On ways to the test directories** the loops make the visits that are due to them,
and end at home. -/
theorem visits_of_ways {Modules : List Word} {ps : List Path} {s : Shell} (hs : s.cwd = w.start)
    (h : Ways w.toTree Modules ps) :
    (planModules w Modules B.run s).cwd = w.start ∧
      visits (planModules w Modules B.run s).log = visits s.log ++ ps.flatMap B.due := by
  rw [planModules_of_ways hs h]
  exact arrives_rounds hs h

/-- The last round begins at home too. -/
theorem exists_last_round {Modules : List Word} {ps : List Path} {s : Shell}
    (hs : s.cwd = w.start) (h : Ways w.toTree Modules ps) {js : List Word} {j : Word}
    (hwords : w.loopWords Modules = js ++ [j]) :
    ∃ t : Shell, t.cwd = w.start ∧ planModules w Modules B.run s = planRound w B.run t j := by
  rw [planModules_of_ways hs h, hwords, List.foldl_append]
  rw [Ways, Tree.loopDirs, hwords, List.filter_append] at h
  obtain ⟨us, vs, -, hus, -⟩ := forall₂_append_left h
  exact ⟨_, (arrives_rounds (B := B) hs hus).1, rfl⟩

/-! ### Back from the visits to the ways -/

section Back

-- `K` is what is known of `OLDPWD` and of the directories still to come, and `G` what
-- this makes of a round that arrived.
variable {K : Option Path → List Path → Prop} {G : Word → Path → Prop} {words : List Word}
  (hold : ∀ old p ps, K old (p :: ps) → K (some p) ps)
  (hlearnt : ∀ j ∈ words, ∀ old p ps, K old (p :: ps) → B.Learnt old j p → G j p)

/-- A loop over `js` made the first of the visits due to `ps`, and `qs` are left. -/
structure Made (B : Body w) (K : Option Path → List Path → Prop) (G : Word → Path → Prop)
    (js : List Word) (ps qs : List Path) (s s' : Shell) : Prop where
  ways : List.Forall₂ G (js.filter (w.isDirectory w.start)) ps
  old : K s'.oldpwd qs
  home : s'.cwd = w.start
  visits_eq : visits s'.log = visits s.log ++ ps.flatMap B.due

include hold hlearnt

omit hold hlearnt in
/-- The two visits of a round, as the first of those due. -/
theorem exists_due {vs : List Visit} (hlen : vs.length = 2) {ps : List Path}
    (h : vs <+: ps.flatMap B.due) : ∃ p qs, ps = p :: qs ∧ vs = B.due p := by
  cases ps with
  | nil =>
      rw [List.flatMap_nil, List.prefix_nil] at h
      simp [h] at hlen
  | cons p ps =>
      have hfirst : B.due p <+: (p :: ps).flatMap B.due := ⟨ps.flatMap B.due, rfl⟩
      have hlens : vs.length = (B.due p).length := hlen.trans (B.length_due p).symm
      have hdue := (List.prefix_of_prefix_length_le h hfirst hlens.le).eq_of_length hlens
      exact ⟨p, ps, rfl, hdue⟩

/-- **One round** over a directory, whose visits are the first of those due. -/
theorem made_round {j : Word} (hj : j ∈ words) {ps : List Path} (hps : Below w ps) {s : Shell}
    (hs : s.cwd = w.start) (holds : K s.oldpwd ps)
    (h : visits (B.run (s.beginning j)).log <+: visits s.log ++ ps.flatMap B.due) :
    ∃ p qs, ps = p :: qs ∧ G j p ∧ (B.run (s.beginning j)).cwd = w.start ∧
      K (B.run (s.beginning j)).oldpwd qs ∧
      visits (B.run (s.beginning j)).log = visits s.log ++ B.due p := by
  obtain ⟨vs, hvs, hlen, -⟩ := B.goes (s.beginning j)
  rw [hvs, visits_beginning, List.prefix_append_right_inj] at h
  obtain ⟨p, qs, rfl, rfl⟩ := B.exists_due hlen h
  rw [Below, List.forall_mem_cons] at hps
  obtain ⟨hgot, hhome, hleft⟩ := B.returns (s.beginning j) p hs hps.1.1 hps.1.2 hvs
  rw [visits_beginning] at hvs
  exact ⟨p, qs, rfl, hlearnt j hj _ p _ holds hgot, hhome, hleft ▸ hold _ p qs holds, hvs⟩

/-- A loop at home whose visits are the first of those due. -/
theorem made_rounds {js : List Word} (hjs : js ⊆ words) {ps : List Path} (hps : Below w ps)
    {s : Shell} (hs : s.cwd = w.start) (holds : K s.oldpwd ps)
    (h : visits (js.foldl (planRound w B.run) s).log <+: visits s.log ++ ps.flatMap B.due) :
    ∃ us vs, ps = us ++ vs ∧ Made B K G js us vs s (js.foldl (planRound w B.run) s) := by
  induction js generalizing s ps with
  | nil => exact ⟨[], ps, rfl, .nil, holds, hs, by simp⟩
  | cons j js ih =>
      rw [List.cons_subset] at hjs
      have hadds := adds_rounds (B := B) (planRound w B.run s j) js
      rw [List.foldl_cons] at h ⊢
      rw [planRound, hs] at h hadds ⊢
      cases hdir : w.isDirectory w.start j with
      | false =>
          rw [hdir, if_neg (by simp), ← visits_beginning s j] at h
          rw [if_neg (by simp)]
          obtain ⟨us, vs, rfl, hmade⟩ := ih hjs.2 hps (s := s.beginning j) hs holds h
          refine ⟨us, vs, rfl, ?_, hmade.old, hmade.home, ?_⟩
          · rw [List.filter_cons_of_neg (by simp [hdir])]
            exact hmade.ways
          · rw [hmade.visits_eq, visits_beginning]
      | true =>
          rw [hdir, if_pos rfl] at h hadds
          rw [if_pos rfl]
          obtain ⟨p, ps, rfl, hgot, hhome, hleft, hvisits⟩ :=
            made_round hold hlearnt hjs.1 hps hs holds (hadds.isPrefix.trans h)
          have hrest : visits (js.foldl (planRound w B.run) (B.run (s.beginning j))).log <+:
              visits (B.run (s.beginning j)).log ++ ps.flatMap B.due := by
            rwa [hvisits, List.append_assoc]
          have hbelow : Below w ps := fun p hp => hps p (List.mem_cons_of_mem _ hp)
          obtain ⟨us, vs, rfl, hmade⟩ := ih hjs.2 hbelow hhome hleft hrest
          refine ⟨p :: us, vs, rfl, ?_, hmade.old, hmade.home, ?_⟩
          · rw [List.filter_cons_of_pos hdir]
            exact .cons hgot hmade.ways
          · rw [hmade.visits_eq, hvisits, List.flatMap_cons, List.append_assoc]

/-- The loops over the modules, whose visits are the first of those due. -/
theorem made_modules {is : List Word}
    (his : (is.flatMap fun i => w.expand w.start (i ++ "/*".toList)) ⊆ words)
    {ps : List Path} (hps : Below w ps) {s : Shell} (hs : s.cwd = w.start)
    (holds : K s.oldpwd ps)
    (h : visits (is.foldl (planTests w B.run) s).log <+: visits s.log ++ ps.flatMap B.due) :
    ∃ us vs, ps = us ++ vs ∧
      Made B K G (is.flatMap fun i => w.expand w.start (i ++ "/*".toList)) us vs s
        (is.foldl (planTests w B.run) s) := by
  induction is generalizing s ps with
  | nil => exact ⟨[], ps, rfl, .nil, holds, hs, by simp⟩
  | cons i is ih =>
      rw [List.flatMap_cons, List.append_subset] at his
      have hadds := adds_modules (B := B) (planTests w B.run s i) is
      rw [List.foldl_cons] at h ⊢
      rw [planTests, hs] at h hadds ⊢
      obtain ⟨us, vs, rfl, hfirst⟩ := made_rounds hold hlearnt his.1 hps hs holds
        (hadds.isPrefix.trans h)
      have hvs : Below w vs := fun p hp => hps p (List.mem_append_right us hp)
      rw [List.flatMap_append, ← List.append_assoc, ← hfirst.visits_eq] at h
      obtain ⟨us', vs', rfl, hrest⟩ := ih his.2 hvs hfirst.home hfirst.old h
      refine ⟨us ++ us', vs', (List.append_assoc ..).symm, ?_, hrest.old, hrest.home, ?_⟩
      · rw [List.flatMap_cons, List.filter_append]
        exact List.rel_append hfirst.ways hrest.ways
      · rw [hrest.visits_eq, hfirst.visits_eq, List.flatMap_append, List.append_assoc]

omit hlearnt in
/-- **Back from the visits**: loops that begin at home and make exactly the visits due
to `ps` learn of every directory they go round how it leads to one of these. -/
theorem ways_of_visits {Modules : List Word} {ps : List Path} (hps : Below w ps)
    (hlearnt : ∀ j ∈ w.loopWords Modules, ∀ old p ps, K old (p :: ps) → B.Learnt old j p → G j p)
    {s : Shell} (hs : s.cwd = w.start) (holds : K s.oldpwd ps)
    (h : visits (planModules w Modules B.run s).log = visits s.log ++ ps.flatMap B.due) :
    List.Forall₂ G (w.loopDirs Modules) ps ∧ (planModules w Modules B.run s).cwd = w.start := by
  rw [planModules, hs] at h ⊢
  obtain ⟨us, vs, rfl, hmade⟩ := made_modules hold hlearnt (List.Subset.refl _) hps hs holds
    (h ▸ List.prefix_rfl)
  have hnone : vs = [] := by
    have hvisits := hmade.visits_eq
    rw [h, List.append_cancel_left_eq, List.flatMap_append, List.append_right_eq_self,
      List.flatMap_eq_nil_iff] at hvisits
    refine List.eq_nil_iff_forall_not_mem.mpr ?_
    intro p hp
    have hlen := B.length_due p
    simp [hvisits p hp] at hlen
  subst hnone
  rw [List.append_nil]
  exact ⟨hmade.ways, hmade.home⟩

end Back

end Body

end FrameworkTests.Runner
