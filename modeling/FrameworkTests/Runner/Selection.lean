import FrameworkTests.Runner.Loops

/-!
# Which test directories a run covers

Every test directory of the selected modules should be visited once, in the order of
the arguments and of expansion: cleaned first if a rebuild is asked for, then built
and run.  `covered_iff` is about runs without a failing build.  They cover the
selected modules where what the loops go round are `Ways` to their test directories;
and modules that are given by a name are only covered there.

Without a named module the loops go round `Core` alone, the first known module, so
that there are no ways to the test directories of `Network`.  With `..` for a module a
run that lost its way may still come right: started in `/a` it goes on in `/`, where
`../n` is the same directory.

## Main definitions

* `expected rebuild ps` — the visits that are due to the directories `ps`.
* `Covered w args` — a run makes the visits that are due.
* `Asked w args` — what is asked of the arguments, the modules and the builds.
-/

namespace FrameworkTests.Runner

open Command Run

/-- The visits that are due to test directories: all are cleaned if a rebuild is asked
for, and then each is built and run. -/
def expected (rebuild : Bool) (ps : List Path) : List Visit :=
  (if rebuild then ps.flatMap cleanings else []) ++ ps.flatMap testings

/-- An `rm` gets what `find` prints. -/
def Removes (w : World) (log : Log) (e : Entry) : Prop :=
  match e.deed with
  | .rm operands => operands = found w log e.dir
  | _ => True

/-- What `find` prints for an `rm` are words. -/
def RemovesWords (w : World) (log : Log) (e : Entry) : Prop :=
  match e.deed with
  | .rm _ => FoundWords w log e.dir
  | _ => True

/-- **Coverage**: the run visits the test directories of the selected modules, and where
it cleans them it removes what `find` prints. -/
structure Covered (w : World) (args : List Word) : Prop where
  visits_eq : visits (runAllTests w args).state.log =
    expected (args.any isRebuild) (testDirs w args)
  removes : Throughout (Removes w) (runAllTests w args).state.log

instance (w : World) (log : Log) : ∀ e, Decidable (RemovesWords w log e)
  | ⟨_, dir, .rm _⟩ => inferInstanceAs (Decidable (FoundWords w log dir))
  | ⟨_, _, .round⟩ | ⟨_, _, .echo _⟩ | ⟨_, _, .makeClean⟩ | ⟨_, _, .make _⟩ | ⟨_, _, .run _ _⟩ =>
      inferInstanceAs (Decidable True)

variable {w : World}

/-! ### The operands of `rm` -/

section Operands

-- what holds of every entry but an `rm`, and of an `rm` over what `find` prints
variable {Q : Log → Entry → Prop}
  (hrm : ∀ log j dir, Q log ⟨j, dir, .rm ((found w log dir).flatMap (w.expand dir))⟩)
  (hother : ∀ log e, (∀ operands, e.deed ≠ .rm operands) → Q log e)
include hother

theorem throughout_note {log : Log} {e : Entry} (h : Throughout Q log)
    (he : ∀ operands, e.deed ≠ .rm operands) : Throughout Q (log ++ [e]) :=
  throughout_concat.mpr ⟨h, hother log e he⟩

theorem throughout_buildAndRun (V : Bool) {s : Shell} (hs : Throughout Q s.log) :
    Throughout Q (buildAndRun w V s).state.log := by
  have hbuilding : Throughout Q (building w s).log := by
    rw [log_building]
    exact throughout_note hother hs (by simp)
  by_cases hstatus : buildStatus w V s = 0
  · rw [buildAndRun_of_built w hstatus, Outcome.state_done, log_tested, log_testing, log_built]
    have hbuilt := throughout_note hother hbuilding (e := ⟨s.j, (building w s).cwd, .make 0⟩)
      (by simp)
    exact throughout_note hother (throughout_note hother hbuilt (by simp)) (by simp)
  · rw [buildAndRun_of_failed w hstatus, Outcome.state_exit, log_failed]
    exact throughout_note hother (throughout_note hother hbuilding (by simp)) (by simp)

theorem throughout_round {c : Command Shell}
    (hc : ∀ s, Throughout Q s.log → Throughout Q (c s).state.log) (j : Word) :
    Triple (fun s => Throughout Q s.log) (round w c j) (fun _ s => Throughout Q s.log)
      fun _ s => Throughout Q s.log := by
  intro s hs
  have hbegin : Throughout Q (s.beginning j).log := throughout_note hother hs (by simp)
  refine Outcome.holds_same.mpr ?_
  rw [round_apply]
  split
  · exact hc _ hbegin
  · exact hbegin

include hrm

theorem throughout_cleanTest {s : Shell} (hs : Throughout Q s.log) :
    Throughout Q (cleanTest w s).state.log := by
  obtain ⟨n, happly⟩ := cleanTest_apply w s
  rw [happly, Outcome.state_done, Shell.log_moved, log_cleaned, log_cleaning_note]
  exact throughout_concat.mpr ⟨throughout_note hother hs (by simp), hrm _ _ _⟩

/-- Whatever holds of every entry but an `rm`, and of an `rm` over what `find` prints,
holds of every run. -/
theorem throughout_runAllTests (args : List Word) :
    Throughout Q (runAllTests w args).state.log := by
  rw [runAllTests]
  split
  · rw [usage_apply]
    refine throughout_nil.append_of_forall ?_
    intro e he log
    obtain ⟨text, _, rfl⟩ := List.mem_map.mp he
    exact hother _ _ (by simp)
  · have hclean := throughout_round (w := w) (c := cleanTest w) hother
      fun _ hs => throughout_cleanTest hrm hother hs
    have hbuild := throughout_round (w := w) (c := buildAndRun w (options w args).Verbose) hother
      fun _ hs => throughout_buildAndRun hother _ hs
    have hrun := triple_runModules (o := options w args) hclean (triple_forModules hbuild _)
    exact Outcome.holds_same.mp (hrun (initial w) throughout_nil)

end Operands

private theorem flatMap_eq_self_iff {α : Type*} {f : α → List α} {xs : List α}
    (h : ∀ x ∈ xs, f x ≠ []) : xs.flatMap f = xs ↔ ∀ x ∈ xs, f x = [x] := by
  have hlength : ∀ ys : List α, (∀ x ∈ ys, f x ≠ []) → ys.length ≤ (ys.flatMap f).length := by
    intro ys
    induction ys with
    | nil => simp
    | cons y ys ih =>
        intro hys
        rw [List.forall_mem_cons] at hys
        have hpos := List.length_pos_iff.mpr hys.1
        have hrest := ih hys.2
        simp only [List.flatMap_cons, List.length_append, List.length_cons]
        omega
  induction xs with
  | nil => simp
  | cons x xs ih =>
      rw [List.forall_mem_cons] at h
      have hiff : xs.flatMap f = xs ↔ ∀ x ∈ xs, f x = [x] := ih h.2
      obtain ⟨y, ys, hy⟩ := List.exists_cons_of_ne_nil h.1
      rw [List.forall_mem_cons, List.flatMap_cons, hy, ← hiff]
      constructor
      · intro heq
        rw [List.cons_append] at heq
        obtain ⟨rfl, hrest⟩ := List.cons_eq_cons.mp heq
        have hlen := congrArg List.length hrest
        have hle := hlength xs h.2
        rw [List.length_append] at hlen
        have hys : ys = [] := List.eq_nil_of_length_eq_zero (by omega)
        subst hys
        exact ⟨rfl, hrest⟩
      · rintro ⟨heq, hrest⟩
        obtain ⟨rfl, rfl⟩ := List.cons_eq_cons.mp heq
        rw [hrest]
        rfl

/-- Expanding what `find` prints leaves it alone when it consists of words. -/
theorem foundWords_iff (log : Log) (dir : Path) : FoundWords w log dir ↔
    (found w log dir).flatMap (w.expand dir) = found w log dir := by
  refine (flatMap_eq_self_iff ?_).symm
  intro file hfile
  obtain ⟨path, _, rfl⟩ := List.mem_map.mp hfile
  exact w.expand_ne_nil ⟨'.', by simp, rfl⟩

/-- A run removes what `find` prints if these are words. -/
theorem removes_iff (args : List Word) :
    Throughout (Removes w) (runAllTests w args).state.log ↔
      Throughout (RemovesWords w) (runAllTests w args).state.log := by
  refine throughout_congr (throughout_runAllTests ?_ ?_ args)
  · intro log j dir
    exact (foundWords_iff log dir).symm
  · intro log e he
    rcases e with ⟨j, dir, deed⟩
    cases deed with
    | rm operands => exact absurd rfl (he operands)
    | _ => exact Iff.rfl

/-! ### The plan -/

/-- A plan on ways to the directories `ps` makes the visits expected of them. -/
theorem visits_plan_of_ways {o : Options} {ps : List Path} (h : Ways w.toTree o.Modules ps) :
    visits (planLoops w o (initial w)).log = expected o.Rebuild ps := by
  rw [planLoops, expected]
  by_cases hrebuild : o.Rebuild
  · rw [if_pos hrebuild, if_pos hrebuild]
    obtain ⟨hhome, hclean⟩ := (cleanBody w).visits_of_ways (s := initial w) rfl h
    exact ((testBody w).visits_of_ways hhome h).2.trans (by rw [hclean]; rfl)
  · rw [if_neg hrebuild, if_neg hrebuild]
    exact ((testBody w).visits_of_ways (s := initial w) rfl h).2

theorem isCleaning_cleanings (ps : List Path) :
    ∀ v ∈ ps.flatMap cleanings, v.isCleaning = true := by
  intro v hv
  obtain ⟨p, _, hv⟩ := List.mem_flatMap.mp hv
  rcases List.mem_pair.mp hv with rfl | rfl <;> rfl

theorem isCleaning_testings (ps : List Path) :
    ∀ v ∈ ps.flatMap testings, v.isCleaning = false := by
  intro v hv
  obtain ⟨p, _, hv⟩ := List.mem_flatMap.mp hv
  rcases List.mem_pair.mp hv with rfl | rfl <;> rfl

/-- Visits of a rebuild loop before those of another one can be told apart. -/
theorem split_visits {us us' vs vs' : List Visit} (h : us ++ vs = us' ++ vs')
    (hus : ∀ v ∈ us, v.isCleaning = true) (hus' : ∀ v ∈ us', v.isCleaning = true)
    (hvs : ∀ v ∈ vs, v.isCleaning = false) (hvs' : ∀ v ∈ vs', v.isCleaning = false) :
    us = us' ∧ vs = vs' := by
  have hfilter : us = us' := by
    have hboth := congrArg (List.filter Visit.isCleaning) h
    rwa [List.filter_append, List.filter_append, List.filter_eq_self.mpr hus,
      List.filter_eq_self.mpr hus', List.filter_eq_nil_iff.mpr fun v hv => by simp [hvs v hv],
      List.filter_eq_nil_iff.mpr fun v hv => by simp [hvs' v hv], List.append_nil,
      List.append_nil] at hboth
  subst hfilter
  exact ⟨rfl, List.append_cancel_left h⟩

/-- A plan that makes the visits expected of directories two levels down found its way to
every one of them. -/
theorem ways_of_visits_plan {o : Options} {ps : List Path} (hps : Below w ps)
    (hway : ∀ j ∈ w.loopWords o.Modules, ∀ old p, Arrived w.toTree old j p → Way w.toTree j p)
    (h : visits (planLoops w o (initial w)).log = expected o.Rebuild ps) :
    Ways w.toTree o.Modules ps := by
  have htests : ∀ s : Shell, s.cwd = w.start →
      visits (planModules w o.Modules (planTest w) s).log = visits s.log ++ ps.flatMap testings →
      Ways w.toTree o.Modules ps := by
    intro s hs hvisits
    exact ((testBody w).ways_of_visits (K := fun _ _ => True) (fun _ _ _ _ => trivial) hps
      (fun j hj old p _ _ harrived => hway j hj old p harrived) hs trivial hvisits).1
  rw [planLoops, expected] at h
  by_cases hrebuild : o.Rebuild
  · rw [if_pos hrebuild, if_pos hrebuild] at h
    obtain ⟨us, hus, hclean⟩ := Body.adds_modules (B := cleanBody w) (initial w)
      (o.Modules.flatMap (w.expand (initial w).cwd))
    obtain ⟨vs, hvs, htest⟩ := Body.adds_modules (B := testBody w)
      (planModules w o.Modules (planClean w) (initial w))
      (o.Modules.flatMap (w.expand (planModules w o.Modules (planClean w) (initial w)).cwd))
    have hcleans : visits (planModules w o.Modules (planClean w) (initial w)).log = us := hus
    have hboth : us ++ vs = ps.flatMap cleanings ++ ps.flatMap testings := by
      rw [← h, ← hcleans]
      exact hvs.symm
    obtain ⟨rfl, rfl⟩ := split_visits hboth hclean (isCleaning_cleanings ps) htest
      (isCleaning_testings ps)
    have hhome := ((cleanBody w).ways_of_visits (K := fun _ _ => True) (G := fun _ _ => True)
      (fun _ _ _ _ => trivial) hps (fun _ _ _ _ _ _ _ => trivial) (s := initial w) rfl trivial
      hcleans).2
    exact htests _ hhome hvs
  · rw [if_neg hrebuild, if_neg hrebuild] at h
    exact htests (initial w) rfl h

/-! ### Words of plain modules -/

/-- What the loop over a plain module goes round are words with a slash behind a part
without blanks. -/
theorem mem_expand_star (t : Tree) {c : Path} {m j : Word} (hm : Plain m) (hslash : '/' ∉ m)
    (hj : j ∈ t.expand c (m ++ "/*".toList)) :
    ∃ u v, (∀ ch ∈ u, isBlank ch = false) ∧ j = u ++ '/' :: v := by
  have hfields : fields (m ++ "/*".toList) = [m ++ "/*".toList] := by
    apply fields_of_noBlank (by simp)
    rw [List.forall_mem_append]
    exact ⟨hm.noBlank, by simp [isBlank]⟩
  have hcomponents : Tree.components ((m ++ "/*".toList).splitOn '/') = [m, ['*']] := by
    have hsplit : (m ++ "/*".toList).splitOn '/' = [m, ['*']] :=
      List.splitOn_append_cons_self_of_not_mem hslash ['*']
    rw [hsplit, Tree.components, hm.not_isPattern]
    rfl
  rw [Tree.expand, hfields, List.flatMap_singleton, Tree.glob] at hj
  split at hj
  · split at hj
    · exact ⟨m, ['*'], hm.noBlank, List.mem_singleton.mp hj⟩
    · rw [hcomponents] at hj
      simp only [Tree.globFrom, hm.not_isPattern, show isPattern ['*'] = true from rfl,
        Bool.false_eq_true, if_false, if_true, List.flatMap_singleton, List.mem_map] at hj
      obtain ⟨name, _, rfl⟩ := hj
      exact ⟨unquote m, name, fun ch hch => hm.noBlank ch (mem_of_mem_unquote hch), by simp⟩
  · exact ⟨m, ['*'], hm.noBlank, List.mem_singleton.mp hj⟩

theorem slash_mem_of_mem_loopWords (t : Tree) {ms : List Word}
    (hms : ∀ m ∈ ms, Plain m ∧ '/' ∉ m) {j : Word} (hj : j ∈ t.loopWords ms) :
    '/' ∈ (t.expand t.start j).headD [] := by
  obtain ⟨i, hi, hj⟩ := List.mem_flatMap.mp hj
  obtain ⟨m, hm, hi⟩ := List.mem_flatMap.mp hi
  rw [t.expand_plain (hms m hm).1, List.mem_singleton] at hi
  subst hi
  obtain ⟨u, v, hu, rfl⟩ := mem_expand_star t (hms i hm).1 (hms i hm).2 hj
  exact t.slash_mem_expand hu v

/-- With a slash in the first word of `$j` it does not matter where the shell was
before. -/
theorem Arrived.way_of_slash {t : Tree} {old : Option Path} {j : Word} {p : Path}
    (h : Arrived t old j p) (hslash : '/' ∈ (t.expand t.start j).headD []) : Way t j p where
  builds :=
    have hslash : '/' ∈ [(t.expand t.start j).headD []].headD [] := hslash
    (t.cd_of_slash hslash).trans h.builds
  runs := (t.cd_of_slash hslash).trans h.runs
  returns := h.returns
  command := h.command

/-! ### Coverage -/

/-- What is asked of a run: plain words that do not begin with a call for help, modules
that are directories given by one component, and builds that succeed. -/
structure Asked (w : World) (args : List Word) : Prop where
  plain : ∀ arg ∈ args, Plain arg
  noHelp : isHelp (args.headD []) = false
  modules : ∀ m ∈ named args, '/' ∉ m ∧ w.isDirectory w.start m
  builds : ¬ BuildFailed (runAllTests w args).state.log

/-- What coverage takes: what the loops go round are ways to the test directories of the
selected modules, and what `find` prints for an `rm` are words. -/
structure Reachable (w : World) (args : List Word) : Prop where
  ways : Ways w.toTree (options w args).Modules (testDirs w args)
  words : Throughout (RemovesWords w) (runAllTests w args).state.log

theorem below_testDirs {ms : List Word} (hms : ∀ m ∈ ms, IsName m) :
    Below w (ms.flatMap w.testDirs) := by
  intro p hp
  obtain ⟨m, hm, hp⟩ := List.mem_flatMap.mp hp
  obtain ⟨n, rfl⟩ := Tree.mem_testDirs_of_isName (hms m hm) hp
  exact ⟨by simp, by simp⟩

namespace Asked

variable {args : List Word} (h : Asked w args)
include h

theorem visits_eq : visits (runAllTests w args).state.log =
    visits (planLoops w (options w args) (initial w)).log := by
  rw [visits_runAllTests h.builds, plan, h.noHelp]
  rfl

theorem rebuild_eq : (options w args).Rebuild = args.any isRebuild := by
  rw [options_of_plain w h.plain]

/-- The modules of the loops are plain, with one component. -/
theorem plain_modules : ∀ m ∈ (options w args).Modules, Plain m ∧ '/' ∉ m := by
  intro m hm
  rw [options_of_plain w h.plain] at hm
  by_cases hnamed : named args = []
  · simp only [if_pos hnamed, List.mem_singleton] at hm
    subst hm
    decide
  · simp only [if_neg hnamed] at hm
    exact ⟨h.plain m (List.mem_of_mem_filter hm), (h.modules m hm).1⟩

end Asked

end FrameworkTests.Runner
