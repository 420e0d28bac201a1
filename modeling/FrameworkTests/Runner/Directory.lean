import FrameworkTests.Runner.Modules

/-!
# Where the script does what it does

The loops are written for rounds that begin in the directory of the script, and for
commands that run in the test directory the loop variable names, which belongs to a
selected module.  All of this rests on unquoted words and on `cd` commands nobody
checks: the unquoted `cd $j`, and `cd ../..` back.

`inPlace_runAllTests` is the condition under which it holds.  The loop variable of a
round over a directory must be the path of a test of a selected module, and `Steady`;
and the paths that `find` prints must survive being expanded unquoted in front of
`rm`.  As long as every step of the run so far was such a step, everything was done
in its place.

## Main definitions

* `InPlace w args log e` — what `e` records was done where it belongs.
* `Steady t j` — unquoted, `j` is still the path of a directory two levels down.
* `Foreseen w args log e` — the step meets what the script takes for granted.
-/

namespace FrameworkTests.Runner

open Command Run

/-- An executable below `dir` that is named as a test binary. -/
def IsTestBinary (w : World) (log : Log) (dir : Path) (file : Word) : Prop :=
  ∃ path ∈ w.executables log dir, path.getLast?.any ("tst_".toList.isPrefixOf ·) ∧
    file = "./".toList ++ ['/'].intercalate path

/-- A command was run in the directory its loop variable names, a test directory of a
selected module. -/
def InTestDir (w : World) (args : List Word) (e : Entry) : Prop :=
  w.resolve w.start e.j = some e.dir ∧ e.dir ∈ testDirs w args

/-- Rounds begin in the directory of the script; the commands of a round run in the
test directory its loop variable names, and `rm` gets only executables below it that
are named as tests. -/
def InPlace (w : World) (args : List Word) (log : Log) (e : Entry) : Prop :=
  match e.deed with
  | .round => e.dir = w.start
  | .echo _ => True
  | .makeClean | .make _ | .run _ _ => InTestDir w args e
  | .rm operands => InTestDir w args e ∧ ∀ file ∈ operands, IsTestBinary w log e.dir file

instance (w : World) (log : Log) (dir : Path) (file : Word) :
    Decidable (IsTestBinary w log dir file) :=
  inferInstanceAs (Decidable (∃ path ∈ w.executables log dir, _ ∧ _))

instance (w : World) (args : List Word) (e : Entry) : Decidable (InTestDir w args e) :=
  inferInstanceAs (Decidable (_ = some _ ∧ _))

instance (w : World) (args : List Word) (log : Log) : ∀ e, Decidable (InPlace w args log e)
  | ⟨_, _, .round⟩ => inferInstanceAs (Decidable (_ = _))
  | ⟨_, _, .echo _⟩ => inferInstanceAs (Decidable True)
  | ⟨_, _, .makeClean⟩ | ⟨_, _, .make _⟩ | ⟨_, _, .run _ _⟩ =>
      inferInstanceAs (Decidable (InTestDir w args _))
  | ⟨j, dir, .rm operands⟩ => inferInstanceAs (Decidable (InTestDir w args ⟨j, dir, .rm operands⟩ ∧
      ∀ file ∈ operands, IsTestBinary w log dir file))

/-- In the directory of the script, the word `j` is still one word unquoted, and it
leads two levels down into a directory that can be entered. -/
structure Steady (t : Tree) (j : Word) : Prop where
  expand : t.expand t.start j = [j]
  noOption : j.head? ≠ some '-'
  leads : ∃ p ∈ t.resolve t.start j, t.enter p ∧ p.dropLast.dropLast = t.start

theorem steady_iff {t : Tree} {j : Word} : Steady t j ↔
    t.expand t.start j = [j] ∧ j.head? ≠ some '-' ∧
      ∃ p ∈ t.resolve t.start j, t.enter p ∧ p.dropLast.dropLast = t.start :=
  ⟨fun h => ⟨h.1, h.2, h.3⟩, fun h => ⟨h.1, h.2.1, h.2.2⟩⟩

instance (t : Tree) (j : Word) : Decidable (Steady t j) :=
  decidable_of_iff _ steady_iff.symm

/-- What the script takes for granted: that a directory it goes round is a test of a
selected module and steady, and that the paths it passes to `rm` are words. -/
def Foreseen (w : World) (args : List Word) (log : Log) (e : Entry) : Prop :=
  match e.deed with
  | .round => w.isDirectory w.start e.j →
      e.j ∈ ((selected args).flatMap w.tests).map Prod.fst ∧ Steady w.toTree e.j
  | .rm _ => FoundWords w log e.dir
  | _ => True

instance (w : World) (args : List Word) (log : Log) : ∀ e, Decidable (Foreseen w args log e)
  | ⟨j, _, .round⟩ => inferInstanceAs (Decidable (w.isDirectory w.start j →
      j ∈ ((selected args).flatMap w.tests).map Prod.fst ∧ Steady w.toTree j))
  | ⟨_, dir, .rm _⟩ => inferInstanceAs (Decidable (FoundWords w log dir))
  | ⟨_, _, .echo _⟩ | ⟨_, _, .makeClean⟩ | ⟨_, _, .make _⟩ | ⟨_, _, .run _ _⟩ =>
      inferInstanceAs (Decidable True)

variable {w : World} {args : List Word}

theorem isTestBinary_of_mem_found {log : Log} {dir : Path} {file : Word}
    (h : file ∈ found w log dir) : IsTestBinary w log dir file := by
  obtain ⟨path, hpath, rfl⟩ := List.mem_map.mp h
  obtain ⟨hmem, hname⟩ := List.mem_filter.mp hpath
  exact ⟨path, hmem, hname, rfl⟩

/-- A steady path of a test leads into a test directory and back. -/
theorem Steady.leads_testDir {j : Word} (h : Steady w.toTree j)
    (hj : j ∈ ((selected args).flatMap w.tests).map Prod.fst) :
    ∃ p, Leads w.toTree j p ∧ w.resolve w.start j = some p ∧ p ∈ testDirs w args := by
  obtain ⟨p, hp, henter, hup⟩ := h.leads
  have hcd : w.cd none w.start [j] = .ok p := w.cd_path h.noOption hp henter
  refine ⟨p, ⟨?_, ?_, hup⟩, hp, ?_⟩
  · rw [h.expand]
    exact hcd
  · rw [h.expand]
    exact hcd
  · obtain ⟨⟨_, d⟩, hmem, rfl⟩ := List.mem_map.mp hj
    obtain ⟨m, hm, hmem⟩ := List.mem_flatMap.mp hmem
    have hd : some p = some d := hp.symm.trans (Tree.resolve_of_mem_tests hmem)
    rw [Option.some.inj hd]
    exact List.mem_flatMap.mpr ⟨m, hm, List.mem_map_of_mem hmem⟩

/-- Nothing unforeseen was done. -/
def AllForeseen (w : World) (args : List Word) (s : Shell) : Prop :=
  Throughout (Foreseen w args) s.log

theorem allForeseen_of_grows (s s' : Shell) (h : Grows s s') (h' : AllForeseen w args s') :
    AllForeseen w args s :=
  h'.of_isPrefix h

/-- The script is at home, and everything so far was done in its place. -/
def AtHome (w : World) (args : List Word) (s : Shell) : Prop :=
  s.cwd = w.start ∧ Throughout (InPlace w args) s.log

/-- A command of the loops that, while everything is foreseen, starts and ends at
home. -/
def KeepsHome (w : World) (args : List Word) (c : Command Shell) : Prop :=
  Triple (fun s => AllForeseen w args s → AtHome w args s) c
    (fun _ s => AllForeseen w args s → AtHome w args s)
    (fun _ s => AllForeseen w args s → Throughout (InPlace w args) s.log)

/-- What the body of a round may use: the loop variable leads into a test directory. -/
structure Placed (w : World) (args : List Word) (s : Shell) (p : Path) : Prop where
  home : s.cwd = w.start
  leads : Leads w.toTree s.j p
  resolve : w.resolve w.start s.j = some p
  mem : p ∈ testDirs w args

/-- A round keeps home if its body does in the directory of the script, on a loop
variable that leads into a test directory. -/
theorem keepsHome_round {body : Command Shell} (hmoves : Moves Grows body)
    (h : ∀ s, AtHome w args s → AllForeseen w args (body s).state → ∀ p, Placed w args s p →
      (body s).Holds (fun _ s => AtHome w args s) (fun _ s => Throughout (InPlace w args) s.log))
    (j : Word) : KeepsHome w args (round w body j) := by
  refine triple_assuming allForeseen_of_grows (moves_round hmoves j) ?_
  intro s hs hforeseen
  have hbegin : AtHome w args (s.beginning j) := ⟨hs.1, throughout_concat.mpr ⟨hs.2, hs.1⟩⟩
  revert hforeseen
  rw [round_apply]
  split
  · rename_i hdir
    intro hforeseen
    have hround : Foreseen w args s.log ⟨j, s.cwd, .round⟩ := by
      have hall := allForeseen_of_grows _ _ (hmoves (s.beginning j)) hforeseen
      exact (throughout_concat.mp hall).2
    obtain ⟨hmem, hsteady⟩ := hround (hs.1 ▸ hdir)
    obtain ⟨p, hp, hresolve, hdirs⟩ := hsteady.leads_testDir hmem
    exact h (s.beginning j) hbegin hforeseen p ⟨hbegin.1, hp, hresolve, hdirs⟩
  · exact fun _ => hbegin

theorem keepsHome_cleanTest (j : Word) : KeepsHome w args (round w (cleanTest w) j) := by
  refine keepsHome_round (moves_cleanTest w) ?_ j
  intro s hs hforeseen p hp
  obtain ⟨n, happly⟩ := cleanTest_apply w s
  rw [happly] at hforeseen ⊢
  have hdir : w.resolve w.start s.j = some (cleaning w s).cwd ∧
      (cleaning w s).cwd ∈ testDirs w args := by
    rw [hp.leads.cwd_cleaning hp.home]
    exact ⟨hp.resolve, hp.mem⟩
  have hclean : Throughout (InPlace w args) ((cleaning w s).note .makeClean).log := by
    rw [log_cleaning_note]
    exact throughout_concat.mpr ⟨hs.2, hdir⟩
  have hwords : FoundWords w ((cleaning w s).note .makeClean).log (cleaning w s).cwd := by
    rw [AllForeseen, Outcome.state_done, Shell.log_moved, log_cleaned] at hforeseen
    exact (throughout_concat.mp hforeseen).2
  refine ⟨hp.leads.cwd_cleaned_up hp.home, ?_⟩
  rw [Shell.log_moved, log_cleaned]
  refine throughout_concat.mpr ⟨hclean, hdir, ?_⟩
  intro file hfile
  obtain ⟨path, hpath, hexpand⟩ := List.mem_flatMap.mp hfile
  rw [hwords path hpath, List.mem_singleton] at hexpand
  exact hexpand ▸ isTestBinary_of_mem_found hpath

theorem keepsHome_buildAndRun (V : Bool) (j : Word) :
    KeepsHome w args (round w (buildAndRun w V) j) := by
  refine keepsHome_round (moves_buildAndRun w V) ?_ j
  intro s hs _ p hp
  have hdir : w.resolve w.start s.j = some (building w s).cwd ∧
      (building w s).cwd ∈ testDirs w args := by
    rw [hp.leads.cwd_building hp.home]
    exact ⟨hp.resolve, hp.mem⟩
  have hbuilding : Throughout (InPlace w args) (building w s).log := by
    rw [log_building]
    exact throughout_concat.mpr ⟨hs.2, trivial⟩
  by_cases hstatus : buildStatus w V s = 0
  · have hrun : w.resolve w.start (built w s).j = some (testing w (built w s)).cwd ∧
        (testing w (built w s)).cwd ∈ testDirs w args := by
      rw [hp.leads.cwd_testing hp.home, j_built]
      exact ⟨hp.resolve, hp.mem⟩
    have hbuilt : Throughout (InPlace w args) (built w s).log := by
      rw [log_built]
      exact throughout_concat.mpr ⟨hbuilding, hdir⟩
    rw [buildAndRun_of_built w hstatus]
    refine ⟨hp.leads.cwd_built hp.home, ?_⟩
    rw [log_tested, log_testing]
    exact throughout_concat.mpr ⟨throughout_concat.mpr ⟨hbuilt, trivial⟩, hrun⟩
  · rw [buildAndRun_of_failed w hstatus]
    show Throughout (InPlace w args) (failed w V s).log
    rw [log_failed]
    exact throughout_concat.mpr ⟨throughout_concat.mpr ⟨hbuilding, hdir⟩, trivial⟩

/-- Both loops keep home, as their rounds do. -/
theorem keepsHome_runModules (o : Options) : KeepsHome w args (runModules w o) :=
  triple_runModules keepsHome_cleanTest (triple_forModules (keepsHome_buildAndRun o.Verbose) _)

/-- **Working directories of a run.**  As long as every round over a directory is over a
steady test of a selected module and every path for `rm` is a word, rounds begin where
the script was started and everything is done in the test directory the loop variable
names. -/
theorem inPlace_runAllTests (w : World) (args : List Word)
    (h : Throughout (Foreseen w args) (runAllTests w args).state.log) :
    Throughout (InPlace w args) (runAllTests w args).state.log := by
  revert h
  rw [runAllTests]
  split
  · intro _
    rw [usage_apply]
    refine throughout_nil.append_of_forall ?_
    intro e he log
    obtain ⟨text, _, rfl⟩ := List.mem_map.mp he
    trivial
  · intro h
    have hrun := keepsHome_runModules (options w args) (initial w)
      (fun _ : Throughout (Foreseen w args) (initial w).log => ⟨rfl, throughout_nil⟩)
    have hlast := Outcome.holds_same.mp (hrun.imp (fun _ s hs hf => (hs hf).2) fun _ s hs => hs)
    exact hlast h

/-- A rebuild of `Network` keeps to its directories. -/
theorem inPlace_network :
    Throughout (InPlace checkout ["-r".toList, "Network".toList])
      (runAllTests checkout ["-r".toList, "Network".toList]).state.log :=
  inPlace_runAllTests checkout ["-r".toList, "Network".toList] (by decide +kernel)

/-- `Core/jsonmetaobjectreader` lies one level deeper than a module: behind its test
directory the script is in `Core`, where the next round begins. -/
theorem not_inPlace_nested :
    ¬ Throughout (InPlace checkout ["Core/jsonmetaobjectreader".toList, "Core".toList])
      (runAllTests checkout ["Core/jsonmetaobjectreader".toList, "Core".toList]).state.log := by
  decide +kernel

end FrameworkTests.Runner
