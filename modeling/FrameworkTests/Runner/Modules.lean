import FrameworkTests.Runner.Rounds

/-!
# What a run is asked for

The modules that the arguments name, and their test directories: what a caller of the
script expects to be built and run, by the usage text and by what is in the tree.
`options_of_plain` compares this with what the argument loop makes of the arguments.

## Main definitions

* `named`, `selected` — the modules named by the arguments, and those to be run.
* `tests m`, `testDirs m` — the test directories of a module, in the order of
  expansion, and the words for them.
* `testBinary dir` — the file a test is run from.
* `testDirs w args` — the test directories that should be built and run.
-/

namespace FrameworkTests.Runner

/-! ### Arguments -/

def isVerbose (arg : Word) : Bool := arg = "-v".toList || arg = "--verbose".toList
def isRebuild (arg : Word) : Bool := arg = "-r".toList || arg = "--rebuild".toList

/-- The arguments that are no flags. -/
def named (args : List Word) : List Word := args.filter fun arg => !isVerbose arg && !isRebuild arg

/-- The modules to be run, by the usage text: all known ones when none is named. -/
def selected (args : List Word) : List Word :=
  if named args = [] then KnownModules else named args

theorem not_isRebuild_of_isVerbose {arg : Word} (h : isVerbose arg) : isRebuild arg = false := by
  rcases Bool.or_eq_true_iff.mp h with h | h <;> rw [of_decide_eq_true h] <;> decide

theorem equals_of_plain (w : World) {arg : Word} (h : Plain arg) (word : Word) :
    w.equals arg word = decide (arg = word) := by
  rw [World.equals, w.expand_plain h]

/-- **The argument loop** on plain words. -/
theorem parse_of_plain (w : World) {args : List Word} (h : ∀ arg ∈ args, Plain arg) (o : Options) :
    parse w o args = ⟨o.Verbose || args.any isVerbose, o.Rebuild || args.any isRebuild,
      o.Modules ++ named args⟩ := by
  induction args generalizing o with
  | nil => simp [parse, named]
  | cons arg args ih =>
      rw [List.forall_mem_cons] at h
      have hverbose : (w.equals arg "-v".toList || w.equals arg "--verbose".toList) =
          isVerbose arg := by
        rw [equals_of_plain w h.1, equals_of_plain w h.1, isVerbose]
      have hrebuild : (w.equals arg "-r".toList || w.equals arg "--rebuild".toList) =
          isRebuild arg := by
        rw [equals_of_plain w h.1, equals_of_plain w h.1, isRebuild]
      rw [parse, hverbose, hrebuild, ih h.2, ih h.2, ih h.2]
      by_cases hv : isVerbose arg
      · simp [named, hv, not_isRebuild_of_isVerbose hv]
      · by_cases hr : isRebuild arg <;> simp [named, hv, hr]

/-- The options of a run on plain words: by default only the first known module. -/
theorem options_of_plain (w : World) {args : List Word} (h : ∀ arg ∈ args, Plain arg) :
    options w args = ⟨args.any isVerbose, args.any isRebuild,
      if named args = [] then ["Core".toList] else named args⟩ := by
  rw [options, parse_of_plain w h]
  by_cases hnamed : named args = []
  · simp [hnamed, KnownModules]
  · simp [hnamed]

/-! ### Test directories -/

/-- The word for the entry `n` of the module `m`. -/
def test (m n : Word) : Word := m ++ '/' :: n

/-- The test binary of a directory. -/
def testBinary (dir : Path) : Word := "./tst_".toList ++ dir.getLast?.getD []

namespace Tree

variable (t : Tree)

/-- The immediate subdirectories of a module, but for hidden ones, in the order in which
file name expansion lists them: the words for them, and the directories.  An empty
argument names no module. -/
def tests (m : Word) : List (Word × Path) :=
  if m = [] then [] else
    match t.resolve t.start m with
    | some p => ((t.entries p).filter fun n => n.head? ≠ some '.' && t.isDir (p ++ [n])).map
        fun n => (test m n, p ++ [n])
    | none => []

/-- The test directories of a module. -/
def testDirs (m : Word) : List Path := (t.tests m).map Prod.snd

variable {t} {m n : Word}

theorem mem_tests {j : Word} {d : Path} : (j, d) ∈ t.tests m ↔
    m ≠ [] ∧ ∃ p, t.resolve t.start m = some p ∧ ∃ n ∈ t.entries p,
      (n.head? ≠ some '.' ∧ t.isDir (p ++ [n])) ∧ j = test m n ∧ d = p ++ [n] := by
  rw [tests]
  by_cases hm : m = []
  · simp [hm]
  · cases hp : t.resolve t.start m with
    | none => simp [hm]
    | some p =>
        simp only [if_neg hm, List.mem_map, List.mem_filter, Prod.mk.injEq, Option.some.injEq]
        constructor
        · rintro ⟨n, ⟨hn, hvisible⟩, rfl, rfl⟩
          exact ⟨hm, p, rfl, n, hn, by simpa using hvisible, rfl, rfl⟩
        · rintro ⟨_, _, rfl, n, hn, hvisible, rfl, rfl⟩
          exact ⟨n, ⟨hn, by simpa using hvisible⟩, rfl, rfl⟩

/-- The way to a module, and one component more. -/
theorem resolve_test {c p : Path} (hm : m ≠ []) (hp : t.resolve c m = some p) (henter : t.enter p)
    (hn : IsName n) : t.resolve c (test m n) = some (p ++ [n]) := by
  have hhead : (test m n).head? = m.head? := List.head?_append_of_ne_nil m hm
  have hsplit : (test m n).splitOn '/' = m.splitOn '/' ++ [n] := by
    rw [test, List.splitOn_append_cons_self, List.splitOn_eq_singleton hn.2.1]
  rw [resolve] at hp ⊢
  rw [hhead, hsplit, t.walk_append, hp, Option.bind_some, t.walk_cons_of_isName hn,
    if_pos henter, walk]

/-- A test names its directory. -/
theorem resolve_of_mem_tests {j : Word} {d : Path} (h : (j, d) ∈ t.tests m) :
    t.resolve t.start j = some d := by
  obtain ⟨hm, p, hp, n, hn, ⟨_, hdir⟩, rfl, rfl⟩ := mem_tests.mp h
  exact resolve_test hm hp (t.enter_of_isDir p n hdir) (t.isName_of_mem p n hn)

theorem resolve_of_isName (hm : IsName m) : t.resolve t.start m = some (t.start ++ [m]) := by
  have hhead : m.head? ≠ some '/' := by
    intro h
    exact hm.2.1 (List.mem_of_head? h)
  rw [resolve, if_neg hhead, List.splitOn_eq_singleton hm.2.1, t.walk_cons_of_isName hm,
    if_pos t.enter_start, walk]

/-- The test directories of a module with one name are two levels below the start. -/
theorem mem_testDirs_of_isName (hm : IsName m) {d : Path} (h : d ∈ t.testDirs m) :
    ∃ n, d = t.start ++ [m, n] := by
  obtain ⟨⟨j, _⟩, hmem, rfl⟩ := List.mem_map.mp h
  obtain ⟨_, p, hp, n, _, _, _, rfl⟩ := mem_tests.mp hmem
  rw [resolve_of_isName hm, Option.some.injEq] at hp
  exact ⟨n, by simp [← hp]⟩

end Tree

/-- The test directories of the selected modules. -/
def testDirs (w : World) (args : List Word) : List Path := (selected args).flatMap w.testDirs

/-- The paths that `find` prints in a directory are words that no expansion changes. -/
def FoundWords (w : World) (log : Log) (dir : Path) : Prop :=
  ∀ file ∈ found w log dir, w.expand dir file = [file]

instance (w : World) (log : Log) (dir : Path) : Decidable (FoundWords w log dir) :=
  inferInstanceAs (Decidable (∀ file ∈ found w log dir, _))

end FrameworkTests.Runner
