import FrameworkTests.Lib.Command
import FrameworkTests.Runner.Tree
import Mathlib.Data.List.DropRight

/-!
# The test runner

`runAllTests.sh` as a command on the state of the shell that runs it.  What the
script does to the world is recorded in a log, each entry with the directory it
was done in and the value of the loop variable `j` at that time; `make` and the
test binaries answer by the log so far and by the mode, which decides where their
output goes, so nothing is assumed about what a build changes.  The output of `make`
is not modelled.

`MakeSuffix`, `CDPATH` and `IFS` are those of a fresh shell, and the shell is bash
with its own `[`, `echo` and `cd`; `[ $1 == … ]` with an argument that is not one
word after expansion answers as the world says.  An `echo` that gets the option `-e`
leaves backslashes as they are.

## Main definitions

* `Output`, `Result` — what a command prints, and what becomes of it.
* `Entry`, `Log` — what was done, and where.
* `World` — a directory tree, and how commands answer.
* `parse` — the argument loop.
* `buildTest`, `runTest`, `cleanTest` — the rounds of the two loops.
* `runAllTests w args` — the script, with its exit status and final state.
-/

namespace FrameworkTests.Runner

open Command

/-- Lines of text. -/
structure Text where
  lines : List Word
  isText : ∀ line ∈ lines, '\x00' ∉ line ∧ '\n' ∉ line
  deriving DecidableEq

/-- What a command prints. -/
inductive Output where
  | text (text : Text)
  /-- Output with a NUL or an invalid encoding, of which `grep` lets `shown` through
  before it comes to that. -/
  | binary (shown : List Word)
  deriving DecidableEq

/-- No line. -/
def Output.nothing : Output := text ⟨[], by simp⟩

/-- What became of a command: its output and exit code, or nothing when there is no
such command. -/
abbrev Result := Option (Output × ℕ)

/-- What a command of the script did. -/
inductive Deed where
  /-- A round of a loop over test directories began. -/
  | round
  | echo (text : Word)
  | makeClean
  | rm (operands : List Word)
  | make (status : ℕ)
  /-- A test binary was run. -/
  | run (command : List Word) (result : Result)
  deriving DecidableEq

/-- A deed, the value of `j` and the current directory. -/
structure Entry where
  j : Word
  dir : Path
  deed : Deed
  deriving DecidableEq

abbrev Log := List Entry

/-- What the script finds and how the commands answer it. -/
structure World extends Tree where
  oldpwd : Option Path
  /-- `[ … == word ]` with other than one operand before the sign. -/
  bracket : List Word → Word → Bool
  /-- `make`, whose output is shown in verbose mode and thrown away otherwise. -/
  make : (Verbose : Bool) → Log → Path → ℕ
  /-- A command line, whose output is shown in verbose mode and filtered otherwise. -/
  exec : (Verbose : Bool) → Log → Path → List Word → Result
  /-- The executable files below a directory, by their components. -/
  executables : Log → Path → List (List Word)

/-- The world over a tree in which every command is there, succeeds and prints
nothing, and in which there are no executables. -/
def World.succeeding (t : Tree) : World where
  toTree := t
  oldpwd := none
  bracket _ _ := false
  make _ _ _ := 0
  exec _ _ _ _ := some (.nothing, 0)
  executables _ _ := []

/-- Some directories of the repository. -/
def repository : Tree.Directories where
  all := [] :: [[], ["Core"], ["Core", "debug"], ["Core", "jsonmetaobjectreader"],
    ["Core", "jsonmetaobjectreader", "resources"], ["Network"], ["Network", "httpclient"]].map
      fun path => ("FrameworkTests" :: path).map String.toList
  nodup := by decide +kernel
  isName := by decide +kernel
  closed := by decide +kernel

/-- The world in which the repository is checked out and all tests pass. -/
def checkout : World :=
  World.succeeding (Tree.ofDirectories repository ["FrameworkTests".toList] (by decide +kernel))

/-- The state of the shell. -/
structure Shell where
  cwd : Path
  oldpwd : Option Path
  j : Word
  log : Log
  deriving DecidableEq

/-- Record a deed. -/
def Shell.note (s : Shell) (deed : Deed) : Shell :=
  { s with log := s.log ++ [⟨s.j, s.cwd, deed⟩] }

def KnownModules : List Word := ["Core".toList, "Network".toList]

structure Options where
  Verbose : Bool
  Rebuild : Bool
  Modules : List Word
  deriving DecidableEq

/-! ### Arguments -/

def isHelp (arg : Word) : Bool := arg ∈ ["-h".toList, "-help".toList, "--help".toList]

def usage : List Word :=
  ["Usage: runAllTests.sh [-r|--rebuild] [-v|--verbose] [Modules]".toList,
   "-r --rebuild      Rebuilds all tests in [Modules]".toList,
   "-v --verbose      Outputs everything".toList,
   [],
   "By default the script will run all tests in [Modules]".toList,
   "If the tests are not already built, or if --rebuild was passed, those will be compiled.".toList,
   "If no [Modules] are supplied, all modules are selected.".toList]

/-- `[ $1 == word ]`, with `$1` expanded unquoted. -/
def World.equals (w : World) (arg word : Word) : Bool :=
  match w.expand w.start arg with
  | [x] => x = word
  | xs => w.bracket xs word

/-- The argument loop. -/
def parse (w : World) : Options → List Word → Options
  | o, [] => o
  | o, arg :: args =>
      if w.equals arg "-v".toList || w.equals arg "--verbose".toList then
        parse w { o with Verbose := true } args
      else if w.equals arg "-r".toList || w.equals arg "--rebuild".toList then
        parse w { o with Rebuild := true } args
      else
        parse w { o with Modules := o.Modules ++ [arg] } args

/-- The options the script goes on with.  `Modules=$KnownModules` takes the first
element of the array. -/
def options (w : World) (args : List Word) : Options :=
  let o := parse w ⟨false, false, []⟩ args
  if o.Modules = [] then { o with Modules := KnownModules.take 1 } else o

/-! ### Commands -/

/-- `cd`, with its words expanded in the state it starts in. -/
def cd (w : World) (words : Shell → List Word) : Command Shell := act fun s =>
  match w.cd s.oldpwd s.cwd (words s) with
  | .ok p => (0, { s with cwd := p, oldpwd := some s.cwd })
  | .error n => (n, s)

def echo (text : Word) : Command Shell := act fun s => (0, s.note (.echo text))

/-- `die`. -/
def die (text : Word) : Command Shell := block [echo text, exitWith 1]

/-- `make $MakeSuffix`, with its output shown or not. -/
def make (w : World) (shown : Bool) : Command Shell := act fun s =>
  (w.make shown s.log s.cwd, s.note (.make (w.make shown s.log s.cwd)))

def makeClean : Command Shell := act fun s => (0, s.note .makeClean)

/-- The paths `find . -name 'tst_*' -executable` prints. -/
def found (w : World) (log : Log) (dir : Path) : List Word :=
  ((w.executables log dir).filter fun path => path.getLast?.any ("tst_".toList.isPrefixOf ·)).map
    fun path => "./".toList ++ ['/'].intercalate path

/-- `rm $(find . -name 'tst_*' -executable)`. -/
def rmFound (w : World) : Command Shell := act fun s =>
  (0, s.note (.rm ((found w s.log s.cwd).flatMap (w.expand s.cwd))))

/-- The line is selected by `^FAIL|failed`. -/
def isFailure (line : Word) : Bool :=
  "FAIL".toList.isPrefixOf line || line.tails.any ("failed".toList.isPrefixOf ·)

/-- `egrep -B 1`: the selected lines, each with the line before it.  Groups that do
not touch are kept apart by a line `--`.  `printed` says that a group is out already,
`before` is the last line if it is not printed, `apart` that an unprinted line is
before that one. -/
def withContext (printed apart : Bool) (before : Option Word) : List Word → List Word
  | [] => []
  | line :: lines =>
      if isFailure line then
        (if printed && apart then ["--".toList] else []) ++ before.toList ++
          line :: withContext true false none lines
      else withContext printed (apart || before.isSome) (some line) lines

/-- What `egrep -B 1 -e '^FAIL|failed'` prints. -/
def egrep : Output → List Word
  | .text text => withContext false false none text.lines
  | .binary shown => shown

/-- The lines of a binary that `egrep -B 1 -e '^FAIL|failed' | grep -v -e '^PASS'`
leaves. -/
def failures (output : Output) : List Word :=
  (egrep output).filter fun line => !"PASS".toList.isPrefixOf line

/-- The status of a binary, 127 when it is not found. -/
def directStatus : Result → ℕ
  | none => 127
  | some (_, code) => code

/-- The status of the pipeline behind a binary: that of the last `grep`, which is 0
when it selects a line. -/
def pipelineStatus (result : Result) : ℕ :=
  if failures (result.elim .nothing Prod.fst) = [] then 1 else 0

/-- The status a test binary gets in the mode of the run. -/
def testStatus (Verbose : Bool) (result : Result) : ℕ :=
  if Verbose then directStatus result else pipelineStatus result

/-- `$Binary`, plain or in the pipeline. -/
def runBinary (w : World) (Verbose : Bool) (Binary : Word) : Command Shell := act fun s =>
  let command := w.expand s.cwd Binary
  let result := w.exec Verbose s.log s.cwd command
  (testStatus Verbose result, s.note (.run command result))

/-- An option of `echo`. -/
def isEchoOption (word : Word) : Bool :=
  word.head? = some '-' && word ≠ ['-'] && word.tail.all "neE".toList.contains

/-- What `echo` prints of its words, up to a newline at the end. -/
def echoed (words : List Word) : Word := [' '].intercalate (words.dropWhile isEchoOption)

/-- What is behind the last slash of a line. -/
def afterSlash (line : Word) : Word := ((line.splitOn '/').getLast?).getD []

/-- `$(echo $Name|sed 's!.*/!!')`, `words` being what `$Name` expands to. -/
def baseName (words : List Word) : Word :=
  (['\n'].intercalate (((echoed words).splitOn '\n').map afterSlash)).rdropWhile (· = '\n')

/-- The file a test called `Name` is run from. -/
def binary (t : Tree) (dir : Path) (Name : Word) : Word :=
  "./tst_".toList ++ baseName (t.expand dir Name)

/-! ### The loops -/

def buildTest (w : World) (Verbose : Bool) (Path : Word) : Command Shell :=
  block [
    cd w fun _ => [Path],
    echo ("##### Building ".toList ++ Path),
    (if Verbose then make w true else make w false).andThen fun status =>
      if status ≠ 0 then die ("##### Failed to build ".toList ++ Path)
      else cd w fun _ => ["../..".toList]]

def runTest (w : World) (Verbose : Bool) (Name : Word) : Command Shell := fun s =>
  let Binary := binary w.toTree s.cwd Name
  block [echo ("##### Running test ".toList ++ Name), runBinary w Verbose Binary] s

/-- `$1` of a function called with `$j` unquoted. -/
def firstArg (w : World) (s : Shell) : Word := (w.expand s.cwd s.j).headD []

/-- What a subshell leaves behind: the deeds, not the state of its shell. -/
def leave (s inner : Shell) : Shell := { s with log := inner.log }

/-- The body of the rebuild loop. -/
def cleanTest (w : World) : Command Shell :=
  block [
    cd w fun s => w.expand s.cwd s.j,
    makeClean,
    rmFound w,
    cd w fun _ => ["../..".toList]]

/-- The body of the build and run loop. -/
def buildAndRun (w : World) (Verbose : Bool) : Command Shell :=
  block [
    fun s => buildTest w Verbose (firstArg w s) s,
    subshell leave (block [
      cd w fun s => w.expand s.cwd s.j,
      fun s => runTest w Verbose (firstArg w s) s])]

/-- A round of either loop: `[ ! -d "$j" ] && continue` before its body. -/
def round (w : World) (body : Command Shell) (j : Word) : Command Shell := fun s =>
  let s := ({ s with j := j } : Shell).note .round
  if w.isDirectory s.cwd j then body s else .done 0 s

/-- `for j in $i/*; do body; done`. -/
def forTests (w : World) (body : Command Shell) (i : Word) : Command Shell := fun s =>
  forEach (round w body) (w.expand s.cwd (i ++ "/*".toList)) s

/-- `for i in ${Modules[@]}; do for j in $i/*; do body; done; done`. -/
def forModules (w : World) (Modules : List Word) (body : Command Shell) : Command Shell := fun s =>
  forEach (forTests w body) (Modules.flatMap (w.expand s.cwd)) s

/-- The loops of the script. -/
def runModules (w : World) (o : Options) : Command Shell :=
  block [
    if o.Rebuild then forModules w o.Modules (cleanTest w) else block [],
    forModules w o.Modules (buildAndRun w o.Verbose)]

/-- The shell the script starts with. -/
def initial (w : World) : Shell := ⟨w.start, w.oldpwd, [], []⟩

/-- The script. -/
def runAllTests (w : World) (args : List Word) : Outcome Shell :=
  if isHelp (args.headD []) then block (usage.map echo ++ [exitWith 0]) (initial w)
  else runModules w (options w args) (initial w)

end FrameworkTests.Runner
