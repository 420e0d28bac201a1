import FrameworkTests.Runner.Word
import Mathlib.Data.List.Nodup

/-!
# The directory tree and the expansions that look at it

The tree as the user of the script sees it: what is in the directories, which of
them can be listed and entered, and what a path given by a word leads to.  There are no
symbolic links, so `..` is the parent, and the tree does not change while the
script runs.

Over it stand file name expansion, component by component as the shell does it,
and the `cd` builtin with its options.  Matches come in the order of their directories;
that the shell sorts paths as a whole, which is another order where several components
are patterns, is not modelled.

## Main definitions

* `Tree` — directories, their entries and where the script is started.
* `resolve c w` — the file a word names for a process in `c`.
* `expand c w` — what an unquoted expansion of `w` becomes in `c`.
* `cd old c ws` — where `cd` with the words `ws` leads.
-/

namespace FrameworkTests.Runner

/-- A directory by its names from the root. -/
abbrev Path := List Word

/-- A name that a directory can list. -/
def IsName (n : Word) : Prop := n ≠ [] ∧ '/' ∉ n ∧ n ≠ ".".toList ∧ n ≠ "..".toList

instance (n : Word) : Decidable (IsName n) :=
  inferInstanceAs (Decidable (_ ∧ _ ∧ _ ∧ _))

/-- A directory tree. -/
structure Tree where
  /-- The directory the script is started in. -/
  start : Path
  home : Path
  /-- The names in a directory, in the order of file name expansion. -/
  entries : Path → List Word
  isDir : Path → Bool
  /-- The names in the directory can be read. -/
  list : Path → Bool
  /-- The directory can be entered. -/
  enter : Path → Bool
  enter_start : enter start
  isName_of_mem : ∀ p, ∀ n ∈ entries p, IsName n
  nodup_entries : ∀ p, (entries p).Nodup
  mem_entries : ∀ p n, isDir (p ++ [n]) → n ∈ entries p
  isDir_of_enter : ∀ p, enter p → isDir p
  /-- What is below a directory is only seen by those who can enter it. -/
  enter_of_isDir : ∀ p n, isDir (p ++ [n]) → enter p

namespace Tree

variable (t : Tree)

/-- One component of a path. -/
def step (p : Path) (n : Word) : Path :=
  if n = ".".toList then p else if n = "..".toList then p.dropLast else p ++ [n]

/-- The file that the components lead to from `p`.  Every component but an empty one
asks for permission to enter the directory before it. -/
def walk : Path → List Word → Option Path
  | p, [] => some p
  | p, n :: ns =>
      if n = [] then if t.isDir p then walk p ns else none
      else if t.enter p then walk (step p n) ns else none

/-- The file that a word names for a process in `c`.  The empty word, which no
expansion yields, is not set apart. -/
def resolve (c : Path) (w : Word) : Option Path :=
  t.walk (if w.head? = some '/' then [] else c) (w.splitOn '/')

/-- `[ -d w ]`. -/
def isDirectory (c : Path) (w : Word) : Bool := (t.resolve c w).any t.isDir

/-- The names that a pattern matches in the directory typed before it. -/
def matching (c : Path) (typed pattern : Word) : List Word :=
  match t.resolve c typed with
  | some p => if t.list p then (t.entries p).filter (fitsName pattern) else []
  | none => []

/-- The file that a word names is there. -/
def isThere (c : Path) (w : Word) : Bool :=
  match t.resolve c w with
  | some p => t.isDir p || p.getLast?.any (t.entries p.dropLast).contains
  | none => false

/-- The files whose path is what is typed already, followed by components that match
the patterns. -/
def globFrom (c : Path) (typed : Word) : List Word → List Word
  | [] => []
  | [n] =>
      if isPattern n then (t.matching c typed n).map (typed ++ ·)
      else if t.isThere c (typed ++ unquote n) then [typed ++ unquote n] else []
  | n :: m :: ns =>
      (if isPattern n then t.matching c typed n else [unquote n]).flatMap fun name =>
        globFrom c (typed ++ name ++ ['/']) (m :: ns)

/-- The components of a pattern: behind the first special one, several slashes in a row
are one. -/
def components : List Word → List Word
  | [] => []
  | n :: ns =>
      if isPattern n then n :: (ns.dropLast.filter (· ≠ []) ++ ns.getLast?.toList)
      else n :: components ns

/-- File name expansion of one field: a pattern without a match stays as it is. -/
def glob (c : Path) (w : Word) : List Word :=
  if isPattern w then
    match t.globFrom c [] (components (w.splitOn '/')) with
    | [] => [w]
    | ws => ws
  else [w]

/-- What an unquoted expansion of `w` becomes. -/
def expand (c : Path) (w : Word) : List Word := (fields w).flatMap (t.glob c)

/-- The operands of `cd` behind its options, `none` for an option it does not know. -/
def cdOperands : List Word → Option (List Word)
  | [] => some []
  | w :: ws =>
      if w = "--".toList then some ws
      else if w.head? = some '-' && w ≠ ['-'] then
        if w.tail.all "LPe".toList.contains then cdOperands ws else none
      else some (w :: ws)

/-- Where `cd` leads from `c`, or the status it fails with. -/
def cd (old : Option Path) (c : Path) (ws : List Word) : Except ℕ Path :=
  match cdOperands ws with
  | none => .error 2
  | some [] => change (some t.home)
  | some [w] => change (if w = ['-'] then old else t.resolve c w)
  | some _ => .error 1
where
  change (target : Option Path) : Except ℕ Path :=
    match target with
    | some p => if t.enter p then .ok p else .error 1
    | none => .error 1

/-! ### Expansion -/

theorem glob_of_not_isPattern {c : Path} {w : Word} (h : isPattern w = false) :
    t.glob c w = [w] := by
  simp [glob, h]

/-- A plain word stays as it is. -/
theorem expand_plain {c : Path} {w : Word} (h : Plain w) : t.expand c w = [w] := by
  simp [expand, h.fields, t.glob_of_not_isPattern h.not_isPattern]

theorem glob_ne_nil (c : Path) (w : Word) : t.glob c w ≠ [] := by
  rw [glob]
  split
  · split <;> simp_all
  · simp

/-- A word with a character that is not blank does not vanish. -/
theorem expand_ne_nil {c : Path} {w : Word} (h : ∃ ch ∈ w, isBlank ch = false) :
    t.expand c w ≠ [] := by
  obtain ⟨field, hfield⟩ := List.exists_mem_of_ne_nil _ (fields_ne_nil h)
  intro hnil
  rw [expand, List.flatMap_eq_nil_iff] at hnil
  exact t.glob_ne_nil c field (hnil field hfield)

/-! ### Paths -/

theorem enter_dropLast {p : Path} (h : t.enter p) : t.enter p.dropLast := by
  rcases List.eq_nil_or_concat p with rfl | ⟨q, n, rfl⟩
  · exact h
  · rw [List.concat_eq_append] at h ⊢
    rw [List.dropLast_concat]
    exact t.enter_of_isDir q n (t.isDir_of_enter _ h)

theorem step_of_isName {p : Path} {n : Word} (h : IsName n) : step p n = p ++ [n] := by
  rw [step, if_neg h.2.2.1, if_neg h.2.2.2]

/-- A path in two parts. -/
theorem walk_append (p : Path) (ns ms : List Word) :
    t.walk p (ns ++ ms) = (t.walk p ns).bind fun q => t.walk q ms := by
  induction ns generalizing p with
  | nil => rfl
  | cons n ns ih =>
      simp only [List.cons_append, walk, ih]
      split <;> split <;> rfl

theorem walk_cons_of_isName {p : Path} {n : Word} (h : IsName n) (ns : List Word) :
    t.walk p (n :: ns) = if t.enter p then t.walk (p ++ [n]) ns else none := by
  rw [walk, if_neg h.1, step_of_isName h]

/-- From a directory two levels down, `../..` leads back. -/
theorem resolve_up (p : Path) (h : t.enter p) :
    t.resolve p "../..".toList = some p.dropLast.dropLast := by
  have hwalk : t.resolve p "../..".toList = t.walk p ["..".toList, "..".toList] := rfl
  rw [hwalk]
  simp [walk, step, h, t.enter_dropLast h]

/-- A word that does not begin with a minus sign ends the options. -/
theorem cdOperands_cons {w : Word} (hw : w.head? ≠ some '-') (ws : List Word) :
    cdOperands (w :: ws) = some (w :: ws) := by
  have hdashes : w ≠ "--".toList := by
    rintro rfl
    exact hw rfl
  rw [cdOperands, if_neg hdashes, if_neg (by simp [hw])]

/-- `cd` with a path as its only operand. -/
theorem cd_path {old : Option Path} {c p : Path} {w : Word} (hw : w.head? ≠ some '-')
    (hp : t.resolve c w = some p) (he : t.enter p) : t.cd old c [w] = .ok p := by
  have hdash : w ≠ ['-'] := by
    rintro rfl
    exact hw rfl
  simp only [cd, cdOperands_cons hw, if_neg hdash, hp, cd.change, if_pos he]

/-- Where `cd` changes to. -/
theorem eq_of_change {target : Option Path} {p : Path} (h : cd.change t target = .ok p) :
    target = some p ∧ t.enter p := by
  rcases target with _ | q
  · cases h
  · rw [cd.change] at h
    split at h
    · cases h
      exact ⟨rfl, by assumption⟩
    · cases h

/-- A `cd` that does not need `OLDPWD` does not look at it. -/
theorem cd_of_none {c p : Path} {ws : List Word} (h : t.cd none c ws = .ok p)
    (old : Option Path) : t.cd old c ws = .ok p := by
  rw [cd] at h ⊢
  split at h
  · cases h
  · exact h
  · rename_i v hoperands
    by_cases hdash : v = ['-']
    · simp [hdash, cd.change] at h
    · simpa [hdash, hoperands] using h
  · cases h

/-- `cd` only leads to directories that can be entered. -/
theorem enter_of_cd {old : Option Path} {c p : Path} {ws : List Word}
    (h : t.cd old c ws = .ok p) : t.enter p := by
  rw [cd] at h
  split at h
  · cases h
  · exact (t.eq_of_change h).2
  · exact (t.eq_of_change h).2
  · cases h

/-! ### Words with a slash -/

/-- What is typed already comes first. -/
theorem isPrefix_of_mem_globFrom {c : Path} {typed w : Word} {ns : List Word}
    (h : w ∈ t.globFrom c typed ns) : typed <+: w := by
  induction ns generalizing typed with
  | nil => simp [globFrom] at h
  | cons n ns ih =>
      cases ns with
      | nil =>
          rw [globFrom] at h
          split at h
          · obtain ⟨name, _, rfl⟩ := List.mem_map.mp h
            exact List.prefix_append typed name
          · split at h
            · rw [List.mem_singleton.mp h]
              exact List.prefix_append typed (unquote n)
            · exact absurd h List.not_mem_nil
      | cons m ns =>
          rw [globFrom] at h
          obtain ⟨name, _, h⟩ := List.mem_flatMap.mp h
          rw [List.append_assoc] at h
          exact (List.prefix_append typed _).trans (ih h)

theorem exists_components_eq (n m : Word) (ns : List Word) :
    ∃ m' ns', components (n :: m :: ns) = n :: m' :: ns' := by
  have hne : ∃ x xs, components (m :: ns) = x :: xs := by
    rw [components]
    split <;> exact ⟨m, _, rfl⟩
  rw [components]
  split
  · have hlast : (m :: ns).dropLast.filter (· ≠ []) ++ (m :: ns).getLast?.toList ≠ [] := by
      rw [List.getLast?_eq_some_getLast (List.cons_ne_nil m ns)]
      simp
    obtain ⟨x, xs, hxs⟩ := List.exists_cons_of_ne_nil hlast
    exact ⟨x, xs, by rw [hxs]⟩
  · obtain ⟨x, xs, hxs⟩ := hne
    exact ⟨x, xs, by rw [hxs]⟩

/-- A path with a slash expands to paths with a slash. -/
theorem slash_mem_of_mem_glob {c : Path} {w x : Word} (hw : '/' ∈ w) (hx : x ∈ t.glob c w) :
    '/' ∈ x := by
  have htwo : ∃ n m ns, components (w.splitOn '/') = n :: m :: ns := by
    obtain ⟨u, v, rfl⟩ := List.append_of_mem hw
    obtain ⟨n, ns, hu⟩ := List.exists_cons_of_ne_nil (List.splitOn_ne_nil '/' u)
    obtain ⟨m, ms, hns⟩ : ∃ m ms, ns ++ v.splitOn '/' = m :: ms :=
      List.exists_cons_of_ne_nil (List.append_ne_nil_of_right_ne_nil _ (List.splitOn_ne_nil '/' v))
    obtain ⟨m', ms', heq⟩ := exists_components_eq n m ms
    exact ⟨n, m', ms', by rw [List.splitOn_append_cons_self, hu, List.cons_append, hns, heq]⟩
  obtain ⟨n, m, ns, hcomponents⟩ := htwo
  have hglob : ∀ y ∈ t.globFrom c [] (components (w.splitOn '/')), '/' ∈ y := by
    intro y hy
    rw [hcomponents, globFrom] at hy
    obtain ⟨name, _, hy⟩ := List.mem_flatMap.mp hy
    exact (t.isPrefix_of_mem_globFrom hy).subset (by simp)
  rw [glob] at hx
  split at hx
  · split at hx
    · rwa [List.mem_singleton.mp hx]
    · exact hglob x hx
  · rwa [List.mem_singleton.mp hx]

/-- The first word of a path whose first component has no blank has its slash. -/
theorem slash_mem_expand {c : Path} {u : Word} (hu : ∀ ch ∈ u, isBlank ch = false) (v : Word) :
    '/' ∈ (t.expand c (u ++ '/' :: v)).headD [] := by
  have hblank : ∀ ch ∈ u ++ ['/'], isBlank ch = false := by
    rw [List.forall_mem_append, List.forall_mem_singleton]
    exact ⟨hu, rfl⟩
  have hword : u ++ '/' :: v = (u ++ ['/']) ++ v := by simp
  obtain ⟨f, fs, hfields, hslash⟩ : ∃ f fs, fields (u ++ '/' :: v) = f :: fs ∧ '/' ∈ f := by
    rw [fields, hword, splitOnP_append hblank]
    cases hv : v.splitOnP isBlank with
    | nil => exact absurd hv (List.splitOnP_ne_nil _ v)
    | cons y ys => exact ⟨u ++ ['/'] ++ y, ys.filter (· ≠ []), by simp, by simp⟩
  obtain ⟨x, xs, hglob⟩ := List.exists_cons_of_ne_nil (t.glob_ne_nil c f)
  rw [expand, hfields, List.flatMap_cons, hglob]
  exact t.slash_mem_of_mem_glob hslash (hglob ▸ List.mem_cons_self)

/-- `cd` does not need `OLDPWD` for a word with a slash. -/
theorem cd_of_slash {old old' : Option Path} {c : Path} {ws : List Word}
    (h : '/' ∈ ws.headD []) : t.cd old c ws = t.cd old' c ws := by
  rcases ws with _ | ⟨w, ws⟩
  · exact absurd h List.not_mem_nil
  · have hw : '/' ∈ w := h
    have hne : ∀ v : Word, '/' ∉ v → w ≠ v := by
      rintro v hv rfl
      exact hv hw
    by_cases hhead : w.head? = some '-'
    · have htail : w.tail.all "LPe".toList.contains = false := by
        rcases w with _ | ⟨ch, w⟩
        · cases hhead
        · obtain rfl : ch = '-' := Option.some.inj hhead
          exact List.all_eq_false.mpr ⟨'/', by simpa using hw, by decide⟩
      have hoperands : cdOperands (w :: ws) = none := by
        rw [cdOperands, if_neg (hne _ (by decide)), if_pos (by simp [hhead, hne ['-'] (by decide)]),
          htail]
        rfl
      simp only [cd, hoperands]
    · cases ws <;> simp only [cd, cdOperands_cons hhead, if_neg (hne ['-'] (by decide))]

/-! ### Finite trees -/

/-- The directories of a finite tree, every one of them open to the user. -/
structure Directories where
  all : List Path
  nodup : all.Nodup
  isName : ∀ d ∈ all, ∀ n ∈ d, IsName n
  closed : ∀ d ∈ all, d.dropLast ∈ all

/-- The name by which `d` is an entry of `p`. -/
def entryName (p d : Path) : Option Word := if d.dropLast = p then d.getLast? else none

theorem mem_entryName {p d : Path} {n : Word} : n ∈ entryName p d ↔ d = p ++ [n] := by
  rw [entryName]
  constructor
  · intro h
    split at h
    · rename_i hp
      rw [← hp]
      exact (List.dropLast_append_getLast? n h).symm
    · cases h
  · rintro rfl
    simp

/-- The tree of these directories and no other files. -/
def ofDirectories (ds : Directories) (start : Path) (h : start ∈ ds.all) : Tree where
  start := start
  home := []
  entries p := ds.all.filterMap (entryName p)
  isDir p := p ∈ ds.all
  list p := p ∈ ds.all
  enter p := p ∈ ds.all
  enter_start := by simpa using h
  isName_of_mem := by
    intro p n hn
    obtain ⟨d, hd, hname⟩ := List.mem_filterMap.mp hn
    rw [← Option.mem_def, mem_entryName] at hname
    exact ds.isName d hd n (by simp [hname])
  nodup_entries := by
    intro p
    refine ds.nodup.filterMap ?_
    intro d d' n hd hd'
    rw [mem_entryName.mp hd, mem_entryName.mp hd']
  mem_entries := by
    intro p n h
    have hmem : p ++ [n] ∈ ds.all := by simpa using h
    exact List.mem_filterMap.mpr ⟨p ++ [n], hmem, mem_entryName.mpr rfl⟩
  isDir_of_enter := fun p h => h
  enter_of_isDir := by
    intro p n h
    have hmem : p ++ [n] ∈ ds.all := by simpa using h
    simpa using ds.closed _ hmem

end Tree
end FrameworkTests.Runner
