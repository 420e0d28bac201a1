import Mathlib.Data.List.Infix
import Mathlib.Tactic.Common

/-!
# Words of the shell

What the shell does to a word before a command sees it: an unquoted expansion is
cut into fields at blanks, and a field with a special character is a pattern for
file names.  In a pattern a backslash quotes the character behind it.  This module
has the parts that do not look at files.

Bracket expressions are sets of characters and ranges by code point; the named
classes of a locale are not modelled.  Extended patterns are off, but their first two
characters still make a word a pattern.  A word is text: file names that are no
valid UTF-8 cannot be stated.

## Main definitions

* `Word` — a word, as its characters.
* `fields w` — field splitting at blanks, tabs and newlines.
* `isPattern w`, `fitsName w name` — patterns and the names they match.
* `unquote w` — the name that is meant by a word in a pattern that is none itself.
* `Plain w` — a word that no expansion changes.
-/

namespace FrameworkTests.Runner

abbrev Word := List Char

/-- The characters of the default `IFS`. -/
def isBlank (c : Char) : Bool := c = ' ' || c = '\t' || c = '\n'

/-- Field splitting of an unquoted expansion: empty fields are dropped. -/
def fields (w : Word) : List Word := (w.splitOnP isBlank).filter (· ≠ [])

/-- The characters of a word, each with whether a backslash quotes it.  A backslash
at the end quotes nothing and stays. -/
def quoting : Word → List (Char × Bool)
  | '\\' :: c :: w => (c, true) :: quoting w
  | c :: w => (c, false) :: quoting w
  | [] => []

/-- The name that a word without special characters stands for in a pattern. -/
def unquote (w : Word) : Word := ((quoting w).filter (· ≠ ('\\', false))).map Prod.fst

/-- Something that is not quoted makes a pattern: `*`, `?`, a `]` behind a `[` in one
component, or the first two characters of an extended pattern.  `opened` says that
there was a `[`. -/
def hasSpecial (opened : Bool) : List (Char × Bool) → Bool
  | [] => false
  | (_, true) :: cs => hasSpecial opened cs
  | (c, false) :: cs =>
      c = '*' || c = '?' || (c = ']' && opened) ||
        ((c = '+' || c = '@' || c = '!') && cs.head? = some ('(', false)) ||
        hasSpecial (c = '[' || (opened && c ≠ '/')) cs

def isPattern (w : Word) : Bool := hasSpecial false (quoting w)

/-- The pieces of a pattern. -/
inductive Piece where
  | star
  | any
  | set (negated : Bool) (ranges : List (Char × Char))
  | char (c : Char)

/-- The ranges up to the `]` that closes a bracket expression, and the pattern
behind it.  A `]` that comes first is an ordinary character. -/
def ranges (first : Bool) :
    List (Char × Bool) → Option (List (Char × Char) × List (Char × Bool))
  | [] => none
  | c :: cs =>
      if c = (']', false) && !first then some ([], cs) else
        match cs with
        | ('-', false) :: d :: cs' =>
            if d = (']', false) then some ([(c.1, c.1), ('-', '-')], cs')
            else (ranges false cs').map fun r => ((c.1, d.1) :: r.1, r.2)
        | cs => (ranges false cs).map fun r => ((c.1, c.1) :: r.1, r.2)

/-- A bracket expression, after its `[`. -/
def bracketed : List (Char × Bool) → Option (Piece × List (Char × Bool))
  | ('!', false) :: cs => (ranges true cs).map fun r => (.set true r.1, r.2)
  | ('^', false) :: cs => (ranges true cs).map fun r => (.set true r.1, r.2)
  | cs => (ranges true cs).map fun r => (.set false r.1, r.2)

/-- The pieces of a pattern of at most `n` characters.  A `[` that is never closed
stands for itself. -/
def piecesUpTo : ℕ → List (Char × Bool) → List Piece
  | 0, _ => []
  | _, [] => []
  | n + 1, ('*', false) :: cs =>
      -- a backslash at the end is not matched directly behind a star
      if (cs.dropWhile fun c => c = ('*', false) || c = ('?', false)) = [('\\', false)] then
        [.set false []]
      else .star :: piecesUpTo n cs
  | n + 1, ('?', false) :: cs => .any :: piecesUpTo n cs
  | n + 1, ('[', false) :: cs =>
      match bracketed cs with
      | some (set, rest) => set :: piecesUpTo n rest
      | none => .char '[' :: piecesUpTo n cs
  | n + 1, c :: cs => .char c.1 :: piecesUpTo n cs

def pieces (w : Word) : List Piece := piecesUpTo w.length (quoting w)

namespace Piece

/-- The piece stands for the single character `c`. -/
def accepts : Piece → Char → Bool
  | star, _ => false
  | any, _ => true
  | set negated ranges, c => (ranges.any fun r => r.1 ≤ c && c ≤ r.2) != negated
  | char d, c => d = c

end Piece

/-- A name as a whole matches the pieces of a pattern. -/
def fits : List Piece → Word → Bool
  | [], name => name.isEmpty
  | .star :: ps, name => name.tails.any (fits ps)
  | _ :: _, [] => false
  | p :: ps, c :: name => p.accepts c && fits ps name

/-- A file name that the pattern matches.  A leading period is only matched by a
pattern that has it. -/
def fitsName (w name : Word) : Bool :=
  (name.head? != some '.' || (quoting w).head?.any (·.1 = '.')) && fits (pieces w) name

/-- A word that field splitting and file name expansion leave alone. -/
structure Plain (w : Word) : Prop where
  ne_nil : w ≠ []
  noBlank : ∀ c ∈ w, isBlank c = false
  not_isPattern : isPattern w = false

instance (w : Word) : Decidable (Plain w) :=
  haveI : Decidable (∀ c ∈ w, isBlank c = false) := List.decidableBAll _ w
  decidable_of_iff (w ≠ [] ∧ (∀ c ∈ w, isBlank c = false) ∧ isPattern w = false)
    ⟨fun h => ⟨h.1, h.2.1, h.2.2⟩, fun h => ⟨h.1, h.2, h.3⟩⟩

theorem mem_of_mem_quoting {w : Word} {x : Char × Bool} (h : x ∈ quoting w) : x.1 ∈ w := by
  induction w using quoting.induct with
  | case1 c w ih =>
      rw [quoting, List.mem_cons] at h
      rcases h with rfl | h
      · simp
      · simp [ih h]
  | case2 c w hquote ih =>
      rw [quoting, List.mem_cons] at h
      · rcases h with rfl | h
        · simp
        · simp [ih h]
      · exact hquote
  | case3 => simp [quoting] at h

theorem mem_of_mem_unquote {w : Word} {c : Char} (h : c ∈ unquote w) : c ∈ w := by
  obtain ⟨x, hx, rfl⟩ := List.mem_map.mp h
  exact mem_of_mem_quoting (List.mem_of_mem_filter hx)

theorem splitOnP_append {p : Char → Bool} {u : Word} (h : ∀ c ∈ u, p c = false) (v : Word) :
    (u ++ v).splitOnP p = (v.splitOnP p).modifyHead (u ++ ·) := by
  induction u with
  | nil => cases hv : v.splitOnP p <;> simp [hv]
  | cons c u ih =>
      rw [List.forall_mem_cons] at h
      rw [List.cons_append, List.splitOnP_cons_eq_if_modifyHead, ih h.2, h.1]
      cases hv : v.splitOnP p <;> simp

theorem fields_of_noBlank {w : Word} (hne : w ≠ []) (h : ∀ c ∈ w, isBlank c = false) :
    fields w = [w] := by
  have hsplit : w.splitOnP isBlank = [w] := List.splitOnP_eq_singleton h
  simp [fields, hsplit, hne]

/-- A word with a character that is not blank has a field. -/
theorem fields_ne_nil {w : Word} (h : ∃ c ∈ w, isBlank c = false) : fields w ≠ [] := by
  have key : ∀ w : Word, (∀ y ∈ w.splitOnP isBlank, y = []) → ∀ c ∈ w, isBlank c := by
    intro w
    induction w with
    | nil => simp
    | cons d w ih =>
        rw [List.splitOnP_cons_eq_if_modifyHead]
        split
        · rename_i hd
          intro hall c hc
          rcases List.mem_cons.mp hc with rfl | hc
          · exact hd
          · exact ih (fun y hy => hall y (List.mem_cons_of_mem _ hy)) c hc
        · cases hw : w.splitOnP isBlank with
          | nil => exact absurd hw (List.splitOnP_ne_nil _ w)
          | cons z zs =>
              intro hall
              exact absurd (hall (d :: z) List.mem_cons_self) (List.cons_ne_nil d z)
  intro hfields
  obtain ⟨c, hc, hblank⟩ := h
  have hall : ∀ y ∈ w.splitOnP isBlank, y = [] := by
    simpa [fields, List.filter_eq_nil_iff] using hfields
  rw [key w hall c hc] at hblank
  cases hblank

theorem Plain.fields {w : Word} (h : Plain w) : fields w = [w] :=
  fields_of_noBlank h.ne_nil h.noBlank

/-- Bracket expressions, hidden names, quoted characters and a `[` that stays open. -/
example : fitsName "tst_[a-c]?".toList "tst_b1".toList = true ∧
    fitsName "[!.]*".toList ".git".toList = false ∧
    fitsName "a[\\]x]\\*".toList "a]*".toList = true ∧
    isPattern "a[\\*".toList = false ∧ unquote "a\\b\\".toList = "ab".toList := by
  decide +kernel

end FrameworkTests.Runner
