import Mathlib.Data.List.Basic
import Mathlib.Tactic.Common

/-!
# A random-access array with one position

`Cursor α` is an array that grows and one position in it, shared by reads and
writes.  A write overwrites from the position on and extends the array when it
runs past the end; a seek past the end pads up to the target.  The position never
lies past the end: that is a field, so no operation can leave it there.

## Main definitions

* `Cursor.unread` — the content from the position to the end.
* `Cursor.read`, `Cursor.write`, `Cursor.append`, `Cursor.seek`, `Cursor.rewind` — the
  operations.
* `Cursor.write_rewind_eq_iff` — when overwriting and rewinding amounts to
  appending behind what is unread.
-/

namespace FrameworkTests

/-- Content and one position in it. -/
@[ext] structure Cursor (α : Type*) where
  data : List α
  pos : ℕ
  pos_le : pos ≤ data.length
  deriving DecidableEq

namespace Cursor
variable {α : Type*}

/-- The empty array. -/
def empty : Cursor α := ⟨[], 0, Nat.zero_le _⟩

/-- A cursor at the start of the given content. -/
def ofList (xs : List α) : Cursor α := ⟨xs, 0, Nat.zero_le _⟩

/-- What lies between the position and the end. -/
def unread (c : Cursor α) : List α := c.data.drop c.pos

/-- Read at most `n` elements and advance past them. -/
def read (n : ℕ) (c : Cursor α) : List α × Cursor α :=
  (c.unread.take n, ⟨c.data, min (c.pos + n) c.data.length, Nat.min_le_right _ _⟩)

/-- Overwrite from the position on, extending the array when `xs` runs past the
end, and advance past what was written. -/
def write (xs : List α) (c : Cursor α) : Cursor α :=
  ⟨c.data.take c.pos ++ xs ++ c.data.drop (c.pos + xs.length), c.pos + xs.length, by
    have := c.pos_le
    simp only [List.length_append, List.length_take, List.length_drop]
    omega⟩

/-- Grow the array behind the back of the position. -/
def append (xs : List α) (c : Cursor α) : Cursor α :=
  ⟨c.data ++ xs, c.pos, by have := c.pos_le; simp; omega⟩

/-- Move to `p`, padding with `pad` when `p` lies past the end. -/
def seek (pad : α) (p : ℕ) (c : Cursor α) : Cursor α :=
  ⟨c.data ++ List.replicate (p - c.data.length) pad, p, by simp; omega⟩

/-- Move to the start. -/
def rewind (c : Cursor α) : Cursor α := ofList c.data

@[simp] theorem data_empty : (empty : Cursor α).data = [] := rfl
@[simp] theorem pos_empty : (empty : Cursor α).pos = 0 := rfl
@[simp] theorem data_ofList (xs : List α) : (ofList xs).data = xs := rfl
@[simp] theorem pos_ofList (xs : List α) : (ofList xs).pos = 0 := rfl
@[simp] theorem unread_ofList (xs : List α) : (ofList xs).unread = xs := rfl
@[simp] theorem data_rewind (c : Cursor α) : c.rewind.data = c.data := rfl
@[simp] theorem pos_rewind (c : Cursor α) : c.rewind.pos = 0 := rfl
@[simp] theorem unread_rewind (c : Cursor α) : c.rewind.unread = c.data := rfl
@[simp] theorem data_append (xs : List α) (c : Cursor α) :
    (c.append xs).data = c.data ++ xs := rfl
@[simp] theorem pos_append (xs : List α) (c : Cursor α) : (c.append xs).pos = c.pos := rfl
@[simp] theorem data_read (n : ℕ) (c : Cursor α) : (c.read n).2.data = c.data := rfl
@[simp] theorem pos_read (n : ℕ) (c : Cursor α) :
    (c.read n).2.pos = min (c.pos + n) c.data.length := rfl
@[simp] theorem read_fst (n : ℕ) (c : Cursor α) : (c.read n).1 = c.unread.take n := rfl
@[simp] theorem pos_seek (pad : α) (p : ℕ) (c : Cursor α) : (c.seek pad p).pos = p := rfl
@[simp] theorem pos_write (xs : List α) (c : Cursor α) :
    (c.write xs).pos = c.pos + xs.length := rfl

theorem data_seek (pad : α) (p : ℕ) (c : Cursor α) :
    (c.seek pad p).data = c.data ++ List.replicate (p - c.data.length) pad := rfl

theorem data_write (xs : List α) (c : Cursor α) :
    (c.write xs).data = c.data.take c.pos ++ xs ++ c.data.drop (c.pos + xs.length) := rfl

@[simp] theorem length_unread (c : Cursor α) : c.unread.length = c.data.length - c.pos := by
  simp [unread]

theorem unread_eq_nil_iff (c : Cursor α) : c.unread = [] ↔ c.pos = c.data.length := by
  have := c.pos_le
  rw [unread, List.drop_eq_nil_iff]
  omega

/-- A read consumes exactly what it hands out. -/
@[simp] theorem unread_read (n : ℕ) (c : Cursor α) : (c.read n).2.unread = c.unread.drop n := by
  simp only [unread, data_read, pos_read, List.drop_drop]
  by_cases h : c.pos + n ≤ c.data.length
  · rw [Nat.min_eq_left h]
  · rw [Nat.min_eq_right (by omega), List.drop_eq_nil_of_le (Nat.le_refl _),
      List.drop_eq_nil_of_le (by omega)]

/-- Inside the content a seek changes the position only. -/
theorem data_seek_of_le (pad : α) {p : ℕ} {c : Cursor α} (h : p ≤ c.data.length) :
    (c.seek pad p).data = c.data := by
  simp [data_seek, Nat.sub_eq_zero_of_le h]

/-- Seeking back to where it was undoes a rewind. -/
theorem seek_rewind (pad : α) (c : Cursor α) : c.rewind.seek pad c.pos = c := by
  ext1
  · exact data_seek_of_le pad c.pos_le
  · rfl

/-- What is appended is read after what was unread. -/
theorem unread_append (xs : List α) (c : Cursor α) : (c.append xs).unread = c.unread ++ xs := by
  rw [unread, data_append, pos_append, List.drop_append_of_le_length c.pos_le]
  rfl

/-- A seek changes the content exactly when it goes past the end. -/
theorem data_seek_eq_iff (pad : α) (p : ℕ) (c : Cursor α) :
    (c.seek pad p).data = c.data ↔ p ≤ c.data.length := by
  rw [data_seek, List.append_right_eq_self, List.replicate_eq_nil_iff]
  omega

theorem length_data_seek (pad : α) (p : ℕ) (c : Cursor α) :
    (c.seek pad p).data.length = max c.data.length p := by
  simp only [data_seek, List.length_append, List.length_replicate]
  omega

/-- A write at the end appends. -/
theorem data_write_of_unread_eq_nil {c : Cursor α} (h : c.unread = []) (xs : List α) :
    (c.write xs).data = c.data ++ xs := by
  have hpos := (unread_eq_nil_iff c).mp h
  have hlen : c.data.length ≤ c.pos + xs.length := by omega
  simp [data_write, hpos ▸ List.take_length, List.drop_eq_nil_of_le hlen]

theorem unread_write_of_unread_eq_nil {c : Cursor α} (h : c.unread = []) (xs : List α) :
    (c.write xs).unread = [] := by
  have hpos := (unread_eq_nil_iff c).mp h
  rw [unread_eq_nil_iff, data_write_of_unread_eq_nil h, pos_write, hpos, List.length_append]

theorem length_take_pos (c : Cursor α) : (c.data.take c.pos).length = c.pos := by
  have := c.pos_le
  simp only [List.length_take]
  omega

/-- The content after an overwrite, in terms of what is unread. -/
theorem data_write_eq_unread (xs : List α) (c : Cursor α) :
    (c.write xs).data = c.data.take c.pos ++ xs ++ c.unread.drop xs.length := by
  rw [data_write, unread, List.drop_drop]

/-- Overwriting at the position is, up to the rewind behind it, the same as
appending to the unread part: as many elements were read as are overwritten, they
repeat at the head of the unread part, and `xs` commutes with what is left. -/
def OverwriteAppends (c : Cursor α) (xs : List α) : Prop :=
  c.pos = min xs.length c.unread.length ∧ c.data.take c.pos = c.unread.take c.pos ∧
    xs ++ c.unread.drop c.pos = c.unread.drop c.pos ++ xs

instance [DecidableEq α] (c : Cursor α) (xs : List α) : Decidable (c.OverwriteAppends xs) :=
  inferInstanceAs (Decidable (_ ∧ _ ∧ _))

private theorem overwrite_eq_append_iff (A xs u : List α) :
    A ++ xs ++ u.drop xs.length = u ++ xs ↔
      A.length = min xs.length u.length ∧ A = u.take A.length ∧
        xs ++ u.drop A.length = u.drop A.length ++ xs := by
  -- either way the length of `A` makes the two suffixes of `u` one
  have hdrop : A.length = min xs.length u.length → u.drop xs.length = u.drop A.length := by
    intro hmin
    rcases Nat.le_total xs.length u.length with hx | hx
    · rw [hmin, Nat.min_eq_left hx]
    · rw [List.drop_eq_nil_of_le hx, List.drop_eq_nil_of_le (by omega)]
  constructor
  · intro h
    have hlen := congrArg List.length h
    simp only [List.length_append, List.length_drop] at hlen
    have hmin : A.length = min xs.length u.length := by omega
    have hle : A.length ≤ u.length := by omega
    have hhead := congrArg (List.take A.length) h
    have htail := congrArg (List.drop A.length) h
    rw [List.append_assoc, List.take_left, List.take_append_of_le_length hle] at hhead
    rw [List.append_assoc, List.drop_left, List.drop_append_of_le_length hle] at htail
    exact ⟨hmin, hhead, hdrop hmin ▸ htail⟩
  · rintro ⟨hmin, hhead, hcomm⟩
    calc A ++ xs ++ u.drop xs.length
        = A ++ (xs ++ u.drop A.length) := by rw [List.append_assoc, hdrop hmin]
      _ = u.take A.length ++ (u.drop A.length ++ xs) := by rw [hcomm, ← hhead]
      _ = u ++ xs := by rw [← List.append_assoc, List.take_append_drop]

/-- **Overwriting and rewinding appends behind the unread part exactly when
`OverwriteAppends` holds.** -/
theorem write_rewind_eq_iff (xs : List α) (c : Cursor α) :
    (c.write xs).rewind.unread = c.unread ++ xs ↔ c.OverwriteAppends xs := by
  rw [unread_rewind, data_write_eq_unread, overwrite_eq_append_iff, length_take_pos]
  rfl

end Cursor
end FrameworkTests
