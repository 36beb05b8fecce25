import Mathlib.Data.List.DropRight
import Mathlib.Tactic.Common

/-!
# A line of text with a cursor

The text is split at the cursor.  The commands of a line editor move the cursor, delete on
one of its sides, or put a character there as long as there is room.
-/

namespace Hlk7621

structure Cursor (α : Type) where
  before : List α
  after : List α
  deriving DecidableEq

namespace Cursor

variable {α : Type}

def text (t : Cursor α) : List α := t.before ++ t.after

def behind (s : List α) : Cursor α := ⟨s, []⟩

def home (t : Cursor α) : Cursor α := ⟨[], t.text⟩

def toEnd (t : Cursor α) : Cursor α := behind t.text

def right : Cursor α -> Cursor α
  | ⟨before, []⟩ => ⟨before, []⟩
  | ⟨before, c :: after⟩ => ⟨before ++ [c], after⟩

def left (t : Cursor α) : Cursor α := ⟨t.before.dropLast, t.before.getLast?.toList ++ t.after⟩

def deleteRight (t : Cursor α) : Cursor α := ⟨t.before, t.after.tail⟩

def deleteLeft (t : Cursor α) : Cursor α := ⟨t.before.dropLast, t.after⟩

def deleteToEnd (t : Cursor α) : Cursor α := ⟨t.before, []⟩

/-- The word in front of the cursor, with the blanks behind it, is deleted. -/
def deleteWord (blank : α -> Bool) (t : Cursor α) : Cursor α :=
  ⟨(t.before.rdropWhile blank).rdropWhile fun c => !blank c, t.after⟩

/-- A character is put in if the text has less than `room` characters. -/
def insert (room : Nat) (c : α) (t : Cursor α) : Cursor α :=
  if t.text.length < room then ⟨t.before ++ [c], t.after⟩ else t

def overwrite (room : Nat) (c : α) (t : Cursor α) : Cursor α :=
  if t.after = [] then insert room c t else ⟨t.before ++ [c], t.after.tail⟩

theorem insert_of_lt {room : Nat} {t : Cursor α} (h : t.text.length < room) (c : α) :
    t.insert room c = ⟨t.before ++ [c], t.after⟩ :=
  if_pos h

theorem insert_of_le {room : Nat} {t : Cursor α} (h : room ≤ t.text.length) (c : α) :
    t.insert room c = t :=
  if_neg (Nat.not_lt.mpr h)

/-!
## The text after a command
-/

theorem text_home (t : Cursor α) : t.home.text = t.text := rfl

theorem text_toEnd (t : Cursor α) : t.toEnd.text = t.text := List.append_nil _

theorem text_right (t : Cursor α) : t.right.text = t.text := by
  rcases t with ⟨before, _ | ⟨c, after⟩⟩
  · rfl
  · exact (List.append_cons before c after).symm

theorem text_left (t : Cursor α) : t.left.text = t.text := by
  rcases t with ⟨before, after⟩
  rcases List.eq_nil_or_concat before with rfl | ⟨front, c, rfl⟩
  · rfl
  · simp [left, text]

theorem deleteToEnd_sublist (t : Cursor α) : t.deleteToEnd.text.Sublist t.text :=
  (List.Sublist.refl _).append (List.nil_sublist _)

end Cursor
end Hlk7621
