import Hlk7621.Lib.Cursor
import Hlk7621.UBoot.Cread

/-!
# The line editor

What the keys are for: a line of at most `room` characters with a cursor, and whether
characters are inserted or overwrite those at the cursor.  The code keeps such a line in its
buffer and terminates it with a NUL behind every key.
-/

namespace Hlk7621
namespace UBoot
namespace Cread

open Buffer

structure Editor where
  cursor : Cursor UInt8
  insert : Bool
  deriving DecidableEq

def Editor.put (room : Nat) (ichar : UInt8) (e : Editor) : Editor :=
  { e with
    cursor :=
      if e.insert then e.cursor.insert room ichar else e.cursor.overwrite room ichar }

def Editor.press (room : Nat) (ichar : UInt8) (e : Editor) : Key -> Editor
  | .ctlA => { e with cursor := e.cursor.home }
  | .ctlB => { e with cursor := e.cursor.left }
  | .ctlD => { e with cursor := e.cursor.deleteRight }
  | .ctlE => { e with cursor := e.cursor.toEnd }
  | .ctlF => { e with cursor := e.cursor.right }
  | .ctlK => { e with cursor := e.cursor.deleteToEnd }
  | .ctlO => { e with insert := !e.insert }
  | .ctlW => { e with cursor := e.cursor.deleteWord fun c => c == 32 }
  | .ctlU => { e with cursor := Cursor.behind [] }
  | .del => { e with cursor := e.cursor.deleteLeft }
  | .ctlC | .ctlP | .ctlN => e
  | .tab | .other => e.put room ichar

/-- The state of a line in a buffer of `room + 1` bytes, with `tail` behind the text. -/
structure Holds (room : Nat) (cls : Cls) (e : Editor) (tail : Bytes) : Prop where
  size : cls.len = room
  mode : cls.insert = e.insert
  history : cls.history = true
  complete : cls.cmdComplete = true
  num : cls.num = e.cursor.before.length
  eol : cls.eolNum = e.cursor.text.length
  buf : cls.buf = e.cursor.text ++ tail
  fits : e.cursor.text.length + tail.length = room + 1
  noNul : 0 ∉ e.cursor.text

def Gives (room : Nat) (x : Option Cls) (e : Editor) : Prop :=
  exists cls c tail, x = some cls ∧ Holds room cls e (c :: tail)

variable {room : Nat} {cls : Cls} {e : Editor} {c : UInt8} {tail : Bytes}

theorem Holds.text_le (h : Holds room cls e (c :: tail)) : e.cursor.text.length ≤ room := by
  have hfits := h.fits
  rw [List.length_cons] at hfits
  lia

theorem Holds.num_le (h : Holds room cls e tail) : cls.num ≤ cls.eolNum := by
  rw [h.num, h.eol, Cursor.text, List.length_append]
  exact Nat.le_add_right _ _

theorem Holds.after (h : Holds room cls e tail) :
    cls.eolNum = cls.num + e.cursor.after.length := by
  rw [h.num, h.eol, Cursor.text, List.length_append]

theorem Holds.parts (h : Holds room cls e tail) :
    cls.buf = e.cursor.before ++ (e.cursor.after ++ tail) := by
  rw [h.buf, Cursor.text, List.append_assoc]

theorem Holds.change (h : Holds room cls e tail) {num eolNum : Nat} {buf tail' : Bytes}
    {t : Cursor UInt8} (hnum : num = t.before.length) (heol : eolNum = t.text.length)
    (hbuf : buf = t.text ++ tail') (hfits : t.text.length + tail'.length = room + 1)
    (hnul : 0 ∉ t.text) :
    Holds room { cls with num := num, eolNum := eolNum, buf := buf } { e with cursor := t }
      tail' :=
  ⟨h.size, h.mode, h.history, h.complete, hnum, heol, hbuf, hfits, hnul⟩

theorem Holds.move (h : Holds room cls e tail) {num : Nat} {t : Cursor UInt8}
    (ht : t.text = e.cursor.text) (hnum : num = t.before.length) :
    Holds room { cls with num := num } { e with cursor := t } tail :=
  h.change hnum (ht ▸ h.eol) (ht ▸ h.buf) (ht ▸ h.fits) (ht ▸ h.noNul)

/-!
## Moving
-/

theorem beginningOfLine_eq (num : Nat) : beginningOfLine num = 0 := by
  induction num with
  | zero => rfl
  | succ num ih => exact ih

theorem eraseLoop_eq {num eolNum : Nat} (h : num < eolNum) : eraseLoop num eolNum = num := by
  induction eolNum with
  | zero => cases h
  | succ eolNum ih =>
      rw [eraseLoop]
      split
      case isTrue hgt => exact ih hgt
      case isFalse hle => lia

theorem eraseToEol_eq {num eolNum : Nat} (h : num ≤ eolNum) : eraseToEol num eolNum = num := by
  unfold eraseToEol
  split
  case isTrue hlt => exact eraseLoop_eq hlt
  case isFalse hge => lia

theorem ctlA_gives (h : Holds room cls e (c :: tail)) :
    Gives room (some { cls with num := beginningOfLine cls.num })
      { e with cursor := e.cursor.home } := by
  rw [beginningOfLine_eq]
  exact ⟨_, c, tail, rfl, h.move (Cursor.text_home _) rfl⟩

theorem refreshToEol_gives (h : Holds room cls e (c :: tail)) :
    Gives room (refreshToEol cls) { e with cursor := e.cursor.toEnd } := by
  have hlength := congrArg List.length h.buf
  rw [List.length_append, <- h.eol] at hlength
  unfold refreshToEol
  split
  case isTrue hlt =>
    rw [putnstr_inside (by lia)]
    exact ⟨_, c, tail, rfl, h.move (Cursor.text_toEnd _) h.eol⟩
  case isFalse hge =>
    have hle := h.num_le
    have hnum : cls.num = cls.eolNum := by lia
    exact ⟨_, c, tail, rfl, h.move (Cursor.text_toEnd _) (hnum.trans h.eol)⟩

theorem forwardChar_gives (h : Holds room cls e (c :: tail)) :
    Gives room (forwardChar cls) { e with cursor := e.cursor.right } := by
  have hafter := h.after
  have hparts := h.parts
  have hnum := h.num
  have hmove : forall num, num = e.cursor.right.before.length ->
      Holds room { cls with num := num } { e with cursor := e.cursor.right } (c :: tail) :=
    fun num hnum => h.move (Cursor.text_right _) hnum
  unfold forwardChar
  rcases hcursor : e.cursor with ⟨before, _ | ⟨x, after⟩⟩
  · rw [hcursor] at hafter hnum hmove
    rw [if_neg (by simpa using Nat.le_of_eq hafter)]
    exact ⟨_, c, tail, rfl, hmove cls.num hnum⟩
  · rw [hcursor] at hafter hnum hmove hparts
    have hload : load cls.buf cls.num = some x := by
      rw [hparts, hnum]
      exact load_at before x (after ++ c :: tail)
    rw [if_pos (by rw [hafter, List.length_cons]; lia), hload]
    refine ⟨_, c, tail, rfl, hmove (cls.num + 1) ?_⟩
    rw [Cursor.right, List.length_append, hnum]
    rfl

theorem backwardChar_gives (h : Holds room cls e (c :: tail)) :
    Gives room (some (backwardChar cls)) { e with cursor := e.cursor.left } := by
  have hmove : forall num, num = e.cursor.left.before.length ->
      Holds room { cls with num := num } { e with cursor := e.cursor.left } (c :: tail) :=
    fun num hnum => h.move (Cursor.text_left _) hnum
  have hlength : e.cursor.left.before.length = cls.num - 1 := by
    rw [Cursor.left, List.length_dropLast, h.num]
  unfold backwardChar
  split
  case isTrue => exact ⟨_, c, tail, rfl, hmove _ hlength.symm⟩
  case isFalse hzero =>
    refine ⟨_, c, tail, rfl, hmove cls.num ?_⟩
    lia

/-!
## Deleting
-/

theorem ctlK_gives (h : Holds room cls e (c :: tail)) :
    Gives room (some { cls with eolNum := eraseToEol cls.num cls.eolNum })
      { e with cursor := e.cursor.deleteToEnd } := by
  rw [eraseToEol_eq h.num_le]
  rcases hrest : e.cursor.after ++ c :: tail with _ | ⟨c', tail'⟩
  · simp at hrest
  · have hlength := congrArg List.length hrest
    have hfits := h.fits
    simp only [List.length_append, List.length_cons, Cursor.text] at hlength hfits
    refine ⟨_, c', tail', rfl, h.change h.num ?_ ?_ ?_ ?_⟩
    · simpa [Cursor.deleteToEnd, Cursor.text] using h.num
    · rw [h.parts, hrest, Cursor.text, Cursor.deleteToEnd, List.append_nil]
    · simp only [Cursor.deleteToEnd, Cursor.text, List.append_nil, List.length_cons]
      lia
    · exact fun hmem => h.noNul ((Cursor.deleteToEnd_sublist _).subset hmem)

theorem ctlU_gives (h : Holds room cls e (c :: tail)) :
    Gives room
      (some
        { cls with
          num := beginningOfLine cls.num
          eolNum := eraseToEol (beginningOfLine cls.num) cls.eolNum })
      { e with cursor := Cursor.behind [] } := by
  rw [beginningOfLine_eq, eraseToEol_eq (Nat.zero_le _)]
  rcases hrest : e.cursor.text ++ c :: tail with _ | ⟨c', tail'⟩
  · simp at hrest
  · have hlength := congrArg List.length hrest
    rw [List.length_append, h.fits] at hlength
    exact ⟨_, c', tail', rfl,
      h.change rfl rfl (h.buf.trans hrest) ((Nat.zero_add _).trans hlength.symm)
        List.not_mem_nil⟩

theorem Holds.delete (h : Holds room cls e (c :: tail)) {front gap after : Bytes}
    (htext : e.cursor.text = front ++ (gap ++ after)) {buf tail' : Bytes}
    (hbuf : buf = front ++ (after ++ tail'))
    (hlength : tail'.length = gap.length + (tail.length + 1)) :
    exists c' rest, Holds room
      { cls with num := front.length, eolNum := front.length + after.length, buf := buf }
      { e with cursor := ⟨front, after⟩ } (c' :: rest) := by
  have hfits := h.fits
  rw [htext] at hfits
  simp only [List.length_append, List.length_cons] at hfits
  rcases tail' with _ | ⟨c', rest⟩
  · simp at hlength
  · refine ⟨c', rest, h.change rfl ?_ ?_ ?_ ?_⟩
    · rw [Cursor.text, List.length_append]
    · rw [hbuf, Cursor.text, List.append_assoc]
    · rw [Cursor.text, List.length_append, hlength]
      lia
    · intro hmem
      apply h.noNul
      rw [htext]
      rcases List.mem_append.mp hmem with hfront | hafter
      · exact List.mem_append_left _ hfront
      · exact List.mem_append_right _ (List.mem_append_right _ hafter)

theorem deleteChar_gives (h : Holds room cls e (c :: tail)) :
    Gives room (deleteChar cls) { e with cursor := e.cursor.deleteRight } := by
  rcases e with ⟨⟨before, after⟩, insert⟩
  have hafter : cls.eolNum = cls.num + after.length := h.after
  have hparts : cls.buf = before ++ (after ++ c :: tail) := h.parts
  have hnum : cls.num = before.length := h.num
  unfold deleteChar
  rcases after with _ | ⟨x, after⟩
  · rw [if_neg (by simpa using Nat.le_of_eq hafter)]
    exact ⟨_, c, tail, rfl, h⟩
  · rw [List.length_cons] at hafter
    have hwlen : cls.eolNum - cls.num - 1 = after.length := by lia
    have heol : cls.eolNum - 1 = before.length + after.length := by lia
    have htext : before ++ x :: after = before ++ ([x] ++ after) := rfl
    have hdelete : forall {buf tail' : Bytes}, buf = before ++ (after ++ tail') ->
        tail'.length = [x].length + (tail.length + 1) ->
        Gives room (some { cls with eolNum := cls.eolNum - 1, buf := buf })
          { cursor := ⟨before, after⟩, insert := insert } := by
      intro buf tail' hbuf hlength
      rcases h.delete htext hbuf hlength with ⟨c', rest, hholds⟩
      rw [heol]
      rw [<- hnum] at hholds ⊢
      exact ⟨_, c', rest, rfl, hholds⟩
    rw [if_pos (by lia), hwlen]
    dsimp only
    by_cases hlast : after = []
    · rw [if_neg (not_not_intro (by rw [hlast]; rfl))]
      have hbuf : cls.buf = before ++ (after ++ x :: c :: tail) := by
        rw [hparts, hlast]
        rfl
      apply hdelete hbuf
      simp only [List.length_cons, List.length_nil]
      lia
    · rcases memmove_down before [x] after (c :: tail) with ⟨tail', hlength, hmove⟩
      have hmoved : memmove cls.buf cls.num (cls.num + 1) after.length =
          some (before ++ (after ++ tail')) := by
        rw [hparts, hnum]
        exact hmove
      rw [if_pos (by simpa using hlast), hmoved]
      have hshown : putnstr (before ++ (after ++ tail')) cls.num after.length = some () :=
        putnstr_inside (by simp only [List.length_append]; lia)
      simp only [Option.bind_eq_bind, Option.bind_some, hshown]
      exact hdelete rfl hlength

theorem deleteBackward_gives (h : Holds room cls e (c :: tail)) :
    Gives room (deleteBackward cls) { e with cursor := e.cursor.deleteLeft } := by
  rcases e with ⟨⟨before, after⟩, insert⟩
  have hafter : cls.eolNum = cls.num + after.length := h.after
  have hparts : cls.buf = before ++ (after ++ c :: tail) := h.parts
  have hnum : cls.num = before.length := h.num
  unfold deleteBackward
  rcases List.eq_nil_or_concat before with rfl | ⟨front, x, rfl⟩
  · have hzero : cls.num = 0 := hnum
    rw [if_neg (not_not_intro hzero)]
    exact ⟨_, c, tail, rfl, h⟩
  · rw [List.concat_eq_append] at *
    rw [List.length_append, List.length_singleton] at hnum
    have htext : front ++ [x] ++ after = front ++ ([x] ++ after) := List.append_assoc _ _ _
    rcases memmove_down front [x] after (c :: tail) with ⟨tail', hlength, hmove⟩
    have hmoved : memmove cls.buf (cls.num - 1) (cls.num - 1 + 1) (cls.eolNum - cls.num) =
        some (front ++ (after ++ tail')) := by
      rw [hparts, hafter, hnum, List.append_assoc, Nat.add_sub_cancel, Nat.add_sub_cancel_left]
      exact hmove
    have hshown : putnstr (front ++ (after ++ tail')) (cls.num - 1) (cls.eolNum - cls.num) =
        some () := putnstr_inside (by simp only [List.length_append]; lia)
    rcases h.delete htext rfl hlength with ⟨c', rest, hholds⟩
    rw [if_pos (by lia)]
    dsimp only
    simp only [hmoved, Option.bind_eq_bind, Option.bind_some, hshown]
    rw [hafter, hnum, Nat.add_sub_cancel, Nat.add_right_comm, Nat.add_sub_cancel]
    rw [Cursor.deleteLeft, List.dropLast_concat]
    exact ⟨_, c', rest, rfl, hholds⟩

theorem goBack_at (kind : UInt8 -> Bool) (front rest : Bytes) :
    goBack kind (front ++ rest) front.length = some (front.rdropWhile kind).length := by
  induction front using List.reverseRecOn generalizing rest with
  | nil => rfl
  | append_singleton front c ih =>
      rw [List.length_append, List.length_singleton, goBack, List.append_assoc,
        List.singleton_append, load_at, Option.bind_eq_bind, Option.bind_some]
      by_cases hkind : kind c = true
      · rw [if_pos hkind, List.rdropWhile_concat_pos _ _ _ hkind]
        exact ih (c :: rest)
      · rw [if_neg hkind, List.rdropWhile_concat_neg _ _ _ hkind, List.length_append]
        rfl

theorem deleteWord_gives (h : Holds room cls e (0 :: tail)) :
    Gives room (deleteWord cls) { e with cursor := e.cursor.deleteWord fun c => c == 32 } := by
  rcases e with ⟨⟨before, after⟩, insert⟩
  have hafter : cls.eolNum = cls.num + after.length := h.after
  have hparts : cls.buf = before ++ (after ++ 0 :: tail) := h.parts
  have hnum : cls.num = before.length := h.num
  have hnul : 0 ∉ after := fun hmem => h.noNul (List.mem_append_right _ hmem)
  unfold deleteWord
  by_cases hzero : cls.num = 0
  · rw [if_neg (not_not_intro hzero)]
    have hbefore : before = [] := List.eq_nil_of_length_eq_zero (hnum.symm.trans hzero)
    rw [hbefore] at h ⊢
    exact ⟨_, 0, tail, rfl, h⟩
  · rw [if_pos hzero]
    have hblank := goBack_at (fun c => c == 32) before (after ++ 0 :: tail)
    rw [<- hparts, <- hnum] at hblank
    rcases List.rdropWhile_prefix (fun c => c == 32) before with ⟨blanks, hblanks⟩
    rw [Cursor.deleteWord]
    dsimp only
    generalize before.rdropWhile (fun c => c == 32) = upto at hblank hblanks ⊢
    have hword := goBack_at (fun c => !(c == 32)) upto (blanks ++ (after ++ 0 :: tail))
    rw [<- List.append_assoc, hblanks, <- hparts] at hword
    rcases List.rdropWhile_prefix (fun c => !(c == 32)) upto with ⟨word, hupto⟩
    generalize upto.rdropWhile (fun c => !(c == 32)) = front at hword hupto ⊢
    have hbefore : before = front ++ (word ++ blanks) := by
      rw [<- hblanks, <- hupto, List.append_assoc]
    have hlen : cls.num = front.length + (word ++ blanks).length := by
      rw [hnum, hbefore, List.length_append]
    have htext : before ++ after = front ++ (word ++ blanks ++ after) := by
      rw [hbefore, List.append_assoc]
    rcases memmove_down front (word ++ blanks) (after ++ [0]) tail with ⟨tail', hlength, hmove⟩
    have hmoved : memmove cls.buf front.length cls.num
        (cls.eolNum - (cls.num - front.length) - front.length + 1) =
        some (front ++ (after ++ 0 :: tail')) := by
      have hcount : cls.eolNum - (cls.num - front.length) - front.length + 1 =
          (after ++ [0]).length := by
        rw [List.length_append, List.length_singleton]
        lia
      have hbuf : cls.buf = front ++ (word ++ blanks ++ (after ++ [0] ++ tail)) := by
        rw [hparts, hbefore]
        simp only [List.append_assoc, List.singleton_append]
      rw [hcount, hbuf, hlen, hmove, List.append_assoc]
      rfl
    have htail : (0 :: tail').length = (word ++ blanks).length + (tail.length + 1) := by
      rw [List.length_cons]
      lia
    rcases h.delete htext rfl htail with ⟨c', rest, hholds⟩
    simp only [hblank, hword, hmoved, string_at front hnul, Option.bind_eq_bind,
      Option.bind_some]
    rw [show cls.eolNum - (cls.num - front.length) = front.length + after.length by lia]
    exact ⟨_, c', rest, rfl, hholds⟩

/-!
## Adding
-/

theorem Holds.put {before after after' : Bytes} {insert : Bool}
    (h : Holds room cls ⟨⟨before, after⟩, insert⟩ (c :: tail)) {ichar : UInt8} (hichar : ichar ≠ 0)
    (hsub : after'.Sublist after) {tail' : Bytes}
    (hfits : before.length + 1 + after'.length + tail'.length = room + 1) :
    Holds room
      { cls with
        num := cls.num + 1
        eolNum := cls.num + 1 + after'.length
        buf := before ++ ichar :: (after' ++ tail') }
      ⟨⟨before ++ [ichar], after'⟩, insert⟩ tail' := by
  have hnum : cls.num = before.length := h.num
  have hlength : (before ++ [ichar] ++ after').length = before.length + 1 + after'.length := by
    simp only [List.length_append, List.length_singleton]
  refine h.change ?_ ?_ ?_ ?_ ?_
  · rw [hnum, List.length_append, List.length_singleton]
  · rw [hnum]
    exact hlength.symm
  · rw [Cursor.text, List.append_assoc, List.append_assoc]
    rfl
  · rw [Cursor.text, hlength, hfits]
  · intro hmem
    rcases List.mem_append.mp hmem with hfront | hafter
    · rcases List.mem_append.mp hfront with hbefore | hnew
      · exact h.noNul (List.mem_append_left _ hbefore)
      · exact hichar (List.mem_singleton.mp hnew).symm
    · exact h.noNul (List.mem_append_right _ (hsub.subset hafter))

theorem creadAddChar_insert (hpos : 0 < room) (hroom : room < 2 ^ 32) {ichar : UInt8}
    (hichar : ichar ≠ 0) {before after : Bytes} {insert : Bool}
    (h : Holds room cls ⟨⟨before, after⟩, insert⟩ (c :: tail)) :
    Gives room (creadAddChar ichar true cls)
      ⟨Cursor.insert room ichar ⟨before, after⟩, insert⟩ := by
  have hafter : cls.eolNum = cls.num + after.length := h.after
  have hparts : cls.buf = before ++ (after ++ c :: tail) := h.parts
  have hnum : cls.num = before.length := h.num
  have heol : cls.eolNum = (before ++ after).length := h.eol
  have hfits : (before ++ after).length + (c :: tail).length = room + 1 := h.fits
  rw [List.length_cons] at hfits
  have hlast : sub32 cls.len 1 = room - 1 := by
    rw [h.size]
    exact sub32_of_le hpos hroom
  unfold creadAddChar
  rw [hlast]
  simp only [Bool.true_or, true_and, if_true]
  by_cases hfull : cls.eolNum > room - 1
  · rw [if_pos hfull, Cursor.insert_of_le (show room ≤ (before ++ after).length by lia)]
    exact ⟨_, c, tail, rfl, h⟩
  · rw [if_neg hfull, Cursor.insert_of_lt (show (before ++ after).length < room by lia)]
    have hmoved : exists c', (if cls.eolNum + 1 - cls.num > 1 then
        memmove cls.buf (cls.num + 1) cls.num (cls.eolNum + 1 - cls.num - 1)
      else some cls.buf) = some (before ++ c' :: (after ++ tail)) := by
      by_cases hend : after = []
      · refine ⟨c, ?_⟩
        rw [if_neg (by rw [hafter, hend, List.length_nil]; lia), hparts, hend]
        rfl
      · have hsome := List.length_pos_of_ne_nil hend
        rcases memmove_up before after c tail with ⟨c', hmove⟩
        refine ⟨c', ?_⟩
        rw [if_pos (by lia), hparts, hnum,
          show cls.eolNum + 1 - before.length - 1 = after.length by lia]
        exact hmove
    rcases hmoved with ⟨c', hmoved⟩
    have hstored : store (before ++ c' :: (after ++ tail)) cls.num ichar =
        some (before ++ ichar :: (after ++ tail)) := by
      rw [hnum]
      exact store_at before c' ichar (after ++ tail)
    rcases tail with _ | ⟨c'', tail⟩
    · simp only [List.length_append, List.length_nil] at hfits heol
      lia
    · have hshown : putnstr (before ++ ichar :: (after ++ c'' :: tail)) cls.num
          (cls.eolNum + 1 - cls.num) = some () :=
        putnstr_inside (by simp only [List.length_append, List.length_cons]; lia)
      simp only [hmoved, hstored, hshown, Option.bind_eq_bind, Option.bind_some]
      rw [show cls.eolNum + 1 = cls.num + 1 + after.length by lia]
      refine ⟨_, c'', tail, rfl, h.put hichar (List.Sublist.refl _) ?_⟩
      simp only [List.length_append, List.length_cons] at hfits ⊢
      lia

theorem creadAddChar_overwrite (hpos : 0 < room) (hroom : room < 2 ^ 32) {ichar : UInt8}
    (hichar : ichar ≠ 0) {before after : Bytes} {insert : Bool}
    (h : Holds room cls ⟨⟨before, after⟩, insert⟩ (c :: tail)) :
    Gives room (creadAddChar ichar false cls)
      ⟨Cursor.overwrite room ichar ⟨before, after⟩, insert⟩ := by
  have hafter : cls.eolNum = cls.num + after.length := h.after
  have hparts : cls.buf = before ++ (after ++ c :: tail) := h.parts
  have hnum : cls.num = before.length := h.num
  have heol : cls.eolNum = (before ++ after).length := h.eol
  have hfits : (before ++ after).length + (c :: tail).length = room + 1 := h.fits
  rw [List.length_cons] at hfits
  have hlast : sub32 cls.len 1 = room - 1 := by
    rw [h.size]
    exact sub32_of_le hpos hroom
  unfold creadAddChar Cursor.overwrite
  rw [hlast]
  simp only [Bool.false_or, beq_iff_eq, Bool.false_eq_true, if_false]
  rcases after with _ | ⟨x, after⟩
  · have hend : cls.num = cls.eolNum := hafter.symm
    simp only [hend, true_and, if_true]
    by_cases hfull : cls.eolNum > room - 1
    · rw [if_pos hfull, Cursor.insert_of_le (show room ≤ (before ++ []).length by lia)]
      exact ⟨_, c, tail, rfl, h⟩
    · rw [if_neg hfull, Cursor.insert_of_lt (show (before ++ []).length < room by lia), <- hend]
      have hstored : store cls.buf cls.num ichar = some (before ++ ichar :: tail) := by
        rw [hparts, hnum]
        exact store_at before c ichar tail
      rcases tail with _ | ⟨c', tail⟩
      · simp only [List.length_append, List.length_nil] at hfits heol
        lia
      · have hshown : putnstr (before ++ ichar :: c' :: tail) cls.num 1 = some () :=
          putnstr_inside (by simp only [List.length_append, List.length_cons]; lia)
        simp only [hstored, hshown, Option.bind_eq_bind, Option.bind_some]
        refine ⟨_, c', tail, rfl, h.put hichar (List.Sublist.refl _) ?_⟩
        simp only [List.length_append, List.length_cons, List.length_nil] at hfits ⊢
        lia
  · rw [List.length_cons] at hafter
    have hmiddle : ¬ cls.num = cls.eolNum := by lia
    have hstored : store cls.buf cls.num ichar =
        some (before ++ ichar :: (after ++ c :: tail)) := by
      rw [hparts, hnum]
      exact store_at before x ichar (after ++ c :: tail)
    have hshown : putnstr (before ++ ichar :: (after ++ c :: tail)) cls.num 1 = some () :=
      putnstr_inside (by simp only [List.length_append, List.length_cons]; lia)
    simp only [hmiddle, false_and, if_false, hstored, hshown, Option.bind_eq_bind,
      Option.bind_some, List.cons_ne_nil, List.tail_cons]
    rw [show cls.eolNum = cls.num + 1 + after.length by lia]
    refine ⟨_, c, tail, rfl, h.put hichar (List.sublist_cons_self _ _) ?_⟩
    simp only [List.length_append, List.length_cons] at hfits ⊢
    lia

theorem creadAddChar_gives (hpos : 0 < room) (hroom : room < 2 ^ 32) {ichar : UInt8}
    (hichar : ichar ≠ 0) (h : Holds room cls e (c :: tail)) :
    Gives room (creadAddChar ichar cls.insert cls) (e.put room ichar) := by
  rw [h.mode]
  rcases e with ⟨⟨before, after⟩, _ | _⟩
  · exact creadAddChar_overwrite hpos hroom hichar h
  · exact creadAddChar_insert hpos hroom hichar h

/-!
## Whole lines
-/

theorem showLine_gives (h : Holds room cls e (c :: tail)) {hline : Bytes} (hnul : 0 ∉ hline)
    (hfits : hline.length ≤ room) :
    Gives room (showLine hline cls) { e with cursor := Cursor.behind hline } := by
  have hlength := congrArg List.length h.buf
  rw [List.length_append, h.fits] at hlength
  rcases strcpy_front (show hline.length < cls.buf.length by lia) with ⟨rest, hrest, hcopy⟩
  have hstrlen : strlen (hline ++ 0 :: rest) 0 = some hline.length := strlen_at [] hnul rest
  unfold showLine
  simp only [hcopy, hstrlen, Option.bind_eq_bind, Option.bind_some, beginningOfLine_eq]
  have hhome : Holds room { cls with num := 0, eolNum := hline.length, buf := hline ++ 0 :: rest }
      { e with cursor := ⟨[], hline⟩ } (0 :: rest) :=
    h.change rfl rfl rfl (by rw [Cursor.text, List.nil_append, List.length_cons]; lia) hnul
  exact refreshToEol_gives hhome

theorem terminate_holds (h : Holds room cls e (c :: tail)) :
    exists cls', terminate cls = some cls' ∧ Holds room cls' e (0 :: tail) := by
  have hstored : store cls.buf cls.eolNum 0 = some (e.cursor.text ++ 0 :: tail) := by
    rw [h.buf, h.eol]
    exact store_at e.cursor.text c 0 tail
  refine ⟨{ cls with buf := e.cursor.text ++ 0 :: tail }, ?_, ?_⟩
  · unfold terminate
    rw [hstored]
    rfl
  · exact h.change h.num h.eol rfl h.fits h.noNul

/-- The characters of the buffer that `cls` has not passed yet are added in their places. -/
theorem creadAddStr_own {front todo rest : Bytes} (hbuf : cls.buf = front ++ (todo ++ 0 :: rest))
    (hnum : cls.num = front.length) (heol : cls.eolNum = front.length) (hsize : cls.len < 2 ^ 32)
    (hfits : front.length + todo.length ≤ cls.len) :
    creadAddStr todo.length front.length cls =
      some
        { cls with
          num := front.length + todo.length
          eolNum := front.length + todo.length } := by
  induction todo generalizing front cls with
  | nil =>
      rcases cls with ⟨num, eolNum, len, insert, history, cmdComplete, buf⟩
      have hnum' : num = front.length := hnum
      have heol' : eolNum = front.length := heol
      rw [hnum', heol']
      rfl
  | cons x todo ih =>
      rw [List.length_cons] at hfits ⊢
      have hload : load cls.buf front.length = some x := by
        rw [hbuf]
        exact load_at front x (todo ++ 0 :: rest)
      have hstored : store cls.buf front.length x = some cls.buf := by
        rw [hbuf]
        exact store_at front x x (todo ++ 0 :: rest)
      have hshown : putnstr cls.buf front.length 1 = some () := by
        apply putnstr_inside
        rw [hbuf]
        simp only [List.length_append, List.length_cons]
        lia
      have hadded : creadAddChar x false cls =
          some { cls with num := front.length + 1, eolNum := front.length + 1 } := by
        have hroom : ¬ front.length > sub32 cls.len 1 := by
          rw [sub32_of_le (by lia) hsize]
          lia
        unfold creadAddChar
        simp only [hnum, heol, hstored, hshown, Option.bind_eq_bind, Option.bind_some,
          Bool.false_or, beq_self_eq_true, Bool.false_eq_true, if_false, hroom, and_false, if_true]
      have hlength : (front ++ [x]).length = front.length + 1 := by
        rw [List.length_append, List.length_singleton]
      let next := { cls with num := front.length + 1, eolNum := front.length + 1 }
      have hbehind : next.buf = front ++ [x] ++ (todo ++ 0 :: rest) := by
        rw [List.append_assoc]
        exact hbuf
      have hroom : (front ++ [x]).length + todo.length ≤ next.len := by
        rw [hlength, Nat.add_assoc, Nat.add_comm 1]
        exact hfits
      have hnext := ih hbehind hlength.symm hlength.symm hsize hroom
      rw [hlength] at hnext
      rw [creadAddStr, hload]
      rw [Nat.add_assoc, Nat.add_comm 1] at hnext
      simp only [Option.bind_eq_bind, Option.bind_some, hadded]
      exact hnext

theorem start_reads (console : Console) {text rest : Bytes} (hroom : room < 2 ^ 32)
    (hnul : 0 ∉ text) (hfits : (text ++ 0 :: rest).length = room + 1) :
    exists cls, console.start (text ++ 0 :: rest) room =
        some { console with line := .reading cls } ∧
      Holds room cls ⟨Cursor.behind text, true⟩ (0 :: rest) := by
  have hstrlen : strlen (text ++ 0 :: rest) 0 = some text.length := strlen_at [] hnul rest
  have hlength := hfits
  rw [List.length_append, List.length_cons] at hlength
  let empty : Cls :=
    { num := 0
      eolNum := 0
      len := room
      insert := true
      history := false
      cmdComplete := false
      buf := text ++ 0 :: rest }
  have hbuf : empty.buf = [] ++ (text ++ 0 :: rest) := rfl
  have hadded := creadAddStr_own hbuf rfl rfl hroom
    (show ([] : Bytes).length + text.length ≤ room by rw [List.length_nil]; lia)
  rw [List.length_nil, Nat.zero_add] at hadded
  have hinit : cliCreadInit (text ++ 0 :: rest) room =
      some { empty with num := text.length, eolNum := text.length } := by
    unfold cliCreadInit
    rw [hstrlen]
    exact hadded
  have htext : (Cursor.behind text).text = text := List.append_nil text
  refine ⟨{ empty with
    num := text.length
    eolNum := text.length
    history := true
    cmdComplete := true }, ?_, ⟨rfl, rfl, rfl, rfl, rfl, ?_, ?_, ?_, ?_⟩⟩
  · unfold Console.start
    rw [hinit]
    rfl
  · exact congrArg List.length htext.symm
  · exact congrArg (· ++ 0 :: rest) htext.symm
  · show (Cursor.behind text).text.length + (0 :: rest).length = room + 1
    rw [htext, <- List.length_append]
    exact hfits
  · show 0 ∉ (Cursor.behind text).text
    rw [htext]
    exact hnul

/-!
## Keys
-/

theorem Gives.map {x : Option Cls} (h : Gives room x e) (hist : Hist) :
    exists cls c tail, x.map (·, hist) = some (cls, hist) ∧ Holds room cls e (c :: tail) := by
  rcases h with ⟨cls, c, tail, hsome, hholds⟩
  exact ⟨cls, c, tail, by rw [hsome]; rfl, hholds⟩

/-- Every key without the history does to the line what it is for. -/
theorem switch_press (config : Config) (completed : Cls -> Option Cls) (hpos : 0 < room)
    (hroom : room < 2 ^ 32) {ichar : UInt8} (hichar : ichar ≠ 0)
    (htab : config.autoComplete = true -> key ichar ≠ .tab) (hp : key ichar ≠ .ctlP)
    (hn : key ichar ≠ .ctlN) (h : Holds room cls e (0 :: tail)) (hist : Hist) :
    exists cls' c tail', switch config completed ichar cls hist = some (cls', hist) ∧
      Holds room cls' (e.press room ichar (key ichar)) (c :: tail') := by
  have hadd := (creadAddChar_gives hpos hroom hichar h).map hist
  unfold switch
  cases hkey : key ichar with
  | ctlA => exact (ctlA_gives h).map hist
  | ctlB => exact (backwardChar_gives h).map hist
  | ctlC => exact ⟨cls, 0, tail, rfl, h⟩
  | ctlD => exact (deleteChar_gives h).map hist
  | ctlE => exact (refreshToEol_gives h).map hist
  | ctlF => exact (forwardChar_gives h).map hist
  | ctlK => exact (ctlK_gives h).map hist
  | ctlO =>
      refine ⟨_, 0, tail, rfl, ?_⟩
      exact ⟨h.size, congrArg (!·) h.mode, h.history, h.complete, h.num, h.eol, h.buf, h.fits,
        h.noNul⟩
  | ctlW => exact (deleteWord_gives h).map hist
  | ctlU => exact (ctlU_gives h).map hist
  | del => exact (deleteBackward_gives h).map hist
  | ctlP => exact absurd hkey hp
  | ctlN => exact absurd hkey hn
  | tab =>
      dsimp only
      rw [if_neg (fun hcomplete => htab hcomplete.left hkey)]
      exact hadd
  | other => exact hadd

end Cread
end UBoot
end Hlk7621
