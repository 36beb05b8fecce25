import Hlk7621.Env.Readers
import Hlk7621.Env.RoundTrip
import Mathlib.Data.List.DropRight
import Mathlib.Data.List.TakeWhile

/-!
# Agreement of the readers

Only the import removes escapes, and only the import takes a blank or a `#` at the
start of a name and an empty value for something else.  So the readers of a stored
environment agree exactly if there is nothing of that kind in it.
-/

namespace Hlk7621
namespace Env

/-!
## The commands of a text
-/

def commands (sep : UInt8) : Nat -> Bytes -> List Command
  | 0, _ => []
  | fuel + 1, dp =>
      let r := parseEntry sep dp
      r.1 :: if r.1 ≠ .emptyName ∧ 2 ≤ r.2.length ∧ r.2.headD 0 ≠ 0 then
        commands sep fuel r.2 else []

theorem parseValue_length (sep : UInt8) (text : Bytes) :
    (parseValue sep text).2.length ≤ text.length := by
  fun_induction parseValue sep text with
  | case1 => simp
  | case2 c rest h => simp
  | case3 h => simp
  | case4 h c' rest' h' r ih => simp; lia
  | case5 => simp; lia
  | case6 => simp; lia

theorem length_dropWhile_le (p : UInt8 -> Bool) (text : Bytes) :
    (text.dropWhile p).length ≤ text.length :=
  (List.dropWhile_suffix p).length_le

theorem parseEntry_length (sep : UInt8) {dp : Bytes} (hdp : dp ≠ []) :
    (parseEntry sep dp).2.length < dp.length := by
  have hpos : 0 < dp.length := List.length_pos_iff.mpr hdp
  have hblank := length_dropWhile_le isBlank dp
  unfold parseEntry
  dsimp only
  split
  · have h := length_dropWhile_le (fun c => c != 0 && c != sep) (dp.dropWhile isBlank)
    rw [List.length_drop]
    lia
  · have h := length_dropWhile_le (parseName sep) (dp.dropWhile isBlank)
    split
    · dsimp only
      split <;> rw [List.length_drop] <;> lia
    · have h' := parseValue_length sep
        (((dp.dropWhile isBlank).dropWhile (parseName sep)).drop 1)
      rw [List.length_drop] at h'
      dsimp only
      lia

theorem parseValue_ne_nil {sep : UInt8} {text : Bytes} (h0 : text.headD 0 ≠ 0)
    (hs : text.headD 0 ≠ sep) : (parseValue sep text).1 ≠ [] := by
  cases text with
  | nil => exact absurd rfl h0
  | cons c rest =>
      have hne : ¬ (c = 0 ∨ c = sep) := not_or.mpr ⟨h0, hs⟩
      cases rest with
      | nil =>
          unfold parseValue
          rw [if_neg hne]
          split <;> simp
      | cons c' rest =>
          unfold parseValue
          rw [if_neg hne]
          split
          · dsimp only
            split <;> simp
          · simp

theorem parseEntry_enter {sep : UInt8} {dp name value : Bytes}
    (h : (parseEntry sep dp).1 = .enter name value) : GoodKey sep name ∧ value ≠ [] := by
  unfold parseEntry at h
  dsimp only at h
  split at h
  · cases h
  · rename_i hcomment
    split at h
    · cases h
    · rename_i hplain
      simp only [not_or] at hplain
      dsimp only at h
      split at h
      · cases h
      · rename_i hne
        cases h
        refine ⟨⟨hne, ?_, ?_⟩, parseValue_ne_nil hplain.2.1 hplain.2.2.2⟩
        · intro c hc
          have hp := List.mem_takeWhile_imp hc
          simp only [parseName, Bool.and_eq_true, bne_iff_ne, ne_eq] at hp
          exact ⟨hp.1.2, hp.1.1, hp.2⟩
        · intro c hc
          cases hd : dp.dropWhile isBlank with
          | nil => simp [hd] at hc
          | cons b rest =>
              have hb : b = c := by
                rw [hd, List.takeWhile_cons] at hc
                split at hc
                · simpa using hc
                · cases hc
              subst hb
              refine ⟨?_, ?_⟩
              · have := List.head?_dropWhile_not isBlank dp
                rw [hd] at this
                simpa using this
              · rintro rfl
                exact hcomment (by rw [hd]; rfl)

theorem commands_enter {sep : UInt8} {fuel : Nat} {dp name value : Bytes}
    (h : .enter name value ∈ commands sep fuel dp) : GoodKey sep name ∧ value ≠ [] := by
  induction fuel generalizing dp with
  | zero => cases h
  | succ fuel ih =>
      rw [commands] at h
      rcases List.mem_cons.mp h with h | h
      · exact parseEntry_enter h.symm
      · split at h
        · exact ih h
        · cases h

/-!
## What an import enters
-/

section

variable {sep : UInt8} {htab : Htab} {m : Bytes -> Option Bytes}

theorem hsearchR_size (hw : Wf htab) {item : Entry} {action : EnvAction} {found : Found}
    (h : hsearchR item action htab = some found) : found.htab.size = htab.size := by
  rcases hsearchR_spec hw item action with ⟨found', hfound, hend⟩
  cases hfound.symm.trans h
  cases hend with
  | found _ =>
      show (overwritten ..).size = _
      unfold overwritten
      split <;> rfl
  | missing _ => rfl
  | full _ _ => rfl
  | entered _ _ _ => rfl

structure Entered (htab : Htab) (m : Bytes -> Option Bytes) (cmds : List Command)
    (htab' : Htab) (m' : Bytes -> Option Bytes) : Prop where
  wf : Wf htab'
  represents : Represents htab' m'
  size : htab'.size = htab.size
  pairs : forall key value, m' key = some value ->
    m key = some value ∨ .enter key value ∈ cmds

theorem apply_entered (hw : Wf htab) (hm : Represents htab m) (cmd : Command) :
    exists htab' m', cmd.apply htab = some htab' ∧ Entered htab m [cmd] htab' m' := by
  cases cmd with
  | comment => exact ⟨htab, m, rfl, hw, hm, rfl, fun _ _ h => Or.inl h⟩
  | emptyName => exact ⟨htab, m, rfl, hw, hm, rfl, fun _ _ h => Or.inl h⟩
  | delete name =>
      rcases hdeleteR_spec hw hm name with ⟨r, hr, hw', hret⟩
      have happly : (Command.delete name).apply htab = some r.2 := by
        simp [Command.apply, hr]
      rcases hret with ⟨_, _, hsame⟩ | ⟨_, _, hm'⟩
      · rw [hsame] at happly
        exact ⟨htab, m, happly, hw, hm, rfl, fun _ _ h => Or.inl h⟩
      · refine ⟨r.2, _, happly, hw', hm', ?_, ?_⟩
        · unfold hdeleteR at hr
          cases hfound : hsearchR ⟨name, []⟩ .find htab with
          | none => simp [hfound] at hr
          | some found =>
              have hsize := hsearchR_size hw hfound
              rw [hfound] at hr
              dsimp only at hr
              split at hr
              · cases hr
                exact hsize
              · cases hr
                exact hsize
        · intro key value h
          by_cases hkey : key = name
          · rw [hkey, Function.update_self] at h
            cases h
          · rw [Function.update_of_ne hkey] at h
            exact Or.inl h
  | enter name value =>
      rcases hsearchR_enter hw hm ⟨name, value⟩ with ⟨found, hfound, hw', hret⟩
      have happly : (Command.enter name value).apply htab = some found.htab := by
        simp [Command.apply, hfound]
      have hsize := hsearchR_size hw hfound
      rcases hret with ⟨_, _, _, hsame⟩ | ⟨_, hm'⟩
      · rw [hsame] at happly
        exact ⟨htab, m, happly, hw, hm, rfl, fun _ _ h => Or.inl h⟩
      · refine ⟨found.htab, _, happly, hw', hm', hsize, ?_⟩
        intro key value' h
        by_cases hkey : key = name
        · subst hkey
          rw [Function.update_self] at h
          cases h
          exact Or.inr List.mem_cons_self
        · rw [Function.update_of_ne hkey] at h
          exact Or.inl h

theorem himportLoop_entered (sep : UInt8) (fuel : Nat) (dp : Bytes) (hdp : dp ≠ [])
    (hfuel : dp.length ≤ fuel) (hw : Wf htab) (hm : Represents htab m) :
    exists ret htab' m', himportLoop sep fuel dp htab = some (ret, htab') ∧
      Entered htab m (commands sep fuel dp) htab' m' ∧
      (ret = 1 ∨ .emptyName ∈ commands sep fuel dp) := by
  induction fuel generalizing dp htab m with
  | zero => exact absurd (List.length_eq_zero_iff.mp (by lia)) hdp
  | succ fuel ih =>
      have hshort := parseEntry_length sep hdp
      rcases apply_entered hw hm (parseEntry sep dp).1 with ⟨htab', m', happly, he⟩
      have hfirst : Entered htab m (commands sep (fuel + 1) dp) htab' m' := by
        refine ⟨he.wf, he.represents, he.size, ?_⟩
        intro key value h
        rcases he.pairs key value h with h | h
        · exact Or.inl h
        · rw [List.mem_singleton.mp h, commands]
          exact Or.inr List.mem_cons_self
      rw [himportLoop, happly]
      dsimp only
      by_cases hempty : (parseEntry sep dp).1 = .emptyName
      · rw [if_pos hempty]
        refine ⟨_, _, _, rfl, hfirst, Or.inr ?_⟩
        rw [commands, hempty]
        exact List.mem_cons_self
      · rw [if_neg hempty]
        by_cases hgo : 2 ≤ (parseEntry sep dp).2.length ∧ (parseEntry sep dp).2.headD 0 ≠ 0
        · rw [if_pos hgo]
          rcases ih (parseEntry sep dp).2 (List.length_pos_iff.mp (by lia)) (by lia)
            he.wf he.represents with ⟨ret, htab'', m'', hloop, he', hret⟩
          have hrest : forall cmd, cmd ∈ commands sep fuel (parseEntry sep dp).2 ->
              cmd ∈ commands sep (fuel + 1) dp := by
            intro cmd h
            rw [commands]
            exact List.mem_cons_of_mem _ (by rwa [if_pos ⟨hempty, hgo⟩])
          refine ⟨ret, htab'', m'', hloop, ⟨he'.wf, he'.represents, he'.size.trans he.size, ?_⟩,
            hret.imp_right (hrest _)⟩
          intro key value h
          rcases he'.pairs key value h with h | h
          · exact hfirst.pairs key value h
          · exact Or.inr (hrest _ h)
        · rw [if_neg hgo]
          exact ⟨_, _, _, rfl, hfirst, Or.inl rfl⟩

theorem himportInto_entered (sep : UInt8) {env : Bytes} (henv : env ≠ []) (hw : Wf htab)
    (hm : Represents htab fun _ => none) :
    exists ret htab' m', himportInto htab env sep = some (ret, htab') ∧
      Wf htab' ∧ Represents htab' m' ∧ htab'.size = htab.size ∧
      (forall key value, m' key = some value ->
        .enter key value ∈ commands sep (env.length + 1) (env ++ [0])) ∧
      (ret = 1 ∨ .emptyName ∈ commands sep (env.length + 1) (env ++ [0])) := by
  unfold himportInto
  rw [if_neg henv]
  rcases himportLoop_entered sep (env.length + 1) (env ++ [0]) (by simp) (by simp) hw hm with
    ⟨ret, htab', m', hloop, he, hret⟩
  refine ⟨ret, htab', m', hloop, he.wf, he.represents, he.size, ?_, hret⟩
  intro key value h
  rcases he.pairs key value h with h | h
  · cases h
  · exact h

end

/-!
## Commands of an exported text
-/

/-- The value that the import reads from the text of a value. -/
def unescape (text : Bytes) : Bytes := (parseValue 0 (text ++ [0])).1

theorem goodSep_nul : GoodSep 0 := ⟨by decide, by decide⟩

theorem unescape_plain {c : UInt8} (h0 : c ≠ 0) (h92 : c ≠ 92) (text : Bytes) :
    unescape (c :: text) = c :: unescape text := by
  unfold unescape
  rw [List.cons_append, parseValue_plain h0 h0 h92]

theorem unescape_pair {c : UInt8} (h0 : c ≠ 0) (text : Bytes) :
    unescape (92 :: c :: text) = c :: unescape text := by
  unfold unescape
  rw [List.cons_append, List.cons_append, parseValue_pair goodSep_nul h0]

/-- Texts are read character by character, or in pairs that start with a
backslash. -/
theorem text_induction {P : Bytes -> Prop} (nil : P []) (last : P [92])
    (plain : forall c text, c ≠ 0 -> c ≠ 92 -> P text -> P (c :: text))
    (pair : forall c text, c ≠ 0 -> P text -> P (92 :: c :: text)) :
    forall text, 0 ∉ text -> P text
  | [], _ => nil
  | c :: text, h => by
      simp only [List.mem_cons, not_or] at h
      by_cases h92 : c = 92
      · subst h92
        match text, h with
        | [], _ => exact last
        | c' :: text, h =>
            simp only [List.mem_cons, not_or] at h
            exact pair c' text (Ne.symm h.2.1) (text_induction nil last plain pair text h.2.2)
      · exact plain c text (Ne.symm h.1) h92 (text_induction nil last plain pair text h.2)

theorem parseValue_nul (rest : Bytes) {text : Bytes} (htext : 0 ∉ text) :
    parseValue 0 (text ++ 0 :: rest) = (unescape text, rest) := by
  refine text_induction (P := fun text => parseValue 0 (text ++ 0 :: rest) =
    (unescape text, rest)) ?_ ?_ ?_ ?_ text htext
  · exact parseValue_end (Or.inl rfl) rest
  · exact parseValue_last goodSep_nul rest
  · intro c text h0 h92 ih
    rw [List.cons_append, parseValue_plain h0 h0 h92, ih, unescape_plain h0 h92]
  · intro c text h0 ih
    rw [List.cons_append, List.cons_append, parseValue_pair goodSep_nul h0, ih,
      unescape_pair h0]

theorem unescape_length {text : Bytes} (htext : 0 ∉ text) :
    (unescape text).length ≤ text.length := by
  refine text_induction (P := fun text => (unescape text).length ≤ text.length)
    ?_ ?_ ?_ ?_ text htext
  · exact Nat.le_refl 0
  · exact Nat.le_refl 1
  · intro c text h0 h92 ih
    rw [unescape_plain h0 h92, List.length_cons, List.length_cons]
    lia
  · intro c text h0 ih
    rw [unescape_pair h0, List.length_cons, List.length_cons, List.length_cons]
    lia

theorem unescape_lt {front tail : Bytes} {c : UInt8} (hfront : 92 ∉ front)
    (hnul : 0 ∉ front ++ 92 :: c :: tail) :
    (unescape (front ++ 92 :: c :: tail)).length < (front ++ 92 :: c :: tail).length := by
  induction front with
  | nil =>
      simp only [List.nil_append, List.mem_cons, not_or] at hnul
      have htail := unescape_length hnul.2.2
      rw [List.nil_append, unescape_pair (Ne.symm hnul.2.1), List.length_cons,
        List.length_cons, List.length_cons]
      lia
  | cons b front ih =>
      simp only [List.cons_append, List.mem_cons, not_or] at hnul hfront
      have hrest := ih hfront.right hnul.right
      rw [List.cons_append, unescape_plain (Ne.symm hnul.left) (Ne.symm hfront.left),
        List.length_cons, List.length_cons]
      lia

theorem nul_not_mem_escape {data : Bytes} (hdata : 0 ∉ data) : 0 ∉ escape 0 data := by
  intro h
  rcases List.mem_flatMap.mp h with ⟨c, hc, h0⟩
  split at h0
  · rcases List.mem_cons.mp h0 with h0 | h0
    · cases h0
    · exact hdata (List.mem_singleton.mp h0 ▸ hc)
  · exact hdata (List.mem_singleton.mp h0 ▸ hc)

def entryCommand (key text : Bytes) : Command :=
  let name := key.dropWhile isBlank
  if name.head? = some 35 then .comment
  else if text = [] then .delete name
  else if name = [] then .emptyName
  else .enter name (unescape text)

theorem parseEntry_dropWhile (sep : UInt8) (dp : Bytes) :
    parseEntry sep dp = parseEntry sep (dp.dropWhile isBlank) := by
  unfold parseEntry
  rw [List.dropWhile_idempotent]

theorem dropWhile_key (key tail : Bytes) {t : UInt8} (ht : isBlank t = false) :
    (key ++ t :: tail).dropWhile isBlank = key.dropWhile isBlank ++ t :: tail := by
  rw [List.dropWhile_append]
  split
  · rename_i hempty
    rw [List.isEmpty_iff.mp hempty, List.dropWhile_cons, ht]
    rfl
  · rfl

theorem dropWhile_chars {key : Bytes} (hkey : 0 ∉ key ∧ 61 ∉ key) :
    (forall c, c ∈ key.dropWhile isBlank -> c ≠ 0 ∧ c ≠ 61) ∧
      forall c, (key.dropWhile isBlank).head? = some c -> isBlank c = false := by
  refine ⟨?_, ?_⟩
  · intro c hc
    have hmem := (List.dropWhile_sublist isBlank).subset hc
    exact ⟨fun h => hkey.left (h ▸ hmem), fun h => hkey.right (h ▸ hmem)⟩
  · intro c hc
    have hfirst := List.head?_dropWhile_not isBlank key
    rw [hc] at hfirst
    exact hfirst

theorem parseEntry_comment {text : Bytes} (htext : 0 ∉ text) (hhash : text.head? = some 35)
    (rest : Bytes) : parseEntry 0 (text ++ 0 :: rest) = (.comment, rest) := by
  have hdrop : (text ++ 0 :: rest).dropWhile (fun c => c != 0 && c != 0) = 0 :: rest := by
    rw [List.dropWhile_append_of_pos]
    · simp
    · intro c hc
      simpa using fun h0 : c = 0 => htext (h0 ▸ hc)
  have hblank : (text ++ 0 :: rest).dropWhile isBlank = text ++ 0 :: rest := by
    cases text with
    | nil => cases hhash
    | cons c text =>
        cases hhash
        rfl
  unfold parseEntry
  rw [hblank]
  dsimp only
  rw [List.head?_append, hhash, Option.some_or, if_pos rfl, hdrop]
  rfl

theorem parseEntry_noComment {name tail : Bytes} {t : UInt8}
    (hname : forall c, c ∈ name -> c ≠ 0 ∧ c ≠ 61)
    (hfirst : forall c, name.head? = some c -> isBlank c = false)
    (hhash : name.head? ≠ some 35) (ht : t = 0 ∨ t = 61) :
    parseEntry 0 (name ++ t :: tail) =
      if t = 0 ∨ tail.headD 0 = 0 ∨ t = 0 ∨ tail.headD 0 = 0 then
        (.delete name, if t = 61 then tail.drop 1 else tail)
      else
        (if name = [] then .emptyName else .enter name (parseValue 0 tail).1,
          (parseValue 0 tail).2) := by
  refine parseEntry_name 0 name t tail
    (fun c hc => ⟨(hname c hc).left, (hname c hc).right, (hname c hc).left⟩) ?_ ?_
  · intro c hc
    cases name with
    | nil =>
        cases hc
        rcases ht with rfl | rfl <;> decide
    | cons b name => exact ⟨hfirst c hc, fun h => hhash (by rw [<- h]; exact hc)⟩
  · rcases ht with rfl | rfl <;> rfl

theorem parseEntry_entry {key text : Bytes} (hkey : 0 ∉ key ∧ 61 ∉ key) (htext : 0 ∉ text)
    (rest : Bytes) :
    parseEntry 0 (key ++ 61 :: (text ++ 0 :: rest)) = (entryCommand key text, rest) := by
  rcases dropWhile_chars hkey with ⟨hname, hfirst⟩
  rw [parseEntry_dropWhile, dropWhile_key _ _ (by decide)]
  unfold entryCommand
  dsimp only
  generalize key.dropWhile isBlank = name at hname hfirst ⊢
  by_cases hhash : name.head? = some 35
  · rw [if_pos hhash, show name ++ 61 :: (text ++ 0 :: rest) =
      (name ++ 61 :: text) ++ 0 :: rest by simp, parseEntry_comment]
    · simp only [List.mem_append, List.mem_cons, not_or]
      exact ⟨fun h => (hname 0 h).left rfl, by decide, htext⟩
    · rw [List.head?_append, hhash]
      rfl
  · rw [if_neg hhash, parseEntry_noComment hname hfirst hhash (Or.inr rfl),
      parseValue_nul rest htext]
    cases text with
    | nil => simp
    | cons c text =>
        have hc : c ≠ 0 := fun h => htext (by simp [h])
        by_cases hn : name = [] <;> simp [hc, hn]

theorem GoodKey.entryCommand {key : Bytes} (hkey : GoodKey 0 key) (text : Bytes) :
    entryCommand key text = if text = [] then .delete key else .enter key (unescape text) := by
  have hblank : key.dropWhile isBlank = key := by
    cases hk : key with
    | nil => rfl
    | cons c key =>
        rw [List.dropWhile_cons, (hkey.first c (by rw [hk]; rfl)).left]
        rfl
  unfold Env.entryCommand
  rw [hblank]
  dsimp only
  rw [if_neg (fun h => (hkey.first 35 h).right rfl), if_neg hkey.nonempty]

def Silent (cmd : Command) : Prop := cmd = .comment ∨ exists name, cmd = .delete name

theorem parseEntry_cutName {key : Bytes} (hkey : 0 ∉ key ∧ 61 ∉ key) (rest : Bytes) :
    exists cmd, parseEntry 0 (key ++ 0 :: rest) = (cmd, rest) ∧ Silent cmd := by
  rcases dropWhile_chars hkey with ⟨hname, hfirst⟩
  rw [parseEntry_dropWhile, dropWhile_key _ _ (by decide)]
  generalize key.dropWhile isBlank = name at hname hfirst ⊢
  by_cases hhash : name.head? = some 35
  · exact ⟨_, parseEntry_comment (fun h => (hname 0 h).left rfl) hhash rest, Or.inl rfl⟩
  · rw [parseEntry_noComment hname hfirst hhash (Or.inl rfl), if_pos (Or.inl rfl)]
    exact ⟨_, rfl, Or.inr ⟨name, rfl⟩⟩

theorem mem_commands_step {fuel : Nat} {dp rest : Bytes} {cmd c : Command}
    (hparse : parseEntry 0 dp = (cmd, rest)) (h : c ∈ commands 0 (fuel + 1) dp) :
    c = cmd ∨ c ∈ commands 0 fuel rest := by
  rw [commands, hparse] at h
  rcases List.mem_cons.mp h with h | h
  · exact Or.inl h
  · split at h
    · exact Or.inr h
    · cases h

theorem commands_zeros {fuel k : Nat} {cmd : Command}
    (h : cmd ∈ commands 0 fuel (List.replicate k 0)) : Silent cmd := by
  induction fuel generalizing k with
  | zero => cases h
  | succ fuel ih =>
      cases k with
      | zero =>
          have hparse : parseEntry 0 [] = (.delete [], []) := rfl
          rcases mem_commands_step hparse h with h | h
          · exact Or.inr ⟨[], h⟩
          · exact ih (k := 0) h
      | succ k =>
          have hnil : (0 : UInt8) ∉ ([] : Bytes) ∧ (61 : UInt8) ∉ ([] : Bytes) := by simp
          rcases parseEntry_cutName hnil (List.replicate k 0) with ⟨c, hparse, hc⟩
          rcases mem_commands_step hparse h with h | h
          · exact h ▸ hc
          · exact ih h

/-- The entry behind `pre` is in the first `s` characters of the text, at least up
to its `=`. -/
def Visible (entries : List Entry) (s : Nat) (pre : List Entry) (e : Entry) : Prop :=
  (exists post, entries = pre ++ e :: post) ∧ (exportText 0 pre).length + e.key.length < s

/-- What the first `s` characters of the text have of the value of an entry. -/
def shown (s : Nat) (pre : List Entry) (e : Entry) : Bytes :=
  (escape 0 e.data).take (s - ((exportText 0 pre).length + e.key.length + 1))

/-- The commands of a text that may be cut: one for every visible entry, and others
that enter nothing. -/
theorem mem_commands {fuel s k : Nat} {entries : List Entry} {cmd : Command}
    (hplain : forall e, e ∈ entries -> Plain e)
    (h : cmd ∈ commands 0 fuel ((exportText 0 entries).take s ++ 0 :: List.replicate k 0)) :
    Silent cmd ∨ exists pre e, Visible entries s pre e ∧
      cmd = entryCommand e.key (shown s pre e) := by
  induction entries generalizing s fuel with
  | nil =>
      rw [exportText, List.flatMap_nil, List.take_nil, List.nil_append,
        <- List.replicate_succ] at h
      exact Or.inl (commands_zeros h)
  | cons e entries ih =>
      have he := hplain e List.mem_cons_self
      have hkey : 0 ∉ e.key ∧ 61 ∉ e.key := ⟨he.1, he.2.1⟩
      have hesc := nul_not_mem_escape he.2.2
      have hlen : (entryText 0 e).length = e.key.length + (escape 0 e.data).length + 2 :=
        entryText_length e
      cases fuel with
      | zero => cases h
      | succ fuel =>
      rw [exportText_cons] at h
      rcases Nat.lt_or_ge e.key.length s with hvis | hinvis
      · have hfirst : Visible (e :: entries) s [] e := by
          exact ⟨⟨entries, rfl⟩, by simpa [exportText] using hvis⟩
        rcases Nat.exists_eq_add_of_lt hvis with ⟨j, rfl⟩
        have hshown : shown (e.key.length + j + 1) [] e = (escape 0 e.data).take j := by
          unfold shown
          congr 1
          simp [exportText]
        rcases Nat.lt_or_ge (e.key.length + j + 1) (entryText 0 e).length with hcut | hwhole
        · have htext : (entryText 0 e ++ exportText 0 entries).take (e.key.length + j + 1) ++
              0 :: List.replicate k 0 =
                e.key ++ 61 :: ((escape 0 e.data).take j ++ 0 :: List.replicate k 0) := by
            rw [List.take_append_of_le_length (Nat.le_of_lt hcut)]
            unfold entryText
            rw [Nat.add_assoc, List.take_length_add_append, List.take_succ_cons,
              List.take_append_of_le_length (by lia)]
            simp
          rw [htext] at h
          rcases mem_commands_step
            (parseEntry_entry hkey (fun h => hesc (List.mem_of_mem_take h)) _) h with h | h
          · exact Or.inr ⟨[], e, hfirst, by rw [hshown]; exact h⟩
          · exact Or.inl (commands_zeros h)
        · rcases Nat.exists_eq_add_of_le hwhole with ⟨s', hs'⟩
          have htext : (entryText 0 e ++ exportText 0 entries).take (e.key.length + j + 1) ++
              0 :: List.replicate k 0 = e.key ++ 61 :: (escape 0 e.data ++
                0 :: ((exportText 0 entries).take s' ++ 0 :: List.replicate k 0)) := by
            rw [hs', List.take_length_add_append]
            simp [entryText]
          rw [htext] at h
          rcases mem_commands_step (parseEntry_entry hkey hesc _) h with h | h
          · refine Or.inr ⟨[], e, hfirst, ?_⟩
            rw [hshown, List.take_of_length_le (by lia)]
            exact h
          · rcases ih (fun x hx => hplain x (List.mem_cons_of_mem _ hx)) h with
              h | ⟨pre, x, ⟨⟨post, rfl⟩, hlt⟩, hcmd⟩
            · exact Or.inl h
            · have hl : (exportText 0 (e :: pre)).length =
                  (entryText 0 e).length + (exportText 0 pre).length := by
                rw [exportText_cons, List.length_append]
              have hsame : shown (e.key.length + j + 1) (e :: pre) x = shown s' pre x := by
                unfold shown
                congr 1
                lia
              exact Or.inr ⟨e :: pre, x, ⟨⟨post, rfl⟩, by lia⟩, by rw [hsame]; exact hcmd⟩
      · have htext : (entryText 0 e ++ exportText 0 entries).take s = e.key.take s := by
          rw [List.take_append_of_le_length (by lia)]
          exact List.take_append_of_le_length hinvis
        rw [htext] at h
        have htake : 0 ∉ e.key.take s ∧ 61 ∉ e.key.take s :=
          ⟨fun h => he.1 (List.mem_of_mem_take h), fun h => he.2.1 (List.mem_of_mem_take h)⟩
        rcases parseEntry_cutName htake (List.replicate k 0) with ⟨c, hparse, hc⟩
        rcases mem_commands_step hparse h with h | h
        · exact Or.inl (h ▸ hc)
        · exact Or.inl (commands_zeros h)

/-!
## Searching an exported text
-/

section

variable {cfg : Config} {mem : Nat -> UInt8} {limit : Nat} {name : Bytes}
variable {find : Nat -> Option Nat} {pre : List Entry} {e : Entry} {value : Bytes}

theorem exportText_eq (entries : List Entry) :
    exportText 0 entries = listText (entries.map fun e => ⟨e.key, escape 0 e.data⟩) := by
  unfold exportText listText
  rw [List.flatMap_map]
  rfl

theorem linearSearch_pass (fuel : Nat) (hfind : Finds mem name find)
    (hplain : forall x, x ∈ pre -> Plain x) (hname : name ∉ pre.map (·.key)) {p : Nat}
    (hstored : Stored mem p (exportText 0 pre))
    (hlimit : p + (exportText 0 pre).length ≤ limit + 1) :
    linearSearch mem limit find (fuel + pre.length) p =
      linearSearch mem limit find fuel (p + (exportText 0 pre).length) := by
  rw [exportText_eq] at hstored hlimit ⊢
  rw [<- List.length_map (fun e : Entry => (⟨e.key, escape 0 e.data⟩ : Entry))]
  refine linearSearch_skip fuel hfind ?_ ?_ hstored hlimit
  · intro x hx
    rcases List.mem_map.mp hx with ⟨e, he, rfl⟩
    exact ⟨(hplain e he).1, (hplain e he).2.1, nul_not_mem_escape (hplain e he).2.2⟩
  · rw [List.map_map]
    exact hname

theorem exportText_length_ge (entries : List Entry) :
    entries.length ≤ (exportText 0 entries).length := by
  induction entries with
  | nil => exact Nat.le_refl 0
  | cons e entries ih =>
      rw [exportText_cons, List.length_append, entryText_length, List.length_cons]
      lia

structure EntryAt (mem : Nat -> UInt8) (pre : List Entry) (e : Entry) (value : Bytes) : Prop where
  pre_plain : forall x, x ∈ pre -> Plain x
  plain : Plain e
  first : e.key ∉ pre.map (·.key)
  nul : 0 ∉ value
  stored : Stored mem 0 (exportText 0 pre ++ (e.key ++ 61 :: value))
  stop : mem ((exportText 0 pre).length + (e.key.length + 1 + value.length)) = 0

theorem EntryAt.value_stored (h : EntryAt mem pre e value) :
    Stored mem ((exportText 0 pre).length + e.key.length + 1) (value ++ [0]) := by
  have hstored := h.stored
  rw [stored_append, Nat.zero_add, stored_append, stored_cons] at hstored
  rw [stored_append, stored_cons]
  refine ⟨hstored.2.2.2, ?_, stored_nil _ _⟩
  have hstop := h.stop
  rwa [<- Nat.add_assoc, <- Nat.add_assoc] at hstop

theorem EntryAt.search (h : EntryAt mem pre e value) (hfind : Finds mem e.key find)
    (hlimit : (exportText 0 pre).length + (e.key.length + 1 + value.length) ≤ limit) :
    linearSearch mem limit find (limit + 2) 0 =
      some ((exportText 0 pre).length + e.key.length + 1,
        (exportText 0 pre).length + e.key.length + 1 + value.length) := by
  have hfuel : limit + 2 = limit + 1 - pre.length + 1 + pre.length := by
    have := exportText_length_ge pre
    lia
  rcases stored_append.mp h.stored with ⟨hpre, hentry⟩
  rw [Nat.zero_add] at hentry
  rw [hfuel, linearSearch_pass _ hfind h.pre_plain h.first hpre (by lia), Nat.zero_add,
    linearSearch_entry limit _ hfind ⟨h.plain.1, h.plain.2.1⟩ h.nul hentry rfl h.stop hlimit,
    if_pos rfl]
  congr 2
  lia

theorem linearSearch_missing {entries : List Entry} (hfind : Finds mem name find)
    (hplain : forall x, x ∈ entries -> Plain x) (hname : name ∉ entries.map (·.key))
    (hstored : Stored mem 0 (exportText 0 entries ++ [0]))
    (hlimit : (exportText 0 entries).length ≤ limit) :
    linearSearch mem limit find (limit + 2) 0 = none := by
  have hfuel : limit + 2 = limit + 1 - entries.length + 1 + entries.length := by
    have := exportText_length_ge entries
    lia
  rcases stored_append.mp hstored with ⟨htext, hend⟩
  rw [hfuel, linearSearch_pass _ hfind hplain hname htext (by lia), linearSearch,
    if_pos (stored_cons.mp hend).left]

theorem EntryAt.length (h : EntryAt mem pre e value) (hne : e.key ≠ [])
    (hlimit : (exportText 0 pre).length + (e.key.length + 1 + value.length) ≤ cfg.envSize)
    (len : Nat) : exists buf, envGetFromLinear cfg mem e.key len = some (value.length, buf) := by
  unfold envGetFromLinear
  dsimp only
  rw [if_neg hne, h.search (nameAt_finds h.plain.2.1) (by lia)]
  simp only [Option.map_some, Nat.add_sub_cancel_left]
  exact ⟨_, rfl⟩

/-- Both searches return the value as it stands in memory. -/
theorem EntryAt.readers (h : EntryAt mem pre e value)
    (hlimit : (exportText 0 pre).length + (e.key.length + 1 + value.length) ≤ cfg.envSize) :
    fwGetenv cfg mem e.key = some value ∧
      (e.key ≠ [] -> forall len, value.length < len ->
        (envGetFromLinear cfg mem e.key len).map (fun r => r.2.takeWhile (· != 0)) =
          some value) := by
  rcases stored_append.mp h.value_stored with ⟨hvalue, _⟩
  refine ⟨?_, ?_⟩
  · unfold fwGetenv
    rw [h.search (envmatch_finds h.plain.2.1) hlimit]
    simp only [Option.map_some, Nat.add_sub_cancel_left]
    exact congrArg some hvalue
  · intro hne len hlen
    have hwhole := h.value_stored
    unfold Stored at hwhole
    rw [List.length_append, List.length_singleton] at hwhole
    unfold envGetFromLinear
    dsimp only
    rw [if_neg hne, h.search (nameAt_finds h.plain.2.1) (by lia)]
    simp only [Option.map_some, Nat.add_sub_cancel_left]
    rw [if_neg (by lia), hwhole, List.takeWhile_append_of_pos]
    · simp
    · intro c hc
      simpa using fun h0 : c = 0 => h.nul (h0 ▸ hc)

end

/-!
## Agreement
-/

section

variable {cfg : Config} {noclear : Bool} {table : Option Htab} {htab start : Htab}
variable {m : Bytes -> Option Bytes} {entries pre : List Entry} {e : Entry} {s : Nat}

/-- The three readers find the same for every name, with the data in any memory and
every buffer that is large enough for what is found. -/
def ReadersAgree (cfg : Config) (noclear : Bool) (table : Option Htab) (data : Bytes) : Prop :=
  forall mem name len, Stored mem 0 data -> 0 ∉ name -> 61 ∉ name ->
    (forall r, envGetFromLinear cfg mem name len = some r -> r.1 < len) ->
    (envGetFromLinear cfg mem name len).map (fun r => r.2.takeWhile (· != 0)) =
        importGet cfg noclear table data name ∧
      fwGetenv cfg mem name = importGet cfg noclear table data name

theorem importGet_eq {data : Bytes} {ret : Nat} {htab' : Htab}
    (hstart : importTable cfg noclear table data.length = start)
    (himport : himportInto start data 0 = some (ret, htab')) (hw : Wf htab')
    (hm : Represents htab' m) (name : Bytes) :
    importGet cfg noclear table data name = m name := by
  rcases hsearchR_find hw hm ⟨name, []⟩ with ⟨found, hfound, hsame, hdata, _⟩
  unfold importGet himportR
  rw [hstart, himport]
  simp only [Option.bind_some, hfound, hsame]
  exact hdata

theorem Visible.text (h : Visible entries s pre e) :
    exists tail, (exportText 0 entries).take s =
        exportText 0 pre ++ (e.key ++ 61 :: shown s pre e) ++ tail ∧ tail.headD 0 = 0 := by
  rcases h with ⟨⟨post, rfl⟩, hlt⟩
  rcases Nat.exists_eq_add_of_lt hlt with ⟨j, rfl⟩
  have hsub : (exportText 0 pre).length + e.key.length + j + 1 -
      ((exportText 0 pre).length + e.key.length + 1) = j := by
    lia
  have htext : exportText 0 (pre ++ e :: post) = exportText 0 pre ++
      (e.key ++ 61 :: (escape 0 e.data ++ 0 :: exportText 0 post)) := by
    simp [exportText, entryText]
  refine ⟨(0 :: exportText 0 post).take (j - (escape 0 e.data).length), ?_, ?_⟩
  · unfold shown
    rw [hsub, htext, Nat.add_assoc, Nat.add_assoc, List.take_length_add_append,
      List.take_length_add_append, List.take_succ_cons, List.take_append]
    simp
  · cases j - (escape 0 e.data).length with
    | zero => rfl
    | succ n => rfl

theorem stored_getD (data : Bytes) : Stored (fun a => data.getD a 0) 0 data := by
  unfold Stored
  rw [window_eq_iff]
  intro i hi
  rw [Nat.zero_add, List.getD_eq_getElem _ _ hi]

theorem Visible.entryAt (h : Visible entries s pre e)
    (hplain : forall x, x ∈ entries -> Plain x) (hkeys : (entries.map (·.key)).Nodup) :
    EntryAt (fun a => ((exportText 0 entries).take s).getD a 0) pre e (shown s pre e) := by
  rcases h.text with ⟨tail, htext, htail⟩
  rcases h with ⟨⟨post, hpost⟩, hlt⟩
  have hpre : forall x, x ∈ pre -> x ∈ entries := by
    intro x hx
    rw [hpost]
    exact List.mem_append_left _ hx
  have he : e ∈ entries := by
    rw [hpost]
    simp
  have hstored := stored_getD ((exportText 0 entries).take s)
  rw [htext, stored_append] at hstored
  refine ⟨fun x hx => hplain x (hpre x hx), hplain e he, ?_, ?_, by rw [htext]; exact hstored.left,
    ?_⟩
  · rw [hpost, List.map_append, List.map_cons, List.nodup_append] at hkeys
    exact fun hmem => hkeys.2.2 _ hmem _ List.mem_cons_self rfl
  · exact fun h0 => nul_not_mem_escape (hplain e he).2.2 (List.mem_of_mem_take h0)
  · rw [htext, List.getD_append_right]
    · rw [Nat.sub_eq_zero_of_le (by simp; lia)]
      cases tail with
      | nil => rfl
      | cons c tail => exact htail
    · simp
      lia

theorem split_unique {pre' post post' : List Entry} {e' : Entry}
    (hkeys : ((pre ++ e :: post).map (·.key)).Nodup)
    (heq : pre ++ e :: post = pre' ++ e' :: post') (hkey : e'.key = e.key) :
    pre' = pre ∧ e' = e := by
  induction pre generalizing pre' with
  | nil =>
      cases pre' with
      | nil =>
          cases heq
          exact ⟨rfl, rfl⟩
      | cons x pre' =>
          rw [List.nil_append, List.cons_append, List.cons.injEq] at heq
          rw [List.nil_append, List.map_cons, List.nodup_cons, heq.right] at hkeys
          exact absurd (List.mem_map.mpr ⟨e', by simp, hkey⟩) hkeys.left
  | cons x pre ih =>
      cases pre' with
      | nil =>
          rw [List.nil_append, List.cons_append, List.cons.injEq] at heq
          rw [List.cons_append, List.map_cons, List.nodup_cons, heq.left] at hkeys
          exact absurd (List.mem_map.mpr ⟨e, by simp, hkey.symm⟩) hkeys.left
      | cons y pre' =>
          rw [List.cons_append, List.cons_append, List.cons.injEq] at heq
          rw [List.cons_append, List.map_cons, List.nodup_cons] at hkeys
          rcases ih hkeys.right heq.right with ⟨hpre, he⟩
          exact ⟨by rw [hpre, heq.left], he⟩

/-- The data of a block with the entries of a table, and an empty table to import it
into. -/
structure Exported (cfg : Config) (noclear : Bool) (table : Option Htab) (start : Htab)
    (entries : List Entry) (data : Bytes) : Prop where
  plain : forall e, e ∈ entries -> Plain e
  keys : (entries.map (·.key)).Nodup
  size : data.length = cfg.envSize
  text : data = (exportText 0 entries).take data.length ++
    List.replicate (data.length - (exportText 0 entries).length) 0
  counted : rawLength entries + 1 ≤ data.length
  table : importTable cfg noclear table data.length = start
  wf : Wf start
  empty : Represents start fun _ => none

variable {data : Bytes}

theorem getD_append_zeros (text : Bytes) (k a : Nat) :
    (text ++ List.replicate k 0).getD a 0 = text.getD a 0 := by
  rcases Nat.lt_or_ge a text.length with h | h
  · rw [List.getD_append _ _ _ _ h]
  · rw [List.getD_append_right _ _ _ _ h, List.getD_eq_default _ _ h,
      List.getD_eq_getElem?_getD, List.getElem?_replicate]
    split <;> rfl

theorem hexportR_text {size : Nat} (h : hexportR htab 0 size = some data) :
    data = (exportText 0 (sortedEntries htab)).take data.length ++
      List.replicate (data.length - (exportText 0 (sortedEntries htab)).length) 0 := by
  rcases (hexportR_buffer h).right with hbuf | ⟨hlt, hbuf⟩
  · have hlen := congrArg List.length hbuf
    rw [List.length_append] at hlen
    rw [List.take_of_length_le (by lia)]
    exact hbuf
  · rw [Nat.sub_eq_zero_of_le (Nat.le_of_lt hlt)]
    simpa using hbuf

theorem text_append_nul {text : Bytes} {k : Nat}
    (h : data = text ++ List.replicate k 0) :
    data ++ [0] = text ++ 0 :: List.replicate k 0 := by
  rw [h, List.append_assoc, <- List.replicate_succ', List.replicate_succ]

theorem hexportR_length {size : Nat} (hpos : 0 < size)
    (h : hexportR htab 0 size = some data) : data.length = size := by
  unfold hexportR at h
  dsimp only at h
  split at h
  · cases h
  · cases h
    rw [if_neg (by lia), List.length_take, List.length_append, List.length_replicate]
    lia

theorem Exported.ne_nil (h : Exported cfg noclear table start entries data) : data ≠ [] := by
  have := h.counted
  exact List.length_pos_iff.mp (by lia)

theorem Exported.imported (h : Exported cfg noclear table start entries data) :
    exists htab' m', Wf htab' ∧ Represents htab' m' ∧ htab'.size = start.size ∧
      (forall name, importGet cfg noclear table data name = m' name) ∧
      forall key value, m' key = some value -> exists fuel k, .enter key value ∈ commands 0 fuel
        ((exportText 0 entries).take data.length ++ 0 :: List.replicate k 0) := by
  rcases himportInto_entered 0 h.ne_nil h.wf h.empty with
    ⟨ret, htab', m', himport, hw, hm, hsize, hpairs, _⟩
  refine ⟨htab', m', hw, hm, hsize, importGet_eq h.table himport hw hm, ?_⟩
  intro key value hkey
  have hmem := hpairs key value hkey
  rw [text_append_nul h.text] at hmem
  exact ⟨_, _, hmem⟩

/-- If the tool and the import agree, the visible entries have names and values that
the parser reads as they are. -/
theorem Exported.visible (h : Exported cfg noclear table start entries data)
    (hagree : ReadersAgree cfg noclear table data) (hvis : Visible entries data.length pre e) :
    GoodKey 0 e.key ∧ shown data.length pre e ≠ [] ∧
      unescape (shown data.length pre e) = shown data.length pre e ∧
      importGet cfg noclear table data e.key = some (shown data.length pre e) := by
  have hmem0 : (fun a => ((exportText 0 entries).take data.length).getD a 0) =
      fun a => data.getD a 0 := by
    funext a
    conv_rhs => rw [h.text]
    exact (getD_append_zeros _ _ a).symm
  have hfound : forall pre x, Visible entries data.length pre x ->
      importGet cfg noclear table data x.key = some (shown data.length pre x) := by
    intro pre x hx
    have hat := hx.entryAt h.plain h.keys
    rw [hmem0] at hat
    have hlen : (exportText 0 pre).length + (x.key.length + 1 +
        (shown data.length pre x).length) ≤ cfg.envSize := by
      have hlt := hx.right
      have hsize := h.size
      have htake : (shown data.length pre x).length ≤ _ := List.length_take_le _ _
      lia
    have hread := hagree _ x.key (cfg.envSize + headerSize + 2) (stored_getD data) hat.plain.1
      hat.plain.2.1 ?_
    · rw [<- hread.right, (hat.readers hlen).left]
    · intro r hr
      by_cases hne : x.key = []
      · simp [envGetFromLinear, hne] at hr
      · rcases hat.length hne hlen (cfg.envSize + headerSize + 2) with ⟨buf, hbuf⟩
        cases hbuf.symm.trans hr
        show (shown data.length pre x).length < _
        lia
  rcases h.imported with ⟨htab', m', _, _, _, hget, hpairs⟩
  have hentered : forall pre x, Visible entries data.length pre x ->
      exists fuel k, .enter x.key (shown data.length pre x) ∈ commands 0 fuel
        ((exportText 0 entries).take data.length ++ 0 :: List.replicate k 0) := by
    intro pre x hx
    refine hpairs _ _ ?_
    rw [<- hget, hfound pre x hx]
  rcases hentered pre e hvis with ⟨fuel, k, hmem⟩
  rcases commands_enter hmem with ⟨hkey, hne⟩
  refine ⟨hkey, hne, ?_, hfound pre e hvis⟩
  rcases mem_commands h.plain hmem with h' | ⟨pre', e', hvis', hcmd⟩
  · rcases h' with h' | ⟨_, h'⟩ <;> cases h'
  · rcases hentered pre' e' hvis' with ⟨_, _, hmem'⟩
    rcases commands_enter hmem' with ⟨hkey', hne'⟩
    rw [hkey'.entryCommand, if_neg hne', Command.enter.injEq] at hcmd
    rcases hvis with ⟨⟨post, hpost⟩, _⟩
    rcases hvis' with ⟨⟨post', hpost'⟩, _⟩
    have hkeys := h.keys
    rw [hpost] at hkeys
    rcases split_unique hkeys (hpost.symm.trans hpost') hcmd.left.symm with ⟨rfl, rfl⟩
    exact hcmd.right.symm

theorem escape_plain {text : Bytes} (h0 : 0 ∉ text) (h92 : 92 ∉ text) : escape 0 text = text := by
  induction text with
  | nil => rfl
  | cons c text ih =>
      simp only [List.mem_cons, not_or] at h0 h92
      rw [escape_cons, if_neg (not_or.mpr ⟨Ne.symm h0.left, Ne.symm h92.left⟩),
        ih h0.right h92.right]
      rfl

theorem unescape_take_ne {text : Bytes} {j : Nat} (h0 : 0 ∉ text) (h92 : 92 ∈ text)
    (hj : text.length < j) : unescape ((escape 0 text).take j) ≠ (escape 0 text).take j := by
  rcases List.eq_append_cons_of_mem h92 with ⟨front, tail, rfl, hfront⟩
  simp only [List.mem_append, List.mem_cons, not_or] at h0
  have hesc : escape 0 (front ++ 92 :: tail) = front ++ 92 :: 92 :: escape 0 tail := by
    have hsplit : escape 0 (front ++ 92 :: tail) = escape 0 front ++ escape 0 (92 :: tail) := by
      simp [escape]
    rw [hsplit, escape_plain h0.left hfront, escape_cons, if_pos (Or.inr rfl)]
    rfl
  rw [List.length_append, List.length_cons] at hj
  have htake : (escape 0 (front ++ 92 :: tail)).take j =
      front ++ 92 :: 92 :: (escape 0 tail).take (j - front.length - 2) := by
    have hcount : j = front.length + (j - front.length - 2 + 1 + 1) := by lia
    conv_lhs => rw [hesc, hcount]
    rw [List.take_length_add_append, List.take_succ_cons, List.take_succ_cons]
  have hnul : 0 ∉ front ++ 92 :: 92 :: (escape 0 tail).take (j - front.length - 2) := by
    simp only [List.mem_append, List.mem_cons, not_or]
    exact ⟨h0.left, by decide, by decide,
      fun h => nul_not_mem_escape h0.right.right (List.mem_of_mem_take h)⟩
  rw [htake]
  intro heq
  have hlt := unescape_lt hfront hnul
  rw [heq] at hlt
  exact Nat.lt_irrefl _ hlt

theorem exportText_length_plain (hnul : forall x, x ∈ pre -> 0 ∉ x.data)
    (hback : forall x, x ∈ pre -> 92 ∉ x.data) :
    (exportText 0 pre).length = rawLength pre := by
  have hzero : backslashes pre = 0 := by
    unfold backslashes
    rw [List.sum_eq_zero_iff_forall_eq_nat]
    intro n hn
    rcases List.mem_map.mp hn with ⟨x, hx, rfl⟩
    exact List.count_eq_zero.mpr (hback x hx)
  rw [exportText_nul_length hnul, hzero, Nat.add_zero]

theorem rawLength_append (xs ys : List Entry) :
    rawLength (xs ++ ys) = rawLength xs + rawLength ys := by
  simp [rawLength]

theorem Exported.visible_of_plain (h : Exported cfg noclear table start entries data)
    {post : List Entry} (hpost : entries = pre ++ e :: post)
    (hback : forall x, x ∈ pre -> 92 ∉ x.data) :
    Visible entries data.length pre e ∧ e.data.length <
      data.length - ((exportText 0 pre).length + e.key.length + 1) := by
  have hcounted := h.counted
  have hlen := exportText_length_plain (fun x hx => (h.plain x (by simp [hpost, hx])).2.2) hback
  rw [hpost, rawLength_append] at hcounted
  simp only [rawLength, List.map_cons, List.sum_cons] at hcounted hlen
  exact ⟨⟨⟨post, hpost⟩, by lia⟩, by lia⟩

theorem Exported.no_backslash (h : Exported cfg noclear table start entries data)
    (hagree : ReadersAgree cfg noclear table data) (hpre : exists post, entries = pre ++ post) :
    forall x, x ∈ pre -> 92 ∉ x.data := by
  induction pre using List.reverseRecOn with
  | nil =>
      intro x hx
      cases hx
  | append_singleton pre e ih =>
      rcases hpre with ⟨post, hpost⟩
      rw [List.append_assoc, List.singleton_append] at hpost
      have hback := ih ⟨e :: post, hpost⟩
      rcases h.visible_of_plain hpost hback with ⟨hvis, hlt⟩
      intro x hx
      rcases List.mem_append.mp hx with hx | hx
      · exact hback x hx
      · rw [List.mem_singleton.mp hx]
        intro h92
        exact unescape_take_ne (h.plain e (by simp [hpost])).2.2 h92 hlt
          (h.visible hagree hvis).2.2.1

theorem Exported.entries_good (h : Exported cfg noclear table start entries data)
    (hagree : ReadersAgree cfg noclear table data) (he : e ∈ entries) :
    GoodKey 0 e.key ∧ e.data ≠ [] ∧ 92 ∉ e.data ∧
      importGet cfg noclear table data e.key = some e.data := by
  rcases List.append_of_mem he with ⟨pre, post, hpost⟩
  have hall := h.no_backslash hagree ⟨[], (List.append_nil entries).symm⟩
  rcases h.visible_of_plain hpost (fun x hx => hall x (by simp [hpost, hx])) with ⟨hvis, hlt⟩
  rcases h.visible hagree hvis with ⟨hkey, hne, _, hget⟩
  have hshown : shown data.length pre e = e.data := by
    unfold shown
    rw [escape_plain (h.plain e he).2.2 (hall e he), List.take_of_length_le (Nat.le_of_lt hlt)]
  rw [hshown] at hne hget
  exact ⟨hkey, hne, hall e he, hget⟩

theorem filled_le (hw : Wf htab) : htab.filled ≤ htab.size := by
  rw [hw.filled]
  refine (Finset.card_filter_le _ _).trans ?_
  simp

theorem filled_le_of_subset {htab' : Htab} {m' : Bytes -> Option Bytes} (hw : Wf htab)
    (hm : Represents htab m) (hw' : Wf htab') (hm' : Represents htab' m')
    (hsub : forall key value, m key = some value -> m' key = some value) :
    htab.filled ≤ htab'.filled := by
  have hnodup : (sortedEntries htab).Nodup := (nodup_sortedEntries hw).of_map
  have hsubset : sortedEntries htab ⊆ sortedEntries htab' := by
    intro e he
    exact (mem_sortedEntries hw' hm').mpr (hsub _ _ ((mem_sortedEntries hw hm).mp he))
  have hle := (List.subperm_of_subset hnodup hsubset).length_le
  rwa [length_sortedEntries hw hm, length_sortedEntries hw' hm'] at hle

theorem Exported.agree (h : Exported cfg noclear table start entries data) {htab' : Htab}
    (himport : exists ret, himportInto start data 0 = some (ret, htab')) (hw : Wf htab')
    (hm : Represents htab' m) (hmem : forall x, x ∈ entries <-> m x.key = some x.data)
    (hkey : forall x, x ∈ entries -> x.key ≠ []) (hback : forall x, x ∈ entries -> 92 ∉ x.data) :
    ReadersAgree cfg noclear table data := by
  intro mem name len hstored h0 h61 hlarge
  rcases himport with ⟨ret, himport⟩
  have hsize := h.size
  have hlen := exportText_length_plain (fun x hx => (h.plain x hx).2.2) hback
  have hcounted := h.counted
  have htext : data = exportText 0 entries ++ [0] ++
      List.replicate (data.length - (exportText 0 entries).length - 1) 0 := by
    conv_lhs => rw [h.text]
    rw [List.take_of_length_le (by lia), List.append_assoc, List.singleton_append,
      <- List.replicate_succ, show data.length - (exportText 0 entries).length - 1 + 1 =
        data.length - (exportText 0 entries).length by lia]
  rw [htext] at hstored
  have hstored' := (stored_append.mp hstored).left
  rw [importGet_eq h.table himport hw hm]
  cases hname : m name with
  | none =>
      have hmissing : name ∉ entries.map (·.key) := by
        intro hin
        rcases List.mem_map.mp hin with ⟨x, hx, rfl⟩
        rw [(hmem x).mp hx] at hname
        cases hname
      unfold fwGetenv envGetFromLinear
      dsimp only
      rw [linearSearch_missing (envmatch_finds h61) h.plain hmissing hstored' (by lia),
        linearSearch_missing (nameAt_finds h61) h.plain hmissing hstored' (by lia)]
      simp
  | some value =>
      have hin := (hmem ⟨name, value⟩).mpr hname
      rcases List.append_of_mem hin with ⟨pre, post, hpost⟩
      have hkeys := h.keys
      have hsplit : exportText 0 entries ++ [0] = exportText 0 pre ++ (name ++ 61 :: value) ++
          0 :: (exportText 0 post ++ [0]) := by
        have hesc : escape 0 value = value := escape_plain (h.plain _ hin).2.2 (hback _ hin)
        rw [hpost]
        simp [exportText, entryText, hesc]
      have hbound := congrArg List.length hsplit
      simp only [List.length_append, List.length_cons, List.length_nil] at hbound
      rw [hsplit, stored_append, stored_cons] at hstored'
      have hat : EntryAt mem pre ⟨name, value⟩ value := by
        refine ⟨fun x hx => h.plain x (by simp [hpost, hx]), h.plain _ hin, ?_,
          (h.plain _ hin).2.2, hstored'.left, ?_⟩
        · rw [hpost, List.map_append, List.map_cons, List.nodup_append] at hkeys
          exact fun hmem => hkeys.2.2 _ hmem _ List.mem_cons_self rfl
        · have hstop := hstored'.right.left
          rw [Nat.zero_add, List.length_append, List.length_append, List.length_cons] at hstop
          rw [show name.length + 1 + value.length = name.length + (value.length + 1) by lia]
          exact hstop
      have hlimit : (exportText 0 pre).length + (name.length + 1 + value.length) ≤
          cfg.envSize := by
        lia
      rcases hat.readers hlimit with ⟨hfw, hlinear⟩
      rcases hat.length (hkey _ hin) hlimit len with ⟨buf, hbuf⟩
      exact ⟨hlinear (hkey _ hin) len (hlarge _ hbuf), hfw⟩

end

/-- For a table with C strings as keys and values and no `=` in a key, the three
readers of what `env_export` stored agree exactly if the table for the import has
room and no name starts with a blank or `#` or is empty, and no value is empty or
has a backslash. -/
theorem stored_readers_agree_iff (cfg : Config) (htab start : Htab)
    (m : Bytes -> Option Bytes) (addr : Nat) (noclear : Bool) (table : Option Htab)
    (block : Block) (hreach : Reachable htab m)
    (hplain : forall key value, m key = some value -> 0 ∉ key ∧ 61 ∉ key ∧ 0 ∉ value)
    (hpos : 0 < cfg.envSize) (hexport : envExport cfg addr htab = some block)
    (hstart : importTable cfg noclear table block.data.length = start)
    (hempty : Reachable start fun _ => none) :
    ReadersAgree cfg noclear table block.data <->
      htab.filled ≤ start.size ∧
        forall key value, m key = some value ->
          GoodKey 0 key ∧ value ≠ [] ∧ 92 ∉ value := by
  rcases hreach.spec with ⟨hw, hm⟩
  rcases hempty.spec with ⟨hw', hm'⟩
  have hmem := fun e => mem_sortedEntries hw hm (e := e)
  have hplainEntries : forall e, e ∈ sortedEntries htab -> Plain e :=
    fun e he => hplain _ _ ((hmem e).mp he)
  have hdata : hexportR htab 0 cfg.envSize = some block.data := by
    unfold envExport at hexport
    rcases Option.map_eq_some_iff.mp hexport with ⟨data, hdata, rfl⟩
    exact hdata
  have hexported : Exported cfg noclear table start (sortedEntries htab) block.data := by
    have hcounted := (hexportR_buffer hdata).left
    refine ⟨hplainEntries, nodup_sortedEntries hw, hexportR_length hpos hdata,
      hexportR_text hdata, ?_, hstart, hw', hm'⟩
    · have hsame : countedLength 0 = fun e => e.key.length + e.data.length + 2 := by
        funext e
        simp [countedLength]
      rw [rawLength, <- hsame]
      exact hcounted
  refine ⟨?_, ?_⟩
  · intro hagree
    have hgood := fun e he => hexported.entries_good hagree (e := e) he
    refine ⟨?_, ?_⟩
    · rcases hexported.imported with ⟨htab', m', hwf, hrep, hsize, hget, _⟩
      have hsub : forall key value, m key = some value -> m' key = some value := by
        intro key value hkey
        rw [<- hget]
        exact (hgood ⟨key, value⟩ ((hmem _).mpr hkey)).2.2.2
      calc htab.filled ≤ htab'.filled := filled_le_of_subset hw hm hwf hrep hsub
        _ ≤ htab'.size := filled_le hwf
        _ = start.size := hsize
    · intro key value hkey
      rcases hgood ⟨key, value⟩ ((hmem _).mpr hkey) with ⟨hgoodKey, hne, hback, _⟩
      exact ⟨hgoodKey, hne, hback⟩
  · rintro ⟨hroom, hgood⟩
    have hentry := fun e (he : e ∈ sortedEntries htab) => hgood _ _ ((hmem e).mp he)
    have hzero : start.filled = 0 := by
      rw [hm'.filled hw']
      simp
    have hfits : Fits 0 (sortedEntries htab) block.data.length := by
      have hcounted := hexported.counted
      have hlen := exportText_length_plain (fun e he => (hplainEntries e he).2.2)
        (fun e he => (hentry e he).2.2)
      exact fits_of_le (fun e he => (hplainEntries e he).2.2) (by lia)
    rcases (import_export_iff goodSep_nul hw hm
      (fun e he => ⟨(hentry e he).1, (hentry e he).2.1, (hplainEntries e he).2.2⟩) hdata
      ⟨hw', hm', by lia⟩).mpr hfits with ⟨htab', himport, hrep⟩
    rcases himportInto_entered 0 hexported.ne_nil hw' hm' with
      ⟨ret, htab'', _, himport', hwf, _⟩
    cases himport.symm.trans himport'
    exact hexported.agree ⟨_, himport⟩ hwf hrep hmem (fun e he => (hentry e he).1.nonempty)
      (fun e he => (hentry e he).2.2)

theorem oneVariable_readers_agree :
    ReadersAgree ⟨8, 2, 512⟩ false none [97, 61, 120, 0, 0, 0, 0, 0] := by
  have hexport : hexportR oneVariable 0 8 = some [97, 61, 120, 0, 0, 0, 0, 0] := by
    decide +kernel
  refine (stored_readers_agree_iff ⟨8, 2, 512⟩ oneVariable (hcreateR 3) _ 0 false none
    ⟨UBoot.crc32 0#32 0 [97, 61, 120, 0, 0, 0, 0, 0], [97, 61, 120, 0, 0, 0, 0, 0]⟩
    ⟨2, _, by decide, by decide, run_oneVariable⟩ ?_ (by decide) (by simp [envExport, hexport])
    rfl ⟨3, [], by decide, by decide, rfl⟩).mpr ⟨by decide +kernel, ?_⟩
  · intro key value hkey
    rcases oneVariable_map hkey with ⟨rfl, rfl⟩
    decide
  · intro key value hkey
    rcases oneVariable_map hkey with ⟨rfl, rfl⟩
    exact ⟨⟨by decide, by decide +kernel, by decide +kernel⟩, by decide, by decide⟩

/-- A value of one backslash is one character for the import and two for the other
readers. -/
theorem backslash_read_differently :
    ((run [.enter (str "a") [92]] (hcreateR 2, fun _ => none)).bind fun s =>
      (envExport ⟨8, 2, 512⟩ 0 s.1).map fun block =>
        let mem := fun a => block.data.getD a 0
        (s.2 (str "a"), importGet ⟨8, 2, 512⟩ false none block.data (str "a"),
          (envGetFromLinear ⟨8, 2, 512⟩ mem (str "a") 8).map
            (fun r => r.2.takeWhile (· != 0)),
          fwGetenv ⟨8, 2, 512⟩ mem (str "a"))) =
      some (some [92], some [92], some [92, 92], some [92, 92]) := by
  decide +kernel

end Env
end Hlk7621
