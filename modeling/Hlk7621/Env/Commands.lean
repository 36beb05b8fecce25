import Hlk7621.Env.Agreement

/-!
# Commands

An import is the run of the commands that its text is parsed to.  In a table with
room, each of them changes the value of at most one name, so the table behind it
has the value of the last command for each name.
-/

namespace Hlk7621
namespace Env

/-- The name and the value that a command is about; no value for a deletion. -/
def Command.change : Command -> Option (Bytes × Option Bytes)
  | .comment => none
  | .delete name => some (name, none)
  | .enter name value => some (name, some value)
  | .emptyName => none

theorem change_inj {cmd cmd' : Command} {p : Bytes × Option Bytes} (h : cmd.change = some p)
    (h' : cmd'.change = some p) : cmd = cmd' := by
  cases cmd <;> cases cmd' <;> cases h <;> cases h' <;> rfl

/-!
## Effects on a table
-/

def Idle (htab : Htab) : Command -> Prop
  | .comment => True
  | .delete name => Missing htab name
  | .enter name value =>
      (exists s, cell htab s = .live name value) ∨
        Missing htab name ∧ htab.filled = htab.size
  | .emptyName => True

def applyAll (htab : Htab) (cmds : List Command) : Option Htab :=
  cmds.foldlM Command.apply htab

theorem applyAll_cons (htab : Htab) (cmd : Command) (cmds : List Command) :
    applyAll htab (cmd :: cmds) = (cmd.apply htab).bind (applyAll · cmds) := rfl

section

variable {htab : Htab} {m m' : Bytes -> Option Bytes}

theorem Represents.unique (hm : Represents htab m) (hm' : Represents htab m') : m = m' := by
  funext key
  refine Option.ext fun value => ?_
  rw [hm key value, hm' key value]

theorem overwritten_same {name value : Bytes} {s : Nat}
    (h : cell htab s = .live name value) :
    overwritten ⟨name, value⟩ .enter htab s = htab := by
  have hnode : { htab.table s with data := value } = htab.table s := by
    rw [<- (cell_live h).2.2.2]
  unfold overwritten
  rw [if_pos rfl, hnode, Function.update_eq_self]

theorem apply_effect (hw : Wf htab) (hm : Represents htab m) (cmd : Command) :
    Idle htab cmd ∧ cmd.apply htab = some htab ∨
      exists name value htab', ¬ Idle htab cmd ∧ cmd.apply htab = some htab' ∧
        cmd.change = some (name, value) ∧
        Represents htab' (Function.update m name value) ∧ m name ≠ value := by
  cases cmd with
  | comment => exact Or.inl ⟨trivial, rfl⟩
  | emptyName => exact Or.inl ⟨trivial, rfl⟩
  | delete name =>
      rcases hdeleteR_spec hw hm name with ⟨r, hr, _, hret⟩
      have happly : (Command.delete name).apply htab = some r.2 := by
        simp [Command.apply, hr]
      rcases hret with ⟨_, hnone, hsame⟩ | ⟨_, hsome, hm'⟩
      · exact Or.inl ⟨hm.missing.mpr hnone, by rw [happly, hsame]⟩
      · exact Or.inr ⟨name, none, r.2, fun h => hsome (hm.missing.mp h), happly,
          rfl, hm', hsome⟩
  | enter name value =>
      rcases hsearchR_spec hw ⟨name, value⟩ .enter with ⟨found, hfound, hend⟩
      have happly : (Command.enter name value).apply htab = some found.htab := by
        simp [Command.apply, hfound]
      cases hend with
      | @found _ s old h =>
          have hname : m name = some old := (hm name old).mpr ⟨s, h⟩
          by_cases hold : old = value
          · subst hold
            exact Or.inl ⟨Or.inl ⟨s, h⟩, by rw [happly, overwritten_same h]⟩
          · refine Or.inr ⟨name, some value, _, ?_, happly, rfl,
              hm.overwritten hw h, ?_⟩
            · rintro (hsame | ⟨hmissing, _⟩)
              · rw [(hm name value).mpr hsame] at hname
                exact hold (Option.some.inj hname).symm
              · exact hmissing s old h
            · rw [hname]
              exact fun heq => hold (Option.some.inj heq)
      | full h full => exact Or.inl ⟨Or.inr ⟨h, full⟩, happly⟩
      | @entered s h room vacant =>
          refine Or.inr ⟨name, some value, _, ?_, happly, rfl,
            hm.newEntry hw h vacant, ?_⟩
          · rintro (⟨s, hs⟩ | ⟨_, full⟩)
            · exact h s value hs
            · exact room full
          · rw [hm.missing.mp h]
            exact fun heq => by cases heq

theorem update_eq_update {n n' : Bytes} {x x' : Option Bytes}
    (h : Function.update m n x = Function.update m n' x') (hne : m n ≠ x) :
    n = n' ∧ x = x' := by
  have hat := congrFun h n
  rw [Function.update_self] at hat
  by_cases hn : n = n'
  · subst hn
    rw [Function.update_self] at hat
    exact ⟨rfl, hat⟩
  · rw [Function.update_of_ne hn] at hat
    exact absurd hat.symm hne

theorem apply_eq_iff (hw : Wf htab) (hm : Represents htab m) (cmd cmd' : Command) :
    cmd.apply htab = cmd'.apply htab <->
      cmd = cmd' ∨ Idle htab cmd ∧ Idle htab cmd' := by
  have hchange : forall {htab' : Htab} {name : Bytes} {value : Option Bytes},
      some htab = some htab' -> Represents htab' (Function.update m name value) ->
      m name = value := by
    intro htab' name value h hm'
    cases h
    exact (congrFun (hm.unique hm') name).trans (Function.update_self ..)
  constructor
  · intro heq
    rcases apply_effect hw hm cmd with ⟨hidle, h⟩ | ⟨n, x, htab1, _, h, hcmd, hm1, hne⟩
    · rcases apply_effect hw hm cmd' with ⟨hidle', h'⟩ | ⟨n', x', htab2, _, h', _, hm2, hne'⟩
      · exact Or.inr ⟨hidle, hidle'⟩
      · rw [h, h'] at heq
        exact absurd (hchange heq hm2) hne'
    · rcases apply_effect hw hm cmd' with ⟨_, h'⟩ | ⟨n', x', htab2, _, h', hcmd', hm2, _⟩
      · rw [h, h'] at heq
        exact absurd (hchange heq.symm hm1) hne
      · rw [h, h'] at heq
        cases heq
        rcases update_eq_update (hm1.unique hm2) hne with ⟨rfl, rfl⟩
        exact Or.inl (change_inj hcmd hcmd')
  · have hstays : forall c, Idle htab c -> c.apply htab = some htab := by
      intro c hc
      rcases apply_effect hw hm c with ⟨_, h⟩ | ⟨_, _, _, hidle, _⟩
      · exact h
      · exact absurd hc hidle
    rintro (rfl | ⟨hidle, hidle'⟩)
    · rfl
    · rw [hstays cmd hidle, hstays cmd' hidle']

theorem applyAll_spec (hw : Wf htab) (hm : Represents htab m) (cmds : List Command) :
    exists htab' m', applyAll htab cmds = some htab' ∧ Wf htab' ∧ Represents htab' m' ∧
      htab'.size = htab.size := by
  induction cmds generalizing htab m with
  | nil => exact ⟨htab, m, rfl, hw, hm, rfl⟩
  | cons cmd cmds ih =>
      rcases apply_entered hw hm cmd with ⟨htab1, m1, happly, he⟩
      rcases ih he.wf he.represents with ⟨htab2, m2, hall, hw2, hm2, hsize⟩
      refine ⟨htab2, m2, ?_, hw2, hm2, hsize.trans he.size⟩
      rw [applyAll_cons, happly]
      exact hall

end

/-!
## Runs with room
-/

/-- The commands find a free slot whenever they enter a new name. -/
def HasRoom : List Command -> Htab -> Prop
  | [], _ => True
  | cmd :: cmds, htab =>
      (forall name value, cmd = .enter name value -> Missing htab name ->
        htab.filled ≠ htab.size) ∧
      forall htab', cmd.apply htab = some htab' -> HasRoom cmds htab'

def changes (cmds : List Command) : List (Bytes × Option Bytes) :=
  cmds.filterMap Command.change

def changed (m : Bytes -> Option Bytes) (cmds : List Command) (name : Bytes) : Option Bytes :=
  ((changes cmds).reverse.lookup name).getD (m name)

def Command.onMap (m : Bytes -> Option Bytes) (cmd : Command) : Bytes -> Option Bytes :=
  match cmd.change with
  | none => m
  | some (name, value) => Function.update m name value

section

variable {htab : Htab} {m : Bytes -> Option Bytes}

theorem changes_cons_none {cmd : Command} (h : cmd.change = none) (cmds : List Command) :
    changes (cmd :: cmds) = changes cmds :=
  List.filterMap_cons_none h

theorem changes_cons_some {cmd : Command} {p : Bytes × Option Bytes} (h : cmd.change = some p)
    (cmds : List Command) : changes (cmd :: cmds) = p :: changes cmds :=
  List.filterMap_cons_some h

theorem onMap_none {cmd : Command} (h : cmd.change = none) : cmd.onMap m = m := by
  unfold Command.onMap
  rw [h]

theorem onMap_some {cmd : Command} {name : Bytes} {value : Option Bytes}
    (h : cmd.change = some (name, value)) : cmd.onMap m = Function.update m name value := by
  unfold Command.onMap
  rw [h]

theorem changed_cons (cmd : Command) (cmds : List Command) :
    changed m (cmd :: cmds) = changed (cmd.onMap m) cmds := by
  funext name
  unfold changed
  cases hchange : cmd.change with
  | none => rw [changes_cons_none hchange, onMap_none hchange]
  | some p =>
      rcases p with ⟨n, value⟩
      rw [changes_cons_some hchange, onMap_some hchange, List.reverse_cons, List.lookup_append]
      cases (changes cmds).reverse.lookup name with
      | some _ => rfl
      | none =>
          by_cases hname : name = n
          · subst hname
            simp
          · have hbeq : (name == n) = false := by simpa using hname
            simp [List.lookup_cons, hbeq, Function.update_of_ne hname]

theorem apply_represents (hw : Wf htab) (hm : Represents htab m) (cmd : Command)
    (hroom : forall name value, cmd = .enter name value -> Missing htab name ->
      htab.filled ≠ htab.size) :
    exists htab', cmd.apply htab = some htab' ∧ Wf htab' ∧ Represents htab' (cmd.onMap m) := by
  cases cmd with
  | comment => exact ⟨htab, rfl, hw, hm⟩
  | emptyName => exact ⟨htab, rfl, hw, hm⟩
  | delete name =>
      rcases hdeleteR_spec hw hm name with ⟨r, hr, hw', hret⟩
      refine ⟨r.2, by simp [Command.apply, hr], hw', ?_⟩
      rcases hret with ⟨_, hnone, hsame⟩ | ⟨_, _, hm'⟩
      · have hstays : Function.update m name none = m := by
          rw [<- hnone, Function.update_eq_self]
        rw [hsame]
        show Represents htab (Function.update m name none)
        rwa [hstays]
      · exact hm'
  | enter name value =>
      rcases hsearchR_enter hw hm ⟨name, value⟩ with ⟨found, hfound, hw', hret⟩
      refine ⟨found.htab, by simp [Command.apply, hfound], hw', ?_⟩
      rcases hret with ⟨_, hnone, hfull, _⟩ | ⟨_, hm'⟩
      · exact absurd hfull (hroom name value rfl (hm.missing.mpr hnone))
      · exact hm'

theorem applyAll_represents (hw : Wf htab) (hm : Represents htab m) {cmds : List Command}
    (hroom : HasRoom cmds htab) :
    exists htab', applyAll htab cmds = some htab' ∧ Wf htab' ∧
      Represents htab' (changed m cmds) := by
  induction cmds generalizing htab m with
  | nil => exact ⟨htab, rfl, hw, hm⟩
  | cons cmd cmds ih =>
      rcases apply_represents hw hm _ hroom.left with ⟨htab1, happly, hw1, hm1⟩
      rcases ih hw1 hm1 (hroom.right htab1 happly) with ⟨htab2, hall, hw2, hm2⟩
      refine ⟨htab2, ?_, hw2, by rwa [changed_cons]⟩
      rw [applyAll_cons, happly]
      exact hall

end

theorem himportLoop_commands (sep : UInt8) {fuel : Nat} {dp : Bytes} (hdp : dp ≠ [])
    (hfuel : dp.length ≤ fuel) (htab : Htab) :
    himportLoop sep fuel dp htab = (applyAll htab (commands sep fuel dp)).map fun htab =>
      (if .emptyName ∈ commands sep fuel dp then 0 else 1, htab) := by
  induction fuel generalizing dp htab with
  | zero => exact absurd (List.length_eq_zero_iff.mp (by lia)) hdp
  | succ fuel ih =>
      have hshort := parseEntry_length sep hdp
      rw [himportLoop, commands, applyAll_cons]
      cases (parseEntry sep dp).1.apply htab with
      | none => rfl
      | some htab' =>
          dsimp only
          rw [Option.bind_some]
          by_cases hempty : (parseEntry sep dp).1 = .emptyName
          · have hstop : ¬ ((parseEntry sep dp).1 ≠ .emptyName ∧
                2 ≤ (parseEntry sep dp).2.length ∧ (parseEntry sep dp).2.headD 0 ≠ 0) :=
              fun h => h.left hempty
            rw [if_pos hempty, if_neg hstop, hempty]
            rfl
          · rw [if_neg hempty]
            have hmem : forall cmds, .emptyName ∈ (parseEntry sep dp).1 :: cmds <->
                .emptyName ∈ cmds := by
              intro cmds
              rw [List.mem_cons]
              exact ⟨fun h => h.resolve_left (Ne.symm hempty), Or.inr⟩
            simp only [hmem]
            by_cases hgo : 2 ≤ (parseEntry sep dp).2.length ∧ (parseEntry sep dp).2.headD 0 ≠ 0
            · have hnext : (parseEntry sep dp).1 ≠ .emptyName ∧
                  2 ≤ (parseEntry sep dp).2.length ∧ (parseEntry sep dp).2.headD 0 ≠ 0 :=
                ⟨hempty, hgo⟩
              rw [if_pos hgo, if_pos hnext]
              exact ih (List.length_pos_iff.mp (by lia)) (by lia) htab'
            · have hstop : ¬ ((parseEntry sep dp).1 ≠ .emptyName ∧
                  2 ≤ (parseEntry sep dp).2.length ∧ (parseEntry sep dp).2.headD 0 ≠ 0) :=
                fun h => hgo h.right
              rw [if_neg hgo, if_neg hstop]
              rfl

end Env
end Hlk7621
