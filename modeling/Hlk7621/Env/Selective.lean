import Hlk7621.Env.Commands

/-!
# Import of selected variables

With a list of names, `himport_r` keeps the present table and executes only the
commands about names of the list.  A name is taken off a copy of the list at its
first command, so it is not on the list at the second one.  What is left of the list
is deleted at the end, unless `H_NOCLEAR` is set.
-/

namespace Hlk7621
namespace Env

/-!
## The code
-/

/-- `drop_var_from_set`: the return value and the list, in which `NULL` stands for a
name that has been met. -/
def dropVarFromSet (name : Bytes) (vars : List (Option Bytes)) :
    Bool × List (Option Bytes) :=
  if vars = [] then (true, [])
  else (vars.contains (some name), vars.map fun v => if v = some name then none else v)

def Command.applyListed (htab : Htab) (vars : List (Option Bytes)) (cmd : Command) :
    Option (Htab × List (Option Bytes)) :=
  match cmd.change with
  | none => some (htab, vars)
  | some (name, _) =>
      let r := dropVarFromSet name vars
      if r.1 then (cmd.apply htab).map (·, r.2) else some (htab, r.2)

def himportVarsLoop (sep : UInt8) : Nat -> Bytes -> Htab -> List (Option Bytes) ->
    Option (Nat × Htab × List (Option Bytes))
  | 0, _, _, _ => none
  | fuel + 1, dp, htab, vars =>
      let r := parseEntry sep dp
      match r.1.applyListed htab vars with
      | none => none
      | some (htab, vars) =>
          if r.1 = .emptyName then some (0, htab, vars)
          else if 2 ≤ r.2.length ∧ r.2.headD 0 ≠ 0 then
            himportVarsLoop sep fuel r.2 htab vars
          else some (1, htab, vars)

/-- The loop over the names that were not met. -/
def deleteUnmet (htab : Htab) : List (Option Bytes) -> Option Htab
  | [] => some htab
  | none :: vars => deleteUnmet htab vars
  | some name :: vars =>
      match hdeleteR htab name with
      | none => none
      | some r => deleteUnmet r.2 vars

/-- `himport_r` with the list `vars`. -/
def himportVarsR (cfg : Config) (noclear : Bool) (table : Option Htab) (env : Bytes)
    (sep : UInt8) (vars : List Bytes) : Option (Nat × Htab) :=
  let htab := importTable cfg (noclear || !vars.isEmpty) table env.length
  if env = [] then some (1, htab)
  else
    match himportVarsLoop sep (env.length + 1) (env ++ [0]) htab (vars.map some) with
    | none => none
    | some (ret, htab, unmet) =>
        if ret = 0 then some (0, htab)
        else if noclear then some (1, htab)
        else (deleteUnmet htab unmet).map (1, ·)

/-!
## The selected commands
-/

/-- The commands of a list that are executed, and what is left of the names. -/
def selected : List (Option Bytes) -> List Command -> List Command × List (Option Bytes)
  | vars, [] => ([], vars)
  | vars, cmd :: cmds =>
      match cmd.change with
      | none =>
          let r := selected vars cmds
          (cmd :: r.1, r.2)
      | some (name, _) =>
          let r := selected (dropVarFromSet name vars).2 cmds
          (if (dropVarFromSet name vars).1 then cmd :: r.1 else r.1, r.2)

def executed (sep : UInt8) (env : Bytes) : List Command :=
  if env = [] then [] else commands sep (env.length + 1) (env ++ [0])

theorem selected_cons (vars : List (Option Bytes)) (cmd : Command) (cmds : List Command)
    (htab : Htab) :
    (applyAll htab (selected vars (cmd :: cmds)).1).map (·, (selected vars (cmd :: cmds)).2) =
      (cmd.applyListed htab vars).bind fun r =>
        (applyAll r.1 (selected r.2 cmds).1).map (·, (selected r.2 cmds).2) := by
  unfold Command.applyListed
  rw [selected]
  cases hchange : cmd.change with
  | none =>
      have hstays : cmd.apply htab = some htab := by
        cases cmd with
        | comment => rfl
        | emptyName => rfl
        | delete name => cases hchange
        | enter name value => cases hchange
      dsimp only
      rw [applyAll_cons, hstays]
      rfl
  | some p =>
      dsimp only
      split
      · rw [applyAll_cons]
        cases cmd.apply htab <;> rfl
      · rfl

theorem himportVarsLoop_selected (sep : UInt8) {fuel : Nat} {dp : Bytes} (hdp : dp ≠ [])
    (hfuel : dp.length ≤ fuel) (htab : Htab) (vars : List (Option Bytes)) :
    himportVarsLoop sep fuel dp htab vars =
      ((applyAll htab (selected vars (commands sep fuel dp)).1).map
        (·, (selected vars (commands sep fuel dp)).2)).map fun r =>
          (if .emptyName ∈ commands sep fuel dp then 0 else 1, r) := by
  induction fuel generalizing dp htab vars with
  | zero => exact absurd (List.length_eq_zero_iff.mp (by lia)) hdp
  | succ fuel ih =>
      have hshort := parseEntry_length sep hdp
      rw [himportVarsLoop, commands, selected_cons]
      cases (parseEntry sep dp).1.applyListed htab vars with
      | none => rfl
      | some r =>
          rcases r with ⟨htab', vars'⟩
          dsimp only
          rw [Option.bind_some]
          by_cases hempty : (parseEntry sep dp).1 = .emptyName
          · have hstop : ¬ ((parseEntry sep dp).1 ≠ .emptyName ∧
                2 ≤ (parseEntry sep dp).2.length ∧ (parseEntry sep dp).2.headD 0 ≠ 0) :=
              fun h => h.left hempty
            rw [if_pos hempty, if_neg hstop, hempty]
            rfl
          · rw [if_neg hempty]
            have hmem : forall cmds, .emptyName ∈ (parseEntry sep dp).1 :: cmds <->
                .emptyName ∈ cmds := by
              intro cmds
              rw [List.mem_cons]
              exact ⟨fun h => h.resolve_left (Ne.symm hempty), Or.inr⟩
            simp only [hmem]
            by_cases hgo : 2 ≤ (parseEntry sep dp).2.length ∧ (parseEntry sep dp).2.headD 0 ≠ 0
            · have hnext : (parseEntry sep dp).1 ≠ .emptyName ∧
                  2 ≤ (parseEntry sep dp).2.length ∧ (parseEntry sep dp).2.headD 0 ≠ 0 :=
                ⟨hempty, hgo⟩
              rw [if_pos hgo, if_pos hnext]
              exact ih (List.length_pos_iff.mp (by lia)) (by lia) htab' vars'
            · have hstop : ¬ ((parseEntry sep dp).1 ≠ .emptyName ∧
                  2 ≤ (parseEntry sep dp).2.length ∧ (parseEntry sep dp).2.headD 0 ≠ 0) :=
                fun h => hgo h.right
              rw [if_neg hgo, if_neg hstop]
              rfl

/-!
## The values behind the import
-/

section

variable {m : Bytes -> Option Bytes} {vars : List (Option Bytes)} {name : Bytes}

theorem dropVarFromSet_spec (name : Bytes) (hvars : vars ≠ []) :
    ((dropVarFromSet name vars).1 = true <-> some name ∈ vars) ∧
      (dropVarFromSet name vars).2 ≠ [] ∧
      forall x, some x ∈ (dropVarFromSet name vars).2 <-> some x ∈ vars ∧ x ≠ name := by
  unfold dropVarFromSet
  rw [if_neg hvars]
  refine ⟨List.contains_iff_mem, by simpa using hvars, fun x => ?_⟩
  rw [List.mem_map]
  constructor
  · rintro ⟨v, hv, heq⟩
    split at heq
    · cases heq
    · rename_i hne
      subst heq
      exact ⟨hv, fun h => hne (congrArg some h)⟩
  · rintro ⟨hx, hne⟩
    exact ⟨some x, hx, if_neg (fun h => hne (Option.some.inj h))⟩

/-- The selected commands give each name of the list its first change. -/
theorem changed_selected (m : Bytes -> Option Bytes) (name : Bytes) (hvars : vars ≠ [])
    (cmds : List Command) :
    changed m (selected vars cmds).1 name =
      if some name ∈ vars then ((changes cmds).lookup name).getD (m name) else m name := by
  induction cmds generalizing m vars with
  | nil =>
      show m name = _
      split <;> rfl
  | cons cmd cmds ih =>
      rw [selected]
      cases hchange : cmd.change with
      | none =>
          dsimp only
          rw [changed_cons, ih _ hvars, changes_cons_none hchange, onMap_none hchange]
      | some p =>
          rcases p with ⟨n, value⟩
          dsimp only
          rcases dropVarFromSet_spec n hvars with ⟨hlisted, hvars', hrest⟩
          rw [changes_cons_some hchange, List.lookup_cons]
          by_cases hname : name = n
          · subst hname
            rw [beq_self_eq_true]
            split
            · rename_i hdrop
              rw [changed_cons, ih _ hvars', if_neg (fun h => ((hrest name).mp h).right rfl),
                if_pos (hlisted.mp hdrop), onMap_some hchange]
              exact Function.update_self ..
            · rename_i hdrop
              rw [ih _ hvars', if_neg (fun h => ((hrest name).mp h).right rfl),
                if_neg (fun h => hdrop (hlisted.mpr h))]
          · have hbeq : (name == n) = false := by simpa using hname
            have hsame : some name ∈ (dropVarFromSet n vars).2 <-> some name ∈ vars := by
              rw [hrest]
              exact and_iff_left hname
            rw [hbeq]
            split
            · rw [changed_cons, ih _ hvars', onMap_some hchange]
              simp only [hsame, Function.update_of_ne hname]
            · rw [ih _ hvars']
              simp only [hsame]

theorem mem_unmet (name : Bytes) (hvars : vars ≠ []) (cmds : List Command) :
    some name ∈ (selected vars cmds).2 <->
      some name ∈ vars ∧ (changes cmds).lookup name = none := by
  induction cmds generalizing vars with
  | nil => simp [selected, changes]
  | cons cmd cmds ih =>
      rw [selected]
      cases hchange : cmd.change with
      | none =>
          dsimp only
          rw [ih hvars, changes_cons_none hchange]
      | some p =>
          rcases p with ⟨n, value⟩
          dsimp only
          rcases dropVarFromSet_spec n hvars with ⟨_, hvars', hrest⟩
          rw [ih hvars', hrest, changes_cons_some hchange, List.lookup_cons]
          by_cases hname : name = n
          · subst hname
            simp
          · have hbeq : (name == n) = false := by simpa using hname
            rw [hbeq]
            simp [hname]

theorem deleteUnmet_represents {htab : Htab} (hw : Wf htab) (hm : Represents htab m)
    (unmet : List (Option Bytes)) :
    exists htab', deleteUnmet htab unmet = some htab' ∧
      Represents htab' fun name => if some name ∈ unmet then none else m name := by
  induction unmet generalizing htab m with
  | nil => exact ⟨htab, rfl, by simpa using hm⟩
  | cons v unmet ih =>
      cases v with
      | none =>
          rcases ih hw hm with ⟨htab', hdel, hm'⟩
          exact ⟨htab', hdel, by simpa using hm'⟩
      | some n =>
          rcases apply_represents hw hm (.delete n) (fun _ _ h => by cases h) with
            ⟨htab1, happly, hw1, hm1⟩
          rcases ih hw1 hm1 with ⟨htab', hdel, hm'⟩
          refine ⟨htab', ?_, ?_⟩
          · rw [Command.apply, Option.map_eq_some_iff] at happly
            rcases happly with ⟨r, hr, rfl⟩
            rw [deleteUnmet, hr]
            exact hdel
          · refine Eq.mp (congrArg (Represents htab') ?_) hm'
            funext name
            show (if some name ∈ unmet then none else Function.update m n none name) = _
            rw [Function.update_apply]
            grind

theorem lookup_reverse_none (name : Bytes) (cmds : List Command) :
    (changes cmds).reverse.lookup name = none <-> (changes cmds).lookup name = none := by
  simp only [List.lookup_eq_none_iff, List.mem_reverse]

end

theorem himportInto_changed {start : Htab} {sep : UInt8} {env : Bytes} (hw : Wf start)
    (hm : Represents start fun _ => none) (hroom : HasRoom (executed sep env) start) :
    exists ret htab, himportInto start env sep = some (ret, htab) ∧
      Represents htab (changed (fun _ => none) (executed sep env)) := by
  rcases applyAll_represents hw hm hroom with ⟨htab, hall, _, hm'⟩
  by_cases henv : env = []
  · subst henv
    cases hall
    exact ⟨1, start, rfl, hm'⟩
  · have hcmds : executed sep env = commands sep (env.length + 1) (env ++ [0]) := if_neg henv
    refine ⟨if .emptyName ∈ executed sep env then 0 else 1, htab, ?_, hm'⟩
    unfold himportInto
    rw [if_neg henv, himportLoop_commands sep (by simp) (by simp), <- hcmds, hall]
    rfl

def StopsEarly (noclear : Bool) (sep : UInt8) (env : Bytes) : Prop :=
  noclear = true ∨ env = [] ∨ .emptyName ∈ executed sep env

instance (noclear : Bool) (sep : UInt8) (env : Bytes) :
    Decidable (StopsEarly noclear sep env) := inferInstanceAs (Decidable (_ ∨ _))

def selectedMap (m : Bytes -> Option Bytes) (noclear : Bool) (sep : UInt8) (env : Bytes)
    (vars : List Bytes) (name : Bytes) : Option Bytes :=
  if name ∈ vars then
    ((changes (executed sep env)).lookup name).getD
      (if StopsEarly noclear sep env then m name else none)
  else m name

theorem himportVarsR_changed {cfg : Config} (noclear : Bool) {table : Option Htab} {htab : Htab}
    {m : Bytes -> Option Bytes} {sep : UInt8} {env : Bytes} {vars : List Bytes}
    (hvars : vars ≠ []) (htable : importTable cfg true table env.length = htab) (hw : Wf htab)
    (hm : Represents htab m)
    (hroom : HasRoom (selected (vars.map some) (executed sep env)).1 htab) :
    exists ret htab', himportVarsR cfg noclear table env sep vars = some (ret, htab') ∧
      Represents htab' (selectedMap m noclear sep env vars) := by
  have hvars' : vars.map some ≠ [] := by simpa using hvars
  have hmem : forall name, some name ∈ vars.map some <-> name ∈ vars := by simp
  have hvalue := fun name => changed_selected m name hvars' (executed sep env)
  have hunmet := fun name => mem_unmet name hvars' (executed sep env)
  rcases applyAll_represents hw hm hroom with ⟨htab1, hall, hw1, hm1⟩
  -- the table behind the loop
  have hearly : StopsEarly noclear sep env ->
      Represents htab1 (selectedMap m noclear sep env vars) := by
    intro hstop
    refine Eq.mp (congrArg (Represents htab1) (funext fun name => ?_)) hm1
    rw [hvalue, selectedMap, if_pos hstop]
    simp only [hmem]
  have hkept : importTable cfg (noclear || !vars.isEmpty) table env.length = htab := by
    rw [show (noclear || !vars.isEmpty) = true by simp [hvars], htable]
  unfold himportVarsR
  rw [hkept]
  dsimp only
  by_cases henv : env = []
  · subst henv
    cases hall
    exact ⟨1, _, rfl, hearly (Or.inr (Or.inl rfl))⟩
  · have hcmds : executed sep env = commands sep (env.length + 1) (env ++ [0]) := if_neg henv
    rw [if_neg henv, himportVarsLoop_selected sep (by simp) (by simp), <- hcmds, hall]
    dsimp only [Option.map_some]
    by_cases hempty : .emptyName ∈ executed sep env
    · rw [if_pos hempty, if_pos rfl]
      exact ⟨0, htab1, rfl, hearly (Or.inr (Or.inr hempty))⟩
    · rw [if_neg hempty, if_neg Nat.one_ne_zero]
      cases noclear with
      | true => exact ⟨1, htab1, rfl, hearly (Or.inl rfl)⟩
      | false =>
          rcases deleteUnmet_represents hw1 hm1 (selected (vars.map some) (executed sep env)).2
            with ⟨htab2, hdel, hm2⟩
          have hlate : ¬ StopsEarly false sep env := by
            rintro (h | h | h)
            · cases h
            · exact henv h
            · exact hempty h
          refine ⟨1, htab2, by rw [hdel]; rfl, ?_⟩
          refine Eq.mp (congrArg (Represents htab2) (funext fun name => ?_)) hm2
          rw [hvalue, selectedMap, if_neg hlate]
          simp only [hunmet, hmem]
          by_cases hlisted : name ∈ vars
          · cases (changes (executed sep env)).lookup name <;> simp [hlisted]
          · simp [hlisted]

/-- `m'` is `m` with the listed variables as the full import `full` has them; with
`H_NOCLEAR`, those that the text does not mention stay. -/
def RestrictsTo (noclear : Bool) (cmds : List Command) (vars : List Bytes)
    (m full m' : Bytes -> Option Bytes) : Prop :=
  forall name, m' name =
    if name ∈ vars then
      if noclear ∧ (changes cmds).lookup name = none then m name else full name
    else m name

/-- With room for the entries, the selective import is the restriction of the
full import exactly if the first and the last change of each listed variable are
the same, and, unless `H_NOCLEAR` is set, the listed variables that the text does not
mention are missing in the table when the text is empty or stops at an entry with an
empty name. -/
theorem selective_import_iff (cfg : Config) (noclear : Bool) (table : Option Htab)
    (env : Bytes) (sep : UInt8) (vars : List Bytes) (htab start : Htab)
    (m : Bytes -> Option Bytes) (hvars : vars ≠ [])
    (htable : importTable cfg true table env.length = htab) (hreach : Reachable htab m)
    (hempty : Reachable start fun _ => none)
    (hroom : HasRoom (selected (vars.map some) (executed sep env)).1 htab)
    (hroom' : HasRoom (executed sep env) start) :
    exists ret htab' m' ret' htab'' full,
      himportVarsR cfg noclear table env sep vars = some (ret, htab') ∧
      Represents htab' m' ∧
      himportR cfg true (some start) env sep = some (ret', htab'') ∧
      Represents htab'' full ∧
      (RestrictsTo noclear (executed sep env) vars m full m' <->
        (forall name, name ∈ vars -> (changes (executed sep env)).lookup name =
          (changes (executed sep env)).reverse.lookup name) ∧
        (noclear = false -> env = [] ∨ .emptyName ∈ executed sep env ->
          forall name, name ∈ vars -> (changes (executed sep env)).lookup name = none ->
            m name = none)) := by
  rcases hreach.spec with ⟨hw, hm⟩
  rcases hempty.spec with ⟨hw0, hm0⟩
  rcases himportVarsR_changed noclear hvars htable hw hm hroom with
    ⟨ret, htab', himport, hm'⟩
  rcases himportInto_changed hw0 hm0 hroom' with ⟨ret', htab'', hfull, hm''⟩
  refine ⟨ret, htab', _, ret', htab'', _, himport, hm', hfull, hm'', ?_⟩
  have hrev := fun name => lookup_reverse_none name (executed sep env)
  constructor
  · intro h
    refine ⟨fun name hname => ?_, fun hclear hstop name hname hnone => ?_⟩
    · have hval := h name
      rw [selectedMap, if_pos hname, if_pos hname] at hval
      cases hfirst : (changes (executed sep env)).lookup name with
      | none => exact ((hrev name).mpr hfirst).symm
      | some value =>
          have hmention : ¬ (noclear = true ∧ some value = none) := fun h => by cases h.right
          rw [hfirst, if_neg hmention, Option.getD_some, changed] at hval
          cases hlast : (changes (executed sep env)).reverse.lookup name with
          | none =>
              rw [(hrev name).mp hlast] at hfirst
              cases hfirst
          | some value' =>
              rw [hlast] at hval
              exact congrArg some hval
    · have hval := h name
      have hdrops : ¬ (noclear = true ∧ (none : Option (Option Bytes)) = none) := by
        rw [hclear]
        exact fun h => by cases h.left
      have hearly : StopsEarly noclear sep env := Or.inr hstop
      rw [selectedMap, if_pos hname, if_pos hname, hnone, if_neg hdrops, if_pos hearly,
        changed, (hrev name).mpr hnone] at hval
      exact hval
  · rintro ⟨hsame, hgone⟩ name
    rw [selectedMap]
    by_cases hname : name ∈ vars
    · rw [if_pos hname, if_pos hname, changed, <- hsame name hname]
      cases hfirst : (changes (executed sep env)).lookup name with
      | some value =>
          have hmention : ¬ (noclear = true ∧ some value = none) := fun h => by cases h.right
          rw [if_neg hmention]
          rfl
      | none =>
          rw [Option.getD_none, Option.getD_none]
          cases hclear : noclear with
          | true =>
              have hearly : StopsEarly true sep env := Or.inl rfl
              rw [if_pos hearly, if_pos ⟨rfl, rfl⟩]
          | false =>
              have hdrops : ¬ (false = true ∧ (none : Option (Option Bytes)) = none) :=
                fun h => by cases h.left
              rw [if_neg hdrops]
              split
              · rename_i hstop
                refine hgone hclear ?_ name hname hfirst
                exact hstop.resolve_left (fun h => by cases h)
              · rfl
    · rw [if_neg hname, if_neg hname]

/-- One definition, of a variable that is not in the table. -/
theorem selective_import_one : exists ret htab' m' ret' htab'' full,
    himportVarsR ⟨64, 2, 512⟩ false none (str "a=1") 10 [str "a"] = some (ret, htab') ∧
    Represents htab' m' ∧
    himportR ⟨64, 2, 512⟩ true (some (hcreateR 2)) (str "a=1") 10 = some (ret', htab'') ∧
    Represents htab'' full ∧
    (RestrictsTo false (executed 10 (str "a=1")) [str "a"] (fun _ => none) full m' <->
      (forall name, name ∈ [str "a"] -> (changes (executed 10 (str "a=1"))).lookup name =
        (changes (executed 10 (str "a=1"))).reverse.lookup name) ∧
      (false = false -> str "a=1" = [] ∨ .emptyName ∈ executed 10 (str "a=1") ->
        forall name, name ∈ [str "a"] ->
          (changes (executed 10 (str "a=1"))).lookup name = none ->
            (fun _ => none : Bytes -> Option Bytes) name = none)) := by
  have hcmds : executed 10 (str "a=1") = [.enter (str "a") (str "1")] := by decide +kernel
  have hsize : (hcreateR 2).filled ≠ (hcreateR 2).size := by decide +kernel
  have hroom : HasRoom [.enter (str "a") (str "1")] (hcreateR 2) :=
    ⟨fun _ _ _ _ => hsize, fun _ _ => trivial⟩
  refine selective_import_iff ⟨64, 2, 512⟩ false none (str "a=1") 10 [str "a"] (hcreateR 2)
    (hcreateR 2) _ (by simp) rfl ⟨2, [], by decide, by decide, rfl⟩
    ⟨2, [], by decide, by decide, rfl⟩ ?_ ?_
  · rw [hcmds]
    exact hroom
  · rw [hcmds]
    exact hroom

/-- Of two definitions the selective import takes the first, and the full import the
second. -/
theorem selective_import_first_definition :
    (himportVarsR ⟨64, 2, 512⟩ false none (str "a=1\na=2") 10 [str "a"]).map
        (fun r => (r.1, sortedEntries r.2)) = some (1, [⟨str "a", str "1"⟩]) ∧
    (himportR ⟨64, 2, 512⟩ true (some (hcreateR 2)) (str "a=1\na=2") 10).map
        (fun r => (r.1, sortedEntries r.2)) = some (1, [⟨str "a", str "2"⟩]) := by
  decide +kernel

end Env
end Hlk7621
