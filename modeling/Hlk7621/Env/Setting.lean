import Hlk7621.Env.Fwenv

/-!
# Setting a variable in the flash

`fw_env_set` of `tools/env/fw_env.c`: the environment is read, `fw_env_write` edits it
and `fw_env_flush` writes it back if it is dirty.  The result of the edit is not looked
at, and the old definition is gone when the room for the new one is found missing.
-/

namespace Hlk7621
namespace Env
namespace Fwenv

/-!
## The code
-/

/-- A device with an environment: what `fw_env_open` reads from it, and what writing a
block with `flash_io` does to it. -/
structure Device (F : Type) where
  fwEnvOpen : F -> Option Environment
  flashIo : F -> (Nat -> UInt8) -> Bool × F

variable {F : Type}

def fwEnvFlush (D : Device F) (flash : F) (E : Environment) : Int × F :=
  if E.dirty = false then (0, flash)
  else
    let r := D.flashIo flash E.data
    (if r.1 then 0 else -1, r.2)

def joined : List Bytes -> Option Bytes
  | [] => none
  | val :: valv => some (valv.foldl (fun value val => value ++ 32 :: val) val)

/-- `fw_env_set`, with `env_flags_validate_env_set_params` as `refuses`. -/
def fwEnvSet (R : Rules) (refuses : (Nat -> UInt8) -> Bytes -> List Bytes -> Bool)
    (cfg : Config) (D : Device F) (flash : F) : List Bytes -> Option (Int × F)
  | [] => some (-1, flash)
  | name :: valv =>
      match D.fwEnvOpen flash with
      | none => some (-1, flash)
      | some E =>
          if refuses E.data name valv then some (-1, flash)
          else
            (fwEnvWrite R cfg E name (joined valv)).map fun r => fwEnvFlush D flash r.2

/-!
## Refusals
-/

def Gives (cfg : Config) (D : Device F) (flash : F) (mem : Nat -> UInt8) : Prop :=
  exists E, D.fwEnvOpen flash = some E ∧
    forall name, 0 ∉ name -> 61 ∉ name -> fwGetenv cfg E.data name = fwGetenv cfg mem name

def Rejects (cfg : Config) (D : Device F) (mem : Nat -> UInt8) (r : Int × F) : Prop :=
  r.1 ≠ 0 ∧ Gives cfg D r.2 mem

section

variable {R : Rules} {cfg : Config} {D : Device F} {flash : F} {E E' : Environment}
variable {entries : List Entry} {name : Bytes} {valv : List Bytes}
variable {refuses : (Nat -> UInt8) -> Bytes -> List Bytes -> Bool}

theorem appendDefinition_refused {envSize : Nat} {new : Bytes}
    (h : appendDefinition envSize E name new = some (-1, E')) : E' = E := by
  unfold appendDefinition at h
  split at h
  · cases h
  · rename_i p _
    dsimp only at h
    generalize (if p > 0 then p + 1 else p) = env at h
    split at h
    · cases h
      rfl
    · cases h

/-- A refused edit: the flags deny it and nothing has changed, or it lacks room and
the block is dirty. -/
theorem write_refused (h : WellFormed cfg.envSize E.data entries) (h61 : 61 ∉ name)
    {value : Option Bytes} (hwrite : fwEnvWrite R cfg E name value = some (-1, E')) :
    Denied R E.data name (lookup entries name) (given value) ∧ E' = E ∨
      ¬ Denied R E.data name (lookup entries name) (given value) ∧ E'.dirty = true := by
  by_cases hdenied : Denied R E.data name (lookup entries name) (given value)
  · have hsame : fwEnvWrite R cfg E name value = some (-1, E) := write_denied h h61 hdenied
    rw [hsame] at hwrite
    cases hwrite
    exact Or.inl ⟨hdenied, rfl⟩
  · refine Or.inr ⟨hdenied, ?_⟩
    by_cases hsame : lookup entries name = given value
    · have hzero : fwEnvWrite R cfg E name value = some (0, E) := write_unchanged h h61 hsame
      rw [hzero] at hwrite
      cases hwrite
    · cases hgiven : given value with
      | none =>
          rw [hgiven] at hsame hdenied
          rcases Option.ne_none_iff_exists'.mp hsame with ⟨old, hold⟩
          rw [hold] at hdenied
          rcases write_deletes h hold hgiven hdenied E.dirty with ⟨mem', hzero, _⟩
          rw [hzero] at hwrite
          cases hwrite
      | some new =>
          rw [hgiven] at hsame hdenied
          rcases write_appends h h61 hgiven hsame hdenied E.dirty with ⟨mem', happend, _⟩
          rw [happend] at hwrite
          rw [appendDefinition_refused hwrite]

theorem set_wrong_type (hopen : D.fwEnvOpen flash = some E)
    (hrefused : refuses E.data name valv = true) :
    exists r, fwEnvSet R refuses cfg D flash (name :: valv) = some r ∧
      Rejects cfg D E.data r := by
  unfold fwEnvSet
  dsimp only
  rw [hopen]
  dsimp only
  rw [if_pos hrefused]
  exact ⟨_, rfl, show (-1 : Int) ≠ 0 by decide, E, hopen, fun _ _ _ => rfl⟩

/-- An assignment that `fw_env_write` refuses is rejected exactly if there is something
to write back, as the block was dirty or the room is lacking, and the device fails to
write it without losing a variable. -/
theorem set_refused_iff (hopen : D.fwEnvOpen flash = some E)
    (h : WellFormed cfg.envSize E.data entries) (h61 : 61 ∉ name)
    (hparams : refuses E.data name valv = false)
    (hrefused : fwEnvWrite R cfg E name (joined valv) = some (-1, E')) :
    (exists r, fwEnvSet R refuses cfg D flash (name :: valv) = some r ∧
        Rejects cfg D E.data r) <->
      (E.dirty = true ∨ ¬ Denied R E.data name (lookup entries name) (given (joined valv))) ∧
        (D.flashIo flash E'.data).1 = false ∧
        Gives cfg D (D.flashIo flash E'.data).2 E.data := by
  have hset : fwEnvSet R refuses cfg D flash (name :: valv) =
      some (fwEnvFlush D flash E') := by
    unfold fwEnvSet
    dsimp only
    rw [hopen]
    dsimp only
    rw [hparams, if_neg (by simp), hrefused]
    rfl
  have hdirty : E'.dirty = true <->
      E.dirty = true ∨ ¬ Denied R E.data name (lookup entries name) (given (joined valv)) := by
    rcases write_refused h h61 hrefused with ⟨hdenied, rfl⟩ | ⟨hallowed, hdirty⟩
    · exact ⟨Or.inl, fun h => h.elim id fun hno => absurd hdenied hno⟩
    · exact ⟨fun _ => Or.inr hallowed, fun _ => hdirty⟩
  rw [hset, <- hdirty]
  unfold fwEnvFlush Rejects
  cases hd : E'.dirty with
  | false =>
      rw [if_pos rfl]
      refine ⟨?_, fun h => absurd h.left (by simp)⟩
      rintro ⟨r, hr, hne, _⟩
      cases hr
      exact absurd rfl hne
  | true =>
      rw [if_neg (by simp)]
      dsimp only
      cases hio : (D.flashIo flash E'.data).1 with
      | true =>
          refine ⟨?_, fun h => absurd h.right.left (by simp)⟩
          rintro ⟨r, hr, hne, _⟩
          cases hr
          exact absurd rfl hne
      | false =>
          refine ⟨?_, ?_⟩
          · rintro ⟨r, hr, _, hgives⟩
            cases hr
            exact ⟨rfl, rfl, hgives⟩
          · rintro ⟨_, _, hgives⟩
            exact ⟨_, rfl, show (-1 : Int) ≠ 0 by decide, hgives⟩

/-- A refused assignment is rejected exactly if its value has a wrong type, or if there is
something to write back and the device fails to write it without losing a variable. -/
theorem fw_env_set_rejects_iff (hopen : D.fwEnvOpen flash = some E)
    (h : WellFormed cfg.envSize E.data entries) (hname : 0 ∉ name ∧ 61 ∉ name)
    (hrefused : refuses E.data name valv = true ∨
      fwEnvWrite R cfg E name (joined valv) = some (-1, E')) :
    (exists r, fwEnvSet R refuses cfg D flash (name :: valv) = some r ∧
        Rejects cfg D E.data r) <->
      refuses E.data name valv = true ∨
        (E.dirty = true ∨
          ¬ Denied R E.data name (lookup entries name) (given (joined valv))) ∧
        (D.flashIo flash E'.data).1 = false ∧
        Gives cfg D (D.flashIo flash E'.data).2 E.data := by
  cases hparams : refuses E.data name valv with
  | true => exact ⟨fun _ => Or.inl rfl, fun _ => set_wrong_type hopen hparams⟩
  | false =>
      rcases hrefused with hwrong | hrefused
      · rw [hparams] at hwrong
        cases hwrong
      · rw [set_refused_iff hopen h hname.right hparams hrefused]
        exact ⟨Or.inr, fun h => h.resolve_left (by simp)⟩

end

/-!
## A flash that is one block
-/

def plainDevice : Device (Nat -> UInt8) where
  fwEnvOpen := fun flash => some ⟨flash, false⟩
  flashIo := fun _ data => (true, data)

def brokenDevice : Device (Nat -> UInt8) where
  fwEnvOpen := fun flash => some ⟨flash, false⟩
  flashIo := fun flash _ => (false, flash)

def tightBlock : Config := ⟨8, 2, 512⟩

theorem wellFormed_tightBlock :
    WellFormed tightBlock.envSize oneVariable [⟨str "a", str "1"⟩] :=
  ⟨wellFormed_oneVariable.plain, wellFormed_oneVariable.nodup, wellFormed_oneVariable.stored,
    by decide +kernel⟩

theorem tightBlock_refused :
    exists E', fwEnvWrite noRules tightBlock ⟨oneVariable, false⟩ (str "a")
        (joined [str "12345"]) = some (-1, E') ∧ E'.dirty = true ∧
      fwGetenv tightBlock E'.data (str "a") = none := by
  have hrun : (fwEnvWrite noRules tightBlock ⟨oneVariable, false⟩ (str "a")
      (joined [str "12345"])).map (fun r =>
        (r.1, r.2.dirty, fwGetenv tightBlock r.2.data (str "a"))) = some (-1, true, none) := by
    decide +kernel
  rcases Option.map_eq_some_iff.mp hrun with ⟨r, hr, hout⟩
  rw [Prod.mk.injEq, Prod.mk.injEq] at hout
  exact ⟨r.2, by rw [hr, <- hout.left], hout.right⟩

theorem fw_env_set_rejects_tightBlock :
    exists E' : Environment,
      (exists r, fwEnvSet noRules (fun _ _ _ => false) tightBlock brokenDevice oneVariable
          [str "a", str "12345"] = some r ∧
        Rejects tightBlock brokenDevice oneVariable r) <->
      false = true ∨
        (false = true ∨ ¬ Denied noRules oneVariable (str "a")
          (lookup [⟨str "a", str "1"⟩] (str "a")) (given (joined [str "12345"]))) ∧
        (brokenDevice.flashIo oneVariable E'.data).1 = false ∧
        Gives tightBlock brokenDevice (brokenDevice.flashIo oneVariable E'.data).2
          oneVariable := by
  rcases tightBlock_refused with ⟨E', hwrite, _⟩
  have hopen : brokenDevice.fwEnvOpen oneVariable = some ⟨oneVariable, false⟩ := rfl
  exact ⟨E', fw_env_set_rejects_iff hopen wellFormed_tightBlock (by decide) (Or.inr hwrite)⟩

/-- The value does not fit: the call succeeds, and the variable is gone. -/
theorem refused_value_deletes :
    (exists E', fwEnvWrite noRules tightBlock ⟨oneVariable, false⟩ (str "a")
        (joined [str "12345"]) = some (-1, E')) ∧
      exists r, fwEnvSet noRules (fun _ _ _ => false) tightBlock plainDevice oneVariable
          [str "a", str "12345"] = some r ∧
        r.1 = 0 ∧ fwGetenv tightBlock oneVariable (str "a") = some (str "1") ∧
        fwGetenv tightBlock r.2 (str "a") = none ∧
        ¬ Rejects tightBlock plainDevice oneVariable r := by
  rcases tightBlock_refused with ⟨E', hwrite, hdirty, hget⟩
  refine ⟨⟨E', hwrite⟩, (0, E'.data), ?_, rfl, by decide +kernel, hget,
    fun h => absurd rfl h.left⟩
  show ((fwEnvWrite noRules tightBlock ⟨oneVariable, false⟩ (str "a")
    (joined [str "12345"])).map fun r => fwEnvFlush plainDevice oneVariable r.2) = _
  rw [hwrite, Option.map_some, fwEnvFlush, if_neg (by simp [hdirty])]
  rfl

end Fwenv
end Env
end Hlk7621
