import Hlk7621.Env.Set
import Hlk7621.Webflash.Numbers

/-!
# Editing the environment

`webflash_env_save` checks the fields of a form before it sets the variables,
but the environment has checks of its own, and the save can fail.  What the
server changes when it answers with an error is therefore not taken back: an
error leaves the environment as it was exactly when no variable that was set
before the failure got a new value.
-/

namespace Hlk7621
namespace Webflash

open Env (Environment Hooks envSet asked)

/-!
## A platform with an environment
-/

/-- The environment in RAM and the ways it is filled and stored. -/
structure EnvStore (E : Type) extends Hooks where
  setDefault : Environment -> Environment
  save : Environment -> E -> Int × E

variable {E : Type}

def Platform.withEnv (P : Platform E) (S : EnvStore E) :
    Platform (E × Environment) where
  toBoard := P.toBoard
  spiFlashErase off len e := (P.spiFlashErase off len e.1).map id (·, e.2)
  spiFlashWrite off data e := (P.spiFlashWrite off data e.1).map id (·, e.2)
  spiFlashRead off len e :=
    let r := P.spiFlashRead off len e.1
    (r.1, r.2.1, r.2.2, e.2)
  tcpSndbuf pcb e := P.tcpSndbuf pcb e.1
  tcpWrite pcb data e := (P.tcpWrite pcb data e.1).map id (·, e.2)
  tcpOutput pcb e := (P.tcpOutput pcb e.1).map id (·, e.2)
  tcpClose pcb e := (P.tcpClose pcb e.1).map id (·, e.2)
  tcpAbort pcb e := (P.tcpAbort pcb e.1, e.2)
  envGet name e := e.2.get name
  envSet name value e := (Env.envSet S.toHooks name value e.2).map id (e.1, ·)
  envSetHex name n e :=
    (Env.envSet S.toHooks name (some (fmtHex 0 n)) e.2).map id (e.1, ·)
  envSetDefault e := (e.1, S.setDefault e.2)
  envSave e := (S.save e.2 e.1).map id (·, e.2)
  lmbReadCheck base size e := (P.lmbReadCheck base size e.1).map id (·, e.2)
  bootm addr ram e := (P.bootm addr ram e.1).map fun r => (r.1, r.2, e.2)

theorem kept_withEnv (P : Platform E) (S : EnvStore E) :
    Kept (P.withEnv S) fun w => Prod.snd w.ext :=
  kept_ext (fun _ _ _ => rfl) (fun _ _ => rfl) (fun _ _ => rfl)
    (fun _ _ _ => rfl)

/-!
## Chains of updates
-/

def setAll (H : Hooks) : List EnvCall -> Environment -> Int × Environment
  | [], env => (0, env)
  | (name, value) :: rest, env =>
      let r := envSet H name value env
      if r.1 ≠ 0 then r else setAll H rest r.2

/-- Every call up to the first that fails asks for the value that is there. -/
def NoEffect (H : Hooks) (env : Environment) : List EnvCall -> Prop
  | [] => True
  | (name, value) :: rest =>
      (envSet H name value env).1 ≠ 0 ∨
        (env.get name = asked value ∧ NoEffect H env rest)

theorem envSetAll_withEnv (P : Platform E) (S : EnvStore E)
    (updates : List EnvCall) (e : E × Environment) :
    envSetAll (P.withEnv S) updates e =
      ((setAll S.toHooks updates e.2).1, e.1, (setAll S.toHooks updates e.2).2) := by
  induction updates generalizing e with
  | nil => rfl
  | cons update rest ih =>
      rcases update with ⟨name, value⟩
      rw [envSetAll_cons, setAll]
      have hset : (P.withEnv S).envSet name value e =
          ((envSet S.toHooks name value e.2).1, e.1,
            (envSet S.toHooks name value e.2).2) := rfl
      rw [hset, ih]
      dsimp only
      split <;> rfl

section

variable {H : Hooks}

theorem setAll_other {updates : List EnvCall} {env : Environment} {name : Bytes}
    (h : name ∉ updates.map Prod.fst) :
    (setAll H updates env).2.vars name = env.vars name := by
  induction updates generalizing env with
  | nil => rfl
  | cons update rest ih =>
      rcases update with ⟨other, value⟩
      rw [List.map_cons, List.mem_cons, not_or] at h
      rw [setAll]
      rcases Env.envSet_cases (H := H) other value env with
        ⟨hne, hsame⟩ | ⟨hzero, htakes⟩
      · rw [if_pos hne, hsame]
      · rw [if_neg (not_not.mpr hzero), ih h.right]
        exact htakes.other name h.left

/-- A chain over different names leaves the environment alone exactly when none
of its calls has an effect. -/
theorem setAll_eq_self_iff {updates : List EnvCall} {env : Environment}
    (hnodup : (updates.map Prod.fst).Nodup) :
    (setAll H updates env).2 = env <-> NoEffect H env updates := by
  induction updates with
  | nil => simp [setAll, NoEffect]
  | cons update rest ih =>
      rcases update with ⟨name, value⟩
      rw [List.map_cons, List.nodup_cons] at hnodup
      rw [setAll, NoEffect]
      rcases Env.envSet_cases (H := H) name value env with
        ⟨hne, hsame⟩ | ⟨hzero, htakes⟩
      · rw [if_pos hne, hsame]
        exact ⟨fun _ => .inl hne, fun _ => rfl⟩
      · rw [if_neg (not_not.mpr hzero)]
        by_cases hget : env.get name = asked value
        · rw [htakes.same hget, ih hnodup.right]
          exact ⟨fun h => .inr ⟨hget, h⟩,
            fun h => h.elim (fun hne => absurd hzero hne) And.right⟩
        · -- The variable has a new value, and the rest of the chain keeps it.
          constructor
          · intro hsame
            have hkept : (setAll H rest (envSet H name value env).2).2.vars name =
                (envSet H name value env).2.vars name :=
              setAll_other hnodup.left
            rw [hsame] at hkept
            exact absurd ((congrArg (Option.map _) hkept).trans htakes.get) hget
          · rintro (hne | ⟨hsame, -⟩)
            · exact absurd hzero hne
            · exact absurd hsame hget

end

/-!
## Forms
-/

def formUpdates (body : Bytes) : Option (List EnvCall) :=
  match formValue body (str "ipaddr") 24, formValue body (str "netmask") 24,
      formValue body (str "serverip") 24, formValue body (str "bootdelay") 12 with
  | .ok ipaddr, .ok netmask, .ok serverip, .ok bootdelay =>
      let delay := UBoot.simpleStrtoul bootdelay 10
      if !addressesOk ipaddr netmask serverip ∨
          delay.2.length = bootdelay.length ∨ delay.2 ≠ [] ∨ delay.1 > 30 then none
      else
        some (addressUpdates ipaddr netmask serverip ++
          [(str "bootdelay", some bootdelay)])
  | _, _, _, _ => none

theorem formUpdates_nodup {body : Bytes} {updates : List EnvCall}
    (h : formUpdates body = some updates) : (updates.map Prod.fst).Nodup := by
  unfold formUpdates at h
  split at h
  · dsimp only at h
    split at h
    · cases h
    · cases h
      exact (by decide : [str "ipaddr", str "netmask", str "serverip",
        str "bootdelay"].Nodup)
  · cases h

/-- The server answers with an error: the text of its reply says so. -/
def AnswersError (w : World E) : Prop :=
  str "\x7b\"ok\":false" <+: w.ctx.reply

theorem answersError_error (P : Platform E) (status message : String)
    (w : World E) : AnswersError (error P status message w) := by
  unfold AnswersError error
  rw [replyText_buffer]
  unfold snprintf
  refine List.prefix_take_iff.mpr ⟨?_, by decide⟩
  rw [List.append_assoc]
  exact List.IsPrefix.trans (by decide) (List.prefix_append _ _)

theorem not_answersError_ok (P : Platform E) (message : String) (w : World E) :
    ¬ AnswersError (ok P message w).2 := by
  unfold AnswersError ok
  rw [replyText_buffer]
  unfold snprintf
  intro h
  have hfront := List.prefix_iff_eq_take.mp (List.prefix_take_iff.mp h).left
  rw [List.append_assoc, List.take_append_of_le_length (by decide)] at hfront
  exact absurd hfront (by decide)

section

variable (P : Platform E) (S : EnvStore E)

def EditAtomic (w : World (E × Environment)) : Prop :=
  AnswersError (envSave (P.withEnv S) w).2 ->
    (envSave (P.withEnv S) w).2.ext.2 = w.ext.2

def storeUpdates (Q : Platform E) (updates : List EnvCall) (w : World E) :
    Int × World E :=
  let r := envSetAll Q updates w.ext
  if r.1 ≠ 0 then
    (- EIO, error Q "500 Internal Server Error" "failed to save environment"
      { w with ext := r.2 })
  else
    let s := Q.envSave r.2
    let w1 : World E := { w with ext := s.2, log := .envSave s.1 :: w.log }
    if s.1 ≠ 0 then
      (- EIO, error Q "500 Internal Server Error" "failed to save environment" w1)
    else ok Q "saved; reboot to apply" w1

theorem envSave_eq (Q : Platform E) (w : World E) :
    (exists message, formUpdates w.ctx.body = none ∧
        envSave Q w = (-EINVAL, error Q "400 Bad Request" message w)) ∨
      exists updates, formUpdates w.ctx.body = some updates ∧
        envSave Q w = storeUpdates Q updates w := by
  unfold envSave formUpdates
  generalize formValue w.ctx.body (str "ipaddr") 24 = r1
  generalize formValue w.ctx.body (str "netmask") 24 = r2
  generalize formValue w.ctx.body (str "serverip") 24 = r3
  generalize formValue w.ctx.body (str "bootdelay") 12 = r4
  rcases r1 with _ | ipaddr
  · exact .inl ⟨"missing environment field", rfl, rfl⟩
  rcases r2 with _ | netmask
  · exact .inl ⟨"missing environment field", rfl, rfl⟩
  rcases r3 with _ | serverip
  · exact .inl ⟨"missing environment field", rfl, rfl⟩
  rcases r4 with _ | bootdelay
  · exact .inl ⟨"missing environment field", rfl, rfl⟩
  simp only [addressesOk_eq_false]
  by_cases hok : addressesOk ipaddr netmask serverip = true
  · simp only [hok, Bool.not_true, Bool.false_eq_true, if_false, false_or]
    split
    · exact .inl ⟨_, rfl, rfl⟩
    · exact .inr ⟨_, rfl, rfl⟩
  · rw [Bool.not_eq_true] at hok
    simp only [hok, Bool.not_false, if_true, true_or]
    exact .inl ⟨_, trivial, rfl⟩

theorem storeUpdates_withEnv (updates : List EnvCall)
    (w : World (E × Environment)) :
    (storeUpdates (P.withEnv S) updates w).2.ext.2 =
        (setAll S.toHooks updates w.ext.2).2 ∧
      (AnswersError (storeUpdates (P.withEnv S) updates w).2 <->
        ¬ ((setAll S.toHooks updates w.ext.2).1 = 0 ∧
          (S.save (setAll S.toHooks updates w.ext.2).2 w.ext.1).1 = 0)) := by
  have hk := kept_withEnv P S
  unfold storeUpdates
  rw [envSetAll_withEnv]
  generalize setAll S.toHooks updates w.ext.2 = r
  have hsave : (P.withEnv S).envSave (w.ext.1, r.2) =
      ((S.save r.2 w.ext.1).1, (S.save r.2 w.ext.1).2, r.2) := rfl
  dsimp only
  rw [hsave]
  by_cases hset : r.1 = 0
  · rw [if_neg (not_not.mpr hset)]
    dsimp only
    by_cases hstored : (S.save r.2 w.ext.1).1 = 0
    · rw [if_neg (not_not.mpr hstored)]
      exact ⟨hk.ok _ _, fun h => absurd h (not_answersError_ok _ _ _),
        fun h => absurd ⟨hset, hstored⟩ h⟩
    · rw [if_pos hstored]
      exact ⟨hk.error _ _ _, fun _ h => hstored h.right,
        fun _ => answersError_error _ _ _ _⟩
  · rw [if_pos hset]
    exact ⟨hk.error _ _ _, fun _ h => hset h.left,
      fun _ => answersError_error _ _ _ _⟩

/-- An error leaves the environment as it was except where a form passes the
checks of the server, `env_set` gives one of its variables a new value, and then
another call or the save fails. -/
theorem edit_atomic_iff (w : World (E × Environment)) :
    EditAtomic P S w <->
      forall updates, formUpdates w.ctx.body = some updates ->
        NoEffect S.toHooks w.ext.2 updates ∨
          ((setAll S.toHooks updates w.ext.2).1 = 0 ∧
            (S.save (setAll S.toHooks updates w.ext.2).2 w.ext.1).1 = 0) := by
  unfold EditAtomic
  rcases envSave_eq (P.withEnv S) w with
    ⟨message, hform, hsave⟩ | ⟨updates, hform, hsave⟩
  · rw [hform, hsave]
    exact ⟨(fun _ _ h => nomatch h),
      (fun _ _ => (kept_withEnv P S).error _ _ _)⟩
  · rw [hform, hsave]
    rcases storeUpdates_withEnv P S updates w with ⟨hext, hanswer⟩
    rw [hext, hanswer, setAll_eq_self_iff (formUpdates_nodup hform)]
    constructor
    · intro h updates' heq
      cases heq
      by_cases hdone : (setAll S.toHooks updates w.ext.2).1 = 0 ∧
          (S.save (setAll S.toHooks updates w.ext.2).2 w.ext.1).1 = 0
      · exact .inr hdone
      · exact .inl (h hdone)
    · intro h hfail
      exact (h updates rfl).resolve_right hfail

end

def addressedEnv : Environment where
  size := 1009
  filled := 2
  vars name :=
    if name = str "ipaddr" then
      some { data := str "192.168.1.1", flags := Env.staticFlags name }
    else if name = str "netmask" then
      some { data := str "255.255.255.0", flags := Env.staticFlags name }
    else none

def plainStore : EnvStore (Nat -> UInt8) where
  listedFlags _ := none
  doCallback _ _ _ := 0
  getDefault _ := none
  setDefault env := env
  save _ mem := (0, mem)

def hexMaskForm : World ((Nat -> UInt8) × Environment) where
  ctx := { client := some 1, action := .envSave,
           body := str "ipaddr=10.0.0.1&netmask=0xffffff00&serverip=&bootdelay=3" }
  ram := fun _ => 0
  ext := (fun _ => 0xff, addressedEnv)

/-- The form is answered with an error, and the address has changed. -/
theorem hex_mask_form_not_atomic :
    ¬ EditAtomic (norPlatform hlk7621a) plainStore hexMaskForm := by
  intro h
  have hanswer : AnswersError
      (envSave ((norPlatform hlk7621a).withEnv plainStore) hexMaskForm).2 := by
    unfold AnswersError
    decide +kernel
  have hget := congrArg (fun env => Environment.get env (str "ipaddr")) (h hanswer)
  exact absurd hget (by decide +kernel)

end Webflash
end Hlk7621
