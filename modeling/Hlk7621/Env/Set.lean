import Hlk7621.Env.FiniteMap

/-!
# Setting environment variables

Model of `env_set` with the checks of `env/flags.c`.  The environment is the
finite map that the hash table implements, with the flags of each variable and
the number of entries, which is bounded by the size of the table.  Callbacks of
variables are taken not to edit the environment themselves, and allocations to
succeed; the names set here do not start with a dash.
-/

namespace Hlk7621
namespace Env

/-!
## Types and access flags
-/

/-- `enum env_flags_vartype`. -/
inductive VarType where
  | string | decimal | hex | bool | ipaddr | macaddr
  deriving DecidableEq, Repr

structure VarFlags where
  type : VarType := .string
  preventDelete : Bool := false
  preventCreate : Bool := false
  preventOverwr : Bool := false
  preventNondefOverwr : Bool := false
  deriving DecidableEq, Repr

def isDigit (c : UInt8) : Bool := 48 ≤ c && c ≤ 57

def isXdigit (c : UInt8) : Bool :=
  isDigit c || (97 ≤ c && c ≤ 102) || (65 ≤ c && c ≤ 70)

def isHexPrefix : Bytes -> Bool
  | 48 :: c :: _ => c == 120 || c == 88
  | _ => false

/-- The loop of `skip_num`; a missing bound is the bound `-1`. -/
def skipDigits (digit : UInt8 -> Bool) : Option Nat -> Bytes -> Bytes
  | some 0, value => value
  | _, [] => []
  | bound, c :: rest =>
      if digit c then skipDigits digit (bound.map (· - 1)) rest else c :: rest

/-- `skip_num`: the text at `*end`. -/
def skipNum (hex : Bool) (value : Bytes) (maxDigits : Option Nat) : Bytes :=
  if hex then
    skipDigits isXdigit maxDigits
      (if isHexPrefix value then value.drop 2 else value)
  else skipDigits isDigit maxDigits value

/-- The rounds of the check of an IPv4 address, `left` of them after this one. -/
def ipaddrFields : Nat -> Bytes -> Bool
  | left, cur =>
      let stop := skipNum false cur (some 3)
      if stop = cur then false
      else
        match left, stop with
        | 0, stop => stop == []
        | left + 1, 46 :: next => ipaddrFields left next
        | _, _ => false

/-- The rounds of `eth_validate_ethaddr_str`. -/
def ethaddrFields : Nat -> Bytes -> Bool
  | left, cur =>
      let stop := skipNum true cur (some 2)
      if stop = cur then false
      else if cur.length = stop.length + 2 ∧ isHexPrefix cur then false
      else
        match left, stop with
        | 0, stop => stop == []
        | left + 1, 58 :: next => ethaddrFields left next
        | _, _ => false

/-- `_env_flags_validate_type`. -/
def validateType (value : Bytes) : VarType -> Bool
  | .string => true
  | .decimal => skipNum false value none == []
  | .hex =>
      skipNum true value none == [] &&
        !(value.length == 2 && isHexPrefix value)
  | .bool =>
      match value with
      | [c] => (str "1ytYT0nfNF").contains c
      | _ => false
  | .ipaddr => ipaddrFields 3 value
  | .macaddr => ethaddrFields 5 value

inductive EnvOp where
  | create | delete | overwrite
  deriving DecidableEq, Repr

/-!
## The environment
-/

structure Variable where
  data : Bytes
  flags : VarFlags := {}
  deriving DecidableEq, Repr

/-- The table `env_htab` as a finite map.  `ready` is `GD_FLG_ENV_READY`. -/
@[ext] structure Environment where
  ready : Bool := true
  size : Nat
  filled : Nat
  vars : Bytes -> Option Variable

/-- What surrounds the table: the lists of flags, the callbacks and the default
environment. -/
structure Hooks where
  /-- The entry of a name in the `.flags` list. -/
  listedFlags : Bytes -> Option VarFlags
  /-- The answer of the callback that a variable has. -/
  doCallback : Bytes -> Option Bytes -> EnvOp -> Int
  getDefault : Bytes -> Option Bytes

/-- The name of a MAC address variable, `eth\d*addr`. -/
def isEthaddrName (name : Bytes) : Bool :=
  (str "eth").isPrefixOf name &&
    skipDigits isDigit none (name.drop 3) == str "addr"

/-- `ENV_FLAGS_LIST_STATIC`, as it is configured for the device. -/
def staticFlags (name : Bytes) : VarFlags :=
  if isEthaddrName name then
    { type := .macaddr, preventDelete := true, preventOverwr := true }
  else if ["ipaddr", "gatewayip", "netmask", "serverip", "dnsip"].any
      fun s => name == str s then
    { type := .ipaddr }
  else if name = str "nvlan" ∨ name = str "vlan" then { type := .decimal }
  else if name = str "serial#" then
    { type := .string, preventDelete := true, preventOverwr := true }
  else {}

variable (H : Hooks)

def envFlagsInit (name : Bytes) : VarFlags :=
  (H.listedFlags name).getD (staticFlags name)

/-- `env_flags_validate`, without `H_FORCE`. -/
def envFlagsValidate (name : Bytes) (item : Variable) (newval : Bytes) :
    EnvOp -> Bool
  | .delete => !item.flags.preventDelete
  | .overwrite =>
      validateType newval item.flags.type && !item.flags.preventOverwr &&
        (!item.flags.preventNondefOverwr ||
          item.data == (H.getDefault name).getD [])
  | .create => validateType newval item.flags.type && !item.flags.preventCreate

/-- `hsearch_r` with `ENV_ENTER`: whether there is an entry, and the table.  A
new entry that is rejected is deleted again. -/
def hsearchEnter (name value : Bytes) (env : Environment) : Bool × Environment :=
  match env.vars name with
  | some item =>
      if !envFlagsValidate H name item value .overwrite then (false, env)
      else if H.doCallback name (some value) .overwrite ≠ 0 then (false, env)
      else
        (true, { env with
          vars := Function.update env.vars name
            (some { item with data := value }) })
  | none =>
      let item : Variable := { data := value, flags := envFlagsInit H name }
      if env.filled = env.size then (false, env)
      else if !envFlagsValidate H name item value .create then (false, env)
      else if H.doCallback name (some value) .create ≠ 0 then (false, env)
      else
        (true, { env with
          filled := env.filled + 1
          vars := Function.update env.vars name (some item) })

def EPERM : Int := 1
def EINVAL : Int := 22

/-- `hdelete_r`. -/
def hdeleteChecked (name : Bytes) (env : Environment) : Int × Environment :=
  match env.vars name with
  | none => (-ENOENT, env)
  | some item =>
      if !envFlagsValidate H name item [] .delete then (-EPERM, env)
      else if H.doCallback name none .delete ≠ 0 then (-EINVAL, env)
      else
        (0, { env with
          filled := env.filled - 1
          vars := Function.update env.vars name none })

/-- `env_set`; an empty value deletes the variable. -/
def envSet (name : Bytes) (value : Option Bytes) (env : Environment) :
    Int × Environment :=
  if !env.ready then (1, env)
  else if name.contains 61 then (1, env)
  else
    match value with
    | none | some [] =>
        let r := hdeleteChecked H name env
        (if r.1 ≠ 0 ∧ r.1 ≠ -ENOENT then 1 else 0, r.2)
    | some value =>
        let r := hsearchEnter H name value env
        (if r.1 then 0 else 1, r.2)

/-!
## What a call changes
-/

def Environment.get (env : Environment) (name : Bytes) : Option Bytes :=
  (env.vars name).map (·.data)

def asked (value : Option Bytes) : Option Bytes := value.filter fun v => v != []

variable {H}

theorem hsearchEnter_cases (name value : Bytes) (env : Environment) :
    hsearchEnter H name value env = (false, env) ∨
      exists item filled, item.data = value ∧
        hsearchEnter H name value env =
          (true, { env with
            filled := filled
            vars := Function.update env.vars name (some item) }) ∧
        forall old, env.vars name = some old ->
          filled = env.filled ∧ item.flags = old.flags := by
  unfold hsearchEnter
  cases env.vars name with
  | some old =>
      dsimp only
      split
      · exact .inl rfl
      · split
        · exact .inl rfl
        · exact .inr ⟨{ old with data := value }, env.filled, rfl, rfl,
            fun _ h => by cases h; exact ⟨rfl, rfl⟩⟩
  | none =>
      dsimp only
      split
      · exact .inl rfl
      · split
        · exact .inl rfl
        · split
          · exact .inl rfl
          · exact .inr ⟨_, _, rfl, rfl, fun _ h => nomatch h⟩

theorem hdeleteChecked_cases (name : Bytes) (env : Environment) :
    ((hdeleteChecked H name env).1 ≠ 0 ∧ (hdeleteChecked H name env).1 ≠ -ENOENT ∧
        (hdeleteChecked H name env).2 = env) ∨
      (hdeleteChecked H name env = (-ENOENT, env) ∧ env.vars name = none) ∨
      (hdeleteChecked H name env =
          (0, { env with
            filled := env.filled - 1
            vars := Function.update env.vars name none }) ∧
        env.vars name ≠ none) := by
  unfold hdeleteChecked
  cases env.vars name with
  | none => exact .inr (.inl ⟨rfl, rfl⟩)
  | some item =>
      dsimp only
      split
      · exact .inl ⟨(by decide : (-EPERM : Int) ≠ 0),
          (by decide : (-EPERM : Int) ≠ -ENOENT), rfl⟩
      · split
        · exact .inl ⟨(by decide : (-EINVAL : Int) ≠ 0),
            (by decide : (-EINVAL : Int) ≠ -ENOENT), rfl⟩
        · exact .inr (.inr ⟨rfl, nofun⟩)

/-- An accepted call gives the variable the value asked for and leaves the others
alone; it changes nothing if the variable had this value before. -/
structure Takes (name : Bytes) (value : Option Bytes) (env env' : Environment) :
    Prop where
  get : env'.get name = asked value
  same : env.get name = asked value -> env' = env
  other : forall other, other ≠ name -> env'.vars other = env.vars other

theorem takes_enter (name value : Bytes) (env : Environment) (hne : value ≠ [])
    (h : (hsearchEnter H name value env).1 = true) :
    Takes name (some value) env (hsearchEnter H name value env).2 := by
  have hasked : asked (some value) = some value := by
    simp [asked, Option.filter, hne]
  rcases hsearchEnter_cases (H := H) name value env with
    hrefused | ⟨item, filled, hdata, htaken, hold⟩
  · rw [hrefused] at h
    cases h
  subst hdata
  rw [htaken]
  refine ⟨?_, ?_, fun other hother => Function.update_of_ne hother _ _⟩
  · rw [hasked]
    simp [Environment.get]
  · intro hsame
    rw [hasked] at hsame
    rcases Option.map_eq_some_iff.mp hsame with ⟨old, hvar, hval⟩
    rcases hold old hvar with ⟨hfilled, hflags⟩
    have hitem : item = old := by
      cases item
      cases old
      cases hval
      cases hflags
      rfl
    ext1
    · rfl
    · rfl
    · exact hfilled
    · show Function.update env.vars name (some item) = env.vars
      rw [hitem, <- hvar, Function.update_eq_self]

theorem takes_delete (name : Bytes) (value : Option Bytes) (env : Environment)
    (hvalue : asked value = none)
    (h : (hdeleteChecked H name env).1 = 0 ∨
      (hdeleteChecked H name env).1 = -ENOENT) :
    Takes name value env (hdeleteChecked H name env).2 := by
  rcases hdeleteChecked_cases (H := H) name env with
    ⟨hzero, hnoent, -⟩ | ⟨hmissing, hvar⟩ | ⟨hdone, hvar⟩
  · rcases h with h | h
    · exact absurd h hzero
    · exact absurd h hnoent
  · rw [hmissing]
    refine ⟨?_, fun _ => rfl, fun _ _ => rfl⟩
    rw [hvalue, Environment.get, hvar]
    rfl
  · rw [hdone]
    refine ⟨?_, ?_, fun other hother => Function.update_of_ne hother _ _⟩
    · rw [hvalue]
      simp [Environment.get]
    · intro hsame
      rw [hvalue] at hsame
      exact absurd (Option.map_eq_none_iff.mp hsame) hvar

theorem envSet_cases (name : Bytes) (value : Option Bytes) (env : Environment) :
    ((envSet H name value env).1 ≠ 0 ∧ (envSet H name value env).2 = env) ∨
      ((envSet H name value env).1 = 0 ∧
        Takes name value env (envSet H name value env).2) := by
  have hdelete : asked value = none ->
      let r := hdeleteChecked H name env
      ((if r.1 ≠ 0 ∧ r.1 ≠ -ENOENT then (1 : Int) else 0) ≠ 0 ∧ r.2 = env) ∨
        ((if r.1 ≠ 0 ∧ r.1 ≠ -ENOENT then (1 : Int) else 0) = 0 ∧
          Takes name value env r.2) := by
    intro hvalue r
    by_cases hbad : r.1 ≠ 0 ∧ r.1 ≠ -ENOENT
    · rw [if_pos hbad]
      refine .inl ⟨by decide, ?_⟩
      rcases hdeleteChecked_cases (H := H) name env with
        ⟨-, -, hsame⟩ | ⟨hmissing, -⟩ | ⟨hdone, -⟩
      · exact hsame
      · exact absurd (congrArg Prod.fst hmissing) hbad.right
      · exact absurd (congrArg Prod.fst hdone) hbad.left
    · rw [if_neg hbad]
      rw [not_and_or, not_not, not_not] at hbad
      exact .inr ⟨rfl, takes_delete name value env hvalue hbad⟩
  unfold envSet
  split
  · exact .inl ⟨one_ne_zero, rfl⟩
  split
  · exact .inl ⟨one_ne_zero, rfl⟩
  split
  · exact hdelete rfl
  · exact hdelete rfl
  · rename_i v hne
    dsimp only
    cases hfound : (hsearchEnter H name v env).1 with
    | true =>
        exact .inr ⟨rfl, takes_enter name v env (fun h => hne (by rw [h])) hfound⟩
    | false =>
        refine .inl ⟨by decide, ?_⟩
        rcases hsearchEnter_cases (H := H) name v env with
          hrefused | ⟨item, filled, -, htaken, -⟩
        · rw [hrefused]
        · rw [htaken] at hfound
          cases hfound

/-!
## The hash table below

Calls that the checks let through are those of the hash table, whose contents
follow the map.
-/

theorem Takes.get_eq_update {name : Bytes} {value : Option Bytes}
    {env env' : Environment} (h : Takes name value env env') :
    env'.get = Function.update env.get name (asked value) := by
  funext other
  by_cases hother : other = name
  · rw [hother, Function.update_self]
    exact h.get
  · rw [Function.update_of_ne hother]
    exact congrArg (Option.map _) (h.other other hother)

theorem represents_hsearchEnter {htab : Htab} {name value : Bytes}
    {env : Environment} (hw : Wf htab) (hm : Represents htab env.get)
    (hsize : htab.size = env.size) (hfilled : htab.filled = env.filled)
    (hne : value ≠ []) (h : (hsearchEnter H name value env).1 = true) :
    exists found, hsearchR ⟨name, value⟩ .enter htab = some found ∧
      found.ret ≠ 0 ∧ Wf found.htab ∧
      Represents found.htab (hsearchEnter H name value env).2.get := by
  have htakes := takes_enter name value env hne h
  have hasked : asked (some value) = some value := by
    simp [asked, Option.filter, hne]
  rcases hsearchR_enter hw hm ⟨name, value⟩ with
    ⟨found, hfound, hwf, ⟨-, hnone, hfull, -⟩ | ⟨hret, hrep⟩⟩
  · exfalso
    have hvar : env.vars name = none := Option.map_eq_none_iff.mp hnone
    unfold hsearchEnter at h
    rw [hvar] at h
    simp only [show env.filled = env.size by omega] at h
    simp at h
  · refine ⟨found, hfound, hret, hwf, ?_⟩
    rw [htakes.get_eq_update, hasked]
    exact hrep

theorem represents_hdeleteChecked {htab : Htab} {name : Bytes}
    {env : Environment} (hw : Wf htab) (hm : Represents htab env.get)
    (h : (hdeleteChecked H name env).1 = 0) :
    exists r, hdeleteR htab name = some r ∧ r.1 = 0 ∧ Wf r.2 ∧
      Represents r.2 (hdeleteChecked H name env).2.get := by
  have htakes := takes_delete (H := H) name none env rfl (.inl h)
  rcases hdeleteR_spec hw hm name with ⟨r, hr, hwf, ⟨-, hnone, -⟩ | ⟨hret, -, hrep⟩⟩
  · exfalso
    have hvar : env.vars name = none := Option.map_eq_none_iff.mp hnone
    unfold hdeleteChecked at h
    rw [hvar] at h
    exact absurd h (by decide : (-ENOENT : Int) ≠ 0)
  · refine ⟨r, hr, hret, hwf, ?_⟩
    rw [htakes.get_eq_update]
    exact hrep

end Env
end Hlk7621
