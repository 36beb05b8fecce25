import Hlk7621.Env.Readers
import Hlk7621.UBoot.Membuf

/-!
# Setting a variable in the stored list

`fw_env_write` of `tools/env/fw_env.c` edits the list of `name=value` entries in
place: the old definition is taken out by sliding the tail of the list over it, and
the new one is appended where two NUL bytes meet.  Such a list is a map.  An empty
list whose first byte alone is NUL is one too, but what is appended to it lands in the
stale bytes behind.
-/

namespace Hlk7621
namespace Env
namespace Fwenv

/-!
## The code
-/

inductive Check where
  | preventDelete | preventCreate | preventOverwr | preventNondefOverwr
  deriving DecidableEq, Repr

/-- What `fw_env_write` asks of the flags and of the default environment:
`env_flags_validate_varaccess`, which reads the flags in the block, and
`fw_getdefenv`. -/
structure Rules where
  validateVaraccess : (Nat -> UInt8) -> Bytes -> Check -> Bool
  getdefenv : Bytes -> Option Bytes

/-- The data of `struct environment`, and whether it differs from the flash. -/
structure Environment where
  data : Nat -> UInt8
  dirty : Bool

/-- How the search of `fw_env_write` ends: `env` is the entry with the name, `nxt` its
end and `oldval` its value. -/
inductive Search where
  | unterminated
  | missing
  | found (env nxt oldval : Nat)
  deriving DecidableEq, Repr

def search (mem : Nat -> UInt8) (envSize : Nat) (name : Bytes) : Nat -> Nat -> Search
  | 0, _ => .unterminated
  | fuel + 1, env =>
      if mem env = 0 then .missing
      else
        match findEnd mem envSize (envSize + 1) env with
        | none => .unterminated
        | some nxt =>
            match envmatch mem name env with
            | some oldval => .found env nxt oldval
            | none => search mem envSize name fuel (nxt + 1)

/-- The loop that slides the tail of the list down; `none` if it leaves the block. -/
def slide : Nat -> (Nat -> UInt8) -> Nat -> Nat -> Option ((Nat -> UInt8) × Nat)
  | 0, _, _, _ => none
  | fuel + 1, mem, env, nxt =>
      let mem := overwrite mem env [mem nxt]
      if mem env = 0 ∧ mem (nxt + 1) = 0 then some (mem, env)
      else slide fuel mem (env + 1) (nxt + 1)

/-- Deletes the entry at `env`, which ends at `nxt`. -/
def removeEntry (envSize : Nat) (mem : Nat -> UInt8) (env nxt : Nat) :
    Option (Nat -> UInt8) :=
  if mem (nxt + 1) = 0 then some (overwrite (overwrite mem env [0]) (env + 1) [0])
  else
    (slide envSize mem env (nxt + 1)).map fun r => overwrite r.1 (r.2 + 1) [0]

/-- The search for the end of the list; `none` if it leaves the block. -/
def findDouble (mem : Nat -> UInt8) : Nat -> Nat -> Option Nat
  | 0, _ => none
  | fuel + 1, env =>
      if mem env ≠ 0 ∨ mem (env + 1) ≠ 0 then findDouble mem fuel (env + 1) else some env

/-- `len`: an `int`, as a sum of lengths. -/
def definitionLength (name value : Bytes) : Int :=
  UBoot.Membuf.asInt (name.length + 2 + (value.length + 1))

/-- Appends a definition: the return value and the block. -/
def appendDefinition (envSize : Nat) (E : Environment) (name value : Bytes) :
    Option (Int × Environment) :=
  match findDouble E.data (envSize - 1) 0 with
  | none => none
  | some env =>
      let env := if env > 0 then env + 1 else env
      if definitionLength name value > (envSize : Int) - env then some (-1, E)
      else some (0, { E with data := overwrite E.data env (name ++ 61 :: (value ++ [0, 0])) })

def given (value : Option Bytes) : Option Bytes := value.filter (· ≠ [])

/-- `fw_env_write`; `none` if a loop leaves the block. -/
def fwEnvWrite (R : Rules) (cfg : Config) (E : Environment) (name : Bytes)
    (value : Option Bytes) : Option (Int × Environment) :=
  match search E.data cfg.envSize name (cfg.envSize + 2) 0 with
  | .unterminated => some (-1, E)
  | .missing =>
      match given value with
      | none => some (0, E)
      | some value =>
          if R.validateVaraccess E.data name .preventCreate then some (-1, E)
          else appendDefinition cfg.envSize { E with dirty := true } name value
  | .found env nxt oldval =>
      let old := window E.data oldval (nxt - oldval)
      match given value with
      | none =>
          if R.validateVaraccess E.data name .preventDelete then some (-1, E)
          else
            (removeEntry cfg.envSize E.data env nxt).map fun data =>
              (0, { data := data, dirty := true })
      | some value =>
          if old = value then some (0, E)
          else if R.validateVaraccess E.data name .preventOverwr then some (-1, E)
          else if R.validateVaraccess E.data name .preventNondefOverwr ∧
              old ≠ (R.getdefenv name).getD [] then some (-1, E)
          else
            (removeEntry cfg.envSize E.data env nxt).bind fun data =>
              appendDefinition cfg.envSize { data := data, dirty := true } name value

/-!
## Lists
-/

/-- A list of entries with distinct names and its end mark, inside the block. -/
structure WellFormed (envSize : Nat) (mem : Nat -> UInt8) (entries : List Entry) : Prop where
  plain : forall e, e ∈ entries -> Plain e
  nodup : (entries.map (·.key)).Nodup
  stored : Stored mem 0 (listText entries ++ [0])
  fits : (listText entries).length + 1 ≤ envSize

/-- A text that ends with a NUL and has no two NUL bytes in a row. -/
def Single : Bytes -> Prop
  | [] => False
  | [c] => c = 0
  | c :: d :: rest => ¬ (c = 0 ∧ d = 0) ∧ Single (d :: rest)

theorem single_text {text rest : Bytes} (htext : 0 ∉ text)
    (hrest : rest = [] ∨ Single rest ∧ rest.head? ≠ some 0) : Single (text ++ 0 :: rest) := by
  induction text with
  | nil =>
      rcases hrest with rfl | ⟨hsingle, hhead⟩
      · rfl
      · cases rest with
        | nil => exact rfl
        | cons d rest => exact ⟨fun h => hhead (congrArg some h.right), hsingle⟩
  | cons c text ih =>
      have hc : c ≠ 0 := fun h => htext (h ▸ List.mem_cons_self)
      have hnext := ih fun h => htext (List.mem_cons_of_mem _ h)
      cases text with
      | nil => exact ⟨fun h => hc h.left, hnext⟩
      | cons d text => exact ⟨fun h => hc h.left, hnext⟩

theorem listText_head {entries : List Entry} (hplain : forall e, e ∈ entries -> Plain e) :
    (listText entries).head? ≠ some 0 := by
  cases entries with
  | nil => simp [listText]
  | cons e entries =>
      have hkey := (hplain e List.mem_cons_self).1
      rw [listText_cons]
      cases hk : e.key with
      | nil => simp
      | cons c key =>
          intro h
          rw [hk] at hkey
          have hc : c = 0 := Option.some.inj h
          exact hkey (hc ▸ List.mem_cons_self)

theorem listText_single {entries : List Entry} (hplain : forall e, e ∈ entries -> Plain e)
    (hne : entries ≠ []) : Single (listText entries) := by
  induction entries with
  | nil => exact absurd rfl hne
  | cons e entries ih =>
      have he := hplain e List.mem_cons_self
      have hrest : forall x, x ∈ entries -> Plain x := fun x hx =>
        hplain x (List.mem_cons_of_mem _ hx)
      have htext : 0 ∉ e.key ++ 61 :: e.data := by
        simp [he.1, he.2.2]
      rw [listText_cons, show e.key ++ 61 :: (e.data ++ [0]) ++ listText entries =
        e.key ++ 61 :: e.data ++ 0 :: listText entries by simp]
      refine single_text htext ?_
      cases entries with
      | nil => exact Or.inl rfl
      | cons x xs => exact Or.inr ⟨ih hrest (by simp), listText_head hrest⟩

/-!
## The loops
-/

section

variable {mem : Nat -> UInt8}

theorem overwrite_at (mem : Nat -> UInt8) (p : Nat) (c : UInt8) : overwrite mem p [c] p = c := by
  simp [overwrite]

theorem stored_frame {p q : Nat} {text data : Bytes} (h : Stored mem p text)
    (hdisjoint : q + data.length ≤ p ∨ p + text.length ≤ q) :
    Stored (overwrite mem q data) p text := by
  unfold Stored
  rw [<- h, window_length]
  refine window_congr fun a ha hlt => ?_
  rcases hdisjoint with hbefore | hbehind
  · exact overwrite_of_ge (by lia)
  · exact overwrite_of_lt (by lia)

theorem stored_overwrite (mem : Nat -> UInt8) (p : Nat) (text : Bytes) :
    Stored (overwrite mem p text) p text :=
  window_overwrite_self mem p text

theorem slide_spec {rest : Bytes} (hsingle : Single rest) {env nxt : Nat} (horder : env < nxt)
    (hstored : Stored mem nxt rest) (hend : mem (nxt + rest.length) = 0) {fuel : Nat}
    (hfuel : rest.length ≤ fuel) :
    slide fuel mem env nxt =
      some (overwrite mem env rest, env + rest.length - 1) := by
  induction rest generalizing mem env nxt fuel with
  | nil => exact absurd hsingle id
  | cons c rest ih =>
      rcases Nat.exists_eq_add_of_le' (Nat.lt_of_lt_of_le (Nat.succ_pos _) hfuel) with ⟨k, rfl⟩
      rw [stored_cons] at hstored
      have hbehind : overwrite mem env [c] (nxt + 1) = mem (nxt + 1) := by
        refine overwrite_of_ge ?_
        rw [List.length_singleton]
        lia
      rw [slide, hstored.left, overwrite_at, hbehind]
      cases rest with
      | nil =>
          have hc : c = 0 := hsingle
          rw [if_pos ⟨hc, hend⟩]
          rfl
      | cons d rest =>
          have hd := (stored_cons.mp hstored.right).left
          rw [if_neg (by rw [hd]; exact hsingle.left)]
          have hone : env + [c].length ≤ nxt := horder
          have hrest : Stored (overwrite mem env [c]) (nxt + 1) (d :: rest) :=
            stored_frame hstored.right (Or.inl (Nat.le_succ_of_le hone))
          have hstop : overwrite mem env [c] (nxt + 1 + (d :: rest).length) = 0 := by
            rw [overwrite_of_ge (by lia), <- hend]
            congr 1
            simp only [List.length_cons]
            lia
          have hnext := ih hsingle.right (Nat.succ_lt_succ horder) hrest hstop
            (Nat.le_of_succ_le_succ hfuel)
          rw [hnext]
          have happend := overwrite_append mem env [c] (d :: rest)
          rw [List.length_singleton] at happend
          rw [happend]
          congr 2
          simp only [List.length_cons]
          lia

theorem findDouble_spec {text : Bytes} (hsingle : Single text) {p : Nat}
    (hstored : Stored mem p text) (hend : mem (p + text.length) = 0) {fuel : Nat}
    (hfuel : text.length ≤ fuel) : findDouble mem fuel p = some (p + text.length - 1) := by
  induction text generalizing p fuel with
  | nil => exact absurd hsingle id
  | cons c text ih =>
      rcases Nat.exists_eq_add_of_le' (Nat.lt_of_lt_of_le (Nat.succ_pos _) hfuel) with ⟨k, rfl⟩
      rw [stored_cons] at hstored
      rw [findDouble, hstored.left]
      cases text with
      | nil =>
          have hc : c = 0 := hsingle
          rw [if_neg (by
            rw [not_or]
            exact ⟨not_not.mpr hc, not_not.mpr hend⟩)]
          rfl
      | cons d text =>
          have hd := (stored_cons.mp hstored.right).left
          have hmore : c ≠ 0 ∨ mem (p + 1) ≠ 0 := by
            rw [hd]
            by_contra h
            rw [not_or, not_not, not_not] at h
            exact hsingle.left h
          rw [if_pos hmore, ih hsingle.right hstored.right (by
            rw [<- hend]
            congr 1
            simp only [List.length_cons]
            lia) (by
            rw [List.length_cons] at hfuel
            lia)]
          congr 1
          simp only [List.length_cons]
          lia

end

/-!
## Finding an entry
-/

section

variable {mem : Nat -> UInt8} {envSize : Nat} {entries pre post : List Entry} {e : Entry}
variable {name : Bytes}

theorem search_skip (envSize fuel : Nat) (h61 : 61 ∉ name)
    (hplain : forall x, x ∈ pre -> Plain x) (hname : name ∉ pre.map (·.key)) {p : Nat}
    (hstored : Stored mem p (listText pre)) (hlimit : p + (listText pre).length ≤ envSize + 1) :
    search mem envSize name (fuel + pre.length) p =
      search mem envSize name fuel (p + (listText pre).length) := by
  induction pre generalizing p with
  | nil => rfl
  | cons e pre ih =>
      have he := hplain e List.mem_cons_self
      rcases stored_listText_cons.mp hstored with ⟨hentry, hend, hrest⟩
      rw [listText_length_cons] at hlimit ⊢
      simp only [List.map_cons, List.mem_cons, not_or] at hname
      rcases entry_round envSize (envmatch_finds h61) ⟨he.1, he.2.1⟩ he.2.2 hentry rfl hend
        (by lia) with ⟨hfirst, hstop, hmatch⟩
      rw [if_neg (Ne.symm hname.left)] at hmatch
      rw [List.length_cons, <- Nat.add_assoc, search, if_neg hfirst, hstop, hmatch]
      dsimp only
      rw [ih (fun x hx => hplain x (List.mem_cons_of_mem _ hx)) hname.right hrest (by lia)]
      congr 1
      lia

theorem search_missing (h : WellFormed envSize mem entries) (h61 : 61 ∉ name)
    (hname : name ∉ entries.map (·.key)) :
    search mem envSize name (envSize + 2) 0 = .missing := by
  have hlen := listText_length_ge entries
  have hfits := h.fits
  have hfuel : envSize + 2 = envSize + 1 - entries.length + 1 + entries.length := by lia
  rcases stored_append.mp h.stored with ⟨htext, hend⟩
  rw [hfuel, search_skip envSize _ h61 h.plain hname htext (by lia), search,
    if_pos (stored_cons.mp hend).left]

def stopAt (pre : List Entry) (e : Entry) : Nat :=
  (listText pre).length + (e.key.length + 1 + e.data.length)

theorem WellFormed.split (h : WellFormed envSize mem (pre ++ e :: post)) :
    Stored mem 0 (listText pre) ∧ Stored mem (listText pre).length (e.key ++ 61 :: e.data) ∧
      mem (stopAt pre e) = 0 ∧ Stored mem (stopAt pre e + 1) (listText post) ∧
      mem (stopAt pre e + 1 + (listText post).length) = 0 ∧
      stopAt pre e + 1 + (listText post).length < envSize ∧ e.key ∉ pre.map (·.key) := by
  have hstored := h.stored
  have hfits := h.fits
  have hnodup := h.nodup
  rw [listText_append, List.append_assoc, stored_append, stored_append, Nat.zero_add,
    stored_listText_cons] at hstored
  rw [listText_append, List.length_append, listText_length_cons] at hfits
  rcases hstored with ⟨hpre, ⟨hentry, hstop, hpost⟩, hmark⟩
  rw [listText_length_cons] at hmark
  refine ⟨hpre, hentry, hstop, hpost, ?_, ?_, ?_⟩
  · rw [<- (stored_cons.mp hmark).left]
    congr 1
    unfold stopAt
    lia
  · unfold stopAt
    lia
  · rw [List.map_append, List.map_cons, List.nodup_append] at hnodup
    exact fun hmem => hnodup.2.2 _ hmem _ List.mem_cons_self rfl

theorem search_found (h : WellFormed envSize mem (pre ++ e :: post)) :
    search mem envSize e.key (envSize + 2) 0 =
      .found (listText pre).length (stopAt pre e) ((listText pre).length + e.key.length + 1) := by
  rcases h.split with ⟨hpre, hentry, hstop, _, _, hlt, hfirst⟩
  have hplain : forall x, x ∈ pre -> Plain x := fun x hx => h.plain x (List.mem_append_left _ hx)
  have he := h.plain e (List.mem_append_right _ List.mem_cons_self)
  have hle : stopAt pre e ≤ envSize := by lia
  have hlen := listText_length_ge pre
  have hfuel : envSize + 2 = envSize + 1 - pre.length + 1 + pre.length := by
    unfold stopAt at hle
    lia
  rcases entry_round envSize (envmatch_finds he.2.1) ⟨he.1, he.2.1⟩ he.2.2 hentry rfl hstop hle
    with ⟨hnonzero, hend, hmatch⟩
  rw [if_pos rfl] at hmatch
  rw [hfuel, search_skip envSize _ he.2.1 hplain hfirst hpre (by unfold stopAt at hle; lia),
    Nat.zero_add, search, if_neg hnonzero]
  unfold stopAt
  rw [hend, hmatch]

theorem oldval_eq (h : WellFormed envSize mem (pre ++ e :: post)) :
    window mem ((listText pre).length + e.key.length + 1)
      (stopAt pre e - ((listText pre).length + e.key.length + 1)) = e.data := by
  rcases h.split with ⟨_, hentry, _⟩
  rw [stored_append, stored_cons] at hentry
  have hlen : stopAt pre e - ((listText pre).length + e.key.length + 1) = e.data.length := by
    unfold stopAt
    lia
  rw [hlen]
  exact hentry.right.right

def lookup (entries : List Entry) (name : Bytes) : Option Bytes :=
  (entries.find? fun e => e.key = name).map (·.data)

theorem lookup_none_iff : lookup entries name = none <-> name ∉ entries.map (·.key) := by
  unfold lookup
  rw [Option.map_eq_none_iff, List.find?_eq_none]
  simp only [decide_eq_true_eq, List.mem_map, not_exists, not_and]

theorem lookup_some {old : Bytes} (h : lookup entries name = some old) :
    exists pre post, entries = pre ++ ⟨name, old⟩ :: post := by
  rcases Option.map_eq_some_iff.mp h with ⟨e, he, rfl⟩
  rcases List.find?_eq_some_iff_append.mp he with ⟨hname, pre, post, hsplit, _⟩
  have hkey : e.key = name := by simpa using hname
  exact ⟨pre, post, hkey ▸ hsplit⟩

theorem fwGetenv_eq {cfg : Config} (h : WellFormed cfg.envSize mem entries) (h61 : 61 ∉ name) :
    fwGetenv cfg mem name = lookup entries name := by
  have hlen := listText_length_ge entries
  have hfits := h.fits
  unfold fwGetenv
  cases hlook : lookup entries name with
  | none =>
      have hfuel : cfg.envSize + 2 = cfg.envSize + 1 - entries.length + 1 + entries.length := by
        lia
      rcases stored_append.mp h.stored with ⟨htext, hend⟩
      rw [hfuel, linearSearch_skip _ (envmatch_finds h61) h.plain (lookup_none_iff.mp hlook)
        htext (by lia), linearSearch, if_pos (stored_cons.mp hend).left]
      rfl
  | some old =>
      rcases lookup_some hlook with ⟨pre, post, rfl⟩
      rcases h.split with ⟨hpre, hentry, hstop, _, _, hlt, hfirst⟩
      have hold := oldval_eq h
      have hplain : forall x, x ∈ pre -> Plain x := fun x hx =>
        h.plain x (List.mem_append_left _ hx)
      have he := h.plain ⟨name, old⟩ (List.mem_append_right _ List.mem_cons_self)
      have hle : stopAt pre ⟨name, old⟩ ≤ cfg.envSize := by lia
      have hlen := listText_length_ge pre
      have hfuel : cfg.envSize + 2 = cfg.envSize + 1 - pre.length + 1 + pre.length := by
        unfold stopAt at hle
        lia
      rw [hfuel, linearSearch_skip _ (envmatch_finds h61) hplain hfirst hpre
        (by unfold stopAt at hle; lia), Nat.zero_add, linearSearch_entry cfg.envSize _
        (envmatch_finds h61) ⟨he.1, he.2.1⟩ he.2.2 hentry rfl hstop hle, if_pos rfl]
      exact congrArg some hold

end

/-!
## Taking out and appending
-/

section

variable {mem : Nat -> UInt8} {envSize : Nat} {entries pre post : List Entry} {e : Entry}
variable {name value : Bytes}

/-- The memory holds the entries, with two NUL bytes if there are none. -/
structure Holds (mem : Nat -> UInt8) (entries : List Entry) : Prop where
  stored : Stored mem 0 (listText entries ++ [0])
  double : entries = [] -> mem 1 = 0

theorem removeEntry_spec (h : WellFormed envSize mem (pre ++ e :: post)) :
    exists mem', removeEntry envSize mem (listText pre).length (stopAt pre e) = some mem' ∧
      Holds mem' (pre ++ post) := by
  rcases h.split with ⟨hpre, _, _, hpost, hmark, hlt, _⟩
  have horder : (listText pre).length < stopAt pre e := by
    unfold stopAt
    lia
  unfold removeEntry
  cases post with
  | nil =>
      have hnul : mem (stopAt pre e + 1) = 0 := hmark
      rw [if_pos hnul, List.append_nil]
      have hbefore : Stored (overwrite mem (listText pre).length [0]) 0 (listText pre) :=
        stored_frame hpre (Or.inr (by lia))
      refine ⟨_, rfl, ?_, fun hnil => ?_⟩
      · rw [stored_append, Nat.zero_add]
        refine ⟨stored_frame hbefore (Or.inr (by lia)), ?_⟩
        exact stored_frame (stored_overwrite _ _ _) (Or.inr (Nat.le_refl _))
      · rw [hnil]
        exact overwrite_at _ 1 0
  | cons x post =>
      have hplain : forall y, y ∈ x :: post -> Plain y := fun y hy =>
        h.plain y (List.mem_append_right _ (List.mem_cons_of_mem _ hy))
      have hhead : mem (stopAt pre e + 1) ≠ 0 := by
        have hne := listText_head hplain
        intro hnul
        cases htext : listText (x :: post) with
        | nil =>
            have := listText_length_cons x post
            rw [htext, List.length_nil] at this
            lia
        | cons c rest =>
            rw [htext, stored_cons] at hpost
            rw [htext, <- hpost.left, hnul] at hne
            exact hne rfl
      have hlen := listText_length_cons x post
      have hslide := slide_spec (listText_single hplain (by simp))
        (Nat.lt_succ_of_lt horder) hpost hmark (show _ ≤ envSize by lia)
      rw [if_neg hhead, hslide]
      refine ⟨_, rfl, ?_, fun hnil => absurd hnil (by simp)⟩
      have hnext : (listText pre).length + (listText (x :: post)).length - 1 + 1 =
          (listText pre).length + (listText (x :: post)).length := by
        lia
      dsimp only
      rw [hnext, listText_append, List.append_assoc, stored_append, stored_append, Nat.zero_add]
      refine ⟨?_, ?_, stored_overwrite _ _ _⟩
      · exact stored_frame (stored_frame hpre (Or.inr (by lia))) (Or.inr (by lia))
      · exact stored_frame (stored_overwrite _ _ _) (Or.inr (Nat.le_refl _))

theorem findDouble_holds (h : Holds mem entries) (hplain : forall x, x ∈ entries -> Plain x)
    {fuel : Nat} (hfuel : (listText entries).length ≤ fuel) (hpos : 0 < fuel) :
    exists env, findDouble mem fuel 0 = some env ∧
      (if env > 0 then env + 1 else env) = (listText entries).length := by
  rcases stored_append.mp h.stored with ⟨htext, hend⟩
  rw [stored_cons] at hend
  cases entries with
  | nil =>
      rcases Nat.exists_eq_add_of_lt hpos with ⟨k, rfl⟩
      refine ⟨0, ?_, rfl⟩
      rw [Nat.zero_add, findDouble, if_neg]
      rw [not_or, not_not, not_not]
      exact ⟨hend.left, h.double rfl⟩
  | cons x entries =>
      have hlen := listText_length_cons x entries
      refine ⟨_, findDouble_spec (listText_single hplain (by simp)) htext hend.left hfuel, ?_⟩
      rw [if_pos (by lia)]
      lia

theorem holds_append (h : Stored mem 0 (listText entries)) (name value : Bytes) :
    Holds (overwrite mem (listText entries).length (name ++ 61 :: (value ++ [0, 0])))
      (entries ++ [⟨name, value⟩]) := by
  have htext : listText (entries ++ [⟨name, value⟩]) ++ [0] =
      listText entries ++ (name ++ 61 :: (value ++ [0, 0])) := by
    simp [listText]
  refine ⟨?_, fun hnil => absurd hnil (by simp)⟩
  rw [htext, stored_append, Nat.zero_add]
  exact ⟨stored_frame h (Or.inr (by lia)), stored_overwrite _ _ _⟩

theorem appendDefinition_spec (h : Holds mem entries)
    (hplain : forall x, x ∈ entries -> Plain x) (hfits : (listText entries).length < envSize)
    (hpos : 1 < envSize) (dirty : Bool) (name value : Bytes) :
    appendDefinition envSize ⟨mem, dirty⟩ name value =
      if definitionLength name value > (envSize : Int) - (listText entries).length then
        some (-1, ⟨mem, dirty⟩)
      else
        some (0, ⟨overwrite mem (listText entries).length (name ++ 61 :: (value ++ [0, 0])),
          dirty⟩) := by
  rcases findDouble_holds h hplain (show _ ≤ envSize - 1 by lia) (by lia) with
    ⟨env, hfind, henv⟩
  unfold appendDefinition
  rw [hfind]
  dsimp only
  rw [henv]

theorem holds_length {entries' : List Entry} (h : Stored mem 0 (listText entries ++ [0]))
    (h' : Stored mem 0 (listText entries' ++ [0])) (hplain : forall x, x ∈ entries -> Plain x)
    (hplain' : forall x, x ∈ entries' -> Plain x) (hne : entries ≠ []) :
    (listText entries).length = (listText entries').length := by
  rcases stored_append.mp h with ⟨htext, hend⟩
  rcases stored_append.mp h' with ⟨htext', hend'⟩
  rw [stored_cons] at hend hend'
  have hfind := findDouble_spec (listText_single hplain hne) htext hend.left
    (Nat.le_max_left _ (listText entries').length)
  cases entries' with
  | nil =>
      have hhead := listText_head hplain
      cases hcons : listText entries with
      | nil =>
          have := listText_length_ge entries
          rw [hcons, List.length_nil] at this
          exact absurd (List.length_eq_zero_iff.mp (Nat.le_zero.mp this)) hne
      | cons c rest =>
          rw [hcons, stored_cons] at htext
          rw [hcons, List.head?_cons, <- htext.left] at hhead
          exact absurd (congrArg some hend'.left) hhead
  | cons x entries' =>
      have hlen := listText_length_cons x entries'
      have hfind' := findDouble_spec (listText_single hplain' (by simp)) htext' hend'.left
        (Nat.le_max_right (listText entries).length _)
      rw [hfind] at hfind'
      have hge := listText_length_ge entries
      have hpos : 0 < entries.length := List.length_pos_iff.mpr hne
      have heq := Option.some.inj hfind'
      lia

end

/-!
## The map without a name
-/

def others (entries : List Entry) (name : Bytes) : List Entry :=
  entries.filter fun e => e.key ≠ name

section

variable {mem : Nat -> UInt8} {envSize : Nat} {entries pre post : List Entry}
variable {name other value : Bytes}

theorem others_missing (h : name ∉ entries.map (·.key)) : others entries name = entries := by
  refine List.filter_eq_self.mpr fun e he => ?_
  rw [decide_eq_true_eq]
  exact fun hkey => h (List.mem_map.mpr ⟨e, he, hkey⟩)

theorem others_split {old : Bytes}
    (hnodup : ((pre ++ ⟨name, old⟩ :: post).map (·.key)).Nodup) :
    others (pre ++ ⟨name, old⟩ :: post) name = pre ++ post := by
  rw [List.map_append, List.map_cons, List.nodup_append, List.nodup_cons] at hnodup
  have hpre : others pre name = pre := others_missing fun hmem =>
    hnodup.2.2 _ hmem _ List.mem_cons_self rfl
  have hpost : others post name = post := others_missing hnodup.2.1.1
  unfold others at hpre hpost ⊢
  rw [List.filter_append, hpre, List.filter_cons_of_neg (by simp), hpost]

theorem lookup_others (hne : other ≠ name) :
    lookup (others entries name) other = lookup entries other := by
  unfold lookup others
  rw [List.find?_filter]
  congr 2
  funext e
  by_cases hkey : e.key = other
  · simp [hkey, hne]
  · simp [hkey]

theorem lookup_others_self (entries : List Entry) (name : Bytes) :
    lookup (others entries name) name = none := by
  rw [lookup_none_iff]
  intro hmem
  rcases List.mem_map.mp hmem with ⟨e, he, hkey⟩
  have hne := (List.mem_filter.mp he).right
  rw [decide_eq_true_eq] at hne
  exact hne hkey

theorem lookup_append (entries : List Entry) (name value other : Bytes) :
    lookup (entries ++ [⟨name, value⟩]) other =
      (lookup entries other).or (if name = other then some value else none) := by
  unfold lookup
  rw [List.find?_append]
  cases hfind : entries.find? fun e => e.key = other with
  | some e => rfl
  | none =>
      by_cases hkey : name = other
      · simp [hkey]
      · simp [hkey]

theorem listText_others_length (entries : List Entry) (name : Bytes) :
    (listText (others entries name)).length ≤ (listText entries).length := by
  induction entries with
  | nil => exact Nat.le_refl _
  | cons e entries ih =>
      unfold others at ih ⊢
      by_cases hkey : e.key ≠ name
      · rw [List.filter_cons_of_pos (by simpa using hkey), listText_length_cons,
          listText_length_cons]
        lia
      · rw [List.filter_cons_of_neg (by simpa using hkey), listText_length_cons]
        lia

theorem WellFormed.plain_others (h : WellFormed envSize mem entries) (name : Bytes) :
    forall e, e ∈ others entries name -> Plain e :=
  fun e he => h.plain e (List.mem_of_mem_filter he)

theorem WellFormed.nodup_others (h : WellFormed envSize mem entries) (name : Bytes) :
    ((others entries name).map (·.key)).Nodup :=
  h.nodup.sublist (List.filter_sublist.map _)

end

/-!
## Writing
-/

def Denied (R : Rules) (mem : Nat -> UInt8) (name : Bytes) :
    Option Bytes -> Option Bytes -> Prop
  | none, none => False
  | none, some _ => R.validateVaraccess mem name .preventCreate = true
  | some _, none => R.validateVaraccess mem name .preventDelete = true
  | some old, some new =>
      old ≠ new ∧ (R.validateVaraccess mem name .preventOverwr = true ∨
        R.validateVaraccess mem name .preventNondefOverwr = true ∧
          old ≠ (R.getdefenv name).getD [])

section

variable {R : Rules} {cfg : Config} {mem : Nat -> UInt8} {entries : List Entry}
variable {name new : Bytes} {value : Option Bytes} {dirty : Bool}

theorem write_unchanged (h : WellFormed cfg.envSize mem entries) (h61 : 61 ∉ name)
    (hsame : lookup entries name = given value) :
    fwEnvWrite R cfg ⟨mem, dirty⟩ name value = some (0, ⟨mem, dirty⟩) := by
  unfold fwEnvWrite
  dsimp only
  cases hlook : lookup entries name with
  | none =>
      rw [search_missing h h61 (lookup_none_iff.mp hlook), <- hsame, hlook]
  | some old =>
      rcases lookup_some hlook with ⟨pre, post, rfl⟩
      rw [search_found h, <- hsame, hlook]
      dsimp only
      rw [oldval_eq h, if_pos rfl]

theorem write_denied (h : WellFormed cfg.envSize mem entries) (h61 : 61 ∉ name)
    (hdenied : Denied R mem name (lookup entries name) (given value)) :
    fwEnvWrite R cfg ⟨mem, dirty⟩ name value = some (-1, ⟨mem, dirty⟩) := by
  unfold fwEnvWrite
  dsimp only
  cases hlook : lookup entries name with
  | none =>
      rw [search_missing h h61 (lookup_none_iff.mp hlook)]
      rw [hlook] at hdenied
      cases hgiven : given value with
      | none =>
          rw [hgiven] at hdenied
          exact absurd hdenied id
      | some new =>
          rw [hgiven] at hdenied
          exact if_pos hdenied
  | some old =>
      rw [hlook] at hdenied
      rcases lookup_some hlook with ⟨pre, post, rfl⟩
      rw [search_found h]
      dsimp only
      cases hgiven : given value with
      | none =>
          rw [hgiven] at hdenied
          exact if_pos hdenied
      | some new =>
          rw [hgiven] at hdenied
          rcases hdenied with ⟨hne, hrefused⟩
          dsimp only
          rw [oldval_eq h, if_neg hne]
          rcases hrefused with hrefused | hrefused
          · exact if_pos hrefused
          · rw [if_pos hrefused, ite_self]

theorem write_deletes (h : WellFormed cfg.envSize mem entries) {old : Bytes}
    (hlook : lookup entries name = some old) (hgiven : given value = none)
    (hallowed : ¬ Denied R mem name (some old) none) (dirty : Bool) :
    exists mem', fwEnvWrite R cfg ⟨mem, dirty⟩ name value = some (0, ⟨mem', true⟩) ∧
      Holds mem' (others entries name) := by
  rcases lookup_some hlook with ⟨pre, post, rfl⟩
  rcases removeEntry_spec h with ⟨mem', hremove, hholds⟩
  refine ⟨mem', ?_, by rwa [others_split h.nodup]⟩
  unfold fwEnvWrite
  dsimp only
  rw [search_found h, hgiven]
  dsimp only
  rw [if_neg (show ¬ R.validateVaraccess mem name .preventDelete = true from hallowed), hremove]
  rfl

theorem write_appends (h : WellFormed cfg.envSize mem entries) (h61 : 61 ∉ name)
    (hgiven : given value = some new) (hne : lookup entries name ≠ some new)
    (hallowed : ¬ Denied R mem name (lookup entries name) (some new)) (dirty : Bool) :
    exists mem', fwEnvWrite R cfg ⟨mem, dirty⟩ name value =
        appendDefinition cfg.envSize ⟨mem', true⟩ name new ∧
      (entries = [] -> mem' = mem) ∧ (entries ≠ [] -> Holds mem' (others entries name)) := by
  cases hlook : lookup entries name with
  | none =>
      have hmissing := lookup_none_iff.mp hlook
      rw [hlook] at hallowed
      refine ⟨mem, ?_, fun _ => rfl, fun hsome => ?_⟩
      · unfold fwEnvWrite
        dsimp only
        rw [search_missing h h61 hmissing, hgiven]
        exact if_neg hallowed
      · rw [others_missing hmissing]
        exact ⟨h.stored, fun hnil => absurd hnil hsome⟩
  | some old =>
      rw [hlook] at hallowed hne
      rcases lookup_some hlook with ⟨pre, post, rfl⟩
      rcases removeEntry_spec h with ⟨mem', hremove, hholds⟩
      have hdiff : old ≠ new := fun heq => hne (congrArg some heq)
      refine ⟨mem', ?_, fun hnil => absurd hnil (by simp), fun _ => by
        rwa [others_split h.nodup]⟩
      unfold fwEnvWrite
      dsimp only
      rw [search_found h, hgiven]
      dsimp only
      rw [oldval_eq h, if_neg hdiff, if_neg (fun hover => hallowed ⟨hdiff, Or.inl hover⟩),
        if_neg (fun hnon => hallowed ⟨hdiff, Or.inr hnon⟩), hremove]
      rfl

end

/-!
## The list is edited as a map
-/

/-- The block is a list again, with the new value for the name and the old ones for
all other names. -/
structure Edits (cfg : Config) (mem : Nat -> UInt8) (name : Bytes) (value : Option Bytes)
    (mem' : Nat -> UInt8) : Prop where
  wellFormed : exists entries', WellFormed cfg.envSize mem' entries'
  get : fwGetenv cfg mem' name = given value
  others (other : Bytes) (nul : 0 ∉ other) (equals : 61 ∉ other) (hne : other ≠ name) :
    fwGetenv cfg mem' other = fwGetenv cfg mem other

def definitionSize (name value : Bytes) : Nat := name.length + value.length + 3

def FirstDouble (mem : Nat -> UInt8) (p : Nat) : Prop :=
  mem p = 0 ∧ mem (p + 1) = 0 ∧ forall q, q < p -> mem q ≠ 0 ∨ mem (q + 1) ≠ 0

/-- A definition is appended in a wrong place: to an empty list, in the stale bytes
behind its end mark, or past the end of the block, as its length has wrapped round. -/
structure Misplaced (R : Rules) (cfg : Config) (mem : Nat -> UInt8) (entries : List Entry)
    (name new : Bytes) : Prop where
  changes : lookup entries name ≠ some new
  allowed : ¬ Denied R mem name (lookup entries name) (some new)
  place :
    (entries = [] ∧ mem 1 ≠ 0 ∧ exists p, FirstDouble mem p ∧ p + 1 < cfg.envSize ∧
      definitionLength name new ≤ (cfg.envSize : Int) - (p + 1)) ∨
    ((entries = [] -> mem 1 = 0 ∧ 1 < cfg.envSize) ∧
      definitionLength name new ≤
        (cfg.envSize : Int) - (listText (others entries name)).length ∧
      cfg.envSize < (listText (others entries name)).length + definitionSize name new)

section

variable {R : Rules} {cfg : Config} {mem mem' : Nat -> UInt8} {entries : List Entry}
variable {name new : Bytes} {value : Option Bytes} {dirty : Bool}

theorem findDouble_some {fuel p q : Nat} (h : findDouble mem fuel p = some q) :
    p ≤ q ∧ q < p + fuel ∧ mem q = 0 ∧ mem (q + 1) = 0 ∧
      forall r, p ≤ r -> r < q -> mem r ≠ 0 ∨ mem (r + 1) ≠ 0 := by
  induction fuel generalizing p with
  | zero => cases h
  | succ fuel ih =>
      rw [findDouble] at h
      split at h
      · rename_i hmore
        rcases ih h with ⟨hle, hlt, hfirst, hsecond, hbefore⟩
        refine ⟨by lia, by lia, hfirst, hsecond, fun r hr hrq => ?_⟩
        by_cases heq : r = p
        · exact heq ▸ hmore
        · exact hbefore r (by lia) hrq
      · rename_i hdouble
        cases h
        rw [not_or, not_not, not_not] at hdouble
        exact ⟨Nat.le_refl _, by lia, hdouble.left, hdouble.right, fun r hr hrq => by lia⟩

theorem findDouble_first {fuel p q : Nat} (hq : mem q = 0 ∧ mem (q + 1) = 0)
    (hbefore : forall r, p ≤ r -> r < q -> mem r ≠ 0 ∨ mem (r + 1) ≠ 0) (hle : p ≤ q)
    (hlt : q < p + fuel) : findDouble mem fuel p = some q := by
  induction fuel generalizing p with
  | zero => lia
  | succ fuel ih =>
      rw [findDouble]
      by_cases heq : p = q
      · rw [heq, if_neg]
        rw [not_or, not_not, not_not]
        exact hq
      · rw [if_pos (hbefore p (Nat.le_refl p) (by lia))]
        exact ih (fun r hr => hbefore r (by lia)) (by lia) (by lia)

theorem append_stale (hstale : mem 1 ≠ 0) (name new : Bytes) {r : Int × Environment}
    (h : appendDefinition cfg.envSize ⟨mem, dirty⟩ name new = some r) :
    exists p, FirstDouble mem p ∧ 0 < p ∧ p + 1 < cfg.envSize ∧
      r = if definitionLength name new > (cfg.envSize : Int) - (p + 1) then
          (-1, ⟨mem, dirty⟩)
        else (0, ⟨overwrite mem (p + 1) (name ++ 61 :: (new ++ [0, 0])), dirty⟩) := by
  unfold appendDefinition at h
  dsimp only at h
  cases hfind : findDouble mem (cfg.envSize - 1) 0 with
  | none =>
      rw [hfind] at h
      cases h
  | some p =>
      rcases findDouble_some hfind with ⟨_, hlt, hfirst, hsecond, hbefore⟩
      have hpos : 0 < p := by
        rcases Nat.eq_zero_or_pos p with rfl | hpos
        · exact absurd hsecond hstale
        · exact hpos
      refine ⟨p, ⟨hfirst, hsecond, fun q => hbefore q (Nat.zero_le q)⟩, hpos, by lia, ?_⟩
      rw [hfind] at h
      dsimp only at h
      rw [if_pos hpos, Int.natCast_add, Int.natCast_one] at h
      split at h
      · rename_i hroom
        rw [if_pos hroom]
        exact (Option.some.inj h).symm
      · rename_i hroom
        rw [if_neg hroom]
        exact (Option.some.inj h).symm

theorem wellFormed_others (h : WellFormed cfg.envSize mem entries)
    (hholds : Holds mem' (others entries name)) :
    WellFormed cfg.envSize mem' (others entries name) := by
  have hlen := listText_others_length entries name
  have hfits := h.fits
  exact ⟨h.plain_others name, h.nodup_others name, hholds.stored, by lia⟩

theorem wellFormed_append (h : WellFormed cfg.envSize mem entries)
    (hplain : Plain ⟨name, new⟩) (hholds : Holds mem' (others entries name ++ [⟨name, new⟩]))
    (hfits : (listText (others entries name)).length + definitionSize name new ≤ cfg.envSize) :
    WellFormed cfg.envSize mem' (others entries name ++ [⟨name, new⟩]) := by
  refine ⟨fun e he => ?_, ?_, hholds.stored, ?_⟩
  · rcases List.mem_append.mp he with hold | hnew
    · exact h.plain_others name e hold
    · rw [List.mem_singleton.mp hnew]
      exact hplain
  · rw [List.map_append, List.nodup_append]
    refine ⟨h.nodup_others name, List.nodup_singleton _, fun a ha b hb heq => ?_⟩
    have hmissing := lookup_none_iff.mp (lookup_others_self entries name)
    rw [List.map_singleton, List.mem_singleton] at hb
    rw [heq, hb] at ha
    exact hmissing ha
  · unfold definitionSize at hfits
    rw [listText_append, List.length_append, listText_length_cons]
    show _ + (name.length + 1 + new.length + 1 + 0) + 1 ≤ _
    lia

/-- A list with the entries for other names, and the new value, is what was asked. -/
theorem edits_of_list {entries' : List Entry} (h : WellFormed cfg.envSize mem entries)
    (hname : 61 ∉ name) (h' : WellFormed cfg.envSize mem' entries')
    (hget : lookup entries' name = given value)
    (hothers : forall other, other ≠ name -> lookup entries' other = lookup entries other) :
    Edits cfg mem name value mem' := by
  refine ⟨⟨entries', h'⟩, ?_, fun other _ h61 hne => ?_⟩
  · rw [fwGetenv_eq h' hname, hget]
  · rw [fwGetenv_eq h' h61, fwGetenv_eq h h61, hothers other hne]

theorem write_list (h : WellFormed cfg.envSize mem entries) (h61 : 61 ∉ name)
    (hgiven : given value = some new) (hne : lookup entries name ≠ some new)
    (hallowed : ¬ Denied R mem name (lookup entries name) (some new))
    (hnil : entries = [] -> mem 1 = 0 ∧ 1 < cfg.envSize) (dirty : Bool) :
    exists mem' mem'', Holds mem' (others entries name) ∧
      Holds mem'' (others entries name ++ [⟨name, new⟩]) ∧
      fwEnvWrite R cfg ⟨mem, dirty⟩ name value =
        if definitionLength name new >
            (cfg.envSize : Int) - (listText (others entries name)).length then
          some (-1, ⟨mem', true⟩)
        else some (0, ⟨mem'', true⟩) := by
  have hlen := listText_others_length entries name
  have hfits := h.fits
  rcases write_appends h h61 hgiven hne hallowed dirty with
    ⟨mem', hwrite, hempty, hmore⟩
  have hpos : 1 < cfg.envSize := by
    cases entries with
    | nil => exact (hnil rfl).right
    | cons e entries =>
        rw [listText_length_cons] at hfits
        lia
  have hholds : Holds mem' (others entries name) := by
    by_cases hcase : entries = []
    · subst hcase
      rw [hempty rfl]
      exact ⟨h.stored, fun _ => (hnil rfl).left⟩
    · exact hmore hcase
  refine ⟨mem', _, hholds, holds_append (stored_append.mp hholds.stored).left name new, ?_⟩
  rw [hwrite, appendDefinition_spec hholds (h.plain_others name) (by lia) hpos]

theorem edits_stale (h : WellFormed cfg.envSize mem []) (name new : Bytes) {p : Nat}
    (hgiven : given value = some new) :
    ¬ Edits cfg mem name value (overwrite mem (p + 1) (name ++ 61 :: (new ++ [0, 0]))) := by
  intro hedits
  have hfirst : mem 0 = 0 := (stored_cons.mp h.stored).left
  have hget := hedits.get
  unfold fwGetenv at hget
  rw [linearSearch, overwrite_of_lt (Nat.succ_pos p), if_pos hfirst, hgiven] at hget
  cases hget

theorem plain_new (hname : 0 ∉ name ∧ 61 ∉ name)
    (hvalue : forall v, value = some v -> 0 ∉ v) (hgiven : given value = some new) :
    Plain ⟨name, new⟩ :=
  ⟨hname.left, hname.right, hvalue new (Option.filter_eq_some_iff.mp hgiven).left⟩

/-- A misplaced definition is written, and the block is not what was asked. -/
theorem misplaced_written (h : WellFormed cfg.envSize mem entries)
    (hname : 0 ∉ name ∧ 61 ∉ name) (hvalue : forall v, value = some v -> 0 ∉ v)
    (hgiven : given value = some new) (hmisplaced : Misplaced R cfg mem entries name new)
    (dirty : Bool) :
    exists E', fwEnvWrite R cfg ⟨mem, dirty⟩ name value = some (0, E') ∧
      ¬ Edits cfg mem name value E'.data := by
  rcases hmisplaced.place with ⟨rfl, hstale, p, hdouble, hlt, hroom⟩ | ⟨hnil, hroom, hover⟩
  · rcases write_appends h hname.right hgiven hmisplaced.changes hmisplaced.allowed dirty with
      ⟨mem', hwrite, hempty, _⟩
    rw [hempty rfl] at hwrite
    have hfind : findDouble mem (cfg.envSize - 1) 0 = some p :=
      findDouble_first ⟨hdouble.1, hdouble.2.1⟩ (fun q _ => hdouble.2.2 q) (Nat.zero_le p)
        (by lia)
    have hpos : p > 0 := by
      rcases Nat.eq_zero_or_pos p with rfl | hpos
      · exact absurd hdouble.2.1 hstale
      · exact hpos
    unfold appendDefinition at hwrite
    dsimp only at hwrite
    rw [hfind] at hwrite
    dsimp only at hwrite
    rw [if_pos hpos, Int.natCast_add, Int.natCast_one, if_neg (Int.not_lt.mpr hroom)] at hwrite
    exact ⟨_, hwrite, edits_stale h name new hgiven⟩
  · rcases write_list h hname.right hgiven hmisplaced.changes hmisplaced.allowed hnil dirty with
      ⟨_, mem'', _, hholds, hwrite⟩
    rw [if_neg (Int.not_lt.mpr hroom)] at hwrite
    refine ⟨_, hwrite, fun hedits => ?_⟩
    rcases hedits.wellFormed with ⟨entries', h'⟩
    have hplain : forall e, e ∈ others entries name ++ [⟨name, new⟩] -> Plain e := by
      intro e he
      rcases List.mem_append.mp he with hold | hnew
      · exact h.plain_others name e hold
      · rw [List.mem_singleton.mp hnew]
        exact plain_new hname hvalue hgiven
    have hlen := holds_length hholds.stored h'.stored hplain h'.plain (by simp)
    have hfits := h'.fits
    rw [<- hlen, listText_append, List.length_append, listText_length_cons] at hfits
    have hsize : (listText (others entries name)).length +
        (name.length + 1 + new.length + 1 + 0) + 1 ≤ cfg.envSize := hfits
    unfold definitionSize at hover
    lia

theorem placed_edits (h : WellFormed cfg.envSize mem entries) (hname : 0 ∉ name ∧ 61 ∉ name)
    (hvalue : forall v, value = some v -> 0 ∉ v) (hgiven : given value = some new)
    (hne : lookup entries name ≠ some new)
    (hallowed : ¬ Denied R mem name (lookup entries name) (some new))
    (hplaced : ¬ Misplaced R cfg mem entries name new) {E' : Environment}
    (hwrite : fwEnvWrite R cfg ⟨mem, dirty⟩ name value = some (0, E')) :
    Edits cfg mem name value E'.data := by
  by_cases hnil : entries = [] -> mem 1 = 0 ∧ 1 < cfg.envSize
  · rcases write_list h hname.right hgiven hne hallowed hnil dirty with
      ⟨_, mem'', _, hholds, hwrite'⟩
    rw [hwrite'] at hwrite
    split at hwrite
    · cases hwrite
    · rename_i hroom
      cases hwrite
      have hfits : (listText (others entries name)).length + definitionSize name new ≤
          cfg.envSize := by
        by_contra hover
        exact hplaced ⟨hne, hallowed, Or.inr ⟨hnil, Int.not_lt.mp hroom, by lia⟩⟩
      refine edits_of_list h hname.right
        (wellFormed_append h (plain_new hname hvalue hgiven) hholds hfits) ?_ fun other hne' => ?_
      · rw [lookup_append, lookup_others_self, if_pos rfl, hgiven]
        rfl
      · rw [lookup_append, lookup_others hne', if_neg (Ne.symm hne'), Option.or_none]
  · have hempty : entries = [] := by
      by_contra hsome
      exact hnil fun heq => absurd heq hsome
    subst hempty
    rcases write_appends h hname.right hgiven hne hallowed dirty with ⟨mem', hwrite', hsame, _⟩
    rw [hsame rfl] at hwrite'
    rw [hwrite'] at hwrite
    by_cases hone : mem 1 = 0
    · have hzero : cfg.envSize - 1 = 0 := by
        have : ¬ 1 < cfg.envSize := fun hlt => hnil fun _ => ⟨hone, hlt⟩
        lia
      unfold appendDefinition at hwrite
      rw [hzero] at hwrite
      cases hwrite
    · rcases append_stale hone name new hwrite with ⟨p, hdouble, _, hlt, hr⟩
      split at hr
      · cases hr
      · rename_i hroom
        exact absurd ⟨hne, hallowed, Or.inl ⟨rfl, hone, p, hdouble, hlt, Int.not_lt.mp hroom⟩⟩
          hplaced

/-- A successful call edits the list as a map exactly if no definition is misplaced. -/
theorem fw_env_write_edits_iff (R : Rules) (h : WellFormed cfg.envSize mem entries)
    (hname : 0 ∉ name ∧ 61 ∉ name) (hvalue : forall v, value = some v -> 0 ∉ v)
    (dirty : Bool) :
    (forall E', fwEnvWrite R cfg ⟨mem, dirty⟩ name value = some (0, E') ->
      Edits cfg mem name value E'.data) <->
      ¬ exists new, given value = some new ∧ Misplaced R cfg mem entries name new := by
  refine ⟨?_, ?_⟩
  · rintro hall ⟨new, hgiven, hmisplaced⟩
    rcases misplaced_written h hname hvalue hgiven hmisplaced dirty with ⟨E', hwrite, hnot⟩
    exact hnot (hall E' hwrite)
  · intro hplaced E' hwrite
    by_cases hsame : lookup entries name = given value
    · rw [write_unchanged h hname.right hsame] at hwrite
      cases hwrite
      exact edits_of_list h hname.right h hsame fun _ _ => rfl
    · by_cases hdenied : Denied R mem name (lookup entries name) (given value)
      · rw [write_denied h hname.right hdenied] at hwrite
        cases hwrite
      · cases hgiven : given value with
        | none =>
            rw [hgiven] at hsame hdenied
            rcases Option.ne_none_iff_exists'.mp hsame with ⟨old, hold⟩
            rw [hold] at hdenied
            rcases write_deletes h hold hgiven hdenied dirty with ⟨mem', hwrite', hholds⟩
            rw [hwrite'] at hwrite
            cases hwrite
            refine edits_of_list h hname.right (wellFormed_others h hholds) ?_ fun other hne =>
              lookup_others hne
            rw [lookup_others_self, hgiven]
        | some new =>
            rw [hgiven] at hsame hdenied
            exact placed_edits h hname hvalue hgiven hsame hdenied
              (fun hm => hplaced ⟨new, hgiven, hm⟩) hwrite

end

/-!
## Two blocks
-/

def noRules : Rules where
  validateVaraccess := fun _ _ _ => false
  getdefenv := fun _ => none

def smallBlock : Config := ⟨16, 2, 512⟩

def oneVariable (a : Nat) : UInt8 := (str "a=1").getD a 0

theorem wellFormed_oneVariable :
    WellFormed smallBlock.envSize oneVariable [⟨str "a", str "1"⟩] := by
  refine ⟨?_, by decide, by unfold Stored; decide +kernel, by decide +kernel⟩
  intro e he
  rw [List.mem_singleton.mp he]
  unfold Plain
  decide

def staleBlock (a : Nat) : UInt8 := if a = 1 then 120 else 0

theorem wellFormed_staleBlock : WellFormed smallBlock.envSize staleBlock [] :=
  ⟨fun e he => absurd he (by simp), List.nodup_nil, rfl, by decide⟩

theorem fw_env_write_edits_oneVariable :
    (forall E', fwEnvWrite noRules smallBlock ⟨oneVariable, false⟩ (str "a") (some (str "2")) =
        some (0, E') -> Edits smallBlock oneVariable (str "a") (some (str "2")) E'.data) <->
      ¬ exists new, given (some (str "2")) = some new ∧
        Misplaced noRules smallBlock oneVariable [⟨str "a", str "1"⟩] (str "a") new :=
  fw_env_write_edits_iff noRules wellFormed_oneVariable (by decide)
    (fun v hv => by cases hv; decide) false

/-- The variable is appended behind the stale byte, where it is not found. -/
theorem stale_block_not_edited :
    WellFormed smallBlock.envSize staleBlock [] ∧
      exists E', fwEnvWrite noRules smallBlock ⟨staleBlock, false⟩ (str "a")
          (some (str "1")) = some (0, E') ∧
        ¬ Edits smallBlock staleBlock (str "a") (some (str "1")) E'.data := by
  refine ⟨wellFormed_staleBlock, ?_⟩
  have hrun : (fwEnvWrite noRules smallBlock ⟨staleBlock, false⟩ (str "a")
      (some (str "1"))).map (fun r => (r.1, fwGetenv smallBlock r.2.data (str "a"))) =
        some (0, none) := by
    decide +kernel
  rcases Option.map_eq_some_iff.mp hrun with ⟨r, hr, hout⟩
  rw [Prod.mk.injEq] at hout
  refine ⟨r.2, by rw [hr, <- hout.left], fun hedits => ?_⟩
  have hget := hedits.get
  rw [hout.right] at hget
  exact absurd hget (by decide)

end Fwenv
end Env
end Hlk7621
