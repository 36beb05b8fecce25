import Hlk7621.Env.Linear

/-!
# Readers of the linear form

Model of `env_get_from_linear` of `env/common.c` and of `fw_getenv` of
`tools/env/fw_env.c`.  Both search a linear environment in memory for the first
entry with a name and return its value as it stands there.  The environment is at
address 0; the memory behind it is arbitrary.
-/

namespace Hlk7621
namespace Env

/-!
## The search loop

The two programs have the same loop with different limits and comparisons.
-/

/-- The end of the entry at `p`; `none` if it does not end in front of `limit`. -/
def findEnd (mem : Nat -> UInt8) (limit : Nat) : Nat -> Nat -> Option Nat
  | 0, _ => none
  | fuel + 1, p =>
      if mem p = 0 then some p
      else if limit ≤ p then none
      else findEnd mem limit fuel (p + 1)

/-- The first entry that `find` accepts: the address of its value and its end. -/
def linearSearch (mem : Nat -> UInt8) (limit : Nat) (find : Nat -> Option Nat) :
    Nat -> Nat -> Option (Nat × Nat)
  | 0, _ => none
  | fuel + 1, p =>
      if mem p = 0 then none
      else
        match findEnd mem limit (limit + 1) p with
        | none => none
        | some stop =>
            match find p with
            | some value => some (value, stop)
            | none => linearSearch mem limit find fuel (stop + 1)

/-!
## Before relocation
-/

def headerSize : Nat := 4

/-- `strncmp(name, p, name_len) == 0 && p[name_len] == '='`. -/
def nameAt (mem : Nat -> UInt8) (name : Bytes) (p : Nat) : Option Nat :=
  if window mem p name.length = name ∧ mem (p + name.length) = 61 then
    some (p + name.length + 1)
  else none

/-- `env_get_from_linear`: the length of the value and what is written to the
result buffer of `len` bytes. -/
def envGetFromLinear (cfg : Config) (mem : Nat -> UInt8) (name : Bytes) (len : Nat) :
    Option (Nat × Bytes) :=
  if name = [] then none
  else
    let limit := cfg.envSize + headerSize
    (linearSearch mem limit (nameAt mem name) (limit + 2) 0).map fun r =>
      let res := r.2 - r.1
      (res, if len ≤ res then window mem r.1 (len - 1) ++ [0] else window mem r.1 (res + 1))

/-!
## The tool
-/

/-- `envmatch` for a name and the entry at `p`.  An entry has an `=` in front of its
end, so a name without `=` and the entry do not end together. -/
def envmatch (mem : Nat -> UInt8) : Bytes -> Nat -> Option Nat
  | [], p => if mem p = 61 then some (p + 1) else none
  | c :: name, p =>
      if c = mem p then
        if c = 61 then some (p + 1) else envmatch mem name (p + 1)
      else none

/-- `fw_getenv`, with the string at the address that it returns. -/
def fwGetenv (cfg : Config) (mem : Nat -> UInt8) (name : Bytes) : Option Bytes :=
  (linearSearch mem cfg.envSize (envmatch mem name) (cfg.envSize + 2) 0).map fun r =>
    window mem r.1 (r.2 - r.1)

/-!
## Import
-/

/-- The data of the entry that `hsearch_r` finds in the imported table. -/
def importGet (cfg : Config) (noclear : Bool) (table : Option Htab) (data name : Bytes) :
    Option Bytes :=
  (himportR cfg noclear table data 0).bind fun r =>
    (hsearchR ⟨name, []⟩ .find r.2).bind fun found =>
      found.entry.map fun i => (found.htab.table i).data

/-!
## Finding an entry
-/

section

variable {mem : Nat -> UInt8} {limit : Nat}

theorem window_cons (mem : Nat -> UInt8) (p n : Nat) :
    window mem p (n + 1) = mem p :: window mem (p + 1) n := by
  rw [Nat.add_comm n 1, window_append]
  rfl

def Stored (mem : Nat -> UInt8) (p : Nat) (text : Bytes) : Prop :=
  window mem p text.length = text

theorem stored_nil (mem : Nat -> UInt8) (p : Nat) : Stored mem p [] := rfl

theorem stored_cons {p : Nat} {c : UInt8} {text : Bytes} :
    Stored mem p (c :: text) <-> mem p = c ∧ Stored mem (p + 1) text := by
  unfold Stored
  rw [List.length_cons, window_cons, List.cons.injEq]

theorem stored_append {p : Nat} {xs ys : Bytes} :
    Stored mem p (xs ++ ys) <-> Stored mem p xs ∧ Stored mem (p + xs.length) ys := by
  unfold Stored
  rw [List.length_append, window_append]
  refine ⟨fun h => List.append_inj h (by simp), ?_⟩
  rintro ⟨hx, hy⟩
  rw [hx, hy]

theorem findEnd_stored (fuel : Nat) {text : Bytes} (htext : 0 ∉ text) {p : Nat}
    (hstored : Stored mem p text) (hend : mem (p + text.length) = 0)
    (hlimit : p + text.length ≤ limit) (hfuel : text.length < fuel) :
    findEnd mem limit fuel p = some (p + text.length) := by
  induction text generalizing p fuel with
  | nil =>
      rcases Nat.exists_eq_add_of_lt hfuel with ⟨k, rfl⟩
      exact if_pos hend
  | cons c text ih =>
      rw [List.length_cons] at hend hlimit hfuel ⊢
      rcases Nat.exists_eq_add_of_lt hfuel with ⟨k, rfl⟩
      rw [stored_cons] at hstored
      have hc : c ≠ 0 := fun h => htext (by simp [h])
      have hend' : mem (p + 1 + text.length) = 0 := by
        rw [<- hend]
        congr 1
        lia
      have hnext := ih (text.length + 1 + k) (fun h => htext (List.mem_cons_of_mem _ h))
        hstored.right hend' (by lia) (by lia)
      rw [findEnd, if_neg (by rw [hstored.left]; exact hc), if_neg (by lia), hnext]
      congr 1
      lia

def Finds (mem : Nat -> UInt8) (name : Bytes) (find : Nat -> Option Nat) : Prop :=
  forall p key, 61 ∉ key -> Stored mem p (key ++ [61]) ->
    find p = if key = name then some (p + key.length + 1) else none

theorem nameAt_finds {name : Bytes} (hname : 61 ∉ name) :
    Finds mem name (nameAt mem name) := by
  intro p key hkey hstored
  rw [stored_append, stored_cons] at hstored
  unfold nameAt
  by_cases heq : key = name
  · subst heq
    rw [if_pos ⟨hstored.left, hstored.right.left⟩, if_pos rfl]
  · rw [if_neg heq, if_neg]
    rintro ⟨hwin, hnext⟩
    refine heq ?_
    clear heq
    induction key generalizing p name with
    | nil =>
        cases name with
        | nil => rfl
        | cons c name =>
            have hc := (stored_cons.mp hwin).left
            have h61 : mem p = 61 := hstored.right.left
            rw [<- hc, h61] at hname
            simp at hname
    | cons k key ih =>
        rw [stored_cons, List.length_cons] at hstored
        cases name with
        | nil =>
            have h61 : mem p = 61 := hnext
            rw [<- hstored.left.left, h61] at hkey
            simp at hkey
        | cons c name =>
            rcases stored_cons.mp hwin with ⟨hc, hwin⟩
            simp only [List.mem_cons, not_or] at hname hkey
            rw [<- hstored.left.left, hc]
            congr 1
            refine ih hname.right (p + 1) hkey.right ⟨hstored.left.right, ?_, rfl⟩ hwin ?_
            · rw [<- hstored.right.left]
              congr 1
              lia
            · rw [<- hnext, List.length_cons]
              congr 1
              lia

theorem envmatch_finds {name : Bytes} (hname : 61 ∉ name) :
    Finds mem name (envmatch mem name) := by
  intro p key hkey hstored
  induction key generalizing p name with
  | nil =>
      have h61 : mem p = 61 := (stored_cons.mp hstored).left
      cases name with
      | nil => simp [envmatch, h61]
      | cons c name =>
          have hc : c ≠ 61 := fun h => hname (by simp [h])
          simp [envmatch, h61, hc]
  | cons k key ih =>
      rw [List.cons_append, stored_cons] at hstored
      simp only [List.mem_cons, not_or] at hkey
      cases name with
      | nil => simp [envmatch, hstored.left, Ne.symm hkey.left]
      | cons c name =>
          simp only [List.mem_cons, not_or] at hname
          have hrest := ih hname.right (p + 1) hkey.right hstored.right
          rw [envmatch, hrest, hstored.left]
          by_cases hc : c = k
          · subst hc
            rw [if_pos rfl, if_neg (Ne.symm hkey.left)]
            simp only [List.cons.injEq, true_and, List.length_cons]
            split
            · congr 1
              lia
            · rfl
          · rw [if_neg hc, if_neg]
            intro h
            cases h
            exact hc rfl

variable {name : Bytes} {find : Nat -> Option Nat}

/-- What a round finds at an entry: it does not end the search, its end is found, and
the comparison accepts it if it has the name. -/
theorem entry_round (limit : Nat) (hfind : Finds mem name find) {key value : Bytes}
    (hkey : 0 ∉ key ∧ 61 ∉ key) (hvalue : 0 ∉ value) {p stop : Nat}
    (hstored : Stored mem p (key ++ 61 :: value))
    (hstop : stop = p + (key.length + 1 + value.length)) (hend : mem stop = 0)
    (hlimit : stop ≤ limit) :
    mem p ≠ 0 ∧ findEnd mem limit (limit + 1) p = some stop ∧
      find p = if key = name then some (p + key.length + 1) else none := by
  have hlen : (key ++ 61 :: value).length = key.length + 1 + value.length := by
    simp
    lia
  have hnul : 0 ∉ key ++ 61 :: value := by
    simp [hkey.left, hvalue]
  refine ⟨?_, ?_, ?_⟩
  · cases key with
    | nil =>
        rw [(stored_cons.mp hstored).left]
        decide
    | cons c key =>
        rw [(stored_cons.mp hstored).left]
        exact fun h => hkey.left (by simp [h])
  · rw [hstop, <- hlen]
    exact findEnd_stored _ hnul hstored (by rw [hlen, <- hstop]; exact hend) (by lia) (by lia)
  · refine hfind p key hkey.right ?_
    rw [show key ++ 61 :: value = key ++ [61] ++ value by simp, stored_append] at hstored
    exact hstored.left

theorem linearSearch_entry (limit fuel : Nat) (hfind : Finds mem name find) {key value : Bytes}
    (hkey : 0 ∉ key ∧ 61 ∉ key) (hvalue : 0 ∉ value) {p stop : Nat}
    (hstored : Stored mem p (key ++ 61 :: value))
    (hstop : stop = p + (key.length + 1 + value.length)) (hend : mem stop = 0)
    (hlimit : stop ≤ limit) :
    linearSearch mem limit find (fuel + 1) p =
      if key = name then some (p + key.length + 1, stop)
      else linearSearch mem limit find fuel (stop + 1) := by
  rcases entry_round limit hfind hkey hvalue hstored hstop hend hlimit with
    ⟨hfirst, hfound, hname⟩
  rw [linearSearch, if_neg hfirst, hfound, hname]
  by_cases heq : key = name <;> simp [heq]

/-!
## Searching a list
-/

/-- Names and values are strings, and names have no `=`. -/
def Plain (e : Entry) : Prop := 0 ∉ e.key ∧ 61 ∉ e.key ∧ 0 ∉ e.data

def listText (entries : List Entry) : Bytes :=
  entries.flatMap fun e => e.key ++ 61 :: (e.data ++ [0])

theorem listText_cons (e : Entry) (entries : List Entry) :
    listText (e :: entries) = e.key ++ 61 :: (e.data ++ [0]) ++ listText entries :=
  List.flatMap_cons

theorem listText_append (xs ys : List Entry) :
    listText (xs ++ ys) = listText xs ++ listText ys :=
  List.flatMap_append

theorem listText_length_cons (e : Entry) (entries : List Entry) :
    (listText (e :: entries)).length =
      e.key.length + 1 + e.data.length + 1 + (listText entries).length := by
  rw [listText_cons, List.length_append, List.length_append, List.length_cons,
    List.length_append, List.length_singleton]
  lia

theorem listText_length_ge (entries : List Entry) :
    entries.length ≤ (listText entries).length := by
  induction entries with
  | nil => exact Nat.le_refl 0
  | cons e entries ih =>
      rw [listText_length_cons, List.length_cons]
      lia

variable {pre : List Entry}

theorem stored_listText_cons {e : Entry} {entries : List Entry} {p : Nat} :
    Stored mem p (listText (e :: entries)) <->
      Stored mem p (e.key ++ 61 :: e.data) ∧ mem (p + (e.key.length + 1 + e.data.length)) = 0 ∧
        Stored mem (p + (e.key.length + 1 + e.data.length) + 1) (listText entries) := by
  have hlen : (e.key ++ 61 :: e.data).length = e.key.length + 1 + e.data.length := by
    rw [List.length_append, List.length_cons]
    lia
  rw [listText_cons, show e.key ++ 61 :: (e.data ++ [0]) ++ listText entries =
    e.key ++ 61 :: e.data ++ (0 :: listText entries) by simp, stored_append, stored_cons, hlen]

theorem linearSearch_skip (fuel : Nat) (hfind : Finds mem name find)
    (hplain : forall x, x ∈ pre -> Plain x) (hname : name ∉ pre.map (·.key)) {p : Nat}
    (hstored : Stored mem p (listText pre)) (hlimit : p + (listText pre).length ≤ limit + 1) :
    linearSearch mem limit find (fuel + pre.length) p =
      linearSearch mem limit find fuel (p + (listText pre).length) := by
  induction pre generalizing p with
  | nil => rfl
  | cons e pre ih =>
      have he := hplain e List.mem_cons_self
      rcases stored_listText_cons.mp hstored with ⟨hentry, hend, hrest⟩
      rw [listText_length_cons] at hlimit ⊢
      simp only [List.map_cons, List.mem_cons, not_or] at hname
      have hstep := linearSearch_entry limit (fuel + pre.length) hfind ⟨he.1, he.2.1⟩
        he.2.2 hentry rfl hend (by lia)
      rw [List.length_cons, <- Nat.add_assoc, hstep, if_neg (Ne.symm hname.left),
        ih (fun x hx => hplain x (List.mem_cons_of_mem _ hx)) hname.right hrest (by lia)]
      congr 1
      lia

end

end Env
end Hlk7621
