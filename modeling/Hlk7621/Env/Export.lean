import Hlk7621.Env.RoundTrip

/-!
# Writing the linear form

`hexport_r` with its list of names, its flags and the stores it makes to the
result buffer.  The first pass computes the length that the buffer must have, and
the second pass writes with an escaping test of its own.
-/

namespace Hlk7621
namespace Env

/-!
## Selected entries
-/

inductive MatchMethod where
  | ident | substr | regex | other
  deriving DecidableEq, Repr

/-- The bits of `flag` that `hexport_r` reads. -/
structure ExportFlags where
  matchKey : Bool := false
  matchData : Bool := false
  method : MatchMethod := .ident
  hideDot : Bool := false

/-- `CONFIG_REGEX`: `slre_compile`, and `slre_match` of what it gives. -/
abbrev Slre := Option (Bytes -> Option (Bytes -> Bool))

def matchString (method : MatchMethod) (s pat : Bytes) (re : Option (Bytes -> Bool)) : Bool :=
  match method with
  | .ident => s = pat
  | .substr => s.tails.any fun t => pat.isPrefixOf t
  | .regex => re.any fun f => f s
  | .other => false

/-- `match_entry`; a pattern that does not compile ends it. -/
def matchEntry (slre : Slre) (flags : ExportFlags) (e : Entry) : List Bytes -> Bool
  | [] => false
  | arg :: argv =>
      match slre with
      | none =>
          (flags.matchKey && matchString flags.method e.key arg none) ||
            (flags.matchData && matchString flags.method e.data arg none) ||
            matchEntry slre flags e argv
      | some compile =>
          match compile arg with
          | none => false
          | some re =>
              (flags.matchKey && matchString flags.method e.key arg (some re)) ||
                (flags.matchData && matchString flags.method e.data arg (some re)) ||
                matchEntry slre flags e argv

/-- The test of the first pass for a used entry. -/
def exported (slre : Slre) (flags : ExportFlags) (argv : List Bytes) (e : Entry) : Bool :=
  (argv.isEmpty || matchEntry slre flags e argv) &&
    !(flags.hideDot && e.key.head? == some 46)

def exportList (slre : Slre) (flags : ExportFlags) (argv : List Bytes) (htab : Htab) :
    List Entry :=
  ((usedEntries htab).filter (exported slre flags argv)).insertionSort
    fun e1 e2 => strcmpLe e1.key e2.key = true

/-!
## Stores
-/

def storesFrom : Nat -> Bytes -> List (Nat × UInt8)
  | _, [] => []
  | p, c :: text => (p, c) :: storesFrom (p + 1) text

/-- The return value of `hexport_r`, the length of the buffer it has allocated and
its stores, in order. -/
structure Export where
  ret : Int
  allocated : Option Nat := none
  stores : List (Nat × UInt8) := []

/-- `hexport_r`; `given` tells that the caller supplies the buffer, and `calloc`
whether an allocation of a length succeeds. -/
def hexportStores (slre : Slre) (htab : Htab) (sep : UInt8) (flags : ExportFlags)
    (given : Bool) (calloc : Nat -> Bool) (size : Nat) (argv : List Bytes) : Export :=
  let list := exportList slre flags argv htab
  let totlen := (list.map (countedLength sep)).sum
  if size ≠ 0 ∧ size < totlen + 1 then { ret := -1 }
  else
    let size := if size ≠ 0 then size else totlen + 1
    let text := storesFrom 0 (exportText sep list ++ [0])
    if given then
      { ret := size, stores := storesFrom 0 (List.replicate size 0) ++ text }
    else if calloc size then { ret := size, allocated := some size, stores := text }
    else { ret := -1 }

/-- The stores of `env_export` to `env_out->data`, which has `ENV_SIZE` bytes. -/
def envExportStores (cfg : Config) (htab : Htab) : Export :=
  hexportStores none htab 0 {} true (fun _ => false) cfg.envSize []

section

variable {p : Nat} {text : Bytes}

theorem storesFrom_mem {s : Nat × UInt8} (h : s ∈ storesFrom p text) :
    p ≤ s.1 ∧ s.1 < p + text.length := by
  induction text generalizing p with
  | nil => cases h
  | cons c text ih =>
      rw [List.length_cons]
      rcases List.mem_cons.mp h with rfl | h
      · exact ⟨Nat.le_refl _, by dsimp only; lia⟩
      · have := ih h
        lia

theorem storesFrom_last (p : Nat) (text : Bytes) (c : UInt8) :
    (p + text.length, c) ∈ storesFrom p (text ++ [c]) := by
  induction text generalizing p with
  | nil => exact List.mem_cons_self
  | cons d text ih =>
      refine List.mem_cons_of_mem _ ?_
      have h := ih (p + 1)
      rwa [Nat.add_assoc, Nat.add_comm 1] at h

/-- The stores of a text that ends with a byte stay below a bound exactly if the
last of them does. -/
theorem storesFrom_below_iff (text : Bytes) (c : UInt8) (n : Nat) :
    (forall s, s ∈ storesFrom 0 (text ++ [c]) -> s.1 < n) <-> text.length < n := by
  constructor
  · intro h
    have hlast := h _ (storesFrom_last 0 text c)
    lia
  · intro h s hs
    have := storesFrom_mem hs
    rw [List.length_append, List.length_singleton] at this
    lia

end

def stored (stores : List (Nat × UInt8)) (buf : Nat -> UInt8) : Nat -> UInt8 :=
  stores.foldl (fun buf s => Function.update buf s.1 s.2) buf

theorem stored_storesFrom (buf : Nat -> UInt8) (p : Nat) (text : Bytes) :
    stored (storesFrom p text) buf = overwrite buf p text := by
  induction text generalizing p buf with
  | nil => simp [storesFrom, stored]
  | cons c text ih =>
      have hfirst : Function.update buf p c = overwrite buf p [c] := by
        funext a
        unfold overwrite
        by_cases ha : a = p
        · subst ha
          simp
        · rw [Function.update_of_ne ha, if_neg (by simp; lia)]
      show stored (storesFrom (p + 1) text) (Function.update buf p c) = _
      rw [ih, hfirst]
      exact overwrite_append buf p [c] text

theorem window_terminated (buf : Nat -> UInt8) (text : Bytes) (n : Nat) :
    window (overwrite (overwrite buf 0 (List.replicate n 0)) 0 (text ++ [0])) 0 n =
      (text ++ List.replicate (n - text.length) 0).take n := by
  apply List.ext_getElem?
  intro i
  by_cases hi : i < n
  · rw [window_getElem? _ _ _ _ hi, Nat.zero_add, List.getElem?_take_of_lt hi]
    rcases Nat.lt_trichotomy i text.length with hlt | heq | hgt
    · rw [List.getElem?_append_left hlt, List.getElem?_eq_getElem hlt]
      unfold overwrite
      rw [if_pos (by simp; lia), Nat.sub_zero, List.getD_append _ _ _ _ hlt,
        List.getD_eq_getElem _ _ hlt]
    · rw [List.getElem?_append_right (by lia), List.getElem?_replicate_of_lt (by lia)]
      unfold overwrite
      rw [if_pos (by simp; lia), Nat.sub_zero, List.getD_append_right _ _ _ _ (by lia), heq,
        Nat.sub_self]
      rfl
    · rw [List.getElem?_append_right (by lia), List.getElem?_replicate_of_lt (by lia),
        overwrite_of_ge (by simp; lia)]
      unfold overwrite
      rw [if_pos (by simpa using hi), Nat.sub_zero,
        List.getD_eq_getElem _ _ (by simpa using hi), List.getElem_replicate]
  · rw [List.getElem?_eq_none (by simpa using Nat.not_lt.mp hi),
      List.getElem?_eq_none (by rw [List.length_take]; lia)]

/-- Without a list of names, a buffer of the caller holds what `hexportR` gives. -/
theorem hexportStores_contents (slre : Slre) (htab : Htab) (sep : UInt8)
    (calloc : Nat -> Bool) (size : Nat) (buf : Nat -> UInt8) :
    match hexportR htab sep size with
    | none => (hexportStores slre htab sep {} true calloc size []).ret = -1
    | some data =>
        (hexportStores slre htab sep {} true calloc size []).ret = data.length ∧
          window (stored (hexportStores slre htab sep {} true calloc size []).stores buf) 0
            data.length = data := by
  have hlist : exportList slre {} [] htab = sortedEntries htab := by
    unfold exportList sortedEntries
    rw [List.filter_eq_self.mpr (fun e _ => by simp [exported])]
  unfold hexportStores hexportR
  rw [hlist]
  dsimp only
  split
  · rename_i hout
    split at hout
    · rename_i hsmall
      rw [if_pos hsmall]
    · cases hout
  · rename_i data hout
    split at hout
    · cases hout
    · rename_i hroom
      rw [if_neg hroom, if_pos rfl]
      have hswap : forall t, (if size ≠ 0 then size else t) = if size = 0 then t else size := by
        intro t
        split <;> simp_all
      rw [hswap]
      generalize (if size = 0 then _ else size) = n at hout ⊢
      generalize exportText sep (sortedEntries htab) = text at hout ⊢
      have hdata := (Option.some.inj hout).symm
      have hlen : data.length = n := by
        rw [hdata, List.length_take, List.length_append, List.length_replicate]
        lia
      refine ⟨by rw [hlen], ?_⟩
      dsimp only
      rw [stored, List.foldl_append, <- stored, <- stored, stored_storesFrom,
        stored_storesFrom, hlen, hdata]
      exact window_terminated buf text n

/-!
## The lengths of the two passes
-/

theorem mem_exportList {slre : Slre} {flags : ExportFlags} {argv : List Bytes}
    {htab : Htab} {e : Entry} (h : e ∈ exportList slre flags argv htab) :
    e ∈ usedEntries htab := by
  have hperm := List.perm_insertionSort (fun e1 e2 => strcmpLe e1.key e2.key = true)
    ((usedEntries htab).filter (exported slre flags argv))
  exact (List.mem_filter.mp (hperm.mem_iff.mp h)).left

theorem usedEntries_node {htab : Htab} {e : Entry} (h : e ∈ usedEntries htab) :
    exists i, e = ⟨(htab.table i).key, (htab.table i).data⟩ := by
  rcases List.mem_filterMap.mp h with ⟨i, _, hi⟩
  dsimp only at hi
  split at hi
  · exact ⟨i, (Option.some.inj hi).symm⟩
  · cases hi

/-- The escapes that the second pass writes and the first pass does not count. -/
def uncounted (sep : UInt8) (entries : List Entry) : Nat :=
  if sep = 0 then backslashes entries else 0

theorem exportText_length_eq {sep : UInt8} {entries : List Entry}
    (hdata : forall e, e ∈ entries -> 0 ∉ e.data) :
    (exportText sep entries).length =
      (entries.map (countedLength sep)).sum + uncounted sep entries := by
  unfold uncounted
  by_cases hsep : sep = 0
  · subst hsep
    rw [if_pos rfl, exportText_nul_length hdata]
    rfl
  · rw [if_neg hsep, exportText_sep_length hsep, Nat.add_zero]

/-- The export fails without a store, or all its stores are in the buffer; a
buffer that it allocates is as long as what it writes. -/
structure InBuffer (size : Nat) (out : Export) : Prop where
  failed : out.ret < 0 -> out.stores = []
  inside : 0 ≤ out.ret -> forall s, s ∈ out.stores ->
    s.1 < if size = 0 then out.allocated.getD 0 else size

def ExportFits (slre : Slre) (htab : Htab) (sep : UInt8) (flags : ExportFlags)
    (given : Bool) (calloc : Nat -> Bool) (size : Nat) (argv : List Bytes) : Prop :=
  let list := exportList slre flags argv htab
  let needed := (list.map (countedLength sep)).sum + 1
  let length := if size ≠ 0 then size else needed
  (size ≠ 0 ∧ size < needed) ∨ (given = false ∧ calloc length = false) ∨
    needed + uncounted sep list ≤ length

/-- For every table, separator, list of names and size, `hexport_r` stays in its
buffer exactly if it fails or the backslashes in the exported values, when the
separator is NUL, fit behind the length that was counted. -/
theorem hexport_in_buffer_iff (slre : Slre) (htab : Htab)
    (hdata : forall i, 0 ∉ (htab.table i).data) (sep : UInt8) (flags : ExportFlags)
    (given : Bool) (calloc : Nat -> Bool) (size : Nat) (argv : List Bytes)
    (hbuf : size = 0 -> given = false) :
    InBuffer size (hexportStores slre htab sep flags given calloc size argv) <->
      ExportFits slre htab sep flags given calloc size argv := by
  have hlen : (exportText sep (exportList slre flags argv htab)).length =
      ((exportList slre flags argv htab).map (countedLength sep)).sum +
        uncounted sep (exportList slre flags argv htab) := by
    refine exportText_length_eq (fun e he => ?_)
    rcases usedEntries_node (mem_exportList he) with ⟨i, rfl⟩
    exact hdata i
  unfold hexportStores ExportFits
  dsimp only
  generalize exportList slre flags argv htab = list at *
  generalize htot : (list.map (countedLength sep)).sum = totlen at *
  by_cases hsmall : size ≠ 0 ∧ size < totlen + 1
  · rw [if_pos hsmall]
    exact ⟨fun _ => .inl hsmall, fun _ => ⟨fun _ => rfl, fun h => absurd h (by decide)⟩⟩
  · rw [if_neg hsmall]
    have hbelow := storesFrom_below_iff (exportText sep list) 0
    generalize hn : (if size ≠ 0 then size else totlen + 1) = n at *
    cases given with
    | true =>
        have hsize : size ≠ 0 := fun h0 => absurd (hbuf h0) (by decide)
        rw [if_pos hsize] at hn
        subst hn
        constructor
        · intro h
          have hin := h.inside (by simp)
          have htext := (hbelow size).mp (fun s hs => by
            have hlt := hin s (List.mem_append_right _ hs)
            rwa [if_neg hsize] at hlt)
          exact .inr (.inr (by lia))
        · rintro (h | h | h)
          · exact absurd h hsmall
          · exact absurd h.left (by decide)
          · refine ⟨fun hneg => absurd hneg (by simp), fun _ s hs => ?_⟩
            rw [if_neg hsize]
            rcases List.mem_append.mp hs with hs | hs
            · have := storesFrom_mem hs
              rw [List.length_replicate] at this
              lia
            · exact (hbelow size).mpr (by lia) s hs
    | false =>
        rw [if_neg (by decide)]
        by_cases hcalloc : calloc n = true
        · rw [if_pos hcalloc]
          have hbound : (if size = 0 then n else size) = n := by
            rw [<- hn]
            split <;> simp_all
          constructor
          · intro h
            have htext := (hbelow n).mp (fun s hs => by
              have hlt := h.inside (by simp) s hs
              rwa [Option.getD_some, hbound] at hlt)
            exact .inr (.inr (by lia))
          · rintro (h | h | h)
            · exact absurd h hsmall
            · rw [hcalloc] at h
              exact absurd h.right (by decide)
            · refine ⟨fun hneg => absurd hneg (by simp), fun _ s hs => ?_⟩
              rw [Option.getD_some, hbound]
              exact (hbelow n).mpr (by lia) s hs
        · rw [if_neg hcalloc]
          rw [Bool.not_eq_true] at hcalloc
          exact ⟨fun _ => .inr (.inl ⟨rfl, hcalloc⟩),
            fun _ => ⟨fun _ => rfl, fun h => absurd h (by decide)⟩⟩

def backslashTable : Htab where
  size := 5
  filled := 1
  table := fun i => if i = 3 then { used := 3, key := str "a", data := [92] } else {}

theorem backslashTable_data (i : Nat) : 0 ∉ (backslashTable.table i).data := by
  unfold backslashTable
  dsimp only
  split
  · decide
  · decide

/-- Room for the escape that is not counted. -/
theorem hexport_in_buffer_backslash :
    InBuffer 6 (hexportStores none backslashTable 0 {} true (fun _ => true) 6 []) :=
  (hexport_in_buffer_iff none backslashTable backslashTable_data 0 {} true
    (fun _ => true) 6 [] (by decide)).mpr (.inr (.inr (by decide +kernel)))

/-- An environment of five bytes: the export of `a` with a backslash succeeds and
puts the final NUL behind `env_t`. -/
theorem env_export_overruns :
    (envExportStores ⟨5, 64, 512⟩ backslashTable).ret = 5 ∧
      (5, 0) ∈ (envExportStores ⟨5, 64, 512⟩ backslashTable).stores ∧
      ¬ InBuffer 5 (envExportStores ⟨5, 64, 512⟩ backslashTable) ∧
      (hexportStores none backslashTable 0 {} false (fun _ => true) 0 []).allocated =
        some 5 ∧
      ¬ InBuffer 0 (hexportStores none backslashTable 0 {} false (fun _ => true) 0 []) := by
  have hgiven : (5, 0) ∈ (envExportStores ⟨5, 64, 512⟩ backslashTable).stores := by
    decide +kernel
  have hnew : (5, 0) ∈
      (hexportStores none backslashTable 0 {} false (fun _ => true) 0 []).stores := by
    decide +kernel
  refine ⟨by decide +kernel, hgiven, fun h => ?_, by decide +kernel, fun h => ?_⟩
  · have hlt := h.inside (by decide +kernel) _ hgiven
    exact absurd hlt (by decide)
  · have hlt := h.inside (by decide +kernel) _ hnew
    revert hlt
    decide +kernel

end Env
end Hlk7621
