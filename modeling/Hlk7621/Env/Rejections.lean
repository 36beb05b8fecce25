import Hlk7621.Env.FiniteMap
import Hlk7621.Env.Set

/-!
# Refused and failed operations

`hsearch_r` and `hdelete_r` with the hooks that can refuse a change and with
allocations that can fail.  A key or a value is NULL where `strdup` has failed, and
where an entry has been freed.  A refused change leaves the variables as they were;
a failed copy leaves a live slot with a NULL pointer.
-/

namespace Hlk7621
namespace Env
namespace Hooked

open Probing

/-!
## The code
-/

def EPERM : Int := 1
def ESRCH : Int := 3
def ENOMEM : Int := 12
def EINVAL : Int := 22

/-- The callback of an entry: its answer to a name, a value, an operation and the
flags of the call. -/
abbrev Callback := Bytes -> Option Bytes -> EnvOp -> Int -> Int

/-- `struct env_entry_node`. -/
structure Node where
  used : Int := USED_FREE
  key : Option Bytes := none
  data : Option Bytes := none
  callback : Option Callback := none
  flags : Nat := 0

/-- The hook of a table: its answer to an entry, a new value, an operation and the
flags of the call. -/
abbrev ChangeOk := Node -> Option Bytes -> EnvOp -> Int -> Int

/-- `struct hsearch_data`. -/
structure Htab where
  size : Nat
  filled : Nat
  table : Nat -> Node
  changeOk : Option ChangeOk := none

/-- What surrounds a call: `env_callback_init`, `env_flags_init`, the flag
`in_callback`, and which copies of `strdup` succeed, in their order. -/
structure Context where
  callbackInit : Bytes -> Option Callback
  flagsInit : Bytes -> Nat
  inCallback : Bool
  strdup : Nat -> Bool

variable (C : Context) (htab : Htab)

def copy (n : Nat) (text : Bytes) : Option Bytes := if C.strdup n then some text else none

def setNode (idx : Nat) (node : Node) : Htab :=
  { htab with table := Function.update htab.table idx node }

def changeRefused (node : Node) (value : Option Bytes) (op : EnvOp) (flag : Int) : Bool :=
  htab.changeOk.any fun f => f node value op flag != 0

def doCallback (node : Node) (name : Bytes) (value : Option Bytes) (op : EnvOp)
    (flag : Int) : Int :=
  match node.callback with
  | none => 0
  | some f => if C.inCallback then 0 else f name value op flag

/-- The return value of `hsearch_r`, the entry that `retval` points to, `errno` if it
is set, and the table. -/
structure Found where
  ret : Nat
  entry : Option Nat
  errno : Option Int
  htab : Htab

/-- `_compare_and_overwrite_entry`: `none` to keep searching. -/
def compareAndOverwriteEntry (item : Entry) (action : EnvAction) (flag : Int)
    (hval idx : Nat) : Option Found :=
  let node := htab.table idx
  -- the source compares strings, which a key that is NULL does not admit
  if node.used = hval ∧ node.key = some item.key then
    if action = .enter then
      if changeRefused htab node (some item.data) .overwrite flag then
        some ⟨0, none, some EPERM, htab⟩
      else if doCallback C node item.key (some item.data) .overwrite flag ≠ 0 then
        some ⟨0, none, some EINVAL, htab⟩
      else
        let htab' := setNode htab idx { node with data := copy C 0 item.data }
        if (copy C 0 item.data).isNone then some ⟨0, none, some ENOMEM, htab'⟩
        else some ⟨idx, some idx, none, htab'⟩
    else some ⟨idx, some idx, none, htab⟩
  else none

inductive Probe where
  | done (found : Found)
  | bucket (idx firstDeleted : Nat)

def probeLoop (item : Entry) (action : EnvAction) (flag : Int) (hval hval2 : Nat) :
    Nat -> Nat -> Nat -> Option Probe
  | 0, _, _ => none
  | fuel + 1, idx, firstDeleted =>
      let idx :=
        if idx ≤ hval2 then u32 (htab.size + idx - hval2) else idx - hval2
      if idx = hval then some (.bucket idx firstDeleted)
      else
        let firstDeleted :=
          if (htab.table idx).used = USED_DELETED ∧ firstDeleted = 0 then idx
          else firstDeleted
        match compareAndOverwriteEntry C htab item action flag hval idx with
        | some found => some (.done found)
        | none =>
            if (htab.table idx).used = USED_FREE then
              some (.bucket idx firstDeleted)
            else probeLoop item action flag hval hval2 fuel idx firstDeleted

def probe (item : Entry) (action : EnvAction) (flag : Int) : Option Probe :=
  let hval := firstHash htab.size item.key
  let node := htab.table hval
  if node.used = USED_FREE then some (.bucket hval 0)
  else
    match compareAndOverwriteEntry C htab item action flag hval hval with
    | some found => some (.done found)
    | none =>
        probeLoop C htab item action flag hval (secondHash htab.size hval) htab.size hval
          (if node.used = USED_DELETED then hval else 0)

/-- `_hdelete`: the slot is marked, and what it points to is freed. -/
def hdelete (idx : Nat) : Htab :=
  { setNode htab idx { htab.table idx with
      used := USED_DELETED, key := none, data := none, flags := 0 } with
    filled := htab.filled - 1 }

/-- A new entry at `idx`: the slot is claimed before its copies are tested. -/
def newEntry (item : Entry) (flag : Int) (idx : Nat) : Found :=
  let node : Node :=
    { htab.table idx with
      used := firstHash htab.size item.key
      key := copy C 0 item.key
      data := copy C 1 item.data }
  let claimed := setNode htab idx node
  if node.key.isNone || node.data.isNone then ⟨0, none, some ENOMEM, claimed⟩
  else
    let node :=
      { node with callback := C.callbackInit item.key, flags := C.flagsInit item.key }
    let htab' := { setNode htab idx node with filled := htab.filled + 1 }
    if changeRefused htab' node (some item.data) .create flag then
      ⟨0, none, some EPERM, hdelete htab' idx⟩
    else if doCallback C node item.key (some item.data) .create flag ≠ 0 then
      ⟨0, none, some EINVAL, hdelete htab' idx⟩
    else ⟨1, some idx, none, htab'⟩

def hsearchR (item : Entry) (action : EnvAction) (flag : Int) : Option Found :=
  match probe C htab item action flag with
  | none => none
  | some (.done found) => some found
  | some (.bucket idx firstDeleted) =>
      if action = .enter then
        if htab.filled = htab.size then some ⟨0, none, some ENOMEM, htab⟩
        else some (newEntry C htab item flag (if firstDeleted ≠ 0 then firstDeleted else idx))
      else some ⟨0, none, some ESRCH, htab⟩

def hdeleteR (key : Bytes) (flag : Int) : Option (Int × Htab) :=
  match hsearchR C htab ⟨key, []⟩ .find 0 with
  | none => none
  | some found =>
      if found.ret = 0 then some (-ENOENT, found.htab)
      else
        let node := found.htab.table found.ret
        if changeRefused found.htab node none .delete flag then some (-EPERM, found.htab)
        else if doCallback C node key none .delete flag ≠ 0 then
          some (-EINVAL, found.htab)
        else some (0, hdelete found.htab found.ret)

/-!
## Tables without NULL pointers
-/

/-- The table as it is where no pointer is NULL. -/
def Htab.plain (htab : Htab) : Env.Htab where
  size := htab.size
  filled := htab.filled
  table := fun s =>
    { used := (htab.table s).used,
      key := (htab.table s).key.getD [],
      data := (htab.table s).data.getD [] }

def NonNull (htab : Htab) : Prop :=
  forall s, 0 < (htab.table s).used ->
    (htab.table s).key ≠ none ∧ (htab.table s).data ≠ none

/-- What the operations keep: the slots are where searches find them, `filled` is
the number of live slots, and no live slot has a NULL pointer. -/
structure Sound (htab : Htab) : Prop where
  wf : Wf htab.plain
  nonNull : NonNull htab

section

variable {C htab} {item : Entry} {flag : Int}

@[simp] theorem plain_size : htab.plain.size = htab.size := rfl

@[simp] theorem plain_filled : htab.plain.filled = htab.filled := rfl

@[simp] theorem plain_used (s : Nat) : (htab.plain.table s).used = (htab.table s).used := rfl

theorem plain_setNode (idx filled : Nat) (node : Node) :
    Htab.plain { setNode htab idx node with filled := filled } =
      { htab.plain with
        filled := filled
        table := Function.update htab.plain.table idx
          { used := node.used, key := node.key.getD [], data := node.data.getD [] } } := by
  unfold Htab.plain setNode
  dsimp only
  congr 1
  funext s
  by_cases hs : s = idx
  · rw [hs, Function.update_self, Function.update_self]
  · rw [Function.update_of_ne hs, Function.update_of_ne hs]

theorem plain_hdelete (idx : Nat) : (hdelete htab idx).plain = Env.hdelete htab.plain idx :=
  plain_setNode idx (htab.filled - 1) _

theorem compare_none_iff (C : Context) (hs : Sound htab) (item : Entry)
    (action : EnvAction) (flag : Int) {hval : Nat} (hpos : 0 < hval) (idx : Nat) :
    compareAndOverwriteEntry C htab item action flag hval idx = none <->
      Env.compareAndOverwriteEntry item .find htab.plain hval idx = none := by
  have hmatch : (htab.table idx).used = hval ∧ (htab.table idx).key = some item.key <->
      (htab.plain.table idx).used = hval ∧ item.key = (htab.plain.table idx).key := by
    refine and_congr_right fun hused => ?_
    have hkey := (hs.nonNull idx (by lia)).left
    show _ <-> item.key = (htab.table idx).key.getD []
    cases hk : (htab.table idx).key with
    | none => exact absurd hk hkey
    | some key => simp [eq_comm]
  unfold compareAndOverwriteEntry Env.compareAndOverwriteEntry
  dsimp only
  by_cases h : (htab.table idx).used = hval ∧ (htab.table idx).key = some item.key
  · rw [if_pos h, if_pos (hmatch.mp h)]
    grind
  · rw [if_neg h, if_neg (fun h' => h (hmatch.mpr h'))]
    exact ⟨fun _ => rfl, fun _ => rfl⟩

/-- The two searches end alike: at the entry of the key, or at the same bucket. -/
def SameEnd (C : Context) (htab : Htab) (item : Entry) (action : EnvAction) (flag : Int)
    (hval : Nat) : Option Env.Probe -> Option Probe -> Prop
  | some (.found idx _), some (.done found) =>
      compareAndOverwriteEntry C htab item action flag hval idx = some found
  | some (.bucket idx firstDeleted), some (.bucket idx' firstDeleted') =>
      idx = idx' ∧ firstDeleted = firstDeleted'
  | none, none => True
  | _, _ => False

theorem compare_index {item : Entry} {htab : Env.Htab} {hval idx i : Nat}
    {htab' : Env.Htab}
    (h : Env.compareAndOverwriteEntry item .find htab hval idx = some (i, htab')) :
    i = idx := by
  unfold Env.compareAndOverwriteEntry at h
  dsimp only at h
  split at h
  · cases h
    rfl
  · cases h

theorem probeLoop_succ {action : EnvAction} {hval hval2 fuel idx firstDeleted s : Nat}
    (hs : (if idx ≤ hval2 then u32 (htab.size + idx - hval2) else idx - hval2) = s)
    (hne : s ≠ hval) :
    probeLoop C htab item action flag hval hval2 (fuel + 1) idx firstDeleted =
      match compareAndOverwriteEntry C htab item action flag hval s with
      | some found => some (.done found)
      | none =>
          let firstDeleted :=
            if (htab.table s).used = USED_DELETED ∧ firstDeleted = 0 then s
            else firstDeleted
          if (htab.table s).used = USED_FREE then some (.bucket s firstDeleted)
          else probeLoop C htab item action flag hval hval2 fuel s firstDeleted := by
  rw [probeLoop]
  simp only [hs, if_neg hne]

theorem probeLoop_same (hs : Sound htab) {hval : Nat} (hpos : 0 < hval)
    (action : EnvAction) (hval2 fuel idx firstDeleted : Nat) :
    SameEnd C htab item action flag hval
      (Env.probeLoop item .find htab.plain hval hval2 fuel idx firstDeleted)
      (probeLoop C htab item action flag hval hval2 fuel idx firstDeleted) := by
  induction fuel generalizing idx firstDeleted with
  | zero => trivial
  | succ fuel ih =>
      generalize hnext :
        (if idx ≤ hval2 then u32 (htab.size + idx - hval2) else idx - hval2) = s
      by_cases hback : s = hval
      · unfold Env.probeLoop probeLoop
        simp only [plain_size, hnext, if_pos hback]
        exact ⟨rfl, rfl⟩
      · rw [Env.probeLoop_succ hnext hback, probeLoop_succ hnext hback]
        have hiff := compare_none_iff C hs item action flag hpos s
        cases hold : Env.compareAndOverwriteEntry item .find htab.plain hval s with
        | none =>
            rw [hiff.mpr hold]
            by_cases hfree : (htab.table s).used = USED_FREE
            · have hfree' : (htab.plain.table s).used = USED_FREE := hfree
              dsimp only
              rw [if_pos hfree, if_pos hfree']
              exact ⟨rfl, rfl⟩
            · have hfree' : ¬ (htab.plain.table s).used = USED_FREE := hfree
              dsimp only
              rw [if_neg hfree, if_neg hfree']
              exact ih s _
        | some r =>
            cases hnew : compareAndOverwriteEntry C htab item action flag hval s with
            | none =>
                rw [hiff.mp hnew] at hold
                cases hold
            | some found =>
                have hi : r.1 = s := compare_index hold
                show compareAndOverwriteEntry C htab item action flag hval r.1 = some found
                rw [hi, hnew]

theorem probe_same (C : Context) (hs : Sound htab) (item : Entry) (action : EnvAction)
    (flag : Int) :
    SameEnd C htab item action flag (firstHash htab.size item.key)
      (Env.probe item .find htab.plain) (probe C htab item action flag) := by
  have hpos : 0 < firstHash htab.size item.key :=
    (Finset.mem_Icc.mp (firstHash_mem hs.wf.size item.key)).left
  unfold Env.probe probe
  have hiff := compare_none_iff C hs item action flag hpos (firstHash htab.size item.key)
  dsimp only
  by_cases hfree : (htab.table (firstHash htab.size item.key)).used = USED_FREE
  · have hfree' : (htab.plain.table (firstHash htab.size item.key)).used = USED_FREE := hfree
    rw [if_pos hfree, plain_size, if_pos hfree']
    exact ⟨rfl, rfl⟩
  · have hfree' : ¬ (htab.plain.table (firstHash htab.size item.key)).used = USED_FREE := hfree
    rw [if_neg hfree, plain_size, if_neg hfree']
    cases hold : Env.compareAndOverwriteEntry item .find htab.plain
        (firstHash htab.size item.key) (firstHash htab.size item.key) with
    | none =>
        rw [hiff.mpr hold]
        exact probeLoop_same hs hpos action _ _ _ _
    | some r =>
        cases hnew : compareAndOverwriteEntry C htab item action flag
            (firstHash htab.size item.key) (firstHash htab.size item.key) with
        | none =>
            rw [hiff.mp hnew] at hold
            cases hold
        | some found =>
            have hi : r.1 = firstHash htab.size item.key := compare_index hold
            show compareAndOverwriteEntry C htab item action flag _ r.1 = some found
            rw [hi, hnew]

/-!
## How a search ends
-/

def Live (htab : Htab) (s : Nat) (key : Bytes) : Prop :=
  0 < (htab.table s).used ∧ (htab.table s).key = some key

theorem live_iff (hs : Sound htab) {s : Nat} {key : Bytes} :
    Live htab s key <-> exists value, cell htab.plain s = .live key value := by
  refine ⟨?_, ?_⟩
  · rintro ⟨hused, hkey⟩
    have hfree : (htab.plain.table s).used ≠ USED_FREE := Int.ne_of_gt hused
    have hdeleted : (htab.plain.table s).used ≠ USED_DELETED := by
      show (htab.table s).used ≠ -1
      lia
    refine ⟨(htab.plain.table s).data, ?_⟩
    unfold cell
    dsimp only
    rw [if_neg hfree, if_neg hdeleted]
    show Cell.live ((htab.table s).key.getD []) _ = _
    rw [hkey]
    rfl
  · rintro ⟨value, h⟩
    rcases cell_live h with ⟨hfree, hdeleted, hkey, _⟩
    have hused : (htab.table s).used = firstHash htab.size _ := hs.wf.hashed s hfree hdeleted
    have hfirst := Finset.mem_Icc.mp (firstHash_mem hs.wf.size (htab.plain.table s).key)
    have hpos : 0 < (htab.table s).used := by
      rw [hused]
      exact Int.natCast_pos.mpr hfirst.left
    refine ⟨hpos, ?_⟩
    have hsome := (hs.nonNull s hpos).left
    change (htab.table s).key.getD [] = key at hkey
    cases hk : (htab.table s).key with
    | none => exact absurd hk hsome
    | some key' =>
        rw [hk] at hkey
        exact congrArg some hkey

/-- How the probing ends: at the slot of the key with what the comparison gives, or
at a slot where a missing key can be put unless the table is full. -/
inductive ProbeEnd (C : Context) (htab : Htab) (item : Entry) (action : EnvAction)
    (flag : Int) : Probe -> Prop where
  | done {s : Nat} {value : Bytes} {found : Found}
      (h : cell htab.plain s = .live item.key value)
      (result : compareAndOverwriteEntry C htab item action flag
        (firstHash htab.size item.key) s = some found) :
      ProbeEnd C htab item action flag (.done found)
  | bucket {idx firstDeleted : Nat} (h : Missing htab.plain item.key)
      (vacant : htab.filled ≠ htab.size ->
        Vacant htab.plain item.key (if firstDeleted ≠ 0 then firstDeleted else idx)) :
      ProbeEnd C htab item action flag (.bucket idx firstDeleted)

theorem probe_end (C : Context) (hs : Sound htab) (item : Entry) (action : EnvAction)
    (flag : Int) :
    exists p, probe C htab item action flag = some p ∧
      ProbeEnd C htab item action flag p := by
  rcases probe_spec hs.wf item .find with ⟨p, hp, hend⟩
  have hsame := probe_same C hs item action flag
  rw [hp] at hsame
  generalize probe C htab item action flag = r at hsame ⊢
  cases hend with
  | found h =>
      match r, hsame with
      | some (.done found), hsame => exact ⟨_, rfl, .done h hsame⟩
  | bucket h vacant =>
      match r, hsame with
      | some (.bucket _ _), ⟨rfl, rfl⟩ => exact ⟨_, rfl, .bucket h vacant⟩

def OverwriteRefused (C : Context) (htab : Htab) (item : Entry) (flag : Int) (s : Nat) :
    Prop :=
  changeRefused htab (htab.table s) (some item.data) .overwrite flag = true ∨
    doCallback C (htab.table s) item.key (some item.data) .overwrite flag ≠ 0

def CopyFails (C : Context) (htab : Htab) (item : Entry) (flag : Int) : Prop :=
  (exists s, Live htab s item.key ∧ ¬ OverwriteRefused C htab item flag s ∧
    C.strdup 0 = false) ∨
  ((forall s, ¬ Live htab s item.key) ∧ htab.filled ≠ htab.size ∧
    (C.strdup 0 = false ∨ C.strdup 1 = false))

def lookup (htab : Htab) (C : Context) (key : Bytes) : Option (Option (Option Bytes)) :=
  (hsearchR C htab ⟨key, []⟩ .find 0).map fun found =>
    found.entry.map fun idx => (found.htab.table idx).data

/-!
## Entering
-/

def entered (C : Context) (htab : Htab) (item : Entry) (idx : Nat) : Htab :=
  { setNode htab idx { htab.table idx with
      used := firstHash htab.size item.key, key := some item.key, data := some item.data,
      callback := C.callbackInit item.key, flags := C.flagsInit item.key } with
    filled := htab.filled + 1 }

def claimed (C : Context) (htab : Htab) (item : Entry) (idx : Nat) : Htab :=
  setNode htab idx { htab.table idx with
    used := firstHash htab.size item.key, key := copy C 0 item.key, data := copy C 1 item.data }

inductive EnterEnd (C : Context) (htab : Htab) (item : Entry) (flag : Int) : Found -> Prop where
  | refused {s : Nat} {errno : Option Int} (live : Live htab s item.key)
      (hrefused : OverwriteRefused C htab item flag s) :
      EnterEnd C htab item flag ⟨0, none, errno, htab⟩
  | lost {s : Nat} (live : Live htab s item.key)
      (accepted : ¬ OverwriteRefused C htab item flag s) (fails : C.strdup 0 = false) :
      EnterEnd C htab item flag
        ⟨0, none, some ENOMEM, setNode htab s { htab.table s with data := none }⟩
  | overwritten {s : Nat} (live : Live htab s item.key) (copied : C.strdup 0 = true) :
      EnterEnd C htab item flag
        ⟨s, some s, none, setNode htab s { htab.table s with data := some item.data }⟩
  | full (h : Missing htab.plain item.key) (full : htab.filled = htab.size) :
      EnterEnd C htab item flag ⟨0, none, some ENOMEM, htab⟩
  | broken {s : Nat} (h : Missing htab.plain item.key) (room : htab.filled ≠ htab.size)
      (fails : C.strdup 0 = false ∨ C.strdup 1 = false) :
      EnterEnd C htab item flag ⟨0, none, some ENOMEM, claimed C htab item s⟩
  | undone {s : Nat} {errno : Option Int} (h : Missing htab.plain item.key)
      (vacant : Vacant htab.plain item.key s)
      (copied : C.strdup 0 = true ∧ C.strdup 1 = true) :
      EnterEnd C htab item flag ⟨0, none, errno, hdelete (entered C htab item s) s⟩
  | entered {s : Nat} (h : Missing htab.plain item.key)
      (vacant : Vacant htab.plain item.key s)
      (copied : C.strdup 0 = true ∧ C.strdup 1 = true) :
      EnterEnd C htab item flag ⟨1, some s, none, entered C htab item s⟩

theorem compare_enter (hs : Sound htab) {s : Nat} {found : Found} {value : Bytes}
    (h : cell htab.plain s = .live item.key value)
    (hfound : compareAndOverwriteEntry C htab item .enter flag
      (firstHash htab.size item.key) s = some found) :
    EnterEnd C htab item flag found := by
  have hlive : Live htab s item.key := (live_iff hs).mpr ⟨value, h⟩
  unfold compareAndOverwriteEntry at hfound
  dsimp only at hfound
  split at hfound
  · rw [if_pos rfl] at hfound
    split at hfound
    · rename_i hrefused
      cases hfound
      exact .refused hlive (Or.inl hrefused)
    · rename_i hchange
      split at hfound
      · rename_i hrefused
        cases hfound
        exact .refused hlive (Or.inr hrefused)
      · rename_i hcallback
        have haccepted : ¬ OverwriteRefused C htab item flag s := by
          rintro (h | h)
          · exact hchange h
          · exact hcallback h
        cases hcopy : C.strdup 0 with
        | false =>
            rw [copy, hcopy] at hfound
            cases hfound
            exact .lost hlive haccepted hcopy
        | true =>
            rw [copy, hcopy] at hfound
            cases hfound
            exact .overwritten hlive hcopy
  · cases hfound

theorem newEntry_end {s : Nat} (h : Missing htab.plain item.key)
    (room : htab.filled ≠ htab.size) (vacant : Vacant htab.plain item.key s) :
    EnterEnd C htab item flag (newEntry C htab item flag s) := by
  by_cases hcopied : C.strdup 0 = true ∧ C.strdup 1 = true
  · have hkey : copy C 0 item.key = some item.key := if_pos hcopied.left
    have hdata : copy C 1 item.data = some item.data := if_pos hcopied.right
    unfold newEntry
    dsimp only
    rw [hkey, hdata, if_neg (by simp)]
    split
    · exact .undone h vacant hcopied
    · split
      · exact .undone h vacant hcopied
      · exact .entered h vacant hcopied
  · have hfails : C.strdup 0 = false ∨ C.strdup 1 = false := by
      cases h0 : C.strdup 0 with
      | false => exact Or.inl rfl
      | true =>
          cases h1 : C.strdup 1 with
          | false => exact Or.inr rfl
          | true => exact absurd ⟨h0, h1⟩ hcopied
    have hnull : (copy C 0 item.key).isNone || (copy C 1 item.data).isNone := by
      rcases hfails with h | h
      · simp [copy, h]
      · simp [copy, h]
    unfold newEntry
    dsimp only
    rw [if_pos hnull]
    exact .broken h room hfails

theorem enter_end (C : Context) (hs : Sound htab) (item : Entry) (flag : Int) :
    exists found, hsearchR C htab item .enter flag = some found ∧
      EnterEnd C htab item flag found := by
  rcases probe_end C hs item .enter flag with ⟨p, hp, hend⟩
  unfold hsearchR
  rw [hp]
  cases hend with
  | done h hfound => exact ⟨_, rfl, compare_enter hs h hfound⟩
  | bucket h vacant =>
      dsimp only
      rw [if_pos rfl]
      by_cases hfull : htab.filled = htab.size
      · rw [if_pos hfull]
        exact ⟨_, rfl, .full h hfull⟩
      · rw [if_neg hfull]
        exact ⟨_, rfl, newEntry_end h hfull (vacant hfull)⟩

/-!
## Looking up and deleting
-/

theorem find_end (C : Context) (hs : Sound htab) (item : Entry) (flag : Int) :
    exists found, hsearchR C htab item .find flag = some found ∧ found.htab = htab ∧
      (found.ret = 0 ∧ found.entry = none ∧ Missing htab.plain item.key ∨
        found.ret ≠ 0 ∧ found.entry = some found.ret ∧
          exists value, cell htab.plain found.ret = .live item.key value) := by
  rcases probe_end C hs item .find flag with ⟨p, hp, hend⟩
  unfold hsearchR
  rw [hp]
  cases hend with
  | @done s value found h hfound =>
      unfold compareAndOverwriteEntry at hfound
      dsimp only at hfound
      split at hfound
      · cases hfound
        have hpos := Finset.mem_Icc.mp (hs.wf.inside s (cell_live h).left)
        exact ⟨_, rfl, rfl, Or.inr ⟨show s ≠ 0 by lia, rfl, value, h⟩⟩
      · cases hfound
  | bucket h _ => exact ⟨_, rfl, rfl, Or.inl ⟨rfl, rfl, h⟩⟩

theorem lookup_eq (C : Context) (hs : Sound htab) {m : Bytes -> Option Bytes}
    (hm : Represents htab.plain m) (key : Bytes) :
    lookup htab C key = some ((m key).map some) := by
  rcases find_end C hs ⟨key, []⟩ 0 with ⟨found, hfound, hsame, hend⟩
  unfold lookup
  rw [hfound, Option.map_some]
  rcases hend with ⟨_, hentry, hmissing⟩ | ⟨_, hentry, value, hcell⟩
  · rw [hentry, hm.missing.mp hmissing]
    rfl
  · have hused := ((live_iff hs).mpr ⟨value, hcell⟩).left
    have hdata : (htab.table found.ret).data = some value := by
      have hvalue : (htab.table found.ret).data.getD [] = value := (cell_live hcell).2.2.2
      cases hd : (htab.table found.ret).data with
      | none => exact absurd hd (hs.nonNull _ hused).right
      | some data =>
          rw [hd] at hvalue
          exact congrArg some hvalue
    rw [hentry, hsame, (hm key value).mpr ⟨_, hcell⟩]
    show some (some (htab.table found.ret).data) = _
    rw [hdata]
    rfl

/-!
## What the operations keep
-/

theorem NonNull.setNode (h : NonNull htab) {idx filled : Nat} {node : Node}
    (hnode : 0 < node.used -> node.key ≠ none ∧ node.data ≠ none) :
    NonNull { setNode htab idx node with filled := filled } := by
  intro s hs
  by_cases heq : s = idx
  · subst heq
    simp only [Hooked.setNode, Function.update_self] at hs ⊢
    exact hnode hs
  · simp only [Hooked.setNode, Function.update_of_ne heq] at hs ⊢
    exact h s hs

theorem plain_entered (C : Context) (item : Entry) (s : Nat) :
    (entered C htab item s).plain = Env.newEntry item htab.plain s :=
  plain_setNode s (htab.filled + 1) _

theorem Sound.entered (hs : Sound htab) (C : Context) {s : Nat}
    (h : Missing htab.plain item.key) (vacant : Vacant htab.plain item.key s) :
    Sound (entered C htab item s) := by
  refine ⟨?_, hs.nonNull.setNode (fun _ => ⟨by simp, by simp⟩)⟩
  rw [plain_entered]
  exact hs.wf.newEntry h vacant (probes_inside hs.wf.size vacant.reached.mem)

theorem Sound.hdelete (hs : Sound htab) {s : Nat} {key value : Bytes}
    (h : cell htab.plain s = .live key value) : Sound (hdelete htab s) := by
  refine ⟨?_, hs.nonNull.setNode (fun hpos => absurd hpos (show ¬ 0 < USED_DELETED by decide))⟩
  rw [plain_hdelete]
  exact hs.wf.hdelete h

theorem plain_overwritten (s : Nat) :
    (setNode htab s { htab.table s with data := some item.data }).plain =
      overwritten item .enter htab.plain s := by
  unfold overwritten
  rw [if_pos rfl]
  exact plain_setNode s htab.filled _

theorem Sound.overwritten (hs : Sound htab) {s : Nat} (h : Live htab s item.key) :
    Sound (setNode htab s { htab.table s with data := some item.data }) := by
  rcases (live_iff hs).mp h with ⟨value, hcell⟩
  refine ⟨?_, hs.nonNull.setNode (fun hpos => ⟨(hs.nonNull s hpos).left, by simp⟩)⟩
  rw [plain_overwritten s]
  exact hs.wf.overwritten .enter hcell

/-- What an operation keeps: the table is sound, and represents the same map if
the operation has failed. -/
structure Keeps (failed : Prop) (m : Bytes -> Option Bytes) (htab' : Htab) : Prop where
  sound : Sound htab'
  represents : exists m', Represents htab'.plain m' ∧ (failed -> m' = m)

theorem enter_keeps {m : Bytes -> Option Bytes} (hs : Sound htab)
    (hm : Represents htab.plain m) (hcopy : ¬ CopyFails C htab item flag) {found : Found}
    (h : EnterEnd C htab item flag found) : Keeps (found.ret = 0) m found.htab := by
  have hmissing : Missing htab.plain item.key -> forall s, ¬ Live htab s item.key :=
    fun h s hlive => ((live_iff hs).mp hlive).elim fun value hc => h s value hc
  cases h with
  | refused => exact ⟨hs, m, hm, fun _ => rfl⟩
  | lost live accepted fails => exact absurd (Or.inl ⟨_, live, accepted, fails⟩) hcopy
  | @overwritten s live =>
      rcases (live_iff hs).mp live with ⟨value, hcell⟩
      refine ⟨hs.overwritten live, Function.update m item.key (some item.data), ?_,
        fun hzero => ?_⟩
      · rw [plain_overwritten s]
        exact hm.overwritten hs.wf hcell
      · have hpos := Finset.mem_Icc.mp (hs.wf.inside s (cell_live hcell).left)
        exact absurd hzero (show s ≠ 0 by lia)
  | full => exact ⟨hs, m, hm, fun _ => rfl⟩
  | broken h room fails => exact absurd (Or.inr ⟨hmissing h, room, fails⟩) hcopy
  | @undone s _ h vacant =>
      have hnew := hm.newEntry hs.wf h vacant
      have hcell : cell (Env.newEntry item htab.plain s) s = .live item.key item.data := by
        rw [cell_newEntry hs.wf, Function.update_self]
      have hwf := (hs.entered C h vacant).wf
      rw [plain_entered] at hwf
      refine ⟨(hs.entered C h vacant).hdelete (by rw [plain_entered, hcell]), m, ?_,
        fun _ => rfl⟩
      have hback := hnew.delete hwf hcell
      rw [Function.update_idem, <- hm.missing.mp h, Function.update_eq_self] at hback
      rw [plain_hdelete, plain_entered]
      exact hback
  | @entered s h vacant =>
      refine ⟨hs.entered C h vacant, Function.update m item.key (some item.data), ?_,
        fun hzero => absurd hzero Nat.one_ne_zero⟩
      rw [plain_entered]
      exact hm.newEntry hs.wf h vacant

theorem enter_breaks (hs : Sound htab) (hcopy : CopyFails C htab item flag) {found : Found}
    (h : EnterEnd C htab item flag found) : found.ret = 0 ∧ ¬ NonNull found.htab := by
  have hunique : forall {s s'}, Live htab s item.key -> Live htab s' item.key -> s = s' := by
    intro s s' h h'
    rcases (live_iff hs).mp h with ⟨value, hc⟩
    rcases (live_iff hs).mp h' with ⟨value', hc'⟩
    exact hs.wf.probed.unique hc hc'
  have hmissing : Missing htab.plain item.key -> forall s, ¬ Live htab s item.key :=
    fun h s hlive => ((live_iff hs).mp hlive).elim fun value hc => h s value hc
  rcases hcopy with ⟨s, hlive, haccepted, hfails⟩ | ⟨hnone, hroom, hfails⟩
  · cases h with
    | refused live hrefused => exact absurd hrefused (hunique hlive live ▸ haccepted)
    | @lost s' live =>
        refine ⟨rfl, fun hnull => ?_⟩
        have hdata := (hnull s' (by simpa [setNode] using live.left)).right
        simp [setNode] at hdata
    | overwritten live copied => simp [hfails] at copied
    | full h => exact absurd hlive (hmissing h s)
    | broken h => exact absurd hlive (hmissing h s)
    | undone h => exact absurd hlive (hmissing h s)
    | entered h => exact absurd hlive (hmissing h s)
  · cases h with
    | refused live => exact absurd live (hnone _)
    | lost live => exact absurd live (hnone _)
    | overwritten live => exact absurd live (hnone _)
    | full h full => exact absurd full hroom
    | @broken s h =>
        refine ⟨rfl, fun hnull => ?_⟩
        have hpos := Finset.mem_Icc.mp (firstHash_mem hs.wf.size item.key)
        have hslot := hnull s (by
          simp only [claimed, setNode, Function.update_self]
          exact Int.natCast_pos.mpr hpos.left)
        simp only [claimed, setNode, Function.update_self, copy] at hslot
        rcases hfails with hf | hf
        · exact hslot.left (if_neg (by simp [hf]))
        · exact hslot.right (if_neg (by simp [hf]))
    | undone _ _ copied => simp [copied.left, copied.right] at hfails
    | entered _ _ copied => simp [copied.left, copied.right] at hfails

theorem delete_keeps {m : Bytes -> Option Bytes} (C : Context) (hs : Sound htab)
    (hm : Represents htab.plain m) (key : Bytes) (flag : Int) :
    exists r, hdeleteR C htab key flag = some r ∧ Keeps (r.1 ≠ 0) m r.2 := by
  rcases find_end C hs ⟨key, []⟩ 0 with ⟨found, hfound, hsame, hend⟩
  have hunchanged : forall failed, Keeps failed m htab :=
    fun _ => ⟨hs, m, hm, fun _ => rfl⟩
  unfold hdeleteR
  rw [hfound]
  dsimp only
  rw [hsame]
  rcases hend with ⟨hzero, _, _⟩ | ⟨hne, _, value, hcell⟩
  · rw [if_pos hzero]
    exact ⟨_, rfl, hunchanged _⟩
  · rw [if_neg hne]
    split
    · exact ⟨_, rfl, hunchanged _⟩
    · split
      · exact ⟨_, rfl, hunchanged _⟩
      · refine ⟨_, rfl, hs.hdelete hcell, Function.update m key none, ?_,
          fun hfailed => absurd rfl hfailed⟩
        rw [plain_hdelete]
        exact hm.delete hs.wf hcell

end

/-!
## Calls
-/

inductive Op where
  | enter (item : Entry)
  | find (key : Bytes)
  | delete (key : Bytes)

structure Call where
  op : Op
  flag : Int
  changeOk : Option ChangeOk
  context : Context

def Htab.hooked (htab : Htab) (call : Call) : Htab := { htab with changeOk := call.changeOk }

def exec (htab : Htab) (call : Call) : Option (Int × Htab) :=
  match call.op with
  | .enter item =>
      (hsearchR call.context (htab.hooked call) item .enter call.flag).map fun found =>
        (found.ret, found.htab)
  | .find key =>
      (hsearchR call.context (htab.hooked call) ⟨key, []⟩ .find call.flag).map fun found =>
        (found.ret, found.htab)
  | .delete key => hdeleteR call.context (htab.hooked call) key call.flag

def Call.Failed (call : Call) (ret : Int) : Prop :=
  match call.op with
  | .enter _ => ret = 0
  | .find _ => ret = 0
  | .delete _ => ret ≠ 0

def Call.LacksMemory (call : Call) (htab : Htab) : Prop :=
  match call.op with
  | .enter item => CopyFails call.context (htab.hooked call) item call.flag
  | .find _ => False
  | .delete _ => False

def hcreateR (nel : Nat) : Htab where
  size := (Env.hcreateR nel).size
  filled := 0
  table := fun _ => {}

inductive Reached (nel : Nat) : Htab -> Prop where
  | created : Reached nel (hcreateR nel)
  | call {htab : Htab} {r : Int × Htab} (h : Reached nel htab) (call : Call)
      (memory : ¬ call.LacksMemory htab) (result : exec htab call = some r) :
      Reached nel r.2

/-- Nothing has changed: every lookup gives the same, `filled` is the same and the
number of live slots, and no live slot has a NULL pointer. -/
structure Unchanged (htab htab' : Htab) : Prop where
  lookup : forall C key, lookup htab' C key = lookup htab C key
  filled : htab'.filled = htab.filled
  live : htab'.filled =
    ((Finset.Icc 1 htab'.size).filter fun s => 0 < (htab'.table s).used).card
  nonNull : NonNull htab'

section

variable {htab : Htab} {m : Bytes -> Option Bytes}

theorem Sound.live_count (hs : Sound htab) :
    htab.filled = ((Finset.Icc 1 htab.size).filter fun s => 0 < (htab.table s).used).card := by
  have hfilled : htab.filled = liveCount (Finset.Icc 1 htab.size) (cell htab.plain) :=
    hs.wf.filled
  rw [hfilled, liveCount]
  congr 1
  refine Finset.filter_congr fun s _ => ?_
  rw [Cell.isLive_iff]
  refine ⟨?_, fun hused => ?_⟩
  · rintro ⟨key, value, h⟩
    exact ((live_iff hs).mpr ⟨value, h⟩).left
  · rcases Option.ne_none_iff_exists'.mp (hs.nonNull s hused).left with ⟨key, hkey⟩
    exact ⟨key, (live_iff hs).mp ⟨hused, hkey⟩⟩

theorem Keeps.unchanged {failed : Prop} {htab' : Htab} (hs : Sound htab)
    (hm : Represents htab.plain m) (h : Keeps failed m htab') (hfailed : failed) :
    Unchanged htab htab' := by
  rcases h.represents with ⟨m', hm', hsame⟩
  rw [hsame hfailed] at hm'
  refine ⟨fun C key => ?_, ?_, h.sound.live_count, h.sound.nonNull⟩
  · rw [lookup_eq C h.sound hm', lookup_eq C hs hm]
  · exact (hm'.filled h.sound.wf).trans (hm.filled hs.wf).symm

theorem Sound.hooked (hs : Sound htab) (call : Call) : Sound (htab.hooked call) :=
  ⟨hs.wf, hs.nonNull⟩

theorem exec_keeps (hs : Sound htab) (hm : Represents htab.plain m) (call : Call)
    (hmemory : ¬ call.LacksMemory htab) :
    exists r, exec htab call = some r ∧ Keeps (call.Failed r.1) m r.2 := by
  rcases call with ⟨op, flag, changeOk, C⟩
  cases op with
  | enter item =>
      rcases enter_end C (hs.hooked ⟨.enter item, flag, changeOk, C⟩) item flag with
        ⟨found, hfound, hend⟩
      have hkeeps := enter_keeps (hs.hooked _) hm hmemory hend
      refine ⟨(found.ret, found.htab), by simp [exec, hfound], hkeeps.sound, ?_⟩
      rcases hkeeps.represents with ⟨m', hm', hsame⟩
      exact ⟨m', hm', fun h => hsame (Int.natCast_eq_zero.mp h)⟩
  | find key =>
      rcases find_end C (hs.hooked ⟨.find key, flag, changeOk, C⟩) ⟨key, []⟩ flag with
        ⟨found, hfound, hsame, _⟩
      refine ⟨(found.ret, found.htab), by simp [exec, hfound], ?_⟩
      rw [hsame]
      exact ⟨hs.hooked _, m, hm, fun _ => rfl⟩
  | delete key => exact delete_keeps C (hs.hooked _) hm key flag

theorem exec_breaks (hs : Sound htab) (call : Call) (hmemory : call.LacksMemory htab) :
    exists r, exec htab call = some r ∧ call.Failed r.1 ∧ ¬ NonNull r.2 := by
  rcases call with ⟨op, flag, changeOk, C⟩
  cases op with
  | enter item =>
      rcases enter_end C (hs.hooked ⟨.enter item, flag, changeOk, C⟩) item flag with
        ⟨found, hfound, hend⟩
      rcases enter_breaks (hs.hooked _) hmemory hend with ⟨hzero, hnull⟩
      exact ⟨(found.ret, found.htab), by simp [exec, hfound],
        Int.natCast_eq_zero.mpr hzero, hnull⟩
  | find key => exact absurd hmemory id
  | delete key => exact absurd hmemory id

theorem sound_hcreateR {nel : Nat} (hnel : 2 ≤ nel) (hlt : nel < 2 ^ 32) :
    Sound (hcreateR nel) :=
  ⟨wf_hcreateR hnel hlt, fun s hs => absurd hs (show ¬ 0 < USED_FREE by decide)⟩

theorem Reached.sound {nel : Nat} (hnel : 2 ≤ nel) (hlt : nel < 2 ^ 32)
    (h : Reached nel htab) : Sound htab ∧ exists m, Represents htab.plain m := by
  induction h with
  | created => exact ⟨sound_hcreateR hnel hlt, _, represents_hcreateR nel⟩
  | call _ call memory result ih =>
      rcases ih with ⟨hs, m, hm⟩
      rcases exec_keeps hs hm call memory with ⟨r', hr', hkeeps⟩
      rw [result] at hr'
      cases hr'
      rcases hkeeps.represents with ⟨m', hm', _⟩
      exact ⟨hkeeps.sound, m', hm'⟩

end

/-- In every table that calls with enough memory have made, every call ends, and its
failure leaves the table unchanged exactly if no copy that it asks for fails. -/
theorem failure_unchanged_iff {nel : Nat} (hnel : 2 ≤ nel) (hlt : nel < 2 ^ 32)
    {htab : Htab} (h : Reached nel htab) (call : Call) :
    exists r, exec htab call = some r ∧
      ((call.Failed r.1 -> Unchanged htab r.2) <-> ¬ call.LacksMemory htab) := by
  rcases h.sound hnel hlt with ⟨hs, m, hm⟩
  by_cases hmemory : call.LacksMemory htab
  · rcases exec_breaks hs call hmemory with ⟨r, hr, hfailed, hnull⟩
    refine ⟨r, hr, fun h => absurd (h hfailed).nonNull hnull, fun h => absurd hmemory h⟩
  · rcases exec_keeps hs hm call hmemory with ⟨r, hr, hkeeps⟩
    exact ⟨r, hr, fun _ => hmemory, fun _ hfailed => hkeeps.unchanged hs hm hfailed⟩

def plainContext : Context where
  callbackInit := fun _ => none
  flagsInit := fun _ => 0
  inCallback := false
  strdup := fun _ => true

def setA (value : Bytes) (C : Context) : Call := ⟨.enter ⟨str "a", value⟩, 0, none, C⟩

theorem reached_a : exists r, exec (hcreateR 2) (setA (str "1") plainContext) = some r ∧
    Reached 2 r.2 := by
  have hmemory : ¬ (setA (str "1") plainContext).LacksMemory (hcreateR 2) := by
    rintro (⟨_, _, _, h⟩ | ⟨_, _, h | h⟩)
    · cases h
    · cases h
    · cases h
  rcases exec_keeps (sound_hcreateR (by decide) (by decide)) (represents_hcreateR 2) _
    hmemory with ⟨r, hr, _⟩
  exact ⟨r, hr, .call .created _ hmemory hr⟩

def overwriteA (value : Bytes) (C : Context) : Call :=
  { setA value C with changeOk := some fun _ _ op _ => if op = .overwrite then 1 else 0 }

/-- A refused overwriting leaves the table with its entry. -/
theorem failure_unchanged_iff_enter :
    exists r r', exec (hcreateR 2) (setA (str "1") plainContext) = some r ∧
      exec r.2 (overwriteA (str "2") plainContext) = some r' ∧
      (overwriteA (str "2") plainContext).Failed r'.1 ∧ Unchanged r.2 r'.2 := by
  rcases reached_a with ⟨r, hr, hreached⟩
  have hmemory : ¬ (overwriteA (str "2") plainContext).LacksMemory r.2 := by
    rintro (⟨_, _, _, h⟩ | ⟨_, _, h | h⟩)
    · cases h
    · cases h
    · cases h
  have hrun : ((exec (hcreateR 2) (setA (str "1") plainContext)).bind fun r =>
      (exec r.2 (overwriteA (str "2") plainContext)).map fun r' => decide (r'.1 = 0)) =
        some true := by
    decide +kernel
  rw [hr] at hrun
  rcases failure_unchanged_iff (by decide) (by decide) hreached (overwriteA (str "2") plainContext)
    with ⟨r', hr', hiff⟩
  rw [Option.bind_some, hr', Option.map_some] at hrun
  have hzero : r'.1 = 0 := of_decide_eq_true (Option.some.inj hrun)
  have hfailed : (overwriteA (str "2") plainContext).Failed r'.1 := hzero
  exact ⟨r, r', hr, hr', hfailed, hiff.mpr hmemory hfailed⟩

/-- The value is lost when the copy of the new one fails. -/
theorem failed_overwrite_loses_value :
    exists r r', exec (hcreateR 2) (setA (str "1") plainContext) = some r ∧ Reached 2 r.2 ∧
      exec r.2 (setA (str "2") { plainContext with strdup := fun _ => false }) = some r' ∧
      r'.1 = 0 ∧
      lookup r.2 plainContext (str "a") = some (some (some (str "1"))) ∧
      lookup r'.2 plainContext (str "a") = some (some none) := by
  rcases reached_a with ⟨r, hr, hreached⟩
  have hrun : ((exec (hcreateR 2) (setA (str "1") plainContext)).bind fun r =>
      (exec r.2 (setA (str "2") { plainContext with strdup := fun _ => false })).map fun r' =>
        decide (r'.1 = 0) &&
          decide (lookup r.2 plainContext (str "a") = some (some (some (str "1")))) &&
          decide (lookup r'.2 plainContext (str "a") = some (some none))) = some true := by
    decide +kernel
  rw [hr] at hrun
  rcases Option.map_eq_some_iff.mp hrun with ⟨r', hr', htrue⟩
  rw [Bool.and_eq_true, Bool.and_eq_true] at htrue
  exact ⟨r, r', hr, hreached, hr', of_decide_eq_true htrue.left.left,
    of_decide_eq_true htrue.left.right, of_decide_eq_true htrue.right⟩

end Hooked
end Env
end Hlk7621
