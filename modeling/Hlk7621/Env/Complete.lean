import Hlk7621.Env.FiniteMap
import Hlk7621.Env.Linear

/-!
# Completion of variable names

`hmatch_r` looks for the next entry whose key starts with a text, and
`env_complete` calls it until it finds no more.  The entries are in the slots from
one to the size of the table, and `hmatch_r` stops in front of the last one.
-/

namespace Hlk7621
namespace Env

/-!
## The code
-/

/-- The loop of `hmatch_r` from the index `idx` on; zero when there is no match. -/
def hmatchLoop (text : Bytes) (htab : Htab) : Nat -> Nat -> Nat
  | 0, _ => 0
  | fuel + 1, idx =>
      if idx < htab.size then
        if (htab.table idx).used ≤ 0 then hmatchLoop text htab fuel (idx + 1)
        else if text.isPrefixOf (htab.table idx).key then idx
        else hmatchLoop text htab fuel (idx + 1)
      else 0

def hmatchR (text : Bytes) (lastIdx : Nat) (htab : Htab) : Nat :=
  hmatchLoop text htab htab.size (lastIdx + 1)

/-- The indices that repeated calls return, from the index `lastIdx` on. -/
def hmatchAll (text : Bytes) (htab : Htab) : Nat -> Nat -> List Nat
  | 0, _ => []
  | fuel + 1, lastIdx =>
      let idx := hmatchR text lastIdx htab
      if idx = 0 then [] else idx :: hmatchAll text htab fuel idx

/-- The text that is completed: what stands behind the dollar sign. -/
def completeVar (dollarComp : Bool) (var : Bytes) : Option Bytes :=
  if dollarComp then
    match var with
    | 36 :: 123 :: rest => some rest
    | [36] => some []
    | _ => none
  else some var

def completion (dollarComp : Bool) (key : Bytes) : Bytes :=
  if dollarComp then 36 :: 123 :: (key ++ [125]) else key

/-- The loop of `env_complete`: the completions and the index it ends with. -/
def completeLoop (dollarComp : Bool) (text : Bytes) (maxv : Int) (htab : Htab) :
    Nat -> Nat -> Nat -> Int -> List Bytes × Nat
  | 0, idx, _, _ => ([], idx)
  | fuel + 1, idx, found, bufsz =>
      let idx := hmatchR text idx htab
      if idx = 0 then ([], 0)
      else
        let key := (htab.table idx).key
        let vallen : Int := key.length + 1
        if found ≥ maxv - 2 ∨ bufsz < vallen + (if dollarComp then 3 else 0) then ([], idx)
        else
          let r := completeLoop dollarComp text maxv htab fuel idx (found + 1)
            (bufsz - (if dollarComp then 3 else 0) - vallen)
          (completion dollarComp key :: r.1, r.2)

def envComplete (var : Bytes) (maxv bufsz : Int) (dollarComp : Bool) (htab : Htab) :
    List Bytes :=
  match completeVar dollarComp var with
  | none => []
  | some text =>
      let r := completeLoop dollarComp text maxv htab htab.size 0 0 bufsz
      (r.1.insertionSort fun a b => strcmpLe a b = true) ++
        (if r.2 ≠ 0 then [if dollarComp then str "$\x7b...\x7d" else str "..."] else [])

/-!
## The slots that are found
-/

section

variable (text : Bytes) (htab : Htab)

def Hit (i : Nat) : Bool :=
  decide (0 < (htab.table i).used) && text.isPrefixOf (htab.table i).key

/-- The slots behind `last` that `hmatch_r` looks at and finds. -/
def hits (last : Nat) : List Nat :=
  (List.range' (last + 1) (htab.size - (last + 1))).filter (Hit text htab)

variable {text htab}

theorem hmatchLoop_skip {fuel idx : Nat} (hlt : idx < htab.size)
    (hmiss : Hit text htab idx = false) :
    hmatchLoop text htab (fuel + 1) idx = hmatchLoop text htab fuel (idx + 1) := by
  rw [hmatchLoop, if_pos hlt]
  split
  · rfl
  · rename_i hused
    rw [if_neg]
    intro hpre
    rw [Hit, hpre, decide_eq_true (by lia)] at hmiss
    cases hmiss

theorem hmatchLoop_hit {fuel idx : Nat} (hlt : idx < htab.size)
    (hhit : Hit text htab idx = true) : hmatchLoop text htab (fuel + 1) idx = idx := by
  simp only [Hit, Bool.and_eq_true, decide_eq_true_eq] at hhit
  rw [hmatchLoop, if_pos hlt, if_neg (by lia), if_pos hhit.right]

theorem hmatchLoop_fuel {fuel idx : Nat} (h : htab.size ≤ idx + fuel) :
    hmatchLoop text htab (fuel + 1) idx = hmatchLoop text htab fuel idx := by
  induction fuel generalizing idx with
  | zero =>
      have hge : ¬ idx < htab.size := by lia
      simp only [hmatchLoop, if_neg hge]
  | succ fuel ih =>
      by_cases hlt : idx < htab.size
      · cases hhit : Hit text htab idx with
        | true => rw [hmatchLoop_hit hlt hhit, hmatchLoop_hit hlt hhit]
        | false =>
            rw [hmatchLoop_skip hlt hhit, hmatchLoop_skip hlt hhit]
            exact ih (by lia)
      · simp only [hmatchLoop, if_neg hlt]

theorem hmatchR_end {last : Nat} (h : htab.size ≤ last + 1) :
    hmatchR text last htab = 0 := by
  unfold hmatchR
  cases hsize : htab.size with
  | zero => rfl
  | succ n => rw [hmatchLoop, if_neg (by lia)]

theorem hmatchR_hit {last : Nat} (hlt : last + 1 < htab.size)
    (hhit : Hit text htab (last + 1) = true) : hmatchR text last htab = last + 1 := by
  unfold hmatchR
  cases hsize : htab.size with
  | zero => lia
  | succ n => exact hmatchLoop_hit (by lia) hhit

theorem hmatchR_skip {last : Nat} (hlt : last + 1 < htab.size)
    (hmiss : Hit text htab (last + 1) = false) :
    hmatchR text last htab = hmatchR text (last + 1) htab := by
  unfold hmatchR
  cases hsize : htab.size with
  | zero => lia
  | succ n =>
      rw [hmatchLoop_skip (by lia) hmiss]
      exact (hmatchLoop_fuel (by lia)).symm

theorem hits_end {last : Nat} (h : htab.size ≤ last + 1) : hits text htab last = [] := by
  unfold hits
  rw [Nat.sub_eq_zero_of_le h]
  rfl

theorem hits_step {last : Nat} (hlt : last + 1 < htab.size) :
    hits text htab last =
      if Hit text htab (last + 1) then (last + 1) :: hits text htab (last + 1)
      else hits text htab (last + 1) := by
  unfold hits
  have hlen : htab.size - (last + 1) = htab.size - (last + 1 + 1) + 1 := by lia
  rw [hlen, List.range'_succ, List.filter_cons]

theorem hmatchAll_hits {fuel last : Nat} (h : htab.size ≤ last + fuel) :
    hmatchAll text htab fuel last = hits text htab last := by
  -- by the number of slots behind the last one; a skipped slot needs no round
  generalize hn : htab.size - (last + 1) = n
  induction n generalizing last fuel with
  | zero =>
      rw [hits_end (by lia)]
      cases fuel with
      | zero => rfl
      | succ fuel => rw [hmatchAll, hmatchR_end (by lia), if_pos rfl]
  | succ n ih =>
      have hlt : last + 1 < htab.size := by lia
      rw [hits_step hlt]
      cases fuel with
      | zero => lia
      | succ fuel =>
          rw [hmatchAll]
          cases hhit : Hit text htab (last + 1) with
          | true =>
              rw [hmatchR_hit hlt hhit, if_neg (by lia), if_pos rfl,
                @ih fuel (last + 1) (by lia) (by lia)]
          | false =>
              rw [hmatchR_skip hlt hhit]
              exact @ih (fuel + 1) (last + 1) (by lia) (by lia)

/-!
## All variables are offered
-/

def roomFor (dollarComp : Bool) (htab : Htab) (slots : List Nat) : Int :=
  (slots.map fun i =>
    ((htab.table i).key.length : Int) + 1 + (if dollarComp then 3 else 0)).sum

theorem roomFor_cons (dollarComp : Bool) (i : Nat) (slots : List Nat) :
    roomFor dollarComp htab (i :: slots) =
      (htab.table i).key.length + 1 + (if dollarComp then 3 else 0) +
        roomFor dollarComp htab slots := rfl

theorem roomFor_nonneg (htab : Htab) (dollarComp : Bool) (slots : List Nat) :
    0 ≤ roomFor dollarComp htab slots := by
  induction slots with
  | nil => exact Int.le_refl 0
  | cons i slots ih =>
      rw [roomFor_cons]
      split <;> lia

theorem hmatchLoop_bounds {fuel idx : Nat} (h : hmatchLoop text htab fuel idx ≠ 0) :
    idx ≤ hmatchLoop text htab fuel idx ∧ hmatchLoop text htab fuel idx < htab.size := by
  induction fuel generalizing idx with
  | zero => exact absurd rfl h
  | succ fuel ih =>
      rw [hmatchLoop] at h ⊢
      split at h
      · rename_i hlt
        rw [if_pos hlt]
        split at h
        · rename_i hused
          rw [if_pos hused]
          have hrest := ih h
          exact ⟨by lia, hrest.right⟩
        · rename_i hused
          rw [if_neg hused]
          split at h
          · rename_i hpre
            rw [if_pos hpre]
            exact ⟨Nat.le_refl _, hlt⟩
          · rename_i hpre
            rw [if_neg hpre]
            have hrest := ih h
            exact ⟨by lia, hrest.right⟩
      · exact absurd rfl h

theorem hmatchR_bounds {last : Nat} (h : hmatchR text last htab ≠ 0) :
    last < hmatchR text last htab ∧ hmatchR text last htab < htab.size :=
  hmatchLoop_bounds h

theorem completeLoop_hits {dollarComp : Bool} {maxv bufsz : Int} {fuel last found : Nat}
    (hlast : last < htab.size) (h : htab.size ≤ last + fuel)
    (hmaxv : (found : Int) + (hmatchAll text htab fuel last).length + 2 ≤ maxv)
    (hbuf : roomFor dollarComp htab (hmatchAll text htab fuel last) ≤ bufsz) :
    completeLoop dollarComp text maxv htab fuel last found bufsz =
      ((hmatchAll text htab fuel last).map fun i =>
        completion dollarComp (htab.table i).key, 0) := by
  induction fuel generalizing last found bufsz with
  | zero => lia
  | succ fuel ih =>
      unfold completeLoop
      unfold hmatchAll at hmaxv hbuf ⊢
      have hbounds := @hmatchR_bounds text htab last
      dsimp only at hmaxv hbuf ⊢
      generalize hmatchR text last htab = idx at *
      by_cases hzero : idx = 0
      · rw [if_pos hzero, if_pos hzero]
        rfl
      · have hb := hbounds hzero
        rw [if_neg hzero] at hmaxv hbuf ⊢
        rw [if_neg hzero]
        rw [List.length_cons] at hmaxv
        rw [roomFor_cons] at hbuf
        have hnonneg := roomFor_nonneg htab dollarComp (hmatchAll text htab fuel idx)
        rw [if_neg (by push_cast at hmaxv; lia),
          @ih (bufsz - (if dollarComp then 3 else 0) - ((htab.table idx).key.length + 1)) idx
            (found + 1) hb.right (by lia) (by push_cast at hmaxv ⊢; lia) (by lia)]
        rfl

def wanted (text : Bytes) (htab : Htab) : List Nat :=
  (List.range' 1 htab.size).filter (Hit text htab)

theorem hit_iff (hw : Wf htab) (s : Nat) :
    Hit text htab s = true <->
      exists key value, cell htab s = .live key value ∧ text <+: key := by
  simp only [Hit, Bool.and_eq_true, decide_eq_true_eq, List.isPrefixOf_iff_prefix]
  constructor
  · rintro ⟨hused, hpre⟩
    refine ⟨(htab.table s).key, (htab.table s).data, ?_, hpre⟩
    unfold cell
    dsimp only
    rw [if_neg (by unfold USED_FREE; lia), if_neg (by unfold USED_DELETED; lia)]
  · rintro ⟨key, value, hs, hpre⟩
    rcases cell_live hs with ⟨hfree, hdeleted, hkey, _⟩
    have hused := hw.hashed s hfree hdeleted
    have hfirst := Finset.mem_Icc.mp (firstHash_mem hw.size (htab.table s).key)
    rw [hkey]
    exact ⟨by lia, hpre⟩

theorem mem_wanted (hw : Wf htab) {s : Nat} :
    s ∈ wanted text htab <->
      exists key value, cell htab s = .live key value ∧ text <+: key := by
  unfold wanted
  rw [List.mem_filter, hit_iff hw, List.mem_range'_1]
  refine ⟨And.right, fun h => ⟨?_, h⟩⟩
  rcases h with ⟨key, value, hs, _⟩
  have hin := Finset.mem_Icc.mp (hw.inside s (cell_live hs).left)
  lia

theorem wanted_eq (text : Bytes) (hw : Wf htab) :
    wanted text htab =
      hits text htab 0 ++ if Hit text htab htab.size then [htab.size] else [] := by
  have hsize : 0 < htab.size := by
    have := Finset.mem_Icc.mp (firstHash_mem hw.size [])
    lia
  have hlen : htab.size = htab.size - 1 + 1 := by lia
  unfold wanted hits
  rw [hlen, List.range'_concat, List.filter_append, Nat.add_sub_cancel, Nat.zero_add,
    Nat.one_mul, Nat.add_comm 1 (htab.size - 1), List.filter_singleton, Bool.cond_eq_ite]

/-- Repeated calls from index zero return the slot of every variable whose name
starts with the text exactly once, and no other slot. -/
structure Enumerates (text : Bytes) (htab : Htab) : Prop where
  once : (hmatchAll text htab htab.size 0).Nodup
  all : forall s, s ∈ hmatchAll text htab htab.size 0 <->
    exists key value, cell htab s = .live key value ∧ text <+: key

/-- With buffers that suffice for all variables whose names start with the text,
`env_complete` offers each of them once and nothing else. -/
def Offers (text : Bytes) (htab : Htab) : Prop :=
  forall (dollarComp : Bool) (var : Bytes) (maxv bufsz : Int),
    completeVar dollarComp var = some text ->
    (wanted text htab).length + 2 ≤ maxv ->
    roomFor dollarComp htab (wanted text htab) ≤ bufsz ->
    (envComplete var maxv bufsz dollarComp htab).Nodup ∧
    forall name, name ∈ envComplete var maxv bufsz dollarComp htab <->
      exists s key value, cell htab s = .live key value ∧ text <+: key ∧
        name = completion dollarComp key

theorem completion_injective (dollarComp : Bool) :
    Function.Injective (completion dollarComp) := by
  intro a b h
  cases dollarComp with
  | false => exact h
  | true =>
      simp only [completion, if_true, List.cons.injEq, true_and] at h
      exact List.append_cancel_right h

theorem offers_of_hits (hw : Wf htab) (hlast : Hit text htab htab.size = false) :
    Offers text htab := by
  have hsize : 0 < htab.size := by
    have := Finset.mem_Icc.mp (firstHash_mem hw.size [])
    lia
  have hall : hmatchAll text htab htab.size 0 = wanted text htab := by
    rw [hmatchAll_hits (by lia), wanted_eq text hw, hlast]
    simp
  intro dollarComp var maxv bufsz hvar hmaxv hbuf
  have hloop : completeLoop dollarComp text maxv htab htab.size 0 0 bufsz =
      ((wanted text htab).map fun i => completion dollarComp (htab.table i).key, 0) := by
    rw [<- hall]
    refine completeLoop_hits hsize (by lia) ?_ (by rw [hall]; exact hbuf)
    rw [hall]
    push_cast
    lia
  unfold envComplete
  rw [hvar]
  dsimp only
  rw [hloop, if_neg (by simp), List.append_nil]
  have hperm := List.perm_insertionSort (fun a b => strcmpLe a b = true)
    ((wanted text htab).map fun i => completion dollarComp (htab.table i).key)
  rw [hperm.nodup_iff]
  refine ⟨?_, fun name => ?_⟩
  · -- keys are in one slot each
    refine List.Nodup.map_on ?_ (List.Nodup.filter _ List.nodup_range')
    intro s hs s' hs' heq
    rcases (mem_wanted hw).mp hs with ⟨key, value, h, _⟩
    rcases (mem_wanted hw).mp hs' with ⟨key', value', h', _⟩
    have hkey := completion_injective dollarComp heq
    rw [(cell_live h).2.2.1, (cell_live h').2.2.1] at hkey
    exact hw.probed.unique h (hkey ▸ h')
  · rw [hperm.mem_iff, List.mem_map]
    constructor
    · rintro ⟨s, hs, rfl⟩
      rcases (mem_wanted hw).mp hs with ⟨key, value, h, hpre⟩
      exact ⟨s, key, value, h, hpre, by rw [(cell_live h).2.2.1]⟩
    · rintro ⟨s, key, value, h, hpre, rfl⟩
      exact ⟨s, (mem_wanted hw).mpr ⟨key, value, h, hpre⟩, by rw [(cell_live h).2.2.1]⟩

theorem enumerates_iff (hw : Wf htab) :
    Enumerates text htab <-> Hit text htab htab.size = false := by
  have hcalls : hmatchAll text htab htab.size 0 = hits text htab 0 :=
    hmatchAll_hits (by lia)
  have hwanted := wanted_eq text hw
  constructor
  · intro h
    rw [Bool.eq_false_iff]
    intro hhit
    have hmem : htab.size ∈ hits text htab 0 := by
      rw [<- hcalls]
      exact (h.all htab.size).mpr ((hit_iff hw htab.size).mp hhit)
    unfold hits at hmem
    have := List.mem_range'_1.mp (List.mem_filter.mp hmem).left
    lia
  · intro hlast
    rw [hlast, if_neg (by decide), List.append_nil] at hwanted
    refine ⟨?_, fun s => ?_⟩
    · rw [hcalls]
      exact List.Nodup.filter _ List.nodup_range'
    · rw [hcalls, <- hwanted]
      exact mem_wanted hw

end

/-- In every table that a run leads to, the enumeration of the variables whose
names start with a text is complete, and `env_complete` offers all of them in
buffers that suffice, exactly if none of them is in the last slot. -/
theorem prefix_enumeration_iff (nel : Nat) (ops : List Op) (hnel : 2 ≤ nel)
    (hlt : nel < 2 ^ 32) (text : Bytes) :
    exists htab m, run ops (hcreateR nel, fun _ => none) = some (htab, m) ∧
      (Enumerates text htab ∧ Offers text htab <->
        forall key value, cell htab htab.size = .live key value -> ¬ text <+: key) := by
  rcases run_spec (wf_hcreateR hnel hlt) (represents_hcreateR nel) ops with
    ⟨htab, m, hrun, hw, _⟩
  refine ⟨htab, m, hrun, ?_⟩
  have hlast : Hit text htab htab.size = false <->
      forall key value, cell htab htab.size = .live key value -> ¬ text <+: key := by
    rw [Bool.eq_false_iff, Ne, hit_iff hw]
    grind
  rw [<- hlast]
  refine ⟨fun h => (enumerates_iff hw).mp h.left, fun h => ?_⟩
  exact ⟨(enumerates_iff hw).mpr h, offers_of_hits hw h⟩

def collidingOps : List Op :=
  [.enter (str "b") (str "1"), .enter (str "g") (str "2"), .enter (str "l") (str "3")]

theorem prefix_enumeration_colliding :
    exists htab m, run collidingOps (hcreateR 2, fun _ => none) = some (htab, m) ∧
      (Enumerates (str "g") htab ∧ Offers (str "g") htab <->
        forall key value, cell htab htab.size = .live key value -> ¬ str "g" <+: key) :=
  prefix_enumeration_iff 2 collidingOps (by decide) (by decide) (str "g")

/-- The third name is in the last slot, and no call returns it. -/
theorem prefix_enumeration_misses_last :
    exists htab m, run collidingOps (hcreateR 2, fun _ => none) = some (htab, m) ∧
      cell htab 5 = .live (str "l") (str "3") ∧
      hmatchAll (str "l") htab htab.size 0 = [] ∧
      envComplete (str "l") 10 100 false htab = [] ∧ ¬ Enumerates (str "l") htab := by
  have hrun : (run collidingOps (hcreateR 2, fun _ => none)).map (fun r =>
      (r.1.table 5, hmatchAll (str "l") r.1 r.1.size 0,
        envComplete (str "l") 10 100 false r.1)) =
      some ({ used := 4, key := str "l", data := str "3" }, [], []) := by
    decide +kernel
  cases hout : run collidingOps (hcreateR 2, fun _ => none) with
  | none =>
      rw [hout] at hrun
      cases hrun
  | some r =>
      rw [hout] at hrun
      simp only [Option.map_some, Option.some.injEq, Prod.mk.injEq] at hrun
      have hcell : cell r.1 5 = .live (str "l") (str "3") := by
        unfold cell
        rw [hrun.left]
        rfl
      refine ⟨r.1, r.2, rfl, hcell, hrun.right.left, hrun.right.right, fun h => ?_⟩
      have hmem := (h.all 5).mpr ⟨_, _, hcell, List.prefix_refl _⟩
      rw [hrun.right.left] at hmem
      cases hmem

end Env
end Hlk7621
