import Hlk7621.Env.Hashtable
import Hlk7621.Lib.Probing
import Mathlib.Data.Set.Card

/-!
# The hash table is a finite map

The size of a table is prime, so the probes of every key pass all slots before
they come back to the first one.  Under the invariant `Wf` a search is the walk of
`Hlk7621.Lib.Probing` along these probes, and every run of insertions, searches
and deletions is a run of the map that the entered and deleted keys describe.
-/

namespace Hlk7621
namespace Env

open Probing

/-!
## The size of a table
-/

theorem isprimeLoop_minFac {number : Nat} (fuel : Nat) {div : Nat} (hodd : number % 2 = 1)
    (hlt : number < 2 ^ 32) (hcomposite : number.minFac ^ 2 ≤ number) (hdiv : div % 2 = 1)
    (hge : 3 ≤ div) (hle : div ≤ number.minFac) (hfuel : number.minFac < div + fuel) :
    isprimeLoop number fuel div = number.minFac := by
  induction fuel generalizing div with
  | zero => lia
  | succ fuel ih =>
      rw [isprimeLoop]
      by_cases heq : div = number.minFac
      · have hdvd : number % div = 0 := by
          rw [heq]
          exact Nat.mod_eq_zero_of_dvd (Nat.minFac_dvd number)
        rw [if_neg (fun h => h.right hdvd), heq]
      · have hless : div < number.minFac := Nat.lt_of_le_of_ne hle heq
        have hsquare : div * div < number := by
          calc div * div < number.minFac * number.minFac :=
                Nat.mul_lt_mul_of_lt_of_lt hless hless
            _ = number.minFac ^ 2 := (sq _).symm
            _ ≤ number := hcomposite
        have hndvd : number % div ≠ 0 := by
          intro hzero
          have := Nat.minFac_le_of_dvd (by lia) (Nat.dvd_of_mod_eq_zero hzero)
          lia
        have hfac : number.minFac % 2 = 1 := by
          rcases Nat.mod_two_eq_zero_or_one number.minFac with h | h
          · have h2 : 2 ∣ number :=
              Nat.dvd_trans (Nat.dvd_of_mod_eq_zero h) (Nat.minFac_dvd number)
            lia
          · exact h
        have hthrice : 3 * div ≤ div * div := Nat.mul_le_mul_right div hge
        have hsmall : div + 2 < 2 ^ 32 := by lia
        rw [u32_of_lt (by lia), if_pos ⟨hsquare, hndvd⟩, u32_of_lt hsmall]
        exact ih (by lia) (by lia) (by lia) (by lia)

theorem prime_of_isprime {number : Nat} (hodd : number % 2 = 1) (hne : number ≠ 1)
    (hlt : number < 2 ^ 32) (h : isprime number = true) : Nat.Prime number := by
  by_contra hcomposite
  have hsq := Nat.minFac_sq_le_self (by lia) hcomposite
  have hfac : 3 ≤ number.minFac := by
    have hprime := Nat.minFac_prime hne
    rcases Nat.lt_or_ge number.minFac 3 with hs | hg
    · have htwo : number.minFac = 2 := by
        have := hprime.two_le
        lia
      have h2 : 2 ∣ number := htwo ▸ Nat.minFac_dvd number
      lia
    · exact hg
  have hle : number.minFac ≤ number := Nat.minFac_le (by lia)
  have hloop := isprimeLoop_minFac number hodd hlt hsq (show 3 % 2 = 1 from rfl)
    (Nat.le_refl 3) hfac (by lia)
  rw [isprime, hloop] at h
  simp [Nat.mod_eq_zero_of_dvd (Nat.minFac_dvd number)] at h

theorem isprime_one : isprime 1 = true := by
  have h : ¬ u32 (3 * 3) < 1 := by
    rw [u32_of_lt (by decide)]
    decide
  simp [isprime, isprimeLoop, h]

theorem isprime_three : isprime 3 = false := by
  have h : ¬ u32 (3 * 3) < 3 := by
    rw [u32_of_lt (by decide)]
    decide
  simp [isprime, isprimeLoop, h]

theorem nextPrime_spec (fuel : Nat) {nel : Nat} (hodd : nel % 2 = 1) (hlt : nel < 2 ^ 32)
    (hfuel : 2 ^ 32 + 3 ≤ nel + 2 * fuel) :
    isprime (nextPrime fuel nel) = true ∧ nextPrime fuel nel % 2 = 1 ∧
      nextPrime fuel nel < 2 ^ 32 := by
  induction fuel generalizing nel with
  | zero => lia
  | succ fuel ih =>
      rw [nextPrime]
      split
      · rename_i hprime
        exact ⟨hprime, hodd, hlt⟩
      · by_cases hwrap : nel + 2 < 2 ^ 32
        · rw [u32_of_lt hwrap]
          exact ih (by lia) hwrap (by lia)
        · have hone : u32 (nel + 2) = 1 := by
            unfold u32
            lia
          have hpos : fuel = fuel - 1 + 1 := by lia
          rw [hone, hpos, nextPrime, if_pos isprime_one]
          exact ⟨isprime_one, rfl, by decide⟩

/-- The size comes out prime, or as one if the search has come round. -/
def GoodSize (size : Nat) : Prop :=
  size < 2 ^ 32 ∧ (size = 1 ∨ Nat.Prime size ∧ 5 ≤ size)

theorem hcreateR_size {nel : Nat} (hnel : 2 ≤ nel) (hlt : nel < 2 ^ 32) :
    GoodSize (hcreateR nel).size := by
  have hodd : (nel ||| 1) % 2 = 1 := by simp [Nat.or_mod_two_eq_one]
  have hor : (nel ||| 1) < 2 ^ 32 := Nat.or_lt_two_pow hlt (by decide)
  have hge : nel ≤ nel ||| 1 := Nat.left_le_or
  have hspec := nextPrime_spec (2 ^ 31) hodd hor (by lia)
  refine ⟨hspec.2.2, ?_⟩
  by_cases hone : (hcreateR nel).size = 1
  · exact Or.inl hone
  · have hprime := prime_of_isprime hspec.2.1 hone hspec.2.2 hspec.1
    have hthree : (hcreateR nel).size ≠ 3 := by
      intro h3
      have hp := hspec.1
      rw [show nextPrime (2 ^ 31) (nel ||| 1) = 3 from h3, isprime_three] at hp
      cases hp
    have htwo := hprime.two_le
    have hodd' : (hcreateR nel).size % 2 = 1 := hspec.2.1
    exact Or.inr ⟨hprime, by lia⟩

/-!
## Probes
-/

theorem firstHash_mem {size : Nat} (hsize : GoodSize size) (key : Bytes) :
    firstHash size key ∈ Finset.Icc 1 size := by
  have hpos : 0 < size := by
    rcases hsize.right with h | h
    · lia
    · lia
  have hmod := Nat.mod_lt (hashValue key) hpos
  rw [Finset.mem_Icc]
  unfold firstHash
  dsimp only
  split <;> lia

theorem secondHash_mem {size : Nat} (hlt : size < 2 ^ 32) (hge : 5 ≤ size) (hval : Nat) :
    0 < secondHash size hval ∧ secondHash size hval < size := by
  have hmod := Nat.mod_lt hval (by lia : 0 < size - 2)
  unfold secondHash
  rw [sub32_of_le (by lia) hlt, u32_of_lt (by lia)]
  lia

def probes (size : Nat) (key : Bytes) : List Nat :=
  List.iterate (down size (secondHash size (firstHash size key))) (firstHash size key) size

theorem mem_probes {size s : Nat} (hsize : GoodSize size) (key : Bytes)
    (hs : s ∈ Finset.Icc 1 size) : s ∈ probes size key := by
  have hfirst := firstHash_mem hsize key
  rcases hsize.right with hone | ⟨hprime, hge⟩
  · subst hone
    rw [Finset.mem_Icc] at hs hfirst
    have heq : s = firstHash 1 key := by lia
    rw [heq]
    exact List.mem_iterate.mpr ⟨0, Nat.one_pos, rfl⟩
  · have hsecond := secondHash_mem hsize.left hge (firstHash size key)
    exact mem_iterate_down hprime hsecond.left hsecond.right hfirst hs

theorem probes_inside {size s : Nat} {key : Bytes} (hsize : GoodSize size)
    (hs : s ∈ probes size key) : s ∈ Finset.Icc 1 size := by
  have hfirst := firstHash_mem hsize key
  rcases List.mem_iterate.mp hs with ⟨i, hi, rfl⟩
  rcases hsize.right with hone | ⟨_, hge⟩
  · have hzero : i = 0 := by lia
    rw [hzero]
    exact hfirst
  · have hsecond := secondHash_mem hsize.left hge (firstHash size key)
    exact iterate_down_mem hsecond.left hsecond.right hfirst i

/-!
## Tables
-/

def cell (htab : Htab) (s : Nat) : Cell Bytes Bytes :=
  let node := htab.table s
  if node.used = USED_FREE then .free
  else if node.used = USED_DELETED then .deleted
  else .live node.key node.data

structure Wf (htab : Htab) : Prop where
  size : GoodSize htab.size
  inside (s : Nat) (h : (htab.table s).used ≠ USED_FREE) : s ∈ Finset.Icc 1 htab.size
  hashed (s : Nat) (hfree : (htab.table s).used ≠ USED_FREE)
    (hdeleted : (htab.table s).used ≠ USED_DELETED) :
    (htab.table s).used = firstHash htab.size (htab.table s).key
  probed : WellProbed (probes htab.size) (cell htab)
  filled : htab.filled = liveCount (Finset.Icc 1 htab.size) (cell htab)

theorem cell_free {htab : Htab} {s : Nat} (h : cell htab s = .free) :
    (htab.table s).used = USED_FREE := by
  unfold cell at h
  dsimp only at h
  split at h
  · assumption
  · split at h <;> cases h

theorem cell_deleted {htab : Htab} {s : Nat} (h : cell htab s = .deleted) :
    (htab.table s).used = USED_DELETED := by
  unfold cell at h
  dsimp only at h
  split at h
  · cases h
  · split at h
    · assumption
    · cases h

theorem cell_live {htab : Htab} {s : Nat} {key value : Bytes}
    (h : cell htab s = .live key value) :
    (htab.table s).used ≠ USED_FREE ∧ (htab.table s).used ≠ USED_DELETED ∧
      (htab.table s).key = key ∧ (htab.table s).data = value := by
  unfold cell at h
  dsimp only at h
  split at h
  · cases h
  · rename_i hfree
    split at h
    · cases h
    · rename_i hdeleted
      cases h
      exact ⟨hfree, hdeleted, rfl, rfl⟩

theorem cell_update (htab : Htab) (idx filled : Nat) (node : Node) :
    cell { htab with filled := filled, table := Function.update htab.table idx node } =
      Function.update (cell htab) idx
        (if node.used = USED_FREE then .free
        else if node.used = USED_DELETED then .deleted
        else .live node.key node.data) := by
  funext s
  by_cases hs : s = idx
  · subst hs
    simp [cell]
  · simp [cell, hs]

/-!
## The search walks along the probes
-/

section

variable {item : Entry} {action : EnvAction} {htab : Htab}

def overwritten (item : Entry) (action : EnvAction) (htab : Htab) (idx : Nat) : Htab :=
  if action = .enter then
    { htab with
      table := Function.update htab.table idx { htab.table idx with data := item.data } }
  else htab

theorem compare_live (hw : Wf htab) {idx : Nat} {key value : Bytes}
    (h : cell htab idx = .live key value) :
    compareAndOverwriteEntry item action htab (firstHash htab.size item.key) idx =
      if key = item.key then some (idx, overwritten item action htab idx) else none := by
  rcases cell_live h with ⟨hfree, hdeleted, hkey, _⟩
  have hused := hw.hashed idx hfree hdeleted
  unfold compareAndOverwriteEntry overwritten
  dsimp only
  rw [hkey] at hused ⊢
  by_cases heq : key = item.key
  · rw [if_pos heq, if_pos ⟨by rw [hused, heq], heq.symm⟩]
    split <;> rfl
  · rw [if_neg heq, if_neg (fun hc => heq hc.right.symm)]

theorem compare_not_live (hw : Wf htab) {idx : Nat}
    (h : (htab.table idx).used = USED_FREE ∨ (htab.table idx).used = USED_DELETED) :
    compareAndOverwriteEntry item action htab (firstHash htab.size item.key) idx = none := by
  have hfirst := Finset.mem_Icc.mp (firstHash_mem hw.size item.key)
  unfold compareAndOverwriteEntry
  dsimp only
  rw [if_neg]
  rintro ⟨hused, _⟩
  rw [hused] at h
  unfold USED_FREE USED_DELETED at h
  lia

/-- The code's search and the walk end alike.  When all slots are live, the
bucket that the search ends at is not used. -/
def Agrees (item : Entry) (action : EnvAction) (htab : Htab) :
    Option Probe -> Outcome Nat -> Prop
  | some (.found idx htab'), .found s =>
      idx = s ∧ htab' = overwritten item action htab s
  | some (.bucket idx firstDeleted), .absent slot =>
      slot = none ∨ slot = some (if firstDeleted ≠ 0 then firstDeleted else idx)
  | _, _ => False

def deletedSlot (firstDeleted : Nat) : Option Nat :=
  if firstDeleted = 0 then none else some firstDeleted

theorem deletedSlot_or {firstDeleted idx : Nat} (hidx : idx ≠ 0) :
    (deletedSlot firstDeleted).or (some idx) =
      deletedSlot (if firstDeleted = 0 then idx else firstDeleted) := by
  unfold deletedSlot
  by_cases h : firstDeleted = 0
  · simp [h, hidx]
  · simp [h]

theorem deletedSlot_or_some (firstDeleted idx : Nat) :
    (deletedSlot firstDeleted).or (some idx) =
      some (if firstDeleted ≠ 0 then firstDeleted else idx) := by
  unfold deletedSlot
  by_cases h : firstDeleted = 0
  · simp [h]
  · simp [h]

theorem next_idx {size hval2 idx : Nat} (hsize : size < 2 ^ 32) (h0 : 0 < hval2)
    (hlt : hval2 < size) (hidx : idx ∈ Finset.Icc 1 size) :
    (if idx ≤ hval2 then u32 (size + idx - hval2) else idx - hval2) =
      down size hval2 idx := by
  have hdown := Finset.mem_Icc.mp (down_mem h0 hlt hidx)
  unfold down at hdown ⊢
  split
  · rename_i hle
    rw [if_pos hle] at hdown
    exact u32_of_lt (by lia)
  · rfl

theorem probeLoop_succ {hval hval2 fuel idx firstDeleted s : Nat}
    (hs : (if idx ≤ hval2 then u32 (htab.size + idx - hval2) else idx - hval2) = s)
    (hne : s ≠ hval) :
    probeLoop item action htab hval hval2 (fuel + 1) idx firstDeleted =
      match compareAndOverwriteEntry item action htab hval s with
      | some (idx, htab) => some (.found idx htab)
      | none =>
          let firstDeleted :=
            if (htab.table s).used = USED_DELETED ∧ firstDeleted = 0 then s
            else firstDeleted
          if (htab.table s).used = USED_FREE then some (.bucket s firstDeleted)
          else probeLoop item action htab hval hval2 fuel s firstDeleted := by
  cases hcompare : compareAndOverwriteEntry item action htab hval s with
  | none => simp only [probeLoop, hs, hcompare, if_neg hne]
  | some r => simp only [probeLoop, hs, hcompare, if_neg hne]

theorem probeLoop_walk (item : Entry) (action : EnvAction) (hw : Wf htab) {hval2 : Nat}
    (h0 : 0 < hval2) (hlt : hval2 < htab.size) {n idx : Nat} (firstDeleted : Nat)
    (hidx : idx ∈ Finset.Icc 1 htab.size)
    (hbefore : forall i, 0 < i -> i ≤ n ->
      (down htab.size hval2)^[i] idx ≠ firstHash htab.size item.key)
    (hback : (down htab.size hval2)^[n + 1] idx = firstHash htab.size item.key) :
    Agrees item action htab
      (probeLoop item action htab (firstHash htab.size item.key) hval2 (n + 1) idx
        firstDeleted)
      (walk (cell htab) item.key (deletedSlot firstDeleted)
        (List.iterate (down htab.size hval2) (down htab.size hval2 idx) n)) := by
  have hnext := next_idx hw.size.left h0 hlt hidx
  induction n generalizing idx firstDeleted with
  | zero =>
      rw [probeLoop]
      simp only [hnext]
      rw [if_pos (show down htab.size hval2 idx = _ from hback)]
      show deletedSlot firstDeleted = none ∨ deletedSlot firstDeleted = some _
      unfold deletedSlot
      by_cases hf : firstDeleted = 0
      · exact Or.inl (if_pos hf)
      · exact Or.inr (by simp [hf])
  | succ n ih =>
      have hs := down_mem h0 hlt hidx
      have hrest := fun fd => ih fd hs
        (fun i hi hin => hbefore (i + 1) (Nat.succ_pos i) (Nat.succ_le_succ hin)) hback
        (next_idx hw.size.left h0 hlt hs)
      have hne : down htab.size hval2 idx ≠ firstHash htab.size item.key :=
        hbefore 1 Nat.one_pos (by lia)
      have hpos : down htab.size hval2 idx ≠ 0 := by
        have := Finset.mem_Icc.mp hs
        lia
      rw [probeLoop_succ hnext hne, List.iterate, walk]
      generalize down htab.size hval2 idx = s at *
      cases hcell : cell htab s with
      | free =>
          have hused := cell_free hcell
          rw [compare_not_live hw (Or.inl hused)]
          simp only [hused, USED_FREE, USED_DELETED]
          exact Or.inr (deletedSlot_or_some firstDeleted s)
      | deleted =>
          have hused := cell_deleted hcell
          rw [compare_not_live hw (Or.inr hused)]
          simp only [hused, USED_FREE, USED_DELETED, true_and]
          rw [deletedSlot_or hpos]
          exact hrest _
      | live key value =>
          rcases cell_live hcell with ⟨hfree, hdeleted, _, _⟩
          rw [compare_live hw hcell]
          by_cases hkey : key = item.key
          · simp only [if_pos hkey]
            exact ⟨rfl, rfl⟩
          · simp only [if_neg hkey, if_neg hfree, hdeleted, false_and, if_false]
            exact hrest _

theorem probeLoop_one (item : Entry) (action : EnvAction) (hw : Wf htab)
    (hone : htab.size = 1) (firstDeleted : Nat) :
    Agrees item action htab
      (probeLoop item action htab (firstHash htab.size item.key)
        (secondHash htab.size (firstHash htab.size item.key)) 1
        (firstHash htab.size item.key) firstDeleted)
      (.absent (deletedSlot firstDeleted)) := by
  have hfirst : firstHash htab.size item.key = 1 := by
    have := Finset.mem_Icc.mp (firstHash_mem hw.size item.key)
    lia
  have hsecond : secondHash htab.size 1 = 2 := by
    rw [hone]
    decide +kernel
  have hnext : (if 1 ≤ 2 then u32 (htab.size + 1 - 2) else 1 - 2) = 0 := by
    rw [hone]
    decide +kernel
  have hzero : (htab.table 0).used = USED_FREE := by
    by_contra h
    have := Finset.mem_Icc.mp (hw.inside 0 h)
    lia
  have hcompare : compareAndOverwriteEntry item action htab 1 0 = none := by
    rw [<- hfirst]
    exact compare_not_live hw (Or.inl hzero)
  rw [hfirst, hsecond, probeLoop_succ hnext (by decide), hcompare]
  simp only [hzero, if_true]
  unfold deletedSlot
  by_cases hf : firstDeleted = 0
  · exact Or.inl (if_pos hf)
  · exact Or.inr (by simp [hf, USED_FREE, USED_DELETED])

theorem probeLoop_rest (item : Entry) (action : EnvAction) (hw : Wf htab) {n : Nat}
    (hn : htab.size = n + 1) (firstDeleted : Nat) :
    Agrees item action htab
      (probeLoop item action htab (firstHash htab.size item.key)
        (secondHash htab.size (firstHash htab.size item.key)) htab.size
        (firstHash htab.size item.key) firstDeleted)
      (walk (cell htab) item.key (deletedSlot firstDeleted)
        (List.iterate (down htab.size (secondHash htab.size (firstHash htab.size item.key)))
          (down htab.size (secondHash htab.size (firstHash htab.size item.key))
            (firstHash htab.size item.key)) n)) := by
  have hfirst := firstHash_mem hw.size item.key
  rcases hw.size.right with hone | ⟨hprime, hge⟩
  · have hnil : n = 0 := by lia
    have h := probeLoop_one item action hw hone firstDeleted
    subst hnil
    rw [show htab.size = 0 + 1 from hn] at h ⊢
    exact h
  · have hsecond := secondHash_mem hw.size.left hge (firstHash htab.size item.key)
    have h := probeLoop_walk item action hw hsecond.left hsecond.right firstDeleted hfirst
      (fun i hi (hin : i ≤ n) =>
        iterate_down_ne hprime hsecond.left hsecond.right hi (by lia : i < htab.size))
      (by
        rw [<- hn]
        exact iterate_down_size hsecond.left hsecond.right hfirst)
    rwa [<- hn] at h

theorem probe_walk (item : Entry) (action : EnvAction) (hw : Wf htab) :
    Agrees item action htab (probe item action htab)
      (walk (cell htab) item.key none (probes htab.size item.key)) := by
  have hfirst := Finset.mem_Icc.mp (firstHash_mem hw.size item.key)
  have hsize : htab.size = htab.size - 1 + 1 := by lia
  have hrest := probeLoop_rest item action hw hsize
  have hprobes : probes htab.size item.key = firstHash htab.size item.key ::
      List.iterate (down htab.size (secondHash htab.size (firstHash htab.size item.key)))
        (down htab.size (secondHash htab.size (firstHash htab.size item.key))
          (firstHash htab.size item.key)) (htab.size - 1) := by
    unfold probes
    generalize down htab.size (secondHash htab.size (firstHash htab.size item.key)) = f
    generalize firstHash htab.size item.key = a
    rw [hsize]
    rfl
  rw [hprobes, walk]
  unfold probe
  dsimp only
  cases hcell : cell htab (firstHash htab.size item.key) with
  | free =>
      rw [if_pos (cell_free hcell)]
      exact Or.inr rfl
  | deleted =>
      have hused := cell_deleted hcell
      rw [compare_not_live hw (Or.inr hused), hused]
      have h := hrest (firstHash htab.size item.key)
      rw [deletedSlot, if_neg (by lia)] at h
      exact h
  | live key value =>
      rcases cell_live hcell with ⟨hfree, hdeleted, _, _⟩
      rw [compare_live hw hcell, if_neg hfree, if_neg hdeleted]
      by_cases hkey : key = item.key
      · simp only [if_pos hkey]
        exact ⟨rfl, rfl⟩
      · simp only [if_neg hkey]
        exact hrest 0

/-!
## Operations
-/

def Missing (htab : Htab) (key : Bytes) : Prop :=
  forall s value, cell htab s ≠ .live key value

/-- A slot that is not live and that the search for the key passes. -/
structure Vacant (htab : Htab) (key : Bytes) (s : Nat) : Prop where
  empty : forall key' value, cell htab s ≠ .live key' value
  reached : Reached (cell htab) s (probes htab.size key)

/-- How a search ends: the key is found and its data overwritten on entry; it is
missing; or it is missing and entered, which fails in a full table. -/
inductive SearchEnd (item : Entry) (htab : Htab) : EnvAction -> Found -> Prop where
  | found {action : EnvAction} {s : Nat} {value : Bytes}
      (h : cell htab s = .live item.key value) :
      SearchEnd item htab action ⟨s, some s, overwritten item action htab s⟩
  | missing (h : Missing htab item.key) : SearchEnd item htab .find ⟨0, none, htab⟩
  | full (h : Missing htab item.key) (full : htab.filled = htab.size) :
      SearchEnd item htab .enter ⟨0, none, htab⟩
  | entered {s : Nat} (h : Missing htab item.key) (room : htab.filled ≠ htab.size)
      (vacant : Vacant htab item.key s) :
      SearchEnd item htab .enter ⟨1, some s, newEntry item htab s⟩

theorem filled_of_absent_none (hw : Wf htab) {key : Bytes}
    (h : walk (cell htab) key none (probes htab.size key) = .absent none) :
    htab.filled = htab.size := by
  rw [hw.filled, liveCount_full]
  · simp
  · intro x hx
    exact Cell.isLive_iff.mpr (walk_absent_none h (mem_probes hw.size key hx))

inductive ProbeEnd (item : Entry) (action : EnvAction) (htab : Htab) : Probe -> Prop where
  | found {s : Nat} {value : Bytes} (h : cell htab s = .live item.key value) :
      ProbeEnd item action htab (.found s (overwritten item action htab s))
  | bucket {idx firstDeleted : Nat} (h : Missing htab item.key)
      (vacant : htab.filled ≠ htab.size ->
        Vacant htab item.key (if firstDeleted ≠ 0 then firstDeleted else idx)) :
      ProbeEnd item action htab (.bucket idx firstDeleted)

theorem probe_spec (hw : Wf htab) (item : Entry) (action : EnvAction) :
    exists p, probe item action htab = some p ∧ ProbeEnd item action htab p := by
  have hagrees := probe_walk item action hw
  cases hwalk : walk (cell htab) item.key none (probes htab.size item.key) with
  | found s =>
      rw [hwalk] at hagrees
      rcases walk_found hwalk with ⟨value, hs⟩
      match hprobe : probe item action htab with
      | none =>
          rw [hprobe] at hagrees
          exact absurd hagrees id
      | some (.found idx htab') =>
          rw [hprobe] at hagrees
          rcases hagrees with ⟨rfl, rfl⟩
          exact ⟨_, rfl, .found hs⟩
      | some (.bucket _ _) =>
          rw [hprobe] at hagrees
          exact absurd hagrees id
  | absent slot =>
      rw [hwalk] at hagrees
      have hmissing : Missing htab item.key := hw.probed.missing hwalk
      match hprobe : probe item action htab with
      | none =>
          rw [hprobe] at hagrees
          exact absurd hagrees id
      | some (.found _ _) =>
          rw [hprobe] at hagrees
          exact absurd hagrees id
      | some (.bucket idx firstDeleted) =>
          rw [hprobe] at hagrees
          refine ⟨_, rfl, .bucket hmissing (fun hroom => ?_)⟩
          rcases hagrees with hnone | hsome
          · rw [hnone] at hwalk
            exact absurd (filled_of_absent_none hw hwalk) hroom
          · rw [hsome] at hwalk
            rcases walk_absent_some hwalk with hd | ⟨hempty, hreached⟩
            · cases hd
            · exact ⟨hempty, hreached⟩

theorem hsearchR_spec (hw : Wf htab) (item : Entry) (action : EnvAction) :
    exists found, hsearchR item action htab = some found ∧
      SearchEnd item htab action found := by
  rcases probe_spec hw item action with ⟨p, hprobe, hend⟩
  unfold hsearchR
  rw [hprobe]
  cases hend with
  | found h => exact ⟨_, rfl, .found h⟩
  | bucket hmissing hvacant =>
      cases action with
      | find => exact ⟨_, rfl, .missing hmissing⟩
      | enter =>
          dsimp only
          rw [if_pos rfl]
          by_cases hfull : htab.filled = htab.size
          · rw [if_pos hfull]
            exact ⟨_, rfl, .full hmissing hfull⟩
          · rw [if_neg hfull]
            exact ⟨_, rfl, .entered hmissing hfull (hvacant hfull)⟩

theorem Wf.put (hw : Wf htab) {s filled : Nat} {node : Node}
    (hs : s ∈ Finset.Icc 1 htab.size)
    (hhashed : node.used ≠ USED_FREE -> node.used ≠ USED_DELETED ->
      node.used = firstHash htab.size node.key)
    (hprobed : WellProbed (probes htab.size) (Function.update (cell htab) s
      (if node.used = USED_FREE then .free
      else if node.used = USED_DELETED then .deleted else .live node.key node.data)))
    (hfilled : filled = liveCount (Finset.Icc 1 htab.size) (Function.update (cell htab) s
      (if node.used = USED_FREE then .free
      else if node.used = USED_DELETED then .deleted else .live node.key node.data))) :
    Wf { htab with filled := filled, table := Function.update htab.table s node } := by
  refine ⟨hw.size, ?_, ?_, ?_, ?_⟩
  · intro x hx
    by_cases hxs : x = s
    · rw [hxs]
      exact hs
    · simp only [Function.update_of_ne hxs] at hx
      exact hw.inside x hx
  · intro x hfree hdeleted
    by_cases hxs : x = s
    · subst hxs
      simp only [Function.update_self] at hfree hdeleted ⊢
      exact hhashed hfree hdeleted
    · simp only [Function.update_of_ne hxs] at hfree hdeleted ⊢
      exact hw.hashed x hfree hdeleted
  · rw [cell_update]
    exact hprobed
  · rw [cell_update]
    exact hfilled

theorem firstHash_live (hw : Wf htab) (key : Bytes) :
    (firstHash htab.size key : Int) ≠ USED_FREE ∧
      (firstHash htab.size key : Int) ≠ USED_DELETED := by
  have hfirst := Finset.mem_Icc.mp (firstHash_mem hw.size key)
  unfold USED_FREE USED_DELETED
  lia

theorem Wf.overwritten (hw : Wf htab) (action : EnvAction) {s : Nat} {value : Bytes}
    (hs : cell htab s = .live item.key value) :
    Wf (overwritten item action htab s) := by
  rcases cell_live hs with ⟨hfree, hdeleted, hkey, _⟩
  unfold Env.overwritten
  split
  · refine hw.put (hw.inside s hfree) (fun _ _ => hw.hashed s hfree hdeleted) ?_ ?_
    · rw [if_neg hfree, if_neg hdeleted, hkey]
      refine hw.probed.put _ (hw.probed.reached hs) ?_
      intro x value' hx hlive
      exact hx (hw.probed.unique hlive hs)
    · rw [if_neg hfree, if_neg hdeleted, liveCount_update_same]
      · exact hw.filled
      · rw [hs]
        rfl
  · exact hw

theorem Wf.newEntry (hw : Wf htab) {s : Nat} (hmissing : Missing htab item.key)
    (hvacant : Vacant htab item.key s) (hs : s ∈ Finset.Icc 1 htab.size) :
    Wf (newEntry item htab s) := by
  rcases firstHash_live hw item.key with ⟨hfree, hdeleted⟩
  refine hw.put hs (fun _ _ => rfl) ?_ ?_
  · rw [if_neg hfree, if_neg hdeleted]
    exact hw.probed.put _ hvacant.reached (fun x value _ => hmissing x value)
  · have hold : (cell htab s).isLive = false := by
      rw [Bool.eq_false_iff]
      intro hlive
      rcases Cell.isLive_iff.mp hlive with ⟨key, value, h⟩
      exact hvacant.empty key value h
    rw [if_neg hfree, if_neg hdeleted, liveCount_update_add _ hs hold rfl, hw.filled]

theorem Wf.hdelete (hw : Wf htab) {s : Nat} {key value : Bytes}
    (hs : cell htab s = .live key value) : Wf (hdelete htab s) := by
  have hin := hw.inside s (cell_live hs).left
  refine hw.put hin (fun _ h => absurd rfl h) ?_ ?_
  · rw [if_neg (by decide), if_pos rfl]
    exact hw.probed.delete s
  · have hcount := liveCount_update_sub (cell htab) (c := .deleted) hin
      (by rw [hs]; rfl) rfl
    rw [if_neg (by decide), if_pos rfl, hw.filled]
    lia

end

/-!
## The map that a table represents
-/

def Represents (htab : Htab) (m : Bytes -> Option Bytes) : Prop :=
  forall key value, m key = some value <-> exists s, cell htab s = .live key value

section

variable {htab : Htab} {m : Bytes -> Option Bytes}

theorem Represents.missing (hm : Represents htab m) {key : Bytes} :
    Missing htab key <-> m key = none := by
  refine ⟨?_, ?_⟩
  · intro h
    cases hkey : m key with
    | none => rfl
    | some value =>
        rcases (hm key value).mp hkey with ⟨s, hs⟩
        exact absurd hs (h s value)
  · intro h s value hs
    rw [(hm key value).mpr ⟨s, hs⟩] at h
    cases h

theorem Represents.put (hm : Represents htab m) {htab' : Htab} {s : Nat} {key value : Bytes}
    (hcell : cell htab' = Function.update (cell htab) s (.live key value))
    (hold : forall key' value', cell htab s = .live key' value' -> key' = key)
    (helse : forall x value', x ≠ s -> cell htab x ≠ .live key value') :
    Represents htab' (Function.update m key (some value)) := by
  intro key' value'
  rw [hcell]
  by_cases hkey : key' = key
  · subst hkey
    rw [Function.update_self]
    refine ⟨?_, ?_⟩
    · rintro h
      cases h
      exact ⟨s, Function.update_self ..⟩
    · rintro ⟨x, hx⟩
      rcases update_live hx with ⟨_, hc⟩ | ⟨hne, hx⟩
      · cases hc
        rfl
      · exact absurd hx (helse x value' hne)
  · rw [Function.update_of_ne hkey, hm key' value']
    refine ⟨?_, ?_⟩
    · rintro ⟨x, hx⟩
      have hne : x ≠ s := by
        rintro rfl
        exact hkey (hold key' value' hx)
      exact ⟨x, by rw [Function.update_of_ne hne, hx]⟩
    · rintro ⟨x, hx⟩
      rcases update_live hx with ⟨_, hc⟩ | ⟨_, hx⟩
      · cases hc
        exact absurd rfl hkey
      · exact ⟨x, hx⟩

theorem Represents.delete (hm : Represents htab m) (hw : Wf htab) {s : Nat}
    {key value : Bytes} (hs : cell htab s = .live key value) :
    Represents (hdelete htab s) (Function.update m key none) := by
  have hcell : cell (hdelete htab s) = Function.update (cell htab) s .deleted := by
    unfold hdelete
    rw [cell_update]
    rfl
  intro key' value'
  rw [hcell]
  by_cases hkey : key' = key
  · subst hkey
    rw [Function.update_self]
    refine ⟨fun h => absurd h (by simp), ?_⟩
    rintro ⟨x, hx⟩
    rcases update_live hx with ⟨_, hc⟩ | ⟨hne, hx⟩
    · cases hc
    · exact absurd (hw.probed.unique hx hs) hne
  · rw [Function.update_of_ne hkey, hm key' value']
    refine ⟨?_, ?_⟩
    · rintro ⟨x, hx⟩
      have hne : x ≠ s := by
        rintro rfl
        rw [hs] at hx
        cases hx
        exact hkey rfl
      exact ⟨x, by rw [Function.update_of_ne hne, hx]⟩
    · rintro ⟨x, hx⟩
      rcases update_live hx with ⟨_, hc⟩ | ⟨_, hx⟩
      · cases hc
      · exact ⟨x, hx⟩

theorem Represents.filled (hm : Represents htab m) (hw : Wf htab) :
    htab.filled = Set.ncard {key | m key ≠ none} := by
  have hkeys : {key | m key ≠ none} =
      (((Finset.Icc 1 htab.size).filter fun s => (cell htab s).isLive).image
        fun s => (htab.table s).key : Set Bytes) := by
    ext key
    simp only [Set.mem_ofPred_eq, Finset.coe_image, Finset.coe_filter, Set.mem_image]
    refine ⟨?_, ?_⟩
    · intro h
      rcases Option.ne_none_iff_exists'.mp h with ⟨value, hv⟩
      rcases (hm key value).mp hv with ⟨s, hs⟩
      rcases cell_live hs with ⟨hfree, _, hkey, _⟩
      exact ⟨s, ⟨hw.inside s hfree, Cell.isLive_iff.mpr ⟨key, value, hs⟩⟩, hkey⟩
    · rintro ⟨s, ⟨_, hlive⟩, hkey⟩
      rcases Cell.isLive_iff.mp hlive with ⟨key', value, hs⟩
      have hk : key' = key := (cell_live hs).2.2.1.symm.trans hkey
      rw [(hm key value).mpr ⟨s, hk ▸ hs⟩]
      simp
  rw [hkeys, Set.ncard_coe_finset, Finset.card_image_of_injOn, hw.filled]
  · rfl
  · intro s hs s' hs' heq
    rcases Cell.isLive_iff.mp (Finset.mem_filter.mp hs).right with ⟨key, value, h⟩
    rcases Cell.isLive_iff.mp (Finset.mem_filter.mp hs').right with ⟨key', value', h'⟩
    have hk : key' = key := by
      rw [<- (cell_live h).2.2.1, <- (cell_live h').2.2.1]
      exact heq.symm
    exact hw.probed.unique h (hk ▸ h')

theorem cell_overwritten {item : Entry} {s : Nat} {value : Bytes}
    (hs : cell htab s = .live item.key value) :
    cell (overwritten item .enter htab s) =
      Function.update (cell htab) s (.live item.key item.data) := by
  rcases cell_live hs with ⟨hfree, hdeleted, hkey, _⟩
  have h := cell_update htab s htab.filled { htab.table s with data := item.data }
  rw [if_neg hfree, if_neg hdeleted, hkey] at h
  exact h

theorem cell_newEntry (hw : Wf htab) {item : Entry} {s : Nat} :
    cell (newEntry item htab s) =
      Function.update (cell htab) s (.live item.key item.data) := by
  rcases firstHash_live hw item.key with ⟨hfree, hdeleted⟩
  unfold newEntry
  rw [cell_update, if_neg hfree, if_neg hdeleted]

theorem Represents.overwritten (hm : Represents htab m) (hw : Wf htab) {item : Entry}
    {s : Nat} {value : Bytes} (hs : cell htab s = .live item.key value) :
    Represents (overwritten item .enter htab s)
      (Function.update m item.key (some item.data)) := by
  refine hm.put (cell_overwritten hs) ?_ ?_
  · intro key' value' h'
    rw [hs] at h'
    cases h'
    rfl
  · intro x value' hne hx
    exact hne (hw.probed.unique hx hs)

theorem Represents.newEntry (hm : Represents htab m) (hw : Wf htab) {item : Entry} {s : Nat}
    (hmissing : Missing htab item.key) (hvacant : Vacant htab item.key s) :
    Represents (newEntry item htab s) (Function.update m item.key (some item.data)) :=
  hm.put (cell_newEntry hw) (fun key' value' hc => absurd hc (hvacant.empty key' value'))
    (fun x value' _ => hmissing x value')

/-- An entry: it succeeds with the map updated, or the key is new and the table
full. -/
theorem hsearchR_enter (hw : Wf htab) (hm : Represents htab m) (item : Entry) :
    exists found, hsearchR item .enter htab = some found ∧ Wf found.htab ∧
      (found.ret = 0 ∧ m item.key = none ∧ htab.filled = htab.size ∧
          found.htab = htab ∨
        found.ret ≠ 0 ∧
          Represents found.htab (Function.update m item.key (some item.data))) := by
  rcases hsearchR_spec hw item .enter with ⟨found, hfound, hend⟩
  refine ⟨found, hfound, ?_⟩
  cases hend with
  | @found _ s value h =>
      have hpos := Finset.mem_Icc.mp (hw.inside s (cell_live h).left)
      exact ⟨hw.overwritten .enter h, Or.inr ⟨show s ≠ 0 by lia, hm.overwritten hw h⟩⟩
  | full h full => exact ⟨hw, Or.inl ⟨rfl, hm.missing.mp h, full, rfl⟩⟩
  | @entered s h room vacant =>
      have hin := probes_inside hw.size vacant.reached.mem
      exact ⟨hw.newEntry h vacant hin, Or.inr ⟨Nat.one_ne_zero, hm.newEntry hw h vacant⟩⟩

theorem hsearchR_find (hw : Wf htab) (hm : Represents htab m) (item : Entry) :
    exists found, hsearchR item .find htab = some found ∧ found.htab = htab ∧
      (found.entry.map fun idx => (htab.table idx).data) = m item.key ∧
      (found.ret = 0 <-> m item.key = none) ∧
      (m item.key ≠ none -> exists value, cell htab found.ret = .live item.key value) := by
  rcases hsearchR_spec hw item .find with ⟨found, hfound, hend⟩
  refine ⟨found, hfound, ?_⟩
  cases hend with
  | @found _ s value h =>
      have hpos := Finset.mem_Icc.mp (hw.inside s (cell_live h).left)
      have hkey := (hm item.key value).mpr ⟨s, h⟩
      refine ⟨rfl, ?_, ?_, fun _ => ⟨value, h⟩⟩
      · rw [hkey]
        exact congrArg some (cell_live h).2.2.2
      · rw [hkey]
        exact ⟨fun hz => absurd hz (show s ≠ 0 by lia), fun hn => absurd hn (by simp)⟩
  | missing h =>
      have hkey := hm.missing.mp h
      refine ⟨rfl, hkey.symm, ⟨fun _ => hkey, fun _ => rfl⟩, fun hn => absurd hkey hn⟩

theorem hdeleteR_spec (hw : Wf htab) (hm : Represents htab m) (key : Bytes) :
    exists r, hdeleteR htab key = some r ∧ Wf r.2 ∧
      (r.1 ≠ 0 ∧ m key = none ∧ r.2 = htab ∨
        r.1 = 0 ∧ m key ≠ none ∧ Represents r.2 (Function.update m key none)) := by
  rcases hsearchR_find hw hm ⟨key, []⟩ with ⟨found, hfound, hsame, _, hret, hlive⟩
  unfold hdeleteR
  rw [hfound]
  dsimp only
  by_cases hzero : found.ret = 0
  · rw [if_pos hzero, hsame]
    exact ⟨_, rfl, hw, Or.inl ⟨show -ENOENT ≠ 0 by decide, hret.mp hzero, rfl⟩⟩
  · have hkey : m key ≠ none := fun hn => hzero (hret.mpr hn)
    rcases hlive hkey with ⟨value, hs⟩
    rw [if_neg hzero, hsame]
    exact ⟨_, rfl, hw.hdelete hs, Or.inr ⟨rfl, hkey, hm.delete hw hs⟩⟩

end

/-!
## Runs
-/

inductive Op where
  | enter (key data : Bytes)
  | find (key : Bytes)
  | delete (key : Bytes)

def exec (htab : Htab) : Op -> Option (Int × Htab)
  | .enter key data =>
      (hsearchR ⟨key, data⟩ .enter htab).map fun found => (found.ret, found.htab)
  | .find key => (hsearchR ⟨key, []⟩ .find htab).map fun found => (found.ret, found.htab)
  | .delete key => hdeleteR htab key

/-- What a return value tells about the map: entries return an index, deletions
zero on success. -/
def Op.effect (ret : Int) (m : Bytes -> Option Bytes) : Op -> Bytes -> Option Bytes
  | .enter key data => if ret ≠ 0 then Function.update m key (some data) else m
  | .find _ => m
  | .delete key => if ret = 0 then Function.update m key none else m

/-- A run, with the map of what has been entered and deleted. -/
def run : List Op -> Htab × (Bytes -> Option Bytes) ->
    Option (Htab × (Bytes -> Option Bytes))
  | [], s => some s
  | op :: ops, s => (exec s.1 op).bind fun r => run ops (r.2, op.effect r.1 s.2)

theorem exec_spec {htab : Htab} {m : Bytes -> Option Bytes} (hw : Wf htab)
    (hm : Represents htab m) (op : Op) :
    exists r, exec htab op = some r ∧ Wf r.2 ∧ Represents r.2 (op.effect r.1 m) := by
  cases op with
  | enter key data =>
      rcases hsearchR_enter hw hm ⟨key, data⟩ with ⟨found, hfound, hwf, hret⟩
      refine ⟨(found.ret, found.htab), by simp [exec, hfound], hwf, ?_⟩
      rcases hret with ⟨hzero, _, _, hsame⟩ | ⟨hne, hm'⟩
      · simpa [Op.effect, hzero, hsame] using hm
      · simpa [Op.effect, hne] using hm'
  | find key =>
      rcases hsearchR_find hw hm ⟨key, []⟩ with ⟨found, hfound, hsame, _⟩
      refine ⟨(found.ret, found.htab), by simp [exec, hfound], ?_, ?_⟩
      · rw [hsame]
        exact hw
      · rw [hsame]
        exact hm
  | delete key =>
      rcases hdeleteR_spec hw hm key with ⟨r, hr, hwf, hret⟩
      refine ⟨r, hr, hwf, ?_⟩
      rcases hret with ⟨hne, _, hsame⟩ | ⟨hzero, _, hm'⟩
      · simpa [Op.effect, hne, hsame] using hm
      · simpa [Op.effect, hzero] using hm'

theorem run_spec {htab : Htab} {m : Bytes -> Option Bytes} (hw : Wf htab)
    (hm : Represents htab m) (ops : List Op) :
    exists htab' m', run ops (htab, m) = some (htab', m') ∧ Wf htab' ∧
      Represents htab' m' := by
  induction ops generalizing htab m with
  | nil => exact ⟨htab, m, rfl, hw, hm⟩
  | cons op ops ih =>
      rcases exec_spec hw hm op with ⟨r, hr, hwf, hrep⟩
      rcases ih hwf hrep with ⟨htab', m', hrun, h⟩
      exact ⟨htab', m', by simp [run, hr, hrun], h⟩

theorem wf_hcreateR {nel : Nat} (hnel : 2 ≤ nel) (hlt : nel < 2 ^ 32) :
    Wf (hcreateR nel) := by
  have hcell : forall s, cell (hcreateR nel) s = .free := fun s => rfl
  refine ⟨hcreateR_size hnel hlt, fun s h => absurd rfl h, fun s h => absurd rfl h,
    ⟨?_, ?_⟩, ?_⟩
  · intro s key value h
    rw [hcell] at h
    cases h
  · intro s s' key value value' h
    rw [hcell] at h
    cases h
  · unfold liveCount
    rw [Finset.filter_false_of_mem]
    · rfl
    · intro s _
      rw [hcell]
      decide

theorem represents_hcreateR (nel : Nat) : Represents (hcreateR nel) fun _ => none := by
  intro key value
  refine ⟨fun h => absurd h (by simp), ?_⟩
  rintro ⟨s, hs⟩
  cases hs

/-- Every run of entries, searches and deletions on a created table ends, with
the table a finite map: searches return the data entered last, no key is in two
slots, `filled` is the number of keys, and an entry fails only for a new key in a
full table. -/
theorem hash_table_is_finite_map (nel : Nat) (ops : List Op) (hnel : 2 ≤ nel)
    (hlt : nel < 2 ^ 32) :
    exists htab m, run ops (hcreateR nel, fun _ => none) = some (htab, m) ∧
      (forall item, exists found, hsearchR item .find htab = some found ∧
        found.htab = htab ∧
        (found.entry.map fun idx => (htab.table idx).data) = m item.key ∧
        (found.ret = 0 <-> m item.key = none)) ∧
      (forall s s' key value value', cell htab s = .live key value ->
        cell htab s' = .live key value' -> s = s') ∧
      htab.filled = Set.ncard {key | m key ≠ none} ∧
      (forall item, exists found, hsearchR item .enter htab = some found ∧
        (found.ret = 0 -> m item.key = none ∧ htab.filled = htab.size)) ∧
      (forall key, exists r, hdeleteR htab key = some r ∧ (r.1 = 0 <-> m key ≠ none)) := by
  rcases run_spec (wf_hcreateR hnel hlt) (represents_hcreateR nel) ops with
    ⟨htab, m, hrun, hw, hm⟩
  refine ⟨htab, m, hrun, ?_, ?_, hm.filled hw, ?_, ?_⟩
  · intro item
    rcases hsearchR_find hw hm item with ⟨found, hfound, hsame, hdata, hret, _⟩
    exact ⟨found, hfound, hsame, hdata, hret⟩
  · exact fun s s' key value value' => hw.probed.unique
  · intro item
    rcases hsearchR_enter hw hm item with ⟨found, hfound, _, hret⟩
    refine ⟨found, hfound, fun hzero => ?_⟩
    rcases hret with ⟨_, hnone, hfull, _⟩ | ⟨hne, _⟩
    · exact ⟨hnone, hfull⟩
    · exact absurd hzero hne
  · intro key
    rcases hdeleteR_spec hw hm key with ⟨r, hr, _, hret⟩
    refine ⟨r, hr, ?_⟩
    rcases hret with ⟨hne, hnone, _⟩ | ⟨hzero, hsome, _⟩
    · exact ⟨fun h => absurd h hne, fun h => absurd hnone h⟩
    · exact ⟨fun _ => hsome, fun _ => hzero⟩

/-- Two variables are entered into the smallest table and one is deleted. -/
theorem small_table_is_finite_map :
    exists htab m, run [.enter (str "a") (str "1"), .enter (str "b") (str "2"),
        .delete (str "a")] (hcreateR 2, fun _ => none) = some (htab, m) ∧
      htab.filled = Set.ncard {key | m key ≠ none} := by
  rcases hash_table_is_finite_map 2 [.enter (str "a") (str "1"),
    .enter (str "b") (str "2"), .delete (str "a")] (by decide) (by decide) with
    ⟨htab, m, hrun, _, _, hfilled, _⟩
  exact ⟨htab, m, hrun, hfilled⟩

end Env
end Hlk7621
