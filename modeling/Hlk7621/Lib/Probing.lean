import Mathlib.Data.Finset.Card
import Mathlib.Data.List.Iterate
import Mathlib.Data.Nat.ModEq
import Mathlib.Data.Nat.Prime.Basic
import Mathlib.Order.Interval.Finset.Nat

/-!
# Open addressing with deleted slots

A table maps slots to cells.  Each key has a list of slots to be probed in
order; a search walks along it, passes live cells of other keys and deleted
cells, and ends at a free cell.  The first deleted cell on the way is remembered,
so that a new key can be put there.

`WellProbed` is the invariant that makes such searches exact: every key that is
present is reached along its list without meeting a free cell, and no key is
present twice.
-/

namespace Hlk7621
namespace Probing

variable {S K V : Type}

inductive Cell (K V : Type) where
  | free
  | deleted
  | live (key : K) (value : V)

/-- How a search ends: at the key, or at the slot where it can be put, if there
is one. -/
inductive Outcome (S : Type) where
  | found (slot : S)
  | absent (slot : Option S)

section

variable [DecidableEq K] (tab : S -> Cell K V) (key : K)

/-- The search along a list of slots; `del` is the first deleted one so far. -/
def walk (del : Option S) : List S -> Outcome S
  | [] => .absent del
  | s :: rest =>
      match tab s with
      | .free => .absent (del.or (some s))
      | .deleted => walk (del.or (some s)) rest
      | .live key' _ => if key' = key then .found s else walk del rest

end

/-- The slot is on the list, and no free cell before it. -/
def Reached (tab : S -> Cell K V) (s : S) : List S -> Prop
  | [] => False
  | x :: rest => s = x ∨ tab x ≠ .free ∧ Reached tab s rest

structure WellProbed (probes : K -> List S) (tab : S -> Cell K V) : Prop where
  reached {s : S} {key : K} {value : V} (h : tab s = .live key value) :
    Reached tab s (probes key)
  unique {s s' : S} {key : K} {value value' : V} (h : tab s = .live key value)
    (h' : tab s' = .live key value') : s = s'

theorem Reached.mem {tab : S -> Cell K V} {s : S} {rest : List S}
    (h : Reached tab s rest) : s ∈ rest := by
  induction rest with
  | nil => exact absurd h id
  | cons x rest ih =>
      rcases h with hx | ⟨_, hrest⟩
      · exact List.mem_cons.mpr (Or.inl hx)
      · exact List.mem_cons_of_mem _ (ih hrest)

theorem Reached.mono {tab tab' : S -> Cell K V} {s : S} {rest : List S}
    (h : Reached tab s rest) (hfree : forall x, tab' x = .free -> tab x = .free) :
    Reached tab' s rest := by
  induction rest with
  | nil => exact absurd h id
  | cons x rest ih =>
      rcases h with hx | ⟨hlive, hrest⟩
      · exact Or.inl hx
      · exact Or.inr ⟨fun hf => hlive (hfree x hf), ih hrest⟩

/-!
## The search is exact
-/

section

variable [DecidableEq K] {probes : K -> List S} {tab : S -> Cell K V} {key : K}

theorem walk_found {del : Option S} {rest : List S} {s : S}
    (h : walk tab key del rest = .found s) : exists value, tab s = .live key value := by
  induction rest generalizing del with
  | nil => cases h
  | cons x rest ih =>
      rw [walk] at h
      split at h
      · cases h
      · exact ih h
      · rename_i key' value hx
        split at h
        · rename_i hkey
          cases h
          exact ⟨value, hkey ▸ hx⟩
        · exact ih h

theorem walk_absent_missing {del slot : Option S} {rest : List S} {s : S} {value : V}
    (h : walk tab key del rest = .absent slot) (hs : tab s = .live key value) :
    ¬ Reached tab s rest := by
  induction rest generalizing del with
  | nil => exact id
  | cons x rest ih =>
      rw [walk] at h
      rintro (rfl | ⟨hx, hrest⟩)
      · rw [hs] at h
        simp at h
      · split at h
        · rename_i hfree
          exact hx hfree
        · exact ih h hrest
        · split at h
          · cases h
          · exact ih h hrest

theorem walk_absent_none {del : Option S} {rest : List S}
    (h : walk tab key del rest = .absent none) {x : S} (hx : x ∈ rest) :
    exists key' value, tab x = .live key' value := by
  have hdel : forall {del : Option S} {s : S} {rest : List S},
      walk tab key (del.or (some s)) rest ≠ .absent none := by
    intro del s rest
    induction rest generalizing del with
    | nil => cases del <;> simp [walk]
    | cons y rest ih =>
        intro hy
        rw [walk] at hy
        split at hy
        · cases del <;> simp at hy
        · rw [Option.or_assoc] at hy
          exact @ih (del.or (some s)) (by simpa using hy)
        · split at hy
          · cases hy
          · exact ih hy
  induction rest generalizing del with
  | nil => cases hx
  | cons y rest ih =>
      rw [walk] at h
      split at h
      · cases del <;> simp at h
      · exact absurd h hdel
      · rename_i key' value hy
        split at h
        · cases h
        · rcases List.mem_cons.mp hx with rfl | hx
          · exact ⟨key', value, hy⟩
          · exact ih h hx

theorem walk_absent_some {del : Option S} {rest : List S} {s : S}
    (h : walk tab key del rest = .absent (some s)) :
    del = some s ∨
      (forall key' value, tab s ≠ .live key' value) ∧ Reached tab s rest := by
  induction rest generalizing del with
  | nil =>
      cases h
      exact Or.inl rfl
  | cons x rest ih =>
      rw [walk] at h
      split at h
      · rename_i hx
        cases del with
        | some d => exact Or.inl (by simpa using h)
        | none =>
            have hxs : x = s := by simpa using h
            rw [<- hxs]
            exact Or.inr ⟨fun _ _ hl => by simp [hx] at hl, Or.inl rfl⟩
      · rename_i hx
        cases del with
        | some d =>
            rcases ih h with hd | ⟨hs, hr⟩
            · exact Or.inl (by simpa using hd)
            · exact Or.inr ⟨hs, Or.inr ⟨by simp [hx], hr⟩⟩
        | none =>
            rcases ih h with hd | ⟨hs, hr⟩
            · have hxs : x = s := by simpa using hd
              rw [<- hxs]
              exact Or.inr ⟨fun _ _ hl => by simp [hx] at hl, Or.inl rfl⟩
            · exact Or.inr ⟨hs, Or.inr ⟨by simp [hx], hr⟩⟩
      · rename_i hx
        split at h
        · cases h
        · rcases ih h with hd | ⟨hs, hr⟩
          · exact Or.inl hd
          · exact Or.inr ⟨hs, Or.inr ⟨by simp [hx], hr⟩⟩

namespace WellProbed

variable {tab : S -> Cell K V} (hw : WellProbed probes tab)

include hw

/-- A search that misses proves the key absent. -/
theorem missing {slot : Option S} (h : walk tab key none (probes key) = .absent slot)
    (s : S) (value : V) : tab s ≠ .live key value :=
  fun hs => walk_absent_missing h hs (hw.reached hs)

end WellProbed

end

/-!
## Changes of one cell
-/

section

variable [DecidableEq S] {probes : K -> List S} {tab : S -> Cell K V} {key : K}

theorem update_live {s x : S} {c : Cell K V} {key' : K} {value : V}
    (h : Function.update tab s c x = .live key' value) :
    x = s ∧ c = .live key' value ∨ x ≠ s ∧ tab x = .live key' value := by
  by_cases hx : x = s
  · rw [hx, Function.update_self] at h
    exact Or.inl ⟨hx, h⟩
  · rw [Function.update_of_ne hx] at h
    exact Or.inr ⟨hx, h⟩

theorem update_not_free (tab : S -> Cell K V) (s : S) {c : Cell K V} (hc : c ≠ .free) (x : S)
    (h : Function.update tab s c x = .free) : tab x = .free := by
  by_cases hx : x = s
  · rw [hx, Function.update_self] at h
    exact absurd h hc
  · rwa [Function.update_of_ne hx] at h

theorem WellProbed.put (hw : WellProbed probes tab) {s : S} (value : V)
    (hreached : Reached tab s (probes key))
    (helse : forall x value', x ≠ s -> tab x ≠ .live key value') :
    WellProbed probes (Function.update tab s (.live key value)) := by
  have hfree := update_not_free tab s (c := .live key value) (by simp)
  refine ⟨?_, ?_⟩
  · intro x key' value' h
    rcases update_live h with ⟨rfl, hc⟩ | ⟨_, hx⟩
    · cases hc
      exact hreached.mono hfree
    · exact (hw.reached hx).mono hfree
  · intro x x' key' value' value'' h h'
    rcases update_live h with ⟨hx, hc⟩ | ⟨hx, ht⟩
    · rcases update_live h' with ⟨hx', _⟩ | ⟨hx', ht'⟩
      · rw [hx, hx']
      · cases hc
        exact absurd ht' (helse x' _ hx')
    · rcases update_live h' with ⟨hx', hc'⟩ | ⟨hx', ht'⟩
      · cases hc'
        exact absurd ht (helse x _ hx)
      · exact hw.unique ht ht'

theorem WellProbed.delete (hw : WellProbed probes tab) (s : S) :
    WellProbed probes (Function.update tab s .deleted) := by
  have hfree := update_not_free tab s (c := .deleted) (by simp)
  refine ⟨?_, ?_⟩
  · intro x key' value' h
    rcases update_live h with ⟨_, hc⟩ | ⟨_, hx⟩
    · cases hc
    · exact (hw.reached hx).mono hfree
  · intro x x' key' value' value'' h h'
    rcases update_live h with ⟨_, hc⟩ | ⟨_, ht⟩
    · cases hc
    · rcases update_live h' with ⟨_, hc'⟩ | ⟨_, ht'⟩
      · cases hc'
      · exact hw.unique ht ht'

end

/-!
## Counting live cells
-/

def Cell.isLive : Cell K V -> Bool
  | .live _ _ => true
  | _ => false

theorem Cell.isLive_iff {c : Cell K V} :
    c.isLive = true <-> exists key value, c = .live key value := by
  cases c <;> simp [isLive]

section

variable (slots : Finset S) (tab : S -> Cell K V)

def liveCount : Nat := (slots.filter fun s => (tab s).isLive).card

variable {slots tab} {s : S} {c : Cell K V}

theorem liveCount_full (h : forall x, x ∈ slots -> (tab x).isLive = true) :
    liveCount slots tab = slots.card := by
  unfold liveCount
  rw [Finset.filter_true_of_mem h]

variable [DecidableEq S]

theorem liveCount_update_same (h : c.isLive = (tab s).isLive) :
    liveCount slots (Function.update tab s c) = liveCount slots tab := by
  unfold liveCount
  congr 1
  apply Finset.filter_congr
  intro x _
  by_cases hx : x = s
  · rw [hx, Function.update_self, h]
  · rw [Function.update_of_ne hx]

theorem liveCount_update_add (tab : S -> Cell K V) (hs : s ∈ slots) (hold : (tab s).isLive = false)
    (hnew : c.isLive = true) :
    liveCount slots (Function.update tab s c) = liveCount slots tab + 1 := by
  have hset : (slots.filter fun x => (Function.update tab s c x).isLive) =
      insert s (slots.filter fun x => (tab x).isLive) := by
    ext x
    by_cases hx : x = s
    · simp [hx, hs, hnew]
    · simp [hx]
  unfold liveCount
  rw [hset, Finset.card_insert_of_notMem]
  simp [hold]

theorem liveCount_update_sub (tab : S -> Cell K V) (hs : s ∈ slots) (hold : (tab s).isLive = true)
    (hnew : c.isLive = false) :
    liveCount slots (Function.update tab s c) + 1 = liveCount slots tab := by
  have hback := liveCount_update_add (Function.update tab s c) (c := tab s) hs
    (by rw [Function.update_self, hnew]) hold
  rw [<- hback, Function.update_idem, Function.update_eq_self]

end

/-!
## Stepping down a circle of slots

The slots are `1 .. size`.  If `size` is prime, every stride steps through all of
them before it comes back to where it started.
-/

section

variable {size stride idx : Nat}

def down (size stride idx : Nat) : Nat :=
  if idx ≤ stride then size + idx - stride else idx - stride

theorem down_mem (h0 : 0 < stride) (hstride : stride < size)
    (hidx : idx ∈ Finset.Icc 1 size) : down size stride idx ∈ Finset.Icc 1 size := by
  rw [Finset.mem_Icc] at *
  unfold down
  split <;> lia

theorem down_modEq (hstride : stride < size) :
    down size stride idx + stride ≡ idx [MOD size] := by
  unfold down
  split
  · rw [Nat.sub_add_cancel (by lia)]
    exact Nat.add_modEq_left
  · rw [Nat.sub_add_cancel (by lia)]

theorem iterate_down_mem (h0 : 0 < stride) (hstride : stride < size)
    (hidx : idx ∈ Finset.Icc 1 size) (n : Nat) :
    (down size stride)^[n] idx ∈ Finset.Icc 1 size := by
  induction n generalizing idx with
  | zero => exact hidx
  | succ n ih => exact ih (down_mem h0 hstride hidx)

theorem iterate_down_modEq (hstride : stride < size) (idx n : Nat) :
    (down size stride)^[n] idx + n * stride ≡ idx [MOD size] := by
  induction n generalizing idx with
  | zero => simpa using Nat.ModEq.refl idx
  | succ n ih =>
      have hstep : (down size stride)^[n] (down size stride idx) + n * stride + stride ≡
          down size stride idx + stride [MOD size] := Nat.ModEq.add_right stride (ih _)
      rw [Function.iterate_succ_apply, Nat.succ_mul, <- Nat.add_assoc]
      exact hstep.trans (down_modEq hstride)

theorem modEq_slots {i j : Nat} (hi : i ∈ Finset.Icc 1 size) (hj : j ∈ Finset.Icc 1 size)
    (h : i ≡ j [MOD size]) : i = j := by
  rw [Finset.mem_Icc] at hi hj
  have hpred : i - 1 ≡ j - 1 [MOD size] := by
    refine Nat.ModEq.add_right_cancel' 1 ?_
    rwa [Nat.sub_add_cancel hi.left, Nat.sub_add_cancel hj.left]
  have heq := Nat.ModEq.eq_of_lt_of_lt hpred (by lia) (by lia)
  lia

theorem iterate_down_size (h0 : 0 < stride) (hstride : stride < size)
    (hidx : idx ∈ Finset.Icc 1 size) :
    (down size stride)^[size] idx = idx := by
  refine modEq_slots (iterate_down_mem h0 hstride hidx size) hidx ?_
  have h := iterate_down_modEq hstride idx size
  have hz : (down size stride)^[size] idx + size * stride ≡
      (down size stride)^[size] idx [MOD size] := by
    simp [Nat.ModEq]
  exact hz.symm.trans h

variable (hprime : Nat.Prime size) (h0 : 0 < stride) (hstride : stride < size)

include hprime h0 hstride

theorem iterate_down_inj {i j : Nat} (hi : i < size) (hj : j < size)
    (h : (down size stride)^[i] idx = (down size stride)^[j] idx) : i = j := by
  have hsum : (down size stride)^[j] idx + i * stride ≡
      (down size stride)^[j] idx + j * stride [MOD size] := by
    have hi' := iterate_down_modEq hstride idx i
    rw [h] at hi'
    exact hi'.trans (iterate_down_modEq hstride idx j).symm
  have hcop : Nat.gcd size stride = 1 :=
    (Nat.Prime.coprime_iff_not_dvd hprime).mpr (Nat.not_dvd_of_pos_of_lt h0 hstride)
  have hmul := Nat.ModEq.cancel_right_of_coprime hcop (Nat.ModEq.add_left_cancel' _ hsum)
  exact Nat.ModEq.eq_of_lt_of_lt hmul hi hj

theorem iterate_down_ne {i : Nat} (hi : 0 < i) (hlt : i < size) :
    (down size stride)^[i] idx ≠ idx := by
  intro h
  exact Nat.ne_of_gt hi (iterate_down_inj hprime h0 hstride hlt hprime.pos h)

theorem mem_iterate_down (hidx : idx ∈ Finset.Icc 1 size) {s : Nat}
    (hs : s ∈ Finset.Icc 1 size) : s ∈ List.iterate (down size stride) idx size := by
  have himage : (Finset.range size).image (fun i => (down size stride)^[i] idx) =
      Finset.Icc 1 size := by
    refine Finset.eq_of_subset_of_card_le ?_ ?_
    · intro x hx
      rcases Finset.mem_image.mp hx with ⟨i, _, rfl⟩
      exact iterate_down_mem h0 hstride hidx i
    · rw [Finset.card_image_of_injOn]
      · simp
      · intro i hi j hj h
        exact iterate_down_inj hprime h0 hstride (by simpa using hi) (by simpa using hj) h
  rw [<- himage] at hs
  rcases Finset.mem_image.mp hs with ⟨i, hi, rfl⟩
  exact List.mem_iterate.mpr ⟨i, by simpa using hi, rfl⟩

end

end Probing
end Hlk7621
