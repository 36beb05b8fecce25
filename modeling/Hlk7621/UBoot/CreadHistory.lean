import Hlk7621.UBoot.Cread

/-!
# The history of the command line

The lines of the history are the last ones that were saved, the newest first, and a
position among them: 0 is behind the newest one.  The code keeps them in a ring of slots in
which one slot stays free.
-/

namespace Hlk7621
namespace UBoot
namespace Cread

def older (lines : List Bytes) (pos : Nat) : Option Bytes × Nat :=
  match lines[pos]? with
  | none => (none, pos)
  | some line => (some line, pos + 1)

/-- One line forward, or behind the newest one with an empty line. -/
def newer (lines : List Bytes) : Nat -> Option Bytes × Nat
  | 0 => (none, 0)
  | 1 => (some [], 0)
  | pos + 2 => (lines[pos]?, pos + 1)

/-- The slot `pos` lines before the free one, in a ring of `max + 1` slots. -/
def back (addIdx max pos : Nat) : Nat :=
  if pos ≤ addIdx then addIdx - pos else addIdx + (max + 1) - pos

variable (config : Config)

/-- The ring with the lines of `entries`, all that were ever saved, and a position. -/
structure Ring (hist : Hist) (entries : List Bytes) (pos : Nat) : Prop where
  slots : hist.list.length = HIST_MAX config
  last : hist.max = min entries.length (HIST_MAX config - 1)
  inside : hist.addIdx ≤ hist.max
  filling : hist.max < HIST_MAX config - 1 -> hist.addIdx = hist.max
  shown : forall i, i < hist.max -> hist.list[back hist.addIdx hist.max (i + 1)]? = entries[i]?
  bound : pos ≤ hist.max
  place : hist.cur = some (back hist.addIdx hist.max pos) ∨ hist.cur = none ∧ entries = []

def visible (entries : List Bytes) : List Bytes := entries.take (HIST_MAX config - 1)

variable {config} {hist : Hist} {entries : List Bytes} {pos : Nat}

theorem histMax_pos (config : Config) : 1 < HIST_MAX config := by
  unfold HIST_MAX
  split <;> decide

theorem back_zero (addIdx max : Nat) : back addIdx max 0 = addIdx := if_pos (Nat.zero_le _)

theorem back_ne {addIdx max i : Nat} (hi : i < max) :
    back addIdx max (i + 1) ≠ addIdx := by
  unfold back
  split <;> lia

theorem back_succ {addIdx max i : Nat} (hi : i ≤ max) (hinside : addIdx ≤ max) :
    (if back addIdx max i = 0 then max else back addIdx max i - 1) =
      if i = max then addIdx else back addIdx max (i + 1) := by
  unfold back
  grind

theorem back_pred {addIdx max i : Nat} (hi : i < max) (hinside : addIdx ≤ max) :
    (if back addIdx max (i + 1) + 1 > max then 0 else back addIdx max (i + 1) + 1) =
      back addIdx max i := by
  unfold back
  grind

theorem Ring.visible_get (h : Ring config hist entries pos) {i : Nat} (hi : i < hist.max) :
    exists line, entries[i]? = some line ∧ (visible config entries)[i]? = some line := by
  have hlast := h.last
  have hlength : i < entries.length := by lia
  have hentry : entries[i]? = some entries[i] := List.getElem?_eq_getElem hlength
  refine ⟨entries[i], hentry, ?_⟩
  unfold visible
  rw [List.getElem?_take, if_pos (by lia), hentry]

theorem Ring.visible_end (h : Ring config hist entries pos) :
    (visible config entries)[hist.max]? = none := by
  have hlength : (visible config entries).length = hist.max := by
    rw [visible, List.length_take, h.last]
    exact Nat.min_comm _ _
  exact List.getElem?_eq_none (Nat.le_of_eq hlength)

theorem Ring.move (h : Ring config hist entries pos) {pos' : Nat} (hpos : pos' ≤ hist.max) :
    Ring config { hist with cur := some (back hist.addIdx hist.max pos') } entries pos' :=
  ⟨h.slots, h.last, h.inside, h.filling, h.shown, hpos, Or.inl rfl⟩

theorem Ring.first (h : Ring config hist entries pos) :
    Ring config { hist with cur := some hist.addIdx } entries 0 := by
  have hmove := h.move (Nat.zero_le hist.max)
  rw [back_zero] at hmove
  exact hmove

theorem ring_init : Ring config (histInit config) [] 0 where
  slots := List.length_replicate
  last := (Nat.zero_min _).symm
  inside := Nat.le_refl _
  filling := fun _ => rfl
  shown := fun i hi => absurd hi (Nat.not_lt_zero i)
  bound := Nat.le_refl _
  place := Or.inr ⟨rfl, rfl⟩

/-!
## Stepping
-/

theorem histPrev_ring (h : Ring config hist entries pos) :
    exists hist', histPrev hist = some ((older (visible config entries) pos).1, hist') ∧
      Ring config hist' entries (older (visible config entries) pos).2 := by
  unfold histPrev older
  rcases h.place with hcur | ⟨hcur, hempty⟩
  · rw [hcur]
    dsimp only
    rw [back_succ h.bound h.inside]
    by_cases hend : pos = hist.max
    · have hnone := h.visible_end
      rw [<- hend] at hnone
      rw [if_pos hend, if_pos rfl, hnone]
      exact ⟨hist, rfl, h⟩
    · have hlt : pos < hist.max := Nat.lt_of_le_of_ne h.bound hend
      rcases h.visible_get hlt with ⟨line, hentry, hvisible⟩
      rw [if_neg hend, if_neg (back_ne hlt), h.shown pos hlt, hentry, hvisible]
      exact ⟨_, rfl, h.move hlt⟩
  · rw [hcur, hempty]
    have hvisible : (visible config [])[pos]? = none := by
      unfold visible
      rw [List.take_nil, List.getElem?_nil]
    rw [hvisible]
    exact ⟨hist, rfl, hempty ▸ h⟩

theorem histNext_ring (h : Ring config hist entries pos) :
    exists hist', histNext hist = some ((newer (visible config entries) pos).1, hist') ∧
      Ring config hist' entries (newer (visible config entries) pos).2 := by
  unfold histNext
  rcases h.place with hcur | ⟨hcur, hempty⟩
  · rw [hcur]
    dsimp only
    rcases pos with _ | pos
    · rw [back_zero, if_pos rfl]
      exact ⟨hist, rfl, h⟩
    · have hlt : pos < hist.max := h.bound
      rw [if_neg (back_ne hlt), back_pred hlt h.inside]
      rcases pos with _ | pos
      · rw [back_zero, if_pos rfl]
        exact ⟨_, rfl, h.first⟩
      · have hbefore : pos < hist.max := Nat.lt_of_succ_lt hlt
        rcases h.visible_get hbefore with ⟨line, hentry, hvisible⟩
        rw [if_neg (back_ne hbefore), h.shown pos hbefore, hentry]
        refine ⟨_, ?_, h.move (Nat.le_of_lt hlt)⟩
        rw [newer, hvisible]
  · have hzero : pos = 0 := by
      have hbound := h.bound
      rw [h.last, hempty, List.length_nil, Nat.zero_min] at hbound
      exact Nat.le_zero.mp hbound
    subst hzero
    rw [hcur]
    exact ⟨hist, rfl, h⟩

/-!
## Saving a line
-/

/-- The slot that was free is the newest one if the numbers of the slots go on so. -/
theorem Ring.push (h : Ring config hist entries pos) (line : Bytes) {addIdx max : Nat}
    (hlast : max = min (entries.length + 1) (HIST_MAX config - 1)) (hinside : addIdx ≤ max)
    (hfilling : max < HIST_MAX config - 1 -> addIdx = max) (hgrows : max ≤ hist.max + 1)
    (hnewest : back addIdx max 1 = hist.addIdx)
    (hothers : forall i, i + 1 < max ->
      back addIdx max (i + 2) = back hist.addIdx hist.max (i + 1)) :
    Ring config
      { list := hist.list.set hist.addIdx line, max := max, addIdx := addIdx, cur := some addIdx }
      (line :: entries) 0 := by
  have hslot : hist.addIdx < hist.list.length := by
    have hinside := h.inside
    have hlast := h.last
    have hpos := histMax_pos config
    rw [h.slots]
    lia
  refine ⟨?_, hlast, hinside, hfilling, ?_, Nat.zero_le _, ?_⟩
  · rw [List.length_set]
    exact h.slots
  · intro i hi
    rcases i with _ | i
    · show (hist.list.set hist.addIdx line)[back addIdx max 1]? = _
      rw [hnewest, List.getElem?_set_self hslot]
      rfl
    · have hold : i < hist.max := by
        have hlt : i + 1 < max := hi
        lia
      show (hist.list.set hist.addIdx line)[back addIdx max (i + 2)]? = _
      rw [hothers i hi, List.getElem?_set_ne (back_ne hold).symm, h.shown i hold]
      rfl
  · rw [back_zero]
    exact Or.inl rfl

theorem creadAddToHist_ring (h : Ring config hist entries pos) {line : Bytes}
    (hfits : line.length ≤ HIST_SIZE config) :
    exists hist', creadAddToHist config line hist = some hist' ∧
      Ring config { hist' with cur := some hist'.addIdx } (line :: entries) 0 := by
  have hpos := histMax_pos config
  have hslots := h.slots
  have hlast := h.last
  have hinside := h.inside
  have hfilling := h.filling
  unfold creadAddToHist
  rw [if_pos ⟨hfits, by lia⟩]
  refine ⟨_, rfl, ?_⟩
  dsimp only
  by_cases hwraps : hist.addIdx + 1 ≥ HIST_MAX config
  · -- the last slot of the full ring was free
    rw [if_pos hwraps, if_neg (Nat.not_lt_zero _)]
    apply h.push line (by lia) (Nat.zero_le _) (fun _ => by lia) (Nat.le_succ _)
    · unfold back
      grind
    · unfold back
      grind
  · rw [if_neg hwraps]
    by_cases hgrows : hist.addIdx + 1 > hist.max
    · rw [if_pos hgrows]
      apply h.push line (by lia) (Nat.le_refl _) (fun _ => rfl) (by lia)
      · unfold back
        grind
      · unfold back
        grind
    · rw [if_neg hgrows]
      apply h.push line (by lia) (by lia) (fun _ => by lia) (Nat.le_succ _)
      · unfold back
        grind
      · unfold back
        grind

end Cread
end UBoot
end Hlk7621
