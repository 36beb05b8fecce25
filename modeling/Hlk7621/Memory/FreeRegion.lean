import Hlk7621.Memory.AddRegion

/-!
# Removing a range from a list

`_lmb_free` removes a range that lies in one region.  When it lies strictly
inside, the part of the region behind it is added again, and can be lost on the
way like any other request.
-/

namespace Hlk7621
namespace Memory

open Regions

variable {W : Nat}

def tailFrom (r : LmbRegion) (a : Nat) : LmbRegion :=
  { base := a, size := r.stop - a, flags := r.flags }

def headTo (r : LmbRegion) (a : Nat) : LmbRegion := { r with size := a - r.base }

/-- The range splits a region, and the part behind it is lost. -/
def dropsTail (base size : Nat) : List LmbRegion -> Bool
  | [] => false
  | r :: rest =>
      if r.base < base ∧ base + size < r.stop then
        drops (tailFrom r (base + size)) rest
      else dropsTail base size rest

inductive FreeResult (W : Nat) (l : List LmbRegion) (base size : Nat) :
    Int × List LmbRegion -> Prop where
  | absent : FreeResult W l base size (-1, l)
  | freed {l' : List LmbRegion} : dropsTail base size l = false -> Ordered l' ->
      Fits W l' -> Paints l l' base (base + size) none -> FreeResult W l base size (0, l')
  | lost {l' : List LmbRegion} : dropsTail base size l = true -> Ordered l' ->
      Fits W l' -> FreeResult W l base size (0, l')

inductive Freed (W : Nat) (l : List LmbRegion) (base size : Nat) :
    Int × List LmbRegion -> Prop where
  | absent : (forall r, r ∈ l -> ¬ (r.base ≤ base ∧ base + size ≤ r.stop)) ->
      Freed W l base size (-1, l)
  | parts {pre post P : List LmbRegion} {r : LmbRegion} : l = pre ++ r :: post ->
      r.base ≤ base -> base + size ≤ r.stop ->
      (r.base = base ∨ r.stop ≤ base + size) -> Ordered P ->
      (forall q, q ∈ P -> r.base ≤ q.base ∧ q.stop ≤ r.stop ∧ q.flags = r.flags) ->
      P.length ≤ 1 -> Paints [r] P base (base + size) none ->
      Freed W l base size (0, pre ++ (P ++ post))
  | split {pre post : List LmbRegion} {r : LmbRegion} : l = pre ++ r :: post ->
      r.base < base -> base + size < r.stop ->
      Freed W l base size
        (lmbAddRegionFlags W (pre ++ { r with size := base - r.base } :: post)
          (base + size) (r.stop - (base + size)) r.flags)

section

variable {pre post : List LmbRegion} {r : LmbRegion} {base size : Nat}

theorem dropsTail_append (hl : Ordered (pre ++ r :: post)) (hbase : r.base ≤ base) :
    dropsTail base size (pre ++ r :: post) = dropsTail base size (r :: post) := by
  induction pre with
  | nil => rfl
  | cons p pre ih =>
      have hp := ordered_cons.mp (show Ordered (p :: (pre ++ r :: post)) from hl)
      have hpr := hp.right.right r (by simp)
      rw [List.cons_append, dropsTail, if_neg (by lia)]
      exact ih hp.right.left

theorem dropsTail_edge (hl : Ordered (pre ++ r :: post)) (hbase : r.base ≤ base)
    (hedge : r.base = base ∨ r.stop ≤ base + size) (hstop : base + size ≤ r.stop)
    (hsize : 0 < size) : dropsTail base size (pre ++ r :: post) = false := by
  rw [dropsTail_append hl hbase, dropsTail, if_neg (by lia)]
  have hpost : forall p, p ∈ post -> base + size ≤ p.base := fun p hp =>
    Nat.le_trans hstop
      ((ordered_cons.mp (ordered_append.mp hl).right.left).right.right p hp)
  clear hl hbase hedge hstop
  induction post with
  | nil => rfl
  | cons p post ih =>
      have := hpost p List.mem_cons_self
      rw [dropsTail, if_neg (by lia)]
      exact ih (fun q hq => hpost q (List.mem_cons_of_mem p hq))

theorem FreeResult.of_parts {P : List LmbRegion}
    (hl : Ordered (pre ++ r :: post)) (hfits : Fits W (pre ++ r :: post))
    (hsize : 0 < size) (hbase : r.base ≤ base) (hstop : base + size ≤ r.stop)
    (hedge : r.base = base ∨ r.stop ≤ base + size) (hparts : Ordered P)
    (hin : forall q, q ∈ P -> r.base ≤ q.base ∧ q.stop ≤ r.stop ∧ q.flags = r.flags)
    (hpaint : Paints [r] P base (base + size) none) :
    FreeResult W (pre ++ r :: post) base size (0, pre ++ (P ++ post)) := by
  have hsplit := ordered_append.mp hl
  have htail := ordered_cons.mp hsplit.right.left
  refine .freed (dropsTail_edge hl hbase hedge hstop hsize) ?_ ?_ ?_
  · refine ordered_append.mpr ⟨hsplit.left, ordered_append.mpr
      ⟨hparts, htail.right.left, fun q hq p hp => ?_⟩, fun p hp q hq => ?_⟩
    · exact Nat.le_trans (hin q hq).right.left (htail.right.right p hp)
    · rcases List.mem_append.mp hq with hq | hq
      · exact Nat.le_trans (hsplit.right.right p hp r List.mem_cons_self) (hin q hq).left
      · exact hsplit.right.right p hp q (List.mem_cons_of_mem r hq)
  · intro p hp
    rcases List.mem_append.mp hp with hp | hp
    · exact hfits p (by simp [hp])
    · rcases List.mem_append.mp hp with hp | hp
      · exact Nat.lt_of_le_of_lt (hin p hp).right.left (hfits r (by simp))
      · exact hfits p (by simp [hp])
  · have hframe : Paints (pre ++ [r] ++ post) (pre ++ P ++ post) base (base + size)
        none :=
      hpaint.frame
        (fun p hp => .inl (Nat.le_trans (hsplit.right.right p hp r List.mem_cons_self) hbase))
        (fun p hp => .inr (Nat.le_trans hstop (htail.right.right p hp)))
    simpa using hframe

/-- The parts of a region in front of a range and behind it: the list with the
front in place of the region, and the tail as a request. -/
structure Halves (W : Nat) (pre post : List LmbRegion) (r : LmbRegion)
    (base size : Nat) : Prop where
  request : Request W (tailFrom r (base + size))
  ordered : Ordered (pre ++ headTo r base :: post)
  fits : Fits W (pre ++ headTo r base :: post)
  passed : forall p, p ∈ pre ++ [headTo r base] -> Passed (tailFrom r (base + size)) p
  above : forall p, p ∈ post -> (tailFrom r (base + size)).stop ≤ p.base

theorem headTo_stop {r : LmbRegion} {a : Nat} (h : r.base ≤ a) : (headTo r a).stop = a :=
  Nat.add_sub_cancel' h

theorem tailFrom_stop {r : LmbRegion} {a : Nat} (h : a ≤ r.stop) :
    (tailFrom r a).stop = r.stop :=
  Nat.add_sub_cancel' h

theorem halves_of_inside
    (hl : Ordered (pre ++ r :: post)) (hfits : Fits W (pre ++ r :: post))
    (hsize : 0 < size) (hbase : r.base < base) (hstop : base + size < r.stop) :
    Halves W pre post r base size := by
  have hsplit := ordered_append.mp hl
  have htail := ordered_cons.mp hsplit.right.left
  have hr := hfits r (by simp)
  have hfstop := headTo_stop (Nat.le_of_lt hbase)
  have hxstop := tailFrom_stop (Nat.le_of_lt hstop)
  refine ⟨⟨Nat.sub_pos_of_lt hstop, by rw [hxstop]; exact hr⟩, ?_, ?_, ?_, ?_⟩
  · refine ordered_append.mpr ⟨hsplit.left,
      ordered_cons.mpr ⟨Nat.sub_pos_of_lt hbase, htail.right.left, fun p hp => ?_⟩,
      fun p hp q hq => ?_⟩
    · have := htail.right.right p hp
      lia
    · rcases List.mem_cons.mp hq with rfl | hq
      · exact hsplit.right.right p hp r List.mem_cons_self
      · exact hsplit.right.right p hp q (List.mem_cons_of_mem r hq)
  · intro p hp
    rcases List.mem_append.mp hp with hp | hp
    · exact hfits p (by simp [hp])
    · rcases List.mem_cons.mp hp with rfl | hp
      · lia
      · exact hfits p (by simp [hp])
  · intro p hp
    have hxbase : (tailFrom r (base + size)).base = base + size := rfl
    have hle : p.stop ≤ base := by
      rcases List.mem_append.mp hp with hp | hp
      · have := hsplit.right.right p hp r List.mem_cons_self
        lia
      · rw [List.mem_singleton.mp hp]
        exact Nat.le_of_eq hfstop
    refine ⟨.inl (by lia), ?_, fun heq => ?_⟩
    · have : p.base ≤ p.stop := Nat.le_add_right _ _
      lia
    · exfalso
      lia
  · intro p hp
    rw [hxstop]
    exact htail.right.right p hp

theorem Halves.apart (h : Halves W pre post r base size) :
    forall p, p ∈ pre ++ headTo r base :: post -> Apart p (tailFrom r (base + size)) := by
  intro p hp
  rw [<- List.singleton_append, <- List.append_assoc] at hp
  rcases List.mem_append.mp hp with hp | hp
  · exact (h.passed p hp).apart
  · exact .inr (h.above p hp)

theorem Halves.outcome (h : Halves W pre post r base size) :
    AddOutcome (pre ++ headTo r base :: post) (tailFrom r (base + size))
      (lmbAddRegionFlags W (pre ++ { r with size := base - r.base } :: post)
        (base + size) (r.stop - (base + size)) r.flags) :=
  lmbAddRegionFlags_outcome h.request h.ordered h.fits (fun p hp => .inl (h.apart p hp))

theorem FreeResult.of_split
    (hl : Ordered (pre ++ r :: post)) (hfits : Fits W (pre ++ r :: post))
    (hsize : 0 < size) (hbase : r.base < base) (hstop : base + size < r.stop) :
    FreeResult W (pre ++ r :: post) base size
      (lmbAddRegionFlags W (pre ++ { r with size := base - r.base } :: post)
        (base + size) (r.stop - (base + size)) r.flags) := by
  have hsplit := ordered_append.mp hl
  have htail := ordered_cons.mp hsplit.right.left
  have hh := halves_of_inside hl hfits hsize hbase hstop
  have hfstop := headTo_stop (Nat.le_of_lt hbase)
  have hxstop := tailFrom_stop (Nat.le_of_lt hstop)
  have hdrops : drops (tailFrom r (base + size)) (pre ++ headTo r base :: post) =
      dropsTail base size (pre ++ r :: post) := by
    rw [dropsTail_append hl (Nat.le_of_lt hbase), dropsTail, if_pos ⟨hbase, hstop⟩,
      <- List.singleton_append, <- List.append_assoc, drops_passed hh.passed]
  have hadd := hh.outcome.result
  revert hadd
  generalize lmbAddRegionFlags W (pre ++ { r with size := base - r.base } :: post)
    (base + size) (r.stop - (base + size)) r.flags = out
  intro hadd
  cases hadd with
  | lost hd hj =>
      have hk := hj.keeps hh.ordered hh.fits
      exact .lost (by rw [<- hdrops, hd]) hk.left hk.right
  | added hd ha =>
      have hk := ha.keeps hh.request hh.ordered hh.fits
      refine .freed (by rw [<- hdrops, hd]) hk.left hk.right.left ?_
      -- first the whole end of the region goes, then its tail comes back
      have hcut : Paints [r] [headTo r base] base r.stop none := by
        intro a
        simp only [flagsAt, Region.Covers, hfstop]
        simp only [headTo]
        grind
      have hframe : Paints (pre ++ [r] ++ post) (pre ++ [headTo r base] ++ post) base r.stop
          none :=
        hcut.frame
          (fun p hp => .inl (Nat.le_trans (hsplit.right.right p hp r List.mem_cons_self)
            (Nat.le_of_lt hbase)))
          (fun p hp => .inr (htail.right.right p hp))
      have hold : forall a, base + size ≤ a ∧ a < r.stop ->
          flagsAt (pre ++ r :: post) a = some r.flags :=
        fun a ha => hl.flagsAt_eq (by simp) ⟨by lia, ha.right⟩
      intro a
      have h1 := hk.right.right a
      have h2 := hframe a
      rw [h1]
      simp only [List.append_assoc, List.singleton_append] at h2
      rw [h2, hxstop]
      have h3 := hold a
      simp only [tailFrom]
      grind

end

theorem eraseIdx_append_length (pre post : List LmbRegion) (r : LmbRegion) :
    (pre ++ r :: post).eraseIdx pre.length = pre ++ post := by
  rw [List.eraseIdx_append_of_length_le (Nat.le_refl _)]
  simp

theorem Freed.of_found {pre post : List LmbRegion} {r : LmbRegion} {base size : Nat}
    (hfits : Fits W (pre ++ r :: post)) (hsize : 0 < size) (hbase : r.base ≤ base)
    (hstop : base + size ≤ r.stop) :
    Freed W (pre ++ r :: post) base size
      (if r.base = base ∧ r.stop - 1 = base + size - 1 then
        (0, lmbRemoveRegion (pre ++ r :: post) pre.length)
      else if r.base = base then
        (0, (pre ++ r :: post).set pre.length
          { r with base := add W (base + size - 1) 1, size := sub W r.size size })
      else if r.stop - 1 = base + size - 1 then
        (0, (pre ++ r :: post).set pre.length { r with size := sub W r.size size })
      else
        lmbAddRegionFlags W
          ((pre ++ r :: post).set pre.length { r with size := sub W base r.base })
          (add W (base + size - 1) 1) (sub W (r.stop - 1) (base + size - 1)) r.flags) := by
  have hr := hfits r (by simp)
  have hrstop : r.stop = r.base + r.size := rfl
  have hnext : add W (base + size - 1) 1 = base + size := by
    rw [add_eq (by lia)]
    lia
  have hrest : sub W r.size size = r.size - size := sub_eq (by lia) (by lia)
  have hfront : sub W base r.base = base - r.base := sub_eq hbase (by lia)
  have htail : sub W (r.stop - 1) (base + size - 1) = r.stop - (base + size) := by
    rw [sub_eq (by lia) (by lia)]
    lia
  rw [hnext, hrest, hfront, htail, set_append_length, set_append_length, set_append_length]
  split
  · rename_i hboth
    rw [lmbRemoveRegion, eraseIdx_append_length]
    refine Freed.parts (P := []) rfl hbase hstop (.inl hboth.left) ordered_nil
      (by simp) (by simp) (fun a => ?_)
    simp only [flagsAt, Region.Covers]
    grind
  · rename_i hnot
    split
    · rename_i heq
      have hback : Region.stop ({ r with base := base + size, size := r.size - size } :
          LmbRegion) = r.stop := by
        unfold Region.stop at *
        dsimp only
        lia
      refine Freed.parts (P := [_]) rfl hbase hstop (.inl heq)
        (ordered_cons.mpr ⟨?_, ordered_nil, by simp⟩) ?_ (by simp) ?_
      · dsimp only
        lia
      · intro q hq
        rw [List.mem_singleton.mp hq, hback]
        exact ⟨by dsimp only; lia, Nat.le_refl _, rfl⟩
      · intro a
        simp only [flagsAt, Region.Covers, hback]
        grind
    · rename_i hne
      split
      · rename_i heq
        have hback : Region.stop ({ r with size := r.size - size } : LmbRegion) = base := by
          unfold Region.stop at *
          dsimp only
          lia
        refine Freed.parts (P := [_]) rfl hbase hstop (.inr (by lia))
          (ordered_cons.mpr ⟨?_, ordered_nil, by simp⟩) ?_ (by simp) ?_
        · dsimp only
          lia
        · intro q hq
          rw [List.mem_singleton.mp hq, hback]
          exact ⟨Nat.le_refl _, by lia, rfl⟩
        · intro a
          simp only [flagsAt, Region.Covers, hback]
          grind
      · exact Freed.split rfl (by lia) (by lia)

theorem lmbFreeRegion_freed {l : List LmbRegion} {base size : Nat}
    (hl : Ordered l) (hfits : Fits W l) (hsize : 0 < size) (hlt : base + size < 2 ^ W) :
    Freed W l base size (lmbFreeRegion W l base size) := by
  have hlast : forall r, r ∈ l -> sub W (add W r.base r.size) 1 = r.stop - 1 :=
    fun r hr => last_eq (hl.pos r hr) (hfits r hr)
  have hstop : sub W (add W base size) 1 = base + size - 1 := by
    rw [add_eq hlt, sub_eq (by lia) hlt]
  unfold lmbFreeRegion
  simp only [hstop]
  generalize hi : l.findIdx (fun r => decide (r.base ≤ base) &&
    decide (base + size - 1 ≤ sub W (add W r.base r.size) 1)) = i
  cases hget : l[i]? with
  | none =>
      refine .absent (fun r hr hin => ?_)
      have hlen : l.length ≤ i := List.getElem?_eq_none_iff.mp hget
      have hfound : i < l.length := by
        rw [<- hi]
        refine List.findIdx_lt_length_of_exists ⟨r, hr, ?_⟩
        simp only [hlast r hr, Bool.and_eq_true, decide_eq_true_eq]
        lia
      lia
  | some r =>
      rcases List.getElem?_eq_some_iff.mp hget with ⟨hilt, hri⟩
      have hmem : r ∈ l := List.mem_of_getElem? hget
      have hfound : r.base ≤ base ∧ base + size ≤ r.stop := by
        have := @List.findIdx_getElem _ (fun r : LmbRegion => decide (r.base ≤ base) &&
          decide (base + size - 1 ≤ sub W (add W r.base r.size) 1)) l (by rw [hi]; exact hilt)
        simp only [hi, hri, Bool.and_eq_true, decide_eq_true_eq, hlast r hmem] at this
        have hpos := hl.pos r hmem
        unfold Region.stop at *
        lia
      have hsplit : l = l.take i ++ r :: l.drop (i + 1) := by
        rw [<- hri, List.getElem_cons_drop, List.take_append_drop]
      have hlen : (l.take i).length = i := by
        rw [List.length_take]
        lia
      simp only [hlast r hmem]
      rw [hsplit] at hfits
      have hcases := Freed.of_found hfits hsize hfound.left hfound.right
      rwa [<- hsplit, hlen] at hcases

/-- `_lmb_free` removes exactly the range, unless the tail of a split region is
lost. -/
theorem lmbFreeRegion_result {l : List LmbRegion} {base size : Nat}
    (hl : Ordered l) (hfits : Fits W l) (hsize : 0 < size) (hlt : base + size < 2 ^ W) :
    FreeResult W l base size (lmbFreeRegion W l base size) := by
  have hfreed := lmbFreeRegion_freed hl hfits hsize hlt
  revert hfreed
  generalize lmbFreeRegion W l base size = out
  intro hfreed
  cases hfreed with
  | absent => exact .absent
  | parts hsplit hbase hstop hedge hparts hin _ hpaint =>
      subst hsplit
      exact .of_parts hl hfits hsize hbase hstop hedge hparts hin hpaint
  | split hsplit hbase hstop =>
      subst hsplit
      exact .of_split hl hfits hsize hbase hstop

end Memory
end Hlk7621
