import Hlk7621.Memory.Lmb

/-!
# Adding a region to a list

What `lmb_add_region_flags` does to an ordered list, for a request whose
addresses do not wrap and that overlaps at most regions without flags.
-/

namespace Hlk7621
namespace Memory

open Regions

variable {W : Nat}

def Fits (W : Nat) (l : List LmbRegion) : Prop :=
  forall r, r ∈ l -> r.stop < 2 ^ W

structure Request (W : Nat) (x : LmbRegion) : Prop where
  pos : 0 < x.size
  fits : x.stop < 2 ^ W

def Apart (r s : LmbRegion) : Prop := r.stop ≤ s.base ∨ s.stop ≤ r.base

/-- A request may overlap regions only when neither it nor they have flags. -/
def Compatible (l : List LmbRegion) (x : LmbRegion) : Prop :=
  forall r, r ∈ l -> Apart r x ∨ r.flags = LMB_NONE ∧ x.flags = LMB_NONE

/-!
## Wrapping arithmetic
-/

theorem add_eq {a b : Nat} (h : a + b < 2 ^ W) : add W a b = a + b :=
  Nat.mod_eq_of_lt h

theorem sub_eq {a b : Nat} (hb : b ≤ a) (ha : a < 2 ^ W) : sub W a b = a - b := by
  unfold sub
  rw [Nat.mod_eq_of_lt (Nat.lt_of_le_of_lt hb ha)]
  have : a + (2 ^ W - b) = 2 ^ W + (a - b) := by lia
  rw [this, Nat.add_mod_left, Nat.mod_eq_of_lt (by lia)]

theorem add_stop {r : LmbRegion} (h : r.stop < 2 ^ W) :
    add W r.base r.size = r.stop :=
  add_eq h

theorem last_eq {r : LmbRegion} (hpos : 0 < r.size) (h : r.stop < 2 ^ W) :
    sub W (add W r.base r.size) 1 = r.stop - 1 := by
  rw [add_stop h, sub_eq (by unfold Region.stop; lia) h]

/-- The last address of a region is right even where its end wraps to zero. -/
theorem last_eq_of_le {r : LmbRegion} (hpos : 0 < r.size) (h : r.stop ≤ 2 ^ W) :
    sub W (add W r.base r.size) 1 = r.stop - 1 := by
  rcases Nat.eq_or_lt_of_le h with heq | hlt
  · have hzero : add W r.base r.size = 0 := by
      show r.stop % 2 ^ W = 0
      rw [heq, Nat.mod_self]
    rw [hzero, heq]
    unfold sub
    have htwo : 2 <= 2 ^ W ∨ 2 ^ W = 1 := by
      have := Nat.two_pow_pos W
      lia
    rcases htwo with htwo | hone
    · rw [Nat.mod_eq_of_lt htwo, Nat.zero_add]
      exact Nat.mod_eq_of_lt (by lia)
    · rw [hone]
  · exact last_eq hpos hlt

theorem overlap_iff_of_le {x r : LmbRegion} (hx : 0 < x.size) (hxs : x.stop ≤ 2 ^ W)
    (hr : 0 < r.size) (hrs : r.stop ≤ 2 ^ W) :
    lmbAddrsOverlap W x.base x.size r.base r.size = true <-> ¬ Apart r x := by
  unfold lmbAddrsOverlap
  rw [last_eq_of_le hx hxs, last_eq_of_le hr hrs]
  unfold Apart Region.stop
  simp only [Bool.and_eq_true, decide_eq_true_eq]
  lia

theorem overlap_iff {x r : LmbRegion} (hx : Request W x) (hr : Request W r) :
    lmbAddrsOverlap W x.base x.size r.base r.size = true <-> ¬ Apart r x :=
  overlap_iff_of_le hx.pos (Nat.le_of_lt hx.fits) hr.pos (Nat.le_of_lt hr.fits)

theorem adjacent_cases {x r : LmbRegion} (hx : x.stop < 2 ^ W) (hr : r.stop < 2 ^ W) :
    (r.base = x.stop ∧ lmbAddrsAdjacent W x.base x.size r.base r.size = 1) ∨
    (r.base ≠ x.stop ∧ r.stop = x.base ∧
      lmbAddrsAdjacent W x.base x.size r.base r.size = -1) ∨
    (r.base ≠ x.stop ∧ r.stop ≠ x.base ∧
      lmbAddrsAdjacent W x.base x.size r.base r.size = 0) := by
  unfold lmbAddrsAdjacent
  rw [add_stop hx, add_stop hr]
  grind

/-!
## The loop
-/

structure Passed (x r : LmbRegion) : Prop where
  apart : Apart r x
  notNext : r.base ≠ x.stop
  otherFlags : r.stop = x.base -> x.flags ≠ r.flags

inductive LoopExit (W : Nat) (l : List LmbRegion) (x : LmbRegion) :
    Option (List LmbRegion × Nat × Nat) -> Prop where
  | ended : (forall p, p ∈ l -> Passed x p) -> LoopExit W l x (some (l, l.length, 0))
  | blocked {pre post : List LmbRegion} {r : LmbRegion} :
      l = pre ++ r :: post -> (forall p, p ∈ pre -> Passed x p) ->
      r.base = x.stop -> x.flags ≠ r.flags ->
      LoopExit W l x (some (l, pre.length, 0))
  | grownLeft {pre post : List LmbRegion} {r : LmbRegion} :
      l = pre ++ r :: post -> (forall p, p ∈ pre -> Passed x p) ->
      r.base = x.stop -> x.flags = r.flags ->
      LoopExit W l x
        (some (pre ++ { r with base := x.base, size := r.size + x.size } :: post,
          pre.length, 1))
  | grownRight {pre post : List LmbRegion} {r : LmbRegion} :
      l = pre ++ r :: post -> (forall p, p ∈ pre -> Passed x p) ->
      r.stop = x.base -> x.flags = r.flags ->
      LoopExit W l x
        (some (pre ++ { r with size := r.size + x.size } :: post, pre.length, 1))
  | resized {pre post : List LmbRegion} {r : LmbRegion} :
      l = pre ++ r :: post -> (forall p, p ∈ pre -> Passed x p) -> ¬ Apart r x ->
      LoopExit W l x
        (match lmbResizeRegions W l pre.length x.base x.size with
          | none => none
          | some l' => some (l', pre.length, 1))

theorem set_append_length (pre post : List LmbRegion) (r s : LmbRegion) :
    (pre ++ r :: post).set pre.length s = pre ++ s :: post := by
  simp

theorem coalesceLoop_exit_from {l : List LmbRegion} {x : LmbRegion} (hx : Request W x)
    (hl : forall r, r ∈ l -> Request W r) (rest pre : List LmbRegion)
    (hsplit : l = pre ++ rest) (hpre : forall p, p ∈ pre -> Passed x p) :
    LoopExit W l x (coalesceLoop W l x.base x.size x.flags rest pre.length) := by
  induction rest generalizing pre with
  | nil =>
      rw [List.append_nil] at hsplit
      subst hsplit
      exact .ended hpre
  | cons r rest ih =>
      have hr : Request W r := hl r (by rw [hsplit]; simp)
      have hnext : Passed x r -> LoopExit W l x
          (coalesceLoop W l x.base x.size x.flags rest (pre.length + 1)) := by
        intro hpass
        have hlen : (pre ++ [r]).length = pre.length + 1 := by simp
        rw [<- hlen]
        refine ih (pre ++ [r]) (by simp [hsplit]) (fun p hp => ?_)
        rcases List.mem_append.mp hp with hp | hp
        · exact hpre p hp
        · rw [List.mem_singleton.mp hp]
          exact hpass
      rw [coalesceLoop]
      rcases adjacent_cases hx.fits hr.fits with
        ⟨hadj, hret⟩ | ⟨hne, hadj, hret⟩ | ⟨hne, hne', hret⟩
      · simp only [hret]
        rw [if_pos (by decide)]
        split
        · rename_i hflags
          exact .blocked hsplit hpre hadj hflags
        · rename_i hflags
          have hbase : sub W r.base x.size = x.base := by
            have := hr.fits
            rw [hadj, sub_eq (by unfold Region.stop; lia) hx.fits]
            unfold Region.stop
            lia
          have hsize : add W r.size x.size = r.size + x.size := by
            have := hr.fits
            refine add_eq ?_
            unfold Region.stop at *
            lia
          rw [hbase, hsize, hsplit, set_append_length, <- hsplit]
          exact .grownLeft hsplit hpre hadj (not_not.mp hflags)
      · simp only [hret]
        rw [if_neg (by decide), if_pos (by decide)]
        split
        · rename_i hflags
          exact hnext ⟨.inl (Nat.le_of_eq hadj), hne, fun _ => hflags⟩
        · rename_i hflags
          have hsize : add W r.size x.size = r.size + x.size := by
            have := hx.fits
            refine add_eq ?_
            unfold Region.stop at *
            lia
          rw [hsize, hsplit, set_append_length, <- hsplit]
          exact .grownRight hsplit hpre hadj (not_not.mp hflags)
      · simp only [hret]
        rw [if_neg (by decide), if_neg (by decide)]
        by_cases hov : lmbAddrsOverlap W x.base x.size r.base r.size = true
        · rw [if_pos hov]
          exact .resized hsplit hpre ((overlap_iff hx hr).mp hov)
        · rw [if_neg hov]
          have hapart : Apart r x := by
            by_contra hnot
            exact hov ((overlap_iff hx hr).mpr hnot)
          exact hnext ⟨hapart, hne, fun heq => absurd heq hne'⟩

theorem coalesceLoop_exit {l : List LmbRegion} {x : LmbRegion} (hx : Request W x)
    (hl : forall r, r ∈ l -> Request W r) :
    LoopExit W l x (coalesceLoop W l x.base x.size x.flags l 0) :=
  coalesceLoop_exit_from hx hl l [] rfl (by simp)

/-- What the loop passed before a region that begins below the end of the
request lies below the request. -/
theorem Passed.below {x r p : LmbRegion} (hp : Passed x p) (hpos : 0 < p.size)
    (hpr : p.stop ≤ r.base) (hr : r.base ≤ x.stop) : p.stop ≤ x.base := by
  rcases hp.apart with h | h
  · exact h
  · unfold Region.stop at *
    lia

/-!
## Resizing
-/

theorem resizeScan_apart {x : LmbRegion} (hx : Request W x) {post : List LmbRegion}
    (hpost : forall p, p ∈ post -> Request W p ∧ Apart p x) (idx cnt idxEnd : Nat) :
    resizeScan W x.base x.size post idx cnt idxEnd = some (cnt, idxEnd) := by
  induction post generalizing idx with
  | nil => rfl
  | cons p post ih =>
      have hp := hpost p List.mem_cons_self
      have hov : ¬ lmbAddrsOverlap W x.base x.size p.base p.size = true :=
        fun hov => (overlap_iff hx hp.left).mp hov hp.right
      rw [resizeScan, if_neg hov]
      exact ih (fun q hq => hpost q (List.mem_cons_of_mem p hq)) (idx + 1)

theorem resizeScan_overlap {x : LmbRegion} (hx : Request W x)
    {mid post : List LmbRegion}
    (hmid : forall m, m ∈ mid -> Request W m ∧ ¬ Apart m x ∧ m.flags = LMB_NONE)
    (hpost : forall p, p ∈ post -> Request W p ∧ Apart p x) (idx cnt idxEnd : Nat) :
    resizeScan W x.base x.size (mid ++ post) idx cnt idxEnd =
      some (cnt + mid.length, if mid = [] then idxEnd else idx + mid.length - 1) := by
  induction mid generalizing idx cnt idxEnd with
  | nil => simpa using resizeScan_apart hx hpost idx cnt idxEnd
  | cons m mid ih =>
      have hm := hmid m List.mem_cons_self
      rw [List.cons_append, resizeScan,
        if_pos ((overlap_iff hx hm.left).mpr hm.right.left),
        if_neg (not_not.mpr hm.right.right),
        ih (fun q hq => hmid q (List.mem_cons_of_mem m hq))]
      cases mid with
      | nil => simp
      | cons q mid =>
          simp only [List.length_cons, if_neg (List.cons_ne_nil _ _), Option.some.injEq,
            Prod.mk.injEq]
          lia

theorem removeMerged_append (pre mid post : List LmbRegion) (h : LmbRegion) :
    removeMerged (pre ++ h :: (mid ++ post)) (pre.length + 1) mid.length =
      pre ++ h :: post := by
  induction mid with
  | nil => rfl
  | cons m mid ih =>
      rw [List.length_cons, removeMerged, lmbRemoveRegion]
      have herase : (pre ++ h :: (m :: mid ++ post)).eraseIdx (pre.length + 1) =
          pre ++ h :: (mid ++ post) := by
        rw [List.eraseIdx_append_of_length_le (by simp)]
        simp
      rw [herase]
      exact ih

/-- The region that unites a request with the regions it overlaps, from the
first one `r` to the last one `last`. -/
def hull (x r last : LmbRegion) : LmbRegion :=
  { r with base := min x.base r.base,
           size := max last.stop x.stop - min x.base r.base }

theorem lmbResizeRegions_eq {x r : LmbRegion} (hx : Request W x)
    {pre mid post : List LmbRegion}
    (hmid : forall m, m ∈ r :: mid -> Request W m ∧ ¬ Apart m x ∧ m.flags = LMB_NONE)
    (hpost : forall p, p ∈ post -> Request W p ∧ Apart p x) :
    lmbResizeRegions W (pre ++ r :: (mid ++ post)) pre.length x.base x.size =
      some (pre ++ hull x r ((r :: mid).getLast (List.cons_ne_nil _ _)) :: post) := by
  have hscan := resizeScan_overlap hx hmid hpost pre.length 0 pre.length
  have hlast : (pre ++ r :: (mid ++ post))[pre.length + (mid.length + 1) - 1]? =
      some ((r :: mid).getLast (List.cons_ne_nil _ _)) := by
    rw [List.getElem?_append_right (by lia), <- List.cons_append,
      List.getElem?_append_left (by simp), List.getLast_eq_getElem,
      List.getElem?_eq_getElem (by simp)]
    congr 2
    simp
  have hend := (hmid _ (List.getLast_mem (List.cons_ne_nil r mid))).left.fits
  have hsub : sub W (max ((r :: mid).getLast (List.cons_ne_nil _ _)).stop x.stop)
      (min x.base r.base) =
      max ((r :: mid).getLast (List.cons_ne_nil _ _)).stop x.stop -
        min x.base r.base := by
    refine sub_eq ?_ (Nat.max_lt.mpr ⟨hend, hx.fits⟩)
    refine Nat.le_trans (Nat.min_le_left _ _) (Nat.le_trans ?_ (Nat.le_max_right _ _))
    exact Nat.le_add_right _ _
  simp only [lmbResizeRegions, List.drop_left, List.cons_append] at *
  rw [hscan]
  simp only [List.cons_ne_nil, if_false, List.length_cons, Option.bind_eq_bind,
    Option.bind_some, hlast, List.getElem?_append_right (Nat.le_refl _), Nat.sub_self,
    List.getElem?_cons_zero, add_stop hx.fits, add_stop hend, hsub, set_append_length]
  have hcnt : 0 + (mid.length + 1) - 1 = mid.length := by lia
  rw [hcnt, removeMerged_append]
  rfl

theorem hull_stop (x r last : LmbRegion) :
    (hull x r last).stop = max last.stop x.stop := by
  have hle : min x.base r.base ≤ max last.stop x.stop :=
    Nat.le_trans (Nat.min_le_left _ _)
      (Nat.le_trans (Nat.le_add_right _ _) (Nat.le_max_right _ _))
  unfold hull Region.stop at *
  dsimp only at *
  lia

theorem hull_covers {x r : LmbRegion} {mid : List LmbRegion}
    (hord : Ordered (r :: mid)) (hmid : forall m, m ∈ r :: mid -> ¬ Apart m x) (a : Nat) :
    (hull x r ((r :: mid).getLast (List.cons_ne_nil _ _))).Covers a <->
      (x.base ≤ a ∧ a < x.stop) ∨ exists m, m ∈ r :: mid ∧ m.Covers a := by
  have hlastmem := List.getLast_mem (List.cons_ne_nil r mid)
  have hlast := hmid _ hlastmem
  have hfirst := hmid r List.mem_cons_self
  have hle : forall m, m ∈ r :: mid ->
      r.base ≤ m.base ∧ m.stop ≤ ((r :: mid).getLast (List.cons_ne_nil _ _)).stop :=
    fun m hm => ⟨hord.head_le hm, hord.le_getLast _ hm⟩
  revert hle hlast hlastmem
  generalize (r :: mid).getLast (List.cons_ne_nil _ _) = last
  intro hlastmem hlast hle
  have hcov : (hull x r last).Covers a <->
      min x.base r.base ≤ a ∧ a < max last.stop x.stop := by
    unfold Region.Covers
    rw [hull_stop]
    rfl
  rw [hcov]
  unfold Apart at hfirst hlast
  constructor
  · intro ha
    by_cases hxa : x.base ≤ a ∧ a < x.stop
    · exact .inl hxa
    · right
      by_cases hlow : a < x.base
      · exact ⟨r, List.mem_cons_self, by lia, by lia⟩
      · exact ⟨last, hlastmem, by lia, by lia⟩
  · rintro (ha | ⟨m, hm, ha⟩)
    · lia
    · have hb := hle m hm
      have h1 := ha.left
      have h2 := ha.right
      lia

/-!
## The neighbour
-/

theorem fixNeighbour_ordered {pre post : List LmbRegion} {h : LmbRegion}
    (hord : Ordered (pre ++ h :: post))
    (hreq : forall r, r ∈ pre ++ h :: post -> Request W r) (c : Nat) :
    (exists s post', post = s :: post' ∧ s.flags = h.flags ∧ s.base = h.stop ∧
      fixNeighbour W (pre ++ h :: post) pre.length c =
        (pre ++ { h with size := h.size + s.size } :: post', some (c + 1))) ∨
    ((forall s post', post = s :: post' -> ¬ (s.flags = h.flags ∧ s.base = h.stop)) ∧
      fixNeighbour W (pre ++ h :: post) pre.length c =
        (pre ++ h :: post, some c)) := by
  have hget : (pre ++ h :: post)[pre.length]? = some h := by simp
  cases post with
  | nil =>
      right
      refine ⟨fun s post' heq => absurd heq (by simp), ?_⟩
      unfold fixNeighbour
      simp
  | cons s post =>
      have hget' : (pre ++ h :: s :: post)[pre.length + 1]? = some s := by
        rw [List.getElem?_append_right (by lia)]
        simp
      have hh : Request W h := hreq h (by simp)
      have hs : Request W s := hreq s (by simp)
      have hle : h.stop ≤ s.base :=
        (ordered_cons.mp (ordered_append.mp hord).right.left).right.right s (by simp)
      have hov : lmbAddrsOverlap W h.base h.size s.base s.size = false := by
        rw [Bool.eq_false_iff]
        exact fun hov => (overlap_iff hh hs).mp hov (.inr hle)
      have hpos := hs.pos
      have hpos' := hh.pos
      have hfits := hs.fits
      simp only [fixNeighbour, hget, hget', lmbRegionsCheck, hov]
      by_cases hflags : h.flags = s.flags
      · rw [if_neg (not_not.mpr hflags)]
        rcases adjacent_cases hh.fits hs.fits with
          ⟨hadj, hret⟩ | ⟨_, hadj, _⟩ | ⟨hne, _, hret⟩
        · left
          refine ⟨s, post, rfl, hflags.symm, hadj, ?_⟩
          have hsize : add W h.size s.size = h.size + s.size := by
            refine add_eq ?_
            unfold Region.stop at *
            lia
          rw [hret]
          simp only [Bool.false_eq_true, if_false, if_pos (show ((1 : Int) ≠ 0) by decide),
            lmbCoalesceRegions, lmbRemoveRegion, set_append_length, hsize]
          rw [List.eraseIdx_append_of_length_le (by simp)]
          simp
        · exfalso
          unfold Region.stop at *
          lia
        · right
          refine ⟨?_, ?_⟩
          · intro t post' heq hboth
            rw [<- (List.cons.inj heq).left] at hboth
            exact hne hboth.right
          · rw [hret]
            simp
      · right
        refine ⟨?_, ?_⟩
        · intro t post' heq hboth
          rw [<- (List.cons.inj heq).left] at hboth
          exact hflags hboth.left.symm
        · rw [if_pos hflags]

/-!
## Inserting
-/

theorem insertIndex_append {low high : List LmbRegion} {base : Nat}
    (hlow : forall r, r ∈ low -> r.base ≤ base)
    (hhigh : forall r, r ∈ high -> base < r.base) :
    forall k, k ≤ high.length ->
      insertIndex (low ++ high) base (low.length + k) = low.length := by
  intro k
  induction k with
  | zero =>
      intro _
      cases hn : low.length with
      | zero => rfl
      | succ n =>
          have hlt : n < low.length := by lia
          rw [Nat.add_zero, insertIndex, List.getElem?_append_left hlt,
            List.getElem?_eq_getElem hlt]
          have := hlow _ (List.getElem_mem hlt)
          simp only [if_neg (Nat.not_lt.mpr this)]
  | succ k ih =>
      intro hk
      have hlt : k < high.length := hk
      rw [<- Nat.add_assoc, insertIndex, List.getElem?_append_right (by lia),
        Nat.add_sub_cancel_left, List.getElem?_eq_getElem hlt]
      simp only [if_pos (hhigh _ (List.getElem_mem hlt))]
      exact ih (by lia)

theorem insertIdx_append (low high : List LmbRegion) (x : LmbRegion) :
    (low ++ high).insertIdx low.length x = low ++ x :: high := by
  induction low with
  | nil => simp
  | cons r low ih => simpa using ih

/-- A region that none of an ordered list touches is put between those below
and those above it. -/
theorem insert_merges {l : List LmbRegion} {x : LmbRegion} (hx : 0 < x.size)
    (hl : Ordered l) (hapart : forall r, r ∈ l -> Apart r x) :
    exists pre post, Merges l (l.insertIdx (insertIndex l x.base l.length) x)
      x.base x.stop x.flags pre [] post x := by
  rcases hl.split_at x.base with ⟨low, high, rfl, hlow, hhigh⟩
  have hlow' : forall r, r ∈ low -> r.stop ≤ x.base := by
    intro r hr
    have := hlow r hr
    have := hapart r (List.mem_append_left _ hr)
    unfold Apart Region.stop at *
    lia
  have hhigh' : forall r, r ∈ high -> x.stop ≤ r.base := by
    intro r hr
    have := hhigh r hr
    have := hl.pos r (List.mem_append_right _ hr)
    have := hapart r (List.mem_append_right _ hr)
    unfold Apart Region.stop at *
    lia
  refine ⟨low, high, by simp, ?_, rfl, by simp, ?_, hx, hlow', hhigh'⟩
  · rw [List.length_append, insertIndex_append (fun r hr => Nat.le_of_lt (hlow r hr)) ?_
      high.length (Nat.le_refl _)]
    · rw [insertIdx_append]
      simp
    · intro r hr
      have := hhigh' r hr
      unfold Region.stop at this
      lia
  · intro a
    simp [Region.Covers]

/-!
## Lost requests
-/

instance (r s : LmbRegion) : Decidable (Apart r s) :=
  inferInstanceAs (Decidable (_ ∨ _))

/-- The loop is left at a region that begins at the end of the request and has
other flags, and this region and the next one touch and agree in their flags:
the two are united, and this is taken for a union with the request. -/
def drops (x : LmbRegion) : List LmbRegion -> Bool
  | [] => false
  | r :: rest =>
      if r.base = x.stop then
        r.flags ≠ x.flags &&
          rest.head?.any (fun s => s.flags = r.flags && s.base = r.stop)
      else if Apart r x ∧ ¬ (r.stop = x.base ∧ r.flags = x.flags) then drops x rest
      else false

theorem drops_passed {x : LmbRegion} {pre : List LmbRegion}
    (hpre : forall p, p ∈ pre -> Passed x p) (rest : List LmbRegion) :
    drops x (pre ++ rest) = drops x rest := by
  induction pre with
  | nil => rfl
  | cons p pre ih =>
      have hp := hpre p List.mem_cons_self
      rw [List.cons_append, drops, if_neg hp.notNext, if_pos ⟨hp.apart, fun h =>
        hp.otherFlags h.left h.right.symm⟩]
      exact ih (fun q hq => hpre q (List.mem_cons_of_mem p hq))

theorem drops_stopped {x r : LmbRegion} {pre post : List LmbRegion}
    (hpre : forall p, p ∈ pre -> Passed x p)
    (hr : r.flags = x.flags ∧ (r.base = x.stop ∨ r.stop = x.base) ∨
      r.base ≠ x.stop ∧ ¬ Apart r x) :
    drops x (pre ++ r :: post) = false := by
  rw [drops_passed hpre, drops]
  split
  · rename_i hbase
    rcases hr with hr | hr
    · simp [hr.left]
    · exact absurd hbase hr.left
  · rename_i hbase
    rw [if_neg]
    rintro ⟨hapart, hnot⟩
    rcases hr with ⟨hflags, hr | hr⟩ | hr
    · exact hbase hr
    · exact hnot ⟨hr, hflags⟩
    · exact hr.right hapart

/-!
## The whole function
-/

def Added (l l' : List LmbRegion) (x : LmbRegion) : Prop :=
  exists pre mid post h, Merges l l' x.base x.stop x.flags pre mid post h

def Joined (l l' : List LmbRegion) : Prop :=
  exists f pre mid post h, Merges l l' 0 0 f pre mid post h

inductive AddResult (l : List LmbRegion) (x : LmbRegion) : Int × List LmbRegion -> Prop
    where
  | added {l' : List LmbRegion} : drops x l = false -> Added l l' x ->
      AddResult l x (0, l')
  | lost {l' : List LmbRegion} : drops x l = true -> Joined l l' ->
      AddResult l x (0, l')

/-- The request begins at the end of one region, overlaps the next ones and ends
at the base of another, all with the flags of the request.  The last of them is
not united with the others. -/
def bridges (x : LmbRegion) (l : List LmbRegion) : Bool :=
  l.any (fun r => r.stop = x.base && r.flags = x.flags) &&
    l.any (fun r => ¬ Apart r x) &&
    l.any (fun r => r.base = x.stop && r.flags = x.flags)

/-- The united region `h` touches no region with its flags, except at an edge of
a region that it was made of, and behind a request that bridges. -/
structure Snug (l : List LmbRegion) (x : LmbRegion) (pre mid post : List LmbRegion)
    (h : LmbRegion) : Prop where
  left : forall r, r ∈ pre -> r.stop = h.base -> r.flags = x.flags ->
    exists q, q ∈ mid ∧ r.stop = q.base
  right : forall s, s ∈ post -> h.stop = s.base -> s.flags = x.flags ->
    (exists q, q ∈ mid ∧ q.stop = s.base) ∨ bridges x l = true

/-- What adding the request `x` to the list `l` gives, with the neighbours of the
united region. -/
inductive AddOutcome (l : List LmbRegion) (x : LmbRegion) :
    Int × List LmbRegion -> Prop where
  | added {l' pre mid post : List LmbRegion} {h : LmbRegion} : drops x l = false ->
      Merges l l' x.base x.stop x.flags pre mid post h -> Snug l x pre mid post h ->
      AddOutcome l x (0, l')
  | lost {l' : List LmbRegion} : drops x l = true -> Joined l l' ->
      AddOutcome l x (0, l')

theorem AddOutcome.result {l : List LmbRegion} {x : LmbRegion}
    {out : Int × List LmbRegion} (h : AddOutcome l x out) : AddResult l x out := by
  cases h with
  | added hd m _ => exact .added hd ⟨_, _, _, _, m⟩
  | lost hd hj => exact .lost hd hj

theorem drops_separated {l : List LmbRegion} (hl : Separated l) (x : LmbRegion) :
    drops x l = false := by
  induction l with
  | nil => rfl
  | cons r l ih =>
      have htail : Separated l := fun p hp q hq =>
        hl p (List.mem_cons_of_mem r hp) q (List.mem_cons_of_mem r hq)
      rw [drops]
      split
      · cases l with
        | nil => simp
        | cons s l =>
            have hrs := hl r List.mem_cons_self s (by simp)
            simp only [List.head?_cons, Option.any_some, Bool.and_eq_false_iff,
              decide_eq_false_iff_not]
            right
            by_cases hbase : s.base = r.stop
            · exact .inl (fun heq => hrs hbase.symm heq.symm)
            · exact .inr hbase
      · split
        · exact ih htail
        · rfl

theorem AddOutcome.separated {l : List LmbRegion} {x : LmbRegion}
    {out : Int × List LmbRegion} (h : AddOutcome l x out) (hl : Separated l)
    (hbridge : bridges x l = false) : Separated out.2 := by
  cases h with
  | added _ m hs =>
      refine m.separated hl hs.left (fun s hsm htouch hflags => ?_)
      rcases hs.right s hsm htouch hflags with hq | hb
      · exact hq
      · rw [hbridge] at hb
        cases hb
  | lost hd _ =>
      rw [drops_separated hl x] at hd
      cases hd

/-- The second and third part of the function, behind a loop that united the
request with a region. -/
theorem AddOutcome.of_united {l l1 : List LmbRegion} {x : LmbRegion}
    {pre mid post : List LmbRegion} {h : LmbRegion}
    (hl : Ordered l) (hreq : forall r, r ∈ l1 -> Request W r)
    (m : Merges l l1 x.base x.stop x.flags pre mid post h)
    (hleft : forall r, r ∈ pre -> r.stop = h.base -> r.flags = x.flags ->
      exists q, q ∈ mid ∧ r.stop = q.base)
    (hloop : coalesceLoop W l x.base x.size x.flags l 0 = some (l1, pre.length, 1))
    (hdrops : drops x l = false) :
    AddOutcome l x (lmbAddRegionFlags W l x.base x.size x.flags) := by
  have hl1 := m.ordered hl
  have heq : l1 = pre ++ h :: post := by simp [m.result]
  rw [heq] at hl1 hreq hloop
  unfold lmbAddRegionFlags
  rw [hloop]
  rcases fixNeighbour_ordered hl1 hreq 1 with
    ⟨s, post', rfl, hflags, hbase, hfix⟩ | ⟨hnone, hfix⟩
  · simp only [hfix, if_pos (Nat.succ_ne_zero _)]
    have hm := m.coalesce hl (hflags.trans m.flags) hbase
    rw [List.append_assoc, List.singleton_append] at hm
    refine .added hdrops hm ⟨fun r hr htouch hf => ?_, fun t _ htouch _ => .inl ?_⟩
    · rcases hleft r hr htouch hf with ⟨q, hq, heq⟩
      exact ⟨q, List.mem_append_left _ hq, heq⟩
    · -- the end of the united region is the end of its neighbour
      refine ⟨s, by simp, ?_⟩
      rw [<- htouch]
      unfold Region.stop at *
      dsimp only
      lia
  · simp only [hfix, if_pos (Nat.succ_ne_zero _)]
    rw [<- heq]
    refine .added hdrops m ⟨hleft, fun s hs htouch hf => ?_⟩
    exfalso
    have htail := ordered_cons.mp (ordered_append.mp hl1).right.left
    cases post with
    | nil => cases hs
    | cons t post =>
        rcases List.mem_cons.mp hs with rfl | hs
        · exact hnone s post rfl ⟨hf.trans m.flags.symm, htouch.symm⟩
        · have h1 := htail.right.right t List.mem_cons_self
          have h2 := (ordered_cons.mp htail.right.left).right.right s hs
          have h3 := (ordered_cons.mp htail.right.left).left
          unfold Region.stop at *
          lia

theorem AddOutcome.of_inserted {l : List LmbRegion} {x : LmbRegion} {i : Nat}
    (hx : 0 < x.size) (hl : Ordered l)
    (hloop : coalesceLoop W l x.base x.size x.flags l 0 = some (l, i, 0))
    (hfix : fixNeighbour W l i 0 = (l, some 0))
    (hapart : forall r, r ∈ l -> Apart r x)
    (hleft : forall r, r ∈ l -> r.stop = x.base -> r.flags ≠ x.flags)
    (hright : forall r, r ∈ l -> x.stop = r.base -> r.flags ≠ x.flags)
    (hdrops : drops x l = false) :
    AddOutcome l x (lmbAddRegionFlags W l x.base x.size x.flags) := by
  rcases insert_merges hx hl hapart with ⟨pre, post, m⟩
  unfold lmbAddRegionFlags
  simp only [hloop, hfix, if_neg (not_not.mpr rfl)]
  refine .added hdrops m ⟨fun r hr htouch hf => ?_, fun s hs htouch hf => ?_⟩
  · exact absurd hf (hleft r (by simp [m.source, hr]) htouch)
  · exact absurd hf (hright s (by simp [m.source, hs]) htouch)

theorem requests_of_merges {l l' pre mid post : List LmbRegion} {lo hi f : Nat}
    {h : LmbRegion} (m : Merges l l' lo hi f pre mid post h) (hhi : hi < 2 ^ W)
    (hl : Ordered l) (hreq : forall r, r ∈ l -> Request W r) :
    forall r, r ∈ l' -> Request W r := by
  intro r hr
  refine ⟨(m.ordered hl).pos r hr, ?_⟩
  have hle := m.stop_le (Nat.le_pred_of_lt hhi)
    (fun q hq => Nat.le_pred_of_lt (hreq q hq).fits) r hr
  exact Nat.lt_of_le_pred (Nat.two_pow_pos W) hle

section

variable {l pre post : List LmbRegion} {x r : LmbRegion}

theorem AddOutcome.of_blocked (hx : Request W x) (hl : Ordered l)
    (hreq : forall r, r ∈ l -> Request W r)
    (hloop : coalesceLoop W l x.base x.size x.flags l 0 = some (l, pre.length, 0))
    (hsplit : l = pre ++ r :: post) (hpre : forall p, p ∈ pre -> Passed x p)
    (hr : r.base = x.stop) (hflags : x.flags ≠ r.flags) :
    AddOutcome l x (lmbAddRegionFlags W l x.base x.size x.flags) := by
  subst hsplit
  have htail := (ordered_append.mp hl).right.left
  have hdrops : drops x (pre ++ r :: post) =
      post.head?.any (fun s => s.flags = r.flags && s.base = r.stop) := by
    rw [drops_passed hpre, drops, if_pos hr]
    simp [hflags.symm]
  rcases fixNeighbour_ordered hl hreq 0 with
    ⟨s, post', rfl, hsflags, hbase, hfix⟩ | ⟨hnone, hfix⟩
  · -- the region behind the request is united with the next one
    unfold lmbAddRegionFlags
    simp only [hloop, hfix, if_pos (Nat.succ_ne_zero _)]
    have hpos : 0 < r.size := hl.pos r (by simp)
    have hself : Merges (pre ++ r :: s :: post') (pre ++ r :: s :: post') 0 0 r.flags pre
        [r] (s :: post') r := by
      refine ⟨by simp, by simp, rfl, by simp, by simp, hpos, ?_, ?_⟩
      · exact fun p hp => (ordered_append.mp hl).right.right p hp r List.mem_cons_self
      · exact (ordered_cons.mp htail).right.right
    refine .lost (by simp [hdrops, hsflags, hbase]) ⟨r.flags, pre, [r] ++ [s], post',
      { r with size := r.size + s.size }, ?_⟩
    simpa using hself.coalesce hl hsflags hbase
  · refine AddOutcome.of_inserted hx.pos hl hloop hfix (fun p hp => ?_)
      (fun p hp htouch hf => ?_) (fun p hp htouch hf => ?_) ?_
    · rcases List.mem_append.mp hp with hp | hp
      · exact (hpre p hp).apart
      · right
        rw [<- hr]
        exact htail.head_le hp
    · rcases List.mem_append.mp hp with hp | hp
      · exact (hpre p hp).otherFlags htouch hf.symm
      · have h1 := htail.head_le hp
        have h2 := hx.pos
        unfold Region.stop at *
        lia
    · rcases List.mem_append.mp hp with hp | hp
      · exact (hpre p hp).notNext htouch.symm
      · rcases List.mem_cons.mp hp with rfl | hp
        · exact hflags hf.symm
        · have h1 := (ordered_cons.mp htail).right.right p hp
          have h2 := (ordered_cons.mp htail).left
          unfold Region.stop at *
          lia
    · rw [hdrops]
      cases post with
      | nil => rfl
      | cons s post =>
          have := hnone s post rfl
          simpa using this

theorem AddOutcome.of_grownLeft (hx : Request W x) (hl : Ordered l)
    (hreq : forall r, r ∈ l -> Request W r)
    (hloop : coalesceLoop W l x.base x.size x.flags l 0 =
      some (pre ++ { r with base := x.base, size := r.size + x.size } :: post,
        pre.length, 1))
    (hsplit : l = pre ++ r :: post) (hpre : forall p, p ∈ pre -> Passed x p)
    (hr : r.base = x.stop) (hflags : x.flags = r.flags) :
    AddOutcome l x (lmbAddRegionFlags W l x.base x.size x.flags) := by
  subst hsplit
  have hparts := ordered_append.mp hl
  have htail := ordered_cons.mp hparts.right.left
  have hstop : Region.stop { r with base := x.base, size := r.size + x.size } = r.stop := by
    unfold Region.stop at *
    dsimp only
    lia
  have hm : Merges (pre ++ r :: post)
      (pre ++ { r with base := x.base, size := r.size + x.size } :: post)
      x.base x.stop x.flags pre [r] post
      { r with base := x.base, size := r.size + x.size } := by
    refine ⟨by simp, by simp, hflags.symm, by simp [hflags], ?_, ?_, ?_, ?_⟩
    · intro a
      unfold Region.Covers
      rw [hstop]
      simp only [List.mem_singleton, exists_eq_left]
      unfold Region.stop at *
      lia
    · dsimp only
      have := htail.left
      lia
    · intro p hp
      refine (hpre p hp).below (hl.pos p (by simp [hp])) ?_ (Nat.le_of_eq hr)
      exact hparts.right.right p hp r List.mem_cons_self
    · intro p hp
      rw [hstop]
      exact htail.right.right p hp
  exact AddOutcome.of_united hl (requests_of_merges hm hx.fits hl hreq) hm
    (fun p hp htouch hf => absurd hf.symm ((hpre p hp).otherFlags htouch)) hloop
    (drops_stopped hpre (.inl ⟨hflags.symm, .inl hr⟩))

theorem AddOutcome.of_grownRight (hx : Request W x) (hl : Ordered l)
    (hreq : forall r, r ∈ l -> Request W r)
    (hloop : coalesceLoop W l x.base x.size x.flags l 0 =
      some (pre ++ { r with size := r.size + x.size } :: post, pre.length, 1))
    (hsplit : l = pre ++ r :: post) (hpre : forall p, p ∈ pre -> Passed x p)
    (hr : r.stop = x.base) (hflags : x.flags = r.flags)
    (hpost : forall p, p ∈ post -> x.stop ≤ p.base) :
    AddOutcome l x (lmbAddRegionFlags W l x.base x.size x.flags) := by
  subst hsplit
  have hparts := ordered_append.mp hl
  have hm : Merges (pre ++ r :: post) (pre ++ { r with size := r.size + x.size } :: post)
      x.base x.stop x.flags pre [r] post { r with size := r.size + x.size } := by
    refine ⟨by simp, by simp, hflags.symm, by simp [hflags], ?_, ?_, ?_, ?_⟩
    · intro a
      simp only [List.mem_singleton, exists_eq_left]
      unfold Region.Covers Region.stop at *
      dsimp only
      lia
    · exact Nat.add_pos_left (ordered_cons.mp hparts.right.left).left _
    · exact fun p hp => hparts.right.right p hp r List.mem_cons_self
    · intro p hp
      have := hpost p hp
      unfold Region.stop at *
      dsimp only
      lia
  exact AddOutcome.of_united hl (requests_of_merges hm hx.fits hl hreq) hm
    (fun p hp htouch _ => ⟨r, List.mem_singleton_self r, htouch⟩) hloop
    (drops_stopped hpre (.inl ⟨hflags.symm, .inr hr⟩))

theorem AddOutcome.of_grownRight_overlap {s : LmbRegion} {mid : List LmbRegion}
    (hx : Request W x) (hl : Ordered l)
    (hreq : forall r, r ∈ l -> Request W r)
    (hloop : coalesceLoop W l x.base x.size x.flags l 0 =
      some (pre ++ { r with size := r.size + x.size } :: (s :: mid ++ post),
        pre.length, 1))
    (hsplit : l = pre ++ r :: (s :: mid ++ post)) (hpre : forall p, p ∈ pre -> Passed x p)
    (hr : r.stop = x.base) (hflags : x.flags = r.flags) (hxflags : x.flags = LMB_NONE)
    (hmid : forall m, m ∈ s :: mid -> m.base < x.stop ∧ m.flags = LMB_NONE)
    (hpost : forall p, p ∈ post -> x.stop ≤ p.base) :
    AddOutcome l x (lmbAddRegionFlags W l x.base x.size x.flags) := by
  subst hsplit
  have hparts := ordered_append.mp hl
  have htail := ordered_cons.mp hparts.right.left
  have hmidord := (ordered_append.mp htail.right.left).left
  -- the extended region, as the request of the second part
  generalize hy : ({ r with size := r.size + x.size } : LmbRegion) = y at hloop
  have hybase : y.base = r.base := by rw [<- hy]
  have hystop : y.stop = x.stop := by
    rw [<- hy]
    unfold Region.stop at *
    dsimp only
    lia
  have hyflags : y.flags = LMB_NONE := by rw [<- hy, <- hxflags, hflags]
  have hyreq : Request W y := by
    refine ⟨?_, by rw [hystop]; exact hx.fits⟩
    rw [<- hy]
    exact Nat.add_pos_left htail.left _
  have hafter : forall m, m ∈ s :: mid -> x.base ≤ m.base := by
    intro m hm
    rw [<- hr]
    exact htail.right.right m (List.mem_append_left _ hm)
  have hover : forall m, m ∈ y :: s :: mid ->
      Request W m ∧ ¬ Apart m y ∧ m.flags = LMB_NONE := by
    intro m hm
    rcases List.mem_cons.mp hm with rfl | hm
    · refine ⟨hyreq, ?_, hyflags⟩
      have := hyreq.pos
      unfold Apart Region.stop
      lia
    · have h1 := hmid m hm
      have h2 := hafter m hm
      have h3 := hreq m (by simp only [List.mem_append, List.mem_cons] at hm ⊢; tauto)
      refine ⟨h3, ?_, h1.right⟩
      have := h3.pos
      have := hx.pos
      have := htail.left
      unfold Apart
      rw [hystop, hybase]
      unfold Region.stop at *
      lia
  have hclear : forall p, p ∈ post -> Request W p ∧ Apart p y := by
    intro p hp
    refine ⟨hreq p (by simp [hp]), .inr ?_⟩
    rw [hystop]
    exact hpost p hp
  have hresize : lmbResizeRegions W (pre ++ y :: (s :: mid ++ post)) pre.length y.base
      y.size = some (pre ++ hull y y ((y :: s :: mid).getLast (List.cons_ne_nil _ _)) ::
        post) :=
    lmbResizeRegions_eq hyreq hover hclear
  have hfix : fixNeighbour W (pre ++ y :: (s :: mid ++ post)) pre.length 1 =
      (pre ++ hull y y ((y :: s :: mid).getLast (List.cons_ne_nil _ _)) :: post,
        some 2) := by
    have hs := hover s (by simp)
    have hget : (pre ++ y :: (s :: mid ++ post))[pre.length]? = some y := by simp
    have hget' : (pre ++ y :: (s :: mid ++ post))[pre.length + 1]? = some s := by
      rw [List.getElem?_append_right (by lia)]
      simp
    have hov := (overlap_iff hyreq hs.left).mpr hs.right.left
    simp only [fixNeighbour, hget, hget', lmbRegionsCheck, hov, hyflags, hs.right.right,
      hresize]
    rfl
  have hullbase : (hull y y ((y :: s :: mid).getLast (List.cons_ne_nil _ _))).base =
      r.base := by
    rw [<- hybase]
    exact Nat.min_self _
  have hlastmem : (y :: s :: mid).getLast (List.cons_ne_nil _ _) ∈ s :: mid := by
    rw [List.getLast_cons (List.cons_ne_nil _ _)]
    exact List.getLast_mem _
  have hm : Merges (pre ++ r :: (s :: mid ++ post))
      (pre ++ hull y y ((y :: s :: mid).getLast (List.cons_ne_nil _ _)) :: post)
      x.base x.stop x.flags pre (r :: s :: mid) post
      (hull y y ((y :: s :: mid).getLast (List.cons_ne_nil _ _))) := by
    refine ⟨by simp, by simp, ?_, ?_, ?_, ?_, ?_, ?_⟩
    · rw [hxflags]
      exact hyflags
    · intro m hm
      rcases List.mem_cons.mp hm with rfl | hm
      · exact hflags.symm
      · rw [hxflags]
        exact (hmid m hm).right
    · intro a
      have hlast : (y :: s :: mid).getLast (List.cons_ne_nil _ _) =
          (s :: mid).getLast (List.cons_ne_nil _ _) :=
        List.getLast_cons (List.cons_ne_nil _ _)
      have hbase : min y.base y.base = min y.base s.base := by
        have := hafter s List.mem_cons_self
        rw [hybase]
        unfold Region.stop at hr
        lia
      have hsame : (hull y y ((s :: mid).getLast (List.cons_ne_nil _ _))).Covers a <->
          (hull y s ((s :: mid).getLast (List.cons_ne_nil _ _))).Covers a := by
        unfold Region.Covers
        rw [hull_stop, hull_stop]
        unfold hull
        rw [hbase]
      rw [hlast, hsame,
        hull_covers hmidord (fun m hm => (hover m (by simp [hm])).right.left) a]
      have hy' : y.base ≤ a ∧ a < y.stop <-> (x.base ≤ a ∧ a < x.stop) ∨ r.Covers a := by
        rw [hybase, hystop]
        unfold Region.Covers Region.stop at *
        lia
      rw [hy', or_assoc]
      simp only [List.mem_cons, or_and_right, exists_or, exists_eq_left]
    · have hpos := hyreq.pos
      have hle : y.stop ≤
          (hull y y ((y :: s :: mid).getLast (List.cons_ne_nil _ _))).stop := by
        rw [hull_stop]
        exact Nat.le_max_right _ _
      unfold Region.stop at hle
      rw [hullbase, <- hybase] at hle
      lia
    · intro p hp
      rw [hullbase]
      exact hparts.right.right p hp r List.mem_cons_self
    · intro p hp
      rw [hull_stop, hystop]
      refine Nat.max_le.mpr ⟨?_, hpost p hp⟩
      exact (ordered_append.mp htail.right.left).right.right _ hlastmem p hp
  unfold lmbAddRegionFlags
  simp only [hloop, hfix, if_pos (Nat.succ_ne_zero _)]
  refine .added (drops_stopped hpre (.inl ⟨hflags.symm, .inr hr⟩)) hm
    ⟨fun p _ htouch _ => ⟨r, List.mem_cons_self, htouch.trans hullbase⟩,
      fun p hp htouch hf => ?_⟩
  rw [hull_stop, hystop] at htouch
  -- the neighbour stays apart only where the request ends last
  rcases Nat.le_total x.stop
    ((y :: s :: mid).getLast (List.cons_ne_nil _ _)).stop with hle | hle
  · refine .inl ⟨_, List.mem_cons_of_mem r hlastmem, ?_⟩
    rw [<- htouch, Nat.max_eq_left hle]
  · right
    rw [Nat.max_eq_right hle] at htouch
    have hs := hmid s List.mem_cons_self
    have hover' : ¬ Apart s x := by
      have h1 := hafter s List.mem_cons_self
      have h2 := (hover s (by simp)).left.pos
      unfold Apart Region.stop at *
      lia
    simp only [bridges, Bool.and_eq_true, List.any_eq_true, decide_eq_true_eq]
    exact ⟨⟨⟨r, by simp, hr, hflags.symm⟩, ⟨s, by simp, hover'⟩⟩,
      ⟨p, by simp [hp], htouch.symm, hf⟩⟩

theorem AddOutcome.of_resized {mid : List LmbRegion}
    (hx : Request W x) (hl : Ordered l)
    (hreq : forall r, r ∈ l -> Request W r)
    (hloop : coalesceLoop W l x.base x.size x.flags l 0 =
      match lmbResizeRegions W l pre.length x.base x.size with
      | none => none
      | some l' => some (l', pre.length, 1))
    (hsplit : l = pre ++ r :: (mid ++ post)) (hpre : forall p, p ∈ pre -> Passed x p)
    (hmid : forall m, m ∈ r :: mid -> ¬ Apart m x ∧ m.flags = LMB_NONE)
    (hflags : x.flags = LMB_NONE)
    (hpost : forall p, p ∈ post -> x.stop ≤ p.base) :
    AddOutcome l x (lmbAddRegionFlags W l x.base x.size x.flags) := by
  subst hsplit
  have hparts := ordered_append.mp hl
  have htail : Ordered (r :: mid ++ post) := hparts.right.left
  have hmidord := ordered_append.mp htail
  have hover : forall m, m ∈ r :: mid ->
      Request W m ∧ ¬ Apart m x ∧ m.flags = LMB_NONE := by
    intro m hm
    refine ⟨hreq m ?_, hmid m hm⟩
    simp only [List.mem_append, List.mem_cons] at hm ⊢
    tauto
  have hclear : forall p, p ∈ post -> Request W p ∧ Apart p x :=
    fun p hp => ⟨hreq p (by simp [hp]), .inr (hpost p hp)⟩
  rw [lmbResizeRegions_eq hx hover hclear] at hloop
  have hr := (hmid r List.mem_cons_self).left
  have hm : Merges (pre ++ r :: (mid ++ post))
      (pre ++ hull x r ((r :: mid).getLast (List.cons_ne_nil _ _)) :: post)
      x.base x.stop x.flags pre (r :: mid) post
      (hull x r ((r :: mid).getLast (List.cons_ne_nil _ _))) := by
    refine ⟨by simp, by simp, ?_, ?_, ?_, ?_, ?_, ?_⟩
    · rw [hflags]
      exact (hmid r List.mem_cons_self).right
    · intro m hm
      rw [hflags]
      exact (hmid m hm).right
    · exact hull_covers hmidord.left (fun m hm => (hmid m hm).left)
    · have hpos := hx.pos
      have hle : x.stop ≤
          (hull x r ((r :: mid).getLast (List.cons_ne_nil _ _))).stop := by
        rw [hull_stop]
        exact Nat.le_max_right _ _
      have hb : (hull x r ((r :: mid).getLast (List.cons_ne_nil _ _))).base ≤ x.base :=
        Nat.min_le_left _ _
      unfold Region.stop at hle
      lia
    · intro p hp
      have hpr := hparts.right.right p hp r List.mem_cons_self
      refine Nat.le_min.mpr ⟨?_, hpr⟩
      refine (hpre p hp).below (hl.pos p (by simp [hp])) hpr ?_
      unfold Apart at hr
      lia
    · intro p hp
      rw [hull_stop]
      refine Nat.max_le.mpr ⟨?_, hpost p hp⟩
      exact hmidord.right.right _ (List.getLast_mem _) p hp
  refine AddOutcome.of_united hl (requests_of_merges hm hx.fits hl hreq) hm
    (fun p hp htouch hf => ?_) hloop (drops_stopped hpre (.inr ⟨?_, hr⟩))
  · rcases Nat.le_total x.base r.base with hle | hle
    · refine absurd hf.symm ((hpre p hp).otherFlags ?_)
      exact htouch.trans (Nat.min_eq_left hle)
    · exact ⟨r, List.mem_cons_self, htouch.trans (Nat.min_eq_right hle)⟩
  · unfold Apart at hr
    lia

end

/-- `lmb_add_region_flags` succeeds.  It unites the request with the list, unless
the request is lost. -/
theorem lmbAddRegionFlags_outcome {l : List LmbRegion} {x : LmbRegion}
    (hx : Request W x) (hl : Ordered l) (hfits : Fits W l) (hc : Compatible l x) :
    AddOutcome l x (lmbAddRegionFlags W l x.base x.size x.flags) := by
  have hreq : forall r, r ∈ l -> Request W r := fun r hr => ⟨hl.pos r hr, hfits r hr⟩
  generalize hloop : coalesceLoop W l x.base x.size x.flags l 0 = out
  have hexit := coalesceLoop_exit hx hreq
  rw [hloop] at hexit
  cases hexit with
  | ended hpass =>
      refine AddOutcome.of_inserted hx.pos hl hloop (by simp [fixNeighbour])
        (fun r hr => (hpass r hr).apart) (fun r hr htouch hf => ?_)
        (fun r hr htouch _ => (hpass r hr).notNext htouch.symm) ?_
      · exact (hpass r hr).otherFlags htouch hf.symm
      · simpa [drops] using drops_passed hpass []
  | blocked hsplit hpre hr hflags =>
      exact AddOutcome.of_blocked hx hl hreq hloop hsplit hpre hr hflags
  | grownLeft hsplit hpre hr hflags =>
      exact AddOutcome.of_grownLeft hx hl hreq hloop hsplit hpre hr hflags
  | @grownRight pre post r hsplit hpre hr hflags =>
      have hpost : Ordered post := by
        rw [hsplit] at hl
        exact (ordered_cons.mp (ordered_append.mp hl).right.left).right.left
      rcases hpost.split_at x.stop with ⟨mid, post', rfl, hlow, hhigh⟩
      cases mid with
      | nil =>
          exact AddOutcome.of_grownRight hx hl hreq hloop hsplit hpre hr hflags hhigh
      | cons s mid =>
          have hover : forall m, m ∈ s :: mid -> m.flags = LMB_NONE ∧ x.flags = LMB_NONE := by
            intro m hm
            have hml : m ∈ l := by
              rw [hsplit]
              simp only [List.mem_append, List.mem_cons] at hm ⊢
              tauto
            rcases hc m hml with hapart | hnone
            · exfalso
              have h1 := hlow m hm
              have h2 := hl.pos m hml
              rw [hsplit] at hl
              have h3 := (ordered_cons.mp (ordered_append.mp hl).right.left).right.right m
                (List.mem_append_left _ hm)
              unfold Apart Region.stop at *
              lia
            · exact hnone
          exact AddOutcome.of_grownRight_overlap hx hl hreq hloop hsplit hpre hr hflags
            (hover s List.mem_cons_self).right
            (fun m hm => ⟨hlow m hm, (hover m hm).left⟩) hhigh
  | @resized pre post r hsplit hpre hr =>
      have htail : Ordered (r :: post) := by
        rw [hsplit] at hl
        exact (ordered_append.mp hl).right.left
      rcases (ordered_cons.mp htail).right.left.split_at x.stop with
        ⟨mid, post', rfl, hlow, hhigh⟩
      have hover : forall m, m ∈ r :: mid ->
          ¬ Apart m x ∧ m.flags = LMB_NONE ∧ x.flags = LMB_NONE := by
        intro m hm
        have hml : m ∈ l := by
          rw [hsplit]
          simp only [List.mem_append, List.mem_cons] at hm ⊢
          tauto
        have hnot : ¬ Apart m x := by
          rcases List.mem_cons.mp hm with rfl | hm
          · exact hr
          · have h1 := hlow m hm
            have h2 := hl.pos m hml
            have h3 := (ordered_cons.mp htail).right.right m (List.mem_append_left _ hm)
            unfold Apart Region.stop at *
            lia
        exact ⟨hnot, (hc m hml).resolve_left hnot⟩
      exact AddOutcome.of_resized hx hl hreq hloop hsplit hpre
        (fun m hm => ⟨(hover m hm).left, (hover m hm).right.left⟩)
        (hover r List.mem_cons_self).right.right hhigh

theorem lmbAddRegionFlags_result {l : List LmbRegion} {x : LmbRegion}
    (hx : Request W x) (hl : Ordered l) (hfits : Fits W l) (hc : Compatible l x) :
    AddResult l x (lmbAddRegionFlags W l x.base x.size x.flags) :=
  (lmbAddRegionFlags_outcome hx hl hfits hc).result

theorem Added.keeps {l l' : List LmbRegion} {x : LmbRegion} (h : Added l l' x)
    (hx : Request W x) (hl : Ordered l) (hfits : Fits W l) :
    Ordered l' ∧ Fits W l' ∧ Paints l l' x.base x.stop (some x.flags) := by
  rcases h with ⟨pre, mid, post, h, m⟩
  refine ⟨m.ordered hl, fun r hr => ?_, m.paints (Nat.lt_add_of_pos_right hx.pos)⟩
  exact (requests_of_merges m hx.fits hl (fun s hs => ⟨hl.pos s hs, hfits s hs⟩) r hr).fits

theorem Joined.keeps {l l' : List LmbRegion} (h : Joined l l') (hl : Ordered l)
    (hfits : Fits W l) : Ordered l' ∧ Fits W l' := by
  rcases h with ⟨f, pre, mid, post, h, m⟩
  refine ⟨m.ordered hl, fun r hr => ?_⟩
  exact (requests_of_merges m (Nat.two_pow_pos W) hl
    (fun s hs => ⟨hl.pos s hs, hfits s hs⟩) r hr).fits

end Memory
end Hlk7621
