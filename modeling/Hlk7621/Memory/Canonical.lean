import Hlk7621.Memory.Reservations

/-!
# Canonical lists

A list is canonical when touching regions with the same flags are united.  Every
call keeps both lists so, except a request that fills a gap in front of a region
while it overlaps others.  In a canonical map every uniformly reserved range lies
in one region, where it can be freed.
-/

namespace Hlk7621
namespace Memory

open Regions

variable {W : Nat}

/-!
## Freeing
-/

section

variable {l : List LmbRegion} {base size : Nat}

theorem lmbFreeRegion_ret (hl : Ordered l) (hfits : Fits W l) (hsize : 0 < size)
    (hlt : base + size < 2 ^ W) :
    (lmbFreeRegion W l base size).1 = 0 <->
      exists r, r ∈ l ∧ r.base ≤ base ∧ base + size ≤ r.stop := by
  have hfreed := lmbFreeRegion_freed hl hfits hsize hlt
  revert hfreed
  generalize lmbFreeRegion W l base size = out
  intro hfreed
  cases hfreed with
  | absent hnone =>
      refine ⟨fun h => absurd h (show (-1 : Int) ≠ 0 by decide), ?_⟩
      rintro ⟨r, hr, hin⟩
      exact absurd hin (hnone r hr)
  | @parts pre post _ r hsplit hbase hstop _ _ _ _ _ =>
      exact ⟨fun _ => ⟨r, by simp [hsplit], hbase, hstop⟩, fun _ => rfl⟩
  | @split pre post r hsplit hbase hstop =>
      refine ⟨fun _ => ⟨r, by simp [hsplit], by lia, by lia⟩, fun _ => ?_⟩
      subst hsplit
      have hout := (halves_of_inside hl hfits hsize hbase hstop).outcome
      revert hout
      generalize lmbAddRegionFlags W _ _ _ _ = out
      intro hout
      cases hout with
      | added _ _ _ => rfl
      | lost _ _ => rfl

theorem bridges_apart {x : LmbRegion} (h : forall r, r ∈ l -> Apart r x) :
    bridges x l = false := by
  have hnone : l.any (fun r => ¬ Apart r x) = false := by
    rw [List.any_eq_false]
    intro r hr
    simpa using h r hr
  unfold bridges
  rw [hnone, Bool.and_false, Bool.false_and]

theorem dropsTail_separated (hs : Separated l) (base size : Nat) :
    dropsTail base size l = false := by
  induction l with
  | nil => rfl
  | cons r l ih =>
      have htail : Separated l := fun p hp q hq =>
        hs p (List.mem_cons_of_mem r hp) q (List.mem_cons_of_mem r hq)
      rw [dropsTail]
      split
      · exact drops_separated htail _
      · exact ih htail

theorem lmbFreeRegion_separated (hs : Separated l) (hl : Ordered l) (hfits : Fits W l)
    (hsize : 0 < size) (hlt : base + size < 2 ^ W) :
    Separated (lmbFreeRegion W l base size).2 := by
  have hfreed := lmbFreeRegion_freed hl hfits hsize hlt
  revert hfreed
  generalize lmbFreeRegion W l base size = out
  intro hfreed
  cases hfreed with
  | absent _ => exact hs
  | parts hsplit _ _ _ hparts hin hlen _ =>
      subst hsplit
      exact hs.replace hl hparts hlen hin
  | @split pre post r hsplit hbase hstop =>
      subst hsplit
      have hh := halves_of_inside hl hfits hsize hbase hstop
      have hfront : Separated (pre ++ ([headTo r base] ++ post)) := by
        refine hs.replace hl ?_ (Nat.le_refl 1) (fun q hq => ?_)
        · exact (ordered_append.mp (ordered_append.mp hh.ordered).right.left).left
        · have hfstop := headTo_stop (Nat.le_of_lt hbase)
          rw [List.mem_singleton.mp hq]
          exact ⟨Nat.le_refl _, by lia, rfl⟩
      exact hh.outcome.separated hfront (bridges_apart hh.apart)

theorem lmbFreeRegion_paints (hs : Separated l) (hl : Ordered l) (hfits : Fits W l)
    (hsize : 0 < size) (hlt : base + size < 2 ^ W)
    (hret : (lmbFreeRegion W l base size).1 = 0) :
    Paints l (lmbFreeRegion W l base size).2 base (base + size) none := by
  have hres := lmbFreeRegion_result hl hfits hsize hlt
  revert hret hres
  generalize lmbFreeRegion W l base size = out
  intro hret hres
  cases hres with
  | absent => exact absurd hret (show (-1 : Int) ≠ 0 by decide)
  | freed _ _ _ hpaint => exact hpaint
  | lost hd _ _ =>
      rw [dropsTail_separated hs] at hd
      cases hd

end

/-!
## One call
-/

structure Canonical (lmb : Lmb) : Prop where
  available : Separated lmb.availableMem
  used : Separated lmb.usedMem

theorem canonical_empty : Canonical Lmb.empty := ⟨separated_nil, separated_nil⟩

def Call.bridging (W : Nat) (lmb : Lmb) : Call -> Bool
  | .add base size => bridges ⟨base, size, LMB_NONE⟩ lmb.availableMem
  | .free _ _ _ => false
  | .alloc type align addr size flags =>
      ((Call.alloc type align addr size flags).request W lmb).any
        (fun x => bridges x lmb.usedMem)

def Call.Unbridged (W : Nat) (lmb : Lmb) (call : Call) : Prop :=
  call.Bounded W lmb ∧ call.bridging W lmb = false

instance : DecidableRel (Call.Unbridged W) := fun _ _ =>
  inferInstanceAs (Decidable (_ ∧ _))

theorem step_canonical {lmb : Lmb} (hv : Valid W lmb) (hc : Canonical lmb) {call : Call}
    (hgood : call.Unbridged W lmb) : Canonical (step W lmb call) := by
  cases call with
  | add base size =>
      have hwf : 0 < size ∧ base + size < 2 ^ W := hgood.left.left
      have hout := lmbAddRegionFlags_outcome (x := ⟨base, size, LMB_NONE⟩)
        ⟨hwf.left, hwf.right⟩ hv.available hv.availableFits
        (fun r hr => .inr ⟨hv.noFlags r hr, rfl⟩)
      exact ⟨hout.separated hc.available hgood.right, hc.used⟩
  | free base size flags =>
      have hwf : 0 < size ∧ base + size < 2 ^ W := hgood.left.left
      exact ⟨hc.available,
        lmbFreeRegion_separated hc.used hv.used hv.usedFits hwf.left hwf.right⟩
  | alloc type align addr size flags =>
      have hout := alloc_outcome hv hgood.left.left hgood.left.right
      have hbridge := hgood.right
      unfold step
      revert hout
      generalize Call.run W (.alloc type align addr size flags) lmb = out
      intro hout
      cases hout with
      | refused _ => exact hc
      | reserved hx hcomp hreq _ =>
          simp only [Call.bridging, hreq, Option.any_some] at hbridge
          have hadd := lmbAddRegionFlags_outcome hx hv.used hv.usedFits hcomp
          exact ⟨hc.available, hadd.separated hc.used hbridge⟩

theorem run_canonical {calls : List Call}
    (h : Runs.Along (step W) (Call.Unbridged W) Lmb.empty calls) :
    Valid W (run W Lmb.empty calls) ∧ Canonical (run W Lmb.empty calls) := by
  have hstep : forall lmb call, Call.Unbridged W lmb call ->
      Valid W lmb ∧ Canonical lmb ->
      Valid W (step W lmb call) ∧ Canonical (step W lmb call) :=
    fun _ _ hgood hinv =>
      ⟨(Call.sound hinv.left hgood.left.left hgood.left.right).valid,
        step_canonical hinv.left hinv.right hgood⟩
  exact Runs.invariant hstep h ⟨valid_empty, canonical_empty⟩

/-!
## What can be freed
-/

def Lmb.Uniform (lmb : Lmb) (base size f : Nat) : Prop :=
  forall a, base ≤ a -> a < base + size -> flagsAt lmb.usedMem a = some f

/-- Every uniformly reserved range can be freed exactly if no two touching
reservations have the same flags. -/
theorem frees_uniform_iff {lmb : Lmb} (hv : Valid W lmb) :
    (forall base size f flags, 0 < size -> base + size < 2 ^ W ->
      lmb.Uniform base size f -> (Call.run W (.free base size flags) lmb).1 = 0) <->
      Separated lmb.usedMem := by
  constructor
  · intro hfree r hr s hs htouch hflags
    have hrange := hv.used.touching_range hr hs htouch hflags
    have hrstop : r.stop = r.base + r.size := rfl
    have hsstop : s.stop = s.base + s.size := rfl
    have hspos := hv.used.pos s hs
    have hrpos := hv.used.pos r hr
    have hlt : r.base + (s.stop - r.base) < 2 ^ W := by
      have := hv.usedFits s hs
      lia
    have hret := hfree r.base (s.stop - r.base) r.flags 0 (by lia) hlt
      (fun a hlo hhi => hrange.left a hlo (by lia))
    rcases (lmbFreeRegion_ret hv.used hv.usedFits (by lia) hlt).mp hret with
      ⟨t, ht, hbase, hstop⟩
    exact hrange.right t ht ⟨hbase, by lia⟩
  · intro hs base size f flags hsize hlt huniform
    refine (lmbFreeRegion_ret hv.used hv.usedFits hsize hlt).mpr ?_
    rcases hs.covers_range hv.used (by lia) huniform with ⟨r, hr, hbase, hstop, _⟩
    exact ⟨r, hr, hbase, hstop⟩

/-- Freeing what a call has just reserved takes exactly its range out of the map. -/
theorem free_allocated {lmb lmb' : Lmb} (hv : Valid W lmb) (hc : Canonical lmb)
    {type : LmbMemType} {align addr size flags base : Nat}
    (hgood : (Call.alloc type align addr size flags).Unbridged W lmb)
    (hrun : lmbAllocMem W type align addr size flags lmb = (0, base, lmb'))
    (flags' : Nat) :
    (Call.run W (.free base size flags') lmb').1 = 0 ∧
      Paints lmb.usedMem (Call.run W (.free base size flags') lmb').2.2.usedMem base
        (base + size) none := by
  have hv' : Valid W (lmbAllocMem W type align addr size flags lmb).2.2 :=
    (Call.sound hv hgood.left.left hgood.left.right).valid
  have hc' : Canonical (lmbAllocMem W type align addr size flags lmb).2.2 :=
    step_canonical hv hc hgood
  have hout : AllocOutcome W lmb type align addr size flags
      (lmbAllocMem W type align addr size flags lmb) :=
    alloc_outcome hv hgood.left.left hgood.left.right
  rw [hrun] at hv' hc' hout
  generalize hcode : (0 : Int) = code at hout
  cases hout with
  | refused hne => exact absurd hcode.symm hne
  | reserved hx hcomp _ _ =>
      have hadd := lmbAddRegionFlags_outcome hx hv.used hv.usedFits hcomp
      dsimp only at hv' hc' hadd ⊢
      generalize lmbAddRegionFlags W lmb.usedMem base size flags = new at *
      cases hadd with
      | lost hd _ =>
          rw [drops_separated hc.used] at hd
          cases hd
      | @added l' pre mid post h _ m _ =>
          have hsize : 0 < size := hx.pos
          have hlt : base + size < 2 ^ W := hx.fits
          have hstop : Region.stop ⟨base, size, flags⟩ = base + size := rfl
          -- the region that the request became a part of holds its range
          have hfirst := (m.covers base).mpr (.inl ⟨Nat.le_refl _, by lia⟩)
          have hlast := (m.covers (base + size - 1)).mpr (.inl ⟨by dsimp only; lia, by lia⟩)
          have hfree : (lmbFreeRegion W l' base size).1 = 0 :=
            (lmbFreeRegion_ret hv'.used hv'.usedFits hsize hlt).mpr
              ⟨h, by simp [m.result], hfirst.left, by have := hlast.right; lia⟩
          have hadded := m.paints (show base < base + size by lia)
          have hfreed := lmbFreeRegion_paints hc'.used hv'.used hv'.usedFits hsize hlt hfree
          refine ⟨hfree, fun a => ?_⟩
          show flagsAt (lmbFreeRegion W l' base size).2 a = _
          rw [hfreed a, hadded a, hstop]
          grind

theorem paints_none_same_iff {l l' : List LmbRegion} {lo hi : Nat}
    (h : Paints l l' lo hi none) :
    (forall a, flagsAt l' a = flagsAt l a) <->
      forall a, lo ≤ a -> a < hi -> flagsAt l a = none := by
  constructor
  · intro hsame a hlo hhi
    rw [<- hsame a, h a, if_pos ⟨hlo, hhi⟩]
  · intro hnone a
    rw [h a]
    split
    · rename_i ha
      exact (hnone a ha.left ha.right).symm
    · rfl

/-!
## Runs
-/

/-- In every map that calls without a bridging request lead to, touching regions
with the same flags are united, a uniformly reserved range can be freed, and
freeing an allocation just made takes exactly its range out of the map, which
is the map before if nothing in the range was reserved. -/
theorem lmb_uniform_freed {calls : List Call}
    (h : Runs.Along (step W) (Call.Unbridged W) Lmb.empty calls) :
    Canonical (run W Lmb.empty calls) ∧
    (forall base size f flags, 0 < size -> base + size < 2 ^ W ->
      (run W Lmb.empty calls).Uniform base size f ->
      (Call.run W (.free base size flags) (run W Lmb.empty calls)).1 = 0) ∧
    forall type align addr size flags flags' base lmb,
      (Call.alloc type align addr size flags).Unbridged W (run W Lmb.empty calls) ->
      lmbAllocMem W type align addr size flags (run W Lmb.empty calls) = (0, base, lmb) ->
        (Call.run W (.free base size flags') lmb).1 = 0 ∧
        Paints (run W Lmb.empty calls).usedMem
          (Call.run W (.free base size flags') lmb).2.2.usedMem base (base + size) none ∧
        ((forall a, flagsAt (Call.run W (.free base size flags') lmb).2.2.usedMem a =
            flagsAt (run W Lmb.empty calls).usedMem a) <->
          forall a, base ≤ a -> a < base + size ->
            flagsAt (run W Lmb.empty calls).usedMem a = none) := by
  have hinv := run_canonical h
  refine ⟨hinv.right, (frees_uniform_iff hinv.left).mpr hinv.right.used, ?_⟩
  intro type align addr size flags flags' base lmb hgood hrun
  have hfree := free_allocated hinv.left hinv.right hgood hrun flags'
  exact ⟨hfree.left, hfree.right, paints_none_same_iff hfree.right⟩

def gapCalls : List Call :=
  [.add 0x80000000 0x10000000,
    .alloc .allocAddr 0 0x80001000 0x1000 LMB_NONE,
    .alloc .allocAddr 0 0x80002000 0x1000 LMB_NONE,
    .alloc .allocMax 0x1000 0x88000000 0x100000 LMB_NOOVERWRITE]

theorem lmb_uniform_freed_gap :
    (Call.run 32 (.free 0x81000000 0x1000 LMB_NONE)
      (step 32 (run 32 Lmb.empty gapCalls)
        (.alloc .allocAddr 0 0x81000000 0x1000 LMB_NONE))).1 = 0 :=
  ((@lmb_uniform_freed 32 gapCalls (by decide +kernel)).right.right .allocAddr 0
    0x81000000 0x1000 LMB_NONE LMB_NONE 0x81000000 _ (by decide +kernel) rfl).left

/-- A reservation without flags of a range that is reserved without flags, and the
release of it, leave the range free.  And a request that bridges leaves a range
behind that is uniformly reserved and cannot be freed. -/
theorem lmb_uniform_not_freed :
    (forall call, call ∈ [Call.add 0x80000000 0x10000000,
        .alloc .allocAddr 0 0x80001000 0x1000 LMB_NONE,
        .alloc .allocAddr 0 0x80001000 0x1000 LMB_NONE,
        .free 0x80001000 0x1000 LMB_NONE] ++ touchingCalls -> call.WellFormed 32) ∧
    flagsAt (run 32 Lmb.empty [.add 0x80000000 0x10000000,
      .alloc .allocAddr 0 0x80001000 0x1000 LMB_NONE]).usedMem 0x80001000 =
        some LMB_NONE ∧
    (Call.run 32 (.alloc .allocAddr 0 0x80001000 0x1000 LMB_NONE)
      (run 32 Lmb.empty [.add 0x80000000 0x10000000,
        .alloc .allocAddr 0 0x80001000 0x1000 LMB_NONE])).1 = 0 ∧
    flagsAt (run 32 Lmb.empty [.add 0x80000000 0x10000000,
      .alloc .allocAddr 0 0x80001000 0x1000 LMB_NONE,
      .alloc .allocAddr 0 0x80001000 0x1000 LMB_NONE,
      .free 0x80001000 0x1000 LMB_NONE]).usedMem 0x80001000 = none ∧
    (run 32 Lmb.empty touchingCalls).Uniform 0x80002000 0x3000 LMB_NONE ∧
    (Call.run 32 (.free 0x80002000 0x3000 LMB_NONE) (run 32 Lmb.empty touchingCalls)).1 =
      -1 := by
  refine ⟨by decide +kernel, by decide +kernel, by decide +kernel, by decide +kernel, ?_,
    by decide +kernel⟩
  have hused : (run 32 Lmb.empty touchingCalls).usedMem =
      [⟨0x80002000, 0x2000, LMB_NONE⟩, ⟨0x80004000, 0x1000, LMB_NONE⟩] := by
    decide +kernel
  intro a hlo hhi
  rw [hused]
  by_cases ha : a < 0x80004000
  · rw [flagsAt, if_pos ⟨hlo, ha⟩]
  · rw [flagsAt, if_neg (fun hcov => ha hcov.right), flagsAt,
      if_pos ⟨Nat.not_lt.mp ha, hhi⟩]

end Memory
end Hlk7621
