import Hlk7621.Memory.Reservations

/-!
# Requests for a given address

`lmb_alloc_mem` with `LMB_MEM_ALLOC_ADDR` looks for the first region of the
memory map that the range overlaps, and tests only whether the last address of
the range is in it.
-/

namespace Hlk7621
namespace Memory

open Regions

def lmbReadCheck (W addr len : Nat) (lmb : Lmb) : Int × Lmb :=
  let r := lmbAllocMem W .allocAddr 0 addr len LMB_NONE lmb
  (r.1, r.2.2)

variable {W : Nat}

/-!
## The map
-/

/-- Both lists are sorted and disjoint.  A region may end at the top of the
address space. -/
structure Mapped (W : Nat) (lmb : Lmb) : Prop where
  available : Ordered lmb.availableMem
  availableFits : forall r, r ∈ lmb.availableMem -> r.stop ≤ 2 ^ W
  used : Ordered lmb.usedMem
  usedFits : forall r, r ∈ lmb.usedMem -> r.stop ≤ 2 ^ W
  sizes : forall r, r ∈ lmb.availableMem ++ lmb.usedMem -> r.size < 2 ^ W

def Lmb.Available (lmb : Lmb) (a : Nat) : Prop := (flagsAt lmb.availableMem a).isSome

/-- The address is reserved, and not both for and by a request without flags. -/
def Lmb.Conflict (lmb : Lmb) (flags a : Nat) : Prop :=
  exists f, flagsAt lmb.usedMem a = some f ∧ ¬ (f = LMB_NONE ∧ flags = LMB_NONE)

/-- The answer `ret` to a request for the range is the documented one. -/
structure GrantsKnown (lmb : Lmb) (base size flags : Nat) (ret : Int) : Prop where
  granted : ret = 0 -> forall a, base ≤ a -> a < base + size ->
    lmb.Available a ∧ ¬ lmb.Conflict flags a
  outside : (exists a, base ≤ a ∧ a < base + size ∧ ¬ lmb.Available a) ->
    ret = -EINVAL
  taken : (forall a, base ≤ a -> a < base + size -> lmb.Available a) ->
    (exists a, base ≤ a ∧ a < base + size ∧ lmb.Conflict flags a) -> ret = -EEXIST

def firstBank (lmb : Lmb) (base size : Nat) : Option LmbRegion :=
  lmb.availableMem.find? fun m => ¬ Apart m ⟨base, size, LMB_NONE⟩

/-- A range that ends in the first region it overlaps does not begin below it,
and one that leaves this region for touching ones meets no reservation that it
must not. -/
def Judged (lmb : Lmb) (base size flags : Nat) : Prop :=
  forall m, firstBank lmb base size = some m ->
    (base + size ≤ m.stop -> m.base ≤ base) ∧
    (m.stop < base + size ->
      (forall a, base ≤ a -> a < base + size -> lmb.Available a) ->
      forall a, base ≤ a -> a < base + size -> ¬ lmb.Conflict flags a)

/-!
## What the code computes
-/

section

variable {l : List LmbRegion} {x : LmbRegion}

theorem checks_get (hx : 0 < x.size) (hxs : x.stop ≤ 2 ^ W) (hl : Ordered l)
    (hfits : forall r, r ∈ l -> r.stop ≤ 2 ^ W) (flags : Nat) :
    (lmbOverlapChecks W l x.base x.size flags true).bind (fun i => l[i]?) =
      l.find? (fun m => ¬ Apart m x) := by
  have hsame : forall r, r ∈ l ->
      (lmbAddrsOverlap W x.base x.size r.base r.size &&
        (true || decide (flags ≠ LMB_NONE) || decide (flags ≠ r.flags))) =
      decide (¬ Apart r x) := by
    intro r hr
    have hiff := overlap_iff_of_le hx hxs (hl.pos r hr) (hfits r hr)
    simp only [Bool.true_or, Bool.and_true]
    rw [Bool.eq_iff_iff, hiff, decide_eq_true_eq]
  unfold lmbOverlapChecks
  clear hl hfits
  induction l with
  | nil => rfl
  | cons r l ih =>
      rw [List.findIdx?_cons, List.find?_cons, hsame r List.mem_cons_self]
      cases decide (¬ Apart r x) with
      | true => rfl
      | false =>
          have hrest := ih (fun s hs => hsame s (List.mem_cons_of_mem r hs))
          simp only [Bool.false_eq_true, if_false]
          rw [<- hrest, Option.bind_map]
          rfl

theorem checks_some_iff (hx : Request W x) (hl : Ordered l)
    (hfits : forall r, r ∈ l -> r.stop ≤ 2 ^ W) :
    (lmbOverlapChecks W l x.base x.size x.flags false).isSome <->
      exists r, r ∈ l ∧ ¬ Apart r x ∧ ¬ (r.flags = LMB_NONE ∧ x.flags = LMB_NONE) := by
  unfold lmbOverlapChecks
  rw [List.findIdx?_isSome, List.any_eq_true]
  refine exists_congr fun r => and_congr_right fun hr => ?_
  have hiff := overlap_iff_of_le hx.pos (Nat.le_of_lt hx.fits) (hl.pos r hr) (hfits r hr)
  rw [Bool.and_eq_true, hiff]
  refine and_congr_right fun _ => ?_
  simp only [Bool.false_or, Bool.or_eq_true, decide_eq_true_eq]
  grind

theorem not_apart_iff {r : LmbRegion} (hx : 0 < x.size) (hr : 0 < r.size) :
    ¬ Apart r x <-> exists a, x.base ≤ a ∧ a < x.stop ∧ r.Covers a := by
  unfold Apart Region.Covers Region.stop
  constructor
  · intro h
    exact ⟨max r.base x.base, by lia, by lia, by lia, by lia⟩
  · rintro ⟨a, h1, h2, h3, h4⟩
    lia

end

theorem conflict_iff {lmb : Lmb} (h : Mapped W lmb) {base size flags : Nat}
    (hsize : 0 < size) :
    (exists r, r ∈ lmb.usedMem ∧ ¬ Apart r ⟨base, size, flags⟩ ∧
      ¬ (r.flags = LMB_NONE ∧ flags = LMB_NONE)) <->
    exists a, base ≤ a ∧ a < base + size ∧ lmb.Conflict flags a := by
  constructor
  · rintro ⟨r, hr, hnot, hflags⟩
    rcases (not_apart_iff hsize (h.used.pos r hr)).mp hnot with ⟨a, hlo, hhi, hcov⟩
    exact ⟨a, hlo, hhi, r.flags, h.used.flagsAt_eq hr hcov, hflags⟩
  · rintro ⟨a, hlo, hhi, f, hf, hflags⟩
    rcases exists_of_flagsAt hf with ⟨r, hr, hcov, rfl⟩
    exact ⟨r, hr, (not_apart_iff hsize (h.used.pos r hr)).mpr ⟨a, hlo, hhi, hcov⟩, hflags⟩

theorem lmbAddRegionFlags_ret (l : List LmbRegion) (base size flags : Nat) :
    (lmbAddRegionFlags W l base size flags).1 = 0 ∨
      (lmbAddRegionFlags W l base size flags).1 = -1 := by
  unfold lmbAddRegionFlags
  split
  · exact .inr rfl
  · split
    · exact .inr rfl
    · split
      · exact .inl rfl
      · exact .inl rfl

theorem lmbReserve_ret {lmb : Lmb} (h : Mapped W lmb) {base size : Nat} (flags : Nat)
    (hsize : 0 < size) (hfit : base + size < 2 ^ W) :
    (exists a, base ≤ a ∧ a < base + size ∧ lmb.Conflict flags a) ∧
        (lmbReserve W base size flags lmb).1 = -EEXIST ∨
      (forall a, base ≤ a -> a < base + size -> ¬ lmb.Conflict flags a) ∧
        ((lmbReserve W base size flags lmb).1 = 0 ∨
          (lmbReserve W base size flags lmb).1 = -1) := by
  have hx : Request W ⟨base, size, flags⟩ := ⟨hsize, hfit⟩
  have hiff := (checks_some_iff hx h.used h.usedFits).trans (conflict_iff h hsize)
  unfold lmbReserve
  cases hcheck : lmbOverlapChecks W lmb.usedMem base size flags false with
  | some i =>
      rw [hcheck] at hiff
      exact .inl ⟨hiff.mp rfl, rfl⟩
  | none =>
      rw [hcheck] at hiff
      refine .inr ⟨fun a hlo hhi hconf => ?_, lmbAddRegionFlags_ret _ _ _ _⟩
      exact absurd (hiff.mpr ⟨a, hlo, hhi, hconf⟩) (by decide)

theorem lmbAllocAddr_eq {lmb : Lmb} (h : Mapped W lmb) {base size flags : Nat}
    (hsize : 0 < size) (hfit : base + size < 2 ^ W) :
    lmbAllocAddr W base size flags lmb =
      match firstBank lmb base size with
      | none => (-EINVAL, lmb)
      | some m =>
          if base + size ≤ m.stop then lmbReserve W base size flags lmb
          else (-EINVAL, lmb) := by
  have hget : _ = firstBank lmb base size :=
    checks_get (x := ⟨base, size, LMB_NONE⟩) hsize (Nat.le_of_lt hfit) h.available
      h.availableFits LMB_NOOVERWRITE
  unfold lmbAllocAddr
  cases hcheck : lmbOverlapChecks W lmb.availableMem base size LMB_NOOVERWRITE true with
  | none =>
      rw [hcheck] at hget
      rw [<- hget]
      rfl
  | some rgn =>
      rw [hcheck, Option.bind_some] at hget
      dsimp only
      rw [hget]
      cases hbank : firstBank lmb base size with
      | none => rfl
      | some m =>
          have hm := List.mem_of_find?_eq_some hbank
          have hnot : ¬ Apart m ⟨base, size, LMB_NONE⟩ := by
            simpa using List.find?_some hbank
          have hlast : sub W (add W base size) 1 = base + size - 1 :=
            @last_eq W ⟨base, size, LMB_NONE⟩ hsize hfit
          have hend : lmbAddrsOverlap W m.base m.size (base + size - 1) 1 = true <->
              base + size ≤ m.stop := by
            have hiff := overlap_iff_of_le (x := m) (r := ⟨base + size - 1, 1, LMB_NONE⟩)
              (h.available.pos m hm) (h.availableFits m hm) Nat.one_pos
              (by show base + size - 1 + 1 ≤ _; lia)
            rw [hiff]
            unfold Apart Region.stop at *
            dsimp only at *
            lia
          dsimp only
          rw [hlast]
          by_cases hle : base + size ≤ m.stop
          · rw [if_pos (hend.mpr hle), if_pos hle]
          · rw [if_neg (fun hov => hle (hend.mp hov)), if_neg hle]

/-!
## When the answer is the documented one
-/

theorem not_available_below {lmb : Lmb} {m : LmbRegion} {base size : Nat}
    (h : Mapped W lmb) (hbank : firstBank lmb base size = some m)
    (hbelow : base < m.base) : ¬ lmb.Available base := by
  intro havail
  rcases flagsAt_isSome_iff.mp havail with ⟨r, hr, hcov⟩
  rcases List.find?_eq_some_iff_append.mp hbank with ⟨hm, pre, post, hsplit, hpre⟩
  rw [hsplit] at hr
  have hord := h.available
  rw [hsplit] at hord
  rcases List.mem_append.mp hr with hr | hr
  · have hapart := hpre r hr
    simp only [Bool.not_eq_true', decide_eq_false_iff_not, not_not] at hapart
    have hbefore := (ordered_append.mp hord).right.right r hr m List.mem_cons_self
    have hnot : ¬ Apart m ⟨base, size, LMB_NONE⟩ := by simpa using hm
    unfold Apart Region.Covers Region.stop at *
    dsimp only at *
    lia
  · have hle := (ordered_append.mp hord).right.left.head_le hr
    have := hcov.left
    lia

/-- In every state with sorted disjoint lists, a request for a range that does
not wrap gets the documented answer exactly if the range is judged rightly by
the first region it overlaps. -/
theorem lmb_alloc_addr_known_iff {lmb : Lmb} (h : Mapped W lmb) {base size : Nat}
    (hsize : 0 < size) (hfit : base + size < 2 ^ W) (align flags : Nat) :
    GrantsKnown lmb base size flags
        (lmbAllocMem W .allocAddr align base size flags lmb).1 <->
      Judged lmb base size flags := by
  have hret : (lmbAllocMem W .allocAddr align base size flags lmb).1 =
      (lmbAllocAddr W base size flags lmb).1 := by
    unfold lmbAllocMem
    rw [if_neg (Nat.ne_of_gt hsize)]
  rw [hret, lmbAllocAddr_eq h hsize hfit]
  cases hbank : firstBank lmb base size with
  | none =>
      constructor
      · intro _ m hm
        cases hbank.symm.trans hm
      · intro _
        have hnone : forall a, base ≤ a -> a < base + size -> ¬ lmb.Available a := by
          intro a hlo hhi havail
          rcases flagsAt_isSome_iff.mp havail with ⟨r, hr, hcov⟩
          have hmiss := List.find?_eq_none.mp hbank r hr
          simp only [decide_eq_true_eq, not_not] at hmiss
          unfold Apart Region.Covers Region.stop at *
          dsimp only at *
          lia
        refine ⟨fun h0 => (by cases h0), fun _ => rfl, fun hall _ => ?_⟩
        exact absurd (hall base (Nat.le_refl _) (by lia))
          (hnone base (Nat.le_refl _) (by lia))
  | some m =>
      dsimp only
      have hm := List.mem_of_find?_eq_some hbank
      have hnot : ¬ Apart m ⟨base, size, LMB_NONE⟩ := by
        simpa using List.find?_some hbank
      by_cases hend : base + size ≤ m.stop
      · rw [if_pos hend]
        have hreserve := lmbReserve_ret h flags hsize hfit
        constructor
        · intro hg m' hm'
          cases Option.some.inj (hbank.symm.trans hm')
          refine ⟨fun _ => ?_, fun hlt => absurd hend (by lia)⟩
          by_contra hbelow
          have hout := hg.outside ⟨base, Nat.le_refl _, by lia,
            not_available_below h hbank (Nat.not_le.mp hbelow)⟩
          rcases hreserve with ⟨_, hr⟩ | ⟨_, hr | hr⟩
          · cases hr.symm.trans hout
          · cases hr.symm.trans hout
          · cases hr.symm.trans hout
        · intro hj
          have hbase := (hj m hbank).left hend
          have hall : forall a, base ≤ a -> a < base + size -> lmb.Available a := by
            intro a hlo hhi
            exact flagsAt_isSome_iff.mpr ⟨m, hm, Nat.le_trans hbase hlo, by lia⟩
          refine ⟨?_, ?_, ?_⟩
          · intro h0 a hlo hhi
            refine ⟨hall a hlo hhi, ?_⟩
            rcases hreserve with ⟨_, hr⟩ | ⟨hfree, _⟩
            · cases hr.symm.trans h0
            · exact hfree a hlo hhi
          · rintro ⟨a, hlo, hhi, hout⟩
            exact absurd (hall a hlo hhi) hout
          · rintro _ ⟨a, hlo, hhi, hconf⟩
            rcases hreserve with ⟨_, hr⟩ | ⟨hfree, _⟩
            · exact hr
            · exact absurd hconf (hfree a hlo hhi)
      · rw [if_neg hend]
        constructor
        · intro hg m' hm'
          cases Option.some.inj (hbank.symm.trans hm')
          refine ⟨fun hle => absurd hle hend, fun _ hall a hlo hhi hconf => ?_⟩
          cases hg.taken hall ⟨a, hlo, hhi, hconf⟩
        · intro hj
          refine ⟨fun h0 => (by cases h0), fun _ => rfl, ?_⟩
          rintro hall ⟨a, hlo, hhi, hconf⟩
          exact absurd hconf ((hj m hbank).right (Nat.not_le.mp hend) hall a hlo hhi)

def oneBank : Lmb where
  availableMem := [⟨0x80000000, 0x10000000, LMB_NONE⟩]
  usedMem := []

theorem oneBank_mapped : Mapped 32 oneBank where
  available := ⟨by simp [oneBank], by simp [oneBank]⟩
  availableFits := by simp [oneBank, Region.stop]
  used := ordered_nil
  usedFits := by simp [oneBank]
  sizes := by simp [oneBank]

theorem lmb_alloc_addr_known_oneBank :
    GrantsKnown oneBank 0x80001000 0x1000 LMB_NONE
      (lmbAllocMem 32 .allocAddr 0 0x80001000 0x1000 LMB_NONE oneBank).1 :=
  (lmb_alloc_addr_known_iff oneBank_mapped (by decide) (by decide) 0 LMB_NONE).mpr (by
    intro m hm
    have hbank : firstBank oneBank 0x80001000 0x1000 =
        some ⟨0x80000000, 0x10000000, LMB_NONE⟩ := by decide
    cases Option.some.inj (hbank.symm.trans hm)
    exact ⟨fun _ => by decide, fun hlt => absurd hlt (by decide)⟩)

/-- A range that begins below the bank is granted, and a load into it passes
`lmb_read_check`. -/
theorem lmb_alloc_addr_below_bank :
    Mapped 32 oneBank ∧ ¬ oneBank.Available 0x7ffff000 ∧
      (lmbReadCheck 32 0x7ffff000 0x2000 oneBank).1 = 0 ∧
      ¬ GrantsKnown oneBank 0x7ffff000 0x2000 LMB_NONE
        (lmbAllocMem 32 .allocAddr 0 0x7ffff000 0x2000 LMB_NONE oneBank).1 := by
  have hout : ¬ oneBank.Available 0x7ffff000 := by
    unfold Lmb.Available
    decide
  have hret : (lmbAllocMem 32 .allocAddr 0 0x7ffff000 0x2000 LMB_NONE oneBank).1 = 0 := by
    decide +kernel
  refine ⟨oneBank_mapped, hout, hret, fun hg => ?_⟩
  exact hout (hg.granted hret 0x7ffff000 (Nat.le_refl _) (by decide)).left

end Memory
end Hlk7621
