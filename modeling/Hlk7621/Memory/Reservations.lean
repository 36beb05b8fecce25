import Hlk7621.Lib.Runs
import Hlk7621.Memory.FreeRegion

/-!
# Reservations

Every call keeps both region lists ordered, and does to the memory map what it
says, except in two situations.  A search below an address that is smaller than
the size of the request wraps, and a request can be lost to the union of two
regions behind it.
-/

namespace Hlk7621
namespace Memory

open Regions

variable (W : Nat)

/-!
## Calls
-/

/-- The arguments of a call: a non-empty range that does not wrap, or, for a
search, a size and an address of `W` bits. -/
def Call.WellFormed : Call -> Prop
  | .add base size => 0 < size ∧ base + size < 2 ^ W
  | .alloc .allocAddr _ addr size _ => 0 < size ∧ addr + size < 2 ^ W
  | .alloc _ _ addr size _ => 0 < size ∧ size < 2 ^ W ∧ addr < 2 ^ W
  | .free base size _ => 0 < size ∧ base + size < 2 ^ W

instance : (call : Call) -> Decidable (call.WellFormed W)
  | .add _ _ => inferInstanceAs (Decidable (_ ∧ _))
  | .alloc .allocAddr _ _ _ _ => inferInstanceAs (Decidable (_ ∧ _))
  | .alloc .allocAny _ _ _ _ => inferInstanceAs (Decidable (_ ∧ _ ∧ _))
  | .alloc .allocMax _ _ _ _ => inferInstanceAs (Decidable (_ ∧ _ ∧ _))
  | .free _ _ _ => inferInstanceAs (Decidable (_ ∧ _))

/-- The search below `addr` comes to a region that is large enough for the
request, but `addr` is smaller than the size of the request. -/
def Call.underflows (lmb : Lmb) : Call -> Bool
  | .alloc .allocMax _ addr size _ =>
      addr ≠ LMB_ALLOC_ANYWHERE && addr < size &&
        lmb.availableMem.any (fun m => size ≤ m.size && m.base < addr)
  | _ => false

/-- The test of `lmb_alloc_mem` for a given address: the range ends in the first
memory region it overlaps and overlaps no reservation that it must not. -/
def addrAccepted (addr size flags : Nat) (lmb : Lmb) : Bool :=
  match lmbOverlapChecks W lmb.availableMem addr size LMB_NOOVERWRITE true with
  | none => false
  | some rgn =>
      match lmb.availableMem[rgn]? with
      | none => false
      | some m =>
          lmbAddrsOverlap W m.base m.size (sub W (add W addr size) 1) 1 &&
            (lmbOverlapChecks W lmb.usedMem addr size flags false).isNone

def Call.request (lmb : Lmb) : Call -> Option LmbRegion
  | .alloc .allocAddr _ addr size flags =>
      if addrAccepted W addr size flags lmb then
        some { base := addr, size := size, flags := flags }
      else none
  | .alloc .allocAny align _ size flags =>
      (allocSearch W lmb.usedMem size align LMB_ALLOC_ANYWHERE
        lmb.availableMem.reverse).map
        (fun base => { base := base, size := size, flags := flags })
  | .alloc .allocMax align addr size flags =>
      (allocSearch W lmb.usedMem size align addr lmb.availableMem.reverse).map
        (fun base => { base := base, size := size, flags := flags })
  | _ => none

/-- The reserved range, or the tail of the reservation that a free splits, is
lost. -/
def Call.loses (lmb : Lmb) (call : Call) : Bool :=
  match call with
  | .free base size _ => dropsTail base size lmb.usedMem
  | _ => (call.request W lmb).any (fun x => drops x lmb.usedMem)

def Call.Exact (lmb : Lmb) : Call -> Int × Nat × Lmb -> Prop
  | .add base size, (ret, _, lmb') =>
      ret = 0 ∧ lmb'.usedMem = lmb.usedMem ∧
        Paints lmb.availableMem lmb'.availableMem base (base + size) (some LMB_NONE) ∨
      ret ≠ 0 ∧ lmb' = lmb
  | .alloc type _ addr size flags, (ret, addr', lmb') =>
      ret = 0 ∧ (type = .allocAddr -> addr' = addr) ∧
        lmb'.availableMem = lmb.availableMem ∧
        Paints lmb.usedMem lmb'.usedMem addr' (addr' + size) (some flags) ∨
      ret ≠ 0 ∧ lmb' = lmb
  | .free base size _, (ret, _, lmb') =>
      ret = 0 ∧ lmb'.availableMem = lmb.availableMem ∧
        Paints lmb.usedMem lmb'.usedMem base (base + size) none ∨
      ret ≠ 0 ∧ lmb' = lmb

structure Valid (lmb : Lmb) : Prop where
  available : Ordered lmb.availableMem
  availableFits : Fits W lmb.availableMem
  noFlags : forall r, r ∈ lmb.availableMem -> r.flags = LMB_NONE
  used : Ordered lmb.usedMem
  usedFits : Fits W lmb.usedMem

variable {W}

theorem valid_empty : Valid W Lmb.empty :=
  ⟨ordered_nil, fun _ hr => absurd hr List.not_mem_nil,
    fun _ hr => absurd hr List.not_mem_nil, ordered_nil,
    fun _ hr => absurd hr List.not_mem_nil⟩

/-!
## Overlap tests
-/

section

variable {l : List LmbRegion} {x : LmbRegion}

theorem apart_of_checks (hx : Request W x) (hl : Ordered l) (hfits : Fits W l)
    (flags : Nat) (h : lmbOverlapChecks W l x.base x.size flags true = none) :
    forall r, r ∈ l -> Apart r x := by
  intro r hr
  have hnone := List.findIdx?_eq_none_iff.mp h r hr
  by_contra hnot
  rw [(overlap_iff hx ⟨hl.pos r hr, hfits r hr⟩).mpr hnot] at hnone
  simp at hnone

theorem compatible_of_checks (hx : Request W x) (hl : Ordered l) (hfits : Fits W l)
    (h : lmbOverlapChecks W l x.base x.size x.flags false = none) : Compatible l x := by
  intro r hr
  have hnone := List.findIdx?_eq_none_iff.mp h r hr
  by_cases hapart : Apart r x
  · exact .inl hapart
  · rw [(overlap_iff hx ⟨hl.pos r hr, hfits r hr⟩).mpr hapart] at hnone
    simp only [Bool.true_and, Bool.false_or, Bool.or_eq_false_iff, decide_eq_false_iff_not,
      not_not] at hnone
    exact .inr ⟨hnone.right.symm.trans hnone.left, hnone.left⟩

theorem checks_found {rgn : Nat} {r : LmbRegion} (hx : Request W x) (hl : Ordered l)
    (hfits : Fits W l) (flags : Nat)
    (h : lmbOverlapChecks W l x.base x.size flags true = some rgn)
    (hget : l[rgn]? = some r) : r ∈ l ∧ ¬ Apart r x := by
  have hmem := List.mem_of_getElem? hget
  refine ⟨hmem, (overlap_iff hx ⟨hl.pos r hmem, hfits r hmem⟩).mp ?_⟩
  rcases List.findIdx?_eq_some_iff_getElem.mp h with ⟨hlt, hp, _⟩
  rw [List.getElem?_eq_some_iff] at hget
  rcases hget with ⟨_, hget⟩
  rw [hget] at hp
  simp only [Bool.and_eq_true] at hp
  exact hp.left

end

/-!
## The search
-/

theorem sub_add_cancel {x m : Nat} (hx : x < 2 ^ W) (hm : m < 2 ^ W) :
    add W (sub W x m) m = x := by
  unfold add sub
  rw [Nat.mod_eq_of_lt hm, Nat.mod_add_mod]
  have : x + (2 ^ W - m) + m = x + 2 ^ W := by lia
  rw [this, Nat.add_mod_right, Nat.mod_eq_of_lt hx]

theorem sub_lt (a b : Nat) : sub W a b < 2 ^ W :=
  Nat.mod_lt _ (Nat.two_pow_pos W)

theorem alignDown_le {x : Nat} (hx : x < 2 ^ W) (a : Nat) : alignDown W x a ≤ x := by
  unfold alignDown
  dsimp only
  rw [sub_add_cancel hx (sub_lt _ _)]
  exact Nat.and_le_left

section

variable {used : List LmbRegion} {size align lmbbase : Nat}

theorem retry_lt (align : Nat) {base rgn : Nat} {r : LmbRegion} (hused : Ordered used)
    (hfits : Fits W used) (hsize : 0 < size) (hbase : base + size < 2 ^ W)
    (hcheck : lmbOverlapChecks W used base size LMB_NOOVERWRITE true = some rgn)
    (hget : used[rgn]? = some r) (hroom : ¬ r.base < size) :
    alignDown W (sub W r.base size) align < base := by
  let x : LmbRegion := { base := base, size := size, flags := LMB_NOOVERWRITE }
  have hx : Request W x := ⟨hsize, hbase⟩
  rcases checks_found hx hused hfits LMB_NOOVERWRITE hcheck hget with ⟨hmem, hnot⟩
  have hlt : r.base < base + size := by
    unfold Apart at hnot
    have : ¬ x.stop ≤ r.base := fun h => hnot (.inr h)
    exact Nat.not_le.mp this
  have hr : r.base < 2 ^ W := Nat.lt_of_le_of_lt (Nat.le_add_right _ _) (hfits r hmem)
  rw [sub_eq (Nat.not_lt.mp hroom) hr]
  have := alignDown_le (x := r.base - size) (Nat.lt_of_le_of_lt (Nat.sub_le _ _) hr) align
  lia

theorem allocWalk_some {fuel base found : Nat} (hused : Ordered used)
    (hfits : Fits W used) (hsize : 0 < size) (hbase : base + size < 2 ^ W)
    (h : allocWalk W used size align lmbbase fuel base = some found) :
    found ≤ base ∧ lmbOverlapChecks W used found size LMB_NOOVERWRITE true = none := by
  induction fuel generalizing base with
  | zero => cases h
  | succ fuel ih =>
      rw [allocWalk] at h
      split at h
      · cases h
      · split at h
        · rename_i hcheck
          cases h
          exact ⟨Nat.le_refl _, hcheck⟩
        · rename_i rgn hcheck
          split at h
          · cases h
          · rename_i r hget
            split at h
            · cases h
            · rename_i hroom
              have hlt := retry_lt align hused hfits hsize hbase hcheck hget hroom
              have hfound := ih (by lia) h
              exact ⟨by lia, hfound.right⟩

/-- The search of a memory region starts with a range that ends in it, unless
the limit is smaller than the size. -/
theorem allocStart_le {maxAddr start : Nat} {m : LmbRegion} (hm : m.stop < 2 ^ W)
    (hroom : maxAddr = LMB_ALLOC_ANYWHERE ∨ size ≤ maxAddr ∨ m.size < size ∨
      maxAddr ≤ m.base)
    (h : allocStart W size align maxAddr m = some start) : start + size < 2 ^ W := by
  have hstop : m.stop = m.base + m.size := rfl
  unfold allocStart at h
  rw [add_stop hm] at h
  split at h
  · cases h
  · split at h
    · cases h
      rw [sub_eq (by lia) hm]
      have := alignDown_le (x := m.stop - size) (Nat.lt_of_le_of_lt (Nat.sub_le _ _) hm) align
      lia
    · rename_i hany
      split at h
      · have hle : ¬ m.stop < m.base := by lia
        have hsome : alignDown W (sub W (min m.stop maxAddr) size) align = start := by
          simpa [hle] using h
        have hmin : min m.stop maxAddr ≤ m.stop := Nat.min_le_left _ _
        rw [sub_eq (by lia) (by lia)] at hsome
        have := alignDown_le (W := W) (x := min m.stop maxAddr - size) (by lia) align
        lia
      · cases h

end

theorem allocSearch_some {used memory : List LmbRegion} {size align maxAddr base : Nat}
    (hused : Ordered used) (hfits : Fits W used) (hsize : 0 < size)
    (hmem : Fits W memory)
    (hroom : maxAddr = LMB_ALLOC_ANYWHERE ∨ size ≤ maxAddr ∨
      forall m, m ∈ memory -> m.size < size ∨ maxAddr ≤ m.base)
    (h : allocSearch W used size align maxAddr memory = some base) :
    base + size < 2 ^ W ∧
      lmbOverlapChecks W used base size LMB_NOOVERWRITE true = none := by
  induction memory with
  | nil => cases h
  | cons m memory ih =>
      have hrest : maxAddr = LMB_ALLOC_ANYWHERE ∨ size ≤ maxAddr ∨
          forall m, m ∈ memory -> m.size < size ∨ maxAddr ≤ m.base := by
        rcases hroom with h | h | h
        · exact .inl h
        · exact .inr (.inl h)
        · exact .inr (.inr (fun q hq => h q (List.mem_cons_of_mem m hq)))
      have hhead : maxAddr = LMB_ALLOC_ANYWHERE ∨ size ≤ maxAddr ∨ m.size < size ∨
          maxAddr ≤ m.base := by
        rcases hroom with h | h | h
        · exact .inl h
        · exact .inr (.inl h)
        · exact .inr (.inr (h m List.mem_cons_self))
      have hnext := ih (fun q hq => hmem q (List.mem_cons_of_mem m hq)) hrest
      rw [allocSearch] at h
      split at h
      · exact hnext h
      · rename_i start hstart
        have hlt := allocStart_le (hmem m List.mem_cons_self) hhead hstart
        split at h
        · rename_i found hwalk
          cases h
          have hfound := allocWalk_some hused hfits hsize hlt hwalk
          exact ⟨by lia, hfound.right⟩
        · exact hnext h

/-!
## One call
-/

theorem reserve_outcome {lmb : Lmb} (hv : Valid W lmb) {x : LmbRegion}
    (hx : Request W x) (hc : Compatible lmb.usedMem x) :
    (lmbAddRegionFlags W lmb.usedMem x.base x.size x.flags).1 = 0 ∧
      Ordered (lmbAddRegionFlags W lmb.usedMem x.base x.size x.flags).2 ∧
      Fits W (lmbAddRegionFlags W lmb.usedMem x.base x.size x.flags).2 ∧
      (drops x lmb.usedMem = false ->
        Paints lmb.usedMem (lmbAddRegionFlags W lmb.usedMem x.base x.size x.flags).2
          x.base (x.base + x.size) (some x.flags)) := by
  have hadd := lmbAddRegionFlags_result hx hv.used hv.usedFits hc
  generalize lmbAddRegionFlags W lmb.usedMem x.base x.size x.flags = out at *
  cases hadd with
  | added _ ha =>
      have hk := ha.keeps hx hv.used hv.usedFits
      exact ⟨rfl, hk.left, hk.right.left, fun _ => hk.right.right⟩
  | lost hd hj =>
      have hk := hj.keeps hv.used hv.usedFits
      refine ⟨rfl, hk.left, hk.right, fun hnot => ?_⟩
      rw [hd] at hnot
      cases hnot

structure Sound (W : Nat) (lmb : Lmb) (call : Call) (out : Int × Nat × Lmb) : Prop where
  valid : Valid W out.2.2
  exact_of_kept : call.loses W lmb = false -> call.Exact lmb out

theorem drops_uniform {l : List LmbRegion} {x : LmbRegion}
    (h : forall r, r ∈ l -> r.flags = x.flags) : drops x l = false := by
  induction l with
  | nil => rfl
  | cons r l ih =>
      rw [drops]
      split
      · simp [h r List.mem_cons_self]
      · split
        · exact ih (fun s hs => h s (List.mem_cons_of_mem r hs))
        · rfl

theorem Added.flags {l l' : List LmbRegion} {x : LmbRegion} (h : Added l l' x) :
    forall r, r ∈ l' -> r ∈ l ∨ r.flags = x.flags := by
  rcases h with ⟨pre, mid, post, h, m⟩
  intro r hr
  rw [m.result] at hr
  rw [m.source]
  simp only [List.mem_append, List.mem_singleton] at hr ⊢
  rcases hr with (hr | rfl) | hr
  · exact .inl (.inl (.inl hr))
  · exact .inr m.flags
  · exact .inl (.inr hr)

theorem Sound.of_add {lmb : Lmb} (hv : Valid W lmb) {base size : Nat}
    (hsize : 0 < size) (hlt : base + size < 2 ^ W) :
    Sound W lmb (.add base size) (Call.run W (.add base size) lmb) := by
  let x : LmbRegion := { base := base, size := size, flags := LMB_NONE }
  have hx : Request W x := ⟨hsize, hlt⟩
  have hc : Compatible lmb.availableMem x := fun r hr => .inr ⟨hv.noFlags r hr, rfl⟩
  have hadd := lmbAddRegionFlags_result hx hv.available hv.availableFits hc
  have hrun : Call.run W (.add base size) lmb =
      ((lmbAddRegionFlags W lmb.availableMem x.base x.size x.flags).1, base,
        { lmb with availableMem :=
            (lmbAddRegionFlags W lmb.availableMem x.base x.size x.flags).2 }) := rfl
  rw [hrun]
  generalize lmbAddRegionFlags W lmb.availableMem x.base x.size x.flags = out at hadd
  cases hadd with
  | added _ ha =>
      have hk := ha.keeps hx hv.available hv.availableFits
      refine ⟨⟨hk.left, hk.right.left, fun r hr => ?_, hv.used, hv.usedFits⟩, fun _ => ?_⟩
      · exact (ha.flags r hr).elim (hv.noFlags r) id
      · exact .inl ⟨rfl, rfl, hk.right.right⟩
  | lost hd _ =>
      rw [drops_uniform (fun r hr => hv.noFlags r hr)] at hd
      cases hd

theorem Sound.of_free {lmb : Lmb} (hv : Valid W lmb) {base size flags : Nat}
    (hsize : 0 < size) (hlt : base + size < 2 ^ W) :
    Sound W lmb (.free base size flags) (Call.run W (.free base size flags) lmb) := by
  have hfree := lmbFreeRegion_result hv.used hv.usedFits hsize hlt
  have hrun : Call.run W (.free base size flags) lmb =
      ((lmbFreeRegion W lmb.usedMem base size).1, base,
        { lmb with usedMem := (lmbFreeRegion W lmb.usedMem base size).2 }) := rfl
  rw [hrun]
  generalize lmbFreeRegion W lmb.usedMem base size = out at hfree
  cases hfree with
  | absent => exact ⟨hv, fun _ => .inr ⟨show (-1 : Int) ≠ 0 by decide, rfl⟩⟩
  | freed _ hord hfits hpaint =>
      exact ⟨⟨hv.available, hv.availableFits, hv.noFlags, hord, hfits⟩,
        fun _ => .inl ⟨rfl, rfl, hpaint⟩⟩
  | lost hd hord hfits =>
      refine ⟨⟨hv.available, hv.availableFits, hv.noFlags, hord, hfits⟩, fun hnot => ?_⟩
      rw [Call.loses, hd] at hnot
      cases hnot

inductive AllocOutcome (W : Nat) (lmb : Lmb) (type : LmbMemType)
    (align addr size flags : Nat) : Int × Nat × Lmb -> Prop where
  | refused {ret : Int} {addr' : Nat} : ret ≠ 0 ->
      AllocOutcome W lmb type align addr size flags (ret, addr', lmb)
  | reserved {base : Nat} : Request W ⟨base, size, flags⟩ ->
      Compatible lmb.usedMem ⟨base, size, flags⟩ ->
      (Call.alloc type align addr size flags).request W lmb = some ⟨base, size, flags⟩ ->
      (type = .allocAddr -> base = addr) ->
      AllocOutcome W lmb type align addr size flags
        ((lmbAddRegionFlags W lmb.usedMem base size flags).1, base,
          { lmb with usedMem := (lmbAddRegionFlags W lmb.usedMem base size flags).2 })

theorem Sound.of_alloc {lmb : Lmb} (hv : Valid W lmb) {type : LmbMemType}
    {align addr size flags : Nat} {out : Int × Nat × Lmb}
    (h : AllocOutcome W lmb type align addr size flags out) :
    Sound W lmb (.alloc type align addr size flags) out := by
  cases h with
  | refused hret => exact ⟨hv, fun _ => .inr ⟨hret, rfl⟩⟩
  | reserved hx hc hreq haddr =>
      have hout := reserve_outcome hv hx hc
      refine ⟨⟨hv.available, hv.availableFits, hv.noFlags, hout.right.left,
        hout.right.right.left⟩, fun hkept => .inl ⟨hout.left, haddr, rfl, ?_⟩⟩
      refine hout.right.right.right ?_
      simpa [Call.loses, hreq] using hkept

theorem lmbAllocAddr_cases (addr size flags : Nat) (lmb : Lmb) :
    (addrAccepted W addr size flags lmb = true ∧
      lmbAllocAddr W addr size flags lmb =
        ((lmbAddRegionFlags W lmb.usedMem addr size flags).1,
          { lmb with usedMem := (lmbAddRegionFlags W lmb.usedMem addr size flags).2 })) ∨
    exists ret, ret ≠ 0 ∧ lmbAllocAddr W addr size flags lmb = (ret, lmb) := by
  unfold lmbAllocAddr addrAccepted
  cases lmbOverlapChecks W lmb.availableMem addr size LMB_NOOVERWRITE true with
  | none => exact .inr ⟨-EINVAL, by decide, rfl⟩
  | some rgn =>
      dsimp only
      cases lmb.availableMem[rgn]? with
      | none => exact .inr ⟨-EINVAL, by decide, rfl⟩
      | some m =>
          dsimp only
          by_cases hov : lmbAddrsOverlap W m.base m.size (sub W (add W addr size) 1) 1 = true
          · rw [if_pos hov, lmbReserve, hov]
            cases lmbOverlapChecks W lmb.usedMem addr size flags false with
            | none => exact .inl ⟨rfl, rfl⟩
            | some i => exact .inr ⟨-EEXIST, by decide, rfl⟩
          · rw [if_neg hov]
            exact .inr ⟨-EINVAL, by decide, rfl⟩

theorem checks_of_accepted {addr size flags : Nat} {lmb : Lmb}
    (h : addrAccepted W addr size flags lmb = true) :
    lmbOverlapChecks W lmb.usedMem addr size flags false = none := by
  unfold addrAccepted at h
  split at h
  · cases h
  · split at h
    · cases h
    · exact Option.isNone_iff_eq_none.mp (Bool.and_eq_true_iff.mp h).right

theorem AllocOutcome.of_allocAddr {lmb : Lmb} (hv : Valid W lmb)
    {align addr size flags : Nat} (hsize : 0 < size) (hlt : addr + size < 2 ^ W) :
    AllocOutcome W lmb .allocAddr align addr size flags
      (Call.run W (.alloc .allocAddr align addr size flags) lmb) := by
  have hrun : Call.run W (.alloc .allocAddr align addr size flags) lmb =
      ((lmbAllocAddr W addr size flags lmb).1, addr,
        (lmbAllocAddr W addr size flags lmb).2) := by
    simp [Call.run, lmbAllocMem, Nat.ne_of_gt hsize]
  rw [hrun]
  rcases lmbAllocAddr_cases addr size flags lmb with ⟨haccept, heq⟩ | ⟨ret, hret, heq⟩
  · have hx : Request W ⟨addr, size, flags⟩ := ⟨hsize, hlt⟩
    have hc : Compatible lmb.usedMem ⟨addr, size, flags⟩ :=
      compatible_of_checks hx hv.used hv.usedFits (checks_of_accepted haccept)
    rw [heq]
    refine .reserved hx hc ?_ (fun _ => rfl)
    rw [Call.request, if_pos haccept]
  · rw [heq]
    exact .refused hret

theorem AllocOutcome.of_search {lmb : Lmb} (hv : Valid W lmb) {type : LmbMemType}
    {align addr limit size flags : Nat} (hsize : 0 < size) (htype : type ≠ .allocAddr)
    (hroom : limit = LMB_ALLOC_ANYWHERE ∨ size ≤ limit ∨
      forall m, m ∈ lmb.availableMem -> m.size < size ∨ limit ≤ m.base)
    (hreq : (Call.alloc type align addr size flags).request W lmb =
      (allocSearch W lmb.usedMem size align limit lmb.availableMem.reverse).map
        (fun base => { base := base, size := size, flags := flags })) :
    AllocOutcome W lmb type align addr size flags
      (lmbAllocBase W size align limit flags lmb) := by
  unfold lmbAllocBase
  cases hsearch : allocSearch W lmb.usedMem size align limit lmb.availableMem.reverse with
  | none => exact .refused (by decide)
  | some base =>
      have hroom' : limit = LMB_ALLOC_ANYWHERE ∨ size ≤ limit ∨
          forall m, m ∈ lmb.availableMem.reverse -> m.size < size ∨ limit ≤ m.base := by
        simpa using hroom
      have hfound := allocSearch_some hv.used hv.usedFits hsize
        (fun m hm => hv.availableFits m (List.mem_reverse.mp hm)) hroom' hsearch
      have hx : Request W ⟨base, size, flags⟩ := ⟨hsize, hfound.left⟩
      have hc : Compatible lmb.usedMem ⟨base, size, flags⟩ := fun r hr =>
        .inl (apart_of_checks hx hv.used hv.usedFits LMB_NOOVERWRITE hfound.right r hr)
      have hres : AllocOutcome W lmb type align addr size flags _ :=
        .reserved hx hc (by rw [hreq, hsearch]; rfl) (fun h => absurd h htype)
      have hzero : (lmbAddRegionFlags W lmb.usedMem base size flags).1 = 0 :=
        (reserve_outcome hv hx hc).left
      dsimp only
      rw [if_neg (not_not.mpr hzero), <- hzero]
      exact hres

theorem alloc_outcome {lmb : Lmb} (hv : Valid W lmb) {type : LmbMemType}
    {align addr size flags : Nat}
    (hwf : (Call.alloc type align addr size flags).WellFormed W)
    (hroom : (Call.alloc type align addr size flags).underflows lmb = false) :
    AllocOutcome W lmb type align addr size flags
      (Call.run W (.alloc type align addr size flags) lmb) := by
  cases type with
  | allocAddr => exact AllocOutcome.of_allocAddr hv hwf.left hwf.right
  | allocAny =>
      have hout : AllocOutcome W lmb .allocAny align addr size flags
          (lmbAllocBase W size align LMB_ALLOC_ANYWHERE flags lmb) :=
        AllocOutcome.of_search hv hwf.left (by decide) (.inl rfl) rfl
      simpa [Call.run, lmbAllocMem, Nat.ne_of_gt hwf.left] using hout
  | allocMax =>
      have hlimit : addr = LMB_ALLOC_ANYWHERE ∨ size ≤ addr ∨
          forall m, m ∈ lmb.availableMem -> m.size < size ∨ addr ≤ m.base := by
        simp only [Call.underflows, Bool.and_eq_false_iff, decide_eq_false_iff_not,
          List.any_eq_false, not_not, Nat.not_lt] at hroom
        rcases hroom with (h | h) | h
        · exact .inl h
        · exact .inr (.inl h)
        · refine .inr (.inr (fun m hm => ?_))
          have := h m hm
          simp only [Bool.and_eq_true, decide_eq_true_eq] at this
          lia
      have hout : AllocOutcome W lmb .allocMax align addr size flags
          (lmbAllocBase W size align addr flags lmb) :=
        AllocOutcome.of_search hv hwf.left (by decide) hlimit rfl
      simpa [Call.run, lmbAllocMem, Nat.ne_of_gt hwf.left] using hout

theorem Call.sound {lmb : Lmb} (hv : Valid W lmb) {call : Call}
    (hwf : call.WellFormed W) (hroom : call.underflows lmb = false) :
    Sound W lmb call (call.run W lmb) := by
  match call, hwf with
  | .add base size, hwf => exact Sound.of_add hv hwf.left hwf.right
  | .free base size flags, hwf => exact Sound.of_free hv hwf.left hwf.right
  | .alloc type align addr size flags, hwf =>
      exact Sound.of_alloc hv (alloc_outcome hv hwf hroom)

/-!
## Runs
-/

def Call.Bounded (W : Nat) (lmb : Lmb) (call : Call) : Prop :=
  call.WellFormed W ∧ call.underflows lmb = false

def Call.Kept (W : Nat) (lmb : Lmb) (call : Call) : Prop :=
  call.Bounded W lmb ∧ call.loses W lmb = false

instance : DecidableRel (Call.Bounded W) := fun _ _ =>
  inferInstanceAs (Decidable (_ ∧ _))

instance : DecidableRel (Call.Kept W) := fun _ _ =>
  inferInstanceAs (Decidable (_ ∧ _))

theorem run_valid {calls : List Call}
    (h : Runs.Along (step W) (Call.Bounded W) Lmb.empty calls) :
    Valid W (run W Lmb.empty calls) := by
  have hstep : forall lmb call, Call.Bounded W lmb call -> Valid W lmb ->
      Valid W (step W lmb call) :=
    fun _ _ hgood hv => (Call.sound hv hgood.left hgood.right).valid
  exact Runs.invariant hstep h valid_empty

/-- Both region lists are strictly sorted by base, without empty regions, and
each region ends at or before the base of every later one. -/
def WellSorted (l : List LmbRegion) : Prop :=
  l.Pairwise (fun r s => r.base < s.base) ∧ (forall r, r ∈ l -> 0 < r.size) ∧
    l.Pairwise (fun r s => r.base + r.size ≤ s.base)

instance (l : List LmbRegion) : Decidable (WellSorted l) :=
  inferInstanceAs (Decidable (_ ∧ _ ∧ _))

theorem wellSorted_of_ordered {l : List LmbRegion} (h : Ordered l) : WellSorted l := by
  refine ⟨?_, h.pos, h.before⟩
  refine h.before.imp_of_mem (fun {r s} hr _ hle => ?_)
  have := h.pos r hr
  unfold Region.stop at hle
  lia

theorem lmb_lists_sorted {calls : List Call}
    (h : Runs.Along (step W) (Call.Bounded W) Lmb.empty calls) :
    WellSorted (run W Lmb.empty calls).availableMem ∧
      WellSorted (run W Lmb.empty calls).usedMem :=
  have hv := run_valid h
  ⟨wellSorted_of_ordered hv.available, wellSorted_of_ordered hv.used⟩

theorem lmb_lists_sorted_three :
    WellSorted (run 32 Lmb.empty [.add 0x80000000 0x10000000,
      .alloc .allocAddr 0 0x80001000 0x1000 LMB_NOOVERWRITE,
      .alloc .allocMax 8 0x80002000 0x800 LMB_NONE]).availableMem ∧
    WellSorted (run 32 Lmb.empty [.add 0x80000000 0x10000000,
      .alloc .allocAddr 0 0x80001000 0x1000 LMB_NOOVERWRITE,
      .alloc .allocMax 8 0x80002000 0x800 LMB_NONE]).usedMem :=
  lmb_lists_sorted (by decide +kernel)

/-- Two searches below an address that is smaller than the size give the same
range twice. -/
theorem lmb_search_below_size :
    (forall call, call ∈ [Call.add 0x10 0x1000,
        .alloc .allocMax 1 0x20 0x100 LMB_NONE, .alloc .allocMax 1 0x20 0x100 LMB_NONE] ->
      call.WellFormed 32) ∧
    ¬ WellSorted (run 32 Lmb.empty [.add 0x10 0x1000,
      .alloc .allocMax 1 0x20 0x100 LMB_NONE,
      .alloc .allocMax 1 0x20 0x100 LMB_NONE]).usedMem := by
  decide +kernel

theorem lmb_call_exact {calls : List Call} {call : Call}
    (h : Runs.Along (step W) (Call.Kept W) Lmb.empty (calls ++ [call])) :
    call.Exact (run W Lmb.empty calls) (call.run W (run W Lmb.empty calls)) := by
  have hparts := Runs.along_append.mp h
  have hcall : call.Kept W (run W Lmb.empty calls) := hparts.right.left
  have hbounded : Runs.Along (step W) (Call.Bounded W) Lmb.empty calls :=
    hparts.left.mono (fun _ _ hgood => hgood.left)
  exact (Call.sound (run_valid hbounded) hcall.left.left hcall.left.right).exact_of_kept
    hcall.right

def touchingCalls : List Call :=
  [.add 0x80000000 0x10000000,
    .alloc .allocAddr 0 0x80002000 0x1000 LMB_NONE,
    .alloc .allocAddr 0 0x80003800 0x200 LMB_NONE,
    .alloc .allocAddr 0 0x80004000 0x1000 LMB_NONE,
    .alloc .allocAddr 0 0x80003000 0x1000 LMB_NONE]

theorem lmb_call_exact_touching :
    Call.Exact (run 32 Lmb.empty touchingCalls) (.free 0x80002800 0x400 LMB_NONE)
      (Call.run 32 (.free 0x80002800 0x400 LMB_NONE) (run 32 Lmb.empty touchingCalls)) :=
  lmb_call_exact (by decide +kernel)

/-- The reservation in front of the two regions succeeds and is lost. -/
theorem lmb_reservation_lost :
    (forall call, call ∈ touchingCalls ++
        [Call.alloc .allocAddr 0 0x80001000 0x1000 LMB_NOOVERWRITE] ->
      call.WellFormed 32) ∧
    ¬ Call.Exact (run 32 Lmb.empty touchingCalls)
      (.alloc .allocAddr 0 0x80001000 0x1000 LMB_NOOVERWRITE)
      (Call.run 32 (.alloc .allocAddr 0 0x80001000 0x1000 LMB_NOOVERWRITE)
        (run 32 Lmb.empty touchingCalls)) := by
  refine ⟨by decide +kernel, fun hexact => ?_⟩
  rcases hexact with ⟨_, _, _, hpaint⟩ | ⟨hret, _⟩
  · have hlost := hpaint 0x80001000
    revert hlost
    decide +kernel
  · revert hret
    decide +kernel

end Memory
end Hlk7621
