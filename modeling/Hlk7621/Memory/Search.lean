import Hlk7621.Memory.Grants
import Mathlib.Data.Nat.Bitwise

/-!
# The search for a free range

`_lmb_alloc_base` walks down from the end of each bank, from the last bank to
the first, and from a reservation in the way to the highest aligned base below
it.  What it finds is the highest range that fits, except where one of its
subtractions wraps or an alignment of zero clears every base.
-/

namespace Hlk7621
namespace Memory

open Regions

variable {W : Nat}

/-!
## Alignment
-/

/-- The documented alignments: none, or a power of two. -/
def AlignOk (align : Nat) : Prop := align = 0 ∨ exists k, align = 2 ^ k

theorem and_high_mask {x k W : Nat} (hx : x < 2 ^ W) (hk : k ≤ W) :
    x &&& (2 ^ W - 2 ^ k) = x / 2 ^ k * 2 ^ k := by
  have hmask : 2 ^ W - 2 ^ k = (2 ^ (W - k) - 1) * 2 ^ k := by
    rw [Nat.sub_mul, Nat.one_mul, <- Nat.pow_add, Nat.sub_add_cancel hk]
  apply Nat.eq_of_testBit_eq
  intro i
  rw [Nat.testBit_and, hmask, Nat.testBit_mul_two_pow, Nat.testBit_mul_two_pow,
    Nat.testBit_two_pow_sub_one, Nat.testBit_div_two_pow]
  by_cases hki : k ≤ i
  · rw [Nat.sub_add_cancel hki]
    by_cases hiW : i < W
    · simp [hki, show i - k < W - k by lia]
    · have hfalse : x.testBit i = false :=
        Nat.testBit_lt_two_pow (Nat.lt_of_lt_of_le hx (Nat.pow_le_pow_right (by decide)
          (Nat.not_lt.mp hiW)))
      simp [hfalse]
  · simp [hki]

/-- `ALIGN_DOWN` rounds down to a multiple, and to zero for an alignment of
zero. -/
theorem alignDown_eq {x align : Nat} (hx : x < 2 ^ W) (halign : AlignOk align) :
    alignDown W x align = x / align * align := by
  have hcancel : add W (sub W x (sub W (align % 2 ^ W) 1)) (sub W (align % 2 ^ W) 1) = x :=
    sub_add_cancel hx (sub_lt _ _)
  unfold alignDown
  dsimp only
  rw [hcancel]
  have hpos := Nat.two_pow_pos W
  by_cases hzero : align % 2 ^ W = 0
  · -- The mask has all bits.
    have hmask : 2 ^ W - 1 - sub W (align % 2 ^ W) 1 = 0 := by
      rw [hzero]
      unfold sub
      rcases Nat.eq_or_lt_of_le hpos with hone | hlt
      · rw [<- hone]
      · rw [Nat.mod_eq_of_lt (show 1 < 2 ^ W from hlt), Nat.zero_add,
          Nat.mod_eq_of_lt (by lia)]
        lia
    rw [hmask, Nat.and_zero]
    rcases Nat.eq_zero_or_pos align with rfl | hap
    · rw [Nat.mul_zero]
    · have hle := Nat.le_of_dvd hap (Nat.dvd_of_mod_eq_zero hzero)
      rw [Nat.div_eq_of_lt (by lia), Nat.zero_mul]
  · rcases halign with rfl | ⟨k, rfl⟩
    · exact absurd (Nat.zero_mod _) hzero
    · have hk : k < W := by
        by_contra hge
        exact hzero (Nat.mod_eq_zero_of_dvd (Nat.pow_dvd_pow 2 (Nat.not_lt.mp hge)))
      have hlt : 2 ^ k < 2 ^ W := Nat.pow_lt_pow_right (by decide) hk
      have hkpos := Nat.two_pow_pos k
      rw [Nat.mod_eq_of_lt hlt, sub_eq hkpos hlt,
        show 2 ^ W - 1 - (2 ^ k - 1) = 2 ^ W - 2 ^ k by lia]
      exact and_high_mask hx (Nat.le_of_lt hk)

theorem le_round_down {align b y : Nat} (hdvd : align ∣ b) :
    b ≤ y / align * align <-> b ≤ y := by
  constructor
  · intro h
    exact Nat.le_trans h (Nat.div_mul_le_self y align)
  · intro h
    rcases Nat.eq_zero_or_pos align with rfl | hpos
    · rw [Nat.eq_zero_of_zero_dvd hdvd]
      exact Nat.zero_le _
    · rcases hdvd with ⟨k, rfl⟩
      rw [Nat.mul_comm align k] at h ⊢
      exact Nat.mul_le_mul_right align ((Nat.le_div_iff_mul_le hpos).mpr h)

/-!
## Ranges that fit
-/

def Unreserved (used : List LmbRegion) (base size : Nat) : Prop :=
  forall a, base ≤ a -> a < base + size -> flagsAt used a = none

/-- What a search may return: an aligned range in one bank, free, and not beyond
the limit, if there is one. -/
structure Fit (lmb : Lmb) (align size : Nat) (limit : Option Nat) (b : Nat) : Prop where
  aligned : align = 0 ∨ align ∣ b
  bank : exists m, m ∈ lmb.availableMem ∧ m.base ≤ b ∧ b + size ≤ m.stop
  free : Unreserved lmb.usedMem b size
  below : forall max, limit = some max -> b + size ≤ max

theorem unreserved_iff {used : List LmbRegion} (hused : Ordered used) {base size : Nat}
    (hsize : 0 < size) : Unreserved used base size <->
      forall r, r ∈ used -> Apart r ⟨base, size, LMB_NONE⟩ := by
  constructor
  · intro h r hr
    by_contra hnot
    rcases (not_apart_iff hsize (hused.pos r hr)).mp hnot with ⟨a, hlo, hhi, hcov⟩
    cases (h a hlo hhi).symm.trans (hused.flagsAt_eq hr hcov)
  · intro h a hlo hhi
    refine flagsAt_eq_none fun r hr hcov => ?_
    have hapart := h r hr
    unfold Apart Region.Covers Region.stop at *
    dsimp only at *
    lia

theorem checks_none_iff {used : List LmbRegion} (hused : Ordered used)
    (hfits : Fits W used) {base size : Nat} (hsize : 0 < size)
    (hfit : base + size < 2 ^ W) :
    lmbOverlapChecks W used base size LMB_NOOVERWRITE true = none <->
      Unreserved used base size := by
  have hget := checks_get (x := ⟨base, size, LMB_NONE⟩) hsize (Nat.le_of_lt hfit) hused
    (fun r hr => Nat.le_of_lt (hfits r hr)) LMB_NOOVERWRITE
  rw [unreserved_iff hused hsize]
  constructor
  · intro h r hr
    rw [h] at hget
    have hmiss := List.find?_eq_none.mp hget.symm r hr
    simpa using hmiss
  · intro h
    have hnone : used.find? (fun m => ¬ Apart m ⟨base, size, LMB_NONE⟩) = none := by
      rw [List.find?_eq_none]
      intro r hr
      simp [h r hr]
    dsimp only at hget
    rw [hnone] at hget
    cases hcheck : lmbOverlapChecks W used base size LMB_NOOVERWRITE true with
    | none => rfl
    | some i =>
        rw [hcheck, Option.bind_some] at hget
        have hlt : i < used.length := (List.findIdx?_eq_some_iff_getElem.mp hcheck).1
        rw [List.getElem?_eq_getElem hlt] at hget
        cases hget

/-!
## The walk
-/

/-- What the walk down from `base` in a bank from `lo` on finds: the highest
aligned base whose range is free. -/
structure Walked (used : List LmbRegion) (size align lo base : Nat)
    (out : Option Nat) : Prop where
  found : forall b, out = some b -> b ≠ 0 ∧ lo ≤ b ∧ b ≤ base ∧ align ∣ b ∧
    Unreserved used b size ∧
    forall b', align ∣ b' -> b' ≤ base -> Unreserved used b' size -> b' ≤ b
  none : out = Option.none -> forall b, b ≠ 0 -> lo ≤ b -> b ≤ base -> align ∣ b ->
    ¬ Unreserved used b size

section

variable {used : List LmbRegion} {size align lo : Nat}

theorem below_obstacle {base b : Nat} {r : LmbRegion} (hused : Ordered used)
    (hsize : 0 < size) (hr : r ∈ used) (hnot : ¬ Apart r ⟨base, size, LMB_NONE⟩)
    (hb : b ≤ base) (hfree : Unreserved used b size) : b + size ≤ r.base := by
  have hapart := (unreserved_iff hused hsize).mp hfree r hr
  unfold Apart Region.stop at *
  dsimp only at *
  lia

theorem allocWalk_walked {fuel base : Nat} (hused : Ordered used) (hfits : Fits W used)
    (hsize : 0 < size) (halign : AlignOk align) (hdvd : align ∣ base)
    (hbase : base + size < 2 ^ W) (hfuel : base ≤ fuel) :
    Walked used size align lo base (allocWalk W used size align lo fuel base) := by
  induction fuel generalizing base with
  | zero =>
      refine ⟨fun b hb => (by cases hb), fun _ b hne _ hle => ?_⟩
      lia
  | succ fuel ih =>
      rw [allocWalk]
      by_cases hend : base = 0 ∨ base < lo
      · rw [if_pos hend]
        refine ⟨fun b hb => (by cases hb), fun _ b hne hlo hle => ?_⟩
        lia
      · rw [if_neg hend]
        have hiff := checks_none_iff hused hfits hsize hbase
        cases hcheck : lmbOverlapChecks W used base size LMB_NOOVERWRITE true with
        | none =>
            have hfree := hiff.mp hcheck
            refine ⟨fun b hb => ?_, fun h => by cases h⟩
            cases hb
            exact ⟨by lia, by lia, Nat.le_refl _, hdvd, hfree, fun _ _ hle _ => hle⟩
        | some rgn =>
            have hlt : rgn < used.length := (List.findIdx?_eq_some_iff_getElem.mp hcheck).1
            have hget : used[rgn]? = some used[rgn] := List.getElem?_eq_getElem hlt
            dsimp only
            rw [hget]
            generalize used[rgn] = r at hget
            have hobst := checks_found (x := ⟨base, size, LMB_NOOVERWRITE⟩)
              ⟨hsize, hbase⟩ hused hfits LMB_NOOVERWRITE hcheck hget
            have hbelow : forall b, b ≤ base -> Unreserved used b size ->
                b + size ≤ r.base := fun b hb hfree =>
              below_obstacle hused hsize hobst.left hobst.right hb hfree
            dsimp only
            by_cases hroom : r.base < size
            · rw [if_pos hroom]
              refine ⟨fun b hb => (by cases hb), fun _ b _ _ hle _ hfree => ?_⟩
              have := hbelow b hle hfree
              lia
            · rw [if_neg hroom]
              have hrlt : r.base < 2 ^ W :=
                Nat.lt_of_le_of_lt (Nat.le_add_right _ _) (hfits r hobst.left)
              have hnext := retry_lt align hused hfits hsize hbase hcheck hget hroom
              rw [sub_eq (Nat.not_lt.mp hroom) hrlt,
                alignDown_eq (by lia) halign] at hnext ⊢
              have hwalk := ih (Nat.dvd_mul_left align ((r.base - size) / align))
                (by lia) (by lia)
              have hle : forall b, align ∣ b -> b ≤ base -> Unreserved used b size ->
                  b ≤ (r.base - size) / align * align := by
                intro b hbdvd hb hfree
                have := hbelow b hb hfree
                exact (le_round_down hbdvd).mpr (by lia)
              refine ⟨fun b hb => ?_, fun h b hne hlo hb hbdvd hfree => ?_⟩
              · rcases hwalk.found b hb with ⟨h1, h2, h3, h4, h5, h6⟩
                exact ⟨h1, h2, by lia, h4, h5,
                  fun b' hd hb' hf => h6 b' hd (hle b' hd hb' hf) hf⟩
              · exact hwalk.none h b hne hlo (hle b hbdvd hb hfree) hbdvd hfree

end

/-!
## Banks
-/

/-- The range at `b` lies in the bank and below the limit, where zero is none. -/
def InBank (m : LmbRegion) (size limit b : Nat) : Prop :=
  m.base ≤ b ∧ b + size ≤ m.stop ∧ (limit ≠ LMB_ALLOC_ANYWHERE -> b + size ≤ limit)

def bankSearch (W : Nat) (used : List LmbRegion) (size align limit : Nat)
    (m : LmbRegion) : Option Nat :=
  (allocStart W size align limit m).bind fun start =>
    allocWalk W used size align m.base start start

theorem allocSearch_cons (used : List LmbRegion) (size align limit : Nat)
    (m : LmbRegion) (rest : List LmbRegion) :
    allocSearch W used size align limit (m :: rest) =
      (bankSearch W used size align limit m).or
        (allocSearch W used size align limit rest) := by
  rw [allocSearch, bankSearch]
  cases allocStart W size align limit m with
  | none => rfl
  | some start =>
      dsimp only
      rw [Option.bind_some]
      cases allocWalk W used size align m.base start start with
      | none => rfl
      | some base => rfl

section

variable {used : List LmbRegion} {size align limit : Nat}

theorem allocStart_eq {m : LmbRegion} (hm : m.stop < 2 ^ W) (halign : AlignOk align)
    (hlimit : limit = LMB_ALLOC_ANYWHERE ∨ size ≤ limit) :
    allocStart W size align limit m =
      if size ≤ m.size ∧ (limit = LMB_ALLOC_ANYWHERE ∨ m.base < limit) then
        some ((if limit = LMB_ALLOC_ANYWHERE then m.stop - size
          else min m.stop limit - size) / align * align)
      else none := by
  have hstop : m.stop = m.base + m.size := rfl
  unfold allocStart
  rw [add_stop hm]
  by_cases hsize : m.size < size
  · rw [if_pos hsize, if_neg (by lia)]
  · rw [if_neg hsize]
    by_cases hany : limit = LMB_ALLOC_ANYWHERE
    · rw [if_pos hany, if_pos ⟨Nat.not_lt.mp hsize, .inl hany⟩, if_pos hany,
        sub_eq (by lia) hm, alignDown_eq (by lia) halign]
    · rw [if_neg hany]
      by_cases hlt : m.base < limit
      · have hmin : min m.stop limit ≤ m.stop := Nat.min_le_left _ _
        have hroom : size ≤ min m.stop limit := by
          rcases hlimit with h | h
          · exact absurd h hany
          · exact Nat.le_min.mpr ⟨by lia, h⟩
        rw [if_pos hlt, if_pos ⟨Nat.not_lt.mp hsize, .inr hlt⟩, if_neg hany]
        dsimp only
        rw [if_neg (show ¬ m.stop < m.base by lia), sub_eq hroom (by lia),
          alignDown_eq (by lia) halign]
      · rw [if_neg hlt, if_neg (fun h => h.right.elim hany hlt)]

structure Searched (used : List LmbRegion) (size align limit : Nat)
    (banks : List LmbRegion) (out : Option Nat) : Prop where
  found : forall b, out = some b -> b ≠ 0 ∧
    (exists m, m ∈ banks ∧ InBank m size limit b) ∧ align ∣ b ∧ Unreserved used b size ∧
    forall b' m, b' ≠ 0 -> m ∈ banks -> InBank m size limit b' -> align ∣ b' ->
      Unreserved used b' size -> b' ≤ b
  none : out = Option.none -> forall b m, b ≠ 0 -> m ∈ banks -> InBank m size limit b ->
    align ∣ b -> ¬ Unreserved used b size

theorem bankSearch_searched {m : LmbRegion} (hm : m.stop < 2 ^ W) (hused : Ordered used)
    (hfits : Fits W used) (hsize : 0 < size) (halign : AlignOk align)
    (hlimit : limit = LMB_ALLOC_ANYWHERE ∨ size ≤ limit) :
    Searched used size align limit [m] (bankSearch W used size align limit m) := by
  have hstop : m.stop = m.base + m.size := rfl
  unfold bankSearch
  rw [allocStart_eq hm halign hlimit]
  by_cases hbank : size ≤ m.size ∧ (limit = LMB_ALLOC_ANYWHERE ∨ m.base < limit)
  · rw [if_pos hbank, Option.bind_some]
    generalize htop : (if limit = LMB_ALLOC_ANYWHERE then m.stop - size
      else min m.stop limit - size) = top
    have htop' : top + size ≤ m.stop ∧ (limit ≠ LMB_ALLOC_ANYWHERE -> top + size ≤ limit) ∧
        forall b, InBank m size limit b -> b ≤ top := by
      unfold InBank
      by_cases hany : limit = LMB_ALLOC_ANYWHERE
      · rw [if_pos hany] at htop
        refine ⟨by lia, fun h => absurd hany h, fun b hb => by lia⟩
      · rw [if_neg hany] at htop
        have hle : size ≤ limit := hlimit.resolve_left hany
        refine ⟨by lia, fun _ => by lia, fun b hb => ?_⟩
        have := hb.right.right hany
        lia
    have hround := Nat.div_mul_le_self top align
    have hwalk : Walked used size align m.base (top / align * align) _ :=
      @allocWalk_walked W used size align m.base _ _ hused hfits hsize halign
        (Nat.dvd_mul_left align (top / align)) (by lia) (Nat.le_refl (top / align * align))
    have hle : forall b, align ∣ b -> InBank m size limit b -> b ≤ top / align * align :=
      fun b hdvd hb => (le_round_down hdvd).mpr (htop'.right.right b hb)
    refine ⟨fun b hb => ?_, fun h b m' hne hm' hin hdvd => ?_⟩
    · rcases hwalk.found b hb with ⟨h1, h2, h3, h4, h5, h6⟩
      refine ⟨h1, ⟨m, List.mem_singleton.mpr rfl, h2, by lia, fun hl => ?_⟩, h4, h5, ?_⟩
      · have := htop'.right.left hl
        lia
      · intro b' m' _ hm' hin hdvd hfree
        rw [List.mem_singleton.mp hm'] at hin
        exact h6 b' hdvd (hle b' hdvd hin) hfree
    · rw [List.mem_singleton.mp hm'] at hin
      exact hwalk.none h b hne hin.left (hle b hdvd hin) hdvd
  · rw [if_neg hbank, Option.bind_none]
    refine ⟨fun b hb => (by cases hb), fun _ b m' _ hm' hin _ _ => hbank ?_⟩
    rw [List.mem_singleton.mp hm'] at hin
    unfold InBank at hin
    by_cases hany : limit = LMB_ALLOC_ANYWHERE
    · exact ⟨by lia, .inl hany⟩
    · have := hin.right.right hany
      exact ⟨by lia, .inr (by lia)⟩

theorem allocSearch_searched {banks : List LmbRegion} (hbanks : Fits W banks)
    (hdown : banks.Pairwise (fun m m' => m'.stop ≤ m.base)) (hused : Ordered used)
    (hfits : Fits W used) (hsize : 0 < size) (halign : AlignOk align)
    (hlimit : limit = LMB_ALLOC_ANYWHERE ∨ size ≤ limit) :
    Searched used size align limit banks (allocSearch W used size align limit banks) := by
  induction banks with
  | nil =>
      exact ⟨fun b hb => (by cases hb), fun _ b m _ hm => absurd hm List.not_mem_nil⟩
  | cons m rest ih =>
      have hd := List.pairwise_cons.mp hdown
      have hrest := ih (fun r hr => hbanks r (List.mem_cons_of_mem m hr)) hd.right
      have hbank := bankSearch_searched (hbanks m List.mem_cons_self) hused hfits hsize
        halign hlimit
      rw [allocSearch_cons]
      cases hout : bankSearch W used size align limit m with
      | some b =>
          rw [hout] at hbank
          rcases hbank.found b rfl with ⟨h1, ⟨m', hm', hin⟩, h3, h4, h5⟩
          rw [List.mem_singleton.mp hm'] at hin
          refine ⟨fun c hc => ?_, fun h => by cases h⟩
          cases hc
          refine ⟨h1, ⟨m, List.mem_cons_self, hin⟩, h3, h4, ?_⟩
          intro b' m' hne hm' hin' hdvd hfree
          rcases List.mem_cons.mp hm' with rfl | hm'
          · exact h5 b' m' hne (List.mem_singleton.mpr rfl) hin' hdvd hfree
          · -- A range in a lower bank begins below one in this bank.
            have hlow := hd.left m' hm'
            have := hin'.right.left
            have := hin.left
            lia
      | none =>
          rw [hout] at hbank
          rw [Option.none_or]
          have hnone := hbank.none rfl
          refine ⟨fun b hb => ?_, fun h b m' hne hm' hin hdvd => ?_⟩
          · rcases hrest.found b hb with ⟨h1, ⟨m', hm', hin⟩, h3, h4, h5⟩
            refine ⟨h1, ⟨m', List.mem_cons_of_mem m hm', hin⟩, h3, h4, ?_⟩
            intro b' m'' hne hm'' hin' hdvd hfree
            rcases List.mem_cons.mp hm'' with rfl | hm''
            · exact absurd hfree (hnone b' _ hne (List.mem_singleton.mpr rfl) hin' hdvd)
            · exact h5 b' m'' hne hm'' hin' hdvd hfree
          · rcases List.mem_cons.mp hm' with rfl | hm'
            · exact hnone b _ hne (List.mem_singleton.mpr rfl) hin hdvd
            · exact hrest.none h b m' hne hm' hin hdvd

end

end Memory
end Hlk7621
