import Hlk7621.Memory.Search

/-!
# Allocations

When `lmb_alloc_mem` without a given address is sound and complete: it returns
an aligned free range within the limit, reserves it, and fails only if there is
no such range.
-/

namespace Hlk7621
namespace Memory

open Regions

variable {W : Nat}

structure Clear (W : Nat) (lmb : Lmb) : Prop where
  available : Ordered lmb.availableMem
  availableFits : Fits W lmb.availableMem
  used : Ordered lmb.usedMem
  usedFits : Fits W lmb.usedMem

/-- The limit of a search as the caller means it. -/
def searchLimit (type : LmbMemType) (addr : Nat) : Option Nat :=
  match type with
  | .allocMax => some addr
  | _ => none

/-- The limit that the code goes by, where zero is none. -/
def codeLimit (type : LmbMemType) (addr : Nat) : Nat :=
  match type with
  | .allocMax => addr
  | _ => LMB_ALLOC_ANYWHERE

/-- The outcome of a search is sound, complete, and reached in finitely many
rounds. -/
structure Allocates (W : Nat) (lmb : Lmb) (type : LmbMemType)
    (align addr size flags : Nat) (out : Int × Nat × Lmb) : Prop where
  sound : out.1 = 0 ->
    Fit lmb align size (searchLimit type addr) out.2.1 ∧
    forall a, out.2.1 ≤ a -> a < out.2.1 + size ->
      flagsAt out.2.2.usedMem a = some flags
  complete : out.1 ≠ 0 -> out.2.2 = lmb ∧
    forall b, b ≠ 0 -> ¬ Fit lmb align size (searchLimit type addr) b
  ends : forall m, m ∈ lmb.availableMem -> forall start,
    allocStart W size align (codeLimit type addr) m = some start ->
    forall fuel, start ≤ fuel ->
      allocWalk W lmb.usedMem size align m.base fuel start =
        allocWalk W lmb.usedMem size align m.base start start

def TopFit (lmb : Lmb) (align size : Nat) (limit : Option Nat) (b : Nat) : Prop :=
  b ≠ 0 ∧ Fit lmb align size limit b ∧
    forall b', b' ≠ 0 -> Fit lmb align size limit b' -> b' ≤ b

/-- The walk from the wrapped difference of a limit and a larger size finds
nothing in a bank from `lo` on. -/
def WrapBlocked (W : Nat) (lmb : Lmb) (align limit size lo : Nat) : Prop :=
  let start := (2 ^ W + limit - size) / align * align
  start = 0 ∨ start < lo ∨
    exists i r, lmbOverlapChecks W lmb.usedMem start size LMB_NOOVERWRITE true = some i ∧
      lmb.usedMem[i]? = some r ∧
      forall b, b ≠ 0 -> lo ≤ b -> b + size ≤ r.base -> align ∣ b ->
        ¬ Unreserved lmb.usedMem b size

/-- The request does not come to one of the places where the search goes wrong:
no alignment, the limit zero that means none, a limit smaller than the size, and
a reservation that is lost to the union of two others. -/
structure Searchable (W : Nat) (lmb : Lmb) (type : LmbMemType)
    (align addr size flags : Nat) : Prop where
  aligned : align = 0 -> forall b, b ≠ 0 ->
    ¬ Fit lmb align size (searchLimit type addr) b
  limited : align ≠ 0 -> type = .allocMax -> addr = LMB_ALLOC_ANYWHERE ->
    forall b, b ≠ 0 -> ¬ Fit lmb align size none b
  roomy : type = .allocMax -> addr ≠ LMB_ALLOC_ANYWHERE -> addr < size ->
    forall m, m ∈ lmb.availableMem -> size ≤ m.size -> m.base < addr ->
      WrapBlocked W lmb align addr size m.base
  kept : forall b, TopFit lmb align size (searchLimit type addr) b ->
    drops ⟨b, size, flags⟩ lmb.usedMem = false

/-!
## The search ends
-/

section

variable {used : List LmbRegion} {size align lo : Nat}

theorem next_lt (align : Nat) {base rgn : Nat} {r : LmbRegion} (hfits : Fits W used)
    (hsize : 0 < size)
    (hcheck : lmbOverlapChecks W used base size LMB_NOOVERWRITE true = some rgn)
    (hget : used[rgn]? = some r) (hroom : ¬ r.base < size) :
    alignDown W (sub W r.base size) align < base := by
  have hmem := List.mem_of_getElem? hget
  have hr : r.base < 2 ^ W := Nat.lt_of_le_of_lt (Nat.le_add_right _ _) (hfits r hmem)
  rcases List.findIdx?_eq_some_iff_getElem.mp hcheck with ⟨hlt, hp, _⟩
  rw [List.getElem?_eq_some_iff] at hget
  rcases hget with ⟨_, hget⟩
  rw [hget, Bool.and_eq_true] at hp
  have hlast : r.base ≤ sub W (add W base size) 1 := by
    have h := hp.left
    unfold lmbAddrsOverlap at h
    rw [Bool.and_eq_true, decide_eq_true_eq, decide_eq_true_eq] at h
    exact h.right
  have hend : r.base < base + size := by
    by_cases hwrap : base + size < 2 ^ W
    · rw [add_eq hwrap, sub_eq (by lia) hwrap] at hlast
      lia
    · lia
  rw [sub_eq (Nat.not_lt.mp hroom) hr]
  have := alignDown_le (x := r.base - size) (Nat.lt_of_le_of_lt (Nat.sub_le _ _) hr) align
  lia

theorem walk_ends {fuel base : Nat} (hfits : Fits W used) (hsize : 0 < size)
    (hfuel : base ≤ fuel) :
    allocWalk W used size align lo fuel base =
      allocWalk W used size align lo base base := by
  induction base using Nat.strong_induction_on generalizing fuel with
  | _ base ih =>
      cases base with
      | zero =>
          cases fuel with
          | zero => rfl
          | succ fuel => simp [allocWalk]
      | succ n =>
          cases fuel with
          | zero => lia
          | succ fuel =>
              rw [allocWalk, allocWalk]
              by_cases hend : n + 1 = 0 ∨ n + 1 < lo
              · rw [if_pos hend, if_pos hend]
              · rw [if_neg hend, if_neg hend]
                cases hcheck : lmbOverlapChecks W used (n + 1) size LMB_NOOVERWRITE true with
                | none => rfl
                | some rgn =>
                    dsimp only
                    cases hget : used[rgn]? with
                    | none => rfl
                    | some r =>
                        dsimp only
                        by_cases hroom : r.base < size
                        · rw [if_pos hroom, if_pos hroom]
                        · rw [if_neg hroom, if_neg hroom]
                          have hlt := next_lt align hfits hsize hcheck
                            hget hroom
                          generalize alignDown W (sub W r.base size) align = next at hlt
                          rw [@ih next hlt fuel (by lia), @ih next hlt n (by lia)]

end

/-!
## Limits smaller than the size
-/

theorem walk_none_iff {lmb : Lmb} (h : Clear W lmb) {align limit size lo : Nat}
    (hsize : 0 < size) (hsizeW : size < 2 ^ W) (hlimit : limit < size)
    (halign : AlignOk align) :
    let start := (2 ^ W + limit - size) / align * align
    allocWalk W lmb.usedMem size align lo start start = none <->
      WrapBlocked W lmb align limit size lo := by
  dsimp only
  unfold WrapBlocked
  dsimp only
  have hstart : (2 ^ W + limit - size) / align * align < 2 ^ W :=
    Nat.lt_of_le_of_lt (Nat.div_mul_le_self _ _) (by lia)
  generalize (2 ^ W + limit - size) / align * align = start at hstart
  cases start with
  | zero => simp [allocWalk]
  | succ n =>
      rw [allocWalk]
      by_cases hend : n + 1 = 0 ∨ n + 1 < lo
      · rw [if_pos hend]
        constructor
        · intro _
          exact .inr (.inl (by lia))
        · intro _
          rfl
      · rw [if_neg hend]
        cases hcheck : lmbOverlapChecks W lmb.usedMem (n + 1) size LMB_NOOVERWRITE true with
        | none =>
            constructor
            · intro hnone
              cases hnone
            · rintro (h0 | hlo | ⟨i, r, hi, _⟩)
              · lia
              · lia
              · cases hi
        | some rgn =>
            have hlt : rgn < lmb.usedMem.length :=
              (List.findIdx?_eq_some_iff_getElem.mp hcheck).1
            have hget : lmb.usedMem[rgn]? = some lmb.usedMem[rgn] :=
              List.getElem?_eq_getElem hlt
            dsimp only
            rw [hget]
            generalize lmb.usedMem[rgn] = r at hget
            have hr : r.base < 2 ^ W := Nat.lt_of_le_of_lt (Nat.le_add_right _ _)
              (h.usedFits r (List.mem_of_getElem? hget))
            dsimp only
            have hblocked : (n + 1 = 0 ∨ n + 1 < lo ∨ exists i s,
                some rgn = some i ∧ lmb.usedMem[i]? = some s ∧
                  forall b, b ≠ 0 -> lo ≤ b -> b + size ≤ s.base -> align ∣ b ->
                    ¬ Unreserved lmb.usedMem b size) <->
                forall b, b ≠ 0 -> lo ≤ b -> b + size ≤ r.base -> align ∣ b ->
                  ¬ Unreserved lmb.usedMem b size := by
              constructor
              · rintro (h0 | hlo | ⟨i, s, hi, hs, hall⟩)
                · lia
                · lia
                · cases hi
                  cases hget.symm.trans hs
                  exact hall
              · intro hall
                exact .inr (.inr ⟨rgn, r, rfl, hget, hall⟩)
            rw [hblocked]
            by_cases hroom : r.base < size
            · rw [if_pos hroom]
              constructor
              · intro _ b _ _ hle
                lia
              · intro _
                rfl
            · rw [if_neg hroom]
              have hnext := next_lt align h.usedFits hsize hcheck hget
                hroom
              rw [sub_eq (Nat.not_lt.mp hroom) hr,
                alignDown_eq (by lia) halign] at hnext ⊢
              have hround := Nat.div_mul_le_self (r.base - size) align
              have hwalk := @allocWalk_walked W lmb.usedMem size align lo n _ h.used h.usedFits
                hsize halign (Nat.dvd_mul_left align ((r.base - size) / align)) (by lia)
                (by lia)
              have hle : forall b, align ∣ b ->
                  (b ≤ (r.base - size) / align * align <-> b + size ≤ r.base) := by
                intro b hdvd
                rw [le_round_down hdvd]
                lia
              constructor
              · intro hnone b hne hlo hb hdvd
                exact hwalk.none hnone b hne hlo ((hle b hdvd).mpr hb) hdvd
              · intro hall
                cases hout : allocWalk W lmb.usedMem size align lo n
                    ((r.base - size) / align * align) with
                | none => rfl
                | some b =>
                    rcases hwalk.found b hout with ⟨h1, h2, h3, h4, h5, _⟩
                    exact absurd h5 (hall b h1 h2 ((hle b h4).mp h3) h4)

theorem allocSearch_none_iff (used : List LmbRegion) (size align limit : Nat)
    (banks : List LmbRegion) :
    allocSearch W used size align limit banks = none <->
      forall m, m ∈ banks -> bankSearch W used size align limit m = none := by
  induction banks with
  | nil => simp [allocSearch]
  | cons m rest ih =>
      rw [allocSearch_cons, Option.or_eq_none_iff, ih]
      simp

/-- With a limit smaller than the size, the search fails exactly if it is
blocked in every bank that it enters. -/
theorem wrapped_search_iff {lmb : Lmb} (h : Clear W lmb) {align limit size : Nat}
    (hsizeW : size < 2 ^ W) (hany : limit ≠ LMB_ALLOC_ANYWHERE) (hlimit : limit < size)
    (halign : AlignOk align) :
    allocSearch W lmb.usedMem size align limit lmb.availableMem.reverse = none <->
      forall m, m ∈ lmb.availableMem -> size ≤ m.size -> m.base < limit ->
        WrapBlocked W lmb align limit size m.base := by
  rw [allocSearch_none_iff]
  simp only [List.mem_reverse]
  refine forall_congr' fun m => imp_congr_right fun hm => ?_
  have hfit := h.availableFits m hm
  have hstop : m.stop = m.base + m.size := rfl
  unfold bankSearch allocStart
  rw [add_stop hfit]
  by_cases hsize : m.size < size
  · rw [if_pos hsize]
    simp [Nat.not_le.mpr hsize]
  · rw [if_neg hsize, if_neg hany]
    by_cases hlt : m.base < limit
    · have hmin : min m.stop limit = limit := Nat.min_eq_right (by lia)
      have hsub : sub W limit size = 2 ^ W + limit - size := by
        unfold sub
        rw [Nat.mod_eq_of_lt hsizeW, Nat.mod_eq_of_lt (by lia)]
        lia
      rw [if_pos hlt]
      dsimp only
      rw [if_neg (show ¬ m.stop < m.base by lia), hmin, hsub,
        alignDown_eq (by lia) halign, Option.bind_some]
      refine (walk_none_iff h (by lia) hsizeW hlimit halign).trans ?_
      simp [hlt, Nat.not_lt.mp hsize]
    · rw [if_neg hlt]
      simp [hlt]

/-!
## The reservation
-/

theorem reserved_iff {lmb : Lmb} (h : Clear W lmb) {b size flags : Nat}
    (hsize : 0 < size) (hfit : b + size < 2 ^ W) (hfree : Unreserved lmb.usedMem b size) :
    (lmbAddRegionFlags W lmb.usedMem b size flags).1 = 0 ∧
      ((forall a, b ≤ a -> a < b + size ->
          flagsAt (lmbAddRegionFlags W lmb.usedMem b size flags).2 a = some flags) <->
        drops ⟨b, size, flags⟩ lmb.usedMem = false) := by
  have hx : Request W ⟨b, size, flags⟩ := ⟨hsize, hfit⟩
  have hc : Compatible lmb.usedMem ⟨b, size, flags⟩ := fun r hr =>
    .inl ((unreserved_iff h.used hsize).mp hfree r hr)
  have hadd := lmbAddRegionFlags_result hx h.used h.usedFits hc
  dsimp only at hadd
  generalize lmbAddRegionFlags W lmb.usedMem b size flags = out at hadd
  cases hadd with
  | added hd ha =>
      refine ⟨rfl, fun _ => hd, fun _ a hlo hhi => ?_⟩
      have hpaint := (ha.keeps hx h.used h.usedFits).right.right a
      rw [hpaint]
      exact if_pos ⟨hlo, hhi⟩
  | lost hd hj =>
      refine ⟨rfl, fun hall => ?_, fun hnot => (by cases hd.symm.trans hnot)⟩
      rcases hj with ⟨f, pre, mid, post, g, m⟩
      have hnone := (m.same_map b).trans (hfree b (Nat.le_refl b) (by lia))
      cases hnone.symm.trans (hall b (Nat.le_refl b) (by lia))

/-!
## Soundness and completeness
-/

section

variable {lmb : Lmb} {type : LmbMemType} {align addr size flags : Nat}

theorem lmbAllocMem_search (htype : type ≠ .allocAddr) (hsize : 0 < size) :
    lmbAllocMem W type align addr size flags lmb =
      lmbAllocBase W size align (codeLimit type addr) flags lmb := by
  unfold lmbAllocMem
  rw [if_neg (Nat.ne_of_gt hsize)]
  cases type with
  | allocAddr => exact absurd rfl htype
  | allocAny => rfl
  | allocMax => rfl

def SameLimit (type : LmbMemType) (addr : Nat) : Prop :=
  type = .allocAny ∨ type = .allocMax ∧ addr ≠ LMB_ALLOC_ANYWHERE

theorem fit_iff (hsame : SameLimit type addr) (halign : align ≠ 0) (b : Nat) :
    Fit lmb align size (searchLimit type addr) b <->
      (exists m, m ∈ lmb.availableMem ∧ InBank m size (codeLimit type addr) b) ∧
        align ∣ b ∧ Unreserved lmb.usedMem b size := by
  have hlimit : (forall max, searchLimit type addr = some max -> b + size ≤ max) <->
      (codeLimit type addr ≠ LMB_ALLOC_ANYWHERE -> b + size ≤ codeLimit type addr) := by
    rcases hsame with rfl | ⟨rfl, hne⟩
    · simp [searchLimit, codeLimit]
    · simp [searchLimit, codeLimit, hne]
  constructor
  · rintro ⟨haligned, ⟨m, hm, hlo, hhi⟩, hfree, hbelow⟩
    exact ⟨⟨m, hm, hlo, hhi, hlimit.mp hbelow⟩, haligned.resolve_left halign, hfree⟩
  · rintro ⟨⟨m, hm, hlo, hhi, hbelow⟩, hdvd, hfree⟩
    exact ⟨.inr hdvd, ⟨m, hm, hlo, hhi⟩, hfree, hlimit.mpr hbelow⟩

theorem not_fit_of_lt {limit : Nat} (h : limit < size) (b : Nat) :
    ¬ Fit lmb align size (some limit) b := by
  intro hfit
  have := hfit.below limit rfl
  lia

theorem search_searched (h : Clear W lmb) (hsize : 0 < size) (halign : AlignOk align)
    (hlimit : codeLimit type addr = LMB_ALLOC_ANYWHERE ∨ size ≤ codeLimit type addr) :
    Searched lmb.usedMem size align (codeLimit type addr) lmb.availableMem.reverse
      (allocSearch W lmb.usedMem size align (codeLimit type addr)
        lmb.availableMem.reverse) :=
  allocSearch_searched (fun m hm => h.availableFits m (List.mem_reverse.mp hm))
    (List.pairwise_reverse.mpr h.available.before) h.used h.usedFits hsize halign hlimit

theorem allocates_none_iff (h : Clear W lmb) (hsize : 0 < size)
    (hnone : allocSearch W lmb.usedMem size align (codeLimit type addr)
      lmb.availableMem.reverse = none) :
    Allocates W lmb type align addr size flags
        (lmbAllocBase W size align (codeLimit type addr) flags lmb) <->
      forall b, b ≠ 0 -> ¬ Fit lmb align size (searchLimit type addr) b := by
  unfold lmbAllocBase
  rw [hnone]
  constructor
  · intro ha
    exact (ha.complete (show (-1 : Int) ≠ 0 by decide)).right
  · intro hno
    exact ⟨fun h0 => absurd h0 (show (-1 : Int) ≠ 0 by decide), fun _ => ⟨rfl, hno⟩,
      fun m _ start _ fuel hfuel => walk_ends h.usedFits hsize hfuel⟩

theorem lmbAllocBase_ret {b limit : Nat}
    (hsome : allocSearch W lmb.usedMem size align limit lmb.availableMem.reverse = some b) :
    (lmbAllocBase W size align limit flags lmb).1 = 0 := by
  unfold lmbAllocBase
  rw [hsome]
  dsimp only
  split
  · rfl
  · rfl

theorem allocates_iff_none (h : Clear W lmb) (hsize : 0 < size)
    (hno : forall b, ¬ Fit lmb align size (searchLimit type addr) b) :
    Allocates W lmb type align addr size flags
        (lmbAllocBase W size align (codeLimit type addr) flags lmb) <->
      allocSearch W lmb.usedMem size align (codeLimit type addr)
        lmb.availableMem.reverse = none := by
  constructor
  · intro ha
    cases hout : allocSearch W lmb.usedMem size align (codeLimit type addr)
        lmb.availableMem.reverse with
    | none => rfl
    | some b => exact absurd (ha.sound (lmbAllocBase_ret hout)).left (hno _)
  · intro hnone
    exact (allocates_none_iff h hsize hnone).mpr (fun b _ => hno b)

/-!
## The four places
-/

theorem alloc_iff_wrapped (h : Clear W lmb) (hsize : 0 < size) (hsizeW : size < 2 ^ W)
    (halign : AlignOk align) (hany : addr ≠ LMB_ALLOC_ANYWHERE) (hlt : addr < size) :
    Allocates W lmb .allocMax align addr size flags
        (lmbAllocBase W size align (codeLimit .allocMax addr) flags lmb) <->
      Searchable W lmb .allocMax align addr size flags := by
  have hno : forall b, ¬ Fit lmb align size (searchLimit .allocMax addr) b :=
    not_fit_of_lt hlt
  rw [allocates_iff_none h hsize hno]
  refine (wrapped_search_iff h hsizeW hany hlt halign).trans ?_
  constructor
  · intro hblocked
    exact ⟨fun _ b _ => hno b, fun _ _ h0 => absurd h0 hany, fun _ _ _ => hblocked,
      fun b hb => absurd hb.right.left (hno b)⟩
  · intro hs
    exact hs.roomy rfl hany hlt

/-- No alignment: every base is rounded down to zero. -/
theorem alloc_iff_unaligned (h : Clear W lmb) (hsize : 0 < size)
    (hlimit : codeLimit type addr = LMB_ALLOC_ANYWHERE ∨ size ≤ codeLimit type addr)
    (hroomy : type = .allocMax -> addr ≠ LMB_ALLOC_ANYWHERE -> addr < size ->
      forall m, m ∈ lmb.availableMem -> size ≤ m.size -> m.base < addr ->
        WrapBlocked W lmb 0 addr size m.base) :
    Allocates W lmb type 0 addr size flags
        (lmbAllocBase W size 0 (codeLimit type addr) flags lmb) <->
      Searchable W lmb type 0 addr size flags := by
  have hsearch := search_searched h hsize (.inl rfl : AlignOk 0) hlimit
  have hnone : allocSearch W lmb.usedMem size 0 (codeLimit type addr)
      lmb.availableMem.reverse = none := by
    cases hout : allocSearch W lmb.usedMem size 0 (codeLimit type addr)
        lmb.availableMem.reverse with
    | none => rfl
    | some b =>
        rcases hsearch.found b hout with ⟨hne, _, hdvd, _⟩
        exact absurd (Nat.eq_zero_of_zero_dvd hdvd) hne
  rw [allocates_none_iff h hsize hnone]
  constructor
  · intro hno
    exact ⟨fun _ => hno, fun h0 => absurd rfl h0, hroomy,
      fun b hb => absurd hb.right.left (hno b hb.left)⟩
  · intro hs
    exact hs.aligned rfl

/-- The limit zero: the code takes it for none. -/
theorem alloc_iff_unlimited (h : Clear W lmb) (hsize : 0 < size)
    (halign : AlignOk align) (hzero : align ≠ 0) :
    Allocates W lmb .allocMax align LMB_ALLOC_ANYWHERE size flags
        (lmbAllocBase W size align (codeLimit .allocMax LMB_ALLOC_ANYWHERE) flags lmb) <->
      Searchable W lmb .allocMax align LMB_ALLOC_ANYWHERE size flags := by
  have hno : forall b, ¬ Fit lmb align size
      (searchLimit .allocMax LMB_ALLOC_ANYWHERE) b := not_fit_of_lt hsize
  have hfit : forall b, Fit lmb align size none b <->
      (exists m, m ∈ lmb.availableMem ∧ InBank m size LMB_ALLOC_ANYWHERE b) ∧
        align ∣ b ∧ Unreserved lmb.usedMem b size :=
    @fit_iff lmb .allocAny align 0 size (.inl rfl) hzero
  have hsearch := @search_searched W lmb .allocMax align LMB_ALLOC_ANYWHERE size h hsize
    halign (.inl rfl)
  rw [allocates_iff_none h hsize hno]
  constructor
  · intro hnone
    refine ⟨fun h0 => absurd h0 hzero, fun _ _ _ b hne hb => ?_, fun _ h0 => absurd rfl h0,
      fun b hb => absurd hb.right.left (hno b)⟩
    rcases (hfit b).mp hb with ⟨⟨m, hm, hin⟩, hdvd, hfree⟩
    exact hsearch.none hnone b m hne (List.mem_reverse.mpr hm) hin hdvd hfree
  · intro hs
    cases hout : allocSearch W lmb.usedMem size align
        (codeLimit .allocMax LMB_ALLOC_ANYWHERE) lmb.availableMem.reverse with
    | none => rfl
    | some b =>
        rcases hsearch.found b hout with ⟨hne, ⟨m, hm, hin⟩, hdvd, hfree, _⟩
        exact absurd ((hfit b).mpr ⟨⟨m, List.mem_reverse.mp hm, hin⟩, hdvd, hfree⟩)
          (hs.limited hzero rfl rfl b hne)

/-- Elsewhere the search finds the highest range that fits, and it remains to
reserve it. -/
theorem alloc_iff_kept (h : Clear W lmb) (hsize : 0 < size) (halign : AlignOk align)
    (hzero : align ≠ 0) (hsame : SameLimit type addr)
    (hlimit : codeLimit type addr = LMB_ALLOC_ANYWHERE ∨ size ≤ codeLimit type addr)
    (hroomy : type = .allocMax -> addr ≠ LMB_ALLOC_ANYWHERE -> addr < size ->
      forall m, m ∈ lmb.availableMem -> size ≤ m.size -> m.base < addr ->
        WrapBlocked W lmb align addr size m.base) :
    Allocates W lmb type align addr size flags
        (lmbAllocBase W size align (codeLimit type addr) flags lmb) <->
      Searchable W lmb type align addr size flags := by
  have hsearch := search_searched h hsize halign hlimit
  have hfit := @fit_iff lmb type align addr size hsame hzero
  have hlimited : align ≠ 0 -> type = .allocMax -> addr = LMB_ALLOC_ANYWHERE ->
      forall b, b ≠ 0 -> ¬ Fit lmb align size none b := by
    intro _ ht h0
    rcases hsame with hany | ⟨_, hne⟩
    · cases ht.symm.trans hany
    · exact absurd h0 hne
  cases hout : allocSearch W lmb.usedMem size align (codeLimit type addr)
      lmb.availableMem.reverse with
  | none =>
      have hno : forall b, b ≠ 0 -> ¬ Fit lmb align size (searchLimit type addr) b := by
        intro b hne hb
        rcases (hfit b).mp hb with ⟨⟨m, hm, hin⟩, hdvd, hfree⟩
        exact hsearch.none hout b m hne (List.mem_reverse.mpr hm) hin hdvd hfree
      rw [allocates_none_iff h hsize hout]
      constructor
      · intro _
        exact ⟨fun h0 => absurd h0 hzero, hlimited, hroomy,
          fun b hb => absurd hb.right.left (hno b hb.left)⟩
      · intro _
        exact hno
  | some b =>
      rcases hsearch.found b hout with ⟨hne, ⟨m, hm, hin⟩, hdvd, hfree, hmax⟩
      have hb : Fit lmb align size (searchLimit type addr) b :=
        (hfit b).mpr ⟨⟨m, List.mem_reverse.mp hm, hin⟩, hdvd, hfree⟩
      have htop : TopFit lmb align size (searchLimit type addr) b := by
        refine ⟨hne, hb, fun b' hne' hb' => ?_⟩
        rcases (hfit b').mp hb' with ⟨⟨m', hm', hin'⟩, hdvd', hfree'⟩
        exact hmax b' m' hne' (List.mem_reverse.mpr hm') hin' hdvd' hfree'
      have hstop : b + size < 2 ^ W := Nat.lt_of_le_of_lt hin.right.left
        (h.availableFits m (List.mem_reverse.mp hm))
      rcases @reserved_iff W lmb h b size flags hsize hstop hfree with ⟨hret, hiff⟩
      have hrun : lmbAllocBase W size align (codeLimit type addr) flags lmb =
          (0, b, { lmb with usedMem :=
            (lmbAddRegionFlags W lmb.usedMem b size flags).2 }) := by
        unfold lmbAllocBase
        rw [hout]
        dsimp only
        rw [if_neg (not_not.mpr hret)]
      rw [hrun]
      constructor
      · intro ha
        refine ⟨fun h0 => absurd h0 hzero, hlimited, hroomy, fun c hc => ?_⟩
        have hcb : c = b := Nat.le_antisymm (htop.right.right c hc.left hc.right.left)
          (hc.right.right b hne hb)
        rw [hcb]
        exact hiff.mp (ha.sound rfl).right
      · intro hs
        exact ⟨fun _ => ⟨hb, hiff.mpr (hs.kept b htop)⟩, fun h0 => absurd rfl h0,
          fun m' _ start _ fuel hfuel => walk_ends h.usedFits hsize hfuel⟩

end

/-- For every map with sorted disjoint lists, every size, limit and documented
alignment, an allocation is sound and complete exactly if the request does not
come to one of the four places where the search goes wrong. -/
theorem lmb_alloc_iff {lmb : Lmb} (h : Clear W lmb) {type : LmbMemType}
    (htype : type ≠ .allocAddr) {align addr size : Nat} (hsize : 0 < size)
    (hsizeW : size < 2 ^ W) (halign : AlignOk align) (flags : Nat) :
    Allocates W lmb type align addr size flags
        (lmbAllocMem W type align addr size flags lmb) <->
      Searchable W lmb type align addr size flags := by
  rw [lmbAllocMem_search htype hsize]
  by_cases hsmall : type = .allocMax ∧ addr ≠ LMB_ALLOC_ANYWHERE ∧ addr < size
  · rcases hsmall with ⟨rfl, hany, hlt⟩
    exact alloc_iff_wrapped h hsize hsizeW halign hany hlt
  · have hlimit : codeLimit type addr = LMB_ALLOC_ANYWHERE ∨
        size ≤ codeLimit type addr := by
      cases type with
      | allocMax =>
          by_cases hany : addr = LMB_ALLOC_ANYWHERE
          · exact .inl hany
          · exact .inr (Nat.not_lt.mp fun hlt => hsmall ⟨rfl, hany, hlt⟩)
      | allocAny => exact .inl rfl
      | allocAddr => exact .inl rfl
    by_cases hzero : align = 0
    · subst hzero
      exact alloc_iff_unaligned h hsize hlimit
        (fun ht ha hlt => absurd ⟨ht, ha, hlt⟩ hsmall)
    · by_cases hlost : type = .allocMax ∧ addr = LMB_ALLOC_ANYWHERE
      · rcases hlost with ⟨rfl, rfl⟩
        exact alloc_iff_unlimited h hsize halign hzero
      · have hsame : SameLimit type addr := by
          cases type with
          | allocAny => exact .inl rfl
          | allocMax => exact .inr ⟨rfl, fun h0 => hlost ⟨rfl, h0⟩⟩
          | allocAddr => exact absurd rfl htype
        exact alloc_iff_kept h hsize halign hzero hsame hlimit
          (fun ht ha hlt => absurd ⟨ht, ha, hlt⟩ hsmall)

theorem oneBank_clear : Clear 32 oneBank where
  available := ⟨by simp [oneBank], by simp [oneBank]⟩
  availableFits := by simp [oneBank, Region.stop, Fits]
  used := ordered_nil
  usedFits := by simp [oneBank, Fits]

theorem lmb_alloc_oneBank :
    Allocates 32 oneBank .allocMax 0x1000 0x88000000 0x100000 LMB_NONE
      (lmbAllocMem 32 .allocMax 0x1000 0x88000000 0x100000 LMB_NONE oneBank) :=
  (lmb_alloc_iff oneBank_clear (by decide) (by decide) (by decide)
    (.inr ⟨12, rfl⟩) LMB_NONE).mpr
    ⟨fun h => absurd h (by decide), fun _ _ h => absurd h (by decide),
      fun _ _ h => absurd h (by decide), fun _ _ => rfl⟩

/-- Without an alignment requirement nothing is found in an empty bank. -/
theorem lmb_alloc_without_alignment :
    Clear 32 oneBank ∧
      (lmbAllocMem 32 .allocAny 0 0 0x1000 LMB_NONE oneBank).1 = -1 ∧
      Fit oneBank 0 0x1000 none 0x80000000 ∧
      ¬ Allocates 32 oneBank .allocAny 0 0 0x1000 LMB_NONE
        (lmbAllocMem 32 .allocAny 0 0 0x1000 LMB_NONE oneBank) := by
  have hret : (lmbAllocMem 32 .allocAny 0 0 0x1000 LMB_NONE oneBank).1 = -1 := by
    decide +kernel
  have hfit : Fit oneBank 0 0x1000 none 0x80000000 :=
    ⟨.inl rfl, ⟨⟨0x80000000, 0x10000000, LMB_NONE⟩, List.mem_cons_self,
      by decide, by decide⟩, fun _ _ _ => rfl, fun _ h => (by cases h)⟩
  refine ⟨oneBank_clear, hret, hfit, fun ha => ?_⟩
  exact (ha.complete (by rw [hret]; decide)).right 0x80000000 (by decide) hfit

end Memory
end Hlk7621
