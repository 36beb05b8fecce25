import Hlk7621.Memory.Grants

/-!
# Free runs

`lmb_get_free_size` looks for the first reservation above an address, and when
there is none takes the end of the last bank.  Holes of the memory map in
between are not looked at.
-/

namespace Hlk7621
namespace Memory

open Regions

variable (W : Nat)

/-- The loop over the reservations: the size it returns, if it does. -/
def freeLoop (addr : Nat) : List LmbRegion -> Option Nat
  | [] => none
  | r :: rest =>
      if addr < r.base then some (sub W r.base addr)
      else if add W r.base r.size > addr then some 0
      else freeLoop addr rest

def lmbGetFreeSize (addr : Nat) (lmb : Lmb) : Nat :=
  match lmbOverlapChecks W lmb.availableMem addr 1 LMB_NOOVERWRITE true with
  | none => 0
  | some _ =>
      match freeLoop W addr lmb.usedMem with
      | some n => n
      | none =>
          match lmb.availableMem.getLast? with
          | none => 0
          | some m => sub W (add W m.base m.size) addr

variable {W}

/-!
## Free addresses
-/

def Lmb.Free (lmb : Lmb) (a : Nat) : Prop :=
  lmb.Available a ∧ flagsAt lmb.usedMem a = none

/-- The longest run of free addresses from `a` on has `n` addresses. -/
structure FreeRun (lmb : Lmb) (a n : Nat) : Prop where
  free : forall x, a ≤ x -> x < a + n -> lmb.Free x
  stops : ¬ lmb.Free (a + n)

/-- The address up to which the code takes everything to be free: the first
reservation above `a`, or the end of the memory map. -/
def Lmb.Limit (lmb : Lmb) (a limit : Nat) : Prop :=
  (exists r, r ∈ lmb.usedMem ∧ r.base = limit ∧ a < limit ∧
    forall s, s ∈ lmb.usedMem -> a < s.base -> limit ≤ s.base) ∨
  (forall s, s ∈ lmb.usedMem -> s.base ≤ a) ∧
    exists m, lmb.availableMem.getLast? = some m ∧ m.stop = limit

/-- An address in the map is not in a reservation that ends at the top of the
address space, and if it is not reserved then there is no hole between it and
the limit, whose distance is a number of `W` bits. -/
def NoHole (W : Nat) (lmb : Lmb) (a : Nat) : Prop :=
  lmb.Available a ->
    (forall r, r ∈ lmb.usedMem -> r.Covers a -> r.stop < 2 ^ W) ∧
    (flagsAt lmb.usedMem a = none ->
      forall limit, lmb.Limit a limit -> limit < a + 2 ^ W ∧
        forall x, a ≤ x -> x < limit -> lmb.Available x)

/-!
## What the loop returns
-/

/-- How the loop over the reservations is left at an address `a`. -/
inductive FreeLoop (W : Nat) (used : List LmbRegion) (a : Nat) : Option Nat -> Prop
    where
  | below (r : LmbRegion) (mem : r ∈ used) (lt : a < r.base)
      (first : forall s, s ∈ used -> a < s.base -> r.base ≤ s.base)
      (free : flagsAt used a = none) : FreeLoop W used a (some (r.base - a))
  | inside (r : LmbRegion) (mem : r ∈ used) (covers : r.Covers a)
      (fits : r.stop < 2 ^ W) : FreeLoop W used a (some 0)
  | top (r : LmbRegion) (mem : r ∈ used) (covers : r.Covers a)
      (wraps : r.stop = 2 ^ W) (none_above : forall s, s ∈ used -> s.base ≤ a) :
      FreeLoop W used a none
  | none_above (above : forall s, s ∈ used -> s.base ≤ a)
      (free : flagsAt used a = none) : FreeLoop W used a none

theorem freeLoop_cases {used : List LmbRegion} (hused : Ordered used)
    (hfits : forall r, r ∈ used -> r.stop ≤ 2 ^ W) {a : Nat} (ha : a < 2 ^ W) :
    FreeLoop W used a (freeLoop W a used) := by
  induction used with
  | nil => exact .none_above (fun s hs => by cases hs) rfl
  | cons r rest ih =>
      have hr := ordered_cons.mp hused
      have hpos := hr.left
      have hstop := hfits r List.mem_cons_self
      rw [freeLoop]
      by_cases hlt : a < r.base
      · rw [if_pos hlt]
        have hsub : sub W r.base a = r.base - a :=
          sub_eq (Nat.le_of_lt hlt) (by unfold Region.stop at hstop; lia)
        rw [hsub]
        refine .below r List.mem_cons_self hlt (fun s hs _ => hused.head_le hs) ?_
        refine flagsAt_eq_none fun s hs hcov => ?_
        have := hused.head_le hs
        have := hcov.left
        lia
      · rw [if_neg hlt]
        have hrest : forall s, s ∈ rest -> r.stop ≤ s.base := hr.right.right
        rcases Nat.eq_or_lt_of_le hstop with htop | hfit
        · -- The end of the reservation wraps to zero.
          have hzero : add W r.base r.size = 0 := by
            show r.stop % 2 ^ W = 0
            rw [htop, Nat.mod_self]
          rw [hzero, if_neg (Nat.not_lt_zero a)]
          have hnil : rest = [] := by
            cases rest with
            | nil => rfl
            | cons s rest =>
                have h1 := hrest s List.mem_cons_self
                have h2 := hfits s (by simp)
                have h3 := hused.pos s (by simp)
                unfold Region.stop at *
                lia
          subst hnil
          refine .top r List.mem_cons_self ⟨Nat.not_lt.mp hlt, by lia⟩ htop ?_
          intro s hs
          rw [List.mem_singleton.mp hs]
          exact Nat.not_lt.mp hlt
        · rw [show add W r.base r.size = r.stop from add_stop hfit]
          by_cases hin : r.stop > a
          · rw [if_pos hin]
            exact .inside r List.mem_cons_self ⟨Nat.not_lt.mp hlt, hin⟩ hfit
          · rw [if_neg hin]
            have hnot : ¬ r.Covers a := fun hcov => hin hcov.right
            have hnext := ih hr.right.left (fun s hs => hfits s (List.mem_cons_of_mem r hs))
            generalize freeLoop W a rest = out at hnext
            cases hnext with
            | below s mem lt first free =>
                refine .below s (List.mem_cons_of_mem r mem) lt ?_ ?_
                · intro t ht hat
                  rcases List.mem_cons.mp ht with rfl | ht
                  · exact absurd hat hlt
                  · exact first t ht hat
                · rw [flagsAt, if_neg hnot]
                  exact free
            | inside s mem covers fits =>
                exact .inside s (List.mem_cons_of_mem r mem) covers fits
            | top s mem covers wraps none_above =>
                refine .top s (List.mem_cons_of_mem r mem) covers wraps ?_
                intro t ht
                rcases List.mem_cons.mp ht with rfl | ht
                · exact Nat.not_lt.mp hlt
                · exact none_above t ht
            | none_above above free =>
                refine .none_above ?_ ?_
                · intro t ht
                  rcases List.mem_cons.mp ht with rfl | ht
                  · exact Nat.not_lt.mp hlt
                  · exact above t ht
                · rw [flagsAt, if_neg hnot]
                  exact free

theorem available_lt {lmb : Lmb} (h : Mapped W lmb) {m : LmbRegion}
    (hlast : lmb.availableMem.getLast? = some m) {a : Nat} (ha : lmb.Available a) :
    a < m.stop := by
  rcases flagsAt_isSome_iff.mp ha with ⟨r, hr, hcov⟩
  have hne : lmb.availableMem ≠ [] := List.ne_nil_of_mem hr
  have hm : lmb.availableMem.getLast hne = m := by
    rw [List.getLast?_eq_some_getLast hne] at hlast
    exact Option.some.inj hlast
  have hle := h.available.le_getLast hne hr
  rw [hm] at hle
  exact Nat.lt_of_lt_of_le hcov.right hle

theorem last_bank {lmb : Lmb} (h : Mapped W lmb) {a : Nat} (ha : lmb.Available a) :
    exists m, lmb.availableMem.getLast? = some m ∧ a < m.stop ∧ m.stop ≤ 2 ^ W := by
  rcases flagsAt_isSome_iff.mp ha with ⟨r, hr, _⟩
  have hne : lmb.availableMem ≠ [] := List.ne_nil_of_mem hr
  have hlast := List.getLast?_eq_some_getLast hne
  exact ⟨_, hlast, available_lt h hlast ha,
    h.availableFits _ (List.getLast_mem hne)⟩

theorem free_end {a : Nat} {m : LmbRegion} (ha : a < 2 ^ W) (hlt : a < m.stop)
    (hm : m.stop ≤ 2 ^ W) :
    sub W (add W m.base m.size) a = if m.stop < a + 2 ^ W then m.stop - a else 0 := by
  rcases Nat.eq_or_lt_of_le hm with htop | hfit
  · have hzero : add W m.base m.size = 0 := by
      show m.stop % 2 ^ W = 0
      rw [htop, Nat.mod_self]
    rw [hzero]
    unfold sub
    rw [Nat.mod_eq_of_lt ha, Nat.zero_add]
    by_cases hpos : 0 < a
    · rw [if_pos (by lia), Nat.mod_eq_of_lt (by lia), htop]
    · rw [if_neg (by lia), show 2 ^ W - a = 2 ^ W by lia, Nat.mod_self]
  · rw [add_stop hfit, if_pos (by lia)]
    exact sub_eq (Nat.le_of_lt hlt) hfit

/-- A reservation that covers an address covers the addresses behind it up to
the next one. -/
theorem not_reserved {a : Nat} {used : List LmbRegion} (hfree : flagsAt used a = none)
    {x : Nat} (hax : a ≤ x) (hnext : forall s, s ∈ used -> a < s.base -> x < s.base) :
    flagsAt used x = none := by
  refine flagsAt_eq_none fun s hs hcov => ?_
  have hbase : s.base ≤ a := by
    by_contra hlt
    have := hnext s hs (Nat.not_le.mp hlt)
    have := hcov.left
    lia
  have hsome : (flagsAt used a).isSome :=
    flagsAt_isSome_iff.mpr ⟨s, hs, hbase, Nat.lt_of_le_of_lt hax hcov.right⟩
  rw [hfree] at hsome
  cases hsome

/-- For every sorted and disjoint map and every address, `lmb_get_free_size`
returns the length of the longest free run exactly if no hole of the map lies
before the limit it goes by. -/
theorem lmb_free_size_iff {lmb : Lmb} (h : Mapped W lmb) {a : Nat} (ha : a < 2 ^ W) :
    FreeRun lmb a (lmbGetFreeSize W a lmb) <-> NoHole W lmb a := by
  have hget := checks_get (x := ⟨a, 1, LMB_NONE⟩) Nat.one_pos
    (show a + 1 ≤ 2 ^ W from ha) h.available h.availableFits LMB_NOOVERWRITE
  have hcovers : forall r : LmbRegion, ¬ Apart r ⟨a, 1, LMB_NONE⟩ <-> r.Covers a := by
    intro r
    unfold Apart Region.Covers Region.stop
    dsimp only
    lia
  dsimp only at hget
  unfold lmbGetFreeSize
  cases hcheck : lmbOverlapChecks W lmb.availableMem a 1 LMB_NOOVERWRITE true with
  | none =>
      rw [hcheck] at hget
      have hout : ¬ lmb.Available a := by
        intro havail
        rcases flagsAt_isSome_iff.mp havail with ⟨r, hr, hcov⟩
        have hmiss := List.find?_eq_none.mp hget.symm r hr
        exact absurd ((hcovers r).mpr hcov) (by simpa using hmiss)
      constructor
      · intro _ havail
        exact absurd havail hout
      · intro _
        exact ⟨fun x hlo hhi => absurd hhi (by lia), fun hfree => hout hfree.left⟩
  | some rgn =>
      rw [hcheck, Option.bind_some] at hget
      have havail : lmb.Available a := by
        have hlt : rgn < lmb.availableMem.length :=
          (List.findIdx?_eq_some_iff_getElem.mp hcheck).1
        rw [List.getElem?_eq_getElem hlt] at hget
        have hmem := List.mem_of_find?_eq_some hget.symm
        have hnot := List.find?_some hget.symm
        rw [decide_eq_true_eq, hcovers] at hnot
        exact flagsAt_isSome_iff.mpr ⟨_, hmem, hnot⟩
      have hloop := freeLoop_cases h.used h.usedFits ha
      dsimp only
      generalize freeLoop W a lmb.usedMem = out at hloop
      cases hloop with
      | below r mem lt first free =>
          have hlimit : forall limit, lmb.Limit a limit -> limit = r.base := by
            rintro limit (⟨s, hs, rfl, has, hfirst⟩ | ⟨habove, _⟩)
            · exact Nat.le_antisymm (hfirst r mem lt) (first s hs has)
            · exact absurd (habove r mem) (Nat.not_le.mpr lt)
          have hbase : r.base < 2 ^ W := by
            have h1 := h.used.pos r mem
            have h2 := h.usedFits r mem
            unfold Region.stop at h2
            lia
          have hsum : a + (r.base - a) = r.base := Nat.add_sub_cancel' (Nat.le_of_lt lt)
          constructor
          · intro hrun _
            refine ⟨fun s hs hcov => ?_, fun _ limit hl => ?_⟩
            · have hsome := flagsAt_isSome_iff.mpr ⟨s, hs, hcov⟩
              rw [free] at hsome
              cases hsome
            · rw [hlimit limit hl]
              refine ⟨by lia, fun x hlo hhi => ?_⟩
              exact (hrun.free x hlo (by lia)).left
          · intro hhole
            have hl : lmb.Limit a r.base := .inl ⟨r, mem, rfl, lt, first⟩
            refine ⟨fun x hlo hhi => ?_, fun hfree => ?_⟩
            · refine ⟨((hhole havail).right free _ hl).right x hlo (by lia), ?_⟩
              exact not_reserved free hlo
                (fun s hs has => Nat.lt_of_lt_of_le (by lia) (first s hs has))
            · have hsome : (flagsAt lmb.usedMem r.base).isSome :=
                flagsAt_isSome_iff.mpr ⟨r, mem, Nat.le_refl _,
                  Nat.lt_add_of_pos_right (h.used.pos r mem)⟩
              rw [<- hsum, hfree.right] at hsome
              cases hsome
      | inside r mem covers fits =>
          have hsome := flagsAt_isSome_iff.mpr ⟨r, mem, covers⟩
          constructor
          · intro _ _
            refine ⟨fun s hs hcov => ?_, fun hfree => ?_⟩
            · rw [h.used.covers_unique hs mem hcov covers]
              exact fits
            · rw [hfree] at hsome
              cases hsome
          · intro _
            refine ⟨fun x hlo hhi => absurd hhi (by lia), fun hfree => ?_⟩
            rw [Nat.add_zero] at hfree
            rw [hfree.right] at hsome
            cases hsome
      | top r mem covers wraps none_above =>
          have hsome := flagsAt_isSome_iff.mpr ⟨r, mem, covers⟩
          rcases last_bank h havail with ⟨m, hlast, hlt, hm⟩
          rw [hlast]
          constructor
          · intro hrun
            have hzero : a ≠ 0 := by
              intro hzero
              have hsize := h.sizes r (List.mem_append_right _ mem)
              have hbase := covers.left
              unfold Region.stop at wraps
              lia
            have hfree := hrun.free a (Nat.le_refl a)
              (by show a < a + sub W (add W m.base m.size) a
                  rw [free_end ha hlt hm, if_pos (by lia)]
                  lia)
            rw [hfree.right] at hsome
            cases hsome
          · intro hhole
            have := (hhole havail).left r mem covers
            lia
      | none_above above free =>
          rcases last_bank h havail with ⟨m, hlast, hlt, hm⟩
          have hlimit : forall limit, lmb.Limit a limit -> limit = m.stop := by
            rintro limit (⟨s, hs, rfl, has, _⟩ | ⟨_, m', hm', rfl⟩)
            · exact absurd (above s hs) (Nat.not_le.mpr has)
            · rw [Option.some.inj (hlast.symm.trans hm')]
          have hl : lmb.Limit a m.stop := .inr ⟨above, m, hlast, rfl⟩
          rw [hlast]
          dsimp only
          rw [free_end ha hlt hm]
          constructor
          · intro hrun _
            refine ⟨fun s hs hcov => ?_, fun _ limit hl => ?_⟩
            · have hsome := flagsAt_isSome_iff.mpr ⟨s, hs, hcov⟩
              rw [free] at hsome
              cases hsome
            · rw [hlimit limit hl]
              by_cases hwrap : m.stop < a + 2 ^ W
              · rw [if_pos hwrap] at hrun
                exact ⟨hwrap, fun x hlo hhi => (hrun.free x hlo (by lia)).left⟩
              · rw [if_neg hwrap] at hrun
                exact absurd ⟨havail, free⟩ hrun.stops
          · intro hhole
            rcases (hhole havail).right free _ hl with ⟨hwrap, hall⟩
            rw [if_pos hwrap]
            refine ⟨fun x hlo hhi => ⟨hall x hlo (by lia), ?_⟩, fun hfree => ?_⟩
            · exact not_reserved free hlo
                (fun s hs has => absurd (above s hs) (Nat.not_le.mpr has))
            · have hin := available_lt h hlast hfree.left
              lia

def twoBanks : Lmb where
  availableMem := [⟨0x80000000, 0x10000000, LMB_NONE⟩, ⟨0xa0000000, 0x10000000, LMB_NONE⟩]
  usedMem := []

theorem twoBanks_mapped : Mapped 32 twoBanks where
  available := ⟨by simp [twoBanks], by simp [twoBanks, Region.stop]⟩
  availableFits := by simp [twoBanks, Region.stop]
  used := ordered_nil
  usedFits := by simp [twoBanks]
  sizes := by simp [twoBanks]

theorem lmb_free_size_last_bank :
    FreeRun twoBanks 0xa8000000 (lmbGetFreeSize 32 0xa8000000 twoBanks) :=
  (lmb_free_size_iff twoBanks_mapped (by decide)).mpr (by
    intro _
    refine ⟨fun r hr => (by cases hr), fun _ limit hl => ?_⟩
    rcases hl with ⟨r, hr, _⟩ | ⟨_, m, hm, rfl⟩
    · cases hr
    · have hlast : m = ⟨0xa0000000, 0x10000000, LMB_NONE⟩ :=
        (Option.some.inj hm).symm
      subst hlast
      refine ⟨by decide, fun x hlo hhi => flagsAt_isSome_iff.mpr ⟨_, ?_, ?_, hhi⟩⟩
      · exact List.mem_cons_of_mem _ List.mem_cons_self
      · exact Nat.le_trans (by decide) hlo)

/-- From the first bank the hole and the second bank are counted as well. -/
theorem lmb_free_size_over_hole :
    Mapped 32 twoBanks ∧ lmbGetFreeSize 32 0x80000000 twoBanks = 0x30000000 ∧
      ¬ twoBanks.Available 0x90000000 ∧
      ¬ FreeRun twoBanks 0x80000000 (lmbGetFreeSize 32 0x80000000 twoBanks) := by
  have hsize : lmbGetFreeSize 32 0x80000000 twoBanks = 0x30000000 := by decide +kernel
  have hhole : ¬ twoBanks.Available 0x90000000 := by
    unfold Lmb.Available
    decide
  refine ⟨twoBanks_mapped, hsize, hhole, fun hrun => ?_⟩
  rw [hsize] at hrun
  exact hhole (hrun.free 0x90000000 (by decide) (by decide)).left

end Memory
end Hlk7621
