import Mathlib.Algebra.Group.Int.Defs
import Mathlib.Algebra.Group.Nat.Defs
import Mathlib.Data.List.Basic
import Mathlib.Tactic.Common

/-!
# Ordered region lists as partial maps

A region labels the addresses from its base on with its flags.  A list of
regions is read as the partial map that sends an address to the flags of the
first region that covers it.
-/

namespace Hlk7621
namespace Regions

variable {φ : Type}

structure Region (φ : Type) where
  base : Nat
  size : Nat
  flags : φ
deriving DecidableEq, Repr

def Region.stop (r : Region φ) : Nat := r.base + r.size

def Region.Covers (r : Region φ) (a : Nat) : Prop := r.base ≤ a ∧ a < r.stop

instance (r : Region φ) (a : Nat) : Decidable (r.Covers a) :=
  inferInstanceAs (Decidable (_ ∧ _))

def flagsAt : List (Region φ) -> Nat -> Option φ
  | [], _ => none
  | r :: l, a => if r.Covers a then some r.flags else flagsAt l a

/-- Every region is non-empty and ends before the next one begins. -/
structure Ordered (l : List (Region φ)) : Prop where
  pos : forall r, r ∈ l -> 0 < r.size
  before : l.Pairwise (fun r s => r.stop ≤ s.base)

/-- The map of `l'` is that of `l` with the addresses from `lo` to `hi` set to
the value `f`. -/
def Paints (l l' : List (Region φ)) (lo hi : Nat) (f : Option φ) : Prop :=
  forall a, flagsAt l' a = if lo ≤ a ∧ a < hi then f else flagsAt l a

/-!
## The map of a list
-/

theorem flagsAt_append (l m : List (Region φ)) (a : Nat) :
    flagsAt (l ++ m) a = (flagsAt l a).or (flagsAt m a) := by
  induction l with
  | nil => rfl
  | cons r l ih =>
      simp only [List.cons_append, flagsAt]
      split
      · rfl
      · exact ih

theorem flagsAt_eq_none {l : List (Region φ)} {a : Nat}
    (h : forall r, r ∈ l -> ¬ r.Covers a) : flagsAt l a = none := by
  induction l with
  | nil => rfl
  | cons r l ih =>
      rw [flagsAt, if_neg (h r List.mem_cons_self)]
      exact ih (fun s hs => h s (List.mem_cons_of_mem r hs))

theorem flagsAt_uniform {l : List (Region φ)} {f : φ}
    (hf : forall r, r ∈ l -> r.flags = f) {a : Nat}
    (ha : exists r, r ∈ l ∧ r.Covers a) : flagsAt l a = some f := by
  induction l with
  | nil =>
      rcases ha with ⟨r, hr, _⟩
      cases hr
  | cons r l ih =>
      rw [flagsAt]
      split
      · rw [hf r List.mem_cons_self]
      · rename_i hr
        refine ih (fun s hs => hf s (List.mem_cons_of_mem r hs)) ?_
        rcases ha with ⟨s, hs, hcov⟩
        rcases List.mem_cons.mp hs with rfl | hs
        · exact absurd hcov hr
        · exact ⟨s, hs, hcov⟩

theorem flagsAt_isSome_iff {l : List (Region φ)} {a : Nat} :
    (flagsAt l a).isSome <-> exists r, r ∈ l ∧ r.Covers a := by
  induction l with
  | nil => simp [flagsAt]
  | cons r l ih =>
      rw [flagsAt]
      by_cases hr : r.Covers a
      · simp [hr]
      · simp [hr, ih]

/-!
## Ordered lists
-/

theorem ordered_nil : Ordered ([] : List (Region φ)) :=
  ⟨fun _ hr => absurd hr List.not_mem_nil, List.Pairwise.nil⟩

theorem ordered_append {l m : List (Region φ)} :
    Ordered (l ++ m) <-> Ordered l ∧ Ordered m ∧
      forall r, r ∈ l -> forall s, s ∈ m -> r.stop ≤ s.base := by
  constructor
  · intro h
    have hb := List.pairwise_append.mp h.before
    exact ⟨⟨fun r hr => h.pos r (List.mem_append_left m hr), hb.left⟩,
      ⟨fun r hr => h.pos r (List.mem_append_right l hr), hb.right.left⟩,
      hb.right.right⟩
  · rintro ⟨hl, hm, hlm⟩
    refine ⟨fun r hr => ?_, List.pairwise_append.mpr ⟨hl.before, hm.before, hlm⟩⟩
    rcases List.mem_append.mp hr with hr | hr
    · exact hl.pos r hr
    · exact hm.pos r hr

theorem ordered_cons {r : Region φ} {l : List (Region φ)} :
    Ordered (r :: l) <-> 0 < r.size ∧ Ordered l ∧
      forall s, s ∈ l -> r.stop ≤ s.base := by
  constructor
  · intro h
    have hb := List.pairwise_cons.mp h.before
    exact ⟨h.pos r List.mem_cons_self,
      ⟨fun s hs => h.pos s (List.mem_cons_of_mem r hs), hb.right⟩, hb.left⟩
  · rintro ⟨hr, hl, hrl⟩
    refine ⟨fun s hs => ?_, List.pairwise_cons.mpr ⟨hrl, hl.before⟩⟩
    rcases List.mem_cons.mp hs with rfl | hs
    · exact hr
    · exact hl.pos s hs

theorem Ordered.split_at {l : List (Region φ)} (hl : Ordered l) (n : Nat) :
    exists low high, l = low ++ high ∧ (forall r, r ∈ low -> r.base < n) ∧
      forall r, r ∈ high -> n ≤ r.base := by
  induction l with
  | nil => exact ⟨[], [], rfl, by simp, by simp⟩
  | cons r l ih =>
      have hr := ordered_cons.mp hl
      by_cases hn : r.base < n
      · rcases ih hr.right.left with ⟨low, high, rfl, hlow, hhigh⟩
        refine ⟨r :: low, high, rfl, fun s hs => ?_, hhigh⟩
        rcases List.mem_cons.mp hs with rfl | hs
        · exact hn
        · exact hlow s hs
      · refine ⟨[], r :: l, rfl, by simp, fun s hs => ?_⟩
        rcases List.mem_cons.mp hs with rfl | hs
        · lia
        · have := hr.right.right s hs
          unfold Region.stop at this
          lia

theorem Ordered.head_le {r : Region φ} {l : List (Region φ)} (hl : Ordered (r :: l))
    {s : Region φ} (hs : s ∈ r :: l) : r.base ≤ s.base := by
  rcases List.mem_cons.mp hs with rfl | hs
  · exact Nat.le_refl _
  · have := (ordered_cons.mp hl).right.right s hs
    unfold Region.stop at this
    lia

theorem Ordered.le_getLast {l : List (Region φ)} (hl : Ordered l) (hne : l ≠ [])
    {s : Region φ} (hs : s ∈ l) : s.stop ≤ (l.getLast hne).stop := by
  induction l generalizing s with
  | nil => cases hs
  | cons r l ih =>
      have hr := ordered_cons.mp hl
      cases l with
      | nil => simp at hs; simp [hs]
      | cons t l =>
          rw [List.getLast_cons (by simp)]
          rcases List.mem_cons.mp hs with rfl | hs
          · have h1 := hr.right.right t List.mem_cons_self
            have h2 := ih hr.right.left (by simp) List.mem_cons_self
            unfold Region.stop at *
            lia
          · exact ih hr.right.left (by simp) hs

theorem Ordered.flagsAt_eq {l : List (Region φ)} (hl : Ordered l) {r : Region φ}
    (hr : r ∈ l) {a : Nat} (ha : r.Covers a) : flagsAt l a = some r.flags := by
  induction l with
  | nil => cases hr
  | cons s l ih =>
      have hs := ordered_cons.mp hl
      rw [flagsAt]
      rcases List.mem_cons.mp hr with rfl | hr
      · rw [if_pos ha]
      · have hle := hs.right.right r hr
        have hlo := ha.left
        rw [if_neg (fun hcov => by have := hcov.right; lia)]
        exact ih hs.right.left hr

theorem Ordered.before_or {l : List (Region φ)} (hl : Ordered l) {r s : Region φ}
    (hr : r ∈ l) (hs : s ∈ l) : r = s ∨ r.stop ≤ s.base ∨ s.stop ≤ r.base := by
  induction l with
  | nil => cases hr
  | cons t l ih =>
      have ht := ordered_cons.mp hl
      rcases List.mem_cons.mp hr with hrt | hr'
      · rcases List.mem_cons.mp hs with hst | hs'
        · exact .inl (hrt.trans hst.symm)
        · rw [hrt]
          exact .inr (.inl (ht.right.right s hs'))
      · rcases List.mem_cons.mp hs with hst | hs'
        · rw [hst]
          exact .inr (.inr (ht.right.right r hr'))
        · exact ih ht.right.left hr' hs'

theorem Ordered.covers_unique {l : List (Region φ)} (hl : Ordered l) {r s : Region φ}
    (hr : r ∈ l) (hs : s ∈ l) {a : Nat} (har : r.Covers a) (has : s.Covers a) :
    r = s := by
  have h1 := har.left
  have h2 := har.right
  have h3 := has.left
  have h4 := has.right
  rcases hl.before_or hr hs with heq | hle | hle
  · exact heq
  · lia
  · lia

theorem exists_of_flagsAt {l : List (Region φ)} {a : Nat} {f : φ}
    (h : flagsAt l a = some f) : exists r, r ∈ l ∧ r.Covers a ∧ r.flags = f := by
  induction l with
  | nil => cases h
  | cons r l ih =>
      rw [flagsAt] at h
      split at h
      · rename_i hr
        exact ⟨r, List.mem_cons_self, hr, Option.some.inj h⟩
      · rcases ih h with ⟨s, hs, hcov, hf⟩
        exact ⟨s, List.mem_cons_of_mem r hs, hcov, hf⟩

/-!
## Changing a part of a list
-/

theorem Paints.frame {mid mid' : List (Region φ)} {lo hi : Nat} {f : Option φ}
    (h : Paints mid mid' lo hi f) {pre post : List (Region φ)}
    (hpre : forall r, r ∈ pre -> r.stop ≤ lo ∨ hi ≤ r.base)
    (hpost : forall r, r ∈ post -> r.stop ≤ lo ∨ hi ≤ r.base) :
    Paints (pre ++ mid ++ post) (pre ++ mid' ++ post) lo hi f := by
  intro a
  simp only [flagsAt_append, h a]
  split
  · rename_i ha
    have hclear : forall l : List (Region φ),
        (forall r, r ∈ l -> r.stop ≤ lo ∨ hi ≤ r.base) -> flagsAt l a = none := by
      intro l hl
      refine flagsAt_eq_none (fun r hr hcov => ?_)
      have := hl r hr
      have := hcov.left
      have := hcov.right
      lia
    rw [hclear pre hpre, hclear post hpost]
    simp
  · rfl

/-- The regions `mid` of `l`, all with the flags `f`, and the addresses from
`lo` to `hi` are united in one region of `l'`. -/
structure Merges (l l' : List (Region φ)) (lo hi : Nat) (f : φ)
    (pre mid post : List (Region φ)) (h : Region φ) : Prop where
  source : l = pre ++ mid ++ post
  result : l' = pre ++ [h] ++ post
  flags : h.flags = f
  uniform : forall m, m ∈ mid -> m.flags = f
  covers : forall a, h.Covers a <->
    (lo ≤ a ∧ a < hi) ∨ exists m, m ∈ mid ∧ m.Covers a
  pos : 0 < h.size
  left : forall r, r ∈ pre -> r.stop ≤ h.base
  right : forall r, r ∈ post -> h.stop ≤ r.base

section Merges

variable {l l' pre mid post : List (Region φ)} {lo hi : Nat} {f : φ} {h : Region φ}

theorem Merges.ordered (m : Merges l l' lo hi f pre mid post h) (hl : Ordered l) :
    Ordered l' := by
  have hsrc := hl
  rw [m.source, List.append_assoc] at hsrc
  have hparts := ordered_append.mp hsrc
  have hpost := (ordered_append.mp hparts.right.left).right.left
  rw [m.result, List.append_assoc]
  refine ordered_append.mpr ⟨hparts.left, ordered_cons.mpr ⟨m.pos, hpost, m.right⟩, ?_⟩
  intro r hr s hs
  rcases List.mem_cons.mp hs with rfl | hs
  · exact m.left r hr
  · exact hparts.right.right r hr s (List.mem_append_right mid hs)

theorem Merges.paints_mid (m : Merges l l' lo hi f pre mid post h) :
    Paints mid [h] lo hi (some f) := by
  intro a
  rw [flagsAt, flagsAt, m.flags]
  by_cases hx : lo ≤ a ∧ a < hi
  · rw [if_pos ((m.covers a).mpr (.inl hx)), if_pos hx]
  · rw [if_neg hx]
    by_cases hmid : exists r, r ∈ mid ∧ r.Covers a
    · rw [if_pos ((m.covers a).mpr (.inr hmid)), flagsAt_uniform m.uniform hmid]
    · rw [if_neg (fun hcov => ((m.covers a).mp hcov).elim hx hmid), flagsAt_eq_none]
      exact fun r hr hcov => hmid ⟨r, hr, hcov⟩

theorem Merges.paints (m : Merges l l' lo hi f pre mid post h) (hlo : lo < hi) :
    Paints l l' lo hi (some f) := by
  have hbase : h.base ≤ lo := ((m.covers lo).mpr (.inl ⟨Nat.le_refl _, hlo⟩)).left
  have hstop : hi ≤ h.stop := by
    have := ((m.covers (hi - 1)).mpr (.inl ⟨by lia, by lia⟩)).right
    lia
  rw [m.source, m.result]
  exact m.paints_mid.frame (fun r hr => .inl (Nat.le_trans (m.left r hr) hbase))
    (fun r hr => .inr (Nat.le_trans hstop (m.right r hr)))

theorem Merges.same_map (m : Merges l l' 0 0 f pre mid post h) (a : Nat) :
    flagsAt l' a = flagsAt l a := by
  have hpaint := m.paints_mid.frame (fun r (_ : r ∈ pre) => .inr (Nat.zero_le r.base))
    (fun r (_ : r ∈ post) => .inr (Nat.zero_le r.base))
  rw [m.source, m.result, hpaint a]
  exact if_neg (by lia)

theorem Merges.stop_le (m : Merges l l' lo hi f pre mid post h) {bound : Nat}
    (hbound : hi ≤ bound) (hl : forall r, r ∈ l -> r.stop ≤ bound) :
    forall r, r ∈ l' -> r.stop ≤ bound := by
  intro r hr
  rw [m.result] at hr
  rcases List.mem_append.mp hr with hr | hr
  · rcases List.mem_append.mp hr with hr | hr
    · exact hl r (by rw [m.source]; simp [hr])
    · rw [List.mem_singleton.mp hr]
      have hpos := m.pos
      have hlast : h.Covers (h.stop - 1) := by
        constructor <;> unfold Region.stop <;> lia
      rcases (m.covers _).mp hlast with hx | ⟨s, hs, hcov⟩
      · lia
      · have hle := hl s (by rw [m.source]; simp [hs])
        have := hcov.right
        lia
  · exact hl r (by rw [m.source]; simp [hr])

theorem Merges.coalesce {s : Region φ}
    (m : Merges l l' lo hi f pre mid (s :: post) h) (hl : Ordered l)
    (hflags : s.flags = f) (hs : s.base = h.stop) :
    Merges l (pre ++ [{ h with size := h.size + s.size }] ++ post) lo hi f pre
      (mid ++ [s]) post { h with size := h.size + s.size } := by
  have hpos := m.pos
  have hsrc := hl
  rw [m.source, List.append_assoc] at hsrc
  have htail := ordered_cons.mp
    (ordered_append.mp (ordered_append.mp hsrc).right.left).right.left
  refine ⟨by rw [m.source]; simp, rfl, m.flags, ?_, ?_, by dsimp only; lia, m.left, ?_⟩
  · intro r hr
    rcases List.mem_append.mp hr with hr | hr
    · exact m.uniform r hr
    · rw [List.mem_singleton.mp hr]
      exact hflags
  · intro a
    have hcov : Region.Covers { h with size := h.size + s.size } a <->
        h.Covers a ∨ s.Covers a := by
      unfold Region.Covers Region.stop at *
      dsimp only
      lia
    rw [hcov, m.covers a]
    simp only [List.mem_append, List.mem_singleton]
    constructor
    · rintro ((ha | ⟨r, hr, ha⟩) | ha)
      · exact .inl ha
      · exact .inr ⟨r, .inl hr, ha⟩
      · exact .inr ⟨s, .inr rfl, ha⟩
    · rintro (ha | ⟨r, hr | rfl, ha⟩)
      · exact .inl (.inl ha)
      · exact .inl (.inr ⟨r, hr, ha⟩)
      · exact .inr ha
  · intro r hr
    have := htail.right.right r hr
    unfold Region.stop at *
    dsimp only
    lia

end Merges

/-!
## Separated lists
-/

def Separated (l : List (Region φ)) : Prop :=
  forall r, r ∈ l -> forall s, s ∈ l -> r.stop = s.base -> r.flags ≠ s.flags

theorem separated_nil : Separated ([] : List (Region φ)) :=
  fun _ hr => absurd hr List.not_mem_nil

/-- The united region touches a region with its flags only where one of the
regions it was made of did. -/
theorem Merges.separated {l l' pre mid post : List (Region φ)} {lo hi : Nat} {f : φ}
    {h : Region φ} (m : Merges l l' lo hi f pre mid post h) (hl : Separated l)
    (hleft : forall r, r ∈ pre -> r.stop = h.base -> r.flags = f ->
      exists q, q ∈ mid ∧ r.stop = q.base)
    (hright : forall s, s ∈ post -> h.stop = s.base -> s.flags = f ->
      exists q, q ∈ mid ∧ q.stop = s.base) :
    Separated l' := by
  have hold : forall r, r ∈ pre ++ post -> r ∈ l := by
    intro r hr
    rw [m.source]
    simp only [List.mem_append] at hr ⊢
    tauto
  have hmid : forall q, q ∈ mid -> q ∈ l := fun q hq => by simp [m.source, hq]
  have hmem : forall r, r ∈ l' -> r ∈ pre ++ post ∨ r = h := by
    intro r hr
    rw [m.result] at hr
    simp only [List.mem_append, List.mem_singleton] at hr ⊢
    tauto
  have hpos := m.pos
  have hstop : h.stop = h.base + h.size := rfl
  intro r hr s hs htouch hflags
  rcases hmem r hr with hr | rfl
  · rcases hmem s hs with hs | rfl
    · exact hl r (hold r hr) s (hold s hs) htouch hflags
    · rcases List.mem_append.mp hr with hr | hr
      · rcases hleft r hr htouch (hflags.trans m.flags) with ⟨q, hq, heq⟩
        exact hl r (hold r (by simp [hr])) q (hmid q hq) heq
          (hflags.trans (m.flags.trans (m.uniform q hq).symm))
      · have h1 := m.right r hr
        have h2 : r.stop = r.base + r.size := rfl
        lia
  · rcases hmem s hs with hs | rfl
    · rcases List.mem_append.mp hs with hs | hs
      · have h1 := m.left s hs
        have h2 : s.stop = s.base + s.size := rfl
        lia
      · rcases hright s hs htouch (hflags.symm.trans m.flags) with ⟨q, hq, heq⟩
        exact hl q (hmid q hq) s (hold s (by simp [hs])) heq
          ((m.uniform q hq).trans (m.flags.symm.trans hflags))
    · lia

theorem Separated.replace {pre post P : List (Region φ)} {r : Region φ}
    (hs : Separated (pre ++ r :: post)) (hl : Ordered (pre ++ r :: post))
    (hparts : Ordered P) (hlen : P.length ≤ 1)
    (hin : forall q, q ∈ P -> r.base ≤ q.base ∧ q.stop ≤ r.stop ∧ q.flags = r.flags) :
    Separated (pre ++ (P ++ post)) := by
  have hsplit := ordered_append.mp hl
  have htail := ordered_cons.mp hsplit.right.left
  have hold : forall p, p ∈ pre ++ post -> p ∈ pre ++ r :: post := by
    intro p hp
    simp only [List.mem_append, List.mem_cons] at hp ⊢
    tauto
  have hr : r ∈ pre ++ r :: post := by simp
  have hmem : forall p, p ∈ pre ++ (P ++ post) -> p ∈ pre ++ post ∨ p ∈ P := by
    intro p hp
    simp only [List.mem_append] at hp ⊢
    tauto
  intro p hp q hq htouch hflags
  have hpstop : p.stop = p.base + p.size := rfl
  have hqstop : q.stop = q.base + q.size := rfl
  rcases hmem p hp with hp | hp
  · rcases hmem q hq with hq | hq
    · exact hs p (hold p hp) q (hold q hq) htouch hflags
    · have hqr := hin q hq
      have hqpos := hparts.pos q hq
      rcases List.mem_append.mp hp with hp | hp
      · have hle := hsplit.right.right p hp r List.mem_cons_self
        exact hs p (hold p (by simp [hp])) r hr (by lia) (hflags.trans hqr.right.right)
      · have hle := htail.right.right p hp
        lia
  · have hpr := hin p hp
    have hppos := hparts.pos p hp
    rcases hmem q hq with hq | hq
    · rcases List.mem_append.mp hq with hq | hq
      · have hle := hsplit.right.right q hq r List.mem_cons_self
        lia
      · have hle := htail.right.right q hq
        exact hs r hr q (hold q (by simp [hq])) (by lia)
          (hpr.right.right.symm.trans hflags)
    · -- both are the one part
      match P, hlen, hp, hq with
      | [t], _, hp, hq =>
          rw [List.mem_singleton.mp hp, List.mem_singleton.mp hq] at htouch
          rw [List.mem_singleton.mp hp] at hppos hpstop
          lia

/-- A range with the same flags throughout lies in one region. -/
theorem Separated.covers_range {l : List (Region φ)} (hs : Separated l) (hl : Ordered l)
    {lo hi : Nat} {f : φ} (hlt : lo < hi)
    (h : forall a, lo ≤ a -> a < hi -> flagsAt l a = some f) :
    exists r, r ∈ l ∧ r.base ≤ lo ∧ hi ≤ r.stop ∧ r.flags = f := by
  rcases exists_of_flagsAt (h lo (Nat.le_refl _) hlt) with ⟨r, hr, hcov, hf⟩
  refine ⟨r, hr, hcov.left, ?_, hf⟩
  by_contra hnot
  have hlo := hcov.right
  -- the address behind the region belongs to another one with the same flags
  rcases exists_of_flagsAt (h r.stop (by lia) (by lia)) with ⟨s, hsm, hcov', hf'⟩
  rcases hl.before_or hr hsm with heq | hle | hle
  · rw [heq] at hcov'
    exact Nat.lt_irrefl _ hcov'.right
  · exact hs r hr s hsm (Nat.le_antisymm hle hcov'.left) (hf.trans hf'.symm)
  · have h1 := hcov'.right
    have h2 := hcov.left
    lia

/-- Two touching regions with the same flags make up a range with these flags
that no region holds. -/
theorem Ordered.touching_range {l : List (Region φ)} (hl : Ordered l) {r s : Region φ}
    (hr : r ∈ l) (hs : s ∈ l) (htouch : r.stop = s.base) (hflags : r.flags = s.flags) :
    (forall a, r.base ≤ a -> a < s.stop -> flagsAt l a = some r.flags) ∧
      forall t, t ∈ l -> ¬ (t.base ≤ r.base ∧ s.stop ≤ t.stop) := by
  have hrpos := hl.pos r hr
  have hspos := hl.pos s hs
  have hrstop : r.stop = r.base + r.size := rfl
  have hsstop : s.stop = s.base + s.size := rfl
  refine ⟨fun a hlo hhi => ?_, fun t ht hin => ?_⟩
  · by_cases ha : a < r.stop
    · exact hl.flagsAt_eq hr ⟨hlo, ha⟩
    · rw [hflags]
      exact hl.flagsAt_eq hs ⟨by lia, hhi⟩
  · have htr : t = r := hl.covers_unique ht hr (a := r.base) ⟨hin.left, by lia⟩
      ⟨Nat.le_refl _, by lia⟩
    rw [htr] at hin
    lia

end Regions
end Hlk7621
