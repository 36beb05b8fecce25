import Mathlib.Data.Set.Insert
import Mathlib.Logic.Function.Basic
import Mathlib.Tactic.Common

/-!
# Cells held by one holder each

Some of the holders of a set `dom` hold a cell each, and some cells are
reserved.  The allotment is exclusive when no two holders share a cell and no
holder has a reserved one.  A holder may be given a cell out of the reserve,
which gives it up.
-/

namespace Hlk7621
namespace Allotment

variable {ι κ : Type}

structure Exclusive (dom : Set ι) (held : ι -> Option κ) (reserve : Set κ) : Prop where
  unshared : forall {i j k}, i ∈ dom -> j ∈ dom -> held i = some k -> held j = some k -> i = j
  unreserved : forall {i k}, i ∈ dom -> held i = some k -> k ∉ reserve

variable {dom : Set ι} {held : ι -> Option κ} {reserve : Set κ}

theorem Exclusive.mono (h : Exclusive dom held reserve) {dom' : Set ι} {reserve' : Set κ}
    (hdom : dom' ⊆ dom) (hreserve : reserve' ⊆ reserve) : Exclusive dom' held reserve' where
  unshared hi hj := h.unshared (hdom hi) (hdom hj)
  unreserved hi hk hmem := h.unreserved (hdom hi) hk (hreserve hmem)

theorem Exclusive.assign [DecidableEq ι] (h : Exclusive dom held reserve) (i : ι) {k : κ}
    (hk : k ∈ reserve) :
    Exclusive (insert i dom) (Function.update held i (some k)) (reserve \ {k}) := by
  have hother : forall {j l}, j ∈ insert i dom -> j ≠ i ->
      Function.update held i (some k) j = some l -> j ∈ dom ∧ held j = some l := by
    intro j l hj hne hl
    rw [Function.update_of_ne hne] at hl
    exact ⟨hj.resolve_left hne, hl⟩
  -- the cell was in the reserve, so no other holder has it
  have hfresh : forall {j}, j ∈ insert i dom -> j ≠ i ->
      Function.update held i (some k) j ≠ some k := by
    intro j hj hne hl
    have hold := hother hj hne hl
    exact h.unreserved hold.left hold.right hk
  have hself : forall {l}, Function.update held i (some k) i = some l -> l = k := by
    intro l hl
    rw [Function.update_self] at hl
    exact (Option.some.inj hl).symm
  constructor
  · intro a b l ha hb hla hlb
    by_cases hai : a = i
    · subst hai
      by_contra hne
      have hl := hself hla
      subst hl
      exact hfresh hb (Ne.symm hne) hlb
    · by_cases hbi : b = i
      · subst hbi
        have hl := hself hlb
        subst hl
        exact (hfresh ha hai hla).elim
      · have holda := hother ha hai hla
        have holdb := hother hb hbi hlb
        exact h.unshared holda.left holdb.left holda.right holdb.right
  · intro a l ha hla hmem
    by_cases hai : a = i
    · subst hai
      exact hmem.right (hself hla)
    · have hold := hother ha hai hla
      exact h.unreserved hold.left hold.right hmem.left

end Allotment
end Hlk7621
