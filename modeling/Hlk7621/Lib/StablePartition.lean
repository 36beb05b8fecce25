import Mathlib.Data.List.Basic
import Mathlib.Data.Set.Function
import Mathlib.Order.Interval.Set.Defs
import Mathlib.Tactic.Common

/-!
# Stable partitions

The elements of a list that satisfy a predicate, in front of the others, each part in
its order.  On an interval of numbers this is a bijection of the interval onto itself.
-/

namespace Hlk7621
namespace StablePartition

variable {α : Type} (p : α -> Bool)

def ordered (l : List α) : List α := l.filter p ++ l.filter fun a => !p a

section

variable {p} {l : List α}

theorem ordered_perm : (ordered p l).Perm l := List.filter_append_perm p l

theorem ordered_length : (ordered p l).length = l.length := ordered_perm.length_eq

theorem mem_ordered {a : α} : a ∈ ordered p l <-> a ∈ l := ordered_perm.mem_iff

theorem ordered_front {k : Nat} (hk : k < (l.filter p).length) :
    (ordered p l)[k]? = (l.filter p)[k]? :=
  List.getElem?_append_left hk

theorem ordered_back {k : Nat} (hk : (l.filter p).length ≤ k) :
    (ordered p l)[k]? = (l.filter fun a => !p a)[k - (l.filter p).length]? :=
  List.getElem?_append_right hk

theorem ordered_cons {a : α} (h : p a = true) : ordered p (a :: l) = a :: ordered p l := by
  unfold ordered
  rw [List.filter_cons_of_pos h, List.filter_cons_of_neg (by rw [h]; decide), List.cons_append]

section

variable {q : α -> Bool} {front back : List α} {m : α} (hm : p m = true) (hq : q m = false)
  (hfront : forall a, a ∈ front -> q a = p a) (hback : forall a, a ∈ back -> q a = p a)

include hm hq hfront hback

end

end

/-!
## Intervals
-/

section

variable {p : Nat -> Bool} {lo n : Nat}

/-- `f` maps the interval onto itself, the first numbers to those with `p` in
increasing order and the remaining ones to the others. -/
structure Sorts (p : Nat -> Bool) (f : Nat -> Int) (lo hi : Nat) : Prop where
  bijective : Set.BijOn f (Set.Ico lo hi) ((fun b : Nat => (b : Int)) '' Set.Ico lo hi)
  front : forall k (b : Nat), ((List.range' lo (hi - lo)).filter p)[k]? = some b -> f (lo + k) = b
  back : forall k, ((List.range' lo (hi - lo)).filter p).length ≤ k -> lo + k < hi ->
    exists b, p b = false ∧ f (lo + k) = (b : Int)

theorem lt_of_front {hi k b : Nat} (h : ((List.range' lo (hi - lo)).filter p)[k]? = some b) :
    lo + k < hi := by
  have hk := (List.getElem?_eq_some_iff.mp h).1
  have hle := List.length_filter_le p (List.range' lo (hi - lo))
  rw [List.length_range'] at hle
  lia

theorem Sorts.congr {f f' : Nat -> Int} {hi : Nat} (h : Sorts p f lo hi)
    (heq : forall b, lo ≤ b -> b < hi -> f b = f' b) : Sorts p f' lo hi := by
  refine ⟨h.bijective.congr fun b hb => heq b hb.1 hb.2, ?_, ?_⟩
  · intro k b hb
    rw [<- heq _ (by lia) (lt_of_front hb)]
    exact h.front k b hb
  · intro k hk hlt
    rw [<- heq _ (by lia) hlt]
    exact h.back k hk hlt

end

end StablePartition
end Hlk7621
