import Mathlib.Data.List.Basic
import Mathlib.Tactic.Common

/-!
# Copying the pages of a block

Model of `bbt_nand_copy` from `mtk_bmt.c` on the pages of two blocks.  It ends at
`max_offset`, and at the first page that cannot be read.
-/

namespace Hlk7621
namespace Bmt

variable {α : Type}

/-- The destination after the next `n` pages from page `i` on, when they are written. -/
def nandCopy (readable : Nat -> Bool) (pgSize : Nat) (maxOffset : Int) (src : Nat -> α) :
    Nat -> Nat -> (Nat -> α) -> Nat -> α
  | 0, _, dest => dest
  | n + 1, i, dest =>
      if maxOffset ≤ (i * pgSize : Nat) then dest
      else if readable i then
        nandCopy readable pgSize maxOffset src n (i + 1) (Function.update dest i (src i))
      else dest

section

variable {readable : Nat -> Bool} {pgSize : Nat} {maxOffset : Int} {src : Nat -> α}

theorem nandCopy_below {n i p : Nat} {dest : Nat -> α} (h : p < i) :
    nandCopy readable pgSize maxOffset src n i dest p = dest p := by
  induction n generalizing i dest with
  | zero => rfl
  | succ n ih =>
      rw [nandCopy]
      split
      · rfl
      · split
        · rw [ih (by omega), Function.update_of_ne (by omega)]
        · rfl

theorem nandCopy_of_readable {n i p : Nat} {dest : Nat -> α} (hi : i ≤ p) (hp : p < i + n)
    (hoffset : (p * pgSize : Nat) < maxOffset)
    (hread : forall k, i ≤ k -> k ≤ p -> readable k = true) :
    nandCopy readable pgSize maxOffset src n i dest p = src p := by
  induction n generalizing i dest with
  | zero => omega
  | succ n ih =>
      have hle : i * pgSize ≤ p * pgSize := Nat.mul_le_mul_right pgSize hi
      rw [nandCopy, if_neg (by omega), if_pos (hread i (Nat.le_refl i) hi)]
      rcases Nat.eq_or_lt_of_le hi with rfl | hlt
      · rw [nandCopy_below (Nat.lt_succ_self i), Function.update_self]
      · exact ih hlt (by omega) fun k hk => hread k (by omega)

theorem nandCopy_limit {n i p : Nat} {dest : Nat -> α} (hlimit : maxOffset ≤ (p * pgSize : Nat)) :
    nandCopy readable pgSize maxOffset src n i dest p = dest p := by
  induction n generalizing i dest with
  | zero => rfl
  | succ n ih =>
      rw [nandCopy]
      split
      · rfl
      · next hbelow =>
        split
        · have hne : p ≠ i := by
            rintro rfl
            exact hbelow hlimit
          rw [ih, Function.update_of_ne hne]
        · rfl

theorem nandCopy_behind {n i k p : Nat} {dest : Nat -> α} (hi : i ≤ k) (hk : k ≤ p)
    (hread : readable k = false) :
    nandCopy readable pgSize maxOffset src n i dest p = dest p := by
  induction n generalizing i dest with
  | zero => rfl
  | succ n ih =>
      rw [nandCopy]
      split
      · rfl
      · split
        · next hreadable =>
            have hne : i ≠ k := by
              rintro rfl
              rw [hread] at hreadable
              cases hreadable
            rw [ih (by omega), Function.update_of_ne (by omega)]
        · rfl

end

end Bmt
end Hlk7621
