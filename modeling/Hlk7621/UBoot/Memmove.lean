import Hlk7621.Lib.Bytes

/-!
# Copying memory

Model of `memcpy` and `memmove` from `lib/string.c` on a machine with words of
four bytes.  `memcpy` copies upwards, in words while both addresses are aligned,
so that it is right for overlapping areas too as long as the destination comes
first; `memmove` copies downwards in the other case.  Addresses are offsets from
`base`, which only matters for the alignment.
-/

namespace Hlk7621
namespace UBoot

def copyUnits (unit : Nat) :
    Nat -> (Nat -> UInt8) -> Nat -> Nat -> Nat -> UInt8
  | 0, mem, _, _ => mem
  | count + 1, mem, dest, src =>
      copyUnits unit count (overwrite mem dest (window mem src unit)) (dest + unit)
        (src + unit)

def memcpy (base : Nat) (mem : Nat -> UInt8) (dest src count : Nat) :
    Nat -> UInt8 :=
  if src = dest then mem
  else if (base + dest) % 4 = 0 ∧ (base + src) % 4 = 0 then
    let words := count / 4
    copyUnits 1 (count % 4) (copyUnits 4 words mem dest src) (dest + 4 * words)
      (src + 4 * words)
  else copyUnits 1 count mem dest src

def copyDown : Nat -> (Nat -> UInt8) -> Nat -> Nat -> Nat -> UInt8
  | 0, mem, _, _ => mem
  | count + 1, mem, dest, src =>
      copyDown count (overwrite mem (dest + count) [mem (src + count)]) dest src

def memmove (base : Nat) (mem : Nat -> UInt8) (dest src count : Nat) :
    Nat -> UInt8 :=
  if dest ≤ src ∨ src + count ≤ dest then memcpy base mem dest src count
  else copyDown count mem dest src

/-!
## What is copied
-/

theorem window_overwrite_disjoint {mem : Nat -> UInt8} {off len dest : Nat}
    {data : Bytes} (h : off + len ≤ dest ∨ dest + data.length ≤ off) :
    window (overwrite mem dest data) off len = window mem off len := by
  apply window_congr
  intro a hlo hhi
  rcases h with h | h
  · exact overwrite_of_lt (by omega)
  · exact overwrite_of_ge (by omega)

theorem copyUnits_eq (unit count : Nat) (mem : Nat -> UInt8) {dest src : Nat}
    (h : dest + unit ≤ src ∨ src + unit * count ≤ dest) :
    copyUnits unit count mem dest src =
      overwrite mem dest (window mem src (unit * count)) := by
  induction count generalizing mem dest src with
  | zero => rw [Nat.mul_zero, window_zero, overwrite_nil, copyUnits]
  | succ count ih =>
      rw [Nat.mul_succ] at h ⊢
      have hrest : window (overwrite mem dest (window mem src unit)) (src + unit)
          (unit * count) = window mem (src + unit) (unit * count) := by
        apply window_overwrite_disjoint
        rw [window_length]
        omega
      rw [copyUnits, ih _ (by omega), hrest, Nat.add_comm (unit * count) unit,
        window_append, <- overwrite_append, window_length]

theorem overwrite_window_self (mem : Nat -> UInt8) (off len : Nat) :
    overwrite mem off (window mem off len) = mem := by
  funext a
  unfold overwrite
  split
  · rename_i h
    rw [window_length] at h
    rw [List.getD_eq_getElem?_getD, window_getElem? mem off len (a - off) (by omega),
      Option.getD_some, Nat.add_sub_cancel' h.left]
  · rfl

theorem memcpy_eq (base : Nat) (mem : Nat -> UInt8) {dest src count : Nat}
    (h : dest ≤ src ∨ src + count ≤ dest) :
    memcpy base mem dest src count =
      overwrite mem dest (window mem src count) := by
  unfold memcpy
  split
  · rename_i hsame
    rw [hsame, overwrite_window_self]
  rename_i hne
  split
  · -- Aligned addresses are at least a word apart.
    rename_i haligned
    dsimp only
    have hcount := Nat.div_add_mod count 4
    generalize hwords : count / 4 = words at hcount ⊢
    generalize hbytes : count % 4 = bytes at hcount ⊢
    have hrest : window (overwrite mem dest (window mem src (4 * words)))
        (src + 4 * words) bytes = window mem (src + 4 * words) bytes := by
      apply window_overwrite_disjoint
      rw [window_length]
      omega
    rw [copyUnits_eq 4 words mem (by omega), copyUnits_eq 1 bytes _ (by omega),
      Nat.one_mul, hrest]
    have hjoin := overwrite_append mem dest (window mem src (4 * words))
      (window mem (src + 4 * words) bytes)
    rw [window_length, <- window_append, hcount] at hjoin
    exact hjoin
  · rw [copyUnits_eq 1 count mem (by omega), Nat.one_mul]

theorem overwrite_comm (mem : Nat -> UInt8) (a b : Nat) (xs ys : Bytes)
    (h : a + xs.length ≤ b ∨ b + ys.length ≤ a) :
    overwrite (overwrite mem a xs) b ys = overwrite (overwrite mem b ys) a xs := by
  funext i
  unfold overwrite
  by_cases hx : a ≤ i ∧ i < a + xs.length
  · rw [if_neg (by omega), if_pos hx, if_pos hx]
  · rw [if_neg hx, if_neg hx]

theorem copyDown_eq (count : Nat) (mem : Nat -> UInt8) {dest src : Nat}
    (h : src ≤ dest) :
    copyDown count mem dest src = overwrite mem dest (window mem src count) := by
  induction count generalizing mem with
  | zero => rw [copyDown, window_zero, overwrite_nil]
  | succ count ih =>
      have hrest : window (overwrite mem (dest + count) [mem (src + count)]) src
          count = window mem src count := by
        apply window_overwrite_disjoint
        left
        omega
      have hcomm := overwrite_comm mem (dest + count) dest [mem (src + count)]
        (window mem src count) (.inr (Nat.le_of_eq (by rw [window_length])))
      have hjoin := overwrite_append mem dest (window mem src count)
        (window mem (src + count) 1)
      rw [window_length, <- window_append] at hjoin
      rw [copyDown, ih, hrest, hcomm]
      exact hjoin

theorem memmove_eq (base : Nat) (mem : Nat -> UInt8) (dest src count : Nat) :
    memmove base mem dest src count =
      overwrite mem dest (window mem src count) := by
  unfold memmove
  split
  · rename_i h
    exact memcpy_eq base mem h
  · exact copyDown_eq count mem (by omega)

end UBoot
end Hlk7621
