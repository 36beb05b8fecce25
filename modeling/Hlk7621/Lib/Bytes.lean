import Mathlib.Algebra.Group.Int.Defs
import Mathlib.Algebra.Group.Nat.Defs
import Mathlib.Data.List.Basic
import Mathlib.Data.List.GetD
import Mathlib.Tactic.Common

/-!
# Byte strings and 32-bit words

Byte strings are lists of `UInt8`.  Machine words of 32 bits are natural
numbers, and every operation that can leave the range reduces modulo
`2 ^ 32` explicitly.  Memories and flash contents are functions from
addresses to bytes; `window` reads a range of one as a byte string.
-/

namespace Hlk7621

abbrev Bytes := List UInt8

def str (s : String) : Bytes :=
  s.toList.map fun c => UInt8.ofNat c.toNat

/-!
## 32-bit arithmetic
-/

@[irreducible] def u32 (n : Nat) : Nat := n % 2 ^ 32

/-- Unsigned subtraction, `a - b` with wrap-around. -/
@[irreducible] def sub32 (a b : Nat) : Nat := (a + (2 ^ 32 - b % 2 ^ 32)) % 2 ^ 32

theorem u32_lt (n : Nat) : u32 n < 2 ^ 32 := by
  unfold u32
  exact Nat.mod_lt _ (by decide)

theorem u32_of_lt {n : Nat} (h : n < 2 ^ 32) : u32 n = n := by
  unfold u32
  exact Nat.mod_eq_of_lt h

theorem sub32_of_le {a b : Nat} (hba : b ≤ a) (ha : a < 2 ^ 32) :
    sub32 a b = a - b := by
  unfold sub32
  omega

/-- `roundup(x, y)` of the kernel headers on 32-bit operands. -/
def roundup32 (x y : Nat) : Nat := u32 (u32 (x + (y - 1)) / y * y)

theorem roundup32_spec {x y : Nat} (hy : 0 < y) (hx : x + y ≤ 2 ^ 32) :
    roundup32 x y = (x + (y - 1)) / y * y ∧ x ≤ roundup32 x y ∧
      roundup32 x y < x + y ∧ y ∣ roundup32 x y := by
  have hdm := Nat.div_add_mod (x + (y - 1)) y
  have hmod := Nat.mod_lt (x + (y - 1)) hy
  rw [Nat.mul_comm] at hdm
  have hval : roundup32 x y = (x + (y - 1)) / y * y := by
    unfold roundup32
    rw [u32_of_lt (by lia : x + (y - 1) < 2 ^ 32), u32_of_lt (by lia)]
  rw [hval]
  refine ⟨rfl, ?_, ?_, Nat.dvd_mul_left _ _⟩
  · lia
  · lia

theorem roundup32_le {x y m : Nat} (hy : 0 < y) (hx : x + y ≤ 2 ^ 32)
    (hxm : x ≤ m) (hdvd : y ∣ m) : roundup32 x y ≤ m := by
  rcases roundup32_spec hy hx with ⟨_, _, hlt, hd⟩
  rcases hdvd with ⟨k, rfl⟩
  rcases hd with ⟨j, hj⟩
  rw [hj] at hlt ⊢
  have hjk : j < k + 1 := by
    refine Nat.lt_of_mul_lt_mul_left (a := y) ?_
    calc y * j < x + y := hlt
      _ ≤ y * k + y := by lia
      _ = y * (k + 1) := (Nat.mul_succ y k).symm
  exact Nat.mul_le_mul_left y (by lia)

/-!
## Reading numbers and ranges
-/

/-- Value of a byte string, least significant byte first. -/
def leNat : Bytes -> Nat
  | [] => 0
  | b :: rest => b.toNat + 256 * leNat rest

/-- Value of a byte string, most significant byte first. -/
def beNat (bs : Bytes) : Nat := leNat bs.reverse

theorem leNat_lt (bs : Bytes) : leNat bs < 256 ^ bs.length := by
  induction bs with
  | nil => simp [leNat]
  | cons b rest ih =>
      have hb : b.toNat < 256 := b.toNat_lt
      rw [leNat, List.length_cons, Nat.pow_succ]
      lia

/-- The bytes at `[off, off + len)` of a memory. -/
def window (mem : Nat -> UInt8) (off len : Nat) : Bytes :=
  (List.range len).map fun i => mem (off + i)

@[simp] theorem window_length (mem : Nat -> UInt8) (off len : Nat) :
    (window mem off len).length = len := by
  simp [window]

@[simp] theorem window_zero (mem : Nat -> UInt8) (off : Nat) :
    window mem off 0 = [] := rfl

theorem window_getElem? (mem : Nat -> UInt8) (off len i : Nat) (hi : i < len) :
    (window mem off len)[i]? = some (mem (off + i)) := by
  simp [window, hi]

theorem window_append (mem : Nat -> UInt8) (off a b : Nat) :
    window mem off (a + b) =
      window mem off a ++ window mem (off + a) b := by
  unfold window
  rw [List.range_add, List.map_append, List.map_map]
  congr 1
  apply List.map_congr_left
  intro i _
  show mem (off + (a + i)) = mem (off + a + i)
  rw [Nat.add_assoc]

theorem window_congr {mem mem' : Nat -> UInt8} {off len : Nat}
    (h : forall a, off ≤ a -> a < off + len -> mem a = mem' a) :
    window mem off len = window mem' off len := by
  apply List.map_congr_left
  intro i hi
  have := List.mem_range.mp hi
  exact h (off + i) (by lia) (by lia)

theorem window_u32 (mem : Nat -> UInt8) {off len : Nat}
    (h : off + len ≤ 2 ^ 32) :
    window (fun a => mem (u32 a)) off len = window mem off len := by
  apply window_congr
  intro a _ hhi
  rw [u32_of_lt (by lia)]

theorem window_inside {mem mem' : Nat -> UInt8} {off off' len i n : Nat}
    (h : window mem off len = window mem' off' len) (hn : i + n ≤ len) :
    window mem (off + i) n = window mem' (off' + i) n := by
  apply List.map_congr_left
  intro k hk
  have hlt := List.mem_range.mp hk
  have hget := window_getElem? mem off len (i + k) (by lia)
  rw [h, window_getElem? mem' off' len (i + k) (by lia)] at hget
  rw [Nat.add_assoc, Nat.add_assoc]
  exact (Option.some.inj hget).symm

theorem window_slice (mem : Nat -> UInt8) (off : Nat) {len i n : Nat}
    (hn : i + n ≤ len) :
    ((window mem off len).drop i).take n = window mem (off + i) n := by
  have hsplit : len = i + (n + (len - i - n)) := by lia
  rw [hsplit, window_append, List.drop_left' (window_length _ _ _), window_append,
    List.take_left' (window_length _ _ _)]

theorem window_eq_iff {mem : Nat -> UInt8} {off : Nat} {bs : Bytes} :
    window mem off bs.length = bs <->
      forall i, (h : i < bs.length) -> mem (off + i) = bs[i] := by
  constructor
  · intro h i hi
    have hget := window_getElem? mem off bs.length i hi
    rw [h, List.getElem?_eq_getElem hi] at hget
    exact (Option.some.inj hget).symm
  · intro h
    apply List.ext_getElem?
    intro i
    by_cases hi : i < bs.length
    · rw [window_getElem? mem off bs.length i hi, h i hi,
        List.getElem?_eq_getElem hi]
    · rw [List.getElem?_eq_none (by simpa using hi),
        List.getElem?_eq_none (by lia)]

/-!
## Writing a range
-/

/-- The memory after `memcpy` of `data` to address `off`. -/
def overwrite (mem : Nat -> UInt8) (off : Nat) (data : Bytes) (a : Nat) : UInt8 :=
  if off ≤ a ∧ a < off + data.length then data.getD (a - off) 0 else mem a

@[simp] theorem overwrite_nil (mem : Nat -> UInt8) (off : Nat) :
    overwrite mem off [] = mem := by
  funext a
  exact if_neg (by simp)

theorem overwrite_of_lt {mem : Nat -> UInt8} {off a : Nat} {data : Bytes}
    (h : a < off) : overwrite mem off data a = mem a := by
  unfold overwrite
  rw [if_neg (by lia)]

theorem overwrite_of_ge {mem : Nat -> UInt8} {off a : Nat} {data : Bytes}
    (h : off + data.length ≤ a) : overwrite mem off data a = mem a := by
  unfold overwrite
  rw [if_neg (by lia)]

theorem window_overwrite_self (mem : Nat -> UInt8) (off : Nat) (data : Bytes) :
    window (overwrite mem off data) off data.length = data := by
  rw [window_eq_iff]
  intro i hi
  unfold overwrite
  rw [if_pos (by lia), Nat.add_sub_cancel_left, List.getD_eq_getElem _ _ hi]

theorem window_overwrite_append (mem : Nat -> UInt8) (off n : Nat)
    (data : Bytes) :
    window (overwrite mem (off + n) data) off (n + data.length) =
      window mem off n ++ data := by
  rw [window_append, window_overwrite_self]
  congr 1
  apply window_congr
  intro a _ hhi
  exact overwrite_of_lt hhi

theorem overwrite_append (mem : Nat -> UInt8) (off : Nat) (xs ys : Bytes) :
    overwrite (overwrite mem off xs) (off + xs.length) ys =
      overwrite mem off (xs ++ ys) := by
  funext a
  unfold overwrite
  by_cases hx : off ≤ a ∧ a < off + xs.length
  · rw [if_neg (by lia), if_pos hx, if_pos (by simp; lia),
      List.getD_append _ _ _ _ (by lia)]
  · by_cases hy : off + xs.length ≤ a ∧ a < off + xs.length + ys.length
    · rw [if_pos hy, if_pos (by simp; lia),
        List.getD_append_right _ _ _ _ (by lia)]
      congr 1
      lia
    · rw [if_neg hy, if_neg hx, if_neg (by simp; lia)]

/-- A byte string with `data` copied over it from position `off` on; what does
not fit is dropped. -/
def splice (buf : Bytes) (off : Nat) (data : Bytes) : Bytes :=
  window (overwrite (fun i => buf.getD i 0) off data) 0 buf.length

@[simp] theorem splice_length (buf : Bytes) (off : Nat) (data : Bytes) :
    (splice buf off data).length = buf.length := by
  simp [splice]

/-!
## Number formatting

Only the conversions that the replies of the server use.
-/

/-- The `%u` and `%lu` conversions. -/
def fmtDec (n : Nat) : Bytes :=
  (Nat.toDigits 10 n).map fun c => UInt8.ofNat c.toNat

/-- The `%d` conversion. -/
def fmtInt (n : Int) : Bytes :=
  if n < 0 then str "-" ++ fmtDec n.natAbs else fmtDec n.natAbs

/-- The `%0wx` conversion for a field of `w` digits. -/
def fmtHex (w n : Nat) : Bytes :=
  let digits := (Nat.toDigits 16 n).map fun c => UInt8.ofNat c.toNat
  List.replicate (w - digits.length) 48 ++ digits

def snprintf (size : Nat) (text : Bytes) : Bytes := text.take (size - 1)

end Hlk7621
