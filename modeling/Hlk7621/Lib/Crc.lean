import Hlk7621.Lib.Bytes

/-!
# Table-driven reflected CRC registers

One register step consumes a byte through a 256-entry table.  The table is a
parameter: nothing here depends on the polynomial.  The results are that a
fold over a byte string splits at any point, and that exclusive-oring a whole
little-endian word into the register and stepping once for each of its bytes
is the same as consuming the bytes one at a time.
-/

namespace Hlk7621
namespace Crc

variable (tab : Nat -> BitVec 32)

/-- One step of the register `c` for the byte held in `x`. -/
def step (c x : BitVec 32) : BitVec 32 :=
  tab ((c ^^^ x) &&& 255#32).toNat ^^^ (c >>> 8)

def byteWord (b : UInt8) : BitVec 32 := BitVec.ofNat 32 b.toNat

def fold (c : BitVec 32) (bs : Bytes) : BitVec 32 :=
  bs.foldl (fun c b => step tab c (byteWord b)) c

@[simp] theorem fold_nil (c : BitVec 32) : fold tab c [] = c := rfl

@[simp] theorem fold_cons (c : BitVec 32) (b : UInt8) (rest : Bytes) :
    fold tab c (b :: rest) = fold tab (step tab c (byteWord b)) rest := rfl

theorem fold_append (c : BitVec 32) (xs ys : Bytes) :
    fold tab c (xs ++ ys) = fold tab (fold tab c xs) ys :=
  List.foldl_append

/-!
## Word-at-a-time processing
-/

def word (bs : Bytes) : BitVec 32 := BitVec.ofNat 32 (leNat bs)

theorem step_xor_zero (c w : BitVec 32) :
    step tab (c ^^^ w) 0#32 = step tab c (w &&& 255#32) ^^^ (w >>> 8) := by
  have hidx : (c ^^^ w ^^^ 0#32) &&& 255#32 =
      (c ^^^ (w &&& 255#32)) &&& 255#32 := by
    ext i hi
    simp only [BitVec.getElem_and, BitVec.getElem_xor, BitVec.getElem_zero, Bool.xor_false,
      Bool.and_xor_distrib_right, Bool.and_assoc, Bool.and_self]
  unfold step
  rw [hidx, BitVec.ushiftRight_xor_distrib, BitVec.xor_assoc]

theorem word_cons_low (b : UInt8) (rest : Bytes) :
    word (b :: rest) &&& 255#32 = byteWord b := by
  have hb : b.toNat < 256 := b.toNat_lt
  apply BitVec.eq_of_toNat_eq
  have hmask : (255 : Nat) = 2 ^ 8 - 1 := by decide
  simp only [word, byteWord, leNat, BitVec.toNat_and, BitVec.toNat_ofNat]
  rw [hmask, Nat.mod_eq_of_lt (by decide : 2 ^ 8 - 1 < 2 ^ 32),
    Nat.and_two_pow_sub_one_eq_mod]
  omega

theorem word_cons_shift (b : UInt8) {rest : Bytes} (h : rest.length < 4) :
    word (b :: rest) >>> 8 = word rest := by
  have hb : b.toNat < 256 := b.toNat_lt
  have hrest : leNat rest < 256 ^ 3 :=
    Nat.lt_of_lt_of_le (leNat_lt rest)
      (Nat.pow_le_pow_right (by decide) (by lia))
  apply BitVec.eq_of_toNat_eq
  simp only [word, leNat, BitVec.toNat_ushiftRight, BitVec.toNat_ofNat,
    Nat.shiftRight_eq_div_pow]
  omega

def zeros : Nat -> BitVec 32 -> BitVec 32
  | 0, c => c
  | n + 1, c => zeros n (step tab c 0#32)

theorem zeros_xor_word (c : BitVec 32) {bs : Bytes} (h : bs.length ≤ 4) :
    zeros tab bs.length (c ^^^ word bs) = fold tab c bs := by
  induction bs generalizing c with
  | nil =>
      show c ^^^ word [] = c
      simp [word, leNat]
  | cons b rest ih =>
      have hrest : rest.length < 4 := Nat.lt_of_succ_le h
      show zeros tab rest.length (step tab (c ^^^ word (b :: rest)) 0#32) =
        fold tab (step tab c (byteWord b)) rest
      rw [step_xor_zero, word_cons_low, word_cons_shift b hrest]
      exact ih (step tab c (byteWord b)) (by lia)

end Crc
end Hlk7621
