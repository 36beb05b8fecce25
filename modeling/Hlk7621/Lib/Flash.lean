import Hlk7621.Lib.Bytes

/-!
# Flash memory

An erase sets the bytes of a range, and programming can only clear bits.  What is
programmed behind an erase is the data itself.
-/

namespace Hlk7621
namespace Flash

def erase (mem : Nat -> UInt8) (off len : Nat) (a : Nat) : UInt8 :=
  if off ≤ a ∧ a < off + len then 0xff else mem a

def program (mem : Nat -> UInt8) (off : Nat) (data : Bytes) (a : Nat) : UInt8 :=
  if off ≤ a ∧ a < off + data.length then mem a &&& data.getD (a - off) 0 else mem a

/-- The memory after programming `data` at `a` in a page of `pageSize` bytes: what would lie
behind the page goes to its front. -/
def programPage (mem : Nat -> UInt8) (pageSize a : Nat) (data : Bytes) (x : Nat) : UInt8 :=
  let i := (x + (pageSize - a % pageSize)) % pageSize
  if x / pageSize = a / pageSize ∧ i < data.length then mem x &&& data.getD i 0 else mem x

section

variable {mem : Nat -> UInt8} {off len a : Nat} {data : Bytes}

theorem erase_inside (h : off ≤ a) (hlt : a < off + len) : erase mem off len a = 0xff :=
  if_pos ⟨h, hlt⟩

theorem erase_outside (h : a < off ∨ off + len ≤ a) : erase mem off len a = mem a :=
  if_neg (by lia)

theorem program_outside (h : a < off ∨ off + data.length ≤ a) :
    program mem off data a = mem a :=
  if_neg (by lia)

theorem ones_and (c : UInt8) : 0xff &&& c = c := by
  rw [<- UInt8.toBitVec_inj]
  exact BitVec.allOnes_and

theorem program_erased (h : forall a, off ≤ a -> a < off + data.length -> mem a = 0xff) :
    program mem off data = overwrite mem off data := by
  funext a
  unfold program overwrite
  by_cases hin : off ≤ a ∧ a < off + data.length
  · rw [if_pos hin, if_pos hin, h a hin.left hin.right, ones_and]
  · rw [if_neg hin, if_neg hin]

@[simp] theorem program_nil (mem : Nat -> UInt8) (off : Nat) : program mem off [] = mem := by
  funext a
  exact program_outside (by simp; lia)

theorem program_append (mem : Nat -> UInt8) (off : Nat) (xs ys : Bytes) :
    program (program mem off xs) (off + xs.length) ys = program mem off (xs ++ ys) := by
  funext a
  by_cases hxs : off ≤ a ∧ a < off + xs.length
  · rw [program_outside (by lia)]
    unfold program
    rw [if_pos hxs, if_pos (by rw [List.length_append]; lia),
      List.getD_append _ _ _ _ (by lia)]
  · by_cases hys : off + xs.length ≤ a ∧ a < off + xs.length + ys.length
    · unfold program
      rw [if_pos hys, if_neg hxs, if_pos (by rw [List.length_append]; lia),
        List.getD_append_right _ _ _ _ (by lia), Nat.sub_sub]
    · rw [program_outside (by lia), program_outside (by lia),
        program_outside (by rw [List.length_append]; lia)]

@[simp] theorem erase_zero (mem : Nat -> UInt8) (off : Nat) : erase mem off 0 = mem := by
  funext a
  exact erase_outside (by lia)

theorem erase_append (mem : Nat -> UInt8) (off m n : Nat) :
    erase (erase mem off m) (off + m) n = erase mem off (m + n) := by
  funext a
  unfold erase
  by_cases hm : off ≤ a ∧ a < off + m
  · rw [if_pos hm, ite_self, if_pos (by lia)]
  · rw [if_neg hm]
    by_cases hn : off + m ≤ a ∧ a < off + m + n
    · rw [if_pos hn, if_pos (by lia)]
    · rw [if_neg hn, if_neg (by lia)]

/-- Data that fits into the rest of its page does not wrap. -/
theorem programPage_fit {pageSize : Nat} (h : off % pageSize + data.length ≤ pageSize) :
    programPage mem pageSize off data = program mem off data := by
  funext x
  have hoff := Nat.div_add_mod off pageSize
  unfold programPage program
  dsimp only
  by_cases hin : off ≤ x ∧ x < off + data.length
  · have hpos : 0 < pageSize := by lia
    have hdiv : x / pageSize = off / pageSize := by
      apply Nat.div_eq_of_lt_le
      · rw [Nat.mul_comm]
        lia
      · rw [Nat.succ_mul, Nat.mul_comm]
        lia
    have hi : (x + (pageSize - off % pageSize)) % pageSize = x - off := by
      have hsum : x + (pageSize - off % pageSize) =
          (x - off) + pageSize * (off / pageSize + 1) := by
        rw [Nat.mul_add]
        lia
      rw [hsum, Nat.add_mul_mod_self_left, Nat.mod_eq_of_lt (by lia)]
    rw [hi, if_pos ⟨hdiv, by lia⟩, if_pos hin]
  · rw [if_neg hin]
    apply if_neg
    rintro ⟨hdiv, hi⟩
    have hpos : 0 < pageSize := by
      rcases Nat.eq_zero_or_pos pageSize with hz | hpos
      · rw [hz] at h hi
        simp at h hi
        lia
      · exact hpos
    have hx := Nat.div_add_mod x pageSize
    have hr := Nat.mod_lt x hpos
    rw [hdiv] at hx
    -- the place in the page decides whether the index has wrapped
    by_cases hlow : x < off
    · have hsmall : x + (pageSize - off % pageSize) =
          pageSize * (off / pageSize) + (x % pageSize + (pageSize - off % pageSize)) := by lia
      rw [hsmall, Nat.mul_add_mod, Nat.mod_eq_of_lt (by lia)] at hi
      lia
    · have hsum : x + (pageSize - off % pageSize) =
          (x - off) + pageSize * (off / pageSize + 1) := by
        rw [Nat.mul_add]
        lia
      rw [hsum, Nat.add_mul_mod_self_left, Nat.mod_eq_of_lt (by lia)] at hi
      lia

end

end Flash
end Hlk7621
