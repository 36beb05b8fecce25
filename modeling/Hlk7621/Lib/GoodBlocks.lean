import Hlk7621.Lib.Bytes

/-!
# Blocks with bad ones among them

A range of blocks of which some are bad is used by skipping the bad ones.  `pick`
takes the first good blocks; it fails if there are too few of them or if the status
of a block cannot be read.  What is scattered over them is gathered again.
-/

namespace Hlk7621
namespace GoodBlocks

variable (size : Nat) (status : Nat -> Option Bool)

/-- The first `need` good ones of `n` blocks from `start` on; `some true` is the
status of a bad block. -/
def pick : Nat -> Nat -> Nat -> Option (List Nat)
  | _, _, 0 => some []
  | 0, _, _ + 1 => none
  | n + 1, start, need + 1 =>
      match status start with
      | none => none
      | some true => pick n (start + size) (need + 1)
      | some false => (pick n (start + size) need).map (start :: ·)

def good : Nat -> Nat -> List Nat
  | 0, _ => []
  | n + 1, start =>
      if status start = some false then start :: good n (start + size)
      else good n (start + size)

def gather (mem : Nat -> UInt8) (blocks : List Nat) : Bytes :=
  blocks.flatMap fun b => window mem b size

def scatter (data : Nat -> UInt8) : List Nat -> Nat -> (Nat -> UInt8) -> Nat -> UInt8
  | [], _, mem => mem
  | b :: blocks, pos, mem =>
      scatter data blocks (pos + size) (overwrite mem b (window data pos size))

section

variable {size : Nat} {status : Nat -> Option Bool} {n start need : Nat} {blocks : List Nat}

@[simp] theorem pick_zero (n start : Nat) : pick size status n start 0 = some [] := by
  cases n <;> rfl

theorem pick_length (h : pick size status n start need = some blocks) :
    blocks.length = need := by
  induction n generalizing start need blocks with
  | zero =>
      cases need with
      | zero => cases h; rfl
      | succ need => cases h
  | succ n ih =>
      cases need with
      | zero => cases h; rfl
      | succ need =>
          unfold pick at h
          cases hstatus : status start with
          | none => rw [hstatus] at h; cases h
          | some bad =>
              rw [hstatus] at h
              cases bad with
              | true => exact ih h
              | false =>
                  rcases Option.map_eq_some_iff.mp h with ⟨rest, hrest, rfl⟩
                  rw [List.length_cons, ih hrest]

theorem pick_mem (h : pick size status n start need = some blocks) {b : Nat}
    (hb : b ∈ blocks) : start ≤ b ∧ b + size ≤ start + n * size ∧ size ∣ b - start ∧
      status b = some false := by
  induction n generalizing start need blocks with
  | zero =>
      cases need with
      | zero => cases h; cases hb
      | succ need => cases h
  | succ n ih =>
      have hstep : forall {need blocks}, pick size status n (start + size) need = some blocks ->
          b ∈ blocks -> start ≤ b ∧ b + size ≤ start + (n + 1) * size ∧ size ∣ b - start ∧
            status b = some false := by
        intro need blocks hrest hb
        rcases ih hrest hb with ⟨hge, hle, hdvd, hgood⟩
        have hmul := Nat.succ_mul n size
        refine ⟨by lia, by lia, ?_, hgood⟩
        have hsplit : b - start = b - (start + size) + size := by lia
        rw [hsplit]
        exact Nat.dvd_add hdvd (Nat.dvd_refl size)
      cases need with
      | zero => cases h; cases hb
      | succ need =>
          unfold pick at h
          cases hstatus : status start with
          | none => rw [hstatus] at h; cases h
          | some bad =>
              rw [hstatus] at h
              cases bad with
              | true => exact hstep h hb
              | false =>
                  rcases Option.map_eq_some_iff.mp h with ⟨rest, hrest, rfl⟩
                  rcases List.mem_cons.mp hb with rfl | hb
                  · have hmul := Nat.succ_mul n size
                    refine ⟨Nat.le_refl _, by lia, ?_, hstatus⟩
                    rw [Nat.sub_self]
                    exact Nat.dvd_zero size
                  · exact hstep hrest hb

theorem pick_enough (h : pick size status n start need = some blocks) :
    need ≤ (good size status n start).length := by
  induction n generalizing start need blocks with
  | zero =>
      cases need with
      | zero => exact Nat.zero_le _
      | succ need => cases h
  | succ n ih =>
      cases need with
      | zero => exact Nat.zero_le _
      | succ need =>
          unfold pick at h
          unfold good
          cases hstatus : status start with
          | none => rw [hstatus] at h; cases h
          | some bad =>
              rw [hstatus] at h
              cases bad with
              | true =>
                  rw [if_neg (by simp)]
                  exact ih h
              | false =>
                  rcases Option.map_eq_some_iff.mp h with ⟨rest, hrest, rfl⟩
                  rw [if_pos rfl, List.length_cons]
                  exact Nat.succ_le_succ (ih hrest)

theorem pick_above (h : pick size status n (start + size) need = some blocks) {b : Nat}
    (hb : b ∈ blocks) : start + size ≤ b :=
  (pick_mem h hb).left

theorem gather_cons (mem : Nat -> UInt8) (b : Nat) (blocks : List Nat) :
    gather size mem (b :: blocks) = window mem b size ++ gather size mem blocks :=
  List.flatMap_cons

theorem gather_length (mem : Nat -> UInt8) (blocks : List Nat) :
    (gather size mem blocks).length = blocks.length * size := by
  induction blocks with
  | nil => simp [gather]
  | cons b blocks ih =>
      rw [gather_cons, List.length_append, ih, window_length,
        List.length_cons, Nat.succ_mul, Nat.add_comm]

theorem scatter_outside {data mem : Nat -> UInt8} {blocks : List Nat} {pos a : Nat}
    (h : forall b, b ∈ blocks -> a < b ∨ b + size ≤ a) :
    scatter size data blocks pos mem a = mem a := by
  induction blocks generalizing pos mem with
  | nil => rfl
  | cons b blocks ih =>
      rw [scatter, ih fun x hx => h x (List.mem_cons_of_mem _ hx)]
      rcases h b List.mem_cons_self with hlt | hge
      · exact overwrite_of_lt hlt
      · exact overwrite_of_ge (by rwa [window_length])

theorem gather_scatter (data : Nat -> UInt8) {mem : Nat -> UInt8} {pos : Nat}
    (h : pick size status n start need = some blocks) :
    gather size (scatter size data blocks pos mem) blocks =
      window data pos (need * size) := by
  induction n generalizing start need blocks pos mem with
  | zero =>
      cases need with
      | zero => cases h; simp [gather]
      | succ need => cases h
  | succ n ih =>
      cases need with
      | zero => cases h; simp [gather]
      | succ need =>
          unfold pick at h
          cases hstatus : status start with
          | none => rw [hstatus] at h; cases h
          | some bad =>
              rw [hstatus] at h
              cases bad with
              | true => exact ih h
              | false =>
                  rcases Option.map_eq_some_iff.mp h with ⟨rest, hrest, rfl⟩
                  have hfirst : window (scatter size data (start :: rest) pos mem) start size =
                      window data pos size := by
                    have hself := window_overwrite_self mem start (window data pos size)
                    rw [window_length] at hself
                    rw [<- hself, scatter]
                    refine window_congr fun a _ hlt => scatter_outside fun b hb => Or.inl ?_
                    exact Nat.lt_of_lt_of_le hlt (pick_above hrest hb)
                  have hrec := @ih (start + size) need rest
                    (overwrite mem start (window data pos size)) (pos + size) hrest
                  have hcount : (need + 1) * size = size + need * size := by
                    rw [Nat.succ_mul, Nat.add_comm]
                  rw [gather_cons, hfirst, hcount, window_append]
                  exact congrArg (window data pos size ++ ·) hrec

end

end GoodBlocks
end Hlk7621
