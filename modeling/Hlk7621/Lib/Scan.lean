import Hlk7621.Lib.Bytes

/-!
# Computations that read memory, with their footprint

A `Scan` is a computation over a 32-bit memory that returns a value together
with the address ranges it has read.  The structure carries the law that makes
the footprint meaningful: two memories that agree on the ranges read give the
same value and the same ranges.  Programs are built from `Scan.bytes` with
`pure` and `bind`, so the law never has to be proved for them again.
-/

namespace Hlk7621

/-- The address `a` belongs to the range of `r.2` bytes starting at `r.1`. -/
def Covers (r : Nat × Nat) (a : Nat) : Prop :=
  exists i, i < r.2 ∧ a = u32 (r.1 + i)

structure Scan (α : Type) where
  run : (Nat -> UInt8) -> α × List (Nat × Nat)
  /-- The result depends on the bytes of the ranges read, and on no others. -/
  determined : forall m m' : Nat -> UInt8,
    (forall r, r ∈ (run m).2 -> forall a, Covers r a -> m' a = m a) ->
      run m' = run m

namespace Scan

def val (x : Scan α) (m : Nat -> UInt8) : α := (x.run m).1

def reads (x : Scan α) (m : Nat -> UInt8) : List (Nat × Nat) := (x.run m).2

def bytes (addr len : Nat) : Scan Bytes where
  run m := (window (fun a => m (u32 a)) addr len, [(addr, len)])
  determined := by
    intro m m' h
    have hagree : window (fun a => m' (u32 a)) addr len =
        window (fun a => m (u32 a)) addr len := by
      apply window_congr
      intro a hlo hhi
      apply h (addr, len) (by simp)
      exact ⟨a - addr, by simp; lia, by simp; rw [Nat.add_sub_cancel' hlo]⟩
    rw [hagree]

protected def pure (v : α) : Scan α where
  run _ := (v, [])
  determined := by
    intro _ _ _
    rfl

protected def bind (x : Scan α) (f : α -> Scan β) : Scan β where
  run m :=
    ((f (x.run m).1).run m |>.1, (x.run m).2 ++ ((f (x.run m).1).run m).2)
  determined := by
    intro m m' h
    have hx : x.run m' = x.run m := by
      apply x.determined
      intro r hr a ha
      exact h r (List.mem_append_left _ hr) a ha
    have hf : (f (x.run m).1).run m' = (f (x.run m).1).run m := by
      apply (f (x.run m).1).determined
      intro r hr a ha
      exact h r (List.mem_append_right _ hr) a ha
    simp only [hx, hf]

instance : Monad Scan where
  pure := Scan.pure
  bind := Scan.bind

@[simp] theorem val_pure (v : α) (m : Nat -> UInt8) :
    (pure v : Scan α).val m = v := rfl

@[simp] theorem val_bind (x : Scan α) (f : α -> Scan β) (m : Nat -> UInt8) :
    (x >>= f).val m = (f (x.val m)).val m := rfl

@[simp] theorem val_bytes (addr len : Nat) (m : Nat -> UInt8) :
    (bytes addr len).val m = window (fun a => m (u32 a)) addr len := rfl

/-!
## Confinement of the footprint
-/

def Within (x : Scan α) (m : Nat -> UInt8) (S : Nat -> Prop) : Prop :=
  forall r, r ∈ x.reads m -> forall a, Covers r a -> S a

@[simp] theorem within_pure (v : α) (m : Nat -> UInt8) (S : Nat -> Prop) :
    (pure v : Scan α).Within m S := by
  intro r hr
  cases hr

@[simp] theorem within_bind (x : Scan α) (f : α -> Scan β)
    (m : Nat -> UInt8) (S : Nat -> Prop) :
    (x >>= f).Within m S <-> x.Within m S ∧ (f (x.val m)).Within m S := by
  constructor
  · intro h
    constructor
    · intro r hr
      exact h r (List.mem_append_left _ hr)
    · intro r hr
      exact h r (List.mem_append_right _ hr)
  · intro h r hr
    rcases List.mem_append.mp hr with hx | hf
    · exact h.left r hx
    · exact h.right r hf

theorem within_bytes (addr len : Nat) (m : Nat -> UInt8) (S : Nat -> Prop) :
    (bytes addr len).Within m S <->
      forall i, i < len -> S (u32 (addr + i)) := by
  constructor
  · intro h i hi
    exact h (addr, len) (by simp [reads, bytes]) _ ⟨i, hi, rfl⟩
  · intro h r hr a ha
    have hr' : r = (addr, len) := by simpa [reads, bytes] using hr
    subst hr'
    rcases ha with ⟨i, hi, rfl⟩
    exact h i hi

/-- A computation whose reads stay inside `S` is a function of the bytes in
`S`. -/
theorem val_eq_of_within {x : Scan α} {m m' : Nat -> UInt8}
    {S : Nat -> Prop} (hin : x.Within m S)
    (hagree : forall a, S a -> m' a = m a) : x.val m' = x.val m := by
  have hrun : x.run m' = x.run m := by
    apply x.determined
    intro r hr a ha
    exact hagree a (hin r hr a ha)
  show (x.run m').1 = (x.run m).1
  rw [hrun]

end Scan

end Hlk7621
