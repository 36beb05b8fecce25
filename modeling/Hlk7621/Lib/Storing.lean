import Hlk7621.Lib.Bytes

/-!
# Storing a string piece by piece

A receiver that appends each piece behind the last one holds the front of the string at
its base address, and the memory around it is what it was.
-/

namespace Hlk7621

variable {file src : Bytes} {n : Nat}

theorem take_add_front (hsrc : src <+: file.drop n) :
    file.take (n + src.length) = file.take n ++ src := by
  rw [List.take_add]
  exact congrArg _ (List.prefix_iff_eq_take.mp hsrc).symm

theorem length_le_of_prefix_drop (hsrc : src <+: file.drop n) :
    src.length ≤ file.length - n := by
  have := hsrc.length_le
  rwa [List.length_drop] at this

theorem overwrite_front (mem : Nat -> UInt8) (base : Nat) (hn : n ≤ file.length)
    (hsrc : src <+: file.drop n) :
    overwrite (overwrite mem base (file.take n)) (base + n) src =
      overwrite mem base (file.take (n + src.length)) := by
  have hlen : (file.take n).length = n := by
    rw [List.length_take, Nat.min_eq_left hn]
  rw [take_add_front hsrc, <- overwrite_append, hlen]

theorem prefix_drop_append {rest : Bytes} (h : src ++ rest <+: file.drop n) :
    rest <+: file.drop (n + src.length) := by
  rcases h with ⟨t, ht⟩
  refine ⟨t, ?_⟩
  rw [<- List.drop_drop, <- ht, List.append_assoc, List.drop_left]

end Hlk7621
