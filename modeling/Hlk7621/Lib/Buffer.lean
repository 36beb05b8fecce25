import Hlk7621.Lib.Bytes

/-!
# Buffers of C code

A buffer is the list of its bytes, and a pointer into it is an index.  The accesses of C
code are functions that give nothing if they leave the buffer.
-/

namespace Hlk7621
namespace Buffer

def load (mem : Bytes) (p : Nat) : Option UInt8 := mem[p]?

def read (mem : Bytes) (p n : Nat) : Option Bytes :=
  if p + n ≤ mem.length then some ((mem.drop p).take n) else none

def write (mem : Bytes) (p : Nat) (data : Bytes) : Option Bytes :=
  if p + data.length ≤ mem.length then
    some (mem.take p ++ (data ++ mem.drop (p + data.length)))
  else none

def store (mem : Bytes) (p : Nat) (c : UInt8) : Option Bytes := write mem p [c]

/-- `memmove(dst, src, n)` within the buffer. -/
def memmove (mem : Bytes) (dst src n : Nat) : Option Bytes :=
  match read mem src n with
  | none => none
  | some data => write mem dst data

def string (mem : Bytes) (p : Nat) : Option Bytes :=
  if 0 ∈ mem.drop p then some ((mem.drop p).takeWhile (· ≠ 0)) else none

def strlen (mem : Bytes) (p : Nat) : Option Nat := (string mem p).map List.length

/-- `strcpy(p, s)`, with the string `s` outside the buffer. -/
def strcpy (mem : Bytes) (p : Nat) (s : Bytes) : Option Bytes := write mem p (s ++ [0])

/-- `printf("%.*s", n, p)` looks at `n` bytes, or at the bytes up to a NUL. -/
def putnstr (mem : Bytes) (p n : Nat) : Option Unit :=
  if p + n ≤ mem.length ∨ 0 ∈ mem.drop p then some () else none

/-!
## Accesses between the parts of a buffer
-/

theorem load_at (front : Bytes) (c : UInt8) (rest : Bytes) :
    load (front ++ c :: rest) front.length = some c := by
  unfold load
  rw [List.getElem?_append_right (Nat.le_refl _), Nat.sub_self]
  rfl

theorem read_at (front data rest : Bytes) :
    read (front ++ (data ++ rest)) front.length data.length = some data := by
  unfold read
  rw [if_pos (by simp only [List.length_append]; lia), List.drop_left, List.take_left]

theorem write_at {old data : Bytes} (front rest : Bytes) (h : old.length = data.length) :
    write (front ++ (old ++ rest)) front.length data = some (front ++ (data ++ rest)) := by
  unfold write
  rw [if_pos (by simp only [List.length_append]; lia), List.take_left, <- h,
    <- List.drop_drop, List.drop_left, List.drop_left]

theorem store_at (front : Bytes) (old c : UInt8) (rest : Bytes) :
    store (front ++ old :: rest) front.length c = some (front ++ c :: rest) :=
  write_at front rest (show [old].length = [c].length from rfl)

theorem memmove_down (front gap data rest : Bytes) :
    exists rest', rest'.length = gap.length + rest.length ∧
      memmove (front ++ (gap ++ (data ++ rest))) front.length (front.length + gap.length)
        data.length = some (front ++ (data ++ rest')) := by
  have hread : read (front ++ (gap ++ (data ++ rest))) (front.length + gap.length) data.length =
      some data := by
    rw [<- List.append_assoc front, <- List.length_append, read_at]
  refine ⟨(gap ++ (data ++ rest)).drop data.length, ?_, ?_⟩
  · rw [List.length_drop, List.length_append, List.length_append]
    lia
  · unfold memmove
    rw [hread]
    have hold : ((gap ++ (data ++ rest)).take data.length).length = data.length := by
      rw [List.length_take, List.length_append, List.length_append]
      lia
    have hwrite := write_at front ((gap ++ (data ++ rest)).drop data.length) hold
    rw [List.take_append_drop] at hwrite
    exact hwrite

theorem memmove_up (front data : Bytes) (c : UInt8) (rest : Bytes) :
    exists c', memmove (front ++ (data ++ c :: rest)) (front.length + 1) front.length
      data.length = some (front ++ c' :: (data ++ rest)) := by
  have hread := read_at front data (c :: rest)
  rcases hshift : data ++ [c] with _ | ⟨c', old⟩
  · simp at hshift
  · have hold : old.length = data.length := by
      have hlength := congrArg List.length hshift
      simp only [List.length_append, List.length_cons, List.length_nil] at hlength
      lia
    have hmem : front ++ (data ++ c :: rest) = front ++ [c'] ++ (old ++ rest) := by
      rw [List.append_cons data, hshift, List.append_assoc]
      rfl
    have hwrite := write_at (front ++ [c']) rest hold
    rw [List.length_append, <- hmem, List.append_assoc] at hwrite
    refine ⟨c', ?_⟩
    unfold memmove
    rw [hread]
    exact hwrite

theorem string_at (front : Bytes) {s : Bytes} (hs : 0 ∉ s) (rest : Bytes) :
    string (front ++ (s ++ 0 :: rest)) front.length = some s := by
  have hbefore : forall c, c ∈ s -> decide (c ≠ 0) = true :=
    fun c hc => decide_eq_true fun h => hs (h ▸ hc)
  unfold string
  rw [List.drop_left, if_pos (List.mem_append_right _ List.mem_cons_self),
    List.takeWhile_append_of_pos hbefore]
  simp

theorem strlen_at (front : Bytes) {s : Bytes} (hs : 0 ∉ s) (rest : Bytes) :
    strlen (front ++ (s ++ 0 :: rest)) front.length = some s.length := by
  unfold strlen
  rw [string_at front hs]
  rfl

theorem putnstr_inside {mem : Bytes} {p n : Nat} (h : p + n ≤ mem.length) :
    putnstr mem p n = some () :=
  if_pos (Or.inl h)

theorem strcpy_front {mem s : Bytes} (h : s.length < mem.length) :
    exists rest, rest.length + (s.length + 1) = mem.length ∧
      strcpy mem 0 s = some (s ++ 0 :: rest) := by
  refine ⟨mem.drop (s.length + 1), by rw [List.length_drop]; lia, ?_⟩
  have hold : (mem.take (s.length + 1)).length = (s ++ [0]).length := by
    rw [List.length_take, List.length_append, List.length_singleton]
    lia
  have hwrite := write_at [] (mem.drop (s.length + 1)) hold
  rw [List.nil_append, List.take_append_drop, List.nil_append, List.append_assoc] at hwrite
  exact hwrite

end Buffer
end Hlk7621
