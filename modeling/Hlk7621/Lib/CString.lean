import Hlk7621.Lib.Bytes

/-!
# C strings

A string is the list of its bytes in front of the terminating NUL, and a pointer
into it is the rest of the string behind the pointer.  The searches of the C
library return such a rest, or nothing for the null pointer.
-/

namespace Hlk7621

/-- `strchr(s, c)` for a `c` other than NUL. -/
def strchr (c : UInt8) (s : Bytes) : Option Bytes :=
  match s.dropWhile (· ≠ c) with
  | [] => none
  | b :: rest => some (b :: rest)

def strstr (needle : Bytes) : Bytes -> Option Bytes
  | [] => if needle = [] then some [] else none
  | b :: rest => if needle <+: b :: rest then some (b :: rest) else strstr needle rest

/-- `strsep(&s, sep)` for one separator: the token and the new `s`. -/
def strsep (sep : UInt8) : Option Bytes -> Option Bytes × Option Bytes
  | none => (none, none)
  | some s =>
      match s.dropWhile (· ≠ sep) with
      | [] => (some s, none)
      | _ :: rest => (some (s.takeWhile (· ≠ sep)), some rest)

/-!
## Searching for a byte
-/

theorem dropWhile_ne_append {c : UInt8} {s : Bytes} (h : c ∉ s) (t : Bytes) :
    (s ++ t).dropWhile (· ≠ c) = t.dropWhile (· ≠ c) := by
  apply List.dropWhile_append_of_pos
  intro b hb
  exact decide_eq_true fun hbc : b = c => h (hbc ▸ hb)

theorem strchr_append {c : UInt8} {s : Bytes} (h : c ∉ s) (t : Bytes) :
    strchr c (s ++ t) = strchr c t := by
  unfold strchr
  rw [dropWhile_ne_append h]

theorem strchr_cons_self (c : UInt8) (t : Bytes) : strchr c (c :: t) = some (c :: t) := by
  simp [strchr]

theorem strchr_eq_none {c : UInt8} {s : Bytes} (h : c ∉ s) : strchr c s = none := by
  have hs := strchr_append h []
  rw [List.append_nil] at hs
  exact hs

theorem first_split {c : UInt8} {s : Bytes} (h : c ∈ s) :
    exists front rest, s = front ++ c :: rest ∧ c ∉ front := by
  induction s with
  | nil => cases h
  | cons b s ih =>
      by_cases hbc : c = b
      · exact ⟨[], s, by rw [hbc]; rfl, List.not_mem_nil⟩
      · rcases ih ((List.mem_cons.mp h).resolve_left hbc) with ⟨front, rest, hs, hfront⟩
        refine ⟨b :: front, rest, by rw [hs]; rfl, ?_⟩
        rw [List.mem_cons, not_or]
        exact ⟨hbc, hfront⟩

theorem strchr_isSome_iff (c : UInt8) (s : Bytes) : (strchr c s).isSome <-> c ∈ s := by
  constructor
  · intro h
    by_contra hc
    rw [strchr_eq_none hc] at h
    cases h
  · intro h
    rcases first_split h with ⟨front, rest, hs, hfront⟩
    rw [hs, strchr_append hfront, strchr_cons_self]
    rfl

/-!
## Searching for a string
-/

theorem strstr_skip {needle rest : Bytes} {b : UInt8} (h : ¬ needle <+: b :: rest) :
    strstr needle (b :: rest) = strstr needle rest := by
  rw [strstr, if_neg h]

theorem strstr_prefix {needle s : Bytes} (h : needle <+: s) : strstr needle s = some s := by
  cases s with
  | nil =>
      rw [strstr, if_pos (List.prefix_nil.mp h)]
  | cons b rest => rw [strstr, if_pos h]

theorem strstr_isSome_iff (needle s : Bytes) : (strstr needle s).isSome <-> needle <:+: s := by
  induction s with
  | nil =>
      rw [strstr, List.infix_nil]
      by_cases h : needle = []
      · rw [if_pos h]
        exact iff_of_true rfl h
      · rw [if_neg h]
        exact iff_of_false Bool.false_ne_true h
  | cons b rest ih =>
      rw [List.infix_cons_iff]
      by_cases h : needle <+: b :: rest
      · rw [strstr, if_pos h]
        exact iff_of_true rfl (Or.inl h)
      · rw [strstr_skip h, ih]
        exact (or_iff_right h).symm

/-!
## Splitting
-/

theorem strsep_of_not_mem {sep : UInt8} {s : Bytes} (h : sep ∉ s) :
    strsep sep (some s) = (some s, none) := by
  have hdrop := dropWhile_ne_append h []
  rw [List.append_nil] at hdrop
  unfold strsep
  dsimp only
  rw [hdrop]
  rfl

theorem strsep_append {sep : UInt8} {s : Bytes} (h : sep ∉ s) (rest : Bytes) :
    strsep sep (some (s ++ sep :: rest)) = (some s, some rest) := by
  have htake : (s ++ sep :: rest).takeWhile (· ≠ sep) = s := by
    rw [List.takeWhile_append_of_pos]
    · simp
    · intro b hb
      exact decide_eq_true fun hbc : b = sep => h (hbc ▸ hb)
  unfold strsep
  dsimp only
  rw [dropWhile_ne_append h, List.dropWhile_cons_of_neg (by simp)]
  dsimp only
  rw [htake]

end Hlk7621
