import Hlk7621.Lib.Bytes

/-!
# Number parsing of the boot loader

Model of `simple_strtoul` from `lib/strto.c` with an `unsigned long` of 32
bits.  A string argument is the list of its bytes in front of the terminating
NUL; the second result is the rest of the string at `*endp`.
-/

namespace Hlk7621
namespace UBoot

def decodeDigit (ch : UInt8) : Nat :=
  if 48 ≤ ch ∧ ch ≤ 57 then ch.toNat - 48
  else if 97 ≤ ch ∧ ch ≤ 102 then ch.toNat - 97 + 10
  else if 65 ≤ ch ∧ ch ≤ 70 then ch.toNat - 65 + 10
  else 256

/-- `_parse_integer_fixup_radix`: a `0x` prefix selects base 16 even when
another base was asked for. -/
def parseIntegerFixupRadix (s : Bytes) (base : Nat) : Bytes × Nat :=
  match s with
  | 48 :: ch :: rest =>
      if ch = 120 ∨ ch = 88 then (rest, 16)
      else (s, if base = 0 then 8 else base)
  | [48] => (s, if base = 0 then 8 else base)
  | _ => (s, if base = 0 then 10 else base)

def strtoulLoop (base : Nat) : Nat -> Bytes -> Nat × Bytes
  | result, [] => (result, [])
  | result, ch :: rest =>
      if decodeDigit ch < base then
        strtoulLoop base (u32 (result * base + decodeDigit ch)) rest
      else (result, ch :: rest)

def simpleStrtoul (cp : Bytes) (base : Nat) : Nat × Bytes :=
  let fixed := parseIntegerFixupRadix cp base
  strtoulLoop fixed.2 0 fixed.1

theorem strtoulLoop_lt {base : Nat} {result : Nat} (hr : result < 2 ^ 32)
    (s : Bytes) : (strtoulLoop base result s).1 < 2 ^ 32 := by
  induction s generalizing result with
  | nil => exact hr
  | cons ch rest ih =>
      rw [strtoulLoop]
      split
      · exact ih (u32_lt _)
      · exact hr

theorem simpleStrtoul_lt (cp : Bytes) (base : Nat) :
    (simpleStrtoul cp base).1 < 2 ^ 32 :=
  strtoulLoop_lt (by decide) _

/-- Reducing in every step or once at the end gives the same number. -/
theorem strtoulLoop_foldl {base : Nat} {s : Bytes}
    (hs : forall ch, ch ∈ s -> decodeDigit ch < base) (acc : Nat) :
    strtoulLoop base (u32 acc) s =
      (u32 (s.foldl (fun a ch => a * base + decodeDigit ch) acc), []) := by
  induction s generalizing acc with
  | nil => rfl
  | cons c rest ih =>
      have hstep : u32 (u32 acc * base + decodeDigit c) =
          u32 (acc * base + decodeDigit c) := by
        unfold u32
        rw [Nat.add_mod, Nat.mul_mod, Nat.mod_mod, <- Nat.mul_mod, <- Nat.add_mod]
      rw [strtoulLoop, if_pos (hs c (by simp)), hstep]
      exact ih (fun ch hch => hs ch (by simp [hch])) _

theorem strtoulLoop_zero {base : Nat} {s : Bytes}
    (hs : forall ch, ch ∈ s -> decodeDigit ch < base) :
    strtoulLoop base 0 s =
      (u32 (s.foldl (fun a ch => a * base + decodeDigit ch) 0), []) := by
  have hzero : u32 0 = 0 := u32_of_lt (by decide)
  have h := strtoulLoop_foldl hs 0
  rwa [hzero] at h

/-!
## Decimal numerals

On a string of decimal digits in base 10 the parser returns the number the
string denotes, as long as that number fits the 32-bit result.
-/

def IsDigit (ch : UInt8) : Prop := 48 ≤ ch ∧ ch ≤ 57

instance (ch : UInt8) : Decidable (IsDigit ch) :=
  inferInstanceAs (Decidable (48 ≤ ch ∧ ch ≤ 57))

def decimalStep (acc : Nat) (ch : UInt8) : Nat := acc * 10 + (ch.toNat - 48)

def decimalValue (s : Bytes) : Nat := s.foldl decimalStep 0

theorem decodeDigit_of_isDigit {ch : UInt8} (h : IsDigit ch) :
    decodeDigit ch = ch.toNat - 48 ∧ decodeDigit ch < 10 := by
  have hval : decodeDigit ch = ch.toNat - 48 := if_pos h
  have hhi : ch.toNat ≤ 57 := UInt8.le_iff_toNat_le.mp h.right
  rw [hval]
  exact ⟨rfl, by omega⟩

theorem parseIntegerFixupRadix_digits {s : Bytes}
    (hs : forall ch, ch ∈ s -> IsDigit ch) :
    parseIntegerFixupRadix s 10 = (s, 10) := by
  unfold parseIntegerFixupRadix
  split
  · rename_i ch rest
    have hch := hs ch (by simp)
    have hx : ¬ (ch = 120 ∨ ch = 88) := by
      rintro (rfl | rfl) <;> exact absurd hch (by decide)
    rw [if_neg hx]
    rfl
  · rfl
  · rfl

theorem decimalValue_eq_foldl {s : Bytes}
    (hs : forall ch, ch ∈ s -> IsDigit ch) :
    decimalValue s = s.foldl (fun a ch => a * 10 + decodeDigit ch) 0 := by
  unfold decimalValue
  generalize 0 = acc
  induction s generalizing acc with
  | nil => rfl
  | cons c rest ih =>
      rw [List.foldl_cons, List.foldl_cons, decimalStep,
        (decodeDigit_of_isDigit (hs c (by simp))).left]
      exact ih (fun ch hch => hs ch (by simp [hch])) _

theorem simpleStrtoul_digits {s : Bytes} (hs : forall ch, ch ∈ s -> IsDigit ch) :
    simpleStrtoul s 10 = (u32 (decimalValue s), []) := by
  have hbase : forall ch, ch ∈ s -> decodeDigit ch < 10 :=
    fun ch hch => (decodeDigit_of_isDigit (hs ch hch)).right
  unfold simpleStrtoul
  rw [parseIntegerFixupRadix_digits hs, decimalValue_eq_foldl hs]
  exact strtoulLoop_zero hbase

theorem simpleStrtoul_decimal {s : Bytes}
    (hs : forall ch, ch ∈ s -> IsDigit ch) (hlt : decimalValue s < 2 ^ 32) :
    simpleStrtoul s 10 = (decimalValue s, []) := by
  rw [simpleStrtoul_digits hs, u32_of_lt hlt]

/-!
## What is accepted

The callers take a number when the conversion moved past the start of the
string and stopped at its end.  In base 10 these are the decimal numerals, read
modulo `2 ^ 32`, and the numerals with a `0x` prefix, which may even be empty.
-/

def ReadsAs (s : Bytes) (n : Nat) : Prop :=
  (simpleStrtoul s 10).2.length ≠ s.length ∧ (simpleStrtoul s 10).2 = [] ∧
    (simpleStrtoul s 10).1 = n

def Decimal (s : Bytes) : Prop := s ≠ [] ∧ forall ch, ch ∈ s -> IsDigit ch

instance (s : Bytes) : Decidable (Decimal s) :=
  inferInstanceAs (Decidable (_ ∧ _))

def hexStep (acc : Nat) (ch : UInt8) : Nat := acc * 16 + decodeDigit ch

def hexValue (s : Bytes) : Nat := s.foldl hexStep 0

def Prefixed (s digits : Bytes) : Prop :=
  (s = 48 :: 120 :: digits ∨ s = 48 :: 88 :: digits) ∧
    forall ch, ch ∈ digits -> decodeDigit ch < 16

def MisreadAs (s : Bytes) (n : Nat) : Prop :=
  (Decimal s ∧ 2 ^ 32 ≤ decimalValue s ∧ n = u32 (decimalValue s)) ∨
    exists digits, Prefixed s digits ∧ n = u32 (hexValue digits)

theorem isDigit_of_decodeDigit {ch : UInt8} (h : decodeDigit ch < 10) :
    IsDigit ch := by
  unfold decodeDigit at h
  split at h
  · assumption
  · split at h
    · omega
    · split at h <;> omega

theorem digits_of_strtoulLoop {base acc : Nat} {s : Bytes}
    (h : (strtoulLoop base acc s).2 = []) :
    forall ch, ch ∈ s -> decodeDigit ch < base := by
  induction s generalizing acc with
  | nil => simp
  | cons c rest ih =>
      rw [strtoulLoop] at h
      split at h
      · rename_i hc
        intro ch hch
        rcases List.mem_cons.mp hch with rfl | hrest
        · exact hc
        · exact ih h ch hrest
      · cases h

theorem simpleStrtoul_prefixed {s digits : Bytes} (h : Prefixed s digits) :
    simpleStrtoul s 10 = (u32 (hexValue digits), []) := by
  have hfix : parseIntegerFixupRadix s 10 = (digits, 16) := by
    rcases h.left with rfl | rfl <;> rfl
  unfold simpleStrtoul
  rw [hfix]
  exact strtoulLoop_zero h.right

theorem readsAs_cases {s : Bytes} {n : Nat} (h : ReadsAs s n) :
    Decimal s ∨ exists digits, Prefixed s digits := by
  rcases h with ⟨hmoved, hend, -⟩
  have hne : s ≠ [] := by
    rintro rfl
    exact hmoved rfl
  have hplain : parseIntegerFixupRadix s 10 = (s, 10) -> Decimal s := by
    intro hfix
    unfold simpleStrtoul at hend
    rw [hfix] at hend
    exact ⟨hne, fun ch hch =>
      isDigit_of_decodeDigit (digits_of_strtoulLoop hend ch hch)⟩
  unfold simpleStrtoul at hend
  unfold parseIntegerFixupRadix at hend hplain
  split at hend
  · rename_i ch rest
    by_cases hx : ch = 120 ∨ ch = 88
    · rw [if_pos hx] at hend
      refine .inr ⟨rest, ?_, digits_of_strtoulLoop hend⟩
      rcases hx with rfl | rfl <;> simp
    · simp only [if_neg hx] at hplain
      exact .inl (hplain rfl)
  · exact .inl (hplain rfl)
  · rename_i h1 h2
    refine .inl (hplain ?_)
    split
    · exact absurd rfl (h1 _ _)
    · exact absurd rfl h2
    · rfl

theorem readsAs_iff (s : Bytes) (n : Nat) :
    ReadsAs s n <->
      (Decimal s ∧ decimalValue s = n ∧ n < 2 ^ 32) ∨ MisreadAs s n := by
  constructor
  · intro h
    rcases readsAs_cases h with hdec | ⟨digits, hpre⟩
    · have hn : u32 (decimalValue s) = n := by
        rw [<- h.right.right, simpleStrtoul_digits hdec.right]
      by_cases hlt : decimalValue s < 2 ^ 32
      · rw [u32_of_lt hlt] at hn
        exact .inl ⟨hdec, hn, hn ▸ hlt⟩
      · exact .inr (.inl ⟨hdec, by omega, hn.symm⟩)
    · refine .inr (.inr ⟨digits, hpre, ?_⟩)
      rw [<- h.right.right, simpleStrtoul_prefixed hpre]
  · have hdigits : Decimal s -> n = u32 (decimalValue s) -> ReadsAs s n := by
      intro hdec hn
      unfold ReadsAs
      rw [simpleStrtoul_digits hdec.right]
      exact ⟨fun hlen => hdec.left (List.length_eq_zero_iff.mp hlen.symm), rfl,
        hn.symm⟩
    rintro (⟨hdec, hval, hlt⟩ | ⟨hdec, -, hn⟩ | ⟨digits, hpre, hn⟩)
    · exact hdigits hdec (by rw [hval, u32_of_lt hlt])
    · exact hdigits hdec hn
    · unfold ReadsAs
      rw [simpleStrtoul_prefixed hpre]
      refine ⟨?_, rfl, hn.symm⟩
      rcases hpre.left with rfl | rfl <;> simp

theorem MisreadAs.not_denoted {s : Bytes} {n : Nat} (h : MisreadAs s n) :
    ¬ (Decimal s ∧ decimalValue s = n) := by
  rintro ⟨hdec, hval⟩
  rcases h with ⟨-, hbig, hn⟩ | ⟨digits, hpre, -⟩
  · have hlt := u32_lt (decimalValue s)
    omega
  · rcases hpre.left with rfl | rfl
    · exact absurd (hdec.right 120 (by simp)) (by decide)
    · exact absurd (hdec.right 88 (by simp)) (by decide)

end UBoot
end Hlk7621
