import Hlk7621.Lib.Masks

/-!
# The functions of `ipv4.sh`

The part of the shell library that reads and prints addresses and masks.  The numbers are
those of 64-bit shell arithmetic, which none of these functions leaves.
-/

namespace Hlk7621
namespace Shell

def uintMax : Nat := 4294967295

/-- `$((n + 0))` on digits, which are octal behind a leading zero. -/
def arithmetic (n : List Char) : Nat :=
  if n.head? = some '0' then Nat.ofDigitChars 8 n 0 else Nat.ofDigitChars 10 n 0

/-- The number, if the text is the decimal notation of one below `2^32`. -/
def assertUint32 (n : List Char) : Option Nat :=
  if n = [] ∨ n.all Char.isDigit = false then none
  else if uintMax < Nat.ofDigitChars 10 n 0 then none
  else if Nat.toDigits 10 (arithmetic n) ≠ n then none
  else some (arithmetic n)

def bitcount (c : Nat) : Nat :=
  let c := ((c >>> 1) &&& 0x55555555) + (c &&& 0x55555555)
  let c := ((c >>> 2) &&& 0x33333333) + (c &&& 0x33333333)
  let c := ((c >>> 4) &&& 0x0f0f0f0f) + (c &&& 0x0f0f0f0f)
  let c := ((c >>> 8) &&& 0x00ff00ff) + (c &&& 0x00ff00ff)
  ((c >>> 16) &&& 0x0000ffff) + (c &&& 0x0000ffff)

/-!
## Dotted quads
-/

def digit (c : Char) : Nat := c.toNat - '0'.toNat

def between (lo hi c : Char) : Bool := lo.toNat ≤ c.toNat && c.toNat ≤ hi.toNat

/-- The patterns `[0-9]`, `[1-9][0-9]` and `1[0-9][0-9]|2[0-4][0-9]|25[0-5]`. -/
def octet : List Char -> Option Nat
  | [a] => if between '0' '9' a then some (digit a) else none
  | [a, b] =>
      if between '1' '9' a && between '0' '9' b then some (digit a * 10 + digit b) else none
  | [a, b, c] =>
      if a = '1' && between '0' '9' b && between '0' '9' c ||
          a = '2' && between '0' '4' b && between '0' '9' c ||
          a = '2' && b = '5' && between '0' '5' c then
        some (digit a * 100 + digit b * 10 + digit c)
      else none
  | _ => none

def dottedOctet : List Char -> Option (Nat × List Char)
  | a :: '.' :: rest => (octet [a]).map fun n => (n, rest)
  | a :: b :: '.' :: rest => (octet [a, b]).map fun n => (n, rest)
  | a :: b :: c :: '.' :: rest => (octet [a, b, c]).map fun n => (n, rest)
  | _ => none

def str2Ip (ip : List Char) : Option Nat := do
  let (n, ip) <- dottedOctet ip
  let val := n <<< 24
  let (n, ip) <- dottedOctet ip
  let val := val + (n <<< 16)
  let (n, ip) <- dottedOctet ip
  let val := val + (n <<< 8)
  let n <- octet ip
  some (val + n)

def ip2Str (n : Nat) : List Char :=
  Nat.toDigits 10 (n >>> 24) ++ '.' :: (Nat.toDigits 10 ((n >>> 16) &&& 255) ++
    '.' :: (Nat.toDigits 10 ((n >>> 8) &&& 255) ++ '.' :: Nat.toDigits 10 (n &&& 255)))

/-!
## Prefixes and netmasks
-/

/-- `~x & uint_max` on 64 bits. -/
def complement (x : Nat) : Nat :=
  (~~~ BitVec.ofNat 64 x &&& BitVec.ofNat 64 uintMax).toNat

def prefix2Netmask (n : Nat) : Option Nat :=
  if 32 < n then none else some (complement (uintMax >>> n))

def isContiguous (x : Nat) : Bool :=
  let y := complement x
  let z := (y + 1) &&& uintMax
  z &&& y == 0

def netmask2Prefix (n : Nat) : Option Nat :=
  if uintMax < n then none else if isContiguous n then some (bitcount n) else none

/-!
## Numbers
-/

theorem toDigits_head_zero {n : Nat} (h : (Nat.toDigits 10 n).head? = some '0') : n = 0 := by
  induction n using Nat.strong_induction_on with
  | _ n ih =>
      by_cases hlt : n < 10
      · have hall : forall m : Fin 10, (Nat.toDigits 10 m).head? = some '0' -> m.val = 0 := by
          decide
        exact hall ⟨n, hlt⟩ h
      · have hsplit := Nat.toDigits_of_base_le (by decide : 1 < 10) (Nat.le_of_not_lt hlt)
        have hhead : (Nat.toDigits 10 (n / 10)).head? = some '0' := by
          rw [hsplit, List.head?_append] at h
          rcases hd : Nat.toDigits 10 (n / 10) with _ | ⟨c, cs⟩
          · exact absurd hd Nat.toDigits_ne_nil
          · rw [hd] at h
            exact h
        have hzero := ih (n / 10) (by lia) hhead
        lia

theorem arithmetic_toDigits (n : Nat) : arithmetic (Nat.toDigits 10 n) = n := by
  rw [arithmetic]
  split
  · rename_i hhead
    rw [toDigits_head_zero hhead]
    decide
  · exact Nat.ofDigitChars_ten_toDigits

theorem assertUint32_toDigits {n : Nat} (hn : n < 2 ^ 32) :
    assertUint32 (Nat.toDigits 10 n) = some n := by
  have hdigits : (Nat.toDigits 10 n).all Char.isDigit = true := by
    rw [List.all_eq_true]
    intro c hc
    exact Nat.isDigit_of_mem_toDigits (by decide) (by decide) hc
  have hsmall : ¬ uintMax < n := by
    unfold uintMax
    lia
  rw [assertUint32, arithmetic_toDigits, Nat.ofDigitChars_ten_toDigits, hdigits, if_neg hsmall,
    if_neg (not_not_intro rfl)]
  exact if_neg (fun h => h.elim Nat.toDigits_ne_nil (nomatch ·))

/-!
## Addresses
-/

theorem octet_toDigits {n : Nat} (hn : n < 256) : octet (Nat.toDigits 10 n) = some n := by
  have hall : forall m : Fin 256, octet (Nat.toDigits 10 m) = some m.val := by decide +kernel
  exact hall ⟨n, hn⟩

theorem dottedOctet_append {text : List Char} {n : Nat} (h : octet text = some n)
    (rest : List Char) : dottedOctet (text ++ '.' :: rest) = some (n, rest) := by
  have hdot : forall hi, between '0' hi '.' = false := fun _ => rfl
  match text, h with
  | [a], h =>
      rw [List.singleton_append, dottedOctet, h]
      rfl
  | [a, b], h =>
      have hb : b ≠ '.' := by
        rintro rfl
        rw [octet, hdot, Bool.and_false] at h
        cases h
      rw [List.cons_append, List.singleton_append, dottedOctet, h]
      · rfl
      · exact fun hb' => absurd hb' hb
  | [a, b, c], h =>
      have hb : b ≠ '.' := by
        rintro rfl
        rw [octet, hdot, hdot] at h
        simp at h
      have hc : c ≠ '.' := by
        rintro rfl
        rw [octet, hdot, hdot] at h
        simp at h
      rw [List.cons_append, List.cons_append, List.singleton_append, dottedOctet, h]
      · rfl
      · exact fun hb' => absurd hb' hb
      · exact fun hc' => absurd hc' hc

theorem str2Ip_ip2Str {n : Nat} (hn : n < 2 ^ 32) : str2Ip (ip2Str n) = some n := by
  have hlow : forall m : Nat, m &&& 255 = m % 256 := fun m => Masks.and_low m 8
  have hbyte : forall m : Nat, m &&& 255 < 256 := by
    intro m
    rw [hlow]
    exact Nat.mod_lt m (by decide)
  have hhigh : n >>> 24 < 256 := by
    rw [Nat.shiftRight_eq_div_pow]
    lia
  rw [str2Ip, ip2Str, dottedOctet_append (octet_toDigits hhigh)]
  dsimp only [Option.bind_eq_bind, Option.bind_some]
  rw [dottedOctet_append (octet_toDigits (hbyte _))]
  dsimp only [Option.bind_some]
  rw [dottedOctet_append (octet_toDigits (hbyte _))]
  dsimp only [Option.bind_some]
  rw [octet_toDigits (hbyte _)]
  dsimp only [Option.bind_some]
  rw [hlow, hlow, hlow]
  simp only [Nat.shiftRight_eq_div_pow, Nat.shiftLeft_eq]
  congr 1
  lia

/-!
## Masks
-/

theorem prefix2Netmask_eq {n : Nat} (hn : n ≤ 32) :
    prefix2Netmask n = some (2 ^ 32 - 2 ^ (32 - n)) := by
  have hall : forall m : Fin 33, prefix2Netmask m = some (2 ^ 32 - 2 ^ (32 - m.val)) := by
    decide +kernel
  exact hall ⟨n, Nat.lt_succ_of_le hn⟩

theorem netmask2Prefix_eq {n : Nat} (hn : n ≤ 32) :
    netmask2Prefix (2 ^ 32 - 2 ^ (32 - n)) = some n := by
  have hall : forall m : Fin 33, netmask2Prefix (2 ^ 32 - 2 ^ (32 - m.val)) = some m.val := by
    decide +kernel
  exact hall ⟨n, Nat.lt_succ_of_le hn⟩

end Shell
end Hlk7621
