import Hlk7621.Lib.Bytes

/-!
# IPv4 address parsing of lwIP

Model of `ip4addr_aton` and `ip4_addr_netmask_valid` from
`core/ipv4/ip4_addr.c`.  Addresses are kept in host order: the source converts
to network order at the end of the first function and back at the start of the
second.
-/

namespace Hlk7621
namespace Lwip

def isDigit (c : UInt8) : Bool := 48 ≤ c && c ≤ 57

def isLowerHex (c : UInt8) : Bool := 97 ≤ c && c ≤ 102

def isUpperHex (c : UInt8) : Bool := 65 ≤ c && c ≤ 70

def isSpace (c : UInt8) : Bool :=
  c == 32 || c == 12 || c == 10 || c == 13 || c == 9 || c == 11

/-- The digits of one number: `0x` has selected base 16 and `0` base 8. -/
def ip4Digits (base : Nat) : Nat -> Bytes -> Nat × Bytes
  | val, [] => (val, [])
  | val, c :: rest =>
      if isDigit c then
        if base = 8 ∧ 8 ≤ c.toNat - 48 then (val, c :: rest)
        else ip4Digits base (u32 (val * base + (c.toNat - 48))) rest
      else if base = 16 ∧ isLowerHex c then
        ip4Digits base (u32 (val * 16 + (c.toNat + 10 - 97))) rest
      else if base = 16 ∧ isUpperHex c then
        ip4Digits base (u32 (val * 16 + (c.toNat + 10 - 65))) rest
      else (val, c :: rest)

def ip4Number : Bytes -> Option (Nat × Bytes)
  | [] => none
  | 48 :: 120 :: rest => some (ip4Digits 16 0 rest)
  | 48 :: 88 :: rest => some (ip4Digits 16 0 rest)
  | 48 :: rest => some (ip4Digits 8 0 rest)
  | c :: rest =>
      if isDigit c then some (ip4Digits 10 0 (c :: rest)) else none

/-- The dotted parts; `room` counts the parts that may still be stored. -/
def ip4Parts : Nat -> List Nat -> Bytes -> Option (List Nat × Nat × Bytes)
  | room, parts, s =>
      match ip4Number s with
      | none => none
      | some (val, 46 :: rest) =>
          match room with
          | 0 => none
          | room + 1 => ip4Parts room (parts ++ [val]) rest
      | some (val, rest) => some (parts, val, rest)

def ip4addrAton (cp : Bytes) : Option Nat :=
  match ip4Parts 3 [] cp with
  | none => none
  | some (parts, val, rest) =>
      if rest.head?.any (fun c => !isSpace c) then none
      else
        match parts with
        | [] => some val
        | [a] =>
            if val > 0xffffff ∨ a > 0xff then none
            else some (val ||| (a <<< 24))
        | [a, b] =>
            if val > 0xffff ∨ a > 0xff ∨ b > 0xff then none
            else some (val ||| (a <<< 24 ||| b <<< 16))
        | [a, b, c] =>
            if val > 0xff ∨ a > 0xff ∨ b > 0xff ∨ c > 0xff then none
            else some (val ||| (a <<< 24 ||| b <<< 16 ||| c <<< 8))
        | _ => none

def ip4AddrNetmaskValid (netmask : Nat) : Bool :=
  let bits := (List.range 32).map fun i => netmask.testBit (31 - i)
  (bits.dropWhile id).all fun b => !b

end Lwip
end Hlk7621
