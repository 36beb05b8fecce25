import Hlk7621.UBoot.Strto
import Hlk7621.Webflash.Types

/-!
# Request headers

Recognition of the request line and extraction of header fields.  The header
block is kept as received; the C string functions see it up to the first NUL.
-/

namespace Hlk7621
namespace Webflash

def CRLF : Bytes := [13, 10]

def cstr (buf : Bytes) : Bytes := buf.takeWhile fun b => b ≠ 0

def pathIs (header : Bytes) (method path : String) : Bool :=
  let m := str method
  let p := str path
  decide (header.length > m.length + p.length + 2) &&
    header.take m.length == m &&
    header[m.length]? == some 32 &&
    (header.drop (m.length + 1)).take p.length == p &&
    header[m.length + p.length + 1]? == some 32

def splitCrlf : Bytes -> Option (Bytes × Bytes)
  | [] => none
  | [_] => none
  | a :: b :: rest =>
      if a = 13 ∧ b = 10 then some ([], rest)
      else (splitCrlf (b :: rest)).map fun r => (a :: r.1, r.2)

def toLower (c : UInt8) : UInt8 := if 65 ≤ c ∧ c ≤ 90 then c + 32 else c

/-- The line is a field called `name`, in any letter case. -/
def fieldIs (line name : Bytes) : Bool :=
  let key := line.takeWhile fun b => b ≠ 58
  key.length < line.length && key.map toLower == name.map toLower

def fieldValue (line name : Bytes) : Bytes :=
  (line.drop (name.length + 1)).dropWhile fun b => b = 32 ∨ b = 9

/-- The loop over the lines after the request line.  Each round consumes a
CRLF, so the length of the text bounds the number of rounds. -/
def headerValueLoop (name : Bytes) (valueSize : Nat) :
    Nat -> Bytes -> Except Int Bytes
  | 0, _ => .error (-ENOENT)
  | fuel + 1, line =>
      if line = [] ∨ line.take 2 = CRLF then .error (-ENOENT)
      else
        match splitCrlf line with
        | none => .error (-ENOENT)
        | some (text, rest) =>
            if fieldIs text name then
              let value := fieldValue text name
              if value.length ≥ valueSize then .error (-E2BIG)
              else .ok value
            else headerValueLoop name valueSize fuel rest

def headerValue (header : Bytes) (name : String) (valueSize : Nat) :
    Except Int Bytes :=
  match splitCrlf (cstr header) with
  | none => .error (-EINVAL)
  | some (_, line) => headerValueLoop (str name) valueSize line.length line

def getContentLength (header : Bytes) : Except Int Nat :=
  match headerValue header "Content-Length" 32 with
  | .error _ => .error (-ENOENT)
  | .ok value =>
      let r := UBoot.simpleStrtoul value 10
      if r.2.length = value.length ∨ r.2 ≠ [] then .error (-EINVAL)
      else .ok r.1

theorem getContentLength_lt {header : Bytes} {size : Nat}
    (h : getContentLength header = .ok size) : size < 2 ^ 32 := by
  unfold getContentLength at h
  split at h
  · cases h
  · rename_i value _
    simp only at h
    split at h
    · cases h
    · cases h
      exact UBoot.simpleStrtoul_lt value 10

end Webflash
end Hlk7621
