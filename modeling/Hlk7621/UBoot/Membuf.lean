import Hlk7621.UBoot.Memmove

/-!
# The circular buffer of the boot loader

Model of `lib/membuf.c`.  `start` is the address of the buffer, and the other
pointers are kept as offsets from it; `mem` is the contents of the buffer.
Lengths are natural numbers, except where the code relies on `-1`.
-/

namespace Hlk7621
namespace UBoot

/-- `struct membuf` and the memory between `start` and `end`. -/
structure Membuf where
  start : Nat
  size : Nat
  head : Nat
  tail : Nat
  mem : Nat -> UInt8

namespace Membuf

/-- `min` with a bound that may be `-1`, for none. -/
def atMost (len : Nat) : Option Nat -> Nat
  | none => len
  | some maxlen => min len maxlen

/-!
## Positions
-/

def purge (mb : Membuf) : Membuf := { mb with head := 0, tail := 0 }

def init (start size : Nat) (mem : Nat -> UInt8) : Membuf :=
  purge { start := start, size := size, head := 0, tail := 0, mem := mem }

/-- `membuf_putrawflex` with `update` and a bound: the number of bytes to be
written at the old head, and the updated buffer. -/
def putrawflex (mb : Membuf) (maxlen : Nat) : Nat × Membuf :=
  if mb.start = 0 then (0, mb)
  else if mb.head ≥ mb.tail then
    let len := min (mb.size - mb.head - 1) maxlen
    if len < maxlen ∧ mb.tail ≠ 0 then (len + 1, { mb with head := 0 })
    else (len, { mb with head := mb.head + len })
  else
    let len := min (mb.tail - mb.head - 1) maxlen
    (len, { mb with head := mb.head + len })

/-- `membuf_getraw` with `update`: the number of bytes found at the old tail,
and the updated buffer. -/
def getraw (mb : Membuf) (maxlen : Option Nat) : Nat × Membuf :=
  if mb.head > mb.tail then
    let len := atMost (mb.head - mb.tail) maxlen
    (len, { mb with tail := mb.tail + len })
  else if mb.head < mb.tail then
    let len := atMost (mb.size - mb.tail) maxlen
    (len, { mb with
      tail := if mb.tail + len = mb.size then 0 else mb.tail + len })
  else (0, mb)

/-!
## Transfers
-/

/-- A round of `membuf_put`: the data that is left, and the buffer. -/
def putRound (mb : Membuf) (data : Bytes) : Bytes × Membuf :=
  let r := putrawflex mb data.length
  (data.drop r.1, { r.2 with mem := overwrite mb.mem mb.head (data.take r.1) })

def put (mb : Membuf) (data : Bytes) : Nat × Membuf :=
  let r1 := putRound mb data
  let r2 := putRound r1.2 r1.1
  (data.length - r2.1.length, r2.2)

def putbyte (mb : Membuf) (ch : UInt8) : Bool × Membuf :=
  let r := putrawflex mb 1
  if r.1 ≠ 1 then (false, r.2)
  else (true, { r.2 with mem := overwrite mb.mem mb.head [ch] })

/-- A round of `membuf_get`. -/
def getRound (mb : Membuf) (maxlen : Nat) : Bytes × Membuf :=
  let r := getraw mb (some maxlen)
  (window mb.mem mb.tail r.1, r.2)

/-- `membuf_get`; there is no second round after an empty one. -/
def get (mb : Membuf) (maxlen : Nat) : Bytes × Membuf :=
  let r1 := getRound mb maxlen
  if r1.1.length = 0 then r1
  else
    let r2 := getRound r1.2 (maxlen - r1.1.length)
    (r1.1 ++ r2.1, r2.2)

def getbyte (mb : Membuf) : Int × Membuf :=
  let r := getraw mb (some 1)
  (if r.1 ≠ 1 then -1 else (mb.mem mb.tail).toNat, r.2)

/-- `membuf_peekbyte`: the same without the update. -/
def peekbyte (mb : Membuf) : Int :=
  let r := getraw mb (some 1)
  if r.1 ≠ 1 then -1 else (mb.mem mb.tail).toNat

def avail (mb : Membuf) : Nat :=
  let r1 := getraw mb none
  let r2 := getraw r1.2 none
  r1.1 + r2.1

def free (mb : Membuf) : Int :=
  if mb.size = 0 then 0 else (mb.size : Int) - 1 - mb.avail

/-!
## Moving the data
-/

def makecontig (mb : Membuf) : Bool × Membuf :=
  if mb.tail > mb.head then
    let topsize := mb.size - mb.tail
    let botsize := mb.head
    if mb.head + topsize ≥ mb.tail then (false, mb)
    else
      let moved := memmove mb.start mb.mem topsize 0 botsize
      (true, { mb with
        mem := memcpy mb.start moved 0 mb.tail topsize
        tail := 0
        head := topsize + botsize })
  else
    let topsize := mb.head - mb.tail
    (true, { mb with
      mem := memcpy mb.start mb.mem 0 mb.tail topsize
      tail := 0
      head := topsize })

def E2BIG : Int := 7

def asInt (n : Nat) : Int :=
  if u32 n < 2 ^ 31 then u32 n else (u32 n : Int) - 2 ^ 32

/-- The loop of `membuf_extend_by`, whose products wrap around; the size is kept
as a residue.  `none` when the rounds do not suffice. -/
def doubleLoop (wanted : Int) : Nat -> Nat -> Option Nat
  | 0, size => if asInt size < wanted then none else some size
  | rounds + 1, size =>
      if asInt size < wanted then doubleLoop wanted rounds (u32 (size * 2))
      else some size

/-- `membuf_extend_by`, with the address and the new contents that `realloc`
returns; `none` when the loop does not end. -/
def extendBy (mb : Membuf) (amount : Nat) (max : Option Nat) (start : Nat)
    (fresh : Nat -> UInt8) : Option (Int × Membuf) :=
  match doubleLoop (asInt (mb.size + amount)) 32 mb.size with
  | none => none
  | some doubled =>
      let size := atMost doubled max
      if size ≤ mb.size then some (-E2BIG, mb)
      else
        let grown := size - mb.size
        let mem : Nat -> UInt8 := fun a => if a < mb.size then mb.mem a else fresh a
        if mb.head < mb.tail then
          some (0, { mb with
            start := start
            size := size
            tail := mb.tail + grown
            mem := memmove start mem (mb.tail + grown) mb.tail
              (mb.size - mb.tail) })
        else some (0, { mb with start := start, size := size, mem := mem })

end Membuf
end UBoot
end Hlk7621
