import Hlk7621.Lib.Bytes

/-!
# The environment hash table

Model of `lib/hashtable.c`: creation of the table, search, insertion and
deletion.  The table is allocated with one node more than its size, and index
zero is never used.  `used` is the first hash value of the key stored in a node,
or one of the marks `USED_FREE` and `USED_DELETED`.

The `change_ok` hook and the callbacks of a table are taken to accept every
change, and allocations to succeed.
-/

namespace Hlk7621
namespace Env

def USED_FREE : Int := 0
def USED_DELETED : Int := -1

/-- `struct env_entry_node`. -/
structure Node where
  used : Int := USED_FREE
  key : Bytes := []
  data : Bytes := []
  deriving DecidableEq, Repr

/-- `struct hsearch_data`. -/
structure Htab where
  size : Nat
  filled : Nat
  table : Nat -> Node

/-!
## Creation
-/

/-- The loop of `isprime`: the last divisor tried. -/
def isprimeLoop (number : Nat) : Nat -> Nat -> Nat
  | 0, div => div
  | fuel + 1, div =>
      if u32 (div * div) < number ∧ number % div ≠ 0 then
        isprimeLoop number fuel (u32 (div + 2))
      else div

/-- The divisors stop at the number itself. -/
def isprime (number : Nat) : Bool :=
  number % isprimeLoop number number 3 != 0

/-- The loop of `hcreate_r` over the odd numbers.  It comes round to one, for
which `isprime` answers yes. -/
def nextPrime : Nat -> Nat -> Nat
  | 0, nel => nel
  | fuel + 1, nel => if isprime nel then nel else nextPrime fuel (u32 (nel + 2))

def hcreateR (nel : Nat) : Htab where
  size := nextPrime (2 ^ 31) (nel ||| 1)
  filled := 0
  table := fun _ => {}

/-!
## Search
-/

/-- A `char` as it is added to an unsigned value: characters are signed. -/
def charValue (c : UInt8) : Nat :=
  if c.toNat < 128 then c.toNat else 2 ^ 32 - 256 + c.toNat

/-- The value of a key, from its last character to its first. -/
def hashValue (key : Bytes) : Nat :=
  key.foldr (fun c hval => u32 (u32 (hval * 16) + charValue c)) (u32 key.length)

/-- The first hash function, and the first index tried. -/
def firstHash (size : Nat) (key : Bytes) : Nat :=
  let hval := hashValue key % size
  if hval = 0 then hval + 1 else hval

def secondHash (size hval : Nat) : Nat := u32 (1 + hval % sub32 size 2)

inductive EnvAction where
  | find | enter
  deriving DecidableEq, Repr

structure Entry where
  key : Bytes
  data : Bytes
  deriving DecidableEq, Repr

variable (item : Entry) (action : EnvAction) (htab : Htab)

/-- `_compare_and_overwrite_entry`: `none` to keep searching. -/
def compareAndOverwriteEntry (hval idx : Nat) : Option (Nat × Htab) :=
  let node := htab.table idx
  if node.used = hval ∧ item.key = node.key then
    if action = .enter then
      some (idx, { htab with
        table := Function.update htab.table idx { node with data := item.data } })
    else some (idx, htab)
  else none

inductive Probe where
  | found (idx : Nat) (htab : Htab)
  | bucket (idx firstDeleted : Nat)

def probeLoop (hval hval2 : Nat) : Nat -> Nat -> Nat -> Option Probe
  | 0, _, _ => none
  | fuel + 1, idx, firstDeleted =>
      let idx :=
        if idx ≤ hval2 then u32 (htab.size + idx - hval2) else idx - hval2
      if idx = hval then some (.bucket idx firstDeleted)
      else
        let firstDeleted :=
          if (htab.table idx).used = USED_DELETED ∧ firstDeleted = 0 then idx
          else firstDeleted
        match compareAndOverwriteEntry item action htab hval idx with
        | some (idx, htab) => some (.found idx htab)
        | none =>
            if (htab.table idx).used = USED_FREE then
              some (.bucket idx firstDeleted)
            else probeLoop hval hval2 fuel idx firstDeleted

def probe : Option Probe :=
  let hval := firstHash htab.size item.key
  let node := htab.table hval
  if node.used = USED_FREE then some (.bucket hval 0)
  else
    match compareAndOverwriteEntry item action htab hval hval with
    | some (idx, htab) => some (.found idx htab)
    | none =>
        probeLoop item action htab hval (secondHash htab.size hval) htab.size hval
          (if node.used = USED_DELETED then hval else 0)

/-- Results of `hsearch_r`: the return value, the index of the entry that
`retval` points to, and the table. -/
structure Found where
  ret : Nat
  entry : Option Nat
  htab : Htab

def newEntry (idx : Nat) : Htab :=
  { htab with
    filled := htab.filled + 1
    table := Function.update htab.table idx
      { used := firstHash htab.size item.key, key := item.key, data := item.data } }

def hsearchR : Option Found :=
  match probe item action htab with
  | none => none
  | some (.found idx htab) => some ⟨idx, some idx, htab⟩
  | some (.bucket idx firstDeleted) =>
      if action = .enter then
        if htab.filled = htab.size then some ⟨0, none, htab⟩
        else
          let idx := if firstDeleted ≠ 0 then firstDeleted else idx
          some ⟨1, some idx, newEntry item htab idx⟩
      else some ⟨0, none, htab⟩

/-!
## Deletion
-/

def ENOENT : Int := 2

def hdelete (idx : Nat) : Htab :=
  { htab with
    filled := htab.filled - 1
    table := Function.update htab.table idx
      { used := USED_DELETED, key := [], data := [] } }

def hdeleteR (key : Bytes) : Option (Int × Htab) :=
  match hsearchR ⟨key, []⟩ .find htab with
  | none => none
  | some found =>
      if found.ret = 0 then some (-ENOENT, found.htab)
      else some (0, hdelete found.htab found.ret)

end Env
end Hlk7621
