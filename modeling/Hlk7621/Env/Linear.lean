import Hlk7621.Env.Hashtable
import Hlk7621.UBoot.Crc32
import Mathlib.Algebra.GroupWithZero.Nat
import Mathlib.Data.List.Sort

/-!
# The linear form of the environment

Model of `hexport_r` and `himport_r` of `lib/hashtable.c` and of `env_export` and
`env_import` of `env/common.c`.  A linear environment is a list of `name=value`
entries, each with a separator behind it, and a terminating NUL.

`hexport_r` is called without a list of names and without `H_HIDE_DOT`, and
`himport_r` without a list of names and without the removal of carriage returns,
as `env_export` and `env_import` call them.
-/

namespace Hlk7621
namespace Env

/-!
## Export
-/

def strcmpLe : Bytes -> Bytes -> Bool
  | [], _ => true
  | _ :: _, [] => false
  | a :: as, b :: bs => if a = b then strcmpLe as bs else a.toNat ≤ b.toNat

def usedEntries (htab : Htab) : List Entry :=
  (List.range' 1 htab.size).filterMap fun i =>
    let node := htab.table i
    if node.used > 0 then some ⟨node.key, node.data⟩ else none

/-- The list that the second pass exports. -/
def sortedEntries (htab : Htab) : List Entry :=
  (usedEntries htab).insertionSort fun e1 e2 => strcmpLe e1.key e2.key = true

/-- The characters of a value with their escapes, as the second pass writes
them. -/
def escape (sep : UInt8) (data : Bytes) : Bytes :=
  data.flatMap fun c => if c = sep ∨ c = 92 then [92, c] else [c]

/-- The length that the first pass counts for an entry. -/
def countedLength (sep : UInt8) (e : Entry) : Nat :=
  e.key.length + (if sep = 0 then e.data.length else (escape sep e.data).length) + 2

def entryText (sep : UInt8) (e : Entry) : Bytes :=
  e.key ++ 61 :: (escape sep e.data ++ [sep])

def exportText (sep : UInt8) (entries : List Entry) : Bytes :=
  entries.flatMap (entryText sep)

/-- `hexport_r`: the contents of the result buffer.  What does not fit is written
behind the buffer. -/
def hexportR (htab : Htab) (sep : UInt8) (size : Nat) : Option Bytes :=
  let list := sortedEntries htab
  let totlen := (list.map (countedLength sep)).sum
  if size ≠ 0 ∧ size < totlen + 1 then none
  else
    let size := if size = 0 then totlen + 1 else size
    let text := exportText sep list
    some ((text ++ List.replicate (size - text.length) 0).take size)

/-!
## Import
-/

def isBlank (c : UInt8) : Bool := c = 32 || c = 9

/-- What one round of the parse loop does to the table. -/
inductive Command where
  | comment
  | delete (name : Bytes)
  | enter (name value : Bytes)
  | emptyName
  deriving DecidableEq, Repr

/-- The value at the start of the text, with escapes removed, and the text behind
its end. -/
def parseValue (sep : UInt8) : Bytes -> Bytes × Bytes
  | [] => ([], [])
  | c :: rest =>
      if c = 0 ∨ c = sep then ([], rest)
      else if c = 92 then
        match rest with
        | [] => ([c], [])
        | c' :: rest' =>
            if c' ≠ 0 then
              let r := parseValue sep rest'
              (c' :: r.1, r.2)
            else ([c], rest')
      else
        let r := parseValue sep rest
        (c :: r.1, r.2)

def parseName (sep : UInt8) (c : UInt8) : Bool := c != 61 && c != 0 && c != sep

def parseEntry (sep : UInt8) (dp : Bytes) : Command × Bytes :=
  let dp := dp.dropWhile isBlank
  if dp.head? = some 35 then
    (.comment, (dp.dropWhile fun c => c != 0 && c != sep).drop 1)
  else
    let name := dp.takeWhile (parseName sep)
    let dp := dp.dropWhile (parseName sep)
    let c := dp.headD 0
    let next := (dp.drop 1).headD 0
    if c = 0 ∨ next = 0 ∨ c = sep ∨ next = sep then
      (.delete name, if c = 61 then dp.drop 2 else dp.drop 1)
    else
      let value := parseValue sep (dp.drop 1)
      (if name = [] then .emptyName else .enter name value.1, value.2)

/-- The table after a command; `none` if a probe loop does not end. -/
def Command.apply (htab : Htab) : Command -> Option Htab
  | .comment => some htab
  | .delete name => (hdeleteR htab name).map (·.2)
  | .enter name value => (hsearchR ⟨name, value⟩ .enter htab).map (·.htab)
  | .emptyName => some htab

/-- The parse loop over the text `dp`, which ends with the NUL behind the data,
with the return value of `himport_r`. -/
def himportLoop (sep : UInt8) : Nat -> Bytes -> Htab -> Option (Nat × Htab)
  | 0, _, _ => none
  | fuel + 1, dp, htab =>
      let r := parseEntry sep dp
      match r.1.apply htab with
      | none => none
      | some htab =>
          if r.1 = .emptyName then some (0, htab)
          else if 2 ≤ r.2.length ∧ r.2.headD 0 ≠ 0 then himportLoop sep fuel r.2 htab
          else some (1, htab)

/-- The part of `himport_r` behind the creation of the table. -/
def himportInto (htab : Htab) (env : Bytes) (sep : UInt8) : Option (Nat × Htab) :=
  if env = [] then some (1, htab)
  else himportLoop sep (env.length + 1) (env ++ [0]) htab

/-- `CONFIG_ENV_SIZE` without the header, and the bounds of the table size. -/
structure Config where
  envSize : Nat
  minEntries : Nat
  maxEntries : Nat

/-- The table that `himport_r` fills: the present one, or a new one. -/
def importTable (cfg : Config) (noclear : Bool) (table : Option Htab) (size : Nat) :
    Htab :=
  match (if noclear then table else none) with
  | some htab => htab
  | none => hcreateR (min (cfg.minEntries + size / 8) cfg.maxEntries)

def himportR (cfg : Config) (noclear : Bool) (table : Option Htab) (env : Bytes)
    (sep : UInt8) : Option (Nat × Htab) :=
  himportInto (importTable cfg noclear table env.length) env sep

/-!
## Stored blocks
-/

/-- `env_t` of an environment that is not redundant. -/
structure Block where
  crc : BitVec 32
  data : Bytes

/-- `env_export`; `addr` is the address of the data. -/
def envExport (cfg : Config) (addr : Nat) (htab : Htab) : Option Block :=
  (hexportR htab 0 cfg.envSize).map fun data => ⟨UBoot.crc32 0#32 addr data, data⟩

/-- `env_import`: the table on success, `none` if the default environment is
set. -/
def envImport (cfg : Config) (addr : Nat) (check noclear : Bool) (table : Option Htab)
    (block : Block) : Option Htab :=
  if check ∧ UBoot.crc32 0#32 addr block.data ≠ block.crc then none
  else
    match himportR cfg noclear table block.data 0 with
    | some (ret, htab) => if ret ≠ 0 then some htab else none
    | none => none

end Env
end Hlk7621
