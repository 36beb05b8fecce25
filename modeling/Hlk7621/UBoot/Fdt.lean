import Hlk7621.Lib.Bytes

/-!
# Flattened device trees

Model of what libfdt reads in a flattened device tree of version 17 whose blocks are inside
the blob: the tags of the struct block, the names of nodes, and the strings block.
-/

namespace Hlk7621
namespace UBoot

def FDT_ERR_NOSPACE : Int := 3
def FDT_ERR_TRUNCATED : Int := 8
def FDT_ERR_BADSTRUCTURE : Int := 11
def FDT_ERR_BADLAYOUT : Int := 12

def FDT_TAGSIZE : Nat := 4

def INT_MAX : Nat := 0x7fffffff

/-- `FDT_BEGIN_NODE`, `FDT_END_NODE`, `FDT_PROP`, `FDT_NOP` and `FDT_END`. -/
inductive Tag where
  | beginNode
  | endNode
  | prop
  | nop
  | fin
deriving DecidableEq, Repr

def Tag.ofWord (n : Nat) : Option Tag :=
  if n = 1 then some .beginNode
  else if n = 2 then some .endNode
  else if n = 3 then some .prop
  else if n = 4 then some .nop
  else if n = 9 then some .fin
  else none

structure Fdt where
  offDtStruct : Nat
  dtStruct : Bytes
  dtStrings : Bytes

def tagAlign (offset : Nat) : Nat := (offset + 3) / 4 * 4

def skipName : Bytes -> Nat -> Option Nat
  | [], _ => none
  | b :: rest, offset => if b = 0 then some (offset + 1) else skipName rest (offset + 1)

namespace Fdt

variable (fdt : Fdt)

def hasRange (offset len : Nat) : Bool := decide (offset + len ≤ fdt.dtStruct.length)

def word (offset : Nat) : Nat := beNat ((fdt.dtStruct.drop offset).take 4)

/-- The end of `fdt_next_tag`, when the tag reaches to `offset`. -/
def closeTag (tag : Tag) (startoffset offset : Nat) : Tag × Int :=
  if fdt.hasRange startoffset (offset - startoffset) then (tag, (tagAlign offset : Nat))
  else (.fin, - FDT_ERR_BADSTRUCTURE)

/-- The tag and `*nextoffset`.  An error is an `FDT_END`. -/
def fdtNextTag (startoffset : Nat) : Tag × Int :=
  if fdt.hasRange startoffset FDT_TAGSIZE then
    let offset := startoffset + FDT_TAGSIZE
    match Tag.ofWord (fdt.word startoffset) with
    | none => (.fin, - FDT_ERR_BADSTRUCTURE)
    | some .beginNode =>
        match skipName (fdt.dtStruct.drop offset) offset with
        | none => (.fin, - FDT_ERR_BADSTRUCTURE)
        | some offset => fdt.closeTag .beginNode startoffset offset
    | some .prop =>
        if fdt.hasRange offset 4 then
          let len := fdt.word offset
          let sum := u32 (len + offset)
          if INT_MAX ≤ sum ∨ sum < offset then (.fin, - FDT_ERR_BADSTRUCTURE)
          else fdt.closeTag .prop startoffset (offset + 8 + len)
        else (.fin, - FDT_ERR_BADSTRUCTURE)
    | some tag => fdt.closeTag tag startoffset offset
  else (.fin, - FDT_ERR_TRUNCATED)

def fdtGetName (offset : Nat) : Bytes :=
  (fdt.dtStruct.drop (offset + FDT_TAGSIZE)).takeWhile (· ≠ 0)

def fdtString (stroffset : Nat) : Option Bytes :=
  if stroffset < fdt.dtStrings.length ∧ 0 ∈ fdt.dtStrings.drop stroffset then
    some ((fdt.dtStrings.drop stroffset).takeWhile (· ≠ 0))
  else none

def propName (offset : Nat) : Option Bytes := fdt.fdtString (fdt.word (offset + 8))

/-!
## Tags go forward
-/

theorem le_tagAlign (offset : Nat) : offset ≤ tagAlign offset := by
  unfold tagAlign
  lia

theorem skipName_gt {bs : Bytes} {offset next : Nat} (h : skipName bs offset = some next) :
    offset < next := by
  induction bs generalizing offset with
  | nil => cases h
  | cons b rest ih =>
      rw [skipName] at h
      by_cases hb : b = 0
      · rw [if_pos hb] at h
        cases h
        exact Nat.lt_succ_self offset
      · rw [if_neg hb] at h
        exact Nat.lt_of_succ_lt (ih h)

variable {fdt}

theorem closeTag_spec {tag t : Tag} {startoffset offset : Nat} {next : Int}
    (h : fdt.closeTag tag startoffset offset = (t, next)) (hlt : startoffset < offset) :
    (t = .fin ∧ next < 0) ∨
      (t = tag ∧ exists n : Nat, next = n ∧ startoffset < n ∧ offset ≤ fdt.dtStruct.length) := by
  unfold closeTag at h
  by_cases hrange : fdt.hasRange startoffset (offset - startoffset) = true
  · rw [if_pos hrange] at h
    cases h
    have hlen := of_decide_eq_true hrange
    have hle := le_tagAlign offset
    exact Or.inr ⟨rfl, tagAlign offset, rfl, by lia, by lia⟩
  · rw [if_neg hrange] at h
    cases h
    exact Or.inl ⟨rfl, by decide⟩

/-- Without an error the next tag is behind this one, which begins inside the block. -/
theorem fdtNextTag_spec {startoffset : Nat} {t : Tag} {next : Int}
    (h : fdt.fdtNextTag startoffset = (t, next)) :
    (t = .fin ∧ next < 0) ∨
      (exists n : Nat, next = n ∧ startoffset < n ∧ startoffset < fdt.dtStruct.length) := by
  have hclose : forall {tag : Tag} {offset : Nat},
      fdt.closeTag tag startoffset offset = (t, next) -> startoffset < offset ->
      (t = .fin ∧ next < 0) ∨
        (exists n : Nat, next = n ∧ startoffset < n ∧ startoffset < fdt.dtStruct.length) := by
    intro tag offset hc hlt
    rcases closeTag_spec hc hlt with herror | ⟨_, n, hn, hgt, hlen⟩
    · exact Or.inl herror
    · exact Or.inr ⟨n, hn, hgt, by lia⟩
  have herror : forall {e : Int}, 0 < e -> ((Tag.fin, - e) : Tag × Int) = (t, next) ->
      (t = .fin ∧ next < 0) ∨
        (exists n : Nat, next = n ∧ startoffset < n ∧ startoffset < fdt.dtStruct.length) := by
    intro e he heq
    cases heq
    exact Or.inl ⟨rfl, by lia⟩
  have hbehind : startoffset < startoffset + FDT_TAGSIZE := by
    unfold FDT_TAGSIZE
    lia
  unfold fdtNextTag at h
  split at h
  · dsimp only at h
    split at h
    · exact herror (by decide) h
    · split at h
      · exact herror (by decide) h
      · rename_i hskip
        exact hclose h (by have := skipName_gt hskip; lia)
    · split at h
      · split at h
        · exact herror (by decide) h
        · exact hclose h (by lia)
      · exact herror (by decide) h
    · exact hclose h hbehind
  · exact herror (by decide) h

/-!
## The tree
-/

structure Elem where
  tag : Tag
  offset : Nat
  next : Nat
deriving DecidableEq, Repr

variable (fdt)

def tagsFrom : Nat -> Nat -> List Elem
  | 0, _ => []
  | fuel + 1, offset =>
      match fdt.fdtNextTag offset with
      | (.fin, next) => [⟨.fin, offset, next.toNat⟩]
      | (tag, next) => ⟨tag, offset, next.toNat⟩ :: tagsFrom fuel next.toNat

def tags : List Elem := fdt.tagsFrom (fdt.dtStruct.length + 1) 0

/-- The name of the root is empty; the other names are not, and have no slash. -/
def NameOk (parents : List Bytes) (name : Bytes) : Prop :=
  if parents = [] then name = [] else name ≠ [] ∧ 47 ∉ name

instance (parents : List Bytes) (name : Bytes) : Decidable (NameOk parents name) :=
  inferInstanceAs (Decidable (if parents = [] then name = [] else name ≠ [] ∧ 47 ∉ name))

/-- The nodes that a tag is in, when the nodes `nodes` have begun before it, the innermost
one first.  The begin and the end of a node are in that node. -/
def nodesIn (nodes : List Bytes) (e : Elem) : List Bytes :=
  match e.tag with
  | .beginNode => fdt.fdtGetName e.offset :: nodes
  | _ => nodes

def nodesAfter (nodes : List Bytes) (e : Elem) : List Bytes :=
  match e.tag with
  | .endNode => nodes.tail
  | _ => fdt.nodesIn nodes e

def ElemOk (nodes : List Bytes) (e : Elem) : Prop :=
  match e.tag with
  | .beginNode => NameOk nodes (fdt.fdtGetName e.offset)
  | .endNode => nodes ≠ []
  | .prop => nodes ≠ [] ∧ (fdt.propName e.offset).isSome
  | .nop => True
  | .fin => nodes = []

instance (nodes : List Bytes) (e : Elem) : Decidable (fdt.ElemOk nodes e) :=
  match e with
  | ⟨.beginNode, offset, _⟩ => inferInstanceAs (Decidable (NameOk nodes (fdt.fdtGetName offset)))
  | ⟨.endNode, _, _⟩ => inferInstanceAs (Decidable (nodes ≠ []))
  | ⟨.prop, offset, _⟩ =>
      inferInstanceAs (Decidable (nodes ≠ [] ∧ (fdt.propName offset).isSome))
  | ⟨.nop, _, _⟩ => instDecidableTrue
  | ⟨.fin, _, _⟩ => inferInstanceAs (Decidable (nodes = []))

def Nested : List Bytes -> List Elem -> Prop
  | _, [] => False
  | nodes, e :: es =>
      fdt.ElemOk nodes e ∧ if e.tag = .fin then es = [] else Nested (fdt.nodesAfter nodes e) es

instance decideNested : (nodes : List Bytes) -> (es : List Elem) -> Decidable (fdt.Nested nodes es)
  | _, [] => instDecidableFalse
  | nodes, e :: es =>
      have := decideNested (fdt.nodesAfter nodes e) es
      inferInstanceAs (Decidable (fdt.ElemOk nodes e ∧
        if e.tag = .fin then es = [] else fdt.Nested (fdt.nodesAfter nodes e) es))

structure WellFormed : Prop where
  size : fdt.dtStruct.length < 2 ^ 31
  nested : fdt.Nested [] fdt.tags

def placed : List Bytes -> List Elem -> List (Elem × List Bytes)
  | _, [] => []
  | nodes, e :: es => (e, fdt.nodesIn nodes e) :: placed (fdt.nodesAfter nodes e) es

def pathOf : List Bytes -> Bytes
  | [] => []
  | [_] => [47]
  | name :: [_] => 47 :: name
  | name :: parents => pathOf parents ++ 47 :: name

end Fdt

end UBoot
end Hlk7621
