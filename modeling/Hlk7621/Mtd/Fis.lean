import Hlk7621.Lib.Bytes
import Mathlib.Algebra.GroupWithZero.Nat

/-!
# The FIS directory

`fis.c` of `mtd` replaces entries of a RedBoot image directory, which is one erase block
of 256-byte descriptors.  The descriptors up to the first one whose name starts with `0`
or `0xff` are the entries.  The result `none` is an access outside of the block.
-/

namespace Hlk7621
namespace Mtd
namespace Fis

/-!
## The directory and the new parts
-/

structure Desc where
  name : Bytes
  flashBase : UInt32
  memBase : UInt32
  size : UInt32
  entryPoint : UInt32
  dataLength : UInt32
  padding : Bytes
  crcDesc : UInt32
  crcFile : UInt32
  deriving DecidableEq

/-- `struct fis_part`, without the offset that nothing reads. -/
structure Part where
  name : Bytes
  loadaddr : UInt32
  size : UInt32
  length : UInt32
  crc : UInt32

def Desc.Terminator (desc : Desc) : Prop := desc.name.headD 0 = 0 ∨ desc.name.headD 0 = 0xff

instance (desc : Desc) : Decidable desc.Terminator := inferInstanceAs (Decidable (_ ∨ _))

/-- The string in an array of 16 bytes, as `strncmp` sees it. -/
def nameString (name : Bytes) : Bytes := (name.take 16).takeWhile (· != 0)

def Desc.Matches (old : List Part) (desc : Desc) : Prop :=
  exists part, part ∈ old ∧ nameString desc.name = nameString part.name

instance (old : List Part) : DecidablePred (Desc.Matches old) := fun desc =>
  inferInstanceAs
    (Decidable (exists part, part ∈ old ∧ nameString desc.name = nameString part.name))

/-!
## Validating
-/

/-- `found` behind the loop over the directory. -/
def countFound (old : List Part) : List Desc -> Nat
  | [] => 0
  | desc :: rest =>
      if desc.Terminator then 0
      else (if desc.Matches old then 1 else 0) + countFound old rest

def fisValidate (block : List Desc) (old new : List Part) : Int :=
  if (new.take (new.length - 1)).any (fun part => part.size == 0) then -1
  else if countFound old block = old.length then 1
  else -1

/-!
## Remapping
-/

/-- What the first scan has found: the largest flash base, and the places of the first
and the last old entry. -/
structure Scan where
  offset : UInt32
  first : Option Nat
  last : Option Nat

def scanOld (old : List Part) : Nat -> Scan -> List Desc -> Scan
  | _, scan, [] => scan
  | i, scan, desc :: rest =>
      if desc.Terminator then scan
      else
        let offset := if scan.offset < desc.flashBase then desc.flashBase else scan.offset
        if desc.Matches old then
          scanOld old (i + 1)
            { offset := offset, first := scan.first.or (some i), last := some i } rest
        else scanOld old (i + 1) { scan with offset := offset } rest

/-- The second scan, for the lowest flash base above the last old entry. -/
def scanSpace (lastBase : UInt32) : UInt32 -> List Desc -> UInt32
  | offset, [] => offset
  | offset, desc :: rest =>
      if desc.Terminator then offset
      else
        scanSpace lastBase
          (if lastBase < desc.flashBase ∧ desc.flashBase < offset then desc.flashBase else offset)
          rest

/-- `memset` of all bits from a descriptor on, for a number of descriptors that may be
negative: then it goes on to the end of the address space. -/
def fillBlank (blank : Desc) (place : Nat) (count : Int) (block : List Desc) :
    Option (List Desc) :=
  if 0 ≤ count ∧ place + count ≤ block.length then
    some (block.take place ++ List.replicate count.toNat blank ++
      block.drop (place + count.toNat))
  else none

def blank : Desc :=
  { name := List.replicate 16 0xff, flashBase := 0xffffffff, memBase := 0xffffffff
    size := 0xffffffff, entryPoint := 0xffffffff, dataLength := 0xffffffff
    padding := List.replicate 212 0xff, crcDesc := 0xffffffff, crcFile := 0xffffffff }

/-- The move of the entries behind the old ones to their place behind the new ones. -/
def moveRest (desc last : Nat) (block : List Desc) : Option (List Desc) :=
  if desc = last then some block
  else if block.length < max desc last then none
  else
    let count := block.length - max desc last
    let moved := block.take desc ++ (block.drop last).take count ++ block.drop (desc + count)
    if desc < last then
      fillBlank blank (block.length - (last - desc))
        ((block.length - (last - desc) : Nat) - (block.length : Int)) moved
    else some moved

def newDescs : UInt32 -> UInt32 -> List Part -> List Desc
  | _, _, [] => []
  | offset, space, part :: rest =>
      let size := if 0 < part.size then part.size else space
      { name := part.name, flashBase := offset, memBase := part.loadaddr, size := size
        entryPoint := part.loadaddr
        dataLength := if 0 < part.length then part.length else size
        padding := List.replicate 212 0, crcDesc := 0, crcFile := part.crc } ::
        newDescs (offset + size) (space - size) rest

def fisRemap (block : List Desc) (old new : List Part) : Option (List Desc) :=
  let scan := scanOld old 0 { offset := 0, first := none, last := none } block
  match scan.first, scan.last with
  | some first, some last =>
      match block[first]?, block[last]? with
      | some firstDesc, some lastDesc =>
          let bases :=
            if lastDesc.flashBase < firstDesc.flashBase then
              (lastDesc.flashBase, firstDesc.flashBase)
            else (firstDesc.flashBase, lastDesc.flashBase)
          let offset := scanSpace bases.2 scan.offset block
          match moveRest (first + new.length) (last + 1) block with
          | none => none
          | some moved =>
              if first + new.length ≤ block.length then
                some (moved.take first ++ newDescs bases.1 (offset - bases.1) new ++
                  moved.drop (first + new.length))
              else none
      | _, _ => none
  | _, _ => none

/-!
## Flash ranges
-/

def nextBase (descs : List Desc) (b : Nat) : Option Nat :=
  ((descs.map fun desc => desc.flashBase.toNat).filter (b < ·)).min?

def lowestBase (descs : List Desc) : Nat :=
  ((descs.map fun desc => desc.flashBase.toNat).min?).getD 0

def highestBase (descs : List Desc) : Nat :=
  ((descs.map fun desc => desc.flashBase.toNat).max?).getD 0

/-- The end of the range that ends last, within the 32-bit address space. -/
def highestEnd (descs : List Desc) : Nat :=
  min (2 ^ 32) (((descs.map fun desc => desc.flashBase.toNat + desc.size.toNat).max?).getD 0)

/-- The space of the old entries goes to the next entry above them, or to the end of
their last range if there is none. -/
def spaceEnd (olds others : List Desc) : Nat :=
  (nextBase others (highestBase olds)).getD (highestEnd olds)

def BackToBack : Nat -> List Desc -> Prop
  | _, [] => True
  | start, desc :: rest =>
      desc.flashBase.toNat = start ∧ BackToBack (start + desc.size.toNat) rest

def totalSize (sizes : List UInt32) : Nat := (sizes.map UInt32.toNat).sum

theorem nextBase_none {descs : List Desc} {b : Nat} (h : nextBase descs b = none) {desc : Desc}
    (hdesc : desc ∈ descs) : desc.flashBase.toNat ≤ b := by
  have hnil := List.min?_eq_none_iff.mp h
  have hnot := List.filter_eq_nil_iff.mp hnil desc.flashBase.toNat
    (List.mem_map.mpr ⟨desc, hdesc, rfl⟩)
  exact Nat.le_of_not_lt (fun hlt => hnot (decide_eq_true hlt))

theorem nextBase_some {descs : List Desc} {b next : Nat} (h : nextBase descs b = some next) :
    b < next ∧ (exists desc, desc ∈ descs ∧ desc.flashBase.toNat = next) ∧
      forall desc, desc ∈ descs -> b < desc.flashBase.toNat -> next ≤ desc.flashBase.toNat := by
  rcases List.min?_eq_some_iff.mp h with ⟨hmem, hmin⟩
  rcases List.mem_filter.mp hmem with ⟨hmem, hlt⟩
  rcases List.mem_map.mp hmem with ⟨desc, hdesc, hbase⟩
  refine ⟨of_decide_eq_true hlt, ⟨desc, hdesc, hbase⟩, ?_⟩
  intro d hd hlt'
  exact hmin _ (List.mem_filter.mpr ⟨List.mem_map.mpr ⟨d, hd, rfl⟩, decide_eq_true hlt'⟩)

theorem max_spec {α : Type} (f : α -> Nat) {xs : List α} (hne : xs ≠ []) :
    (exists x, x ∈ xs ∧ f x = ((xs.map f).max?).getD 0) ∧
      forall x, x ∈ xs -> f x ≤ ((xs.map f).max?).getD 0 := by
  rcases hmax : (xs.map f).max? with _ | m
  · exact absurd (List.map_eq_nil_iff.mp (List.max?_eq_none_iff.mp hmax)) hne
  · rcases List.max?_eq_some_iff.mp hmax with ⟨hmem, hall⟩
    rcases List.mem_map.mp hmem with ⟨x, hx, hm⟩
    exact ⟨⟨x, hx, hm⟩, fun y hy => hall _ (List.mem_map.mpr ⟨y, hy, rfl⟩)⟩

/-!
## The scans
-/

def Live (descs : List Desc) : Prop := forall desc, desc ∈ descs -> ¬ desc.Terminator

def maxBase (offset : UInt32) (descs : List Desc) : UInt32 :=
  descs.foldl (fun offset desc => if offset < desc.flashBase then desc.flashBase else offset) offset

section

variable {old : List Part} {descs rest : List Desc}

theorem Live.tail {desc : Desc} (h : Live (desc :: descs)) : Live descs :=
  fun d hd => h d (List.mem_cons_of_mem _ hd)

theorem Live.head {desc : Desc} (h : Live (desc :: descs)) : ¬ desc.Terminator :=
  h desc List.mem_cons_self

theorem scanOld_others (hlive : Live descs) (hother : forall desc, desc ∈ descs ->
    ¬ desc.Matches old) (i : Nat) (scan : Scan) :
    scanOld old i scan (descs ++ rest) =
      scanOld old (i + descs.length) { scan with offset := maxBase scan.offset descs } rest := by
  induction descs generalizing i scan with
  | nil => rfl
  | cons desc descs ih =>
      rw [List.cons_append, scanOld, if_neg hlive.head,
        if_neg (hother desc List.mem_cons_self),
        ih hlive.tail (fun d hd => hother d (List.mem_cons_of_mem _ hd)), List.length_cons,
        Nat.add_right_comm]
      rfl

theorem scanOld_olds (hlive : Live descs) (holds : forall desc, desc ∈ descs ->
    desc.Matches old) (i first last : Nat) (offset : UInt32) :
    scanOld old i { offset := offset, first := some first, last := some last } (descs ++ rest) =
      scanOld old (i + descs.length)
        { offset := maxBase offset descs, first := some first
          last := some (if descs = [] then last else i + descs.length - 1) } rest := by
  induction descs generalizing i last offset with
  | nil => rfl
  | cons desc descs ih =>
      rw [List.cons_append, scanOld, if_neg hlive.head, if_pos (holds desc List.mem_cons_self)]
      dsimp only [Option.some_or]
      rw [ih hlive.tail (fun d hd => holds d (List.mem_cons_of_mem _ hd)), List.length_cons,
        Nat.add_right_comm, if_neg (List.cons_ne_nil _ _)]
      have hlast : (if descs = [] then i else i + descs.length + 1 - 1) =
          i + (descs.length + 1) - 1 := by
        split
        · rename_i hnil
          rw [hnil]
          rfl
        · rfl
      rw [hlast]
      rfl

theorem scanOld_end (hend : forall desc, rest.head? = some desc -> desc.Terminator) (i : Nat)
    (scan : Scan) : scanOld old i scan rest = scan := by
  cases rest with
  | nil => rfl
  | cons desc rest => exact if_pos (hend desc rfl)

theorem maxBase_append (offset : UInt32) (a b : List Desc) :
    maxBase offset (a ++ b) = maxBase (maxBase offset a) b :=
  List.foldl_append

theorem maxBase_cons (offset : UInt32) (desc : Desc) (descs : List Desc) :
    exists offset', maxBase offset (desc :: descs) = maxBase offset' descs ∧
      offset ≤ offset' ∧ desc.flashBase ≤ offset' ∧
      (offset' = offset ∨ offset' = desc.flashBase) := by
  refine ⟨_, rfl, ?_⟩
  dsimp only
  split
  · rename_i hlt
    exact ⟨UInt32.le_of_lt hlt, UInt32.le_refl _, Or.inr rfl⟩
  · rename_i hge
    exact ⟨UInt32.le_refl _, UInt32.not_lt.mp hge, Or.inl rfl⟩

theorem le_maxBase (offset : UInt32) (descs : List Desc) :
    offset ≤ maxBase offset descs ∧
      forall desc, desc ∈ descs -> desc.flashBase ≤ maxBase offset descs := by
  induction descs generalizing offset with
  | nil => exact ⟨UInt32.le_refl _, fun _ hnone => nomatch hnone⟩
  | cons desc descs ih =>
      rcases maxBase_cons offset desc descs with ⟨offset', heq, hoffset, hdesc, _⟩
      rw [heq]
      refine ⟨UInt32.le_trans hoffset (ih offset').left, ?_⟩
      intro d hd
      rcases List.mem_cons.mp hd with rfl | hd
      · exact UInt32.le_trans hdesc (ih offset').left
      · exact (ih offset').right d hd

theorem maxBase_cases (offset : UInt32) (descs : List Desc) :
    maxBase offset descs = offset ∨
      exists desc, desc ∈ descs ∧ desc.flashBase = maxBase offset descs := by
  induction descs generalizing offset with
  | nil => exact Or.inl rfl
  | cons desc descs ih =>
      rcases maxBase_cons offset desc descs with ⟨offset', heq, _, _, hstep⟩
      rw [heq]
      rcases ih offset' with hsame | ⟨d, hd, hbase⟩
      · rcases hstep with rfl | rfl
        · exact Or.inl hsame
        · exact Or.inr ⟨desc, List.mem_cons_self, hsame.symm⟩
      · exact Or.inr ⟨d, List.mem_cons_of_mem _ hd, hbase⟩

theorem scanSpace_spec (hlive : Live descs)
    (hend : forall desc, rest.head? = some desc -> desc.Terminator) (lastBase offset : UInt32) :
    scanSpace lastBase offset (descs ++ rest) ≤ offset ∧
      (forall desc, desc ∈ descs -> lastBase < desc.flashBase ->
        scanSpace lastBase offset (descs ++ rest) ≤ desc.flashBase) ∧
      (scanSpace lastBase offset (descs ++ rest) = offset ∨
        exists desc, desc ∈ descs ∧ lastBase < desc.flashBase ∧
          desc.flashBase = scanSpace lastBase offset (descs ++ rest)) := by
  induction descs generalizing offset with
  | nil =>
      have hsame : scanSpace lastBase offset rest = offset := by
        cases rest with
        | nil => rfl
        | cons desc rest => exact if_pos (hend desc rfl)
      rw [List.nil_append, hsame]
      exact ⟨UInt32.le_refl _, (fun _ hnone => nomatch hnone), Or.inl rfl⟩
  | cons desc descs ih =>
      rw [List.cons_append, scanSpace, if_neg hlive.head]
      by_cases hlower : lastBase < desc.flashBase ∧ desc.flashBase < offset
      · rw [if_pos hlower]
        rcases ih hlive.tail desc.flashBase with ⟨hle, hall, hcases⟩
        refine ⟨UInt32.le_trans hle (UInt32.le_of_lt hlower.right), ?_, ?_⟩
        · intro d hd hlast
          rcases List.mem_cons.mp hd with rfl | hd
          · exact hle
          · exact hall d hd hlast
        · rcases hcases with hsame | ⟨d, hd, hlast, hbase⟩
          · exact Or.inr ⟨desc, List.mem_cons_self, hlower.left, hsame.symm⟩
          · exact Or.inr ⟨d, List.mem_cons_of_mem _ hd, hlast, hbase⟩
      · rw [if_neg hlower]
        rcases ih hlive.tail offset with ⟨hle, hall, hcases⟩
        refine ⟨hle, ?_, ?_⟩
        · intro d hd hlast
          rcases List.mem_cons.mp hd with rfl | hd
          · have hge : offset ≤ d.flashBase :=
              UInt32.not_lt.mp (fun hlt => hlower ⟨hlast, hlt⟩)
            exact UInt32.le_trans hle hge
          · exact hall d hd hlast
        · rcases hcases with hsame | ⟨d, hd, hlast, hbase⟩
          · exact Or.inl hsame
          · exact Or.inr ⟨d, List.mem_cons_of_mem _ hd, hlast, hbase⟩

/-- Both scans together give the next flash base above an entry, or its own base. -/
theorem scanSpace_maxBase (hlive : Live descs)
    (hend : forall desc, rest.head? = some desc -> desc.Terminator) {lastDesc : Desc}
    (hlast : lastDesc ∈ descs) :
    (scanSpace lastDesc.flashBase (maxBase 0 descs) (descs ++ rest)).toNat =
      (nextBase descs lastDesc.flashBase.toNat).getD lastDesc.flashBase.toNat := by
  rcases scanSpace_spec hlive hend lastDesc.flashBase (maxBase 0 descs) with ⟨hle, hall, hcases⟩
  have hmax := le_maxBase 0 descs
  generalize scanSpace lastDesc.flashBase (maxBase 0 descs) (descs ++ rest) = r
    at hle hall hcases ⊢
  simp only [UInt32.le_iff_toNat_le, UInt32.lt_iff_toNat_lt] at hle hall hcases hmax
  have hzero : (0 : UInt32).toNat = 0 := rfl
  rcases hnext : nextBase descs lastDesc.flashBase.toNat with _ | next
  · -- no entry lies above, so the maximum is the base of the entry itself
    have hnone : forall desc, desc ∈ descs -> desc.flashBase.toNat ≤ lastDesc.flashBase.toNat :=
      fun _ hdesc => nextBase_none hnext hdesc
    have hbelow : (maxBase 0 descs).toNat ≤ lastDesc.flashBase.toNat := by
      rcases maxBase_cases 0 descs with hsame | ⟨desc, hdesc, hbase⟩
      · rw [hsame]
        exact Nat.zero_le _
      · rw [<- hbase]
        exact hnone desc hdesc
    have habove := hmax.right lastDesc hlast
    rcases hcases with hsame | ⟨desc, hdesc, hlt, _⟩
    · rw [hsame]
      exact Nat.le_antisymm hbelow habove
    · exact absurd (hnone desc hdesc) (Nat.not_le.mpr hlt)
  · rcases nextBase_some hnext with ⟨hlt, ⟨desc, hdesc, hbase⟩, hmin⟩
    have hupper : r.toNat ≤ next := hbase ▸ hall desc hdesc (hbase ▸ hlt)
    have hlower : next ≤ r.toNat := by
      rcases hcases with hsame | ⟨d, hd, hlast', hr⟩
      · rw [hsame, <- hbase]
        exact hmax.right desc hdesc
      · rw [<- hr]
        exact hmin d hd hlast'
    exact Nat.le_antisymm hupper hlower

end

/-!
## The new entries
-/

theorem newDescs_length (offset space : UInt32) (new : List Part) :
    (newDescs offset space new).length = new.length := by
  induction new generalizing offset space with
  | nil => rfl
  | cons part new ih => exact congrArg (· + 1) (ih _ _)

theorem newDescs_names (offset space : UInt32) (new : List Part) :
    (newDescs offset space new).map Desc.name = new.map Part.name := by
  induction new generalizing offset space with
  | nil => rfl
  | cons part new ih => exact congrArg (part.name :: ·) (ih _ _)

def AutoSize (new : List Part) : Prop := exists part, new.getLast? = some part ∧ part.size = 0

instance (new : List Part) : Decidable (AutoSize new) :=
  match h : new.getLast? with
  | none => isFalse fun hauto => by
      rcases hauto with ⟨part, hlast, _⟩
      rw [h] at hlast
      cases hlast
  | some part =>
      if hsize : part.size = 0 then isTrue ⟨part, h, hsize⟩
      else isFalse fun hauto => by
        rcases hauto with ⟨part', hlast, hzero⟩
        rw [h] at hlast
        cases hlast
        exact hsize hzero

def partSizes (new : List Part) : Nat := totalSize (new.map Part.size)

def descSizes (descs : List Desc) : Nat := totalSize (descs.map Desc.size)

/-- The parts whose size was not accepted as automatic. -/
def Sized (new : List Part) : Prop := forall part, part ∈ new.dropLast -> part.size ≠ 0

theorem Sized.tail {part : Part} {new : List Part} (h : Sized (part :: new)) : Sized new := by
  intro p hp
  cases new with
  | nil => cases hp
  | cons part' new => exact h p (List.mem_cons_of_mem _ hp)

theorem totalSize_cons (size : UInt32) (sizes : List UInt32) :
    totalSize (size :: sizes) = size.toNat + totalSize sizes :=
  List.sum_cons

theorem autoSize_cons {part : Part} (hsize : part.size ≠ 0) (new : List Part) :
    AutoSize (part :: new) <-> AutoSize new := by
  cases new with
  | nil =>
      constructor
      · rintro ⟨part', hlast, hzero⟩
        cases hlast
        exact absurd hzero hsize
      · rintro ⟨part', hlast, _⟩
        cases hlast
  | cons part' new => exact Iff.rfl

theorem newDescs_cons (offset space : UInt32) {part : Part} (hsize : part.size ≠ 0)
    (new : List Part) :
    exists desc, newDescs offset space (part :: new) =
        desc :: newDescs (offset + part.size) (space - part.size) new ∧
      desc.flashBase = offset ∧ desc.size = part.size := by
  have hpos : 0 < part.size := UInt32.pos_iff_ne_zero.mpr hsize
  rw [newDescs, if_pos hpos]
  exact ⟨_, rfl, rfl, rfl⟩

theorem newDescs_sizes {new : List Part} (h : Sized new) (offset space : UInt32) :
    exists rest, rest < 2 ^ 32 ∧ descSizes (newDescs offset space new) = partSizes new + rest ∧
      (¬ AutoSize new -> rest = 0) ∧
      (AutoSize new -> (partSizes new + rest) % 2 ^ 32 = space.toNat) := by
  induction new generalizing offset space with
  | nil =>
      refine ⟨0, by decide, rfl, fun _ => rfl, ?_⟩
      rintro ⟨part, hlast, _⟩
      cases hlast
  | cons part new ih =>
      by_cases hzero : part.size = 0
      · cases new with
        | cons part' new => exact absurd hzero (h part List.mem_cons_self)
        | nil =>
            have hlt := space.toNat_lt
            have hspace : (if 0 < part.size then part.size else space) = space := by
              rw [hzero]
              exact if_neg (UInt32.lt_irrefl 0)
            have hnone : partSizes [part] = 0 := by
              change part.size.toNat + 0 = 0
              rw [hzero]
              rfl
            refine ⟨space.toNat, hlt, ?_, ?_, ?_⟩
            · rw [hnone, newDescs, hspace]
              exact Nat.add_comm _ _
            · intro hauto
              exact absurd ⟨part, rfl, hzero⟩ hauto
            · intro _
              rw [hnone, Nat.zero_add, Nat.mod_eq_of_lt hlt]
      · rcases newDescs_cons offset space hzero new with ⟨desc, heq, _, hsize⟩
        rcases ih h.tail (offset + part.size) (space - part.size) with
          ⟨rest, hlt, hsum, hgiven, hauto⟩
        have hparts : partSizes (part :: new) = part.size.toNat + partSizes new :=
          totalSize_cons _ _
        refine ⟨rest, hlt, ?_, ?_, ?_⟩
        · have hdescs : descSizes (desc :: newDescs (offset + part.size) (space - part.size) new) =
              desc.size.toNat + descSizes (newDescs (offset + part.size) (space - part.size) new) :=
            totalSize_cons _ _
          rw [heq, hdescs, hsize, hsum, hparts, Nat.add_assoc]
        · rw [autoSize_cons hzero]
          exact hgiven
        · rw [autoSize_cons hzero, hparts]
          intro hlast
          have hleft := hauto hlast
          have hspace := space.toNat_lt
          have hpart := part.size.toNat_lt
          rw [UInt32.toNat_sub] at hleft
          lia

theorem newDescs_backToBack {new : List Part} (h : Sized new) (offset space : UInt32)
    (hlt : offset.toNat + totalSize (new.dropLast.map Part.size) < 2 ^ 32) :
    BackToBack offset.toNat (newDescs offset space new) := by
  induction new generalizing offset space with
  | nil => trivial
  | cons part new ih =>
      cases new with
      | nil => exact ⟨rfl, trivial⟩
      | cons part' new =>
          have hsize := h part List.mem_cons_self
          rcases newDescs_cons offset space hsize (part' :: new) with ⟨desc, heq, hbase, hdesc⟩
          rw [List.dropLast_cons_cons, List.map_cons, totalSize_cons] at hlt
          have hnext : (offset + part.size).toNat = offset.toNat + part.size.toNat := by
            rw [UInt32.toNat_add, Nat.mod_eq_of_lt (by lia)]
          rw [heq]
          refine ⟨congrArg UInt32.toNat hbase, ?_⟩
          rw [hdesc, <- hnext]
          exact ih h.tail (offset + part.size) (space - part.size) (by lia)

theorem dropLast_sizes {new : List Part} (hne : new ≠ []) :
    (AutoSize new -> totalSize (new.dropLast.map Part.size) = partSizes new) ∧
      (¬ AutoSize new -> totalSize (new.dropLast.map Part.size) < partSizes new) := by
  have hsplit : partSizes new =
      totalSize (new.dropLast.map Part.size) + (new.getLast hne).size.toNat := by
    have happend := List.dropLast_append_getLast hne
    have hsum : partSizes (new.dropLast ++ [new.getLast hne]) =
        totalSize (new.dropLast.map Part.size) + (new.getLast hne).size.toNat := by
      simp [partSizes, totalSize]
    rw [happend] at hsum
    exact hsum
  have hlast := List.getLast?_eq_some_getLast hne
  constructor
  · rintro ⟨part, hpart, hzero⟩
    rw [hlast] at hpart
    cases hpart
    rw [hsplit, hzero]
    rfl
  · intro hgiven
    have hne' : (new.getLast hne).size ≠ 0 := fun hzero => hgiven ⟨_, hlast, hzero⟩
    have hpos := UInt32.lt_iff_toNat_lt.mp (UInt32.pos_iff_ne_zero.mpr hne')
    rw [hsplit]
    exact Nat.lt_add_of_pos_right hpos

/-!
## Replacing consecutive entries
-/

/-- A directory with room for the replacement of the consecutive entries `olds`, which was
accepted. -/
structure Directory (block before olds after rest : List Desc) (old new : List Part) : Prop where
  block_eq : block = before ++ (olds ++ (after ++ rest))
  live : Live (before ++ (olds ++ after))
  rest_end : forall desc, rest.head? = some desc -> desc.Terminator
  olds_match : forall desc, desc ∈ olds -> desc.Matches old
  others : forall desc, desc ∈ before ++ after -> ¬ desc.Matches old
  olds_ne : olds ≠ []
  accepted : fisValidate block old new = 1
  room : before.length + new.length + after.length ≤ block.length

section

variable {block before olds after rest : List Desc} {old new : List Part}

theorem Directory.sized (h : Directory block before olds after rest old new) : Sized new := by
  have haccepted := h.accepted
  unfold fisValidate at haccepted
  split at haccepted
  · cases haccepted
  · rename_i hany
    intro part hpart hzero
    rw [List.dropLast_eq_take] at hpart
    exact hany (List.any_eq_true.mpr ⟨part, hpart, beq_iff_eq.mpr hzero⟩)

theorem Directory.scan_eq (h : Directory block before olds after rest old new) :
    scanOld old 0 { offset := 0, first := none, last := none } block =
      { offset := maxBase 0 (before ++ (olds ++ after)), first := some before.length
        last := some (before.length + olds.length - 1) } := by
  have hlive := h.live
  have hbefore : Live before := fun d hd => hlive d (by simp [hd])
  have holds : Live olds := fun d hd => hlive d (by simp [hd])
  have hafter : Live after := fun d hd => hlive d (by simp [hd])
  rcases hcons : olds with _ | ⟨desc, descs⟩
  · exact absurd hcons h.olds_ne
  · rw [hcons] at holds
    have hmatch : forall d, d ∈ desc :: descs -> d.Matches old := hcons ▸ h.olds_match
    rw [h.block_eq, hcons,
      scanOld_others hbefore (fun d hd => h.others d (List.mem_append_left _ hd)),
      List.cons_append, scanOld, if_neg holds.head, if_pos (hmatch desc List.mem_cons_self)]
    dsimp only [Option.none_or]
    rw [scanOld_olds holds.tail (fun d hd => hmatch d (List.mem_cons_of_mem _ hd)),
      scanOld_others hafter (fun d hd => h.others d (List.mem_append_right _ hd)),
      scanOld_end h.rest_end, maxBase_append, List.cons_append, Nat.zero_add, List.length_cons]
    have hlast : (if descs = [] then before.length else before.length + 1 + descs.length - 1) =
        before.length + (descs.length + 1) - 1 := by
      split
      · rename_i hnil
        rw [hnil]
        rfl
      · lia
    rw [hlast]
    exact congrArg
      (fun offset => Scan.mk offset (some before.length)
        (some (before.length + (descs.length + 1) - 1)))
      (maxBase_append _ descs after).symm

theorem Directory.move_eq (h : Directory block before olds after rest old new)
    (hle : olds.length ≤ new.length) :
    exists moved, moveRest (before.length + new.length) (before.length + olds.length) block =
        some moved ∧
      moved.take before.length = before ∧
      moved.drop (before.length + new.length) =
        after ++ rest.take (rest.length - (new.length - olds.length)) := by
  have hblock := h.block_eq
  have hroom := h.room
  have hlength : block.length =
      before.length + (olds.length + (after.length + rest.length)) := by
    rw [hblock]
    simp
  have hbefore : block.take before.length = before := by
    rw [hblock]
    exact List.take_left
  have hbehind : block.drop (before.length + olds.length) = after ++ rest := by
    rw [hblock, <- List.append_assoc, <- List.length_append]
    exact List.drop_left
  by_cases hsame : new.length = olds.length
  · refine ⟨block, ?_, hbefore, ?_⟩
    · rw [moveRest, hsame, if_pos rfl]
    · rw [hsame, hbehind, Nat.sub_self, Nat.sub_zero, List.take_length]
  · have hdesc : (block.take (before.length + new.length)).length =
        before.length + new.length :=
      List.length_take_of_le (by lia)
    have hmax : max (before.length + new.length) (before.length + olds.length) =
        before.length + new.length := Nat.max_eq_left (by lia)
    have hcount : block.length - (before.length + new.length) =
        after.length + (rest.length - (new.length - olds.length)) := by lia
    have htail : (after ++ rest).take (block.length - (before.length + new.length)) =
        after ++ rest.take (rest.length - (new.length - olds.length)) := by
      rw [hcount, List.take_length_add_append]
    have hend : block.drop (before.length + new.length +
        (block.length - (before.length + new.length))) = [] :=
      List.drop_eq_nil_of_le (by lia)
    refine ⟨block.take (before.length + new.length) ++
      (after ++ rest.take (rest.length - (new.length - olds.length))), ?_, ?_, ?_⟩
    · rw [moveRest, if_neg (by lia), hmax, if_neg (by lia)]
      dsimp only
      rw [if_neg (by lia), hbehind, htail, hend, List.append_nil]
    · rw [List.take_append_of_le_length (by lia), List.take_take, Nat.min_eq_left (by lia),
        hbefore]
    · rw [List.drop_append_of_le_length (by lia), List.drop_eq_nil_of_le (by lia),
        List.nil_append]

/-- With fewer new entries the length of the final `memset` is negative. -/
theorem Directory.move_none (h : Directory block before olds after rest old new)
    (hlt : new.length < olds.length) :
    moveRest (before.length + new.length) (before.length + olds.length) block = none := by
  have hlength : block.length =
      before.length + (olds.length + (after.length + rest.length)) := by
    rw [h.block_eq]
    simp
  have hmax : max (before.length + new.length) (before.length + olds.length) =
      before.length + olds.length := Nat.max_eq_right (by lia)
  rw [moveRest, if_neg (by lia), hmax, if_neg (by lia)]
  dsimp only
  rw [if_pos (by lia), fillBlank, if_neg (by lia)]

theorem Directory.remap_eq (h : Directory block before olds after rest old new) :
    exists low high offset : UInt32,
      low.toNat = min (olds.head h.olds_ne).flashBase.toNat
        (olds.getLast h.olds_ne).flashBase.toNat ∧
      high.toNat = max (olds.head h.olds_ne).flashBase.toNat
        (olds.getLast h.olds_ne).flashBase.toNat ∧
      offset.toNat = (nextBase (before ++ (olds ++ after)) high.toNat).getD high.toNat ∧
      fisRemap block old new =
        if new.length < olds.length then none
        else some (before ++ (newDescs low (offset - low) new ++ (after ++
          rest.take (rest.length - (new.length - olds.length))))) := by
  have hne := h.olds_ne
  have hpos : 0 < olds.length := List.length_pos_iff.mpr hne
  have hfirst : block[before.length]? = some (olds.head hne) := by
    rw [h.block_eq, List.getElem?_append_right (Nat.le_refl _), Nat.sub_self,
      List.getElem?_append_left hpos, <- List.head?_eq_getElem?, List.head?_eq_some_head hne]
  have hlast : block[before.length + olds.length - 1]? = some (olds.getLast hne) := by
    have hplace : before.length + olds.length - 1 - before.length = olds.length - 1 := by lia
    rw [h.block_eq, List.getElem?_append_right (by lia), hplace,
      List.getElem?_append_left (by lia), <- List.getLast?_eq_getElem?,
      List.getLast?_eq_some_getLast hne]
  have hsucc : before.length + olds.length - 1 + 1 = before.length + olds.length := by lia
  have hblock : block = (before ++ (olds ++ after)) ++ rest := by
    rw [h.block_eq]
    simp
  have hmem : forall desc, desc ∈ olds -> desc ∈ before ++ (olds ++ after) :=
    fun d hd => List.mem_append_right _ (List.mem_append_left _ hd)
  have hresult : forall low high : UInt32,
      (if (olds.getLast hne).flashBase < (olds.head hne).flashBase then
        ((olds.getLast hne).flashBase, (olds.head hne).flashBase)
      else ((olds.head hne).flashBase, (olds.getLast hne).flashBase)) = (low, high) ->
      fisRemap block old new =
        if new.length < olds.length then none
        else some (before ++ (newDescs low
          (scanSpace high (maxBase 0 (before ++ (olds ++ after))) block - low) new ++ (after ++
            rest.take (rest.length - (new.length - olds.length))))) := by
    intro low high hbases
    have hroom := h.room
    rw [fisRemap, h.scan_eq]
    dsimp only
    rw [hfirst, hlast]
    dsimp only
    rw [hbases, hsucc]
    by_cases hlt : new.length < olds.length
    · rw [if_pos hlt, h.move_none hlt]
    · rcases h.move_eq (Nat.le_of_not_lt hlt) with ⟨moved, hmove, htake, hdrop⟩
      rw [if_neg hlt, hmove]
      dsimp only
      rw [if_pos (by lia), htake, hdrop, List.append_assoc]
  by_cases hswap : (olds.getLast hne).flashBase < (olds.head hne).flashBase
  · have hlt := UInt32.lt_iff_toNat_lt.mp hswap
    refine ⟨(olds.getLast hne).flashBase, (olds.head hne).flashBase,
      scanSpace (olds.head hne).flashBase (maxBase 0 (before ++ (olds ++ after))) block,
      ?_, ?_, ?_, hresult _ _ (if_pos hswap)⟩
    · exact (Nat.min_eq_right (Nat.le_of_lt hlt)).symm
    · exact (Nat.max_eq_left (Nat.le_of_lt hlt)).symm
    · rw [hblock]
      exact scanSpace_maxBase h.live h.rest_end (hmem _ (List.head_mem hne))
  · have hge := UInt32.le_iff_toNat_le.mp (UInt32.not_lt.mp hswap)
    refine ⟨(olds.head hne).flashBase, (olds.getLast hne).flashBase,
      scanSpace (olds.getLast hne).flashBase (maxBase 0 (before ++ (olds ++ after))) block,
      ?_, ?_, ?_, hresult _ _ (if_neg hswap)⟩
    · exact (Nat.min_eq_left hge).symm
    · exact (Nat.max_eq_right hge).symm
    · rw [hblock]
      exact scanSpace_maxBase h.live h.rest_end (hmem _ (List.getLast_mem hne))

/-!
## The space
-/

theorem highestBase_spec {descs : List Desc} (hne : descs ≠ []) :
    (exists desc, desc ∈ descs ∧ desc.flashBase.toNat = highestBase descs) ∧
      forall desc, desc ∈ descs -> desc.flashBase.toNat ≤ highestBase descs :=
  max_spec (fun desc : Desc => desc.flashBase.toNat) hne

theorem highestBase_le_end {descs : List Desc} (hne : descs ≠ []) :
    highestBase descs ≤ highestEnd descs := by
  rcases (highestBase_spec hne).left with ⟨desc, hdesc, hbase⟩
  have hend := (max_spec (fun desc : Desc => desc.flashBase.toNat + desc.size.toNat) hne).right
    desc hdesc
  have hlt := desc.flashBase.toNat_lt
  unfold highestEnd
  lia

theorem spaceEnd_le (olds others : List Desc) : spaceEnd olds others ≤ 2 ^ 32 := by
  unfold spaceEnd
  rcases hnext : nextBase others (highestBase olds) with _ | next
  · exact Nat.min_le_left _ _
  · rcases nextBase_some hnext with ⟨_, ⟨desc, _, hbase⟩, _⟩
    have hlt := desc.flashBase.toNat_lt
    rw [Option.getD_some, <- hbase]
    lia

variable (before after)

theorem nextBase_space (holds : olds ≠ []) {desc : Desc} (hdesc : desc ∈ olds) :
    (nextBase (before ++ (olds ++ after)) desc.flashBase.toNat).getD desc.flashBase.toNat ≤
        spaceEnd olds (before ++ after) ∧
      spaceEnd olds (before ++ after) <
        (nextBase (before ++ (olds ++ after)) desc.flashBase.toNat).getD desc.flashBase.toNat +
          2 ^ 32 := by
  have hhigh := (highestBase_spec holds).right desc hdesc
  have hend := highestBase_le_end holds
  have hmem : forall d, d ∈ before ++ (olds ++ after) -> d ∈ olds ∨ d ∈ before ++ after := by
    intro d hd
    simp only [List.mem_append] at hd ⊢
    tauto
  have hother : forall d, d ∈ before ++ after -> d ∈ before ++ (olds ++ after) := by
    intro d hd
    simp only [List.mem_append] at hd ⊢
    tauto
  have hbound := spaceEnd_le olds (before ++ after)
  unfold spaceEnd at hbound ⊢
  rcases habove : nextBase (before ++ after) (highestBase olds) with _ | above
  · rw [habove] at hbound
    rcases hnext : nextBase (before ++ (olds ++ after)) desc.flashBase.toNat with _ | next
    · refine ⟨Nat.le_trans hhigh hend, ?_⟩
      rcases (max_spec (fun d : Desc => d.flashBase.toNat + d.size.toNat) holds).left with
        ⟨d, hd, hlast⟩
      have hbase := nextBase_none hnext
        (List.mem_append_right before (List.mem_append_left after hd))
      have hsize := d.size.toNat_lt
      unfold highestEnd
      rw [Option.getD_none, Option.getD_none]
      lia
    · rcases nextBase_some hnext with ⟨hlt, ⟨d, hd, hbase⟩, _⟩
      have hle : next ≤ highestBase olds := by
        rw [<- hbase]
        rcases hmem d hd with hold | hd'
        · exact (highestBase_spec holds).right d hold
        · exact nextBase_none habove hd'
      rw [Option.getD_some, Option.getD_none]
      rw [Option.getD_none] at hbound
      exact ⟨Nat.le_trans hle hend, by lia⟩
  · rcases nextBase_some habove with ⟨hlt, ⟨d, hd, hbase⟩, _⟩
    have hsmall := d.flashBase.toNat_lt
    rcases hnext : nextBase (before ++ (olds ++ after)) desc.flashBase.toNat with _ | next
    · have hle := nextBase_none hnext (hother d hd)
      lia
    · have hle := (nextBase_some hnext).right.right d (hother d hd) (by lia)
      rw [Option.getD_some, Option.getD_some]
      exact ⟨by lia, by lia⟩

variable {before after}

/-!
## What a replacement does
-/

/-- The entries before and behind the old ones are kept in order, nothing is written
outside of the block, what is left of the end is as it was, and the new entries have
consecutive ranges in the space of the old ones. -/
def Replaced (block before olds after rest : List Desc) (new : List Part)
    (block' : List Desc) : Prop :=
  exists news rest', block' = before ++ (news ++ (after ++ rest')) ∧
    block'.length = block.length ∧ news.map Desc.name = new.map Part.name ∧
    (exists dropped, rest = rest' ++ dropped) ∧ BackToBack (lowestBase olds) news ∧
    lowestBase olds + descSizes news ≤ spaceEnd olds (before ++ after)

/-- The sizes given fit: without an automatic size into the space of the old entries, with
one below the next entry above `high`. -/
def Fits (before olds after : List Desc) (new : List Part) (high : Nat) : Prop :=
  if AutoSize new then
    lowestBase olds + partSizes new ≤ (nextBase (before ++ (olds ++ after)) high).getD high
  else lowestBase olds + partSizes new ≤ spaceEnd olds (before ++ after)

theorem newDescs_fit_iff (hsized : Sized new) (hne : new ≠ []) (holds : olds ≠ []) {desc : Desc}
    (hdesc : desc ∈ olds) {low offset : UInt32} (hlow : low.toNat ≤ desc.flashBase.toNat)
    (hoffset : offset.toNat = (nextBase (before ++ (olds ++ after))
      desc.flashBase.toNat).getD desc.flashBase.toNat) :
    (BackToBack (lowestBase olds) (newDescs low (offset - low) new) ∧
      lowestBase olds + descSizes (newDescs low (offset - low) new) ≤
        spaceEnd olds (before ++ after)) <->
    low.toNat = lowestBase olds ∧ Fits before olds after new desc.flashBase.toNat := by
  have hfirst : BackToBack (lowestBase olds) (newDescs low (offset - low) new) ->
      low.toNat = lowestBase olds := by
    cases new with
    | nil => exact absurd rfl hne
    | cons part new => exact fun h => h.left
  have hspace := nextBase_space before after holds hdesc
  have hend := spaceEnd_le olds (before ++ after)
  have hsmall := offset.toNat_lt
  have hhigh : desc.flashBase.toNat ≤ offset.toNat := by
    rw [hoffset]
    rcases hnext : nextBase (before ++ (olds ++ after)) desc.flashBase.toNat with _ | next
    · exact Nat.le_refl _
    · exact Nat.le_of_lt (nextBase_some hnext).left
  have hleft : (offset - low).toNat = offset.toNat - low.toNat := by
    have hlt := low.toNat_lt
    rw [UInt32.toNat_sub]
    lia
  rw [<- hoffset] at hspace
  have hdrop := dropLast_sizes hne
  have hranges : low.toNat + totalSize (new.dropLast.map Part.size) < 2 ^ 32 ->
      BackToBack low.toNat (newDescs low (offset - low) new) :=
    newDescs_backToBack hsized low (offset - low)
  rcases newDescs_sizes hsized low (offset - low) with ⟨last, hlast, hsum, hgiven, hauto⟩
  unfold Fits
  rw [<- hoffset, hsum]
  rw [hleft] at hauto
  constructor
  · rintro ⟨hback, hbound⟩
    have heq := hfirst hback
    refine ⟨heq, ?_⟩
    by_cases hsize : AutoSize new
    · have hmod := hauto hsize
      rw [if_pos hsize]
      lia
    · have hzero := hgiven hsize
      rw [if_neg hsize]
      lia
  · rintro ⟨heq, hfits⟩
    rw [<- heq] at hfits ⊢
    by_cases hsize : AutoSize new
    · have hmod := hauto hsize
      have hsame := hdrop.left hsize
      rw [if_pos hsize] at hfits
      exact ⟨hranges (by lia), by lia⟩
    · have hzero := hgiven hsize
      have hless := hdrop.right hsize
      rw [if_neg hsize] at hfits
      exact ⟨hranges (by lia), by lia⟩

/-- A replacement keeps its promises exactly if there are not fewer new entries than old
ones, the lowest old range belongs to the first or the last old entry, and the sizes fit. -/
theorem fisRemap_iff (h : Directory block before olds after rest old new) :
    (exists block', fisRemap block old new = some block' ∧
      Replaced block before olds after rest new block') <->
    olds.length ≤ new.length ∧
      min (olds.head h.olds_ne).flashBase.toNat (olds.getLast h.olds_ne).flashBase.toNat =
        lowestBase olds ∧
      Fits before olds after new
        (max (olds.head h.olds_ne).flashBase.toNat (olds.getLast h.olds_ne).flashBase.toNat) := by
  have hne := h.olds_ne
  have hpos : 0 < olds.length := List.length_pos_iff.mpr hne
  rcases h.remap_eq with ⟨low, high, offset, hlow, hhigh, hoffset, hremap⟩
  rw [hremap]
  by_cases hlt : new.length < olds.length
  · rw [if_pos hlt]
    constructor
    · rintro ⟨_, hnone, _⟩
      cases hnone
    · rintro ⟨hle, _⟩
      exact absurd hle (Nat.not_le.mpr hlt)
  · rw [if_neg hlt]
    have hnew : new ≠ [] := by
      rintro rfl
      exact hlt hpos
    have hother : exists desc, desc ∈ olds ∧ desc.flashBase.toNat = high.toNat := by
      rw [hhigh]
      rcases Nat.le_total (olds.head hne).flashBase.toNat (olds.getLast hne).flashBase.toNat
        with hle | hge
      · exact ⟨_, List.getLast_mem hne, (Nat.max_eq_right hle).symm⟩
      · exact ⟨_, List.head_mem hne, (Nat.max_eq_left hge).symm⟩
    rcases hother with ⟨desc, hdesc, hbase⟩
    have hle : low.toNat ≤ desc.flashBase.toNat := by
      rw [hbase, hlow, hhigh]
      exact Nat.le_trans (Nat.min_le_left _ _) (Nat.le_max_left _ _)
    rw [<- hhigh, <- hlow, <- hbase]
    rw [<- hbase] at hoffset
    have hfit := newDescs_fit_iff h.sized hnew hne hdesc hle hoffset
    have hlength : block.length =
        before.length + (olds.length + (after.length + rest.length)) := by
      rw [h.block_eq]
      simp
    have hroom := h.room
    constructor
    · rintro ⟨block', heq, news, rest', hblock, _, hnames, _, hback, hbound⟩
      cases heq
      have hcount : (newDescs low (offset - low) new).length = news.length := by
        have hnamed : (news.map Desc.name).length = (new.map Part.name).length := by rw [hnames]
        rw [List.length_map, List.length_map] at hnamed
        rw [newDescs_length, hnamed]
      have hnews := (List.append_inj (List.append_cancel_left hblock) hcount).left
      rw [<- hnews] at hback hbound
      exact ⟨Nat.le_of_not_lt hlt, hfit.mp ⟨hback, hbound⟩⟩
    · rintro ⟨_, hfits⟩
      rcases hfit.mpr hfits with ⟨hback, hbound⟩
      refine ⟨_, rfl, _, _, rfl, ?_, newDescs_names _ _ _,
        ⟨_, (List.take_append_drop _ rest).symm⟩, hback, hbound⟩
      simp only [List.length_append, List.length_take, newDescs_length]
      lia

end

/-!
## A kernel and a root file system
-/

def image (name : Bytes) (flashBase size : UInt32) : Desc :=
  { name := name, flashBase := flashBase, memBase := 0, size := size, entryPoint := 0
    dataLength := size, padding := List.replicate 212 0, crcDesc := 0, crcFile := 0 }

def part (name : Bytes) (size : UInt32) : Part :=
  { name := name, loadaddr := 0, size := size, length := 0, crc := 0 }

def bootImage : Desc := image [98, 111, 111, 116] 0 0x40000

def kernelImage : Desc := image [107] 0x40000 0x100000

def rootfsImage : Desc := image [114] 0x140000 0x200000

def configImage : Desc := image [99] 0x3f0000 0x10000

theorem home_directory (new : List Part) (hnew : new.length ≤ 2)
    (haccepted : fisValidate [bootImage, kernelImage, rootfsImage, configImage, blank]
      [part [107] 0, part [114] 0] new = 1) :
    Directory [bootImage, kernelImage, rootfsImage, configImage, blank] [bootImage]
      [kernelImage, rootfsImage] [configImage] [blank] [part [107] 0, part [114] 0] new where
  block_eq := rfl
  live := by
    unfold Live
    decide
  rest_end := by
    intro desc hdesc
    cases hdesc
    decide
  olds_match := by decide
  others := by decide
  olds_ne := by decide
  accepted := haccepted
  room := by
    simp only [List.length_cons, List.length_nil]
    lia

theorem larger_kernel_directory :
    Directory [bootImage, kernelImage, rootfsImage, configImage, blank] [bootImage]
      [kernelImage, rootfsImage] [configImage] [blank] [part [107] 0, part [114] 0]
      [part [107] 0x180000, part [114] 0] :=
  home_directory _ (by decide) (by decide)

/-- A larger kernel, and the root file system in the rest of the space. -/
theorem larger_kernel_replaced :
    exists block', fisRemap [bootImage, kernelImage, rootfsImage, configImage, blank]
        [part [107] 0, part [114] 0] [part [107] 0x180000, part [114] 0] = some block' ∧
      Replaced [bootImage, kernelImage, rootfsImage, configImage, blank] [bootImage]
        [kernelImage, rootfsImage] [configImage] [blank]
        [part [107] 0x180000, part [114] 0] block' := by
  refine (fisRemap_iff larger_kernel_directory).mpr ⟨by decide, by decide, ?_⟩
  unfold Fits
  rw [if_pos (by decide)]
  decide

/-- One entry in place of the two. -/
theorem joined_leaves :
    Directory [bootImage, kernelImage, rootfsImage, configImage, blank] [bootImage]
        [kernelImage, rootfsImage] [configImage] [blank] [part [107] 0, part [114] 0]
        [part [107] 0] ∧
      fisRemap [bootImage, kernelImage, rootfsImage, configImage, blank]
        [part [107] 0, part [114] 0] [part [107] 0] = none :=
  ⟨home_directory [part [107] 0] (by decide) (by decide), by decide⟩

end Fis
end Mtd
end Hlk7621
