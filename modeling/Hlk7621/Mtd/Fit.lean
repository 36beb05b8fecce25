import Hlk7621.Mtd.Firmware

/-!
# Splitting behind a FIT image

Model of `mtdsplit_fit_parse` from `mtdsplit_fit.c` on a CPU of 32 bits.  What libfdt finds
in a FIT is a parameter: the images below its `/images` node with their data properties.
The header is searched with `openwrt,fit-offset` added to every offset; most of the
function adds it again, but the FIT is read without it.

The size of a device has 64 bits, its offsets 32: on a device that reaches into the last
block below 4 GiB both searches go round.  They have fuel, and `none` stands for a search
that has not come to an end.
-/

namespace Hlk7621
namespace Mtd

def OF_DT_HEADER : Nat := 0xd00dfeed

def fdtHeaderSize : Nat := 40

/-- A flash chip; `readOk` tells the ranges that it can read. -/
structure FitDevice where
  size : Nat
  erasesize : Nat
  flash : Nat -> UInt8
  readOk : Nat -> Nat -> Bool
  erasesize_ge : 0x1000 ≤ erasesize
  erasesize_dvd : erasesize ∣ 2 ^ 32
  size_lt : size < 2 ^ 64

namespace FitDevice

variable (M : FitDevice)

/-- `mtd_read` refuses the other ranges. -/
def InRange (off len : Nat) : Prop := off < M.size ∧ len ≤ M.size - off

instance (off len : Nat) : Decidable (M.InRange off len) := instDecidableAnd

def mtdRead (off len : Nat) : Option Bytes :=
  if M.InRange off len ∧ (len = 0 ∨ M.readOk off len) then some (window M.flash off len) else none

def toMtd : MtdInfo := { size := M.size, erasesize := M.erasesize, read := M.mtdRead }

end FitDevice

/-- The properties of an image node: the numbers of `data-position`, `data-offset` and
`data-size`, and where the value of `data` is in the FIT with its length. -/
structure FitImage where
  dataPosition : Option Nat
  dataOffset : Option Nat
  dataSize : Option Nat
  data : Option (Nat × Nat)

/-- `fit_image_get_data_and_size`: the place of the data from the start of the FIT on, and
its size. -/
def fitImageGetDataAndSize (totalsize : Nat) (img : FitImage) : Option (Nat × Nat) :=
  match img.dataPosition with
  | some offset => img.dataSize.map fun len => (offset, len)
  | none =>
      match img.dataOffset with
      | some offset => img.dataSize.map fun len => (u32 (offset + u32 (totalsize + 3) / 4 * 4), len)
      | none => img.data

def imagesLoop (totalsize : Nat) : List FitImage -> Nat -> Option Nat
  | [], maxSize => some maxSize
  | img :: rest, maxSize =>
      match fitImageGetDataAndSize totalsize img with
      | none => none
      | some (offset, size) =>
          let imgTotal := u32 (size + offset)
          imagesLoop totalsize rest (if maxSize > imgTotal then maxSize else imgTotal)

def fdtMagic (hdr : Bytes) : Nat := beNat (hdr.take 4)

def fdtTotalsize (hdr : Bytes) : Nat := beNat ((hdr.drop 4).take 4)

/-- What a call returns, where it takes the FIT to be, and how many bytes it stores in the
buffer that it allocates for it. -/
structure FitParse where
  result : Except Int (List MtdPartition)
  position : Nat := 0
  stored : Nat := 0
  allocated : Nat := 0

section

variable (M : FitDevice) (offsetStart : Nat)

/-- The search: `offset` and the last header where it ends. -/
def searchFit : Nat -> Nat -> Bytes -> Option (Except Int (Nat × Bytes))
  | 0, _, _ => none
  | fuel + 1, offset, hdr =>
      if u32 (offset + fdtHeaderSize) ≤ M.size then
        match M.mtdRead (u32 (offset + offsetStart)) fdtHeaderSize with
        | none => some (.error (- EIO))
        | some hdr =>
            if fdtMagic hdr ≠ OF_DT_HEADER then searchFit fuel (u32 (offset + M.erasesize)) hdr
            else some (.ok (offset, hdr))
      else some (.ok (offset, hdr))

/-- `mtd_find_rootfs_from` with the size of the device, as a `size_t`, for its limit. -/
def findRootfsFrom : Nat -> Nat -> Option (Except Int (Nat × PartType))
  | 0, _ => none
  | fuel + 1, offset =>
      if offset < u32 M.size then
        match mtdCheckRootfsMagic M.toMtd offset with
        | .error _ => findRootfsFrom fuel (mtdNextEb M.toMtd offset)
        | .ok type => some (.ok (offset, type))
      else some (.error (-ENODEV))

variable (images : Bytes -> Option (List FitImage))

/-- Behind a FIT that holds its data, with what the search for a root filesystem gives. -/
def splitEmbedded (fitOffset fitSize : Nat) : Except Int (Nat × PartType) -> FitParse
  | .error ret => { result := .error ret }
  | .ok (rootfsOffset, type) =>
      { result := .ok
          [⟨"kernel", fitOffset, mtdRoundupToEb (u32 (fitSize + offsetStart)) M.erasesize⟩,
            ⟨if type = .ubi then "ubi" else "rootfs", rootfsOffset,
              u32 (M.size - rootfsOffset)⟩]
        position := u32 (fitOffset + offsetStart) }

/-- Behind the external data of a FIT. -/
def splitExternal (fitOffset fitSize : Nat) : FitParse :=
  let len := u32 (fitSize + offsetStart)
  match M.mtdRead fitOffset len with
  | none =>
      { result := .error (- EIO)
        stored := if M.InRange fitOffset len then len else 0
        allocated := fitSize }
  | some bytes =>
      let fit := bytes ++ List.replicate (fitSize - len) 0
      let r : Except Int (List MtdPartition) :=
        match images fit with
        | none => .error (-ENODEV)
        | some imgs =>
            match imagesLoop (fdtTotalsize fit) imgs 0 with
            | none => .ok []
            | some maxSize =>
                let offset := fitOffset + mtdRoundupToEb maxSize M.erasesize
                .ok [⟨"rootfs_data", offset, sub64 M.size offset⟩]
      { result := r, position := fitOffset, stored := len, allocated := fitSize }

def splitBehind (fuel fitOffset : Nat) (hdr : Bytes) : Option FitParse :=
  let fitSize := fdtTotalsize hdr
  if fitSize = 0 then some { result := .error (-ENODEV) }
  else if fitSize > 0x1000 then
    (findRootfsFrom M fuel (u32 (fitOffset + fitSize + offsetStart))).map
      (splitEmbedded M offsetStart fitOffset fitSize)
  else some (splitExternal M offsetStart images fitOffset fitSize)

/-- `mtdsplit_fit_parse`; `garbage` is what `hdr` holds at first, and `matched` tells
whether the command line is the one of `openwrt,cmdline-match`. -/
def mtdsplitFitParse (matched : Bool) (garbage : Bytes) (fuel : Nat) : Option FitParse :=
  if matched then
    match searchFit M offsetStart fuel 0 garbage with
    | none => none
    | some (.error ret) => some { result := .error ret }
    | some (.ok (fitOffset, hdr)) => splitBehind M offsetStart images fuel fitOffset hdr
  else some { result := .error (-ENODEV) }

end

/-!
## Proper splits
-/

/-- The parts are inside the device, the kernel in front of the root filesystem.  A size of
zero would stand for the rest of the device. -/
def PlacedParts (M : FitDevice) : List MtdPartition -> Prop
  | [kernel, rootfs] => 0 < kernel.size ∧ kernel.offset + kernel.size ≤ rootfs.offset ∧
      rootfs.offset + rootfs.size ≤ M.size
  | [data] => data.offset + data.size ≤ M.size
  | _ => True

def MagicAt (M : FitDevice) (position : Nat) : Prop :=
  position + fdtHeaderSize ≤ M.size ∧ beNat (window M.flash position 4) = OF_DT_HEADER

structure Proper (M : FitDevice) (p : FitParse) : Prop where
  stored : p.stored ≤ p.allocated
  parts : forall parts, p.result = .ok parts -> parts ≠ [] ->
    PlacedParts M parts ∧ MagicAt M p.position

/-!
## Where the search ends
-/

section

variable (M : FitDevice) (offsetStart : Nat)

/-- No FIT begins at the blocks in front of `o`, and their headers can be read. -/
def Passed (o : Nat) : Prop :=
  forall offset, M.erasesize ∣ offset -> offset < o -> offset + fdtHeaderSize ≤ M.size ∧
    exists hdr, M.mtdRead (u32 (offset + offsetStart)) fdtHeaderSize = some hdr ∧
      fdtMagic hdr ≠ OF_DT_HEADER

structure Found (o : Nat) (hdr : Bytes) : Prop where
  aligned : M.erasesize ∣ o
  passed : Passed M offsetStart o
  inside : o + fdtHeaderSize ≤ M.size
  read : M.mtdRead (u32 (o + offsetStart)) fdtHeaderSize = some hdr
  magic : fdtMagic hdr = OF_DT_HEADER

/-- There is none, and the last header read is `hdr`. -/
structure Missed (garbage : Bytes) (o : Nat) (hdr : Bytes) : Prop where
  aligned : M.erasesize ∣ o
  passed : Passed M offsetStart o
  outside : M.size < o + fdtHeaderSize
  last : (o = 0 ∧ hdr = garbage) ∨ (M.erasesize ≤ o ∧
    M.mtdRead (u32 (o - M.erasesize + offsetStart)) fdtHeaderSize = some hdr)

structure Stuck (o : Nat) : Prop where
  aligned : M.erasesize ∣ o
  passed : Passed M offsetStart o
  inside : o + fdtHeaderSize ≤ M.size
  read : M.mtdRead (u32 (o + offsetStart)) fdtHeaderSize = none

end

section

variable {M : FitDevice} {offsetStart : Nat} {garbage : Bytes}

theorem Passed.next {o : Nat} {hdr : Bytes} (h : Passed M offsetStart o)
    (haligned : M.erasesize ∣ o) (hinside : o + fdtHeaderSize ≤ M.size)
    (hread : M.mtdRead (u32 (o + offsetStart)) fdtHeaderSize = some hdr)
    (hmagic : fdtMagic hdr ≠ OF_DT_HEADER) : Passed M offsetStart (o + M.erasesize) := by
  intro offset hdvd hlt
  rcases Nat.lt_trichotomy offset o with hbelow | rfl | habove
  · exact h offset hdvd hbelow
  · exact ⟨hinside, hdr, hread, hmagic⟩
  · have := block_fits hdvd haligned habove
    omega

theorem Passed.lt {o : Nat} (h : Passed M offsetStart o)
    (hends : ¬ Passed M offsetStart (2 ^ 32)) : o < 2 ^ 32 := by
  by_contra hge
  exact hends fun offset hdvd hlt => h offset hdvd (by omega)

theorem dvd_u32 {n : Nat} (h : M.erasesize ∣ n) : M.erasesize ∣ u32 n := by
  unfold u32
  exact (Nat.dvd_mod_iff M.erasesize_dvd).mpr h

theorem searchFit_add {fuel offset : Nat} {hdr : Bytes} {x : Except Int (Nat × Bytes)} (k : Nat)
    (h : searchFit M offsetStart fuel offset hdr = some x) :
    searchFit M offsetStart (fuel + k) offset hdr = some x := by
  induction fuel generalizing offset hdr with
  | zero => cases h
  | succ fuel ih =>
      rw [Nat.add_right_comm, searchFit]
      rw [searchFit] at h
      split at h
      · rename_i hinside
        rw [if_pos hinside]
        split at h
        · exact h
        · split at h
          · rename_i hmagic
            rw [if_pos hmagic]
            exact ih h
          · rename_i hmagic
            rw [if_neg hmagic]
            exact h
      · rename_i houtside
        rw [if_neg houtside]
        exact h

/-- Where every block below 4 GiB is passed the search goes round and round. -/
theorem searchFit_hangs (hpassed : Passed M offsetStart (2 ^ 32)) {fuel offset : Nat} {hdr : Bytes}
    (haligned : M.erasesize ∣ offset) (hlt : offset < 2 ^ 32) :
    searchFit M offsetStart fuel offset hdr = none := by
  induction fuel generalizing offset hdr with
  | zero => rfl
  | succ fuel ih =>
      have hfits := block_fits M.erasesize_dvd haligned hlt
      have herase := M.erasesize_ge
      have hsum : u32 (offset + fdtHeaderSize) = offset + fdtHeaderSize := by
        apply u32_of_lt
        unfold fdtHeaderSize
        omega
      rcases hpassed offset haligned hlt with ⟨hinside, hdr', hread, hmagic⟩
      rw [searchFit, hsum, if_pos hinside, hread]
      dsimp only
      rw [if_pos hmagic]
      exact ih (dvd_u32 (Nat.dvd_add haligned (Nat.dvd_refl _))) (u32_lt _)

/-- The search ends at the first FIT, behind the last block, or where a read fails. -/
theorem searchFit_ends (hends : ¬ Passed M offsetStart (2 ^ 32)) (garbage hdr : Bytes)
    {offset : Nat} (haligned : M.erasesize ∣ offset) (hpassed : Passed M offsetStart offset)
    (hlast : (offset = 0 ∧ hdr = garbage) ∨ (M.erasesize ≤ offset ∧
      M.mtdRead (u32 (offset - M.erasesize + offsetStart)) fdtHeaderSize = some hdr)) :
    (exists fuel ret o, searchFit M offsetStart fuel offset hdr = some (.error ret) ∧
      Stuck M offsetStart o) ∨
    exists fuel o hdr', searchFit M offsetStart fuel offset hdr = some (.ok (o, hdr')) ∧
      (Found M offsetStart o hdr' ∨ Missed M offsetStart garbage o hdr') := by
  induction hn : 2 ^ 32 - offset using Nat.strongRecOn generalizing offset hdr with
  | ind n ih =>
      have hlt := hpassed.lt hends
      have hfits := block_fits M.erasesize_dvd haligned hlt
      have herase := M.erasesize_ge
      have hsum : u32 (offset + fdtHeaderSize) = offset + fdtHeaderSize := by
        apply u32_of_lt
        unfold fdtHeaderSize
        omega
      by_cases hinside : offset + fdtHeaderSize ≤ M.size
      · cases hread : M.mtdRead (u32 (offset + offsetStart)) fdtHeaderSize with
        | none =>
            refine Or.inl ⟨1, - EIO, offset, ?_, ⟨haligned, hpassed, hinside, hread⟩⟩
            rw [searchFit, hsum, if_pos hinside, hread]
        | some hdr' =>
            by_cases hmagic : fdtMagic hdr' = OF_DT_HEADER
            · refine Or.inr ⟨1, offset, hdr', ?_,
                Or.inl ⟨haligned, hpassed, hinside, hread, hmagic⟩⟩
              rw [searchFit, hsum, if_pos hinside, hread]
              dsimp only
              rw [if_neg (not_not_intro hmagic)]
            · have hnext := hpassed.next haligned hinside hread hmagic
              have hstep : forall fuel, searchFit M offsetStart (fuel + 1) offset hdr =
                  searchFit M offsetStart fuel (offset + M.erasesize) hdr' := by
                intro fuel
                rw [searchFit, hsum, if_pos hinside, hread]
                dsimp only
                rw [if_pos hmagic, u32_of_lt (hnext.lt hends)]
              have hrest := ih _ (by omega) hdr' (Nat.dvd_add haligned (Nat.dvd_refl _)) hnext
                (Or.inr ⟨Nat.le_add_left _ _, by rw [Nat.add_sub_cancel]; exact hread⟩) rfl
              rcases hrest with ⟨fuel, ret, o, hend, hstuck⟩ | ⟨fuel, o, hdr'', hend, hcase⟩
              · exact Or.inl ⟨fuel + 1, ret, o, (hstep fuel).trans hend, hstuck⟩
              · exact Or.inr ⟨fuel + 1, o, hdr'', (hstep fuel).trans hend, hcase⟩
      · refine Or.inr ⟨1, offset, hdr, ?_,
          Or.inr ⟨haligned, hpassed, Nat.lt_of_not_le hinside, hlast⟩⟩
        rw [searchFit, hsum, if_neg hinside]

theorem Found.unique {o o' : Nat} {hdr hdr' : Bytes} (h : Found M offsetStart o hdr)
    (h' : Found M offsetStart o' hdr') : o' = o ∧ hdr' = hdr := by
  have hnot : forall {o o' : Nat} {hdr hdr' : Bytes}, Found M offsetStart o hdr ->
      Found M offsetStart o' hdr' -> ¬ o < o' := by
    intro o o' hdr hdr' h h' hlt
    rcases h'.passed o h.aligned hlt with ⟨_, other, hread, hmagic⟩
    rw [h.read] at hread
    cases hread
    exact hmagic h.magic
  have heq : o' = o := by
    have := hnot h h'
    have := hnot h' h
    omega
  subst heq
  have hread := h'.read
  rw [h.read] at hread
  cases hread
  exact ⟨rfl, rfl⟩

theorem Missed.unique {o o' : Nat} {hdr hdr' : Bytes} (h : Missed M offsetStart garbage o hdr)
    (h' : Missed M offsetStart garbage o' hdr') : o' = o ∧ hdr' = hdr := by
  have hnot : forall {o o' : Nat} {hdr hdr' : Bytes}, Missed M offsetStart garbage o hdr ->
      Missed M offsetStart garbage o' hdr' -> ¬ o < o' := by
    intro o o' hdr hdr' h h' hlt
    exact Nat.not_lt.mpr (h'.passed o h.aligned hlt).1 h.outside
  have heq : o' = o := by
    have := hnot h h'
    have := hnot h' h
    omega
  subst heq
  have herase := M.erasesize_ge
  refine ⟨rfl, ?_⟩
  rcases h.last with ⟨hzero, rfl⟩ | ⟨hpos, hread⟩
  · rcases h'.last with ⟨_, rfl⟩ | ⟨hpos', _⟩
    · rfl
    · omega
  · rcases h'.last with ⟨hzero', _⟩ | ⟨_, hread'⟩
    · omega
    · rw [hread] at hread'
      cases hread'
      rfl

theorem Found.not_missed {o o' : Nat} {hdr hdr' : Bytes} (h : Found M offsetStart o hdr)
    (h' : Missed M offsetStart garbage o' hdr') : False := by
  have hout := h'.outside
  have hin := h.inside
  have hlt : o < o' := by omega
  rcases h'.passed o h.aligned hlt with ⟨_, other, hread, hmagic⟩
  rw [h.read] at hread
  cases hread
  exact hmagic h.magic

theorem Stuck.not_found {o o' : Nat} {hdr : Bytes} (h : Stuck M offsetStart o)
    (h' : Found M offsetStart o' hdr) : False := by
  rcases Nat.lt_trichotomy o o' with hlt | rfl | hlt
  · rcases h'.passed o h.aligned hlt with ⟨_, other, hread, _⟩
    rw [h.read] at hread
    cases hread
  · have hread := h'.read
    rw [h.read] at hread
    cases hread
  · rcases h.passed o' h'.aligned hlt with ⟨_, other, hread, hmagic⟩
    rw [h'.read] at hread
    cases hread
    exact hmagic h'.magic

theorem Stuck.not_missed {o o' : Nat} {hdr : Bytes} (h : Stuck M offsetStart o)
    (h' : Missed M offsetStart garbage o' hdr) : False := by
  have hout := h'.outside
  have hin := h.inside
  have hlt : o < o' := by omega
  rcases h'.passed o h.aligned hlt with ⟨_, other, hread, _⟩
  rw [h.read] at hread
  cases hread

/-!
## Behind a FIT with its data
-/

theorem u32_le (n : Nat) : u32 n ≤ n := by
  unfold u32
  exact Nat.mod_le _ _

def RootfsBehind (M : FitDevice) (start : Nat) : Prop :=
  exists r type, (r = start ∨ (M.erasesize ∣ r ∧ start < r)) ∧ r < u32 M.size ∧
    mtdCheckRootfsMagic M.toMtd r = .ok type

/-- There is none, and the search for it does not go round. -/
def NoneBehind (M : FitDevice) (start : Nat) : Prop :=
  u32 M.size ≤ start ∨ (u32 M.size + M.erasesize ≤ 2 ^ 32 ∧ ¬ RootfsBehind M start)

theorem mtdNextEb_cases {offset : Nat} (h : offset < 2 ^ 32) :
    (mtdNextEb M.toMtd offset = 0 ∧ 2 ^ 32 ≤ offset + M.erasesize) ∨
      (M.erasesize ∣ mtdNextEb M.toMtd offset ∧ offset < mtdNextEb M.toMtd offset ∧
        mtdNextEb M.toMtd offset + M.erasesize ≤ 2 ^ 32 ∧
        forall r, M.erasesize ∣ r -> offset < r -> mtdNextEb M.toMtd offset ≤ r) := by
  have hpos : 0 < M.erasesize := Nat.lt_of_lt_of_le (by decide) M.erasesize_ge
  have hmod := Nat.div_add_mod' offset M.erasesize
  have hrest := Nat.mod_lt offset hpos
  have hdvd : M.erasesize ∣ offset / M.erasesize * M.erasesize := Nat.dvd_mul_left _ _
  have hfits := block_fits M.erasesize_dvd hdvd (by omega)
  have hnext : mtdNextEb M.toMtd offset =
      u32 (offset / M.erasesize * M.erasesize + M.erasesize) := by
    unfold mtdNextEb mtdRounddownToEb
    show u32 ((if offset % M.erasesize = 0 then offset
      else u32 (offset / M.erasesize * M.erasesize)) + M.erasesize) = _
    split
    · rw [show offset / M.erasesize * M.erasesize = offset by omega]
    · rw [u32_of_lt (n := offset / M.erasesize * M.erasesize) (by omega)]
  rw [hnext]
  rcases Nat.eq_or_lt_of_le hfits with heq | hlt
  · rw [heq]
    refine Or.inl ⟨?_, by omega⟩
    unfold u32
    exact Nat.mod_self _
  · rw [u32_of_lt hlt]
    refine Or.inr ⟨Nat.dvd_add hdvd (Nat.dvd_refl _), by omega,
      block_fits M.erasesize_dvd (Nat.dvd_add hdvd (Nat.dvd_refl _)) hlt, ?_⟩
    intro r hr hbehind
    exact block_fits hr hdvd (by omega)

theorem RootfsBehind.next {offset : Nat} (h : RootfsBehind M offset) (hlt : offset < 2 ^ 32)
    (hnot : forall type, mtdCheckRootfsMagic M.toMtd offset ≠ .ok type) :
    offset < mtdNextEb M.toMtd offset ∧ RootfsBehind M (mtdNextEb M.toMtd offset) := by
  rcases h with ⟨r, type, rfl | ⟨hr, hbehind⟩, hlimit, hmagic⟩
  · exact absurd hmagic (hnot type)
  · have hr32 := Nat.lt_trans hlimit (u32_lt M.size)
    rcases mtdNextEb_cases (M := M) hlt with ⟨_, hlast⟩ | ⟨_, habove, _, hleast⟩
    · have hfits := block_fits M.erasesize_dvd hr hr32
      omega
    · refine ⟨habove, r, type, ?_, hlimit, hmagic⟩
      rcases Nat.eq_or_lt_of_le (hleast r hr hbehind) with heq | hlt'
      · exact Or.inl heq.symm
      · exact Or.inr ⟨hr, hlt'⟩

theorem RootfsBehind.of_next {offset : Nat} (h : RootfsBehind M (mtdNextEb M.toMtd offset))
    (hdvd : M.erasesize ∣ mtdNextEb M.toMtd offset) (hlt : offset < mtdNextEb M.toMtd offset) :
    RootfsBehind M offset := by
  rcases h with ⟨r, type, rfl | ⟨hr, hbehind⟩, hlimit, hmagic⟩
  · exact ⟨_, type, Or.inr ⟨hdvd, hlt⟩, hlimit, hmagic⟩
  · exact ⟨r, type, Or.inr ⟨hr, Nat.lt_trans hlt hbehind⟩, hlimit, hmagic⟩

theorem NoneBehind.next {offset : Nat} (h : NoneBehind M offset) (hlimit : offset < u32 M.size) :
    offset < mtdNextEb M.toMtd offset ∧ NoneBehind M (mtdNextEb M.toMtd offset) := by
  rcases h with hend | ⟨hshort, hnone⟩
  · omega
  · have hlt : offset < 2 ^ 32 := Nat.lt_trans hlimit (u32_lt M.size)
    rcases mtdNextEb_cases (M := M) hlt with ⟨_, hlast⟩ | ⟨hdvd, habove, _⟩
    · omega
    · exact ⟨habove, Or.inr ⟨hshort, fun hrootfs => hnone (hrootfs.of_next hdvd habove)⟩⟩

theorem findRootfsFrom_add {fuel offset : Nat} {x : Except Int (Nat × PartType)} (k : Nat)
    (h : findRootfsFrom M fuel offset = some x) : findRootfsFrom M (fuel + k) offset = some x := by
  induction fuel generalizing offset with
  | zero => cases h
  | succ fuel ih =>
      rw [Nat.add_right_comm, findRootfsFrom]
      rw [findRootfsFrom] at h
      split at h
      · rename_i hlt
        rw [if_pos hlt]
        split at h
        · exact ih h
        · exact h
      · rename_i hge
        rw [if_neg hge]
        exact h

/-- A root filesystem is taken from the first place looked at, or from the start of a
block; from one in front of it only when there is none behind it. -/
theorem findRootfsFrom_ok {fuel offset r : Nat} {type : PartType} (hlt : offset < 2 ^ 32)
    (h : findRootfsFrom M fuel offset = some (.ok (r, type))) :
    r < u32 M.size ∧ mtdCheckRootfsMagic M.toMtd r = .ok type ∧
      (r = offset ∨ (M.erasesize ∣ r ∧ forall t, mtdCheckRootfsMagic M.toMtd offset ≠ .ok t)) ∧
      (RootfsBehind M offset -> offset ≤ r) := by
  induction fuel generalizing offset with
  | zero => cases h
  | succ fuel ih =>
      rw [findRootfsFrom] at h
      split at h
      · rename_i hlimit
        split at h
        · rename_i ret hmagic
          have hnot : forall t, mtdCheckRootfsMagic M.toMtd offset ≠ .ok t := by
            intro t ht
            rw [hmagic] at ht
            cases ht
          have hnext : mtdNextEb M.toMtd offset < 2 ^ 32 ∧
              M.erasesize ∣ mtdNextEb M.toMtd offset := by
            refine ⟨u32_lt _, ?_⟩
            rcases mtdNextEb_cases (M := M) hlt with ⟨hzero, _⟩ | ⟨hdvd, _⟩
            · rw [hzero]
              exact Nat.dvd_zero _
            · exact hdvd
          rcases ih hnext.1 h with ⟨hr, hok, hplace, hbehind⟩
          refine ⟨hr, hok, Or.inr ⟨?_, hnot⟩, ?_⟩
          · rcases hplace with rfl | ⟨hdvd, _⟩
            · exact hnext.2
            · exact hdvd
          · intro hrootfs
            have hmore := hrootfs.next hlt hnot
            exact Nat.le_of_lt (Nat.lt_of_lt_of_le hmore.1 (hbehind hmore.2))
        · rename_i hmagic
          cases h
          exact ⟨hlimit, hmagic, Or.inl rfl, fun _ => Nat.le_refl _⟩
      · cases h

theorem findRootfsFrom_error {fuel offset : Nat} {ret : Int} (hlt : offset < 2 ^ 32)
    (h : findRootfsFrom M fuel offset = some (.error ret)) : NoneBehind M offset := by
  induction fuel generalizing offset with
  | zero => cases h
  | succ fuel ih =>
      rw [findRootfsFrom] at h
      split at h
      · rename_i hlimit
        split at h
        · rename_i ret' hmagic
          have hnot : forall t, mtdCheckRootfsMagic M.toMtd offset ≠ .ok t := by
            intro t ht
            rw [hmagic] at ht
            cases ht
          have hnext32 : mtdNextEb M.toMtd offset < 2 ^ 32 := u32_lt _
          have hnone := ih hnext32 h
          rcases mtdNextEb_cases (M := M) hlt with ⟨hzero, hlast⟩ | ⟨_, _, hfits, _⟩
          · rw [hzero] at hnone
            rcases hnone with hnone | ⟨hshort, _⟩ <;> omega
          · refine Or.inr ⟨by rcases hnone with hnone | ⟨hshort, _⟩ <;> omega, ?_⟩
            intro hrootfs
            rcases hnone with hend | ⟨_, hnone⟩
            · rcases (hrootfs.next hlt hnot).2 with ⟨r, type, hplace, hr, _⟩
              omega
            · exact hnone (hrootfs.next hlt hnot).2
        · cases h
      · rename_i hge
        exact Or.inl (Nat.le_of_not_lt hge)

theorem NoneBehind.not_ok {fuel offset : Nat} {r : Nat × PartType} (h : NoneBehind M offset) :
    findRootfsFrom M fuel offset ≠ some (.ok r) := by
  induction fuel generalizing offset with
  | zero =>
      intro hok
      cases hok
  | succ fuel ih =>
      intro hok
      rw [findRootfsFrom] at hok
      split at hok
      · rename_i hlimit
        split at hok
        · exact ih (h.next hlimit).2 hok
        · rename_i type hmagic
          rcases h with hend | ⟨_, hnone⟩
          · omega
          · exact hnone ⟨offset, type, Or.inl rfl, hlimit, hmagic⟩
      · cases hok

theorem findRootfsFrom_ends {offset : Nat} (hlt : offset < 2 ^ 32)
    (h : NoneBehind M offset ∨ RootfsBehind M offset) :
    exists fuel x, findRootfsFrom M fuel offset = some x := by
  induction hn : 2 ^ 32 - offset using Nat.strongRecOn generalizing offset with
  | ind n ih =>
      by_cases hlimit : offset < u32 M.size
      · cases hmagic : mtdCheckRootfsMagic M.toMtd offset with
        | ok type =>
            refine ⟨1, .ok (offset, type), ?_⟩
            rw [findRootfsFrom, if_pos hlimit, hmagic]
        | error ret =>
            have hnot : forall t, mtdCheckRootfsMagic M.toMtd offset ≠ .ok t := by
              intro t ht
              rw [hmagic] at ht
              cases ht
            have hnext : offset < mtdNextEb M.toMtd offset ∧
                (NoneBehind M (mtdNextEb M.toMtd offset) ∨
                  RootfsBehind M (mtdNextEb M.toMtd offset)) := by
              rcases h with hnone | hrootfs
              · have hmore := hnone.next hlimit
                exact ⟨hmore.1, Or.inl hmore.2⟩
              · have hmore := hrootfs.next hlt hnot
                exact ⟨hmore.1, Or.inr hmore.2⟩
            have hnext32 : mtdNextEb M.toMtd offset < 2 ^ 32 := u32_lt _
            rcases ih _ (by omega) hnext32 hnext.2 rfl with ⟨fuel, x, hx⟩
            refine ⟨fuel + 1, x, ?_⟩
            rw [findRootfsFrom, if_pos hlimit, hmagic]
            exact hx
      · refine ⟨1, .error (-ENODEV), ?_⟩
        rw [findRootfsFrom, if_neg hlimit]

/-- The rounded size of a kernel, when it has not become zero. -/
theorem mtdRoundupToEb_bounds {s : Nat} (hs : s < 2 ^ 32)
    (hpos : 0 < mtdRoundupToEb s M.erasesize) :
    s ≤ mtdRoundupToEb s M.erasesize ∧
      (mtdRoundupToEb s M.erasesize = s <-> M.erasesize ∣ s) := by
  have herase : 0 < M.erasesize := Nat.lt_of_lt_of_le (by decide) M.erasesize_ge
  have hmod := Nat.div_add_mod' s M.erasesize
  have hrest := Nat.mod_lt s herase
  unfold mtdRoundupToEb at hpos ⊢
  by_cases hzero : s % M.erasesize = 0
  · rw [if_pos hzero]
    exact ⟨Nat.le_refl _, iff_of_true rfl (Nat.dvd_of_mod_eq_zero hzero)⟩
  · rw [if_neg hzero] at hpos ⊢
    rw [Nat.succ_mul] at hpos ⊢
    have hle : s / M.erasesize * M.erasesize + M.erasesize ≤ 2 ^ 32 := by
      have hlt : s / M.erasesize * M.erasesize < 2 ^ 32 := by omega
      exact block_fits M.erasesize_dvd (Nat.dvd_mul_left _ _) hlt
    have hne : s / M.erasesize * M.erasesize + M.erasesize ≠ 2 ^ 32 := by
      intro heq
      rw [heq] at hpos
      unfold u32 at hpos
      omega
    rw [u32_of_lt (by omega)]
    refine ⟨by omega, iff_of_false (by omega) ?_⟩
    intro hdvd
    exact hzero (Nat.mod_eq_zero_of_dvd hdvd)

theorem mtdRoundupToEb_le {s x : Nat} (hx : M.erasesize ∣ x) (hlt : s < x) (hbound : x < 2 ^ 32) :
    mtdRoundupToEb s M.erasesize ≤ x ∧ (0 < s -> 0 < mtdRoundupToEb s M.erasesize) := by
  have herase : 0 < M.erasesize := Nat.lt_of_lt_of_le (by decide) M.erasesize_ge
  have hmod := Nat.div_add_mod' s M.erasesize
  have hrest := Nat.mod_lt s herase
  unfold mtdRoundupToEb
  by_cases hzero : s % M.erasesize = 0
  · rw [if_pos hzero]
    exact ⟨Nat.le_of_lt hlt, fun h => h⟩
  · rw [if_neg hzero, Nat.succ_mul]
    have hle : s / M.erasesize * M.erasesize + M.erasesize ≤ x :=
      block_fits hx (Nat.dvd_mul_left _ _) (by omega)
    rw [u32_of_lt (by omega)]
    exact ⟨hle, fun _ => by omega⟩

/-- The end of the FIT has not wrapped; the root filesystem is behind it, and not taken
from inside its last block. -/
def EndsClean (M : FitDevice) (offsetStart o n : Nat) : Prop :=
  0 < u32 (n + offsetStart) ∧ o + u32 (n + offsetStart) < 2 ^ 32 ∧
    RootfsBehind M (o + u32 (n + offsetStart)) ∧
    (M.erasesize ∣ u32 (n + offsetStart) ∨
      forall t, mtdCheckRootfsMagic M.toMtd (o + u32 (n + offsetStart)) ≠ .ok t)

theorem kernel_ends_iff {fuel o n r : Nat} {type : PartType} (haligned : M.erasesize ∣ o)
    (h : findRootfsFrom M fuel (u32 (o + n + offsetStart)) = some (.ok (r, type))) :
    (0 < mtdRoundupToEb (u32 (n + offsetStart)) M.erasesize ∧
      o + mtdRoundupToEb (u32 (n + offsetStart)) M.erasesize ≤ r) <->
    EndsClean M offsetStart o n := by
  unfold EndsClean
  have hs := u32_lt (n + offsetStart)
  have hfrom : u32 (o + n + offsetStart) = u32 (o + u32 (n + offsetStart)) := by
    unfold u32
    omega
  rw [hfrom] at h
  generalize u32 (n + offsetStart) = s at *
  rcases findRootfsFrom_ok (u32_lt _) h with ⟨hlimit, hok, hplace, hleast⟩
  have hr := Nat.lt_trans hlimit (u32_lt M.size)
  constructor
  · rintro ⟨hpos, hle⟩
    rcases mtdRoundupToEb_bounds hs hpos with ⟨hge, hsame⟩
    have hlt : o + s < 2 ^ 32 := by omega
    rw [u32_of_lt hlt] at hplace
    have hbehind : r = o + s ∨ (M.erasesize ∣ r ∧ o + s < r) := by
      rcases hplace with heq | ⟨hdvd, _⟩
      · exact Or.inl heq
      · rcases Nat.eq_or_lt_of_le (show o + s ≤ r by omega) with heq | hlt'
        · exact Or.inl heq.symm
        · exact Or.inr ⟨hdvd, hlt'⟩
    refine ⟨?_, hlt, ⟨r, type, hbehind, hlimit, hok⟩, ?_⟩
    · by_contra hzero
      have hs0 : s = 0 := by omega
      rw [hs0] at hpos
      unfold mtdRoundupToEb at hpos
      simp at hpos
    · rcases hplace with rfl | ⟨_, hnot⟩
      · exact Or.inl (hsame.mp (by omega))
      · exact Or.inr hnot
  · rintro ⟨hpos, hlt, hbehind, hend⟩
    rw [u32_of_lt hlt] at hplace hleast
    have habove := hleast hbehind
    by_cases hdvd : M.erasesize ∣ s
    · have hround : mtdRoundupToEb s M.erasesize = s := if_pos (Nat.mod_eq_zero_of_dvd hdvd)
      rw [hround]
      exact ⟨hpos, habove⟩
    · have hnot : forall t, mtdCheckRootfsMagic M.toMtd (o + s) ≠ .ok t := by
        rcases hend with hend | hend
        · exact absurd hend hdvd
        · exact hend
      rcases hplace with rfl | ⟨hr', _⟩
      · exact absurd hok (hnot type)
      · have hne : s < r - o := by
          have hrest : M.erasesize ∣ r - o := Nat.dvd_sub hr' haligned
          rcases Nat.eq_or_lt_of_le (show s ≤ r - o by omega) with heq | hlt'
          · exact absurd (heq ▸ hrest) hdvd
          · exact hlt'
        have hle := mtdRoundupToEb_le (s := s) (Nat.dvd_sub hr' haligned) hne (by omega)
        exact ⟨hle.2 hpos, by omega⟩

/-!
## The parts
-/

theorem readHeader_position {position : Nat} {hdr : Bytes}
    (hread : M.mtdRead position fdtHeaderSize = some hdr) :
    position + fdtHeaderSize ≤ M.size ∧ fdtMagic hdr = beNat (window M.flash position 4) := by
  unfold FitDevice.mtdRead at hread
  split at hread
  · rename_i hok
    cases hread
    rcases hok.1 with ⟨hlt, hle⟩
    have hslice := window_slice M.flash position (show 0 + 4 ≤ fdtHeaderSize by decide)
    rw [List.drop_zero, Nat.add_zero] at hslice
    unfold fdtMagic
    rw [hslice]
    exact ⟨by omega, rfl⟩
  · cases hread

theorem Found.magicAt {o : Nat} {hdr : Bytes} (h : Found M offsetStart o hdr) :
    MagicAt M (u32 (o + offsetStart)) := by
  rcases readHeader_position h.read with ⟨hle, hmagic⟩
  exact ⟨hle, hmagic.symm.trans h.magic⟩

end

section

variable (M : FitDevice) (offsetStart : Nat)

def NoRootfs (o n : Nat) : Prop := NoneBehind M (u32 (o + n + offsetStart))

variable (images : Bytes -> Option (List FitImage))

def ImagesEnd (o n maxSize : Nat) : Prop :=
  exists bytes imgs, M.mtdRead o (u32 (n + offsetStart)) = some bytes ∧
    images (bytes ++ List.replicate (n - u32 (n + offsetStart)) 0) = some imgs ∧
    imagesLoop (fdtTotalsize (bytes ++ List.replicate (n - u32 (n + offsetStart)) 0)) imgs 0 =
      some maxSize

end

section

variable {M : FitDevice} {offsetStart : Nat} {images : Bytes -> Option (List FitImage)}

theorem Proper.of_error {ret : Int} {position stored allocated : Nat} (h : stored ≤ allocated) :
    Proper M ⟨.error ret, position, stored, allocated⟩ := by
  refine ⟨h, ?_⟩
  intro parts hparts
  cases hparts

theorem splitEmbedded_proper_iff {o n : Nat} (haligned : M.erasesize ∣ o) :
    (exists fuel p, (findRootfsFrom M fuel (u32 (o + n + offsetStart))).map
        (splitEmbedded M offsetStart o n) = some p ∧ Proper M p) <->
      NoRootfs M offsetStart o n ∨
        (EndsClean M offsetStart o n ∧ MagicAt M (u32 (o + offsetStart))) := by
  have hstart := u32_lt (o + n + offsetStart)
  constructor
  · rintro ⟨fuel, p, hp, h⟩
    rw [Option.map_eq_some_iff] at hp
    rcases hp with ⟨x, hx, rfl⟩
    cases x with
    | error ret => exact Or.inl (findRootfsFrom_error hstart hx)
    | ok r =>
        rcases r with ⟨r, type⟩
        rcases h.parts _ rfl (List.cons_ne_nil _ _) with ⟨⟨hpos, hle, _⟩, hmagic⟩
        exact Or.inr ⟨(kernel_ends_iff haligned hx).mp ⟨hpos, hle⟩, hmagic⟩
  · intro h
    have hends : NoneBehind M (u32 (o + n + offsetStart)) ∨
        RootfsBehind M (u32 (o + n + offsetStart)) := by
      rcases h with hnone | ⟨⟨_, hlt, hbehind, _⟩, _⟩
      · exact Or.inl hnone
      · have hfrom : u32 (o + n + offsetStart) = o + u32 (n + offsetStart) := by
          unfold u32 at hlt ⊢
          omega
        rw [hfrom]
        exact Or.inr hbehind
    rcases findRootfsFrom_ends hstart hends with ⟨fuel, x, hx⟩
    refine ⟨fuel, _, Option.map_eq_some_iff.mpr ⟨x, hx, rfl⟩, ?_⟩
    cases x with
    | error ret => exact Proper.of_error (Nat.le_refl _)
    | ok r =>
        rcases r with ⟨r, type⟩
        have hr := findRootfsFrom_ok hstart hx
        have hlimit := hr.1
        rcases h with hnone | ⟨hclean, hmagic⟩
        · exact absurd hx hnone.not_ok
        · rcases (kernel_ends_iff haligned hx).mpr hclean with ⟨hpos, hle⟩
          refine ⟨Nat.le_refl _, ?_⟩
          intro parts hparts _
          cases hparts
          refine ⟨⟨hpos, hle, ?_⟩, hmagic⟩
          have hsize := u32_le M.size
          have hrest := u32_le (M.size - r)
          dsimp only
          omega

theorem add_sub64_le_iff {offset : Nat} (hoffset : offset < 2 ^ 33) :
    offset + sub64 M.size offset ≤ M.size <-> offset ≤ M.size := by
  have hsize := M.size_lt
  unfold sub64
  omega

theorem imagesLoop_lt {totalsize maxSize : Nat} {imgs : List FitImage} {start : Nat}
    (hstart : start < 2 ^ 32) (h : imagesLoop totalsize imgs start = some maxSize) :
    maxSize < 2 ^ 32 := by
  induction imgs generalizing start with
  | nil =>
      cases h
      exact hstart
  | cons img rest ih =>
      rw [imagesLoop] at h
      split at h
      · cases h
      · refine ih ?_ h
        split
        · exact hstart
        · exact u32_lt _

theorem splitExternal_proper_iff {o n : Nat} (ho : o < 2 ^ 32) :
    Proper M (splitExternal M offsetStart images o n) <->
      ¬ M.InRange o (u32 (n + offsetStart)) ∨ (u32 (n + offsetStart) ≤ n ∧
        forall maxSize, ImagesEnd M offsetStart images o n maxSize ->
          o + mtdRoundupToEb maxSize M.erasesize ≤ M.size ∧ MagicAt M o) := by
  unfold splitExternal ImagesEnd
  dsimp only
  cases hread : M.mtdRead o (u32 (n + offsetStart)) with
  | none =>
      dsimp only
      constructor
      · intro h
        by_cases hin : M.InRange o (u32 (n + offsetStart))
        · have hstored := h.stored
          rw [if_pos hin] at hstored
          refine Or.inr ⟨hstored, ?_⟩
          rintro maxSize ⟨bytes, imgs, hbytes, _⟩
          cases hbytes
        · exact Or.inl hin
      · rintro (hout | ⟨hle, _⟩)
        · rw [if_neg hout]
          exact Proper.of_error (Nat.zero_le _)
        · apply Proper.of_error
          split
          · exact hle
          · exact Nat.zero_le _
  | some bytes =>
      have hin : M.InRange o (u32 (n + offsetStart)) := by
        unfold FitDevice.mtdRead at hread
        split at hread
        · rename_i hok
          exact hok.1
        · cases hread
      have hround : forall {totalsize maxSize : Nat} {imgs : List FitImage},
          imagesLoop totalsize imgs 0 = some maxSize ->
          o + mtdRoundupToEb maxSize M.erasesize < 2 ^ 33 := by
        intro totalsize maxSize imgs hloop
        have hmax := imagesLoop_lt (by decide) hloop
        have hlt : mtdRoundupToEb maxSize M.erasesize < 2 ^ 32 := by
          unfold mtdRoundupToEb
          split
          · exact hmax
          · exact u32_lt _
        omega
      rw [or_iff_right (not_not_intro hin)]
      dsimp only
      constructor
      · intro h
        refine ⟨h.stored, ?_⟩
        rintro maxSize ⟨bytes', imgs, hbytes, himgs, hloop⟩
        cases hbytes
        have hparts := h.parts
        rw [himgs] at hparts
        dsimp only at hparts
        rw [hloop] at hparts
        rcases hparts _ rfl (List.cons_ne_nil _ _) with ⟨hplaced, hmagic⟩
        exact ⟨(add_sub64_le_iff (hround hloop)).mp hplaced, hmagic⟩
      · rintro ⟨hle, h⟩
        refine ⟨hle, ?_⟩
        intro parts hparts hne
        dsimp only at hparts
        split at hparts
        · cases hparts
        · rename_i imgs himgs
          split at hparts
          · cases hparts
            exact absurd rfl hne
          · rename_i maxSize hloop
            cases hparts
            rcases h maxSize ⟨bytes, imgs, rfl, himgs, hloop⟩ with ⟨hend, hmagic⟩
            exact ⟨(add_sub64_le_iff (hround hloop)).mpr hend, hmagic⟩

end

/-- No part comes of what a small FIT is read from, or it fits the buffer. -/
def ReadsSmall (M : FitDevice) (offsetStart o n : Nat) (ends : Prop) : Prop :=
  0 < n ∧ n ≤ 0x1000 ∧
    (¬ M.InRange o (u32 (n + offsetStart)) ∨ (u32 (n + offsetStart) ≤ n ∧ ends))

/-- What the FIT at a block must be like: it is empty, or no part comes of it, or it ends
as the parts need it; a small one has to be at the start of its block. -/
def SplitsAt (M : FitDevice) (offsetStart : Nat) (images : Bytes -> Option (List FitImage))
    (o n : Nat) : Prop :=
  n = 0 ∨
    (0x1000 < n ∧ (NoRootfs M offsetStart o n ∨ EndsClean M offsetStart o n)) ∨
    ReadsSmall M offsetStart o n
      (forall maxSize, ImagesEnd M offsetStart images o n maxSize ->
        o + mtdRoundupToEb maxSize M.erasesize ≤ M.size ∧ MagicAt M o)

/-- What the last header must be like where there is no FIT: no part comes of it. -/
def SplitsNowhere (M : FitDevice) (offsetStart : Nat)
    (images : Bytes -> Option (List FitImage)) (o n : Nat) : Prop :=
  n = 0 ∨ (0x1000 < n ∧ NoRootfs M offsetStart o n) ∨
    ReadsSmall M offsetStart o n (forall maxSize, ¬ ImagesEnd M offsetStart images o n maxSize)

section

variable {M : FitDevice} {offsetStart : Nat} {images : Bytes -> Option (List FitImage)}
  {garbage : Bytes}

theorem ReadsSmall.congr {o n : Nat} {ends ends' : Prop} (h : ends <-> ends') :
    ReadsSmall M offsetStart o n ends <-> ReadsSmall M offsetStart o n ends' := by
  unfold ReadsSmall
  rw [h]

theorem splitBehind_proper_iff {o : Nat} (haligned : M.erasesize ∣ o) (ho : o < 2 ^ 32)
    (hdr : Bytes) :
    (exists fuel p, splitBehind M offsetStart images fuel o hdr = some p ∧ Proper M p) <->
      fdtTotalsize hdr = 0 ∨
        (0x1000 < fdtTotalsize hdr ∧ (NoRootfs M offsetStart o (fdtTotalsize hdr) ∨
          (EndsClean M offsetStart o (fdtTotalsize hdr) ∧ MagicAt M (u32 (o + offsetStart))))) ∨
        ReadsSmall M offsetStart o (fdtTotalsize hdr)
          (forall maxSize, ImagesEnd M offsetStart images o (fdtTotalsize hdr) maxSize ->
            o + mtdRoundupToEb maxSize M.erasesize ≤ M.size ∧ MagicAt M o) := by
  unfold splitBehind ReadsSmall
  dsimp only
  generalize fdtTotalsize hdr = n
  by_cases hzero : n = 0
  · refine iff_of_true ⟨0, _, if_pos hzero, Proper.of_error (Nat.le_refl _)⟩ (Or.inl hzero)
  · rw [or_iff_right hzero]
    simp only [if_neg hzero]
    by_cases hlarge : n > 0x1000
    · simp only [if_pos hlarge]
      rw [splitEmbedded_proper_iff haligned]
      constructor
      · exact fun h => Or.inl ⟨hlarge, h⟩
      · rintro (⟨_, h⟩ | ⟨_, hsmall, _⟩)
        · exact h
        · omega
    · simp only [if_neg hlarge]
      constructor
      · rintro ⟨_, p, hp, h⟩
        cases hp
        exact Or.inr ⟨by omega, by omega, (splitExternal_proper_iff ho).mp h⟩
      · rintro (⟨hbig, _⟩ | ⟨_, _, h⟩)
        · omega
        · exact ⟨0, _, rfl, (splitExternal_proper_iff ho).mpr h⟩

theorem Found.proper_iff {o : Nat} {hdr : Bytes} (h : Found M offsetStart o hdr)
    (ho : o < 2 ^ 32) :
    (exists fuel p, splitBehind M offsetStart images fuel o hdr = some p ∧ Proper M p) <->
      SplitsAt M offsetStart images o (fdtTotalsize hdr) := by
  rw [splitBehind_proper_iff h.aligned ho, and_iff_left h.magicAt]
  rfl

theorem Missed.proper_iff {o : Nat} {hdr : Bytes} (h : Missed M offsetStart garbage o hdr)
    (ho : o < 2 ^ 32) (hno : ¬ MagicAt M (u32 (o + offsetStart))) :
    (exists fuel p, splitBehind M offsetStart images fuel o hdr = some p ∧ Proper M p) <->
      SplitsNowhere M offsetStart images o (fdtTotalsize hdr) := by
  have hmagic : ¬ MagicAt M o := fun hm => Nat.not_lt.mpr hm.1 h.outside
  have hends : (forall maxSize, ImagesEnd M offsetStart images o (fdtTotalsize hdr) maxSize ->
        o + mtdRoundupToEb maxSize M.erasesize ≤ M.size ∧ MagicAt M o) <->
      forall maxSize, ¬ ImagesEnd M offsetStart images o (fdtTotalsize hdr) maxSize :=
    forall_congr' fun _ => imp_congr_right fun _ => iff_of_false (fun hm => hmagic hm.2) id
  have hlarge : (NoRootfs M offsetStart o (fdtTotalsize hdr) ∨
      (EndsClean M offsetStart o (fdtTotalsize hdr) ∧ MagicAt M (u32 (o + offsetStart)))) <->
      NoRootfs M offsetStart o (fdtTotalsize hdr) :=
    or_iff_left fun hboth => hno hboth.2
  rw [splitBehind_proper_iff h.aligned ho, hlarge, ReadsSmall.congr hends]
  rfl

theorem Passed.no_wrap {o : Nat} (h : Passed M offsetStart o) (hstart : offsetStart < 2 ^ 32)
    (hsize : M.size + M.erasesize < 2 ^ 32 + fdtHeaderSize) (k : Nat) (hk : k * M.erasesize < o) :
    k * M.erasesize + offsetStart + fdtHeaderSize ≤ M.size := by
  induction k with
  | zero =>
      rcases h 0 (Nat.dvd_zero _) (by omega) with ⟨_, hdr, hread, _⟩
      have hle := (readHeader_position hread).1
      rw [Nat.zero_add, u32_of_lt hstart] at hle
      omega
  | succ k ih =>
      rw [Nat.succ_mul] at hk ⊢
      have hprev := ih (by omega)
      have hdvd : M.erasesize ∣ k * M.erasesize + M.erasesize :=
        Nat.dvd_add (Nat.dvd_mul_left _ _) (Nat.dvd_refl _)
      rcases h _ hdvd hk with ⟨_, hdr, hread, _⟩
      have hle := (readHeader_position hread).1
      rwa [u32_of_lt (by omega)] at hle

theorem Missed.beyond {o : Nat} {hdr : Bytes} (h : Missed M offsetStart garbage o hdr)
    (ho : o < 2 ^ 32) (hstart : offsetStart < 2 ^ 32) : ¬ MagicAt M (u32 (o + offsetStart)) := by
  have hout := h.outside
  have hfits := block_fits M.erasesize_dvd h.aligned ho
  rcases h.aligned with ⟨k, hk⟩
  rw [Nat.mul_comm] at hk
  have hsum : o + offsetStart < 2 ^ 32 := by
    cases k with
    | zero =>
        rw [Nat.zero_mul] at hk
        omega
    | succ k =>
        have herase := M.erasesize_ge
        rw [Nat.succ_mul] at hk
        have hprev := h.passed.no_wrap hstart (by omega) k (by omega)
        omega
  rintro ⟨hle, _⟩
  rw [u32_of_lt hsum] at hle
  omega

theorem splitBehind_add {fuel o : Nat} {hdr : Bytes} {p : FitParse} (k : Nat)
    (h : splitBehind M offsetStart images fuel o hdr = some p) :
    splitBehind M offsetStart images (fuel + k) o hdr = some p := by
  unfold splitBehind at h ⊢
  dsimp only at h ⊢
  split at h
  · rename_i hzero
    rw [if_pos hzero]
    exact h
  · rename_i hzero
    rw [if_neg hzero]
    split at h
    · rename_i hlarge
      rw [if_pos hlarge]
      rw [Option.map_eq_some_iff] at h ⊢
      rcases h with ⟨x, hx, hp⟩
      exact ⟨x, findRootfsFrom_add k hx, hp⟩
    · rename_i hlarge
      rw [if_neg hlarge]
      exact h

theorem parse_ok {fuel o : Nat} {hdr : Bytes}
    (hend : searchFit M offsetStart fuel 0 garbage = some (.ok (o, hdr))) :
    (exists fuel p, mtdsplitFitParse M offsetStart images true garbage fuel = some p ∧
      Proper M p) <->
      exists fuel p, splitBehind M offsetStart images fuel o hdr = some p ∧ Proper M p := by
  unfold mtdsplitFitParse
  simp only [if_true]
  constructor
  · rintro ⟨fuel', p, hp, h⟩
    cases hx : searchFit M offsetStart fuel' 0 garbage with
    | none =>
        rw [hx] at hp
        cases hp
    | some x =>
        have hsame := searchFit_add fuel hx
        rw [Nat.add_comm, searchFit_add fuel' hend] at hsame
        cases hsame
        rw [hx] at hp
        exact ⟨fuel', p, hp, h⟩
  · rintro ⟨fuel', p, hp, h⟩
    refine ⟨fuel + fuel', p, ?_, h⟩
    rw [searchFit_add fuel' hend, Nat.add_comm]
    exact splitBehind_add fuel hp

/-- `mtdsplit_fit_parse` comes to an end, fails or splits the device as it should, and stays
in its buffer, exactly when not every block below 4 GiB is passed and the first FIT is one
of `SplitsAt`, or there is none and the last header is one of `SplitsNowhere`. -/
theorem mtdsplit_fit_parse_iff (M : FitDevice) (offsetStart : Nat)
    (hstart : offsetStart < 2 ^ 32) (images : Bytes -> Option (List FitImage)) (matched : Bool)
    (garbage : Bytes) :
    (exists fuel p, mtdsplitFitParse M offsetStart images matched garbage fuel = some p ∧
      Proper M p) <->
      (matched = true -> ¬ Passed M offsetStart (2 ^ 32) ∧
        (forall o hdr, Found M offsetStart o hdr ->
          SplitsAt M offsetStart images o (fdtTotalsize hdr)) ∧
        forall o hdr, Missed M offsetStart garbage o hdr ->
          SplitsNowhere M offsetStart images o (fdtTotalsize hdr)) := by
  cases matched with
  | false =>
      refine iff_of_true ⟨0, _, rfl, Proper.of_error (Nat.le_refl _)⟩ ?_
      exact fun h => absurd h Bool.false_ne_true
  | true =>
      rw [imp_iff_right rfl]
      by_cases hhangs : Passed M offsetStart (2 ^ 32)
      · refine iff_of_false ?_ fun h => h.1 hhangs
        rintro ⟨fuel, p, hp, _⟩
        unfold mtdsplitFitParse at hp
        rw [if_pos rfl, searchFit_hangs hhangs (Nat.dvd_zero _) (by decide)] at hp
        cases hp
      · rw [and_iff_right hhangs]
        have hpassed : Passed M offsetStart 0 := fun offset _ hlt => absurd hlt (Nat.not_lt_zero _)
        rcases searchFit_ends hhangs garbage garbage (Nat.dvd_zero _) hpassed
          (Or.inl ⟨rfl, rfl⟩) with
          ⟨fuel, ret, o, hend, hstuck⟩ | ⟨fuel, o, hdr, hend, hfound | hmissed⟩
        · refine iff_of_true ⟨fuel, { result := .error ret }, ?_,
            Proper.of_error (Nat.le_refl _)⟩
            ⟨fun o' hdr hf => absurd hf (fun hf => hstuck.not_found hf),
              fun o' hdr hm => absurd hm fun hm => hstuck.not_missed hm⟩
          unfold mtdsplitFitParse
          rw [if_pos rfl, hend]
        · rw [parse_ok hend, hfound.proper_iff (hfound.passed.lt hhangs)]
          constructor
          · intro h
            refine ⟨?_, fun o' hdr' hm => absurd hm fun hm => hfound.not_missed hm⟩
            intro o' hdr' hf
            rcases hfound.unique hf with ⟨rfl, rfl⟩
            exact h
          · exact fun h => h.1 o hdr hfound
        · have ho := hmissed.passed.lt hhangs
          rw [parse_ok hend, hmissed.proper_iff ho (hmissed.beyond ho hstart)]
          constructor
          · intro h
            refine ⟨fun o' hdr' hf => absurd hf fun hf => hf.not_missed hmissed, ?_⟩
            intro o' hdr' hm
            rcases hmissed.unique hm with ⟨rfl, rfl⟩
            exact h
          · exact fun h => h.2 o hdr hmissed

end

def smallFit : FitDevice where
  size := 0x2000
  erasesize := 0x1000
  flash := overwrite (fun _ => 0xff) 0x40 [0xd0, 0x0d, 0xfe, 0xed, 0, 0, 1, 0]
  readOk := fun _ _ => true
  erasesize_ge := by decide
  erasesize_dvd := by decide
  size_lt := by decide

theorem small_fit_split :
    (0x40 : Nat) < 2 ^ 32 ∧
      ((exists fuel p, mtdsplitFitParse smallFit 0x40 (fun _ => none) true [] fuel = some p ∧
        Proper smallFit p) <->
        (true = true -> ¬ Passed smallFit 0x40 (2 ^ 32) ∧
          (forall o hdr, Found smallFit 0x40 o hdr ->
            SplitsAt smallFit 0x40 (fun _ => none) o (fdtTotalsize hdr)) ∧
          forall o hdr, Missed smallFit 0x40 [] o hdr ->
            SplitsNowhere smallFit 0x40 (fun _ => none) o (fdtTotalsize hdr))) :=
  ⟨by decide, mtdsplit_fit_parse_iff smallFit 0x40 (by decide) (fun _ => none) true []⟩

/-- With the offset of the FIT added to its size, 320 bytes are read into 256. -/
theorem small_fit_overruns :
    ¬ exists fuel p, mtdsplitFitParse smallFit 0x40 (fun _ => none) true [] fuel = some p ∧
      Proper smallFit p := by
  rintro ⟨fuel, p, hp, h⟩
  cases fuel with
  | zero => cases hp
  | succ fuel =>
      have hread : smallFit.mtdRead (u32 (0 + 0x40)) fdtHeaderSize =
          some (window smallFit.flash 0x40 40) := by
        decide +kernel
      have hmagic : fdtMagic (window smallFit.flash 0x40 40) = OF_DT_HEADER := by decide +kernel
      have hsize : fdtTotalsize (window smallFit.flash 0x40 40) = 256 := by decide +kernel
      have hinside : u32 (0 + fdtHeaderSize) ≤ smallFit.size := by decide +kernel
      unfold mtdsplitFitParse splitBehind at hp
      rw [if_pos rfl, searchFit, if_pos hinside, hread] at hp
      dsimp only at hp
      rw [if_neg (not_not_intro hmagic)] at hp
      dsimp only at hp
      rw [hsize, if_neg (by decide), if_neg (by decide)] at hp
      cases hp
      exact absurd h.stored (by decide +kernel)

end Mtd
end Hlk7621
