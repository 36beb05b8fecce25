import Hlk7621.UBoot.Image
import Hlk7621.UBoot.Memmove

/-!
# Boot images of the MT7621

Model of `mtk_image_set_mt7621_header` and `mtk_image_verify_mt7621_header` from
`tools/mtk_image.c`.  The image is in memory from address 0 on; what is behind it is
arbitrary.  The check notes down the ranges that it reads.
-/

namespace Hlk7621
namespace UBoot
namespace MtkImage

def IH_OS_U_BOOT : Nat := 17
def IH_TYPE_STANDALONE : Nat := 1
def IH_COMP_NONE : Nat := 0

def MT7621_IH_CRC_POLYNOMIAL : BitVec 32 := 0x04c11db7#32

abbrev Memory := Nat -> UInt8

/-!
## The checksum of the boot ROM
-/

def crc32NormalEntry : Nat -> BitVec 32 -> BitVec 32
  | 0, v => v
  | j + 1, v =>
      crc32NormalEntry j
        ((v <<< 1) ^^^ if v &&& 0x80000000#32 ≠ 0#32 then MT7621_IH_CRC_POLYNOMIAL else 0#32)

/-- Entry `i` of the table that `crc32_normal_init` builds. -/
def crc32tbl (i : Nat) : BitVec 32 := crc32NormalEntry 8 (BitVec.ofNat 32 i <<< 24)

def crc32NormalCal (crc : BitVec 32) (data : Bytes) : BitVec 32 :=
  data.foldl (fun crc b =>
    crc32tbl ((crc >>> 24 ^^^ Crc.byteWord b) &&& 255#32).toNat ^^^ crc <<< 8) crc

/-- The bytes of a `size_t` up to its highest one that is not zero, lowest first. -/
def lengthBytes : Nat -> Nat -> Bytes
  | 0, _ => []
  | n + 1, length => if length = 0 then [] else UInt8.ofNat length :: lengthBytes n (length / 256)

def crc32beCal (data : Bytes) : BitVec 32 :=
  ~~~ crc32NormalCal (crc32NormalCal 0#32 data) (lengthBytes 8 data.length)

/-!
## Fields
-/

def cpuToBe32 (v : Nat) : Bytes := [v / 2 ^ 24, v / 2 ^ 16, v / 2 ^ 8, v].map UInt8.ofNat

def setL (field v : Nat) (mem : Memory) : Memory := overwrite mem field (cpuToBe32 v)

def setB (field v : Nat) (mem : Memory) : Memory := overwrite mem field [UInt8.ofNat v]

def getL (mem : Memory) (field : Nat) : Nat := beNat (window mem field 4)

/-!
## The generator
-/

/-- `mtk_image_set_mt7621_header` up to the checksums of the header. -/
def fillHeader (filesize loadaddr time : Nat) (mem : Memory) : Memory :=
  let datasize := sub32 filesize imageGetHeaderSize
  let mem := setL (imageGetHeaderSize + 8) loadaddr mem
  let mem := setL (imageGetHeaderSize + 12) datasize mem
  let mem := setL 0 IH_MAGIC mem
  let mem := setL 8 time mem
  let mem := setL 12 datasize mem
  let mem := setL 16 loadaddr mem
  let mem := setL 20 loadaddr mem
  let mem := setB 28 IH_OS_U_BOOT mem
  let mem := setB 29 IH_ARCH_MIPS mem
  let mem := setB 30 IH_TYPE_STANDALONE mem
  let mem := setB 31 IH_COMP_NONE mem
  let mem := setL 24 (crc32 0#32 imageGetHeaderSize
    (window mem imageGetHeaderSize datasize)).toNat mem
  let mem := overwrite mem 32 (str "MT7621 NAND" ++ [0])
  setL 48 imageGetHeaderSize mem

def setMt7621Header (filesize loadaddr time : Nat) (mem : Memory) : Memory :=
  let mem := fillHeader filesize loadaddr time mem
  let mem := setL 60 (crc32beCal (window mem 0 imageGetHeaderSize)).toNat mem
  setL 4 (crc32 0#32 0 (window mem 0 imageGetHeaderSize)).toNat mem

/-!
## The check
-/

structure Verdict where
  accepted : Bool
  reads : List (Nat × Nat)

/-- The checksum of `image_check_hcrc`, taken on a copy of the header. -/
def headerCrc (mem : Memory) : Nat :=
  (crc32 0#32 0 (window (setL 4 0 mem) 0 imageGetHeaderSize)).toNat

def dataCrc (mem : Memory) (size : Nat) : Nat :=
  (crc32 0#32 imageGetHeaderSize (window mem imageGetHeaderSize size)).toNat

/-- Both checksum fields of the copy are blanked. -/
def nandCrc (mem : Memory) : Nat :=
  (crc32beCal (window (setL 60 0 (setL 4 0 mem)) 0 imageGetHeaderSize)).toNat

def verifyMt7621Header (imgSize : Nat) (mem : Memory) : Verdict :=
  let splSize := getL mem 12
  if imgSize < splSize then { accepted := false, reads := [(12, 4)] }
  else if headerCrc mem ≠ getL mem 4 then
    { accepted := false, reads := [(12, 4), (0, imageGetHeaderSize), (4, 4)] }
  else
    let reads := [(12, 4), (0, imageGetHeaderSize), (4, 4), (12, 4),
      (imageGetHeaderSize, splSize), (24, 4)]
    if dataCrc mem splSize ≠ getL mem 24 then { accepted := false, reads := reads }
    else
      { accepted := getL (setL 4 0 mem) 60 = nandCrc mem
        reads := reads ++ [(0, imageGetHeaderSize)] }

/-!
## Reading fields back
-/

section

variable {mem : Memory} {field v w : Nat}

theorem window_setL_of_disjoint {off len : Nat} (h : off + len ≤ field ∨ field + 4 ≤ off) :
    window (setL field v mem) off len = window mem off len :=
  window_overwrite_disjoint h

theorem window_setB_of_disjoint {off len : Nat} (h : off + len ≤ field ∨ field + 1 ≤ off) :
    window (setB field v mem) off len = window mem off len :=
  window_overwrite_disjoint h

theorem window_setL : window (setL field v mem) field 4 = cpuToBe32 v :=
  window_overwrite_self mem field (cpuToBe32 v)

theorem beNat_cpuToBe32 (v : Nat) : beNat (cpuToBe32 v) = u32 v := by
  unfold beNat cpuToBe32 u32
  simp only [List.map_cons, List.map_nil, List.reverse_cons, List.reverse_nil, List.nil_append,
    List.cons_append, leNat, UInt8.toNat_ofNat']
  omega

theorem getL_setL : getL (setL field v mem) field = u32 v := by
  unfold getL
  rw [window_setL, beNat_cpuToBe32]

theorem getL_setL_of_disjoint {field' : Nat} (h : field' + 4 ≤ field ∨ field + 4 ≤ field') :
    getL (setL field v mem) field' = getL mem field' := by
  unfold getL
  rw [window_setL_of_disjoint h]

theorem setL_setL : setL field v (setL field w mem) = setL field v mem := by
  funext a
  unfold setL overwrite
  by_cases h : field ≤ a ∧ a < field + (cpuToBe32 v).length
  · rw [if_pos h, if_pos h]
  · rw [if_neg h, if_neg h]
    exact if_neg h

theorem setL_window (h : window mem field 4 = cpuToBe32 v) : setL field v mem = mem := by
  funext a
  unfold setL overwrite
  by_cases ha : field ≤ a ∧ a < field + (cpuToBe32 v).length
  · have hlt : a < field + 4 := ha.2
    rw [if_pos ha, <- h, List.getD_eq_getElem?_getD,
      window_getElem? mem field 4 (a - field) (by omega), Option.getD_some,
      Nat.add_sub_cancel' ha.1]
  · rw [if_neg ha]

end

/-!
## What the generator writes
-/

section

variable (filesize loadaddr time : Nat) (mem : Memory)

theorem window_fillHeader_hcrc :
    window (fillHeader filesize loadaddr time mem) 4 4 = window mem 4 4 := by
  unfold fillHeader imageGetHeaderSize
  simp (disch := decide) only [window_setL_of_disjoint, window_setB_of_disjoint,
    window_overwrite_disjoint]

theorem window_fillHeader_nandCrc :
    window (fillHeader filesize loadaddr time mem) 60 4 = window mem 60 4 := by
  unfold fillHeader imageGetHeaderSize
  simp (disch := decide) only [window_setL_of_disjoint, window_setB_of_disjoint,
    window_overwrite_disjoint]

theorem getL_fillHeader_size :
    getL (fillHeader filesize loadaddr time mem) 12 = sub32 filesize imageGetHeaderSize := by
  have hlt : sub32 filesize imageGetHeaderSize < 2 ^ 32 := by
    unfold sub32
    omega
  unfold fillHeader getL
  simp (disch := decide) only [window_setL_of_disjoint, window_setB_of_disjoint,
    window_overwrite_disjoint, window_setL, beNat_cpuToBe32]
  exact u32_of_lt hlt

theorem getL_fillHeader_dcrc :
    getL (fillHeader filesize loadaddr time mem) 24 =
      dataCrc (fillHeader filesize loadaddr time mem) (sub32 filesize imageGetHeaderSize) := by
  unfold fillHeader getL dataCrc imageGetHeaderSize
  simp (disch := first | decide | (right; decide)) only [window_setL_of_disjoint,
    window_setB_of_disjoint, window_overwrite_disjoint, window_setL, beNat_cpuToBe32]
  exact u32_of_lt (BitVec.isLt _)

end

/-!
## The generator and the check
-/

def stored (bs : Bytes) (beyond : Memory) : Memory := overwrite beyond 0 bs

theorem window_stored_zeros {payload : Bytes} {beyond : Memory} {off len : Nat}
    (h : off + len ≤ imageGetHeaderSize) :
    window (stored (List.replicate imageGetHeaderSize 0 ++ payload) beyond) off len =
      List.replicate len 0 := by
  rw [List.eq_replicate_iff]
  refine ⟨window_length _ _ _, ?_⟩
  intro b hb
  rcases List.mem_map.mp hb with ⟨i, hi, rfl⟩
  have hlt : i < len := List.mem_range.mp hi
  have hhead : off + i < imageGetHeaderSize := by omega
  unfold stored overwrite
  rw [if_pos (by simp only [List.length_append, List.length_replicate]; omega), Nat.sub_zero,
    List.getD_append _ _ _ _ (by rw [List.length_replicate]; exact hhead),
    List.getD_eq_getElem _ _ (by rw [List.length_replicate]; exact hhead),
    List.getElem_replicate]

section

variable {imgSize : Nat} {mem : Memory}

/-- The two checksums of a header whose checksum fields are zero; the one of the boot
ROM comes first and is covered by the other. -/
theorem verify_checksums (hhcrc : window mem 4 4 = cpuToBe32 0)
    (hnand : window mem 60 4 = cpuToBe32 0)
    (hdata : getL mem 24 = dataCrc mem (getL mem 12)) {nand : Memory}
    (hn : nand = setL 60 (crc32beCal (window mem 0 imageGetHeaderSize)).toNat mem) :
    (verifyMt7621Header imgSize
      (setL 4 (crc32 0#32 0 (window nand 0 imageGetHeaderSize)).toNat nand)).accepted = true <->
      getL mem 12 ≤ imgSize := by
  have hblank : window nand 4 4 = cpuToBe32 0 := by
    rw [hn, window_setL_of_disjoint (by decide), hhcrc]
  have hcopy : forall v, setL 4 0 (setL 4 v nand) = nand := by
    intro v
    rw [setL_setL, setL_window hblank]
  have hboth : setL 60 0 nand = mem := by
    rw [hn, setL_setL, setL_window hnand]
  have hsize : forall v, getL (setL 4 v nand) 12 = getL mem 12 := by
    intro v
    rw [getL_setL_of_disjoint (by decide), hn, getL_setL_of_disjoint (by decide)]
  have hdcrc : forall v, getL (setL 4 v nand) 24 = getL mem 24 := by
    intro v
    rw [getL_setL_of_disjoint (by decide), hn, getL_setL_of_disjoint (by decide)]
  have hbody : forall v n, dataCrc (setL 4 v nand) n = dataCrc mem n := by
    intro v n
    unfold dataCrc imageGetHeaderSize
    rw [window_setL_of_disjoint (by right; decide), hn,
      window_setL_of_disjoint (by right; decide)]
  have hstored : getL nand 60 = (crc32beCal (window mem 0 imageGetHeaderSize)).toNat := by
    rw [hn, getL_setL]
    exact u32_of_lt (BitVec.isLt _)
  unfold verifyMt7621Header headerCrc nandCrc
  dsimp only
  rw [hsize, hdcrc, hbody, hcopy, getL_setL, u32_of_lt (BitVec.isLt _), hboth, hstored]
  by_cases hle : getL mem 12 ≤ imgSize
  · rw [if_neg (by omega), if_neg (by simp), if_neg (by simp [hdata])]
    simp [hle]
  · rw [if_pos (by omega)]
    simp [hle]

end

theorem sub32_header (payload : Bytes) :
    sub32 (imageGetHeaderSize + payload.length) imageGetHeaderSize = u32 payload.length := by
  unfold sub32 u32 imageGetHeaderSize
  omega

theorem verify_generated (payload : Bytes) (loadaddr time : Nat) (beyond : Memory) :
    (verifyMt7621Header (u32 (imageGetHeaderSize + payload.length))
      (setMt7621Header (imageGetHeaderSize + payload.length) loadaddr time
        (stored (List.replicate imageGetHeaderSize 0 ++ payload) beyond))).accepted = true <->
      u32 payload.length + imageGetHeaderSize < 2 ^ 32 := by
  have hzero : cpuToBe32 0 = List.replicate 4 0 := by decide
  have hsize := getL_fillHeader_size (imageGetHeaderSize + payload.length) loadaddr time
    (stored (List.replicate imageGetHeaderSize 0 ++ payload) beyond)
  unfold setMt7621Header
  dsimp only
  rw [verify_checksums ?_ ?_ ?_ rfl, hsize, sub32_header]
  · unfold u32 imageGetHeaderSize
    omega
  · rw [window_fillHeader_hcrc, hzero, window_stored_zeros (by decide)]
  · rw [window_fillHeader_nandCrc, hzero, window_stored_zeros (by decide)]
  · rw [hsize, getL_fillHeader_dcrc]

/-!
## Files of any length
-/

def alone (bs : Bytes) : Memory := fun i => bs.getD i 0

structure Matches (bs : Bytes) : Prop where
  complete : imageGetHeaderSize + getL (alone bs) 12 ≤ bs.length
  header : headerCrc (alone bs) = getL (alone bs) 4
  nand : nandCrc (alone bs) = getL (alone bs) 60
  data : dataCrc (alone bs) (getL (alone bs) 12) = getL (alone bs) 24

/-- Whatever is behind the file, the check does not read it, and accepts the file only
when all of it is right. -/
def Safe (bs : Bytes) : Prop :=
  forall beyond, let v := verifyMt7621Header (u32 bs.length) (stored bs beyond)
    (forall r, r ∈ v.reads -> 0 < r.2 -> r.1 + r.2 ≤ bs.length) ∧
      (v.accepted = true -> Matches bs)

def Covered (bs : Bytes) : Prop :=
  16 ≤ bs.length ∧ (u32 bs.length < getL (alone bs) 12 ∨
    imageGetHeaderSize ≤ bs.length ∧ (headerCrc (alone bs) ≠ getL (alone bs) 4 ∨
      imageGetHeaderSize + getL (alone bs) 12 ≤ bs.length))

section

variable {bs : Bytes}

theorem window_stored (beyond : Memory) {off len : Nat} (h : off + len ≤ bs.length) :
    window (stored bs beyond) off len = window (alone bs) off len := by
  apply window_congr
  intro a _ hhi
  unfold stored overwrite alone
  rw [if_pos (by omega), Nat.sub_zero]

theorem getL_stored (beyond : Memory) {field : Nat} (h : field + 4 ≤ bs.length) :
    getL (stored bs beyond) field = getL (alone bs) field := by
  unfold getL
  rw [window_stored beyond h]

theorem window_setL_congr {mem mem' : Memory} {field v n : Nat}
    (h : window mem 0 n = window mem' 0 n) :
    window (setL field v mem) 0 n = window (setL field v mem') 0 n := by
  apply window_congr
  intro a _ hhi
  have hget := window_getElem? mem 0 n a (by omega)
  rw [h, window_getElem? mem' 0 n a (by omega), Nat.zero_add] at hget
  have heq : mem' a = mem a := Option.some.inj hget
  unfold setL overwrite
  rw [heq]

variable (hlen : imageGetHeaderSize ≤ bs.length) (beyond : Memory)

include hlen

theorem headerCrc_stored : headerCrc (stored bs beyond) = headerCrc (alone bs) := by
  unfold headerCrc
  rw [window_setL_congr (window_stored beyond (by omega))]

theorem nandCrc_stored : nandCrc (stored bs beyond) = nandCrc (alone bs) := by
  unfold nandCrc
  rw [window_setL_congr (window_setL_congr (window_stored beyond (by omega)))]

end

/-!
The three places where the check ends.
-/

section

variable {imgSize : Nat} {mem : Memory}

theorem verify_short (h : imgSize < getL mem 12) :
    verifyMt7621Header imgSize mem = { accepted := false, reads := [(12, 4)] } :=
  if_pos h

theorem verify_header (h : getL mem 12 ≤ imgSize) (hcrc : headerCrc mem ≠ getL mem 4) :
    verifyMt7621Header imgSize mem =
      { accepted := false, reads := [(12, 4), (0, imageGetHeaderSize), (4, 4)] } := by
  unfold verifyMt7621Header
  dsimp only
  rw [if_neg (Nat.not_lt.mpr h), if_pos hcrc]

theorem verify_data (imgSize : Nat) (mem : Memory) (h : getL mem 12 ≤ imgSize)
    (hcrc : headerCrc mem = getL mem 4) :
    exists reads, (reads = [] ∨ reads = [(0, imageGetHeaderSize)]) ∧
      verifyMt7621Header imgSize mem =
        { accepted := dataCrc mem (getL mem 12) = getL mem 24 ∧
            getL (setL 4 0 mem) 60 = nandCrc mem
          reads := [(12, 4), (0, imageGetHeaderSize), (4, 4), (12, 4),
            (imageGetHeaderSize, getL mem 12), (24, 4)] ++ reads } := by
  unfold verifyMt7621Header
  dsimp only
  rw [if_neg (Nat.not_lt.mpr h), if_neg (not_not_intro hcrc)]
  by_cases hdata : dataCrc mem (getL mem 12) = getL mem 24
  · refine ⟨_, Or.inr rfl, ?_⟩
    rw [if_neg (not_not_intro hdata)]
    simp only [hdata, true_and]
  · refine ⟨_, Or.inl rfl, ?_⟩
    rw [if_pos hdata]
    simp only [hdata, false_and, decide_false, List.append_nil]

end

theorem stored_zero (bs : Bytes) : stored bs (fun _ => 0) = alone bs := by
  funext a
  unfold stored overwrite alone
  by_cases h : 0 ≤ a ∧ a < 0 + bs.length
  · rw [if_pos h, Nat.sub_zero]
  · rw [if_neg h, List.getD_eq_default _ _ (by omega)]

theorem safe_iff (bs : Bytes) : Safe bs <-> Covered bs := by
  constructor
  · intro h
    have hreads := (h fun _ => 0).1
    rw [stored_zero] at hreads
    by_cases hsize : u32 bs.length < getL (alone bs) 12
    · rw [verify_short hsize] at hreads
      exact ⟨hreads (12, 4) List.mem_cons_self (by decide), Or.inl hsize⟩
    by_cases hcrc : headerCrc (alone bs) = getL (alone bs) 4
    · rcases verify_data _ _ (Nat.not_lt.mp hsize) hcrc with ⟨reads, _, hv⟩
      rw [hv] at hreads
      have hheader := hreads (0, imageGetHeaderSize) (by simp) (by decide)
      have hdata := hreads (imageGetHeaderSize, getL (alone bs) 12) (by simp)
      unfold imageGetHeaderSize at hheader hdata
      refine ⟨by omega, Or.inr ⟨by unfold imageGetHeaderSize; omega, Or.inr ?_⟩⟩
      unfold imageGetHeaderSize
      omega
    · rw [verify_header (Nat.not_lt.mp hsize) hcrc] at hreads
      have hheader := hreads (0, imageGetHeaderSize) (by simp) (by decide)
      unfold imageGetHeaderSize at hheader
      exact ⟨by omega, Or.inr ⟨by unfold imageGetHeaderSize; omega, Or.inl hcrc⟩⟩
  · rintro ⟨hshort, h⟩ beyond
    have hsize : getL (stored bs beyond) 12 = getL (alone bs) 12 := getL_stored beyond hshort
    dsimp only
    by_cases hle : u32 bs.length < getL (alone bs) 12
    · rw [verify_short (by rw [hsize]; exact hle)]
      refine ⟨?_, fun hfalse => absurd hfalse Bool.false_ne_true⟩
      intro r hr _
      rw [List.mem_singleton.mp hr]
      exact hshort
    rcases h with h | ⟨hlen, h⟩
    · exact absurd h hle
    have hheader := headerCrc_stored hlen beyond
    have hlen' : 64 ≤ bs.length := hlen
    have hfield : forall field, field + 4 ≤ 64 ->
        getL (stored bs beyond) field = getL (alone bs) field :=
      fun field hf => getL_stored beyond (Nat.le_trans hf hlen')
    by_cases hcrc : headerCrc (alone bs) = getL (alone bs) 4
    · have hend : imageGetHeaderSize + getL (alone bs) 12 ≤ bs.length := by
        rcases h with h | h
        · exact absurd hcrc h
        · exact h
      have hdata : dataCrc (stored bs beyond) (getL (alone bs) 12) =
          dataCrc (alone bs) (getL (alone bs) 12) := by
        unfold dataCrc
        rw [window_stored beyond hend]
      have hnand : getL (setL 4 0 (stored bs beyond)) 60 = getL (alone bs) 60 := by
        rw [getL_setL_of_disjoint (by decide), hfield 60 (by decide)]
      rcases verify_data (u32 bs.length) (stored bs beyond)
        (by rw [hsize]; exact Nat.not_lt.mp hle)
        (by rw [hheader, hcrc, hfield 4 (by decide)]) with ⟨reads, hreads, hv⟩
      rw [hv, hsize, hdata, hnand, hfield 24 (by decide), nandCrc_stored hlen beyond]
      constructor
      · intro r hr hpos
        unfold imageGetHeaderSize at hr hend hreads
        rcases hreads with rfl | rfl
        · simp only [List.append_nil, List.mem_cons, List.not_mem_nil, or_false] at hr
          rcases hr with rfl | rfl | rfl | rfl | rfl | rfl <;> dsimp only <;> omega
        · simp only [List.cons_append, List.nil_append, List.mem_cons, List.not_mem_nil,
            or_false] at hr
          rcases hr with rfl | rfl | rfl | rfl | rfl | rfl | rfl <;> dsimp only <;> omega
      · intro hok
        have hboth := of_decide_eq_true hok
        exact ⟨hend, hcrc, hboth.2.symm, hboth.1⟩
    · rw [verify_header (by rw [hsize]; exact Nat.not_lt.mp hle)
        (by rw [hheader, hfield 4 (by decide)]; exact hcrc)]
      refine ⟨?_, fun hfalse => absurd hfalse Bool.false_ne_true⟩
      intro r hr _
      unfold imageGetHeaderSize at hr
      simp only [List.mem_cons, List.not_mem_nil, or_false] at hr
      rcases hr with rfl | rfl | rfl <;> dsimp only <;> omega

/-- The generator and the check agree on the payloads whose file size has 32 bits, and
the check is safe on the files that end behind what it reads. -/
theorem mt7621_image_iff (bs : Bytes) :
    (forall (payload : Bytes) (loadaddr time : Nat) (beyond : Memory), 32 ≤ payload.length ->
      ((verifyMt7621Header (u32 (imageGetHeaderSize + payload.length))
        (setMt7621Header (imageGetHeaderSize + payload.length) loadaddr time
          (stored (List.replicate imageGetHeaderSize 0 ++ payload) beyond))).accepted = true <->
        u32 payload.length + imageGetHeaderSize < 2 ^ 32)) ∧
    (Safe bs <-> Covered bs) := by
  constructor
  · intro payload loadaddr time beyond _
    exact verify_generated payload loadaddr time beyond
  · exact safe_iff bs

def headerOnly : Bytes :=
  [0x27, 0x05, 0x19, 0x56, 0x89, 0x7d, 0x95, 0xd4, 0x00, 0x00, 0x00, 0x00,
    0x00, 0x00, 0x00, 0x20, 0xa0, 0x20, 0x00, 0x00, 0xa0, 0x20, 0x00, 0x00,
    0x86, 0x23, 0x60, 0xdf, 0x11, 0x05, 0x01, 0x00, 0x4d, 0x54, 0x37, 0x36,
    0x32, 0x31, 0x20, 0x4e, 0x41, 0x4e, 0x44, 0x00, 0x00, 0x00, 0x00, 0x00,
    0x00, 0x00, 0x00, 0x40, 0x00, 0x00, 0x00, 0x00, 0x00, 0x00, 0x00, 0x00,
    0x43, 0xf5, 0x17, 0x98]

/-- The image of that payload is accepted. -/
theorem zeros_image_accepted :
    (verifyMt7621Header (u32 96) (setMt7621Header 96 0xa0200000 0
      (stored (List.replicate 96 0) fun _ => 0))).accepted = true ∧
      (Safe headerOnly <-> Covered headerOnly) :=
  have himage := mt7621_image_iff headerOnly
  ⟨(himage.1 (List.replicate 32 0) 0xa0200000 0 (fun _ => 0) (by decide)).mpr
      (by decide +kernel), himage.2⟩

/-- Its size of 32 is not above the 64 bytes of the file, so that the data is looked for
behind the end of the file. -/
theorem header_only_not_safe : headerOnly.take 4 = cpuToBe32 IH_MAGIC ∧ ¬ Safe headerOnly := by
  rw [safe_iff]
  unfold Covered
  decide +kernel

end MtkImage
end UBoot
end Hlk7621
