import Hlk7621.Webflash.Completion

/-!
# EEPROM updates

The job for an EEPROM upload rewrites the factory partition from a copy into
which the upload is merged.  The copy passes through two buffers whose sizes are
not checked against each other: `io_buf` holds `WEBFLASH_IO_SIZE` bytes and
`factory_buf` as many as the factory partition.
-/

namespace Hlk7621
namespace Webflash

/-!
## Buffer accesses
-/

inductive JobBuffer where
  | io | factory
  deriving DecidableEq, Repr

def JobBuffer.size (B : Board) : JobBuffer -> Nat
  | .io => IO_SIZE
  | .factory => B.factory.size

structure BufferAccess where
  buffer : JobBuffer
  offset : Nat
  len : Nat
  deriving DecidableEq, Repr

def BufferAccess.InBounds (B : Board) (a : BufferAccess) : Prop :=
  a.offset + a.len ≤ a.buffer.size B

section

variable {E : Type} (P : Platform E)

/-- The accesses of `webflash_start_flash_job` to `io_buf` and `factory_buf`:
the read of the flash, the two ends of the first `memcpy`, the destination of the
second one and the checksum. -/
def startFlashJobAccesses (part : Partition) (w : World E) : List BufferAccess :=
  if part.has PART_EEPROM then
    let r := P.spiFlashRead P.factory.offset P.factory.size w.ext
    if r.1 ≠ 0 then [⟨.io, 0, P.factory.size⟩]
    else
      [⟨.io, 0, P.factory.size⟩, ⟨.io, 0, P.factory.size⟩,
        ⟨.factory, 0, P.factory.size⟩, ⟨.factory, EEPROM_OFFSET, EEPROM_SIZE⟩,
        ⟨.factory, 0, P.factory.size⟩]
  else []

structure EepromUpload (w : World E) : Prop where
  part : w.ctx.uploadPart = some P.eepromPartition
  valid : w.ctx.uploadValid = true
  size : w.ctx.completedSize = EEPROM_SIZE

structure UpdatesEeprom (contents : E -> Nat -> UInt8) (w : World E)
    (now : Nat -> Nat) : Prop where
  inBounds : forall a, a ∈ startFlashJobAccesses P P.eepromPartition w ->
    a.InBounds P.toBoard
  merged : SoundFlash P contents ->
    let start := (startFlashJob P P.eepromPartition w).2
    let rounds := Runs.states (fun v t => jobStep P t v) start now
    (forall n, (rounds n).ctx.job.phase ≠ .error) ∧
      exists n, (rounds n).ctx.job.phase = .done ∧
        contents (rounds n).ext =
          overwrite (contents w.ext) (P.factory.offset + EEPROM_OFFSET)
            (window w.ram w.ctx.completedAddr w.ctx.completedSize)
  failed : (P.spiFlashRead P.factory.offset P.factory.size w.ext).1 ≠ 0 ->
    let start := startFlashJob P P.eepromPartition w
    start.1 ≠ 0 ∧ contents start.2.ext = contents w.ext ∧
      start.2.ctx.job = {} ∧ start.2.log = w.log

end

/-!
## The factory partition
-/

section

variable {E : Type} {P : Platform E} {contents : E -> Nat -> UInt8}

theorem eeprom_inBounds_iff (w : World E) :
    (forall a, a ∈ startFlashJobAccesses P P.eepromPartition w ->
      a.InBounds P.toBoard) <->
    P.factory.size ≤ IO_SIZE ∧
      ((P.spiFlashRead P.factory.offset P.factory.size w.ext).1 = 0 ->
        EEPROM_OFFSET + EEPROM_SIZE ≤ P.factory.size) := by
  have heeprom : P.eepromPartition.has PART_EEPROM = true := by
    rw [eepromPartition_has]
    decide
  unfold startFlashJobAccesses
  rw [if_pos heeprom]
  by_cases hread : (P.spiFlashRead P.factory.offset P.factory.size w.ext).1 = 0
  · rw [if_neg (by simp [hread])]
    simp [BufferAccess.InBounds, JobBuffer.size, hread]
  · rw [if_pos hread]
    simp [BufferAccess.InBounds, JobBuffer.size, hread]

/-- Writing back a copy of a range with a part replaced replaces this part. -/
theorem overwrite_splice (mem : Nat -> UInt8) {off len at' : Nat} {data : Bytes}
    (h : at' + data.length ≤ len) :
    overwrite (erased mem off len) off (splice (window mem off len) at' data) =
      overwrite mem (off + at') data := by
  funext a
  by_cases hrange : off ≤ a ∧ a < off + len
  · rcases Nat.exists_eq_add_of_le hrange.1 with ⟨i, rfl⟩
    have hi : i < len := by lia
    have hlength : (splice (window mem off len) at' data).length = len := by simp
    have hget := window_getElem?
      (overwrite (fun k => (window mem off len).getD k 0) at' data) 0
      (window mem off len).length i (by simpa using hi)
    have hleft : overwrite (erased mem off len) off
        (splice (window mem off len) at' data) (off + i) =
        (splice (window mem off len) at' data).getD i 0 := by
      unfold overwrite
      rw [if_pos (by rw [hlength]; exact hrange), Nat.add_sub_cancel_left]
    rw [hleft, List.getD_eq_getElem?_getD]
    unfold splice
    rw [hget, Nat.zero_add, Option.getD_some]
    unfold overwrite
    by_cases hin : at' ≤ i ∧ i < at' + data.length
    · rw [if_pos hin, if_pos (by lia)]
      congr 1
      lia
    · rw [if_neg hin, if_neg (by lia)]
      show (window mem off len).getD i 0 = mem (off + i)
      rw [List.getD_eq_getElem?_getD, window_getElem? mem off len i hi]
      rfl
  · have hout : a < off ∨ off + len ≤ a := by lia
    have hlength : (splice (window mem off len) at' data).length = len := by simp
    unfold overwrite erased
    rw [hlength, if_neg hrange, if_neg hrange, if_neg (by lia)]

def eepromWrite (P : Platform E) (contents : E -> Nat -> UInt8) (w : World E) :
    Write where
  part := P.factoryPartition
  image := splice (window (contents w.ext) P.factory.offset P.factory.size)
    EEPROM_OFFSET (window w.ram w.ctx.completedAddr EEPROM_SIZE)
  eraseSize := P.factory.size
  base := contents w.ext

theorem eepromWrite_length (P : Platform E) (contents : E -> Nat -> UInt8)
    (w : World E) : (eepromWrite P contents w).image.length = P.factory.size := by
  simp [eepromWrite]

theorem eepromWrite_fits (hl : Layout P.toBoard) (w : World E)
    (hsize : 0 < P.factory.size) :
    (eepromWrite P contents w).Fits P.toBoard := by
  have hmem : P.factoryPartition ∈ P.partitions := by simp [Board.partitions]
  have hlength := eepromWrite_length P contents w
  refine ⟨hl.sector_pos, (hl.aligned _ hmem).1, (hl.aligned _ hmem).2, ?_,
    Nat.le_of_eq hlength, Nat.le_refl _, hl.partition_end hmem⟩
  intro hnil
  rw [hnil] at hlength
  exact absurd hlength (by simp; lia)

theorem eepromWrite_started (hsound : SoundFlash P contents)
    (hl : Layout P.toBoard) (w : World E) (hsize : 0 < P.factory.size) :
    (eepromWrite P contents w).Carried (startFlashJob P P.eepromPartition w).2 ∧
      (eepromWrite P contents w).Stage P contents
        (startFlashJob P P.eepromPartition w).2 := by
  have hmem : P.factoryPartition ∈ P.partitions := by simp [Board.partitions]
  have hlength := eepromWrite_length P contents w
  rcases hsound.read P.factory.offset P.factory.size w.ext
    (hl.partition_end hmem) with ⟨hret, hdata, hkept⟩
  have heeprom : P.eepromPartition.has PART_EEPROM = true := by
    rw [eepromPartition_has]
    decide
  unfold startFlashJob
  rw [if_pos heeprom]
  dsimp only
  rw [if_neg (by simp [hret]), hdata]
  refine ⟨⟨rfl, rfl, rfl, rfl, hlength.symm, ?_, .buffer rfl⟩,
    .erasing rfl (Nat.dvd_zero _) hsize ?_⟩
  · exact UBoot.crc32_eq_crcOf _ _ _
  · rw [hkept]
    funext a
    exact (if_neg (by simp [factoryJob])).symm

end

/-!
## When the update is confined
-/

/-- On an accepted layout, whatever the flash holds and with a device whose reads
leave the contents alone, a validated upload updates the EEPROM and nothing
else exactly if the factory partition fits the 64 KiB of `io_buf` and, unless
reading it fails, contains the EEPROM. -/
theorem eeprom_update_confined_iff {E : Type} (P : Platform E)
    (contents : E -> Nat -> UInt8) (hlayout : P.initFlash = 0)
    (hkeep : forall off len e, contents (P.spiFlashRead off len e).2.2 = contents e)
    (w : World E) (hupload : EepromUpload P w) (now : Nat -> Nat) :
    UpdatesEeprom P contents w now <->
      P.factory.size ≤ IO_SIZE ∧
        ((P.spiFlashRead P.factory.offset P.factory.size w.ext).1 = 0 ->
          EEPROM_OFFSET + EEPROM_SIZE ≤ P.factory.size) := by
  constructor
  · intro h
    exact (eeprom_inBounds_iff w).mp h.inBounds
  · intro h
    have hl := layout_of_initFlash hlayout
    refine ⟨(eeprom_inBounds_iff w).mpr h, ?_, ?_⟩
    · intro hsound
      have hmem : P.factoryPartition ∈ P.partitions := by simp [Board.partitions]
      have hret := (hsound.read P.factory.offset P.factory.size w.ext
        (hl.partition_end hmem)).1
      have hfit := h.2 hret
      have hsize : 0 < P.factory.size := by
        unfold EEPROM_OFFSET EEPROM_SIZE at hfit
        omega
      rcases eepromWrite_started hsound hl w hsize with ⟨hcarried, hstage⟩
      have hrounds := Write.rounds_complete hcarried hstage
        (eepromWrite_fits hl w hsize) hsound now
      refine ⟨hrounds.1, ?_⟩
      rcases hrounds.2 with ⟨n, hdone, hflash⟩
      refine ⟨n, hdone, hflash.trans ?_⟩
      rw [hupload.size]
      exact @overwrite_splice (contents w.ext) P.factory.offset P.factory.size
        EEPROM_OFFSET _ (by rw [window_length]; exact hfit)
    · intro hfailed
      have heeprom : P.eepromPartition.has PART_EEPROM = true := by
        rw [eepromPartition_has]
        decide
      unfold startFlashJob
      rw [if_pos heeprom]
      dsimp only
      rw [if_pos hfailed]
      exact ⟨hfailed, hkeep _ _ _, rfl, rfl⟩

def eepromUpload : List (Nat × Event) :=
  exchange 1 (httpRequest "POST /api/upload/eeprom" ["Content-Length: 512"] ++
    [0x12, 0x76] ++ List.replicate 510 0)

theorem eepromUpload_ready (B : Board) (w : World (Nat -> UInt8))
    (h : (w.ctx.uploadPart == some B.eepromPartition && w.ctx.uploadValid &&
      w.ctx.completedSize == EEPROM_SIZE) = true) :
    EepromUpload (norPlatform B) w := by
  simp only [Bool.and_eq_true, beq_iff_eq] at h
  exact ⟨h.1.1, h.1.2, h.2⟩

def eepromReady : World (Nat -> UInt8) :=
  { hlk7621aStart with ctx := { hlk7621aStart.ctx with
    uploadPart := some hlk7621a.eepromPartition
    uploadValid := true
    completedAddr := 0x83000000
    completedSize := EEPROM_SIZE } }

theorem eeprom_update_confined_hlk7621a :
    UpdatesEeprom (norPlatform hlk7621a) (fun mem => mem) eepromReady (fun n => n) :=
  (eeprom_update_confined_iff (norPlatform hlk7621a) (fun mem => mem) (by decide)
    (fun _ _ _ => rfl) eepromReady ⟨rfl, rfl, rfl⟩ (fun n => n)).mpr
    ⟨by decide, fun _ => by decide⟩

def wideFactory : Board :=
  { hlk7621a with
    factory := ⟨0x40000, 0x20000, by decide⟩
    firmware := ⟨0x60000, 0x1fa0000, by decide⟩ }

/-- The layout is accepted, and reading the factory partition of a ready upload
runs over the end of `io_buf`. -/
theorem eeprom_update_overruns_io_buf :
    wideFactory.initFlash = 0 ∧
      EepromUpload (norPlatform wideFactory)
        (run (norPlatform wideFactory) hlk7621aStart eepromUpload) ∧
      ⟨.io, 0, 0x20000⟩ ∈ startFlashJobAccesses (norPlatform wideFactory)
        wideFactory.eepromPartition
        (run (norPlatform wideFactory) hlk7621aStart eepromUpload) ∧
      ¬ BufferAccess.InBounds wideFactory ⟨.io, 0, 0x20000⟩ :=
  ⟨by decide, eepromUpload_ready wideFactory _ (by decide +kernel),
    List.mem_cons_self, by simp [BufferAccess.InBounds, JobBuffer.size, IO_SIZE]⟩

end Webflash
end Hlk7621
