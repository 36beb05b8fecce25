import Hlk7621.Webflash.Upload

/-!
# Flash jobs

A job erases, writes and verifies in chunks, one chunk for each round of the
main loop.
-/

namespace Hlk7621
namespace Webflash

variable {E : Type} (P : Platform E)

/-!
## Starting a job
-/

def checkConfirmation (expected : Bytes) (w : World E) : Int × World E :=
  match headerValue w.ctx.header "X-Safeboot-Confirm" 40 with
  | .ok confirmation =>
      if confirmation = expected then (0, w)
      else (-EACCES, error P "403 Forbidden" "phrase rejected" w)
  | .error _ => (-EACCES, error P "403 Forbidden" "phrase rejected" w)

def firmwareEraseSize (part : Partition) (size : Nat) (keepConfig : Bool) : Nat :=
  let need := roundup32 size P.sectorSize
  if keepConfig then need
  else min part.size (u32 (need + 2 * P.sectorSize))

def plainJob (part : Partition) (ctx : Ctx) : Job where
  mode := .flash
  phase := .erasing
  part := some part
  sourceAddr := ctx.completedAddr
  eraseOffset := part.offset
  eraseSize :=
    if part.has PART_FIRMWARE then
      firmwareEraseSize P part ctx.completedSize ctx.keepConfig
    else part.size
  writeSize := ctx.completedSize
  sourceCrc := ctx.uploadCrc

def factoryJob (ctx : Ctx) (buf : Bytes) : Job where
  mode := .flash
  phase := .erasing
  part := some P.factoryPartition
  sourceAddr := ctx.completedAddr
  sourceBuffer := some buf
  eraseOffset := P.factory.offset
  eraseSize := P.factory.size
  writeSize := P.factory.size
  sourceCrc := UBoot.crc32 0#32 0 buf

/-- `webflash_start_flash_job` for the upload target `part`.  An EEPROM image
is merged into a copy of the factory partition. -/
def startFlashJob (part : Partition) (w : World E) : Int × World E :=
  if part.has PART_EEPROM then
    let r := P.spiFlashRead P.factory.offset P.factory.size w.ext
    if r.1 ≠ 0 then
      (r.1, { w with ctx := { w.ctx with job := {} }, ext := r.2.2 })
    else
      let old := window r.2.1 0 P.factory.size
      let buf := splice old EEPROM_OFFSET
        (window w.ram w.ctx.completedAddr EEPROM_SIZE)
      (0, { w with
        ctx := { w.ctx with job := factoryJob P w.ctx buf, factoryBuf := buf }
        ext := r.2.2
        log := .factoryRead old :: w.log })
  else (0, { w with ctx := { w.ctx with job := plainJob P part w.ctx } })

def startUploadedFlash (w : World E) : Int × World E :=
  if operationBlocked w.ctx then
    (-EBUSY, error P "409 Conflict" "device busy" w)
  else
    match w.ctx.uploadPart with
    | none => (-EINVAL, error P "409 Conflict" "no upload ready" w)
    | some part =>
        if !w.ctx.uploadValid || w.ctx.completedSize == 0 then
          (-EINVAL, error P "409 Conflict" "no upload ready" w)
        else
          let expected := expectedConfirmation w.ctx
          let c := checkConfirmation P expected w
          if c.1 ≠ 0 then (-EACCES, c.2)
          else
            let s := startFlashJob P part c.2
            if s.1 ≠ 0 then
              (- EIO, error P "500 Internal Server Error"
                "prepare EEPROM failed" s.2)
            else
              replyText P (str "202 Accepted")
                (str "\x7b\"ok\":true,\"target\":\"" ++ part.name ++
                  str "\",\"phase\":\"erasing\"\x7d")
                { s.2 with log := .flashStarted part expected :: s.2.log }

/-!
## Running a job
-/

def jobFail (operation : String) (ret : Int) (w : World E) : World E :=
  { w with ctx := { w.ctx with job := { w.ctx.job with
    phase := .error
    error := snprintf 96
      (str operation ++ str " failed (" ++ fmtInt ret ++ str ")") } } }

def scheduleReboot (now : Nat) (w : World E) : World E :=
  { w with ctx := { w.ctx with rebootStart := now, rebootPending := true } }

def jobChunk (sectorSize remaining : Nat) (erase : Bool) : Nat :=
  let chunk := min remaining IO_SIZE
  if !erase then chunk
  else if sectorSize > IO_SIZE then min remaining sectorSize
  else
    let down := chunk - chunk % sectorSize
    if down ≠ 0 then down else min remaining sectorSize

def setJob (job : Job) (w : World E) : World E :=
  { w with ctx := { w.ctx with job := job } }

/-- The `WEBFLASH_PHASE_ERASING` case. -/
def jobErase (now : Nat) (w : World E) : World E :=
  let job := w.ctx.job
  let chunk := jobChunk P.sectorSize (sub32 job.eraseSize job.processed) true
  let offset := u32 (job.eraseOffset + job.processed)
  let r := P.spiFlashErase offset chunk w.ext
  let w1 : World E :=
    { w with ext := r.2, log := .erase job.mode offset chunk r.1 :: w.log }
  if r.1 ≠ 0 then jobFail "erase" r.1 w1
  else
    let processed := u32 (job.processed + chunk)
    if processed = job.eraseSize then
      if job.mode = .eraseSettings then
        scheduleReboot now (setJob { job with processed := 0, phase := .done } w1)
      else setJob { job with processed := 0, phase := .writing } w1
    else setJob { job with processed := processed } w1

/-- The bytes a write round takes from the buffer or from RAM. -/
def jobSource (job : Job) (ram : Nat -> UInt8) (chunk : Nat) : Bytes :=
  match job.sourceBuffer with
  | some buf => window (fun i => buf.getD i 0) job.processed chunk
  | none => window ram (u32 (job.sourceAddr + job.processed)) chunk

/-- The `WEBFLASH_PHASE_WRITING` case. -/
def jobWrite (w : World E) : World E :=
  let job := w.ctx.job
  match job.part with
  | none => { w with halted := some .fault }
  | some part =>
      let chunk := jobChunk P.sectorSize (sub32 job.writeSize job.processed) false
      let data := jobSource job w.ram chunk
      let offset := u32 (part.offset + job.processed)
      let r := P.spiFlashWrite offset data w.ext
      let w1 : World E :=
        { w with ext := r.2, log := .write job.mode offset data r.1 :: w.log }
      if r.1 ≠ 0 then jobFail "write" r.1 w1
      else
        let processed := u32 (job.processed + chunk)
        if processed = job.writeSize then
          setJob { job with
            processed := 0, verifyCrc := 0#32, phase := .verifying } w1
        else setJob { job with processed := processed } w1

/-- The `WEBFLASH_PHASE_VERIFYING` case.  `ctx->io_buf` is word aligned. -/
def jobVerify (now : Nat) (w : World E) : World E :=
  let job := w.ctx.job
  match job.part with
  | none => { w with halted := some .fault }
  | some part =>
      let chunk := jobChunk P.sectorSize (sub32 job.writeSize job.processed) false
      let offset := u32 (part.offset + job.processed)
      let r := P.spiFlashRead offset chunk w.ext
      let data := window r.2.1 0 chunk
      let w1 : World E :=
        { w with
          ext := r.2.2
          log := .verify job.mode offset data r.1 :: w.log }
      if r.1 ≠ 0 then jobFail "verify read" r.1 w1
      else
        let job1 := { job with
          verifyCrc := UBoot.crc32 job.verifyCrc 0 data
          processed := u32 (job.processed + chunk) }
        if job1.processed = job1.writeSize then
          if job1.verifyCrc ≠ job1.sourceCrc then
            jobFail "verify CRC" (-EBADMSG) (setJob job1 w1)
          else scheduleReboot now (setJob { job1 with phase := .done } w1)
        else setJob job1 w1

def jobStep (now : Nat) (w : World E) : World E :=
  match w.ctx.job.phase with
  | .erasing => jobErase P now w
  | .writing => jobWrite P w
  | .verifying => jobVerify P now w
  | _ => w

def jobProgress (job : Job) : Nat :=
  if job.phase = .done then 100
  else if job.phase = .error ∨ job.phase = .idle then 0
  else if job.mode = .eraseSettings then
    if job.eraseSize ≠ 0 then job.processed * 100 / job.eraseSize else 0
  else if job.phase = .erasing then
    if job.eraseSize ≠ 0 then job.processed * 35 / job.eraseSize else 0
  else if job.phase = .writing then
    35 + if job.writeSize ≠ 0 then job.processed * 40 / job.writeSize else 0
  else 75 + if job.writeSize ≠ 0 then job.processed * 25 / job.writeSize else 0

end Webflash
end Hlk7621
