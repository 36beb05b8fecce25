import Hlk7621.Webflash.Reply
import Hlk7621.Webflash.Request
import Hlk7621.Webflash.Validate

/-!
# Uploads

Acceptance of an upload request, storage of its body in RAM and validation of
the completed image.
-/

namespace Hlk7621
namespace Webflash

def jobActive (ctx : Ctx) : Bool :=
  ctx.job.phase == .erasing || ctx.job.phase == .writing ||
    ctx.job.phase == .verifying

def operationBlocked (ctx : Ctx) : Bool :=
  jobActive ctx || ctx.rebootPending || ctx.bootPending

def uploadIsFirmware (ctx : Ctx) : Bool :=
  ctx.uploadPart.any fun part => part.has PART_FIRMWARE

def imageName (ctx : Ctx) : Bytes :=
  if !uploadIsFirmware ctx then str "raw"
  else
    match ctx.imageKind with
    | .openwrt => str "openwrt"
    | .openwrtOther => str "openwrt-other"
    | .foreign => str "foreign"

def imageWarned (ctx : Ctx) : Bool :=
  uploadIsFirmware ctx && ctx.imageKind != .openwrt

def expectedConfirmation (ctx : Ctx) : Bytes :=
  if ctx.uploadPart.any fun part => part.has PART_EEPROM then
    str "WRITE-EEPROM"
  else if ctx.uploadPart.any fun part => part.has PART_UBOOT then
    str "RESTORE-UBOOT"
  else if ctx.uploadPart.any fun part => part.has PART_FACTORY then
    str "RESTORE-FACTORY"
  else if ctx.uploadPart.any fun part => part.has PART_ENV then
    str "RESTORE-ENVIRONMENT"
  else if uploadIsFirmware ctx && ctx.imageKind == .openwrtOther then
    str "FLASH-OPENWRT-OTHER"
  else if uploadIsFirmware ctx && ctx.imageKind == .foreign then
    str "FLASH-FOREIGN"
  else str "FLASH-FIRMWARE"

def boolText (b : Bool) : Bytes := if b then str "true" else str "false"

variable {E : Type} (P : Platform E)

/-!
## Accepting the request
-/

def rangeInRam (loadAddr size : Nat) : Bool :=
  let ramEnd := u32 (P.ramBase + P.ramSize)
  let stop := u32 (loadAddr + size)
  !(decide (stop < loadAddr)) &&
    !(decide (ramEnd < P.ramBase) || decide (loadAddr < P.ramBase) ||
      decide (stop > ramEnd))

def rangeValid (size : Nat) (w : World E) : Bool × World E :=
  if !rangeInRam P w.ctx.loadAddr size then (false, w)
  else
    let r := P.lmbReadCheck w.ctx.loadAddr size w.ext
    (r.1 == 0, { w with ext := r.2 })

def uploadSizeOk (part : Partition) (size : Nat) : Bool :=
  size != 0 && decide (size ≤ part.size) &&
    (!part.has PART_PROTECTED || size == part.size)

def beginUpload (cb : Call) (part : Partition) (size : Nat) (w : World E) :
    World E :=
  { w with
    ctx := { w.ctx with
      job := {}
      uploadPart := some part
      imageKind := .foreign
      contentLength := size
      uploadSize := 0
      completedSize := 0
      uploadValid := false
      uploadDetail := []
      rxState := .upload }
    log := .uploadStarted cb.pcb w.ctx.header part size :: w.log }

def prepareUpload (cb : Call) (part : Partition) (w : World E) :
    Int × World E :=
  if operationBlocked w.ctx then
    (-EBUSY, error P "409 Conflict" "device busy" w)
  else
    match getContentLength w.ctx.header with
    | .error e =>
        if e = -ENOENT then
          (e, error P "411 Length Required" "Content-Length required" w)
        else
          (-EFBIG, error P "413 Content Too Large" "upload size mismatch" w)
    | .ok size =>
        if !uploadSizeOk part size then
          (-EFBIG, error P "413 Content Too Large" "upload size mismatch" w)
        else
          let r := rangeValid P size w
          if !r.1 then
            (-ERANGE, error P "409 Conflict" "upload too large" r.2)
          else (0, beginUpload cb part size r.2)

/-!
## Storing the body
-/

def validateUpload (w : World E) : Int × World E :=
  match w.ctx.uploadPart with
  | none => (-EINVAL, { w with halted := some .fault })
  | some part =>
      let v := (validateScan P.toBoard part w.ctx.completedAddr
        w.ctx.completedSize).val w.ram
      (v.2.ret,
        { w with
          ctx := { w.ctx with
            uploadCrc := v.1
            imageKind := v.2.kind.getD w.ctx.imageKind
            uploadDetail := v.2.detail
            uploadValid := v.2.ret == 0 }
          log :=
            if v.2.ret = 0 then
              .validated part
                (window w.ram w.ctx.completedAddr w.ctx.completedSize) :: w.log
            else w.log })

def uploadText (ret : Int) (ctx : Ctx) : Bytes :=
  str "\x7b\"ok\":" ++ boolText (ret == 0) ++
    str ",\"target\":\"" ++ (ctx.uploadPart.map (·.name)).getD [] ++
    str "\",\"size\":" ++ fmtDec ctx.completedSize ++
    str ",\"crc32\":\"" ++ fmtHex 8 ctx.uploadCrc.toNat ++
    str "\",\"image\":\"" ++ imageName ctx ++
    str "\",\"warning\":" ++ boolText (imageWarned ctx) ++
    str ",\"confirm\":\"" ++ expectedConfirmation ctx ++
    str "\",\"detail\":\"" ++ ctx.uploadDetail ++ str "\"\x7d"

/-- The environment variables `fileaddr` and `filesize`, in this order. -/
def exportUpload (w : World E) : Bool × World E :=
  let r1 := P.envSetHex (str "fileaddr") w.ctx.completedAddr w.ext
  if r1.1 ≠ 0 then (false, { w with ext := r1.2 })
  else
    let r2 := P.envSetHex (str "filesize") w.ctx.completedSize r1.2
    (r2.1 == 0, { w with ext := r2.2 })

/-- The end of `webflash_store_upload`, once the last byte is stored. -/
def completeUpload (w : World E) : Int × World E :=
  let r := exportUpload P
    { w with ctx := { w.ctx with
      completedAddr := w.ctx.loadAddr
      completedSize := w.ctx.uploadSize } }
  if !r.1 then
    (- EIO, error P "500 Internal Server Error" "update upload env failed" r.2)
  else
    let v := validateUpload P r.2
    let status :=
      if v.1 = 0 then str "200 OK" else str "422 Unprocessable Content"
    (v.1, (replyText P status (uploadText v.1 v.2.ctx) v.2).2)

def storeBytes (cb : Call) (data : Bytes) (w : World E) : World E :=
  { w with
    ctx := { w.ctx with uploadSize := u32 (w.ctx.uploadSize + data.length) }
    ram := overwrite w.ram (u32 (w.ctx.loadAddr + w.ctx.uploadSize)) data
    log := .stored cb.pcb w.ctx.uploadSize data :: w.log }

def storeUpload (cb : Call) (data : Bytes) (w : World E) : Int × World E :=
  if data.length > sub32 w.ctx.contentLength w.ctx.uploadSize then
    (-EFBIG, error P "400 Bad Request" "body exceeds Content-Length" w)
  else
    let w1 := storeBytes cb data w
    if w1.ctx.uploadSize ≠ w1.ctx.contentLength then (0, w1)
    else completeUpload P w1

end Webflash
end Hlk7621
