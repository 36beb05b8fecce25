import Hlk7621.Webflash.EnvForm
import Hlk7621.Webflash.Overlay

/-!
# Request dispatch, callbacks and main loop

The remaining request handlers, the dispatch on the request line, the consumer
of received bytes, the callbacks registered with the TCP stack, and the body of
the main loop.  `step` makes one transition of the server out of each of them
and `run` chains transitions.
-/

namespace Hlk7621
namespace Webflash

variable {E : Type} (P : Platform E)

/-!
## Informational handlers
-/

def eepromInfo (w : World E) : Int × World E :=
  if operationBlocked w.ctx then
    (-EBUSY, error P "409 Conflict" "busy flashing" w)
  else
    let r := P.spiFlashRead (u32 (P.factory.offset + EEPROM_OFFSET)) EEPROM_SIZE
      w.ext
    let w1 : World E := { w with ext := r.2.2 }
    if r.1 ≠ 0 then
      (- EIO, error P "500 Internal Server Error" "EEPROM read failed" w1)
    else
      -- 512 bytes take 1024 digits, so the text fits the reply buffer.
      replyText P (str "200 OK")
        (str "\x7b\"ok\":true,\"size\":" ++ fmtDec EEPROM_SIZE ++
          str ",\"hex\":\"" ++
          ((window r.2.1 0 EEPROM_SIZE).map fun b => fmtHex 2 b.toNat).flatten ++
          str "\"\x7d") w1

def partitionText (part : Partition) (isProtected : Bool) : Bytes :=
  str "\x7b\"name\":\"" ++ part.name ++ str "\",\"offset\":" ++
    fmtDec part.offset ++ str ",\"size\":" ++ fmtDec part.size ++
    str ",\"protected\":" ++ boolText isProtected ++ str "\x7d"

def info (w : World E) : Int × World E :=
  replyText P (str "200 OK")
    (str "\x7b\"product\":\"" ++ P.productName ++
      str "\",\"version\":\"" ++ P.versionString ++
      str "\",\"device\":\"" ++ P.deviceId ++
      str "\",\"ip\":\"" ++ (P.envGet (str "ipaddr") w.ext).getD (str "0.0.0.0") ++
      str "\",\"load_address\":\"0x" ++ fmtHex 8 w.ctx.loadAddr ++
      str "\",\"max_upload\":" ++ fmtDec P.firmware.size ++
      str ",\"flash_size\":" ++ fmtDec P.flashSize ++
      str ",\"erase_size\":" ++ fmtDec P.sectorSize ++
      str ",\"partitions\":[" ++ partitionText P.ubootPartition true ++
      str "," ++ partitionText P.envPartition true ++
      str "," ++ partitionText P.factoryPartition true ++
      str "," ++ partitionText P.firmwarePartition false ++ str "]\x7d") w

def phaseName : JobPhase -> Bytes
  | .erasing => str "erasing"
  | .writing => str "writing"
  | .verifying => str "verifying"
  | .done => str "done"
  | .error => str "error"
  | .idle => str "idle"

def jobStatus (w : World E) : Int × World E :=
  let job := w.ctx.job
  let total := if job.phase = .erasing then job.eraseSize else job.writeSize
  replyText P (str "200 OK")
    (str "\x7b\"ok\":true,\"active\":" ++ boolText (jobActive w.ctx) ++
      str ",\"phase\":\"" ++ phaseName job.phase ++
      str "\",\"progress\":" ++ fmtDec (jobProgress job) ++
      str ",\"processed\":" ++ fmtDec job.processed ++
      str ",\"total\":" ++ fmtDec total ++
      str ",\"target\":\"" ++ (job.part.map (·.name)).getD [] ++
      str "\",\"error\":\"" ++ job.error ++
      str "\",\"reboot_pending\":" ++ boolText w.ctx.rebootPending ++
      str "\x7d") w

def envInfo (w : World E) : Int × World E :=
  let get := fun name => (P.envGet (str name) w.ext).getD []
  replyText P (str "200 OK")
    (str "\x7b\"ipaddr\":\"" ++ get "ipaddr" ++
      str "\",\"netmask\":\"" ++ get "netmask" ++
      str "\",\"serverip\":\"" ++ get "serverip" ++
      str "\",\"bootdelay\":\"" ++ get "bootdelay" ++ str "\"\x7d") w

def startDownload (name : Bytes) (w : World E) : Int × World E :=
  if operationBlocked w.ctx then
    (-EBUSY, error P "409 Conflict" "busy flashing" w)
  else if name = str "fullflash" then
    sendDownload P 0 P.flashSize (str "hlk-7621a-fullflash.bin") w
  else
    match P.partitionFind name with
    | none => (-ENOENT, error P "404 Not Found" "unknown backup partition" w)
    | some part => sendDownload P part.offset part.size part.filename w

/-!
## State-changing handlers
-/

def envReset (w : World E) : Int × World E :=
  if operationBlocked w.ctx then
    (-EBUSY, error P "409 Conflict" "device busy" w)
  else
    let c := checkConfirmation P (str "RESET-ENVIRONMENT") w
    if c.1 ≠ 0 then (-EACCES, c.2)
    else
      let s := P.envSave (P.envSetDefault c.2.ext)
      let w1 : World E := { c.2 with ext := s.2, log := .envSave s.1 :: c.2.log }
      if s.1 ≠ 0 then
        (- EIO, error P "500 Internal Server Error" "save default env failed" w1)
      else ok P "default env restored" w1

/-- `POST /api/boot-ram`. -/
def bootRam (cb : Call) (w : World E) : Int × World E :=
  if operationBlocked w.ctx then
    (-EBUSY, error P "409 Conflict" "device busy" w)
  else if !w.ctx.uploadValid ||
      !w.ctx.uploadPart.any (fun part => part.has PART_RAM) then
    (-EINVAL, error P "409 Conflict" "no RAM image ready" w)
  else
    ok P "booting RAM image" { w with ctx := { w.ctx with
      bootAddr := w.ctx.completedAddr
      bootStart := cb.now
      bootPending := true } }

/-- `POST /api/flash`: the optional `X-Keep-Config` field, then the job. -/
def flash (w : World E) : Int × World E :=
  startUploadedFlash P
    (match headerValue w.ctx.header "X-Keep-Config" 4 with
    | .ok keep =>
        { w with ctx := { w.ctx with keepConfig := keep.head? == some 49 } }
    | .error _ => w)

/-- `POST /api/reboot`. -/
def reboot (cb : Call) (w : World E) : Int × World E :=
  if jobActive w.ctx || w.ctx.job.phase == .error then
    (-EBUSY, error P "409 Conflict" "reboot blocked after failed flash" w)
  else if w.ctx.rebootPending then ok P "reboot pending" w
  else ok P "device will reboot shortly" (scheduleReboot cb.now w)

/-!
## Dispatch
-/

def backupName (header : Bytes) : Option Bytes :=
  if pathIs header "GET" "/api/backup/uboot" then some (str "uboot")
  else if pathIs header "GET" "/api/backup/environment" then
    some (str "environment")
  else if pathIs header "GET" "/api/backup/factory" then some (str "factory")
  else if pathIs header "GET" "/api/backup/firmware" then some (str "firmware")
  else if pathIs header "GET" "/api/backup/fullflash" then
    some (str "fullflash")
  else none

def uploadTarget (B : Board) (header : Bytes) : Option Partition :=
  if pathIs header "POST" "/api/upload/firmware" then
    B.partitionFind (str "firmware")
  else if pathIs header "POST" "/api/upload/uboot" then
    B.partitionFind (str "uboot")
  else if pathIs header "POST" "/api/upload/environment" then
    B.partitionFind (str "environment")
  else if pathIs header "POST" "/api/upload/factory" then
    B.partitionFind (str "factory")
  else if pathIs header "POST" "/api/upload/eeprom" then
    B.partitionFind (str "eeprom")
  else if pathIs header "POST" "/api/upload/ram" then
    B.partitionFind (str "ram")
  else none

/-- The requests behind the uploads in `webflash_handle_headers`. -/
def handleAction (cb : Call) (w : World E) : Int × World E :=
  let header := w.ctx.header
  if pathIs header "POST" "/api/boot-ram" then bootRam P cb w
  else if pathIs header "POST" "/api/flash" then flash P w
  else if pathIs header "POST" "/api/factory-reset" then factoryReset P w
  else if pathIs header "POST" "/api/env" then prepareBody P .envSave w
  else if pathIs header "POST" "/api/env/reset" then envReset P w
  else if pathIs header "POST" "/api/reboot" then reboot P cb w
  else (-ENOENT, error P "404 Not Found" "not found" w)

def handleHeaders (cb : Call) (w : World E) : Int × World E :=
  let header := w.ctx.header
  if pathIs header "GET" "/" || pathIs header "GET" "/index.html" then
    reply P (str "200 OK") (str "text/html; charset=utf-8") P.indexHtml w
  else if pathIs header "GET" "/api/info" then info P w
  else if pathIs header "GET" "/api/eeprom" then eepromInfo P w
  else if pathIs header "GET" "/api/job" then jobStatus P w
  else if pathIs header "GET" "/api/env" then envInfo P w
  else
    match backupName header with
    | some name => startDownload P name w
    | none =>
        match uploadTarget P.toBoard header with
        | some part => prepareUpload P cb part w
        | none => handleAction P cb w

/-!
## Receiving
-/

def CRLFCRLF : Bytes := [13, 10, 13, 10]

def headerDone (header : Bytes) : Bool :=
  decide (header.length ≥ 4) && header.drop (header.length - 4) == CRLFCRLF

def consume (cb : Call) : Bytes -> World E -> Int × World E
  | [], w => (0, w)
  | b :: rest, w =>
      match w.ctx.rxState with
      | .replied => (0, w)
      | .upload => storeUpload P cb (b :: rest) w
      | .body => storeBody P (b :: rest) w
      | .headers =>
          if w.ctx.header.length + 1 ≥ HEADER_SIZE then
            (-E2BIG, error P "431 Request Header Fields Too Large"
              "HTTP header too large" w)
          else
            let w1 : World E :=
              { w with ctx := { w.ctx with header := w.ctx.header ++ [b] } }
            if headerDone w1.ctx.header then
              let r := handleHeaders P cb w1
              if r.1 ≠ 0 then (-EINVAL, r.2) else consume cb rest r.2
            else consume cb rest w1

/-- The loop over the buffer chain in `webflash_recv`. -/
def consumeAll (cb : Call) : List Bytes -> World E -> World E
  | [], w => w
  | q :: chain, w =>
      if w.ctx.client.isNone then w
      else
        let r := consume P cb q w
        if r.1 ≠ 0 then r.2 else consumeAll cb chain r.2

def touch (now : Nat) (w : World E) : World E :=
  { w with ctx := { w.ctx with lastActivity := now } }

/-- `webflash_recv`; `none` is the NULL buffer of a closed connection. -/
def recv (cb : Call) (p : Option (List Bytes)) (err : Err) (w : World E) :
    World E :=
  match p with
  | none => (tryCloseClient P w).2
  | some chain =>
      if err ≠ .ok then abortClient P w
      else
        consumeAll P cb chain (touch cb.now w)

/-!
## The other callbacks
-/

/-- The part of `webflash_sent` that continues an active stream; the second
component tells that the connection was aborted. -/
def sentStream (cb : Call) (w : World E) : Bool × World E :=
  if !w.ctx.streamActive then (false, w)
  else
    let filled := streamFill P w
    if filled.1 ≠ 0 then (true, abortClient P filled.2)
    else
      let r := tcpOutput P cb.pcb filled.2
      if r.1 = .mem then
        (false, { r.2 with ctx := { r.2.ctx with outputPending := true } })
      else if r.1 ≠ .ok then (true, abortClient P r.2)
      else (false, r.2)

/-- The peer has acknowledged `len` bytes. -/
def acknowledged (cb : Call) (len : Nat) (w : World E) : World E :=
  { w with ctx := { w.ctx with
    lastActivity := cb.now
    replyPending :=
      if len ≥ w.ctx.replyPending then 0 else w.ctx.replyPending - len } }

def sent (cb : Call) (len : Nat) (w : World E) : World E :=
  if w.ctx.client ≠ some cb.pcb then w
  else
    let r := sentStream P cb (acknowledged cb len w)
    if r.1 then r.2
    else if r.2.ctx.rxState ≠ .replied ∨ r.2.ctx.replyPending ≠ 0 ∨
        r.2.ctx.streamActive then r.2
    else
      (tryCloseClient P { r.2 with ctx := { r.2.ctx with
        outputPending := false
        closePending := true } }).2

/-- `webflash_tcp_error`; the callback is not told for which connection. -/
def tcpError (cb : Call) (w : World E) : World E :=
  { w with
    ctx := { w.ctx with
      uploadValid :=
        if w.ctx.rxState = .upload then false else w.ctx.uploadValid
      client := none
      replyPending := 0
      streamActive := false
      outputPending := false
      closePending := false }
    net := .errored cb.pcb :: w.net }

/-- The output part of `webflash_poll`. -/
def pollOutput (cb : Call) (w : World E) : Bool × World E :=
  if !w.ctx.outputPending && !w.ctx.streamActive then (false, w)
  else
    let r := tcpOutput P cb.pcb w
    if r.1 = .ok then
      (false, { r.2 with ctx := { r.2.ctx with outputPending := false } })
    else if r.1 ≠ .mem then (true, abortClient P r.2)
    else (false, r.2)

/-- The close and the idle timeout at the end of `webflash_poll`. -/
def pollClose (cb : Call) (w : World E) : World E :=
  let r :=
    if w.ctx.closePending && w.ctx.replyPending == 0 then tryCloseClient P w
    else (.mem, w)
  if r.1 = .ok ∨ r.1 = .abrt then r.2
  else if sub32 cb.now r.2.ctx.lastActivity > IDLE_TIMEOUT_MS then
    abortClient P r.2
  else r.2

def poll (cb : Call) (w : World E) : World E :=
  let filled := if w.ctx.streamActive then streamFill P w else (0, w)
  if filled.1 ≠ 0 then abortClient P filled.2
  else
    let r := pollOutput P cb filled.2
    if r.1 then r.2 else pollClose P cb r.2

def accepted (cb : Call) (w : World E) : World E :=
  { w with
    ctx := { w.ctx with
      client := some cb.pcb
      header := []
      body := []
      uploadSize := 0
      contentLength := 0
      lastActivity := cb.now
      rxState := .headers
      action := .none
      keepConfig := false
      clientAborted := false
      replyPending := 0
      streamRemaining := 0
      streamMemory := []
      streamActive := false
      streamFromFlash := false
      outputPending := false
      closePending := false }
    net := .accepted cb.pcb :: w.net }

/-- `webflash_accept`; while a client is served, others are turned away. -/
def accept (cb : Call) (err : Err) (w : World E) : World E :=
  if err ≠ .ok then w
  else if w.ctx.client.isSome then
    { w with ext := P.tcpAbort cb.pcb w.ext, net := .abort cb.pcb :: w.net }
  else accepted cb w

/-!
## Main loop
-/

def bootTimer (now : Nat) (w : World E) : World E :=
  if w.ctx.bootPending && decide (sub32 now w.ctx.bootStart ≥ BOOT_DELAY_MS) then
    let w1 := abortClient P w
    let w2 : World E := { w1 with log := .bootm w1.ctx.bootAddr :: w1.log }
    match P.bootm w1.ctx.bootAddr w1.ram w1.ext with
    | none => { w2 with halted := some .booted }
    | some (ram, ext) =>
        { w2 with
          ctx := { w2.ctx with bootPending := false }
          ram := ram
          ext := ext }
  else w

def rebootTimer (now : Nat) (w : World E) : World E :=
  if w.ctx.rebootPending &&
      decide (sub32 now w.ctx.rebootStart ≥ REBOOT_DELAY_MS) then
    { w with log := .resetCpu :: w.log, halted := some .reset }
  else w

inductive Event where
  | accept (pcb : Pcb) (err : Err)
  | recv (pcb : Pcb) (p : Option (List Bytes)) (err : Err)
  | sent (pcb : Pcb) (len : Nat)
  | error (pcb : Pcb)
  | poll (pcb : Pcb)
  | jobStep
  | bootTimer
  | rebootTimer

def step (w : World E) (e : Nat × Event) : World E :=
  if w.halted.isSome then w
  else
    match e.2 with
    | .accept pcb err => accept P ⟨pcb, e.1⟩ err w
    | .recv pcb p err => recv P ⟨pcb, e.1⟩ p err w
    | .sent pcb len => sent P ⟨pcb, e.1⟩ len w
    | .error pcb => tcpError ⟨pcb, e.1⟩ w
    | .poll pcb => poll P ⟨pcb, e.1⟩ w
    | .jobStep => jobStep P e.1 w
    | .bootTimer => bootTimer P e.1 w
    | .rebootTimer => rebootTimer e.1 w

def run (w : World E) (events : List (Nat × Event)) : World E :=
  events.foldl (step P) w

/-- A freshly initialised server: `struct webflash_ctx ctx = \x7b\x7d` with the load
address set. -/
def initial (loadAddr : Nat) (ram : Nat -> UInt8) (ext : E) : World E where
  ctx := { loadAddr := u32 loadAddr }
  ram := ram
  ext := ext

end Webflash
end Hlk7621
