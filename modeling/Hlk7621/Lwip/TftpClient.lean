import Hlk7621.Lib.Bytes
import Hlk7621.UBoot.Strto
import Mathlib.Algebra.GroupWithZero.Nat

/-!
# The TFTP client

Model of the reading client of lwIP's `apps/tftp/tftp.c` and of its callbacks in
`net/lwip/tftp.c`: the state that `tftp_get` sets up, `tftp_recv`,
`tftp_req_tmr`, and what the loop of `tftp_loop` can do to a transfer.  The check
of the memory map is a parameter with a state of its own.
-/

namespace Hlk7621
namespace Lwip
namespace Tftp

open UBoot

def TFTP_DEFAULT_BLOCK_SIZE : Nat := 512
def TFTP_HEADER_LENGTH : Nat := 4
def TFTP_MAX_RETRIES : Nat := 5

def TFTP_RRQ : Nat := 1
def TFTP_WRQ : Nat := 2
def TFTP_DATA : Nat := 3
def TFTP_ACK : Nat := 4
def TFTP_ERROR : Nat := 5
def TFTP_OACK : Nat := 6

def TFTP_ERROR_ACCESS_VIOLATION : Nat := 2
def TFTP_ERROR_ILLEGAL_OPERATION : Nat := 4
def TFTP_ERROR_UNKNOWN_TRFR_ID : Nat := 5

/-- A received datagram as a chain of buffers, the first of which holds the header. -/
structure Pbuf where
  first : Bytes
  rest : List Bytes
  header : TFTP_HEADER_LENGTH ≤ first.length

namespace Pbuf

/-- `lwip_ntohs(sbuf[i])`. -/
def word (p : Pbuf) (i : Nat) : Nat := beNat ((p.first.drop (2 * i)).take 2)

/-- The chain behind `pbuf_remove_header(p, TFTP_HEADER_LENGTH)`. -/
def payload (p : Pbuf) : List Bytes := p.first.drop TFTP_HEADER_LENGTH :: p.rest

def bytes (p : Pbuf) : Bytes := p.first ++ p.rest.flatten

end Pbuf

inductive Packet where
  | request (fname : Bytes) (blksize : Nat)
  | ack (blknum : Nat)
  | error (code : Nat) (text : String)
  deriving DecidableEq

/-- A packet that was sent, with the address and the port it went to. -/
structure Sent where
  addr : Nat
  port : Nat
  packet : Packet
  deriving DecidableEq

inductive DoneState where
  | notDone
  | success
  | failure
  | aborted
  deriving DecidableEq

structure TftpCtx where
  daddr : Nat
  size : Nat
  done : DoneState

structure TftpReq where
  addr : Nat
  port : Nat
  fname : Bytes

/-- `tftp_state` and `tftp_req`, a null `fname` being no request, with what the
callbacks work on.  The timer of the request runs as long as the request is kept. -/
structure Client (L : Type) where
  handle : Bool
  addr : Nat
  port : Nat
  blknum : Nat
  blksize : Nat
  tsize : Nat
  retries : Nat
  waitOack : Bool
  req : Option TftpReq
  ctx : TftpCtx
  mem : Nat -> UInt8
  lmb : L
  filesize : Option Nat
  sent : List Sent

variable {L : Type} (lmbReadCheck : Nat -> Nat -> L -> Int × L)

/-!
## The callbacks
-/

/-- `store_block`; the first result says whether the copy is allowed. -/
def storeBlock (src : Bytes) (w : Client L) : Bool × Client L :=
  if u32 (w.ctx.daddr + src.length) < w.ctx.daddr then (false, w)
  else
    let r := lmbReadCheck w.ctx.daddr src.length w.lmb
    if r.1 ≠ 0 then (false, { w with lmb := r.2 })
    else
      (true,
        { w with
          lmb := r.2
          mem := overwrite w.mem w.ctx.daddr src
          ctx :=
            { w.ctx with
              daddr := u32 (w.ctx.daddr + src.length)
              size := u32 (w.ctx.size + src.length) } })

def tftpWrite : List Bytes -> Client L -> Bool × Client L
  | [], w => (true, w)
  | q :: rest, w =>
      let r := storeBlock lmbReadCheck q w
      if r.1 then tftpWrite rest r.2 else r

def tftpClose (w : Client L) : Client L :=
  match w.ctx.done with
  | .failure | .aborted => w
  | .notDone | .success =>
      { w with ctx := { w.ctx with done := .success }, filesize := some w.ctx.size }

def tftpError (w : Client L) : Client L := { w with ctx := { w.ctx with done := .failure } }

/-- `no_response`, called once if nothing was stored in time. -/
def noResponse (w : Client L) : Client L :=
  if w.ctx.size ≠ 0 then w else { w with ctx := { w.ctx with done := .failure } }

/-- What the loop does when `ctrlc()` is true. -/
def ctrlc (w : Client L) : Client L := { w with ctx := { w.ctx with done := .aborted } }

/-!
## The protocol
-/

def clearReq (w : Client L) : Client L := { w with req := none }

def closeHandle (w : Client L) : Client L :=
  let w := { clearReq w with port := 0, addr := 0, retries := 0 }
  if w.handle then { tftpClose w with handle := false } else w

def sendPacket (addr port : Nat) (packet : Packet) (w : Client L) : Client L :=
  { w with sent := w.sent ++ [⟨addr, port, packet⟩] }

def sendError (addr port code : Nat) (text : String) : Client L -> Client L :=
  sendPacket addr port (.error code text)

def sendAck (addr port blknum : Nat) : Client L -> Client L :=
  sendPacket addr port (.ack blknum)

def resendRequest (w : Client L) : Client L :=
  match w.req with
  | none => w
  | some req =>
      { sendPacket req.addr req.port (.request req.fname w.blksize) w with waitOack := true }

def payloadSize (w : Client L) : Nat :=
  if w.blksize ≠ 0 then w.blksize else TFTP_DEFAULT_BLOCK_SIZE

/-- A string and what follows its NUL, which has to come in time. -/
def untilNul (s : Bytes) : Option (Bytes × Bytes) :=
  if 0 ∈ s then some (s.takeWhile (· ≠ 0), (s.dropWhile (· ≠ 0)).drop 1) else none

def findOptionLoop (option : Bytes) : Nat -> Bytes -> Option Bytes
  | 0, _ => none
  | fuel + 1, pos =>
      match untilNul pos with
      | none => none
      | some (key, pos) =>
          match untilNul pos with
          | none => none
          | some (value, pos) =>
              if key = option then some value else findOptionLoop option fuel pos

/-- `find_option` on the bytes behind the opcode. -/
def findOption (option pos : Bytes) : Option Bytes := findOptionLoop option pos.length pos

def atoi (s : Bytes) : Nat := (simpleStrtoul s 10).1

/-- `tftp_state.blksize` after an answer with this value for `blksize`. -/
def srvBlksize (blksize : Nat) : Option Bytes -> Nat
  | none => blksize
  | some value => atoi value % 2 ^ 16

/-- The option `blksize` of the answer; an error that is sent for it has no consequence. -/
def takeBlksize (addr port : Nat) (value : Option Bytes) (w : Client L) : Client L :=
  let blksize := srvBlksize w.blksize value
  let w :=
    if value.isSome ∧ w.blksize = 0 then
      sendError addr port TFTP_ERROR_ILLEGAL_OPERATION "blksize unexpected" w
    else w
  let w :=
    if value.isSome ∧ (blksize = 0 ∨ w.blksize < blksize) then
      sendError addr port TFTP_ERROR_ILLEGAL_OPERATION "Invalid blksize" w
    else w
  { w with blksize := blksize }

def takeTsize (value : Option Bytes) (w : Client L) : Client L :=
  match value with
  | none => w
  | some value => { w with tsize := atoi value }

def takeOptions (addr port : Nat) (options : Bytes) (w : Client L) : Client L :=
  takeTsize (findOption (str "tsize") options)
    (takeBlksize addr port (findOption (str "blksize") options)
      { w with waitOack := false })

/-- Data instead of the answer to the options: the server knows none of them. -/
def settleOptions (w : Client L) : Client L :=
  if w.waitOack then { w with tsize := 0, waitOack := false, blksize := 0 } else w

def takeBlock (addr port : Nat) (payload : List Bytes) (w : Client L) : Client L :=
  let r := tftpWrite lmbReadCheck payload w
  let w' :=
    if r.1 then sendAck addr port w.blknum r.2
    else
      closeHandle
        (sendError addr port TFTP_ERROR_ACCESS_VIOLATION "error writing file" r.2)
  if (payload.map List.length).sum < payloadSize w' then closeHandle w'
  else { w' with blknum := (w'.blknum + 1) % 2 ^ 16 }

def recvData (addr port : Nat) (p : Pbuf) (w : Client L) : Client L :=
  if w.handle = false then
    sendError addr port TFTP_ERROR_ACCESS_VIOLATION "No connection" w
  else
    let w := settleOptions w
    if p.word 1 = w.blknum then takeBlock lmbReadCheck addr port p.payload w
    else if (p.word 1 + 1) % 2 ^ 16 = w.blknum then sendAck addr port (p.word 1) w
    else sendError addr port TFTP_ERROR_UNKNOWN_TRFR_ID "Wrong block number" w

def recvError (w : Client L) : Client L :=
  if w.handle then closeHandle (tftpError w) else w

def tftpRecv (addr port : Nat) (p : Pbuf) (w : Client L) : Client L :=
  if w.port ≠ 0 ∧ port ≠ w.port ∨ w.addr ≠ 0 ∧ w.addr ≠ addr then
    sendError addr port TFTP_ERROR_ACCESS_VIOLATION
      "Only one connection at a time is supported" w
  else
    let w := clearReq { w with retries := 0 }
    let opcode := p.word 0
    if opcode = TFTP_RRQ ∨ opcode = TFTP_WRQ then
      if w.handle then
        sendError addr port TFTP_ERROR_ACCESS_VIOLATION
          "Only one connection at a time is supported" w
      else sendError addr port TFTP_ERROR_ACCESS_VIOLATION "TFTP server not enabled" w
    else if opcode = TFTP_DATA then recvData lmbReadCheck addr port p w
    else if opcode = TFTP_ACK then
      sendError addr port TFTP_ERROR_ACCESS_VIOLATION
        (if w.handle then "Not a read connection" else "No connection") w
    else if opcode = TFTP_ERROR then recvError w
    else if opcode = TFTP_OACK then
      sendAck addr port 0 (takeOptions addr port (p.first.drop 2) w)
    else sendError addr port TFTP_ERROR_ILLEGAL_OPERATION "Unknown operation" w

def tftpReqTmr (w : Client L) : Client L :=
  if w.req.isNone ∨ w.handle = false then w
  else if w.retries < TFTP_MAX_RETRIES then
    let w := resendRequest w
    { w with retries := w.retries + 1 }
  else closeHandle (tftpError w)

/-- `tftp_client_set_blksize` after `tftp_init_client` and a cleanup. -/
def setBlksize (blksize : Nat) : Nat :=
  if blksize % 2 ^ 16 ≠ TFTP_DEFAULT_BLOCK_SIZE then blksize % 2 ^ 16 else 0

/-- The client when `tftp_loop` enters its loop: `tftp_get` has sent the request. -/
def tftpGet (loadaddr blksize : Nat) (req : TftpReq) (mem : Nat -> UInt8) (lmb : L) :
    Client L :=
  resendRequest
    { handle := true
      addr := 0
      port := 0
      blknum := 1
      blksize := setBlksize blksize
      tsize := 0
      retries := 0
      waitOack := false
      req := some req
      ctx := { daddr := loadaddr, size := 0, done := .notDone }
      mem := mem
      lmb := lmb
      filesize := none
      sent := [] }

end Tftp
end Lwip
end Hlk7621
