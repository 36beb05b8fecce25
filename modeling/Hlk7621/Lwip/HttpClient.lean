import Hlk7621.Lib.Runs
import Hlk7621.UBoot.Strto

/-!
# The HTTP client of `wget`

Model of the receiving half of lwIP's `apps/http/http_client.c` with the callbacks of
`net/lwip/wget.c`.  A chain of buffers is the bytes it holds, since `pbuf_cat` keeps
their order and every read goes by the offset in the chain; `recv` has the buffers of
the chain it is given.  Offsets are those of chains shorter than `0xffff` bytes.
-/

namespace Hlk7621
namespace Lwip
namespace Httpc

open UBoot

def HTTPC_CONTENT_LEN_INVALID : Nat := 0xffffffff

/-!
## Searching a chain
-/

def firstMatch (needle : Bytes) : Bytes -> Option Nat
  | [] => if needle = [] then some 0 else none
  | b :: rest =>
      if needle.isPrefixOf (b :: rest) then some 0
      else (firstMatch needle rest).map (· + 1)

/-- `pbuf_memfind`, with no result for `0xffff`. -/
def pbufMemfind (p needle : Bytes) (start : Nat) : Option Nat :=
  if needle.length + start ≤ p.length then
    (firstMatch needle (p.drop start)).map (start + ·)
  else none

/-- The bytes that `pbuf_copy_partial` copies; `len` is cut to 16 bits. -/
def pbufCopyPartial (p : Bytes) (len off : Nat) : Bytes := (p.drop off).take (len % 2 ^ 16)

inductive Parsed where
  | wait
  | found (value : Nat)
  /-- A copy or `atoi` goes behind an array. -/
  | overflow
  deriving DecidableEq

/-- `len` bytes from `off` on in a zeroed array of `room` bytes, read by `atoi` if the chain
holds so many. -/
def copiedNumber (p : Bytes) (room off len : Nat) : Parsed :=
  let num := pbufCopyPartial p len off
  if room < num.length then .overflow
  else if num.length ≠ len then .wait
  else
    let s := num.takeWhile (· ≠ 0)
    let r := simpleStrtoul s 10
    -- digits that fill the array are not ended by a NUL
    if s.length = room ∧ r.2 = [] then .overflow else .found r.1

def crlf : Bytes := [13, 10]

def httpParseResponseStatus (p : Bytes) : Parsed :=
  match pbufMemfind p crlf 0, pbufMemfind p [32] 0 with
  | some end1, some space1 =>
      if p.take 5 = str "HTTP/" ∧ p[6]? = some 46 then
        let stop := (pbufMemfind p [32] (space1 + 1)).getD end1
        -- a line that ends in front of the blank gives a length near 2^32
        match copiedNumber p 10 (space1 + 1) (sub32 stop (space1 + 1)) with
        | .found status => if 0 < status ∧ status ≤ 0xffff then .found status else .wait
        | r => r
      else .wait
  | _, _ => .wait

inductive Headers where
  | wait
  | done (contentLength totalHeaderLen : Nat)
  | overflow
  deriving DecidableEq

def CONTENT_LENGTH : Bytes := str "Content-Length: "

def contentLength (p : Bytes) : Parsed :=
  match pbufMemfind p CONTENT_LENGTH 0 with
  | none => .wait
  | some hdr =>
      match pbufMemfind p crlf hdr with
      | none => .wait
      | some lineEnd =>
          match copiedNumber p 16 (hdr + 16) (lineEnd - hdr - 16) with
          | .found len => if len < 2 ^ 31 then .found len else .wait
          | r => r

def httpWaitHeaders (p : Bytes) : Headers :=
  match pbufMemfind p (crlf ++ crlf) 0 with
  | none => .wait
  | some end1 =>
      match contentLength p with
      | .wait => .done HTTPC_CONTENT_LEN_INVALID (end1 + 4)
      | .found len => .done len (end1 + 4)
      | .overflow => .overflow

/-!
## The callbacks of `wget`
-/

structure WgetInfo where
  bufferSize : Nat
  checkBufferSize : Bool
  setBootdev : Bool
  silent : Bool

inductive DoneState where
  | notDone
  | success
  | failure
  deriving DecidableEq

inductive ParseState where
  | waitFirstLine
  | waitHeaders
  | rxData
  deriving DecidableEq

/-- The connection and the context of the request.  A closed connection has no callbacks
any more; `broken` says that an array was left or a division was by zero.  `board` stands for
the memory map and the environment. -/
structure Client (L : Type) where
  closed : Bool
  broken : Bool
  parseState : ParseState
  rxHdrs : List Bytes
  rxStatus : Nat
  rxContentLen : Nat
  hdrContentLen : Nat
  timeoutTicks : Nat
  daddr : Nat
  savedDaddr : Nat
  size : Nat
  done : DoneState
  statusCode : Nat
  fileSize : Option Nat
  mem : Nat -> UInt8
  board : L

variable {L : Type} (lmbReadCheck : Nat -> Nat -> L -> Int × L)
  (envSetHex : Bytes -> Nat -> L -> Int × L) (info : WgetInfo)

/-- The check of a block that is stored where the kernel boots from. -/
def blockAllowed (len : Nat) (w : Client L) : Bool × L :=
  if info.setBootdev then
    if u32 (w.daddr + len) < w.daddr then (false, w.board)
    else
      let r := lmbReadCheck w.daddr len w.board
      (r.1 = 0, r.2)
  else (true, w.board)

def storeBlock (src : Bytes) (w : Client L) : Bool × Client L :=
  if info.bufferSize ≠ 0 ∧ info.bufferSize < u32 (w.size + src.length) then (false, w)
  else
    let r := blockAllowed lmbReadCheck info src.length w
    let w := { w with board := r.2 }
    if r.1 then
      (true,
        { w with
          mem := overwrite w.mem w.daddr src
          -- the hash marks go by the announced length
          broken := w.broken || (!info.silent && w.hdrContentLen = 0)
          daddr := u32 (w.daddr + src.length)
          size := u32 (w.size + src.length) })
    else (false, w)

def storeBlocks : List Bytes -> Client L -> Bool × Client L
  | [], w => (true, w)
  | buf :: rest, w =>
      let r := storeBlock lmbReadCheck info buf w
      if r.1 then storeBlocks rest r.2 else r

inductive Result where
  | ok
  | errClosed
  | errTimeout
  | errContentLen
  | localAbort
  deriving DecidableEq

/-- `httpc_result_cb`; `bufErr` says that `err` is `ERR_BUF`. -/
def httpcResultCb (result : Result) (status : Nat) (bufErr : Bool) (w : Client L) : Client L :=
  let w := { w with statusCode := status }
  if bufErr ∨ result ≠ .ok ∨ status ≠ 200 then { w with done := .failure }
  else
    let r := envSetHex (str "filesize") w.rxContentLen w.board
    let w := { w with fileSize := some w.rxContentLen, board := r.2 }
    if r.1 ≠ 0 then { w with done := .failure }
    else
      let r := envSetHex (str "fileaddr") w.savedDaddr w.board
      let w := { w with board := r.2 }
      if r.1 ≠ 0 then { w with done := .failure } else { w with done := .success }

def httpcClose (result : Result) (status : Nat) (bufErr : Bool) (w : Client L) : Client L :=
  { httpcResultCb envSetHex result status bufErr w with closed := true }

/-- `httpc_tcp_err`, also called for `altcp_abort`. -/
def httpcTcpErr (w : Client L) : Client L := httpcClose envSetHex .errClosed 0 false w

def httpcRecvCb (chain : List Bytes) (w : Client L) : Client L :=
  let r := storeBlocks lmbReadCheck info chain w
  if r.1 then r.2 else httpcTcpErr envSetHex r.2

/-- The part of `httpc_tcp_recv` that hands data on. -/
def rxData (chain : List Bytes) (w : Client L) : Client L :=
  httpcRecvCb lmbReadCheck envSetHex info chain
    { w with
      rxContentLen := u32 (w.rxContentLen + chain.flatten.length)
      timeoutTicks := 30 }

/-- `pbuf_free_header`: what is left of a chain. -/
def pbufFreeHeader : Nat -> List Bytes -> List Bytes
  | 0, chain => chain
  | _ + 1, [] => []
  | n + 1, buf :: rest =>
      if buf.length ≤ n + 1 then pbufFreeHeader (n + 1 - buf.length) rest
      else buf.drop (n + 1) :: rest

/-- `httpc_headers_done_cb`. -/
def headersDone (contentLen : Nat) : Bool :=
  !(info.checkBufferSize && info.bufferSize < contentLen)

def firstLine (w : Client L) : Client L :=
  match w.parseState with
  | .waitFirstLine =>
      match httpParseResponseStatus w.rxHdrs.flatten with
      | .wait => w
      | .found status => { w with rxStatus := status, parseState := .waitHeaders }
      | .overflow => { w with broken := true }
  | _ => w

/-- The other lines; when they are complete the rest of the chain is data. -/
def otherLines (w : Client L) : Client L :=
  match w.parseState with
  | .waitHeaders =>
      match httpWaitHeaders w.rxHdrs.flatten with
      | .wait => w
      | .overflow => { w with broken := true }
      | .done contentLen len =>
          let w := { w with hdrContentLen := contentLen }
          if headersDone info contentLen then
            let chain := pbufFreeHeader len w.rxHdrs
            let w := { w with rxHdrs := [], parseState := .rxData }
            if chain = [] then w else rxData lmbReadCheck envSetHex info chain w
          else httpcClose envSetHex .localAbort w.rxStatus true w
  | _ => w

def httpcTcpRecv (p : List Bytes) (w : Client L) : Client L :=
  match w.parseState with
  | .rxData => rxData lmbReadCheck envSetHex info p w
  | _ => otherLines lmbReadCheck envSetHex info (firstLine { w with rxHdrs := w.rxHdrs ++ p })

/-- `httpc_tcp_recv` when the server has closed the connection. -/
def httpcTcpClosed (w : Client L) : Client L :=
  if w.parseState ≠ .rxData then httpcClose envSetHex .errClosed w.rxStatus false w
  else if w.hdrContentLen ≠ HTTPC_CONTENT_LEN_INVALID ∧ w.hdrContentLen ≠ w.rxContentLen then
    httpcClose envSetHex .errContentLen w.rxStatus false w
  else httpcClose envSetHex .ok w.rxStatus false w

def httpcTcpPoll (w : Client L) : Client L :=
  let w := { w with timeoutTicks := w.timeoutTicks - 1 }
  if w.timeoutTicks = 0 then httpcClose envSetHex .errTimeout 0 false w else w

/-- A chain that TCP hands over, within the receive window. -/
structure Segment where
  chain : List Bytes
  small : chain.flatten.length < 2 ^ 15

inductive Event where
  | recv (p : Segment)
  | closed
  | err
  | poll

/-- The callbacks of a connection that is open, as long as nothing has gone wrong. -/
def step (w : Client L) (e : Event) : Client L :=
  if w.closed ∨ w.broken then w
  else
    match e with
    | .recv p => httpcTcpRecv lmbReadCheck envSetHex info p.chain w
    | .closed => httpcTcpClosed envSetHex w
    | .err => httpcTcpErr envSetHex w
    | .poll => httpcTcpPoll envSetHex w

def start (dstAddr : Nat) (mem : Nat -> UInt8) (board : L) : Client L where
  closed := false
  broken := false
  parseState := .waitFirstLine
  rxHdrs := []
  rxStatus := 0
  rxContentLen := 0
  hdrContentLen := HTTPC_CONTENT_LEN_INVALID
  timeoutTicks := 30
  daddr := dstAddr
  savedDaddr := dstAddr
  size := 0
  done := .notDone
  statusCode := 0
  fileSize := none
  mem := mem
  board := board

end Httpc
end Lwip
end Hlk7621
