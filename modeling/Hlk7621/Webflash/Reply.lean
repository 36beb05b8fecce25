import Hlk7621.Webflash.Types

/-!
# Connections and replies

The functions of `webflash.c` that end a connection, send a reply and stream
its payload.  They change the connection fields of the context, and through the
platform the state of the TCP stack; which fields they leave alone is the
subject of `Hlk7621.Webflash.Frame`.
-/

namespace Hlk7621
namespace Webflash

variable {E : Type} (P : Platform E)

/-!
## Ending a connection
-/

/-- `webflash_detach_client`: callbacks and argument of the connection are
unregistered and the client slot is free. -/
def detachClient (w : World E) : World E :=
  { w with ctx := { w.ctx with client := none } }

def abortClient (w : World E) : World E :=
  match w.ctx.client with
  | none => w
  | some pcb =>
      let w1 : World E :=
        if w.ctx.rxState = .upload then
          { w with ctx := { w.ctx with uploadValid := false } }
        else w
      let w2 := detachClient w1
      { w2 with
        ctx := { w2.ctx with clientAborted := true }
        ext := P.tcpAbort pcb w2.ext
        net := .abort pcb :: w2.net }

/-- `webflash_try_close_client`.  A closed connection keeps its callbacks: only
`webflash_detach_client` unregisters them. -/
def tryCloseClient (w : World E) : Err × World E :=
  match w.ctx.client with
  | none => (.ok, w)
  | some pcb =>
      let r := P.tcpClose pcb w.ext
      let w1 : World E := { w with ext := r.2, net := .close pcb r.1 :: w.net }
      if r.1 = .ok then
        (.ok, { w1 with
          ctx := { w1.ctx with client := none, closePending := false } })
      else if r.1 = .mem then
        (.mem, { w1 with ctx := { w1.ctx with closePending := true } })
      else (.abrt, abortClient P w1)

/-!
## Streaming a payload
-/

def tcpWrite (pcb : Pcb) (data : Bytes) (w : World E) : Err × World E :=
  let r := P.tcpWrite pcb data w.ext
  (r.1, { w with ext := r.2, net := .write pcb data r.1 :: w.net })

def tcpOutput (pcb : Pcb) (w : World E) : Err × World E :=
  let r := P.tcpOutput pcb w.ext
  (r.1, { w with ext := r.2, net := .output pcb r.1 :: w.net })

def streamAdvance (len : Nat) (w : World E) : World E :=
  if w.ctx.streamFromFlash then
    { w with ctx := { w.ctx with
      streamOffset := u32 (w.ctx.streamOffset + len)
      streamRemaining := w.ctx.streamRemaining - len } }
  else
    { w with ctx := { w.ctx with
      streamMemory := w.ctx.streamMemory.drop len
      streamRemaining := w.ctx.streamRemaining - len } }

/-- The payload bytes of the next chunk: an error code, or the data. -/
def streamChunk (len : Nat) (w : World E) : Int × Bytes × World E :=
  if w.ctx.streamFromFlash then
    let r := P.spiFlashRead w.ctx.streamOffset len w.ext
    (r.1, window r.2.1 0 len, { w with ext := r.2.2 })
  else (0, w.ctx.streamMemory.take len, w)

/-- The `while` loop of `webflash_stream_fill`.  Every round hands over at
least one byte, so `stream_remaining` rounds are enough. -/
def streamFillLoop : Nat -> World E -> Int × World E
  | 0, w => (0, w)
  | fuel + 1, w =>
      if w.ctx.streamRemaining = 0 then (0, w)
      else
        match w.ctx.client with
        | none => (- EIO, { w with halted := some .fault })
        | some pcb =>
            if P.tcpSndbuf pcb w.ext = 0 then (0, w)
            else
              let len := min w.ctx.streamRemaining
                (min (P.tcpSndbuf pcb w.ext).toNat STREAM_CHUNK)
              let chunk := streamChunk P len w
              if chunk.1 ≠ 0 then (chunk.1, chunk.2.2)
              else
                let r := tcpWrite P pcb chunk.2.1 chunk.2.2
                if r.1 = .mem then (0, r.2)
                else if r.1 ≠ .ok then (- EIO, r.2)
                else streamFillLoop fuel (streamAdvance len r.2)

def streamFill (w : World E) : Int × World E :=
  let r := streamFillLoop P w.ctx.streamRemaining w
  if r.1 = 0 ∧ r.2.ctx.streamRemaining = 0 then
    (0, { r.2 with ctx := { r.2.ctx with streamActive := false } })
  else r

/-!
## Replies
-/

def replyHeader (status type : Bytes) (bodyLen : Nat) : Bytes :=
  str "HTTP/1.0 " ++ status ++ str "\r\n" ++
    str "Content-Type: " ++ type ++ str "\r\n" ++
    str "Content-Length: " ++ fmtDec bodyLen ++ str "\r\n" ++
    str "Cache-Control: no-store\r\n" ++
    str "Connection: close\r\n\r\n"

def replying (headerLen : Nat) (body : Bytes) (w : World E) : World E :=
  { w with ctx := { w.ctx with
    rxState := .replied
    replyPending := headerLen + body.length
    outputPending := false
    closePending := false
    streamMemory := body
    streamRemaining := body.length
    streamFromFlash := false
    streamActive := body.length != 0 } }

/-- Hand the queued segments to the network and settle the outcome. -/
def flushReply (pcb : Pcb) (w : World E) : Int × World E :=
  let r := tcpOutput P pcb w
  if r.1 = .mem then
    (0, { r.2 with ctx := { r.2.ctx with outputPending := true } })
  else if r.1 ≠ .ok then (- EIO, abortClient P r.2)
  else (0, r.2)

def reply (status type body : Bytes) (w : World E) : Int × World E :=
  match w.ctx.client with
  | none => (-ENOTCONN, w)
  | some pcb =>
      let header := replyHeader status type body.length
      if header.length ≥ 192 ∨ body.length > 65535 then
        (-EOVERFLOW, abortClient P w)
      else
        let r := tcpWrite P pcb header w
        if r.1 ≠ .ok then (- EIO, abortClient P r.2)
        else
          let filled := streamFill P (replying header.length body r.2)
          if filled.1 ≠ 0 then (- EIO, abortClient P filled.2)
          else flushReply P pcb filled.2

def replyText (status text : Bytes) (w : World E) : Int × World E :=
  let text := snprintf REPLY_SIZE text
  reply P status (str "application/json") text
    { w with ctx := { w.ctx with reply := text } }

/-- `webflash_error`; its callers return their own error code. -/
def error (status message : String) (w : World E) : World E :=
  (replyText P (str status)
    (str "\x7b\"ok\":false,\"error\":\"" ++ str message ++ str "\"\x7d") w).2

def ok (message : String) (w : World E) : Int × World E :=
  replyText P (str "200 OK")
    (str "\x7b\"ok\":true,\"message\":\"" ++ str message ++ str "\"\x7d") w

/-!
## Downloads
-/

def downloadHeader (filename : Bytes) (size : Nat) : Bytes :=
  str "HTTP/1.0 200 OK\r\n" ++
    str "Content-Type: application/octet-stream\r\n" ++
    str "Content-Disposition: attachment; filename=\"" ++ filename ++
    str "\"\r\n" ++
    str "Content-Length: " ++ fmtDec size ++ str "\r\n" ++
    str "Cache-Control: no-store\r\n" ++
    str "Connection: close\r\n\r\n"

def downloading (headerLen offset size : Nat) (w : World E) : World E :=
  { w with ctx := { w.ctx with
    rxState := .replied
    replyPending := u32 (headerLen + size)
    streamOffset := offset
    streamRemaining := size
    streamMemory := []
    streamFromFlash := true
    streamActive := true
    outputPending := false
    closePending := false } }

/-- The part of `webflash_start_download` after the range has been chosen. -/
def sendDownload (offset size : Nat) (filename : Bytes) (w : World E) :
    Int × World E :=
  match w.ctx.client with
  | none => (- EIO, { w with halted := some .fault })
  | some pcb =>
      let header := downloadHeader filename size
      if header.length ≥ 256 then (-EOVERFLOW, w)
      else
        let r := tcpWrite P pcb header w
        if r.1 ≠ .ok then (- EIO, abortClient P r.2)
        else
          let filled := streamFill P (downloading header.length offset size r.2)
          if filled.1 ≠ 0 then (- EIO, abortClient P filled.2)
          else flushReply P pcb filled.2

end Webflash
end Hlk7621
