import Hlk7621.Lwip.Ip4Addr
import Hlk7621.Webflash.Upload

/-!
# Environment editing

Form fields of `POST /api/env` and the sequence of environment updates.
-/

namespace Hlk7621
namespace Webflash

def hexToBin (c : UInt8) : Option Nat :=
  if 48 ≤ c ∧ c ≤ 57 then some (c.toNat - 48)
  else if 97 ≤ c ∧ c ≤ 102 then some (c.toNat - 97 + 10)
  else if 65 ≤ c ∧ c ≤ 70 then some (c.toNat - 65 + 10)
  else none

/-- The bytes written by `webflash_percent_decode`. -/
def percentDecode : Bytes -> Option Bytes
  | [] => some []
  | 43 :: rest => (percentDecode rest).map (32 :: ·)
  | 37 :: a :: b :: rest =>
      match hexToBin a, hexToBin b with
      | some high, some low =>
          (percentDecode rest).map (UInt8.ofNat (high * 16 + low) :: ·)
      | _, _ => none
  | c :: rest => (percentDecode rest).map (c :: ·)

def formValueLoop (key : Bytes) (valueSize : Nat) :
    Nat -> Bytes -> Except Int Bytes
  | 0, _ => .error (-ENOENT)
  | fuel + 1, text =>
      if text = [] then .error (-ENOENT)
      else
        let field := text.takeWhile fun b => b ≠ 38
        let name := field.takeWhile fun b => b ≠ 61
        if name.length < field.length ∧ name = key then
          let value := field.drop (key.length + 1)
          if value.length ≥ valueSize then .error (-E2BIG)
          else
            match percentDecode value with
            | none => .error (-EINVAL)
            | some decoded => .ok (decoded.takeWhile fun b => b ≠ 0)
        else
          match text.dropWhile fun b => b ≠ 38 with
          | [] => .error (-ENOENT)
          | _ :: rest => formValueLoop key valueSize fuel rest

/-- `webflash_form_value`; the result is the C string left in the buffer. -/
def formValue (body key : Bytes) (valueSize : Nat) :
    Except Int Bytes :=
  let text := body.takeWhile fun b => b ≠ 0
  formValueLoop key valueSize (text.length + 1) text

def ipv4Valid (value : Bytes) : Bool :=
  value != [] && (Lwip.ip4addrAton value).isSome

variable {E : Type} (P : Platform E)

def envSetAll : List (Bytes × Option Bytes) -> E -> Int × E
  | [], e => (0, e)
  | (name, value) :: rest, e =>
      let r := P.envSet name value e
      if r.1 ≠ 0 then r else envSetAll rest r.2

/-- The updates of `webflash_env_save`, after the fields have been checked. -/
def envStore (ipaddr netmask serverip bootdelay : Bytes) (w : World E) :
    Int × World E :=
  let r := envSetAll P
    [(str "ipaddr", some ipaddr), (str "netmask", some netmask),
      (str "serverip", if serverip = [] then none else some serverip),
      (str "bootdelay", some bootdelay)] w.ext
  if r.1 ≠ 0 then
    (- EIO, error P "500 Internal Server Error" "failed to save environment"
      { w with ext := r.2 })
  else
    let s := P.envSave r.2
    let w1 : World E := { w with ext := s.2, log := .envSave s.1 :: w.log }
    if s.1 ≠ 0 then
      (- EIO, error P "500 Internal Server Error" "failed to save environment" w1)
    else ok P "saved; reboot to apply" w1

def envSave (w : World E) : Int × World E :=
  match formValue w.ctx.body (str "ipaddr") 24, formValue w.ctx.body (str "netmask") 24,
      formValue w.ctx.body (str "serverip") 24, formValue w.ctx.body (str "bootdelay") 12 with
  | .ok ipaddr, .ok netmask, .ok serverip, .ok bootdelay =>
      if !ipv4Valid ipaddr ||
          !(Lwip.ip4addrAton netmask).any Lwip.ip4AddrNetmaskValid ||
          (serverip != [] && !ipv4Valid serverip) then
        (-EINVAL, error P "400 Bad Request" "invalid IPv4 setting" w)
      else
        let delay := UBoot.simpleStrtoul bootdelay 10
        if delay.2.length = bootdelay.length ∨ delay.2 ≠ [] ∨ delay.1 > 30 then
          (-EINVAL, error P "400 Bad Request" "bootdelay must be 0 to 30" w)
        else envStore P ipaddr netmask serverip bootdelay w
  | _, _, _, _ =>
      (-EINVAL, error P "400 Bad Request" "missing environment field" w)

def handleBody (w : World E) : Int × World E :=
  match w.ctx.action with
  | .envSave => envSave P w
  | .none => (-EINVAL, error P "400 Bad Request" "invalid action body" w)

def storeBody (data : Bytes) (w : World E) : Int × World E :=
  if data.length > sub32 w.ctx.contentLength w.ctx.body.length ∨
      w.ctx.body.length + data.length ≥ BODY_SIZE then
    (-EFBIG, error P "413 Content Too Large" "action body too large" w)
  else
    let w1 : World E :=
      { w with ctx := { w.ctx with body := w.ctx.body ++ data } }
    if w1.ctx.body.length = w1.ctx.contentLength then handleBody P w1
    else (0, w1)

def beginBody (action : BodyAction) (size : Nat) (w : World E) : World E :=
  { w with ctx := { w.ctx with
    contentLength := size
    body := []
    action := action
    rxState := .body } }

def prepareBody (action : BodyAction) (w : World E) : Int × World E :=
  if operationBlocked w.ctx then
    (-EBUSY, error P "409 Conflict" "device busy" w)
  else
    match getContentLength w.ctx.header with
    | .error e =>
        if e = -ENOENT then
          (e, error P "411 Length Required" "Content-Length required" w)
        else
          (-EFBIG, error P "413 Content Too Large" "invalid action body size" w)
    | .ok size =>
        if size = 0 ∨ size ≥ BODY_SIZE then
          (-EFBIG, error P "413 Content Too Large" "invalid action body size" w)
        else (0, beginBody action size w)

end Webflash
end Hlk7621
