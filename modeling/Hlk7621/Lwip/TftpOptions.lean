import Hlk7621.Lwip.TftpTransfer

/-!
# Block sizes of TFTP transfers

A client that goes by another block size than its server may take a full block for the
last one.  When that happens, and why it does not with a server that acknowledges the
block size it uses.
-/

namespace Hlk7621
namespace Lwip
namespace Tftp

variable {L : Type} {lmbReadCheck : Nat -> Nat -> L -> Int × L} {loadaddr : Nat}
  {mem : Nat -> UInt8} {srv : Server} {requested : Nat} {w : Client L} {addr port : Nat}
  {p : Pbuf} {blksize : Nat} {req : TftpReq} {lmb : L}

/-!
## A block that is too short for the client
-/

structure Answered (srv : Server) (loadaddr blksize : Nat) (req : TftpReq) (lmb : L)
    (w : Client L) : Prop where
  addr : w.addr = 0
  port : w.port = 0
  handle : w.handle = true
  blknum : w.blknum = 1
  ctx : w.ctx = ⟨loadaddr, 0, .notDone⟩
  lmb : w.lmb = lmb
  size : payloadSize (settleOptions w) = agreedSize (setBlksize blksize) srv.oack
  sent : exists errors,
    w.sent = ⟨req.addr, req.port, .request req.fname (setBlksize blksize)⟩ ::
      (errors ++ [⟨srv.addr, 1, .ack 0⟩]) ∧
    forall x, x ∈ errors -> exists text, x.packet = .error TFTP_ERROR_ILLEGAL_OPERATION text

theorem answered {options : Bytes} (hopt : srv.oack = some options)
    (hp : Carries srv .oack p) :
    Answered srv loadaddr blksize req lmb
      (tftpRecv lmbReadCheck srv.addr 1 p (tftpGet loadaddr blksize req mem lmb)) := by
  rcases takeOptions_shape srv.addr 1 options
    (clearReq { tftpGet loadaddr blksize req mem lmb with retries := 0 }) with
    ⟨errors, tsize, hshape, herrors⟩
  rw [tftpRecv_oack rfl rfl hopt hp, hshape]
  exact
    { addr := rfl
      port := rfl
      handle := rfl
      blknum := rfl
      ctx := rfl
      lmb := rfl
      size := by rw [hopt]; rfl
      sent := ⟨errors, rfl, herrors⟩ }

def encodeOptions : List (Bytes × Bytes) -> Bytes
  | [] => []
  | o :: rest => o.1 ++ 0 :: (o.2 ++ 0 :: encodeOptions rest)

theorem untilNul_append {key : Bytes} (hkey : 0 ∉ key) (rest : Bytes) :
    untilNul (key ++ 0 :: rest) = some (key, rest) := by
  have hall : forall b, b ∈ key -> decide (b ≠ 0) = true := by
    intro b hb
    exact decide_eq_true fun hzero => hkey (hzero ▸ hb)
  unfold untilNul
  rw [if_pos (by simp), List.takeWhile_append_of_pos hall, List.dropWhile_append_of_pos hall]
  simp

theorem findOption_encode {options : List (Bytes × Bytes)}
    (hnul : forall o, o ∈ options -> 0 ∉ o.1 ∧ 0 ∉ o.2) (name : Bytes) :
    findOption name (encodeOptions options) =
      (options.find? fun o => o.1 = name).map Prod.snd := by
  have hloop : forall fuel, (encodeOptions options).length ≤ fuel ->
      findOptionLoop name fuel (encodeOptions options) =
        (options.find? fun o => o.1 = name).map Prod.snd := by
    induction options with
    | nil =>
        intro fuel _
        cases fuel with
        | zero => rfl
        | succ fuel => rfl
    | cons o rest ih =>
        intro fuel hfuel
        rcases hnul o List.mem_cons_self with ⟨hname, hvalue⟩
        cases fuel with
        | zero => simp [encodeOptions] at hfuel
        | succ fuel =>
            simp only [encodeOptions, List.length_append, List.length_cons] at hfuel
            rw [encodeOptions, findOptionLoop, untilNul_append hname]
            dsimp only
            rw [untilNul_append hvalue]
            dsimp only
            by_cases heq : o.1 = name
            · simp [heq]
            · rw [if_neg heq, ih (fun o ho => hnul o (List.mem_cons_of_mem _ ho)) fuel (by lia)]
              simp [heq]
  exact hloop _ (Nat.le_refl _)

/-- A server that acknowledges the block size it uses, among any other options. -/
structure Acknowledges (srv : Server) (options : List (Bytes × Bytes)) : Prop where
  oack : srv.oack = some (encodeOptions options)
  nul : forall o, o ∈ options -> 0 ∉ o.1 ∧ 0 ∉ o.2
  blksize : exists o, options.find? (fun o => o.1 = str "blksize") = some o ∧
    atoi o.2 = srv.blksize

theorem Acknowledges.fits {options : List (Bytes × Bytes)} (h : Acknowledges srv options) :
    Fits srv requested := by
  rcases h.blksize with ⟨o, hfind, hvalue⟩
  have hsmall := srv.small
  have hpos := srv.pos
  have hagreed : agreedBlksize requested srv.oack = srv.blksize := by
    rw [h.oack]
    show srvBlksize requested (findOption _ _) = _
    rw [findOption_encode h.nul, hfind, Option.map_some]
    show atoi o.2 % 2 ^ 16 = _
    rw [hvalue]
    exact Nat.mod_eq_of_lt (by lia)
  left
  rw [agreedSize, hagreed, if_pos (by lia)]

end Tftp
end Lwip
end Hlk7621
