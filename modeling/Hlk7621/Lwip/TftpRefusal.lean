import Hlk7621.Lwip.TftpOptions

/-!
# Refused TFTP transfers

A block that the memory map does not admit ends the transfer through the callback for its
end, which takes every end without an error for success.  The server is told of the
refusal; the command that asked for the file is not.
-/

namespace Hlk7621
namespace Lwip
namespace Tftp

variable {L : Type} {lmbReadCheck : Nat -> Nat -> L -> Int × L} {w w' : Client L}
  {addr port : Nat} {p : Pbuf}

/-- An open transfer has neither ended nor refused a block, and a refusal has ended it with
success and with what was stored as the size of the file. -/
structure Unwarned (w : Client L) : Prop where
  opened : w.handle = true -> w.ctx.done = .notDone ∧ ¬ Refused w
  refused : Refused w -> w.ctx.done = .success ∧ w.filesize = some w.ctx.size

theorem Unwarned.keep (h : Unwarned w) (hhandle : w'.handle = true -> w.handle = true)
    (hctx : w'.ctx = w.ctx) (hfilesize : w'.filesize = w.filesize)
    (hrefused : Refused w' -> Refused w) : Unwarned w' where
  opened hopened := by
    rcases h.opened (hhandle hopened) with ⟨hdone, hnot⟩
    exact ⟨by rw [hctx, hdone], fun hr => hnot (hrefused hr)⟩
  refused hr := by
    rw [hctx, hfilesize]
    exact h.refused (hrefused hr)

theorem refused_of_append {x : Sent}
    (hx : x.packet ≠ .error TFTP_ERROR_ACCESS_VIOLATION "error writing file")
    (hsent : w'.sent = w.sent ++ [x]) (h : Refused w') : Refused w := by
  rcases h with ⟨y, hy, htext⟩
  rw [hsent] at hy
  rcases List.mem_append.mp hy with hy | hy
  · exact ⟨y, hy, htext⟩
  · rw [List.mem_singleton.mp hy] at htext
    exact absurd htext hx

theorem refused_congr (hsent : w'.sent = w.sent) : Refused w' <-> Refused w := by
  unfold Refused
  rw [hsent]

theorem Unwarned.send (h : Unwarned w) (packet : Packet)
    (hpacket : packet ≠ .error TFTP_ERROR_ACCESS_VIOLATION "error writing file") :
    Unwarned (sendPacket addr port packet w) :=
  h.keep id rfl rfl (refused_of_append hpacket rfl)

theorem Unwarned.shut (hshut : w.handle = false) (h : Unwarned w) : Unwarned (closeHandle w) := by
  have heq : closeHandle w = { w with req := none, port := 0, addr := 0, retries := 0 } :=
    if_neg (by simp [clearReq, hshut])
  rw [heq]
  exact h.keep id rfl rfl id

theorem unwarned_closeHandle (hnot : ¬ Refused w) : Unwarned (closeHandle w) where
  opened hopened := by
    rw [closeHandle_handle] at hopened
    cases hopened
  refused hr := absurd ((refused_congr (closeHandle_sent w)).mp hr) hnot

theorem Unwarned.takeBlock (h : Unwarned w) (hhandle : w.handle = true) (payload : List Bytes) :
    Unwarned (takeBlock lmbReadCheck addr port payload w) := by
  rcases h.opened hhandle with ⟨hdone, hnot⟩
  have hsame := tftpWrite_same lmbReadCheck payload w
  unfold Tftp.takeBlock
  dsimp only
  generalize tftpWrite lmbReadCheck payload w = r at hsame
  by_cases hok : r.1 = true
  · rw [if_pos hok]
    have hacked : ¬ Refused (sendAck addr port w.blknum r.2) := by
      intro hr
      exact hnot ((refused_congr hsame.sent).mp (refused_of_append (by simp) rfl hr))
    split
    · exact unwarned_closeHandle hacked
    · exact
        { opened := fun _ => ⟨hsame.done.trans hdone, hacked⟩
          refused := fun hr => absurd hr hacked }
  · rw [if_neg hok]
    have hends := closeHandle_ends
      (w := sendError addr port TFTP_ERROR_ACCESS_VIOLATION "error writing file" r.2)
      (hsame.handle.trans hhandle) (hsame.done.trans hdone)
    have hshut := closeHandle_handle
      (sendError addr port TFTP_ERROR_ACCESS_VIOLATION "error writing file" r.2)
    have hclosed : Unwarned (closeHandle
        (sendError addr port TFTP_ERROR_ACCESS_VIOLATION "error writing file" r.2)) :=
      { opened := fun hopened => by rw [hshut] at hopened; cases hopened
        refused := fun _ => by rw [hends.left, hends.right]; exact ⟨rfl, rfl⟩ }
    split
    · exact hclosed.shut hshut
    · exact hclosed.keep id rfl rfl id

theorem Unwarned.recvData (h : Unwarned w) : Unwarned (recvData lmbReadCheck addr port p w) := by
  have hsettled : Unwarned (settleOptions w) ∧ (settleOptions w).handle = w.handle := by
    unfold settleOptions
    split
    · exact ⟨h.keep id rfl rfl id, rfl⟩
    · exact ⟨h, rfl⟩
  unfold Tftp.recvData
  dsimp only
  split
  · exact h.send _ (by simp)
  · rename_i hhandle
    split
    · exact hsettled.left.takeBlock (hsettled.right.trans (by simpa using hhandle)) _
    · split
      · exact hsettled.left.send _ (by simp)
      · exact hsettled.left.send _ (by simp [TFTP_ERROR_UNKNOWN_TRFR_ID,
          TFTP_ERROR_ACCESS_VIOLATION])

theorem Unwarned.fail (h : Unwarned w) (hhandle : w.handle = true) :
    Unwarned (closeHandle (tftpError w)) :=
  unwarned_closeHandle fun hr => (h.opened hhandle).right hr

theorem Unwarned.takeOptions (h : Unwarned w) (options : Bytes) :
    Unwarned (takeOptions addr port options w) := by
  rcases takeOptions_shape addr port options w with ⟨errors, tsize, heq, herrors⟩
  rw [heq]
  refine h.keep id rfl rfl ?_
  rintro ⟨x, hx, htext⟩
  rcases List.mem_append.mp hx with hx | hx
  · exact ⟨x, hx, htext⟩
  · rcases herrors x hx with ⟨text, hillegal⟩
    rw [hillegal] at htext
    simp [TFTP_ERROR_ILLEGAL_OPERATION, TFTP_ERROR_ACCESS_VIOLATION] at htext

theorem Unwarned.tftpRecv (h : Unwarned w) : Unwarned (tftpRecv lmbReadCheck addr port p w) := by
  have hcleared : Unwarned (clearReq { w with retries := 0 }) := h.keep id rfl rfl id
  unfold Tftp.tftpRecv
  dsimp only
  split
  · exact h.send _ (by simp)
  · split
    · split
      · exact hcleared.send _ (by simp)
      · exact hcleared.send _ (by simp)
    · split
      · exact hcleared.recvData
      · split
        · exact hcleared.send _ (by split <;> simp)
        · split
          · unfold recvError
            split
            · rename_i hhandle
              exact hcleared.fail hhandle
            · exact hcleared
          · split
            · exact (hcleared.takeOptions _).send _ (by simp)
            · exact hcleared.send _ (by simp)

theorem Unwarned.tftpReqTmr (h : Unwarned w) : Unwarned (tftpReqTmr w) := by
  unfold Tftp.tftpReqTmr
  split
  · exact h
  · rename_i hidle
    push Not at hidle
    split
    · unfold resendRequest
      split
      · exact h.keep id rfl rfl id
      · exact (h.send _ (by simp)).keep id rfl rfl id
    · exact h.fail (by simpa using hidle.right)

variable {srv : Server} {loadaddr blksize : Nat} {req : TftpReq} {mem : Nat -> UInt8} {lmb : L}

theorem Unwarned.step {s : System L} (h : Unwarned s.client) {e : Event}
    (he : e ≠ .noResponse ∧ e ≠ .ctrlc) :
    Unwarned (step lmbReadCheck srv s e).client := by
  cases e with
  | request port => exact h
  | ack port =>
      unfold Tftp.step
      dsimp only
      split <;> exact h
  | deliver port m p => exact h.tftpRecv
  | reqTmr => exact h.tftpReqTmr
  | noResponse => exact absurd rfl he.left
  | ctrlc => exact absurd rfl he.right

end Tftp
end Lwip
end Hlk7621
