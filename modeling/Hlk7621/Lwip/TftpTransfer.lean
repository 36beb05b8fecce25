import Hlk7621.Lib.Runs
import Hlk7621.Lib.Storing
import Hlk7621.Lwip.TftpClient

/-!
# TFTP transfers

The client together with a server on an unreliable network.  The server speaks as
the protocol prescribes: for each request it opens a session on a port of its own,
answers the options or sends the first block, and sends the next block when the
last one is acknowledged.  A datagram that was sent may arrive late, more than
once, or never.
-/

namespace Hlk7621
namespace Lwip
namespace Tftp

variable {L : Type}

/-!
## The server
-/

/-- A server with its file, the block size it sends with, and its answer to the
options of the request, if it answers them. -/
structure Server where
  addr : Nat
  file : Bytes
  blksize : Nat
  pos : 0 < blksize
  small : blksize ≤ 65464
  oack : Option Bytes

inductive Msg where
  | oack
  | data (k : Nat)
  | error (code : Nat) (text : Bytes)
  deriving DecidableEq

def be16 (n : Nat) : Bytes := [UInt8.ofNat (n / 256), UInt8.ofNat n]

namespace Server

/-- The number of blocks; the last one is shorter than the others. -/
def blocks (srv : Server) : Nat := srv.file.length / srv.blksize + 1

def block (srv : Server) (k : Nat) : Bytes :=
  (srv.file.drop ((k - 1) * srv.blksize)).take srv.blksize

def encode (srv : Server) : Msg -> Bytes
  | .oack => be16 TFTP_OACK ++ srv.oack.getD []
  | .data k => be16 TFTP_DATA ++ (be16 (k % 2 ^ 16) ++ srv.block k)
  | .error code text => be16 TFTP_ERROR ++ (be16 code ++ text)

/-- The number of the block that a new session waits for, and what it sends. -/
def opening (srv : Server) : Nat × Msg :=
  if srv.oack.isSome then (0, .oack) else (1, .data 1)

end Server

/-- The chain holds the message, and an answer to the options is in one buffer. -/
structure Carries (srv : Server) (m : Msg) (p : Pbuf) : Prop where
  bytes : p.bytes = srv.encode m
  single : m = .oack -> p.rest = []

/-!
## The system
-/

/-- The client, the sessions by their ports with the number of the block that each
waits for, and every datagram that was sent to the client. -/
structure System (L : Type) where
  client : Client L
  sessions : Nat -> Option Nat
  net : List (Nat × Msg)

inductive Event where
  | request (port : Nat)
  | ack (port : Nat)
  | deliver (port : Nat) (m : Msg) (p : Pbuf)
  | reqTmr
  | noResponse
  | ctrlc

section Steps

variable (lmbReadCheck : Nat -> Nat -> L -> Int × L) (srv : Server)

def step (s : System L) : Event -> System L
  | .request port =>
      { s with
        sessions := Function.update s.sessions port (some srv.opening.1)
        net := s.net ++ [(port, srv.opening.2)] }
  | .ack port =>
      match s.sessions port with
      | none => s
      | some i =>
          { s with
            sessions := Function.update s.sessions port (some (i + 1))
            net := if i < srv.blocks then s.net ++ [(port, .data (i + 1))] else s.net }
  | .deliver port _ p =>
      { s with client := tftpRecv lmbReadCheck srv.addr port p s.client }
  | .reqTmr => { s with client := tftpReqTmr s.client }
  | .noResponse => { s with client := noResponse s.client }
  | .ctrlc => { s with client := ctrlc s.client }

/-- No block arrives that is some 65536 blocks away from the ones that were stored. -/
def InWindow (s : System L) : Event -> Prop
  | .deliver _ (.data k) _ =>
      s.client.ctx.size / srv.blksize < k + 65534 ∧
        k < s.client.ctx.size / srv.blksize + 65536
  | _ => True

/-- What can happen: sessions are opened for requests that were sent, acknowledgements
arrive that were sent, and datagrams that were sent, or errors at any time. -/
def Possible (s : System L) : Event -> Prop
  | .request port =>
      s.sessions port = none ∧
        exists x, x ∈ s.client.sent ∧ exists fname blksize, x.packet = .request fname blksize
  | .ack port =>
      exists i, s.sessions port = some i ∧
        ⟨srv.addr, port, .ack (i % 2 ^ 16)⟩ ∈ s.client.sent
  | .deliver port m p =>
      ((port, m) ∈ s.net ∨ exists code text, m = .error code text) ∧ Carries srv m p
  | _ => True

/-- What can happen while no datagram is older than the block numbers are unique. -/
def Timely (s : System L) (e : Event) : Prop := Possible srv s e ∧ InWindow srv s e

end Steps

def start (loadaddr blksize : Nat) (req : TftpReq) (mem : Nat -> UInt8) (lmb : L) :
    System L :=
  ⟨tftpGet loadaddr blksize req mem lmb, fun _ => none, []⟩

/-!
## The block size
-/

/-- `tftp_state.blksize` after the server's answer, or after data instead of it. -/
def agreedBlksize (requested : Nat) : Option Bytes -> Nat
  | none => 0
  | some options => srvBlksize requested (findOption (str "blksize") options)

def agreedSize (requested : Nat) (oack : Option Bytes) : Nat :=
  if agreedBlksize requested oack ≠ 0 then agreedBlksize requested oack
  else TFTP_DEFAULT_BLOCK_SIZE

/-!
## Datagrams
-/

theorem beNat_be16 (n : Nat) : beNat (be16 n) = n % 2 ^ 16 := by
  unfold be16 beNat
  simp only [List.reverse_cons, List.reverse_nil, List.nil_append, List.cons_append, leNat,
    UInt8.toNat_ofNat']
  lia

theorem Pbuf.header_eq {p : Pbuf} {a b : Nat} {rest : Bytes}
    (h : p.bytes = be16 a ++ (be16 b ++ rest)) :
    p.word 0 = a % 2 ^ 16 ∧ p.word 1 = b % 2 ^ 16 ∧ p.payload.flatten = rest := by
  have hheader : 4 ≤ p.first.length := p.header
  have htake : p.first.take 4 = be16 a ++ be16 b := by
    have hcut := congrArg (List.take 4) h
    rw [Pbuf.bytes, List.take_append_of_le_length hheader, <- List.append_assoc] at hcut
    exact hcut.trans (List.take_left' rfl)
  have hdrop : p.payload.flatten = rest := by
    have hcut := congrArg (List.drop 4) h
    rw [Pbuf.bytes, List.drop_append_of_le_length hheader, <- List.append_assoc] at hcut
    exact hcut.trans (List.drop_left' rfl)
  have hword : forall i, i < 2 -> (p.first.drop (2 * i)).take 2 =
      ((be16 a ++ be16 b).drop (2 * i)).take 2 := by
    intro i hi
    rw [<- htake, List.drop_take, List.take_take]
    congr 1
    lia
  refine ⟨?_, ?_, hdrop⟩
  · rw [Pbuf.word, hword 0 (by lia)]
    exact beNat_be16 a
  · rw [Pbuf.word, hword 1 (by lia)]
    exact beNat_be16 b

theorem Carries.data {srv : Server} {k : Nat} {p : Pbuf} (h : Carries srv (.data k) p) :
    p.word 0 = TFTP_DATA ∧ p.word 1 = k % 2 ^ 16 ∧ p.payload.flatten = srv.block k := by
  rcases Pbuf.header_eq h.bytes with ⟨h0, h1, hpayload⟩
  exact ⟨h0, by rw [h1, Nat.mod_mod], hpayload⟩

theorem Carries.error {srv : Server} {code : Nat} {text : Bytes} {p : Pbuf}
    (h : Carries srv (.error code text) p) : p.word 0 = TFTP_ERROR :=
  (Pbuf.header_eq h.bytes).left

theorem Carries.oack {srv : Server} {options : Bytes} (hoack : srv.oack = some options)
    {p : Pbuf} (h : Carries srv .oack p) :
    p.word 0 = TFTP_OACK ∧ p.first.drop 2 = options := by
  have hfirst : p.first = be16 TFTP_OACK ++ options := by
    have hbytes := h.bytes
    rwa [Pbuf.bytes, h.single rfl, List.flatten_nil, List.append_nil, Server.encode, hoack]
      at hbytes
  exact ⟨by rw [Pbuf.word, hfirst]; rfl, by rw [hfirst]; rfl⟩

/-!
## Storing
-/

/-- What is stored is the front of the file, at the load address and nowhere else. -/
structure Stored (file : Bytes) (loadaddr : Nat) (mem : Nat -> UInt8) (w : Client L) :
    Prop where
  mem : w.mem = overwrite mem loadaddr (file.take w.ctx.size)
  size : w.ctx.size ≤ file.length
  daddr : w.ctx.daddr = loadaddr + w.ctx.size
  fits : loadaddr + w.ctx.size < 2 ^ 32

structure SameProtocol (w w' : Client L) : Prop where
  handle : w'.handle = w.handle
  addr : w'.addr = w.addr
  port : w'.port = w.port
  blknum : w'.blknum = w.blknum
  blksize : w'.blksize = w.blksize
  waitOack : w'.waitOack = w.waitOack
  req : w'.req = w.req
  done : w'.ctx.done = w.ctx.done
  sent : w'.sent = w.sent

theorem SameProtocol.refl (w : Client L) : SameProtocol w w :=
  ⟨rfl, rfl, rfl, rfl, rfl, rfl, rfl, rfl, rfl⟩

theorem SameProtocol.trans {w w' w'' : Client L} (h : SameProtocol w w')
    (h' : SameProtocol w' w'') : SameProtocol w w'' :=
  ⟨h'.handle.trans h.handle, h'.addr.trans h.addr, h'.port.trans h.port,
    h'.blknum.trans h.blknum, h'.blksize.trans h.blksize, h'.waitOack.trans h.waitOack,
    h'.req.trans h.req, h'.done.trans h.done, h'.sent.trans h.sent⟩

variable (lmbReadCheck : Nat -> Nat -> L -> Int × L) {file : Bytes} {loadaddr : Nat}
  {mem : Nat -> UInt8}

theorem storeBlock_same (src : Bytes) (w : Client L) :
    SameProtocol w (storeBlock lmbReadCheck src w).2 := by
  unfold storeBlock
  dsimp only
  split
  · exact SameProtocol.refl w
  · split
    · exact ⟨rfl, rfl, rfl, rfl, rfl, rfl, rfl, rfl, rfl⟩
    · exact ⟨rfl, rfl, rfl, rfl, rfl, rfl, rfl, rfl, rfl⟩

theorem tftpWrite_same (chain : List Bytes) (w : Client L) :
    SameProtocol w (tftpWrite lmbReadCheck chain w).2 := by
  induction chain generalizing w with
  | nil => exact SameProtocol.refl w
  | cons q rest ih =>
      rw [tftpWrite]
      split
      · exact (storeBlock_same lmbReadCheck q w).trans (ih _)
      · exact storeBlock_same lmbReadCheck q w

theorem storeBlock_spec {w : Client L} {src : Bytes} (hst : Stored file loadaddr mem w)
    (hsrc : src <+: file.drop w.ctx.size) (hsmall : src.length < 2 ^ 32) :
    let r := storeBlock lmbReadCheck src w
    Stored file loadaddr mem r.2 ∧ (r.1 = true -> r.2.ctx.size = w.ctx.size + src.length) := by
  have hlen := length_le_of_prefix_drop hsrc
  have hsize := hst.size
  have hfits := hst.fits
  have hdaddr := hst.daddr
  intro r
  by_cases hwrap : u32 (w.ctx.daddr + src.length) < w.ctx.daddr
  · have hr : r = (false, w) := if_pos hwrap
    rw [hr]
    exact ⟨hst, nofun⟩
  · by_cases hcheck : (lmbReadCheck w.ctx.daddr src.length w.lmb).1 ≠ 0
    · have hr : r = (false, { w with lmb := (lmbReadCheck w.ctx.daddr src.length w.lmb).2 }) := by
        show storeBlock lmbReadCheck src w = _
        rw [storeBlock, if_neg hwrap]
        exact if_pos hcheck
      rw [hr]
      exact ⟨⟨hst.mem, hst.size, hst.daddr, hst.fits⟩, nofun⟩
    · have hend : loadaddr + w.ctx.size + src.length < 2 ^ 32 := by
        unfold u32 at hwrap
        lia
      have hr : r =
          (true,
            { w with
              lmb := (lmbReadCheck w.ctx.daddr src.length w.lmb).2
              mem := overwrite w.mem w.ctx.daddr src
              ctx :=
                { w.ctx with
                  daddr := loadaddr + w.ctx.size + src.length
                  size := w.ctx.size + src.length } }) := by
        show storeBlock lmbReadCheck src w = _
        rw [storeBlock, if_neg hwrap]
        refine (if_neg hcheck).trans ?_
        rw [u32_of_lt (by lia : w.ctx.size + src.length < 2 ^ 32),
          u32_of_lt (by lia : w.ctx.daddr + src.length < 2 ^ 32), hdaddr]
      rw [hr]
      refine ⟨⟨?_, ?_, ?_, ?_⟩, fun _ => rfl⟩
      · show overwrite w.mem w.ctx.daddr src = overwrite mem loadaddr _
        rw [hst.mem, hdaddr]
        exact overwrite_front mem loadaddr hsize hsrc
      · show w.ctx.size + src.length ≤ file.length
        lia
      · show loadaddr + w.ctx.size + src.length = loadaddr + (w.ctx.size + src.length)
        lia
      · show loadaddr + (w.ctx.size + src.length) < 2 ^ 32
        lia

theorem tftpWrite_spec {chain : List Bytes} {w : Client L}
    (hst : Stored file loadaddr mem w) (hchain : chain.flatten <+: file.drop w.ctx.size)
    (hsmall : chain.flatten.length < 2 ^ 32) :
    let r := tftpWrite lmbReadCheck chain w
    Stored file loadaddr mem r.2 ∧
      (r.1 = true -> r.2.ctx.size = w.ctx.size + chain.flatten.length) := by
  induction chain generalizing w with
  | nil => exact ⟨hst, fun _ => rfl⟩
  | cons q rest ih =>
      rw [List.flatten_cons] at hchain hsmall
      rw [List.length_append] at hsmall
      have hq : q <+: file.drop w.ctx.size := (List.prefix_append q _).trans hchain
      rcases storeBlock_spec lmbReadCheck hst hq (by lia) with ⟨hst', hsize⟩
      rw [tftpWrite]
      by_cases hok : (storeBlock lmbReadCheck q w).1 = true
      · have hrest : rest.flatten <+:
            file.drop (storeBlock lmbReadCheck q w).2.ctx.size := by
          rw [hsize hok]
          exact prefix_drop_append hchain
        rcases ih hst' hrest (by lia) with ⟨hst'', hsize'⟩
        rw [if_pos hok]
        refine ⟨hst'', fun hall => ?_⟩
        rw [hsize' hall, hsize hok, List.flatten_cons, List.length_append, Nat.add_assoc]
      · rw [if_neg hok]
        exact ⟨hst', fun h => absurd h hok⟩

/-!
## The invariant of the client
-/

variable {lmbReadCheck}

def Acked (w : Client L) : Prop :=
  exists x, x ∈ w.sent ∧ exists n, x.packet = .ack n

def Refused (w : Client L) : Prop :=
  exists x, x ∈ w.sent ∧
    x.packet = .error TFTP_ERROR_ACCESS_VIOLATION "error writing file"

/-- The blocks that the client takes for the last one end the file. -/
def Fits (srv : Server) (requested : Nat) : Prop :=
  agreedSize requested srv.oack ≤ srv.blksize ∨ srv.file.length ≤ srv.blksize

/-- No request is repeated after the first answer, the block size is settled with the
first answer, the front of the file is stored, and where the blocks fit success means the
whole file unless a block was refused. -/
structure Base (srv : Server) (loadaddr : Nat) (mem : Nat -> UInt8) (requested : Nat)
    (w : Client L) : Prop where
  addr : w.addr = 0
  port : w.port = 0
  pending : w.req.isSome = true -> w.waitOack = true
  acked : Acked w -> w.waitOack = false
  unsettled : w.waitOack = true -> w.blksize = requested
  settled : w.waitOack = false -> w.blksize = agreedBlksize requested srv.oack
  stored : Stored srv.file loadaddr mem w
  closed : w.ctx.done = .success -> Refused w ∨ (Fits srv requested ->
    w.ctx.size = srv.file.length ∧ w.filesize = some srv.file.length)

/-- While the transfer is open, some number of blocks has been stored and the next one is
expected. -/
structure Good (srv : Server) (loadaddr : Nat) (mem : Nat -> UInt8) (requested : Nat)
    (w : Client L) : Prop extends Base srv loadaddr mem requested w where
  opened : w.handle = true -> w.ctx.done ≠ .success ∧
    exists a, a ≤ srv.blocks ∧ w.ctx.size = min (a * srv.blksize) srv.file.length ∧
      w.blknum = (a + 1) % 2 ^ 16

variable {srv : Server} {requested : Nat} {w : Client L}

theorem Acked.send {addr port : Nat} {packet : Packet} (h : Acked w) :
    Acked (sendPacket addr port packet w) := by
  rcases h with ⟨x, hx, hack⟩
  exact ⟨x, List.mem_append_left _ hx, hack⟩

theorem Refused.send {addr port : Nat} {packet : Packet} (h : Refused w) :
    Refused (sendPacket addr port packet w) := by
  rcases h with ⟨x, hx, htext⟩
  exact ⟨x, List.mem_append_left _ hx, htext⟩

theorem acked_sendError {addr port code : Nat} {text : String}
    (h : Acked (sendError addr port code text w)) : Acked w := by
  rcases h with ⟨x, hx, n, hack⟩
  rcases List.mem_append.mp hx with hx | hx
  · exact ⟨x, hx, n, hack⟩
  · rw [List.mem_singleton.mp hx] at hack
    cases hack

theorem Base.sendError (h : Base srv loadaddr mem requested w) (addr port code : Nat)
    (text : String) : Base srv loadaddr mem requested (sendError addr port code text w) :=
  { h with
    acked := fun hack => h.acked (acked_sendError hack)
    stored := ⟨h.stored.mem, h.stored.size, h.stored.daddr, h.stored.fits⟩
    closed := fun hdone => (h.closed hdone).imp_left Refused.send }

theorem Base.sendAck (h : Base srv loadaddr mem requested w) (addr port blknum : Nat)
    (hsettled : w.waitOack = false) :
    Base srv loadaddr mem requested (sendAck addr port blknum w) :=
  { h with
    acked := fun _ => hsettled
    stored := ⟨h.stored.mem, h.stored.size, h.stored.daddr, h.stored.fits⟩
    closed := fun hdone => (h.closed hdone).imp_left Refused.send }

theorem Good.sendError (h : Good srv loadaddr mem requested w) (addr port code : Nat)
    (text : String) : Good srv loadaddr mem requested (sendError addr port code text w) :=
  { h.toBase.sendError addr port code text with opened := h.opened }

theorem Good.sendAck (h : Good srv loadaddr mem requested w) (addr port blknum : Nat)
    (hsettled : w.waitOack = false) :
    Good srv loadaddr mem requested (sendAck addr port blknum w) :=
  { h.toBase.sendAck addr port blknum hsettled with opened := h.opened }

theorem Good.clearReq (h : Good srv loadaddr mem requested w) (retries : Nat) :
    Good srv loadaddr mem requested (clearReq { w with retries := retries }) :=
  { h with
    pending := nofun
    stored := ⟨h.stored.mem, h.stored.size, h.stored.daddr, h.stored.fits⟩ }

theorem closeHandle_open (hhandle : w.handle = true) (hopen : w.ctx.done ≠ .success) :
    exists done filesize,
      closeHandle w =
        { w with
          req := none, port := 0, addr := 0, retries := 0, handle := false
          ctx := { w.ctx with done := done }
          filesize := filesize } ∧
      (done = .success -> w.ctx.done = .notDone ∧ filesize = some w.ctx.size) := by
  unfold closeHandle clearReq tftpClose
  rw [if_pos hhandle]
  cases hdone : w.ctx.done with
  | success => exact absurd hdone hopen
  | notDone => exact ⟨.success, some w.ctx.size, rfl, fun _ => ⟨rfl, rfl⟩⟩
  | failure => exact ⟨w.ctx.done, w.filesize, rfl, fun h => absurd h hopen⟩
  | aborted => exact ⟨w.ctx.done, w.filesize, rfl, fun h => absurd h hopen⟩

theorem closeHandle_handle (w : Client L) : (closeHandle w).handle = false := by
  by_cases hhandle : w.handle = true
  · exact congrArg Client.handle (show closeHandle w = _ from if_pos hhandle)
  · rw [show closeHandle w = _ from if_neg hhandle]
    exact Bool.eq_false_iff.mpr hhandle

theorem closeHandle_ends (hhandle : w.handle = true) (hdone : w.ctx.done = .notDone) :
    (closeHandle w).ctx = { w.ctx with done := .success } ∧
      (closeHandle w).filesize = some w.ctx.size := by
  have heq : closeHandle w = { tftpClose
      { clearReq w with port := 0, addr := 0, retries := 0 } with handle := false } :=
    if_pos hhandle
  have hclose : tftpClose { clearReq w with port := 0, addr := 0, retries := 0 } =
      { clearReq w with
        port := 0, addr := 0, retries := 0
        ctx := { w.ctx with done := .success }, filesize := some w.ctx.size } := by
    unfold tftpClose clearReq
    dsimp only
    rw [hdone]
  rw [heq, hclose]
  exact ⟨rfl, rfl⟩

/-- A handle may be closed when the file is complete, and after an error. -/
theorem Base.closeHandle (h : Base srv loadaddr mem requested w)
    (hopen : w.handle = true -> w.ctx.done ≠ .success)
    (hend : w.handle = true -> w.ctx.done = .notDone ->
      Refused w ∨ (Fits srv requested -> w.ctx.size = srv.file.length)) :
    Good srv loadaddr mem requested (closeHandle w) := by
  by_cases hhandle : w.handle = true
  · rcases closeHandle_open hhandle (hopen hhandle) with ⟨done, filesize, heq, hdone⟩
    rw [heq]
    exact
      { h with
        addr := rfl
        port := rfl
        pending := nofun
        stored := ⟨h.stored.mem, h.stored.size, h.stored.daddr, h.stored.fits⟩
        opened := nofun
        closed := fun hsuccess =>
          (hend hhandle (hdone hsuccess).left).imp id fun hsize hfits =>
            ⟨hsize hfits, by rw [(hdone hsuccess).right, hsize hfits]⟩ }
  · have heq : Tftp.closeHandle w =
        { w with req := none, port := 0, addr := 0, retries := 0 } := if_neg hhandle
    rw [heq]
    exact
      { h with
        addr := rfl
        port := rfl
        pending := nofun
        stored := ⟨h.stored.mem, h.stored.size, h.stored.daddr, h.stored.fits⟩
        opened := fun hopened => absurd hopened hhandle }

/-!
## One datagram
-/

variable {addr port k : Nat} {p : Pbuf}

theorem sum_length_flatten (chain : List Bytes) :
    (chain.map List.length).sum = chain.flatten.length := (List.length_flatten).symm

theorem block_prefix (a : Nat) :
    srv.block (a + 1) <+: srv.file.drop (a * srv.blksize) := List.take_prefix _ _

theorem block_length (srv : Server) (a : Nat) :
    (srv.block (a + 1)).length = min srv.blksize (srv.file.length - a * srv.blksize) := by
  rw [Server.block, List.length_take, List.length_drop, Nat.add_sub_cancel]

theorem lt_blocks {a : Nat} (h : a < srv.blocks) : a * srv.blksize ≤ srv.file.length := by
  have hdiv : a ≤ srv.file.length / srv.blksize := Nat.lt_succ_iff.mp h
  exact (Nat.le_div_iff_mul_le srv.pos).mp hdiv

theorem next_block {a : Nat} (ha : a ≤ srv.blocks) (hkb : k ≤ srv.blocks)
    (hsize : w.ctx.size = min (a * srv.blksize) srv.file.length)
    (hwindow : w.ctx.size / srv.blksize < k + 65534 ∧
      k < w.ctx.size / srv.blksize + 65536)
    (hnum : k % 2 ^ 16 = (a + 1) % 2 ^ 16) : k = a + 1 ∧ a < srv.blocks := by
  have hpos := srv.pos
  have hdiv : a ≤ w.ctx.size / srv.blksize + 1 ∧ w.ctx.size / srv.blksize ≤ a := by
    rcases Nat.lt_or_eq_of_le ha with hlt | rfl
    · rw [hsize, Nat.min_eq_left (lt_blocks hlt), Nat.mul_div_cancel _ hpos]
      lia
    · have hall : srv.file.length ≤ srv.blocks * srv.blksize := by
        rw [Server.blocks, Nat.add_mul, Nat.one_mul]
        have := Nat.lt_div_mul_add (a := srv.file.length) hpos
        lia
      rw [hsize, Nat.min_eq_right hall]
      unfold Server.blocks
      lia
  lia

theorem Good.takeBlock {a : Nat} (h : Good srv loadaddr mem requested w) (hhandle : w.handle = true)
    (hsettled : w.waitOack = false) (ha : a < srv.blocks)
    (hsize : w.ctx.size = min (a * srv.blksize) srv.file.length)
    (hnum : w.blknum = (a + 1) % 2 ^ 16) {payload : List Bytes}
    (hpayload : payload.flatten = srv.block (a + 1)) :
    Good srv loadaddr mem requested (takeBlock lmbReadCheck addr port payload w) := by
  have hmul := lt_blocks ha
  have hpos := srv.pos
  have hsmall := srv.small
  have hsize' : w.ctx.size = a * srv.blksize := by rw [hsize, Nat.min_eq_left hmul]
  have hblen := block_length srv a
  have hopen := (h.opened hhandle).left
  have hchain : payload.flatten <+: srv.file.drop w.ctx.size := by
    rw [hpayload, hsize']
    exact block_prefix a
  have hsame := tftpWrite_same lmbReadCheck payload w
  rcases tftpWrite_spec lmbReadCheck h.stored hchain
    (by rw [hpayload, hblen]; lia) with ⟨hst, hgrown⟩
  have hbase : Base srv loadaddr mem requested (tftpWrite lmbReadCheck payload w).2 :=
    { addr := by rw [hsame.addr, h.addr]
      port := by rw [hsame.port, h.port]
      pending := by rw [hsame.req, hsame.waitOack]; exact h.pending
      acked := fun _ => by rw [hsame.waitOack, hsettled]
      unsettled := by rw [hsame.waitOack, hsame.blksize]; exact h.unsettled
      settled := by rw [hsame.waitOack, hsame.blksize]; exact h.settled
      stored := hst
      closed := fun hdone => absurd (hsame.done.symm.trans hdone) hopen }
  unfold Tftp.takeBlock
  rw [sum_length_flatten, hpayload, hblen]
  by_cases hok : (tftpWrite lmbReadCheck payload w).1 = true
  · have hnew := hgrown hok
    rw [hpayload, hblen, hsize'] at hnew
    have hacked := hbase.sendAck addr port w.blknum (by rw [hsame.waitOack, hsettled])
    simp only [hok, if_true]
    have hpayloadSize : payloadSize (Tftp.sendAck addr port w.blknum
        (tftpWrite lmbReadCheck payload w).2) = agreedSize requested srv.oack := by
      unfold payloadSize agreedSize
      rw [hacked.settled (by show (tftpWrite lmbReadCheck payload w).2.waitOack = false
                             rw [hsame.waitOack, hsettled])]
    rw [hpayloadSize]
    by_cases hlast : min srv.blksize (srv.file.length - a * srv.blksize) <
        agreedSize requested srv.oack
    · rw [if_pos hlast]
      refine hacked.closeHandle (fun _ => ?_) (fun _ _ => Or.inr fun hfits => ?_)
      · show (tftpWrite lmbReadCheck payload w).2.ctx.done ≠ .success
        rwa [hsame.done]
      · show (tftpWrite lmbReadCheck payload w).2.ctx.size = srv.file.length
        rw [hnew]
        rcases hfits with hagreed | hshort
        · lia
        · rcases Nat.eq_zero_or_pos a with rfl | hapos
          · lia
          · have : srv.blksize ≤ a * srv.blksize := Nat.le_mul_of_pos_left _ hapos
            lia
    · rw [if_neg hlast]
      exact
        { hacked with
          stored := ⟨hst.mem, hst.size, hst.daddr, hst.fits⟩
          opened := fun _ => by
            refine ⟨by show (tftpWrite lmbReadCheck payload w).2.ctx.done ≠ .success
                       rwa [hsame.done], a + 1, ha, ?_, ?_⟩
            · show (tftpWrite lmbReadCheck payload w).2.ctx.size = _
              rw [hnew, Nat.add_mul, Nat.one_mul]
              lia
            · show ((tftpWrite lmbReadCheck payload w).2.blknum + 1) % 2 ^ 16 = _
              rw [hsame.blknum, hnum]
              lia }
  · dsimp only
    rw [if_neg hok]
    have hrefused := hbase.sendError addr port TFTP_ERROR_ACCESS_VIOLATION "error writing file"
    have hclosed := hrefused.closeHandle
      (fun _ => by show (tftpWrite lmbReadCheck payload w).2.ctx.done ≠ .success
                   rwa [hsame.done])
      (fun _ _ => Or.inl ⟨_, List.mem_append_right _ (List.mem_singleton_self _), rfl⟩)
    generalize hw' : Tftp.closeHandle (Tftp.sendError addr port TFTP_ERROR_ACCESS_VIOLATION
      "error writing file" (tftpWrite lmbReadCheck payload w).2) = w' at hclosed ⊢
    have hshut : w'.handle = false := by
      rw [<- hw']
      exact closeHandle_handle _
    by_cases hlast : min srv.blksize (srv.file.length - a * srv.blksize) < payloadSize w'
    · rw [if_pos hlast]
      exact hclosed.toBase.closeHandle (fun hopened => by rw [hshut] at hopened; cases hopened)
        (fun hopened => by rw [hshut] at hopened; cases hopened)
    · rw [if_neg hlast]
      exact
        { hclosed with
          stored := ⟨hclosed.stored.mem, hclosed.stored.size, hclosed.stored.daddr,
            hclosed.stored.fits⟩
          opened := fun hopened => by rw [hshut] at hopened; cases hopened }

theorem Good.settleOptions (h : Good srv loadaddr mem requested w) (hreq : w.req = none)
    (hnone : w.waitOack = true -> srv.oack = none) :
    Good srv loadaddr mem requested (settleOptions w) ∧ (settleOptions w).waitOack = false := by
  unfold Tftp.settleOptions
  by_cases hwait : w.waitOack = true
  · rw [if_pos hwait]
    refine ⟨?_, rfl⟩
    exact
      { h with
        pending := by rw [hreq]; nofun
        acked := fun _ => rfl
        unsettled := nofun
        settled := fun _ => by rw [hnone hwait]; rfl
        stored := ⟨h.stored.mem, h.stored.size, h.stored.daddr, h.stored.fits⟩ }
  · rw [if_neg hwait]
    exact ⟨h, Bool.eq_false_iff.mpr hwait⟩

theorem settleOptions_same :
    (settleOptions w).handle = w.handle ∧ (settleOptions w).ctx = w.ctx := by
  unfold settleOptions
  by_cases hwait : w.waitOack = true
  · rw [if_pos hwait]
    exact ⟨rfl, rfl⟩
  · rw [if_neg hwait]
    exact ⟨rfl, rfl⟩

theorem Good.recvData (h : Good srv loadaddr mem requested w)
    (hreq : w.req = none) (hnone : w.waitOack = true -> srv.oack = none)
    (hp : Carries srv (.data k) p) (hk : 1 ≤ k ∧ k ≤ srv.blocks)
    (hwindow : w.ctx.size / srv.blksize < k + 65534 ∧
      k < w.ctx.size / srv.blksize + 65536) :
    Good srv loadaddr mem requested (recvData lmbReadCheck addr port p w) := by
  rcases hp.data with ⟨_, hnum, hpayload⟩
  unfold Tftp.recvData
  by_cases hhandle : w.handle = false
  · rw [if_pos hhandle]
    exact h.sendError addr port _ _
  · rw [if_neg hhandle]
    have hopened : w.handle = true := by simpa using hhandle
    rcases h.settleOptions hreq hnone with ⟨hgood, hsettled⟩
    rcases settleOptions_same (w := w) with ⟨hsame, hctx⟩
    dsimp only
    by_cases hnext : p.word 1 = (Tftp.settleOptions w).blknum
    · rw [if_pos hnext]
      rcases (hgood.opened (hsame.trans hopened)).right with ⟨a, ha, hsize, hblknum⟩
      rcases next_block ha hk.right hsize (by rw [hctx]; exact hwindow)
        (by rw [<- hnum, hnext, hblknum]) with ⟨rfl, hlt⟩
      exact hgood.takeBlock (hsame.trans hopened) hsettled hlt hsize hblknum hpayload
    · rw [if_neg hnext]
      by_cases hprevious : (p.word 1 + 1) % 2 ^ 16 = (Tftp.settleOptions w).blknum
      · rw [if_pos hprevious]
        exact hgood.sendAck addr port _ hsettled
      · rw [if_neg hprevious]
        exact hgood.sendError addr port _ _

theorem Good.recvError (h : Good srv loadaddr mem requested w) :
    Good srv loadaddr mem requested (recvError w) := by
  unfold Tftp.recvError
  by_cases hhandle : w.handle = true
  · rw [if_pos hhandle]
    have hfailed : Base srv loadaddr mem requested (tftpError w) :=
      { h.toBase with
        stored := ⟨h.stored.mem, h.stored.size, h.stored.daddr, h.stored.fits⟩
        closed := nofun }
    exact hfailed.closeHandle (fun _ => nofun) (fun _ => nofun)
  · rw [if_neg hhandle]
    exact h

theorem takeOptions_shape (addr port : Nat) (options : Bytes) (w : Client L) :
    exists errors tsize,
      takeOptions addr port options w =
        { w with
          waitOack := false
          blksize := agreedBlksize w.blksize (some options)
          tsize := tsize
          sent := w.sent ++ errors } ∧
      forall x, x ∈ errors ->
        exists text, x.packet = .error TFTP_ERROR_ILLEGAL_OPERATION text := by
  have hsize : forall value, exists errors,
      takeBlksize addr port value { w with waitOack := false } =
        { w with
          waitOack := false
          blksize := srvBlksize w.blksize value
          sent := w.sent ++ errors } ∧
      forall x, x ∈ errors ->
        exists text, x.packet = .error TFTP_ERROR_ILLEGAL_OPERATION text := by
    intro value
    unfold takeBlksize
    dsimp only
    split
    · split
      · refine ⟨[⟨addr, port, .error TFTP_ERROR_ILLEGAL_OPERATION "blksize unexpected"⟩,
          ⟨addr, port, .error TFTP_ERROR_ILLEGAL_OPERATION "Invalid blksize"⟩], ?_, ?_⟩
        · simp only [sendError, sendPacket, List.append_assoc, List.cons_append,
            List.nil_append]
        · simp
      · exact ⟨[⟨addr, port, .error TFTP_ERROR_ILLEGAL_OPERATION "blksize unexpected"⟩], rfl,
          by simp⟩
    · split
      · exact ⟨[⟨addr, port, .error TFTP_ERROR_ILLEGAL_OPERATION "Invalid blksize"⟩], rfl,
          by simp⟩
      · exact ⟨[], by rw [List.append_nil], nofun⟩
  rcases hsize (findOption (str "blksize") options) with ⟨errors, heq, herrors⟩
  unfold takeOptions
  rw [heq]
  cases findOption (str "tsize") options with
  | none => exact ⟨errors, w.tsize, rfl, herrors⟩
  | some value => exact ⟨errors, atoi value, rfl, herrors⟩

theorem Good.takeOptions {options : Bytes} (h : Good srv loadaddr mem requested w)
    (addr port : Nat) (hreq : w.req = none) (hoack : srv.oack = some options) :
    Good srv loadaddr mem requested (takeOptions addr port options w) ∧
      (Tftp.takeOptions addr port options w).waitOack = false := by
  rcases takeOptions_shape addr port options w with
    ⟨errors, tsize, heq, _⟩
  rw [heq]
  refine ⟨?_, rfl⟩
  have hagreed : agreedBlksize w.blksize (some options) = agreedBlksize requested srv.oack := by
    cases hwait : w.waitOack with
    | true => rw [h.unsettled hwait, hoack]
    | false =>
        have htwice : forall value,
            srvBlksize (srvBlksize requested value) value = srvBlksize requested value := by
          intro value
          cases value with
          | none => rfl
          | some value => rfl
        rw [h.settled hwait, hoack]
        exact htwice _
  exact
    { h with
      pending := by rw [hreq]; nofun
      acked := fun _ => rfl
      unsettled := nofun
      settled := fun _ => hagreed
      stored := ⟨h.stored.mem, h.stored.size, h.stored.daddr, h.stored.fits⟩
      closed := fun hdone => (h.closed hdone).imp_left fun hrefused => by
        rcases hrefused with ⟨x, hx, htext⟩
        exact ⟨x, List.mem_append_left _ hx, htext⟩ }

theorem tftpRecv_oack {options : Bytes} (haddr : w.addr = 0) (hport : w.port = 0)
    (hoptions : srv.oack = some options) (hp : Carries srv .oack p) :
    tftpRecv lmbReadCheck addr port p w =
      sendAck addr port 0
        (takeOptions addr port options (clearReq { w with retries := 0 })) := by
  rcases hp.oack hoptions with ⟨hopcode, hbytes⟩
  unfold tftpRecv
  rw [if_neg (by rw [hport, haddr]; simp), hopcode, hbytes]
  rfl

/-- A datagram of the server keeps the invariant; data is only taken where the options have
been answered, if the server answers them. -/
theorem Good.tftpRecv (h : Good srv loadaddr mem requested w)
    {m : Msg} (hp : Carries srv m p)
    (hdata : forall k, m = .data k -> (1 ≤ k ∧ k ≤ srv.blocks) ∧
      (w.waitOack = true -> srv.oack = none) ∧
      w.ctx.size / srv.blksize < k + 65534 ∧ k < w.ctx.size / srv.blksize + 65536)
    (hoack : m = .oack -> srv.oack.isSome = true) :
    Good srv loadaddr mem requested (tftpRecv lmbReadCheck addr port p w) := by
  have hlocal : ¬ (w.port ≠ 0 ∧ port ≠ w.port ∨ w.addr ≠ 0 ∧ w.addr ≠ addr) := by
    rw [h.port, h.addr]
    simp
  have hcleared := h.clearReq 0
  cases m with
  | data k =>
      rcases hdata k rfl with ⟨hk, hnone, hwindow⟩
      unfold Tftp.tftpRecv
      rw [if_neg hlocal, hp.data.left]
      exact hcleared.recvData rfl hnone hp hk hwindow
  | error code text =>
      unfold Tftp.tftpRecv
      rw [if_neg hlocal, hp.error]
      exact hcleared.recvError
  | oack =>
      rcases Option.isSome_iff_exists.mp (hoack rfl) with ⟨options, hoptions⟩
      rw [tftpRecv_oack h.addr h.port hoptions hp]
      rcases hcleared.takeOptions addr port rfl hoptions with
        ⟨hgood, hsettled⟩
      exact hgood.sendAck addr port 0 hsettled

theorem Good.tftpReqTmr (h : Good srv loadaddr mem requested w) :
    Good srv loadaddr mem requested (tftpReqTmr w) := by
  unfold Tftp.tftpReqTmr
  by_cases hidle : w.req.isNone = true ∨ w.handle = false
  · rw [if_pos hidle]
    exact h
  · rw [if_neg hidle]
    push Not at hidle
    rcases Option.ne_none_iff_exists'.mp (by simpa using hidle.left) with ⟨req, hreq⟩
    have hwait : w.waitOack = true := h.pending (by rw [hreq]; rfl)
    by_cases hretry : w.retries < TFTP_MAX_RETRIES
    · rw [if_pos hretry]
      unfold resendRequest
      rw [hreq]
      exact
        { h with
          pending := fun _ => rfl
          acked := fun hack => by
            rcases hack with ⟨x, hx, n, hn⟩
            rcases List.mem_append.mp hx with hx | hx
            · rw [h.acked ⟨x, hx, n, hn⟩] at hwait
              cases hwait
            · rw [List.mem_singleton.mp hx] at hn
              cases hn
          unsettled := fun _ => h.unsettled hwait
          settled := nofun
          stored := ⟨h.stored.mem, h.stored.size, h.stored.daddr, h.stored.fits⟩
          closed := fun hdone => (h.closed hdone).imp_left Refused.send }
    · rw [if_neg hretry]
      have hfailed : Base srv loadaddr mem requested (tftpError w) :=
        { h.toBase with
          stored := ⟨h.stored.mem, h.stored.size, h.stored.daddr, h.stored.fits⟩
          closed := nofun }
      exact hfailed.closeHandle (fun _ => nofun) (fun _ => nofun)

/-!
## Runs
-/

theorem sendPacket_sent (addr port : Nat) (packet : Packet) (w : Client L) :
    w.sent <+: (sendPacket addr port packet w).sent := List.prefix_append _ _

theorem closeHandle_sent (w : Client L) : (closeHandle w).sent = w.sent := by
  by_cases hhandle : w.handle = true
  · have heq : closeHandle w = { tftpClose
        { clearReq w with port := 0, addr := 0, retries := 0 } with handle := false } :=
      if_pos hhandle
    rw [heq]
    show (tftpClose _).sent = w.sent
    unfold tftpClose
    split <;> rfl
  · rw [show closeHandle w = _ from if_neg hhandle]
    rfl

theorem takeBlock_sent (payload : List Bytes) (w : Client L) :
    w.sent <+: (takeBlock lmbReadCheck addr port payload w).sent := by
  have hwritten := (tftpWrite_same lmbReadCheck payload w).sent
  unfold takeBlock
  dsimp only
  split
  · split
    · rw [closeHandle_sent, sendAck, <- hwritten]
      exact sendPacket_sent addr port _ _
    · show w.sent <+: (sendAck addr port w.blknum (tftpWrite lmbReadCheck payload w).2).sent
      rw [sendAck, <- hwritten]
      exact sendPacket_sent addr port _ _
  · split
    · rw [closeHandle_sent, closeHandle_sent, sendError, <- hwritten]
      exact sendPacket_sent addr port _ _
    · show w.sent <+: (closeHandle _).sent
      rw [closeHandle_sent, sendError, <- hwritten]
      exact sendPacket_sent addr port _ _

theorem recvData_sent (w : Client L) :
    w.sent <+: (recvData lmbReadCheck addr port p w).sent := by
  have hsettle : (settleOptions w).sent = w.sent := by
    unfold settleOptions
    split <;> rfl
  unfold recvData
  dsimp only
  split
  · exact sendPacket_sent addr port _ w
  · rw [<- hsettle]
    split
    · exact takeBlock_sent _ _
    · split
      · exact sendPacket_sent addr port _ _
      · exact sendPacket_sent addr port _ _

theorem tftpRecv_sent (w : Client L) :
    w.sent <+: (tftpRecv lmbReadCheck addr port p w).sent := by
  have herror : forall code text (w' : Client L), w'.sent = w.sent ->
      w.sent <+: (sendError addr port code text w').sent := by
    intro code text w' hsame
    rw [<- hsame]
    exact sendPacket_sent addr port _ w'
  unfold tftpRecv
  dsimp only
  split
  · exact herror _ _ _ rfl
  · split
    · split
      · exact herror _ _ _ rfl
      · exact herror _ _ _ rfl
    · split
      · exact recvData_sent (clearReq { w with retries := 0 })
      · split
        · exact herror _ _ _ rfl
        · split
          · unfold recvError
            split
            · rw [closeHandle_sent]
              exact List.prefix_rfl
            · exact List.prefix_rfl
          · split
            · rcases takeOptions_shape addr port (p.first.drop 2)
                (clearReq { w with retries := 0 }) with ⟨errors, tsize, heq, _⟩
              rw [heq]
              exact ⟨errors ++ [_], (List.append_assoc _ _ _).symm⟩
            · exact herror _ _ _ rfl

theorem tftpReqTmr_sent (w : Client L) : w.sent <+: (tftpReqTmr w).sent := by
  unfold tftpReqTmr
  split
  · exact List.prefix_rfl
  · split
    · show w.sent <+: (resendRequest w).sent
      unfold resendRequest
      split
      · exact List.prefix_rfl
      · exact sendPacket_sent _ _ _ w
    · rw [closeHandle_sent]
      exact List.prefix_rfl

theorem Acked.mono {w' : Client L} (h : Acked w) (hsent : w.sent <+: w'.sent) : Acked w' := by
  rcases h with ⟨x, hx, hack⟩
  exact ⟨x, hsent.subset hx, hack⟩

/-- The client keeps its invariant; data on the way is data of the file, and was sent after
an acknowledgement if the server answers the options. -/
structure Inv (srv : Server) (loadaddr : Nat) (mem : Nat -> UInt8) (requested : Nat)
    (s : System L) : Prop where
  client : Good srv loadaddr mem requested s.client
  data : forall port k, (port, .data k) ∈ s.net ->
    (1 ≤ k ∧ k ≤ srv.blocks) ∧ (srv.oack.isSome = true -> Acked s.client)
  oack : forall port, (port, .oack) ∈ s.net -> srv.oack.isSome = true

variable {s : System L}

theorem Inv.of_client {client : Client L} (h : Inv srv loadaddr mem requested s)
    (hgood : Good srv loadaddr mem requested client) (hsent : s.client.sent <+: client.sent) :
    Inv srv loadaddr mem requested { s with client := client } where
  client := hgood
  data port k hk :=
    ⟨(h.data port k hk).left, fun hopt => ((h.data port k hk).right hopt).mono hsent⟩
  oack := h.oack

theorem Inv.step (h : Inv srv loadaddr mem requested s) {e : Event} (he : Timely srv s e) :
    Inv srv loadaddr mem requested (step lmbReadCheck srv s e) := by
  rcases he with ⟨he, hwindow⟩
  cases e with
  | request port =>
      refine ⟨h.client, fun q k hk => ?_, fun q hq => ?_⟩
      · rcases List.mem_append.mp hk with hk | hk
        · exact h.data q k hk
        · have hopening := List.mem_singleton.mp hk
          unfold Server.opening at hopening
          split at hopening
          · cases hopening
          · rename_i hnone
            cases hopening
            exact ⟨⟨Nat.le_refl 1, Nat.le_add_left 1 _⟩, fun hopt => absurd hopt hnone⟩
      · rcases List.mem_append.mp hq with hq | hq
        · exact h.oack q hq
        · have hopening := List.mem_singleton.mp hq
          unfold Server.opening at hopening
          split at hopening
          · assumption
          · cases hopening
  | ack port =>
      rcases he with ⟨i, hi, hack⟩
      have hacked : Acked s.client := ⟨_, hack, _, rfl⟩
      simp only [Tftp.step, hi]
      split
      · rename_i hlt
        refine ⟨h.client, fun q k hk => ?_, fun q hq => ?_⟩
        · rcases List.mem_append.mp hk with hk | hk
          · exact h.data q k hk
          · cases List.mem_singleton.mp hk
            exact ⟨⟨Nat.le_add_left 1 i, hlt⟩, fun _ => hacked⟩
        · rcases List.mem_append.mp hq with hq | hq
          · exact h.oack q hq
          · cases List.mem_singleton.mp hq
      · exact ⟨h.client, h.data, h.oack⟩
  | deliver port m p =>
      rcases he with ⟨hsource, hcarries⟩
      refine h.of_client (h.client.tftpRecv hcarries ?_ ?_) (tftpRecv_sent _)
      · rintro k rfl
        have hnet : (port, Msg.data k) ∈ s.net := by
          rcases hsource with hnet | ⟨_, _, herror⟩
          · exact hnet
          · cases herror
        rcases h.data port k hnet with ⟨hk, hacked⟩
        refine ⟨hk, fun hwait => ?_, hwindow⟩
        by_contra hopt
        have hsettled := h.client.acked (hacked (Option.isSome_iff_ne_none.mpr hopt))
        rw [hwait] at hsettled
        cases hsettled
      · rintro rfl
        rcases hsource with hnet | ⟨_, _, herror⟩
        · exact h.oack port hnet
        · cases herror
  | reqTmr => exact h.of_client h.client.tftpReqTmr (tftpReqTmr_sent _)
  | noResponse =>
      refine h.of_client ?_ (by unfold noResponse; split <;> exact List.prefix_rfl)
      unfold noResponse
      split
      · exact h.client
      · exact
          { h.client with
            stored := ⟨h.client.stored.mem, h.client.stored.size, h.client.stored.daddr,
              h.client.stored.fits⟩
            opened := fun hopened => ⟨nofun, (h.client.opened hopened).right⟩
            closed := nofun }
  | ctrlc =>
      refine h.of_client ?_ List.prefix_rfl
      exact
        { h.client with
          stored := ⟨h.client.stored.mem, h.client.stored.size, h.client.stored.daddr,
            h.client.stored.fits⟩
          opened := fun hopened => ⟨nofun, (h.client.opened hopened).right⟩
          closed := nofun }

variable {blksize : Nat} {req : TftpReq} {lmb : L}

theorem Inv.start (hload : loadaddr < 2 ^ 32) :
    Inv srv loadaddr mem (setBlksize blksize) (start loadaddr blksize req mem lmb) where
  client :=
    { addr := rfl
      port := rfl
      pending := fun _ => rfl
      acked := by
        rintro ⟨x, hx, n, hn⟩
        rw [List.mem_singleton.mp hx] at hn
        cases hn
      unsettled := fun _ => rfl
      settled := nofun
      stored := ⟨(overwrite_nil mem loadaddr).symm, Nat.zero_le _, rfl, hload⟩
      closed := nofun
      opened := fun _ => ⟨nofun, 0, Nat.zero_le _, by simp [Tftp.start, tftpGet, resendRequest,
        sendPacket], rfl⟩ }
  data := nofun
  oack := nofun

structure Complete (srv : Server) (loadaddr : Nat) (mem : Nat -> UInt8) (w : Client L) :
    Prop where
  mem : w.mem = overwrite mem loadaddr srv.file
  size : w.ctx.size = srv.file.length
  filesize : w.filesize = some srv.file.length

theorem Good.complete (h : Good srv loadaddr mem requested w) (hfits : Fits srv requested)
    (hdone : w.ctx.done = .success) (hstored : ¬ Refused w) :
    Complete srv loadaddr mem w := by
  rcases h.closed hdone with hrefused | hclosed
  · exact absurd hrefused hstored
  · rcases hclosed hfits with ⟨hsize, hfilesize⟩
    refine ⟨?_, hsize, hfilesize⟩
    rw [h.stored.mem, hsize, List.take_length]

end Tftp
end Lwip
end Hlk7621
