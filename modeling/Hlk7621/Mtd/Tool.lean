import Hlk7621.Lib.Bytes

/-!
# The mtd tool

The `write` and `dump` commands of the OpenWrt `mtd` tool.  A device is what the
kernel shows of it through `ioctl`, `lseek`, `read` and `write`; the image is what the
image file still gives, and the erase-size buffer is the start of the memory from `buf`
on, so that a transfer that leaves the buffer has a meaning.  Offsets and sizes are below
2 GiB, as the `int` arguments of `mtd_dump` hold them.

The JFFS2 replacement, the FIS table, the recovery flag and `-n` are not options of
the calls modelled here.
-/

namespace Hlk7621
namespace Mtd
namespace Tool

/-!
## Devices
-/

structure Device where
  size : Nat
  /-- `mtdtype == MTD_NANDFLASH`. -/
  nand : Bool
  /-- The answer of `MEMGETBADBLOCK` for each block. -/
  status : Nat -> Int
  eraseOk : Nat -> Bool
  writeOk : Nat -> Bool
  mem : Nat -> UInt8

namespace Device

variable (erasesize : Nat) (d : Device)

/-- `mtd_block_is_bad`; the program exits when the answer is negative. -/
def blockIsBad (offset : Nat) : Int :=
  if d.nand then d.status (offset / erasesize) else 0

def eraseBlock (offset : Nat) : Option Device :=
  if offset + erasesize ≤ d.size ∧ d.eraseOk (offset / erasesize) = true then
    some { d with mem := overwrite d.mem offset (List.replicate erasesize 0xff) }
  else
    none

/-- `lseek` to `target`; behind the end of the device it fails and the position stays. -/
def lseek (pos target : Nat) : Nat :=
  if target ≤ d.size then target else pos

/-- `write` at position `pos`; what does not fit is left out. -/
def write (pos : Nat) (data : Bytes) : Int × Device :=
  if pos < d.size ∧ d.writeOk (pos / erasesize) = true then
    ((data.take (d.size - pos)).length,
      { d with mem := overwrite d.mem pos (data.take (d.size - pos)) })
  else
    (-1, d)

def read (pos len : Nat) : Bytes := window d.mem pos (min len (d.size - pos))

end Device

/-!
## mtd_write
-/

/-- The calls that changed a device, or tried to: the number of the device in the list,
the place on it, and for a write the bytes of the buffer. -/
inductive Event where
  | erase (device offset : Nat)
  | write (device pos start len : Nat)
  deriving DecidableEq, Repr

structure Writer where
  dev : Device
  /-- The devices behind the current one in the list. -/
  next : List Device
  closed : List Device
  pos : Nat
  w : Nat
  e : Nat
  skipBadBlocks : Nat
  offset : Nat
  buflen : Nat
  buf : Nat -> UInt8
  /-- What is left in the image file. -/
  image : Bytes
  log : List Event

namespace Writer

variable (erasesize partOffset : Nat) (s : Writer)

/-- The buffer may contain data already. -/
def fill : Writer :=
  { s with
    buf := overwrite s.buf s.buflen (s.image.take (erasesize - s.buflen))
    buflen := s.buflen + (s.image.take (erasesize - s.buflen)).length
    image := s.image.drop (erasesize - s.buflen) }

/-- Pad block to eraseblock size. -/
def pad : Writer :=
  if s.buflen < erasesize then
    { s with
      buf := overwrite s.buf s.buflen (List.replicate (erasesize - s.buflen) 0xff)
      buflen := erasesize }
  else
    s

/-- Move the file pointer along over the bad block. -/
def skip : Writer :=
  { s with
    skipBadBlocks := s.skipBadBlocks + erasesize
    e := s.e + erasesize
    pos := s.dev.lseek s.pos (s.pos + erasesize) }

def erased (d : Device) : Writer :=
  { s with
    dev := d
    e := s.e + erasesize
    log := s.log ++ [.erase s.closed.length (s.e + partOffset)] }

/-- `write(fd, buf + offset, len)`. -/
def put (len : Nat) : Int × Writer :=
  let r := s.dev.write erasesize s.pos (window s.buf s.offset len)
  (r.1,
    { s with
      dev := r.2
      pos := s.pos + r.1.toNat
      log := s.log ++ [.write s.closed.length s.pos s.offset len] })

def advance : Writer :=
  { s with w := s.w + s.buflen, buflen := 0, offset := 0 }

/-- The device is full.  What was erased and not written takes the start of the buffer. -/
def drain : Writer :=
  if s.w < s.e then
    { (s.put erasesize (s.e - s.w)).2 with offset := s.e - s.w }
  else
    s

/-- `resume`: the next device of the list. -/
def reopen (d : Device) (rest : List Device) : Writer :=
  { s with
    dev := d
    next := rest
    closed := s.closed ++ [s.dev]
    pos := d.lseek 0 partOffset
    w := 0
    e := 0 }

end Writer

inductive Erased where
  | ready (s : Writer)
  /-- Erasing failed. -/
  | full (s : Writer)
  | exit
  | hung

inductive Outcome where
  | done (s : Writer)
  | exit
  | hung

section

variable (erasesize partOffset : Nat)

/-- Erase the next block before writing data to it. -/
def eraseLoop : Nat -> Writer -> Erased
  | 0, _ => .hung
  | fuel + 1, s =>
      if s.e < s.w + s.buflen + s.skipBadBlocks then
        if s.dev.blockIsBad erasesize s.e < 0 then
          .exit
        else if s.dev.blockIsBad erasesize s.e ≠ 0 then
          eraseLoop fuel (s.skip erasesize)
        else
          match s.dev.eraseBlock erasesize (s.e + partOffset) with
          | none => .full s
          | some d => eraseLoop fuel (s.erased erasesize partOffset d)
      else
        .ready s

/-- The loop of `mtd_write`, with the jump back to `resume`. -/
def writeLoop : Nat -> Writer -> Outcome
  | 0, _ => .hung
  | fuel + 1, s =>
      if (s.fill erasesize).buflen = 0 then
        .done (s.fill erasesize)
      else
        match eraseLoop erasesize partOffset fuel ((s.fill erasesize).pad erasesize) with
        | .ready s =>
            if (s.put erasesize s.buflen).1 < s.buflen then
              .exit
            else
              writeLoop fuel (s.put erasesize s.buflen).2.advance
        | .full s =>
            match s.next with
            | [] => .exit
            | d :: rest => writeLoop fuel ((s.drain erasesize).reopen partOffset d rest)
        | .exit => .exit
        | .hung => .hung

/-- The state at the first block.  `held` bytes of the image are in the buffer from
`image_check`; the memory around them is arbitrary. -/
def start (d : Device) (next : List Device) (heap : Nat -> UInt8) (held : Nat)
    (image : Bytes) : Writer :=
  { dev := d
    next := next
    closed := []
    pos := d.lseek 0 partOffset
    w := 0
    e := 0
    skipBadBlocks := 0
    offset := 0
    buflen := (image.take held).length
    buf := overwrite heap 0 (image.take held)
    image := image.drop held
    log := [] }

def mtdWrite (fuel : Nat) (d : Device) (next : List Device) (heap : Nat -> UInt8)
    (held : Nat) (image : Bytes) : Outcome :=
  writeLoop erasesize partOffset fuel (start partOffset d next heap held image)

end

/-!
## mtd_dump
-/

inductive Dumped where
  | returned (out : Bytes)
  | exit (out : Bytes)
  | hung
  deriving DecidableEq, Repr

section

variable (erasesize : Nat) (d : Device)

def dumpLoop : Nat -> Nat -> Nat -> Nat -> Bytes -> Dumped
  | 0, _, _, _, _ => .hung
  | fuel + 1, pos, offset, size, out =>
      let data := d.read pos (min size erasesize)
      if data.length = 0 ∨ data.length ≠ min size erasesize then
        .returned out
      else if d.blockIsBad erasesize offset < 0 then
        .exit out
      else if d.blockIsBad erasesize offset ≠ 0 then
        dumpLoop fuel (pos + data.length) (offset + data.length) size out
      else if 0 < size - data.length then
        dumpLoop fuel (pos + data.length) (offset + data.length) (size - data.length)
          (out ++ data)
      else
        .returned (out ++ data)

/-- `mtd_dump`; every turn but the last moves the position, so the fuel is enough. -/
def mtdDump (partOffset size : Nat) : Dumped :=
  dumpLoop erasesize d (d.size + 1) (d.lseek 0 partOffset) 0
    (if size = 0 then d.size else size) []

end

section

variable {erasesize : Nat} {d : Device}

theorem Device.read_length (pos len : Nat) :
    (d.read pos len).length = min len (d.size - pos) := by
  simp [Device.read]

theorem Device.read_eq {pos len : Nat} (h : pos + len ≤ d.size) :
    d.read pos len = window d.mem pos len := by
  unfold Device.read
  rw [Nat.min_eq_left (by lia)]

theorem dumpLoop_ne_hung {fuel pos offset size : Nat} {out : Bytes} (hfuel : 0 < fuel)
    (h : d.size < fuel + pos) : dumpLoop erasesize d fuel pos offset size out ≠ .hung := by
  induction fuel generalizing pos offset size out with
  | zero => exact absurd hfuel (Nat.lt_irrefl 0)
  | succ fuel ih =>
      unfold dumpLoop
      simp only
      split
      · exact fun hc => nomatch hc
      · rename_i hread
        have hlen := d.read_length pos (min size erasesize)
        have hmove : (d.read pos (min size erasesize)).length ≠ 0 := fun hz => hread (Or.inl hz)
        split
        · exact fun hc => nomatch hc
        · split
          · exact ih (by lia) (by lia)
          · split
            · exact ih (by lia) (by lia)
            · exact fun hc => nomatch hc

/-- A dump always ends. -/
theorem mtdDump_ne_hung (partOffset size : Nat) : mtdDump erasesize d partOffset size ≠ .hung :=
  dumpLoop_ne_hung (Nat.succ_pos _) (by lia)

end

/-!
## One turn of the writer
-/

def padBlock (erasesize : Nat) (data : Bytes) : Bytes :=
  data ++ List.replicate (erasesize - data.length) 0xff

def padded (erasesize : Nat) (data : Bytes) : Bytes :=
  data ++ List.replicate ((erasesize - data.length % erasesize) % erasesize) 0xff

section

variable {erasesize : Nat} {data : Bytes}

theorem padBlock_length (h : data.length ≤ erasesize) :
    (padBlock erasesize data).length = erasesize := by
  simp [padBlock]
  lia

@[simp] theorem padded_nil : padded erasesize [] = [] := by
  simp [padded]

theorem padded_step (hE : 0 < erasesize) (hdata : data ≠ []) :
    padded erasesize data =
      padBlock erasesize (data.take erasesize) ++ padded erasesize (data.drop erasesize) := by
  have hlen : 0 < data.length := List.length_pos_iff.mpr hdata
  by_cases hle : data.length ≤ erasesize
  · rw [List.take_of_length_le hle, List.drop_of_length_le hle, padded_nil, List.append_nil]
    unfold padded padBlock
    congr 2
    rcases Nat.lt_or_eq_of_le hle with hlt | heq
    · rw [Nat.mod_eq_of_lt hlt, Nat.mod_eq_of_lt (by lia)]
    · rw [heq, Nat.mod_self, Nat.sub_zero, Nat.mod_self, Nat.sub_self]
  · unfold padded padBlock
    rw [List.length_take, Nat.min_eq_left (by lia), Nat.sub_self, List.replicate_zero,
      List.append_nil, ← List.append_assoc, List.take_append_drop, List.length_drop,
      ← Nat.mod_eq_sub_mod (by lia)]

theorem padded_length (hE : 0 < erasesize) :
    (padded erasesize data).length = erasesize * ((data.length + erasesize - 1) / erasesize) := by
  have hdm := Nat.div_add_mod data.length erasesize
  have hmod := Nat.mod_lt data.length hE
  simp only [padded, List.length_append, List.length_replicate]
  rcases Nat.eq_zero_or_pos (data.length % erasesize) with hz | hpos
  · rw [hz, Nat.sub_zero, Nat.mod_self]
    have hdiv : (data.length + erasesize - 1) / erasesize = data.length / erasesize := by
      rw [Nat.div_eq_of_lt_le]
      · rw [Nat.mul_comm]
        lia
      · rw [Nat.succ_mul, Nat.mul_comm]
        lia
    rw [hdiv]
    lia
  · rw [Nat.mod_eq_of_lt (by lia)]
    have hdiv : (data.length + erasesize - 1) / erasesize = data.length / erasesize + 1 := by
      rw [Nat.div_eq_of_lt_le]
      · rw [Nat.succ_mul, Nat.mul_comm]
        lia
      · rw [Nat.succ_mul, Nat.succ_mul, Nat.mul_comm]
        lia
    rw [hdiv, Nat.mul_succ]
    lia

end

namespace Writer

variable {erasesize : Nat} {s : Writer}

def pending (s : Writer) : Bytes := window s.buf 0 s.buflen ++ s.image

theorem fill_buflen (h : s.buflen ≤ erasesize) :
    (s.fill erasesize).buflen = min erasesize s.pending.length := by
  simp only [fill, pending, List.length_take, List.length_append, window_length]
  lia

theorem fill_image (h : s.buflen ≤ erasesize) :
    (s.fill erasesize).image = s.pending.drop erasesize := by
  have hle : (window s.buf 0 s.buflen).length ≤ erasesize := by
    rw [window_length]
    exact h
  simp only [fill, pending]
  rw [List.drop_append, List.drop_of_length_le hle, List.nil_append, window_length]

theorem fill_window (h : s.buflen ≤ erasesize) :
    window (s.fill erasesize).buf 0 (s.fill erasesize).buflen = s.pending.take erasesize := by
  have hle : (window s.buf 0 s.buflen).length ≤ erasesize := by
    rw [window_length]
    exact h
  have happ := window_overwrite_append s.buf 0 s.buflen (s.image.take (erasesize - s.buflen))
  rw [Nat.zero_add] at happ
  simp only [fill, pending]
  rw [happ, List.take_append, List.take_of_length_le hle, window_length]

def loaded (s : Writer) (erasesize : Nat) : Writer := (s.fill erasesize).pad erasesize

theorem loaded_buflen (h : s.buflen ≤ erasesize) : (s.loaded erasesize).buflen = erasesize := by
  have hle : (s.fill erasesize).buflen ≤ erasesize := by
    rw [fill_buflen h]
    exact Nat.min_le_left _ _
  unfold loaded pad
  split
  · rfl
  · lia

theorem loaded_window (h : s.buflen ≤ erasesize) :
    window (s.loaded erasesize).buf 0 erasesize =
      padBlock erasesize (s.pending.take erasesize) := by
  have hwin := fill_window h
  have hlen := fill_buflen h
  unfold loaded pad padBlock
  rw [← hwin, window_length]
  split
  · rename_i hlt
    have happ := window_overwrite_append (s.fill erasesize).buf 0 (s.fill erasesize).buflen
      (List.replicate (erasesize - (s.fill erasesize).buflen) 0xff)
    rw [Nat.zero_add, List.length_replicate, Nat.add_sub_cancel' (Nat.le_of_lt hlt)] at happ
    exact happ
  · rename_i hge
    have heq : (s.fill erasesize).buflen = erasesize := by lia
    rw [heq, Nat.sub_self, List.replicate_zero, List.append_nil]

theorem loaded_eq (h : s.buflen ≤ erasesize) :
    s.loaded erasesize =
      { s with
        buf := (s.loaded erasesize).buf
        buflen := erasesize
        image := s.pending.drop erasesize } := by
  have hbuf := loaded_buflen h
  have himg := fill_image h
  unfold loaded pad at hbuf ⊢
  split
  · rename_i hlt
    rw [← himg]
    rfl
  · rename_i hge
    rw [if_neg hge] at hbuf
    calc s.fill erasesize
        = { s with
            buf := (s.fill erasesize).buf
            buflen := (s.fill erasesize).buflen
            image := (s.fill erasesize).image } := rfl
      _ = _ := by rw [hbuf, himg]

end Writer

end Tool
end Mtd
end Hlk7621
