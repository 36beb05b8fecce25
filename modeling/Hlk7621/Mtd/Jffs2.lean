import Hlk7621.Mtd.Tool
import Hlk7621.UBoot.Crc32

/-!
# The JFFS2 generator

Model of `jffs2.c` of the OpenWrt `mtd` tool on a little-endian machine with 32-bit
addresses.  It puts the nodes of one file into the erase-size buffer and writes the
buffer to the next good block whenever it is full.  A store that leaves the buffer
stops the model.

What `mtd_parse_jffs2data` finds in the blocks in front are the numbers that the
generator starts with.  The file is found and `read` gives what is asked for up to its
end.  The `crc32` of the tool has the table of the one of the boot loader.
-/

namespace Hlk7621
namespace Mtd
namespace Jffs2

/-!
## Nodes
-/

def jint16 (n : Nat) : Bytes := [UInt8.ofNat n, UInt8.ofNat (n / 256)]

def jint32 (n : Nat) : Bytes := jint16 n ++ jint16 (n / 65536)

/-- `crc32(0, data, len)`. -/
@[irreducible] def crc32 (data : Bytes) : Nat := (Crc.fold UBoot.crcTab 0#32 data).toNat

def JFFS2_MAGIC_BITMASK : Nat := 0x1985
def JFFS2_NODETYPE_DIRENT : Nat := 0xe001
def JFFS2_NODETYPE_INODE : Nat := 0xe002

def CLEANMARKER : Bytes :=
  [0x85, 0x19, 0x03, 0x20, 0x0c, 0x00, 0x00, 0x00, 0xb1, 0xb0, 0x1e, 0xe4]

def JFFS2_EOF : Bytes := [0xde, 0xad, 0xc0, 0xde]

def PAD (x : Nat) : Nat := (x + 3) / 4 * 4

/-- `struct jffs2_unknown_node` without its `hdr_crc`. -/
def unknownNode (nodetype totlen : Nat) : Bytes :=
  jint16 JFFS2_MAGIC_BITMASK ++ jint16 nodetype ++ jint32 totlen

def nodeHeader (nodetype totlen : Nat) : Bytes :=
  unknownNode nodetype totlen ++ jint32 (crc32 (unknownNode nodetype totlen))

/-- What the `node_crc` of a `struct jffs2_raw_dirent` covers; `nsize` has eight
bits. -/
def direntFields (pino version ino type nsize : Nat) : Bytes :=
  List.flatten [nodeHeader JFFS2_NODETYPE_DIRENT (40 + nsize), jint32 pino, jint32 version,
    jint32 ino, jint32 0, [UInt8.ofNat nsize, UInt8.ofNat type, 0, 0]]

def rawDirent (pino version ino type : Nat) (name : Bytes) : Bytes :=
  let h := direntFields pino version ino type name.length
  h ++ jint32 (crc32 h) ++ jint32 (crc32 name) ++ name

/-- What a node takes from `struct stat`. -/
structure Stat where
  mode : Nat
  size : Nat
  atime : Nat
  mtime : Nat
  ctime : Nat

/-- What the `node_crc` of a `struct jffs2_raw_inode` covers, for `len` bytes of data
at `offset`. -/
def inodeFields (ino version : Nat) (st : Stat) (offset len : Nat) : Bytes :=
  List.flatten [nodeHeader JFFS2_NODETYPE_INODE (68 + len), jint32 ino, jint32 version,
    jint32 st.mode, jint16 0, jint16 0, jint32 st.size, jint32 st.atime, jint32 st.mtime,
    jint32 st.ctime, jint32 offset, jint32 len, jint32 len, [0, 0], jint16 0]

def rawInode (ino version : Nat) (st : Stat) (offset len dataCrc : Nat) : Bytes :=
  let h := inodeFields ino version st offset len
  h ++ jint32 dataCrc ++ jint32 (crc32 h)

/-!
## The buffer
-/

inductive Stop where
  /-- An access outside the buffer. -/
  | overrun
  /-- The status of a block cannot be read. -/
  | exit
  | endless
  deriving DecidableEq, Repr

/-- The device, and the static variables. -/
structure Gen where
  dev : Tool.Device
  pos : Nat
  buf : Bytes
  ofs : Nat
  mtdofs : Nat
  lastIno : Nat
  lastVersion : Nat
  /-- Where blocks were written. -/
  written : List Nat

section

variable (erasesize : Nat)

/-- A store of `data` to `buf + off`. -/
def poke (off : Nat) (data : Bytes) (s : Gen) : Except Stop Gen :=
  if off + data.length ≤ erasesize then .ok { s with buf := splice s.buf off data }
  else .error .overrun

/-- The loop of `pad` over bad blocks. -/
def skipBad : Nat -> Gen -> Except Stop Gen
  | 0, _ => .error .endless
  | fuel + 1, s =>
      let rc := s.dev.blockIsBad erasesize s.mtdofs
      if rc < 0 then .error .exit
      else if rc ≠ 0 ∧ s.mtdofs < s.dev.size then
        skipBad fuel { s with
          mtdofs := s.mtdofs + erasesize
          pos := s.dev.lseek s.pos (s.pos + erasesize) }
      else .ok s

/-- The end of `pad` at the end of the buffer. -/
def writeBlock (s : Gen) : Except Stop Gen := do
  let s <- skipBad erasesize (s.dev.size + 1) s
  let dev := (s.dev.eraseBlock erasesize s.mtdofs).getD s.dev
  let r := dev.write erasesize s.pos s.buf
  pure { s with
    dev := r.2
    pos := s.pos + r.1.toNat
    mtdofs := s.mtdofs + erasesize
    written := s.written ++ [s.pos] }

def pad (size : Nat) (s : Gen) : Except Stop Gen :=
  if s.ofs % size = 0 ∧ s.ofs < erasesize then .ok s
  else do
    let s <-
      if s.ofs < erasesize then do
        let s' <- poke erasesize s.ofs (List.replicate (size - s.ofs % size) 0xff) s
        pure { s' with ofs := s.ofs + (size - s.ofs % size) }
      else pure s
    let s := { s with ofs := s.ofs % erasesize }
    if s.ofs = 0 then writeBlock erasesize s else pure s

def rbytes (s : Gen) : Nat := erasesize - s.ofs % erasesize

/-- `memcpy(buf + ofs, ptr, len); ofs += len`. -/
def append (data : Bytes) (s : Gen) : Except Stop Gen := do
  let s' <- poke erasesize s.ofs data s
  pure { s' with ofs := s.ofs + data.length }

/-- `prep_eraseblock`.  In a block without room for the clean marker it calls itself
through `add_data`. -/
def prepEraseblock (s : Gen) : Except Stop Gen :=
  if s.ofs > 0 then .ok s
  else if s.ofs + CLEANMARKER.length > erasesize then .error .endless
  else append erasesize CLEANMARKER s

def addData (data : Bytes) (s : Gen) : Except Stop Gen :=
  if s.ofs + data.length > erasesize then do
    let s <- pad erasesize erasesize s
    let s <- prepEraseblock erasesize s
    append erasesize data s
  else append erasesize data s

/-!
## Files
-/

/-- `add_dirent`: the number of the inode. -/
def addDirent (name : Bytes) (type parent : Nat) (s : Gen) : Except Stop (Nat × Gen) := do
  -- the difference is compared as an unsigned number
  let s <- if sub32 s.ofs erasesize < 40 + name.length then pad erasesize erasesize s else pure s
  let s <- prepEraseblock erasesize s
  let ino := s.lastIno + 1
  let node := rawDirent parent s.lastVersion ino type name
  let s <- poke erasesize s.ofs node s
  let s := { s with
    lastIno := s.lastIno + 2
    lastVersion := s.lastVersion + 1
    ofs := s.ofs + (40 + name.length % 256) }
  let s <- pad erasesize 4 s
  pure (ino, s)

def addDir (name : Bytes) (parent : Nat) (s : Gen) : Except Stop (Nat × Gen) := do
  let (inode, s) <- addDirent erasesize name 4 parent s
  let s <- if rbytes erasesize s < 68 then pad erasesize erasesize s else pure s
  let s <- prepEraseblock erasesize s
  let s <- addData erasesize (rawInode inode 1 ⟨0o40755, 0, 0, 0, 0⟩ 0 0 0) s
  let s <- pad erasesize 4 s
  pure (inode, s)

/-- The inner loop of `add_file`. -/
def makeRoom : Nat -> Gen -> Except Stop Gen
  | 0, _ => .error .endless
  | fuel + 1, s =>
      if (128 : Int) < rbytes erasesize s - 68 then .ok s
      else do
        let s <- pad erasesize erasesize s
        let s <- prepEraseblock erasesize s
        makeRoom fuel s

/-- The loop of `add_file` over the data; `rest` is what `read` still gives. -/
def fileLoop (inode : Nat) (st : Stat) : Nat -> Nat -> Bytes -> Gen -> Except Stop Gen
  | 0, _, _, _ => .error .endless
  | fuel + 1, offset, rest, s => do
      let s <- makeRoom erasesize 2 s
      let wbuf := rest.take (min (rbytes erasesize s - 68) 4096)
      if wbuf = [] then pure s
      else
        let s := { s with lastVersion := s.lastVersion + 1 }
        let s <- addData erasesize
          (rawInode inode s.lastVersion st offset wbuf.length (crc32 wbuf)) s
        let s <- addData erasesize wbuf s
        let s <- pad erasesize 4 s
        let s <- prepEraseblock erasesize s
        fileLoop inode st fuel (offset + wbuf.length) (rest.drop wbuf.length) s

/-- A file: the name that it is opened by, what `stat` says of it, and its content. -/
structure File where
  filename : Bytes
  mode : Nat
  atime : Nat
  mtime : Nat
  ctime : Nat
  content : Bytes

def File.stat (file : File) : Stat :=
  ⟨file.mode, file.content.length, file.atime, file.mtime, file.ctime⟩

def File.fname (file : File) : Bytes := (file.filename.reverse.takeWhile (· != 47)).reverse

def addFile (file : File) (parent : Nat) (s : Gen) : Except Stop Gen := do
  let (inode, s) <- addDirent erasesize file.fname 8 parent s
  fileLoop erasesize inode file.stat (file.content.length + 1) 0 file.content s

/-- The end of both functions: the last block, and the mark behind it. -/
def finish (s : Gen) : Except Stop Gen := do
  let s <- pad erasesize erasesize s
  let s <- addData erasesize JFFS2_EOF s
  pad erasesize erasesize s

def firstIno (s : Gen) : Gen := { s with lastIno := if s.lastIno = 0 then 1 else s.lastIno }

/-- `mtd_replace_jffs2`, called with the file pointer at `ofs`. -/
def mtdReplaceJffs2 (ofs : Nat) (file : File) (s : Gen) : Except Stop Gen := do
  let s <- addFile erasesize file 1 (firstIno { s with mtdofs := ofs })
  finish erasesize s

/-- `mtd_write_jffs2` behind the loop that reads the blocks: `mtdofs` is the block
without a magic number, and `targetIno` is zero if the directory was not found. -/
def mtdWriteJffs2 (targetIno : Nat) (dir : Bytes) (file : File) (s : Gen) :
    Except Stop Gen := do
  let s := firstIno { s with pos := s.dev.lseek s.pos s.mtdofs, ofs := 0 }
  let (target, s) <-
    if targetIno = 0 then addDir erasesize dir 1 s else pure (targetIno, s)
  let s <- addFile erasesize file target s
  finish erasesize s

end

/-!
## Reading
-/

def field (raw : Bytes) (off len : Nat) : Nat := leNat ((raw.drop off).take len)

/-- The loop of `mtd_parse_jffs2data` over a block: the nodes with their places. -/
def walk : Nat -> Nat -> Bytes -> List (Nat × Bytes)
  | 0, _, _ => []
  | fuel + 1, ofs, rest =>
      if rest ≠ [] ∧ field rest 0 2 = JFFS2_MAGIC_BITMASK then
        let totlen := field rest 4 4
        (ofs, rest.take totlen) :: walk fuel (ofs + PAD totlen) (rest.drop (PAD totlen))
      else []

def nodesOf (block : Bytes) : List (Nat × Bytes) := walk block.length 0 block

structure GoodHeader (raw : Bytes) : Prop where
  long : 12 ≤ raw.length
  magic : field raw 0 2 = JFFS2_MAGIC_BITMASK
  totlen : field raw 4 4 = raw.length
  hdrCrc : field raw 8 4 = crc32 (raw.take 8)

structure GoodDirent (raw : Bytes) : Prop where
  header : GoodHeader raw
  nodetype : field raw 2 2 = JFFS2_NODETYPE_DIRENT
  nsize : 40 + field raw 28 1 = raw.length
  nodeCrc : field raw 32 4 = crc32 (raw.take 32)
  nameCrc : field raw 36 4 = crc32 (raw.drop 40)

structure GoodInode (raw : Bytes) : Prop where
  header : GoodHeader raw
  nodetype : field raw 2 2 = JFFS2_NODETYPE_INODE
  csize : 68 + field raw 48 4 = raw.length
  dsize : field raw 52 4 = field raw 48 4
  compr : field raw 56 1 = 0
  dataCrc : field raw 60 4 = crc32 (raw.drop 68)
  nodeCrc : field raw 64 4 = crc32 (raw.take 60)

def inodeData (node : Nat × Bytes) : Option (Nat × Bytes) :=
  if field node.2 2 2 = JFFS2_NODETYPE_INODE then
    some (field node.2 44 4, node.2.drop 68)
  else none

end Jffs2
end Mtd
end Hlk7621
