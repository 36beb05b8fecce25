import Hlk7621.Lib.GoodBlocks
import Hlk7621.Mtd.Jffs2

/-!
# What the JFFS2 generator writes

The buffer always holds the nodes of the block so far, each padded to four bytes, and
every block that is written holds the nodes that were in the buffer.  The reader's loop
finds them again.
-/

namespace Hlk7621
namespace Mtd
namespace Jffs2

/-!
## Fields
-/

theorem leNat_jint16 (n : Nat) : leNat (jint16 n) = n % 65536 := by
  simp only [jint16, leNat, UInt8.toNat_ofNat']
  lia

theorem leNat_jint32 (n : Nat) : leNat (jint32 n) = n % 2 ^ 32 := by
  simp only [jint32, jint16, List.cons_append, List.nil_append, leNat, UInt8.toNat_ofNat']
  lia

theorem leNat_jint32_of_lt {n : Nat} (h : n < 2 ^ 32) : leNat (jint32 n) = n := by
  rw [leNat_jint32, Nat.mod_eq_of_lt h]

theorem crc32_lt (data : Bytes) : crc32 data < 2 ^ 32 := by
  unfold crc32
  exact BitVec.isLt _

theorem leNat_crc32 (data : Bytes) : leNat (jint32 (crc32 data)) = crc32 data :=
  leNat_jint32_of_lt (crc32_lt data)

theorem field_between (a b c : Bytes) : field (a ++ (b ++ c)) a.length b.length = leNat b := by
  unfold field
  rw [List.drop_left, List.take_left]

theorem field_append {raw : Bytes} {off len : Nat} (h : off + len ≤ raw.length) (rest : Bytes) :
    field (raw ++ rest) off len = field raw off len := by
  unfold field
  rw [List.drop_append_of_le_length (by lia),
    List.take_append_of_le_length (by rw [List.length_drop]; lia)]

/-!
## The nodes that are built
-/

theorem good_cleanmarker : GoodHeader CLEANMARKER where
  long := by decide
  magic := by decide
  totlen := by decide
  hdrCrc := by decide +kernel

section

variable (pino version ino type : Nat) (name : Bytes)

theorem direntFields_length (nsize : Nat) :
    (direntFields pino version ino type nsize).length = 32 := rfl

theorem rawDirent_length : (rawDirent pino version ino type name).length = 40 + name.length := by
  unfold rawDirent
  simp only [List.length_append, direntFields_length]
  show 32 + 4 + 4 + name.length = _
  lia

theorem rawDirent_split : rawDirent pino version ino type name =
    direntFields pino version ino type name.length ++
      (jint32 (crc32 (direntFields pino version ino type name.length)) ++
        (jint32 (crc32 name) ++ name)) := by
  unfold rawDirent
  simp only [List.append_assoc]

theorem field_rawDirent {off len : Nat} (h : off + len ≤ 32) :
    field (rawDirent pino version ino type name) off len =
      field (direntFields pino version ino type name.length) off len := by
  rw [rawDirent_split]
  exact field_append (by rwa [direntFields_length]) _

variable {name}

theorem good_dirent (hname : name.length ≤ 255) :
    GoodDirent (rawDirent pino version ino type name) := by
  have hlen := rawDirent_length pino version ino type name
  have hfield := fun off len => @field_rawDirent pino version ino type name off len
  have hfields := direntFields_length pino version ino type name.length
  refine ⟨⟨by lia, ?_, ?_, ?_⟩, ?_, ?_, ?_, ?_⟩
  · rw [hfield 0 2 (by decide)]
    exact leNat_jint16 _
  · rw [hfield 4 4 (by decide), hlen]
    exact leNat_jint32_of_lt (by lia)
  · rw [hfield 8 4 (by decide)]
    exact leNat_crc32 _
  · rw [hfield 2 2 (by decide)]
    exact leNat_jint16 _
  · rw [hfield 28 1 (by decide), hlen]
    show 40 + leNat [UInt8.ofNat name.length] = _
    simp only [leNat, UInt8.toNat_ofNat']
    lia
  · rw [rawDirent_split, List.take_left' hfields]
    exact (field_between _ _ _).trans (leNat_crc32 _)
  · rw [rawDirent_split, <- List.append_assoc, <- List.append_assoc,
      List.drop_left' (by rw [List.length_append, List.length_append, hfields]; rfl),
      List.append_assoc]
    exact (field_between _ _ _).trans (leNat_crc32 _)

end

section

variable (ino version : Nat) (st : Stat) (offset : Nat) (data : Bytes)

def inodeNode : Bytes := rawInode ino version st offset data.length (crc32 data) ++ data

theorem inodeFields_length (len : Nat) :
    (inodeFields ino version st offset len).length = 60 := rfl

theorem rawInode_length (len dataCrc : Nat) :
    (rawInode ino version st offset len dataCrc).length = 68 := rfl

theorem inodeNode_length : (inodeNode ino version st offset data).length = 68 + data.length := by
  unfold inodeNode
  rw [List.length_append, rawInode_length]

theorem inodeNode_split : inodeNode ino version st offset data =
    inodeFields ino version st offset data.length ++
      (jint32 (crc32 data) ++
        (jint32 (crc32 (inodeFields ino version st offset data.length)) ++ data)) := by
  unfold inodeNode rawInode
  simp only [List.append_assoc]

theorem field_inodeNode {off len : Nat} (h : off + len ≤ 60) :
    field (inodeNode ino version st offset data) off len =
      field (inodeFields ino version st offset data.length) off len := by
  rw [inodeNode_split]
  exact field_append (by rwa [inodeFields_length]) _

variable {data}

theorem good_inode (hdata : data.length ≤ 4096) :
    GoodInode (inodeNode ino version st offset data) := by
  have hlen := inodeNode_length ino version st offset data
  have hfield := fun off len => @field_inodeNode ino version st offset data off len
  have hfields := inodeFields_length ino version st offset data.length
  refine ⟨⟨by lia, ?_, ?_, ?_⟩, ?_, ?_, ?_, ?_, ?_, ?_⟩
  · rw [hfield 0 2 (by decide)]
    exact leNat_jint16 _
  · rw [hfield 4 4 (by decide), hlen]
    exact leNat_jint32_of_lt (by lia)
  · rw [hfield 8 4 (by decide)]
    exact leNat_crc32 _
  · rw [hfield 2 2 (by decide)]
    exact leNat_jint16 _
  · rw [hfield 48 4 (by decide), hlen]
    exact congrArg (68 + ·) (leNat_jint32_of_lt (by lia))
  · rw [hfield 52 4 (by decide), hfield 48 4 (by decide)]
    rfl
  · rw [hfield 56 1 (by decide)]
    rfl
  · rw [inodeNode_split, <- List.append_assoc, <- List.append_assoc,
      List.drop_left' (by rw [List.length_append, List.length_append, hfields]; rfl),
      List.append_assoc, List.append_assoc]
    exact (field_between _ _ _).trans (leNat_crc32 _)
  · rw [inodeNode_split, List.take_left' hfields, <- List.append_assoc]
    exact (field_between _ _ _).trans (leNat_crc32 _)

theorem inodeData_inode (o : Nat) (hoffset : offset < 2 ^ 32) :
    inodeData (o, inodeNode ino version st offset data) = some (offset, data) := by
  have hdrop : (inodeNode ino version st offset data).drop 68 = data :=
    List.drop_left' (rawInode_length ..)
  have hfield := fun off len => @field_inodeNode ino version st offset data off len
  unfold inodeData
  rw [hfield 2 2 (by decide), hfield 44 4 (by decide), hdrop, if_pos]
  · exact congrArg (fun n => some (n, data)) (leNat_jint32_of_lt hoffset)
  · exact leNat_jint16 _

end

theorem inodeData_dirent (o pino version ino type : Nat) (name : Bytes) :
    inodeData (o, rawDirent pino version ino type name) = none := by
  unfold inodeData
  rw [if_neg]
  rw [field_rawDirent _ _ _ _ _ (by decide)]
  show leNat (jint16 JFFS2_NODETYPE_DIRENT) ≠ JFFS2_NODETYPE_INODE
  decide

theorem inodeData_cleanmarker (o : Nat) : inodeData (o, CLEANMARKER) = none := by
  unfold inodeData
  rw [if_neg (show field CLEANMARKER 2 2 ≠ JFFS2_NODETYPE_INODE by decide)]

/-!
## Blocks
-/

theorem le_PAD (n : Nat) : n ≤ PAD n := by
  unfold PAD
  lia

def padded (raw : Bytes) : Bytes := raw ++ List.replicate (PAD raw.length - raw.length) 0xff

theorem padded_length (raw : Bytes) : (padded raw).length = PAD raw.length := by
  have h := le_PAD raw.length
  unfold padded
  rw [List.length_append, List.length_replicate]
  lia

def front (nodes : List Bytes) : Bytes := nodes.flatMap padded

theorem front_append (nodes nodes' : List Bytes) :
    front (nodes ++ nodes') = front nodes ++ front nodes' :=
  List.flatMap_append

theorem front_cons (raw : Bytes) (nodes : List Bytes) :
    front (raw :: nodes) = padded raw ++ front nodes :=
  List.flatMap_cons

theorem front_aligned (nodes : List Bytes) : 4 ∣ (front nodes).length := by
  induction nodes with
  | nil => exact Nat.dvd_zero 4
  | cons raw nodes ih =>
      rw [front_cons, List.length_append, padded_length]
      exact Nat.dvd_add (Nat.dvd_mul_left 4 _) ih

theorem length_le_front {raw : Bytes} {nodes : List Bytes} (h : raw ∈ nodes) :
    raw.length ≤ (front nodes).length := by
  induction nodes with
  | nil => cases h
  | cons x nodes ih =>
      rw [front_cons, List.length_append, padded_length]
      rcases List.mem_cons.mp h with rfl | h
      · have := le_PAD raw.length
        lia
      · have := ih h
        lia

def image (erasesize : Nat) (nodes : List Bytes) : Bytes :=
  front nodes ++ List.replicate (erasesize - (front nodes).length) 0xff

def placed : Nat -> List Bytes -> List (Nat × Bytes)
  | _, [] => []
  | ofs, raw :: nodes => (ofs, raw) :: placed (ofs + PAD raw.length) nodes

theorem placed_spec {ofs : Nat} {nodes : List Bytes} (hofs : 4 ∣ ofs) {node : Nat × Bytes}
    (h : node ∈ placed ofs nodes) : 4 ∣ node.1 ∧ ofs ≤ node.1 ∧
      node.1 + node.2.length ≤ ofs + (front nodes).length ∧ node.2 ∈ nodes := by
  induction nodes generalizing ofs with
  | nil => cases h
  | cons raw nodes ih =>
      have hpad := le_PAD raw.length
      rw [front_cons, List.length_append, padded_length]
      rcases List.mem_cons.mp h with rfl | h
      · refine ⟨hofs, Nat.le_refl _, ?_, List.mem_cons_self⟩
        exact Nat.add_le_add_left (Nat.le_trans hpad (Nat.le_add_right _ _)) _
      · rcases ih (Nat.dvd_add hofs (Nat.dvd_mul_left 4 _)) h with ⟨hdvd, hge, hle, hmem⟩
        refine ⟨hdvd, Nat.le_trans (Nat.le_add_right _ _) hge, ?_, List.mem_cons_of_mem _ hmem⟩
        rwa [<- Nat.add_assoc]

theorem walk_ones (fuel ofs k : Nat) : walk fuel ofs (List.replicate k 0xff) = [] := by
  cases fuel with
  | zero => rfl
  | succ fuel =>
      rw [walk, if_neg]
      rintro ⟨hne, hmagic⟩
      rcases k with _ | _ | k
      · exact hne rfl
      · revert hmagic
        decide
      · exact absurd hmagic (show field (0xff :: 0xff :: List.replicate k 0xff) 0 2 ≠ _ by
          show leNat [0xff, 0xff] ≠ _
          decide)

theorem walk_front {fuel : Nat} (ofs k : Nat) {nodes : List Bytes}
    (hgood : forall raw, raw ∈ nodes -> GoodHeader raw) (hfuel : nodes.length ≤ fuel) :
    walk fuel ofs (front nodes ++ List.replicate k 0xff) = placed ofs nodes := by
  induction nodes generalizing fuel ofs with
  | nil => exact walk_ones fuel ofs k
  | cons raw nodes ih =>
      cases fuel with
      | zero => simp at hfuel
      | succ fuel =>
          have hraw := hgood raw List.mem_cons_self
          have hlong := hraw.long
          have hread : forall off len, off + len ≤ 12 ->
              field (front (raw :: nodes) ++ List.replicate k 0xff) off len =
                field raw off len := by
            intro off len hle
            rw [front_cons, padded, List.append_assoc, List.append_assoc]
            exact field_append (by lia) _
          have hne : front (raw :: nodes) ++ List.replicate k 0xff ≠ [] := by
            rw [front_cons, padded]
            intro hnil
            simp only [List.append_eq_nil_iff] at hnil
            rw [hnil.1.1.1] at hlong
            simp at hlong
          rw [walk, if_pos ⟨hne, by rw [hread 0 2 (by decide), hraw.magic]⟩]
          dsimp only
          rw [hread 4 4 (by decide), hraw.totlen, placed]
          have htake : (front (raw :: nodes) ++ List.replicate k 0xff).take raw.length = raw := by
            rw [front_cons, padded, List.append_assoc, List.append_assoc, List.take_left]
          have hdrop : (front (raw :: nodes) ++ List.replicate k 0xff).drop (PAD raw.length) =
              front nodes ++ List.replicate k 0xff := by
            rw [front_cons, List.append_assoc, List.drop_left' (padded_length raw)]
          rw [htake, hdrop, ih _ (fun x hx => hgood x (List.mem_cons_of_mem _ hx))
            (by simpa using hfuel)]

theorem length_le_of_good {nodes : List Bytes}
    (hgood : forall raw, raw ∈ nodes -> GoodHeader raw) : nodes.length ≤ (front nodes).length := by
  induction nodes with
  | nil => exact Nat.le_refl 0
  | cons raw nodes ih =>
      have hlong := (hgood raw List.mem_cons_self).long
      have hpad := le_PAD raw.length
      have hrest := ih fun x hx => hgood x (List.mem_cons_of_mem _ hx)
      rw [front_cons, List.length_append, padded_length, List.length_cons]
      lia

theorem nodesOf_image (erasesize : Nat) {nodes : List Bytes}
    (hgood : forall raw, raw ∈ nodes -> GoodHeader raw) :
    nodesOf (image erasesize nodes) = placed 0 nodes := by
  have hlen := length_le_of_good hgood
  unfold nodesOf image
  refine walk_front 0 _ hgood ?_
  rw [List.length_append]
  lia

end Jffs2
end Mtd
end Hlk7621
