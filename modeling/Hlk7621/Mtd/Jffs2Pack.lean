import Hlk7621.Mtd.Jffs2Layout

/-!
# Packing nodes into blocks

What the JFFS2 generator puts into which block, without a device and without a buffer:
the blocks are lists of nodes.  Each operation is named after the function that does it.
-/

namespace Hlk7621
namespace Mtd
namespace Jffs2

inductive Node (raw : Bytes) : Prop where
  | cleanmarker : raw = CLEANMARKER -> Node raw
  | dirent : GoodDirent raw -> Node raw
  | inode : GoodInode raw -> Node raw

theorem Node.header {raw : Bytes} (h : Node raw) : GoodHeader raw := by
  cases h with
  | cleanmarker h => exact h ▸ good_cleanmarker
  | dirent h => exact h.header
  | inode h => exact h.header

/-- The blocks that are full, the nodes of the next one, and the numbers. -/
structure Pack where
  full : List (List Bytes)
  cur : List Bytes
  lastIno : Nat
  lastVersion : Nat

namespace Pack

/-!
## Operations
-/

section

variable (erasesize : Nat) (p : Pack)

def used : Nat := (front p.cur).length

def flush : Pack := { p with full := p.full ++ [p.cur], cur := [] }

/-- `pad(erasesize)`. -/
def close : Pack := if p.cur = [] then p else p.flush

def prep : Pack := if p.cur = [] then { p with cur := [CLEANMARKER] } else p

/-- A node with `pad(4)` behind it. -/
def put (node : Bytes) : Pack :=
  let p := { p with cur := p.cur ++ [node] }
  if p.used = erasesize then p.flush else p

def ino : Nat := p.lastIno + 1

def addDirent (name : Bytes) (type parent : Nat) : Pack :=
  put erasesize
    { p.prep with lastIno := p.lastIno + 2, lastVersion := p.lastVersion + 1 }
    (rawDirent parent p.lastVersion p.ino type name)

def addDir (name : Bytes) (parent : Nat) : Pack :=
  let q := p.addDirent erasesize name 4 parent
  let q := if erasesize - q.used < 68 then q.close else q
  q.prep.put erasesize (inodeNode p.ino 1 ⟨0o40755, 0, 0, 0, 0⟩ 0 [])

def makeRoom : Pack := if 196 < erasesize - p.used then p else p.close.prep

def chunk (rest : Bytes) : Bytes := rest.take (min (erasesize - p.used - 68) 4096)

def addData (inode : Nat) (st : Stat) (offset : Nat) (data : Bytes) : Pack :=
  put erasesize { p with lastVersion := p.lastVersion + 1 }
    (inodeNode inode (p.lastVersion + 1) st offset data)

end

def fileLoop (erasesize inode : Nat) (st : Stat) : Nat -> Nat -> Bytes -> Pack -> Pack
  | 0, _, _, p => p
  | fuel + 1, offset, rest, p =>
      let p := p.makeRoom erasesize
      let wbuf := p.chunk erasesize rest
      if wbuf = [] then p
      else
        fileLoop erasesize inode st fuel (offset + wbuf.length) (rest.drop wbuf.length)
          (p.addData erasesize inode st offset wbuf).prep

def addFile (erasesize : Nat) (file : File) (parent : Nat) (p : Pack) : Pack :=
  fileLoop erasesize p.ino file.stat (file.content.length + 1) 0 file.content
    (p.addDirent erasesize file.fname 8 parent)

def finish (p : Pack) : Pack := flush { p.close with cur := [JFFS2_EOF] }

/-!
## The space that is used
-/

section

variable {erasesize : Nat} {p : Pack}

@[simp] theorem flush_full : p.flush.full = p.full ++ [p.cur] := rfl
@[simp] theorem flush_cur : p.flush.cur = [] := rfl

theorem close_cur : p.close.cur = [] := by
  unfold close
  split
  · assumption
  · rfl

theorem prep_full : p.prep.full = p.full := by
  unfold prep
  split <;> rfl

@[simp] theorem prep_lastVersion : p.prep.lastVersion = p.lastVersion := by
  unfold prep
  split <;> rfl

@[simp] theorem prep_lastIno : p.prep.lastIno = p.lastIno := by
  unfold prep
  split <;> rfl

theorem prep_cur_ne_nil : p.prep.cur ≠ [] := by
  unfold prep
  split
  · exact List.cons_ne_nil _ _
  · assumption

theorem used_of_nil (h : p.cur = []) : p.used = 0 := by
  unfold used
  rw [h]
  rfl

theorem used_append (p : Pack) (node : Bytes) :
    used { p with cur := p.cur ++ [node] } = p.used + PAD node.length := by
  unfold used
  rw [front_append, List.length_append]
  congr 1
  rw [front_cons, List.length_append, padded_length]
  rfl

theorem prep_used_of_nil (h : p.cur = []) : p.prep.used = 12 := by
  unfold prep
  rw [if_pos h]
  rfl

theorem prep_of_ne_nil (h : p.cur ≠ []) : p.prep = p := if_neg h

end

/-!
## Blocks that a reader takes
-/

structure Block (erasesize : Nat) (nodes : List Bytes) : Prop where
  marked : nodes.head? = some CLEANMARKER
  fits : (front nodes).length ≤ erasesize
  nodes : forall raw, raw ∈ nodes -> Node raw

structure Sound (erasesize : Nat) (p : Pack) : Prop where
  full : forall nodes, nodes ∈ p.full -> Block erasesize nodes
  cur : p.cur ≠ [] -> Block erasesize p.cur
  room : p.used < erasesize

section

variable {erasesize : Nat} {p : Pack}

theorem Block.append {nodes : List Bytes} {node : Bytes} (h : Block erasesize nodes)
    (hnode : Node node) (hfit : (front nodes).length + PAD node.length ≤ erasesize) :
    Block erasesize (nodes ++ [node]) where
  marked := by rw [List.head?_append, h.marked]; rfl
  fits := by
    rw [front_append, List.length_append, front_cons, List.length_append, padded_length]
    exact hfit
  nodes := by
    intro raw hraw
    rcases List.mem_append.mp hraw with hraw | hraw
    · exact h.nodes raw hraw
    · rw [List.mem_singleton.mp hraw]
      exact hnode

theorem block_cleanmarker (hE : 12 ≤ erasesize) : Block erasesize [CLEANMARKER] where
  marked := rfl
  fits := hE
  nodes := by
    intro raw hraw
    exact .cleanmarker (List.mem_singleton.mp hraw)

theorem Sound.used_pos (h : Sound erasesize p) (hne : p.cur ≠ []) : 0 < p.used := by
  have hmem := List.mem_of_mem_head? (h.cur hne).marked
  have hlen := length_le_front hmem
  have hmarker : 12 ≤ (front p.cur).length := hlen
  exact Nat.lt_of_lt_of_le (by decide) hmarker

theorem Sound.flush (h : Sound erasesize p) (hcur : Block erasesize p.cur) :
    Sound erasesize p.flush where
  full := by
    intro nodes hnodes
    rcases List.mem_append.mp hnodes with hnodes | hnodes
    · exact h.full nodes hnodes
    · rw [List.mem_singleton.mp hnodes]
      exact hcur
  cur := fun hne => absurd flush_cur hne
  room := by
    rw [used_of_nil flush_cur]
    exact Nat.lt_of_le_of_lt (Nat.zero_le _) h.room

theorem Sound.close (h : Sound erasesize p) : Sound erasesize p.close := by
  unfold Pack.close
  split
  · exact h
  · exact h.flush (h.cur ‹_›)

theorem Sound.prep (h : Sound erasesize p) (hE : 12 < erasesize) : Sound erasesize p.prep := by
  unfold Pack.prep
  split
  · exact ⟨h.full, fun _ => block_cleanmarker (Nat.le_of_lt hE), hE⟩
  · exact h

theorem Sound.put (h : Sound erasesize p) (hne : p.cur ≠ []) {node : Bytes} (hnode : Node node)
    (hfit : p.used + PAD node.length ≤ erasesize) : Sound erasesize (p.put erasesize node) := by
  have hblock : Block erasesize (p.cur ++ [node]) := (h.cur hne).append hnode hfit
  unfold Pack.put
  dsimp only
  rw [used_append]
  split
  · refine ⟨?_, fun hne => absurd flush_cur hne, ?_⟩
    · intro nodes hnodes
      rcases List.mem_append.mp hnodes with hnodes | hnodes
      · exact h.full nodes hnodes
      · rw [List.mem_singleton.mp hnodes]
        exact hblock
    · rw [used_of_nil flush_cur]
      exact Nat.lt_of_le_of_lt (Nat.zero_le _) h.room
  · refine ⟨h.full, fun _ => hblock, ?_⟩
    rw [used_append]
    exact Nat.lt_of_le_of_ne hfit ‹_›

theorem put_of_lt {node : Bytes} (h : p.used + PAD node.length < erasesize) :
    p.put erasesize node = { p with cur := p.cur ++ [node] } := by
  unfold Pack.put
  dsimp only
  rw [used_append, if_neg (Nat.ne_of_lt h)]

theorem addDirent_of_lt {name : Bytes} {type parent : Nat}
    (hfit : p.prep.used + PAD (40 + name.length) < erasesize) :
    p.addDirent erasesize name type parent =
      { p.prep with
        cur := p.prep.cur ++ [rawDirent parent p.lastVersion p.ino type name]
        lastIno := p.lastIno + 2
        lastVersion := p.lastVersion + 1 } := by
  rw [<- rawDirent_length parent p.lastVersion p.ino type name] at hfit
  exact put_of_lt (p := { p.prep with
    lastIno := p.lastIno + 2, lastVersion := p.lastVersion + 1 }) hfit

theorem addDirent_used {name : Bytes} (type parent : Nat)
    (hfit : p.prep.used + PAD (40 + name.length) < erasesize) :
    (p.addDirent erasesize name type parent).used =
      p.prep.used + PAD (40 + name.length) := by
  rw [addDirent_of_lt hfit, <- rawDirent_length parent p.lastVersion p.ino type name]
  exact used_append p.prep _

theorem addDirent_cur {name : Bytes} (type parent : Nat)
    (hfit : p.prep.used + PAD (40 + name.length) < erasesize) :
    (p.addDirent erasesize name type parent).cur ≠ [] := by
  rw [addDirent_of_lt hfit]
  exact List.append_ne_nil_of_right_ne_nil _ (List.cons_ne_nil _ _)

theorem Sound.addDirent (h : Sound erasesize p) (hE : 12 < erasesize) {name : Bytes}
    (type parent : Nat) (hname : name.length ≤ 255)
    (hfit : p.prep.used + PAD (40 + name.length) < erasesize) :
    Sound erasesize (p.addDirent erasesize name type parent) := by
  have hprep := h.prep hE
  have hput := Sound.put (p := { p.prep with
      lastIno := p.lastIno + 2, lastVersion := p.lastVersion + 1 })
    ⟨hprep.full, hprep.cur, hprep.room⟩ prep_cur_ne_nil
    (.dirent (good_dirent parent p.lastVersion p.ino type hname))
  rw [rawDirent_length] at hput
  exact hput (Nat.le_of_lt hfit)

theorem addDir_of_lt {name : Bytes} {parent : Nat}
    (hfit : p.prep.used + PAD (40 + name.length) + 68 < erasesize) :
    p.addDir erasesize name parent =
      (p.addDirent erasesize name 4 parent).put erasesize
        (inodeNode p.ino 1 ⟨0o40755, 0, 0, 0, 0⟩ 0 []) := by
  have hfit' : p.prep.used + PAD (40 + name.length) < erasesize := by lia
  have hused := addDirent_used 4 parent hfit'
  unfold Pack.addDir
  dsimp only
  rw [if_neg (by lia), prep_of_ne_nil (addDirent_cur 4 parent hfit')]

theorem addDir_used {name : Bytes} {parent : Nat}
    (hfit : p.prep.used + PAD (40 + name.length) + 68 < erasesize) :
    (p.addDir erasesize name parent).used = p.prep.used + PAD (40 + name.length) + 68 := by
  have hfit' : p.prep.used + PAD (40 + name.length) < erasesize := by lia
  have hused := addDirent_used 4 parent hfit'
  rw [addDir_of_lt hfit, put_of_lt (by rw [hused, inodeNode_length]; exact hfit), used_append,
    hused, inodeNode_length]
  rfl

theorem addDir_cur {name : Bytes} {parent : Nat}
    (hfit : p.prep.used + PAD (40 + name.length) + 68 < erasesize) :
    (p.addDir erasesize name parent).cur ≠ [] := by
  have hfit' : p.prep.used + PAD (40 + name.length) < erasesize := by lia
  have hused := addDirent_used 4 parent hfit'
  rw [addDir_of_lt hfit, put_of_lt (by rw [hused, inodeNode_length]; exact hfit)]
  exact List.append_ne_nil_of_right_ne_nil _ (List.cons_ne_nil _ _)

theorem Sound.addDir (h : Sound erasesize p) (hE : 12 < erasesize) {name : Bytes}
    (parent : Nat) (hname : name.length ≤ 255)
    (hfit : p.prep.used + PAD (40 + name.length) + 68 < erasesize) :
    Sound erasesize (p.addDir erasesize name parent) := by
  have hfit' : p.prep.used + PAD (40 + name.length) < erasesize := by lia
  have hused := addDirent_used 4 parent hfit'
  rw [addDir_of_lt hfit]
  refine (h.addDirent hE 4 parent hname hfit').put (addDirent_cur 4 parent hfit')
    (.inode (good_inode _ _ _ _ (Nat.zero_le 4096))) ?_
  rw [hused, inodeNode_length]
  exact Nat.le_of_lt hfit

/-!
## Room
-/

theorem makeRoom_spec (hE : 4096 ≤ erasesize) (h : Sound erasesize p) (hne : p.cur ≠ []) :
    Sound erasesize (p.makeRoom erasesize) ∧ (p.makeRoom erasesize).cur ≠ [] ∧
      196 < erasesize - (p.makeRoom erasesize).used := by
  unfold Pack.makeRoom
  split
  case isTrue hroom => exact ⟨h, hne, hroom⟩
  case isFalse hroom =>
    refine ⟨h.close.prep (by lia), prep_cur_ne_nil, ?_⟩
    rw [prep_used_of_nil close_cur]
    lia

theorem chunk_length_le (rest : Bytes) : (p.chunk erasesize rest).length ≤ 4096 := by
  unfold Pack.chunk
  rw [List.length_take]
  omega

theorem chunk_fits (h4 : 4 ∣ erasesize) (hroom : 196 < erasesize - p.used) (rest : Bytes) :
    p.used + PAD (68 + (p.chunk erasesize rest).length) ≤ erasesize := by
  have haligned := front_aligned p.cur
  have hlen : (p.chunk erasesize rest).length ≤ erasesize - p.used - 68 := by
    unfold Pack.chunk
    rw [List.length_take]
    omega
  unfold Pack.used at *
  unfold PAD
  omega

theorem chunk_eq_nil_iff (hroom : 196 < erasesize - p.used) (rest : Bytes) :
    p.chunk erasesize rest = [] <-> rest = [] := by
  unfold Pack.chunk
  rw [List.take_eq_nil_iff]
  refine ⟨fun h => h.resolve_left ?_, Or.inr⟩
  omega

theorem Sound.addData (h : Sound erasesize p) (hne : p.cur ≠ []) (h4 : 4 ∣ erasesize)
    (hroom : 196 < erasesize - p.used) (inode : Nat) (st : Stat) (offset : Nat)
    (rest : Bytes) :
    Sound erasesize (p.addData erasesize inode st offset (p.chunk erasesize rest)) := by
  refine Sound.put (p := { p with lastVersion := p.lastVersion + 1 })
    ⟨h.full, h.cur, h.room⟩ hne (.inode (good_inode _ _ _ _ (chunk_length_le rest))) ?_
  rw [inodeNode_length]
  exact chunk_fits h4 hroom rest

theorem Sound.fileLoop (h4 : 4 ∣ erasesize) (hE : 4096 ≤ erasesize) (h : Sound erasesize p)
    (hne : p.cur ≠ []) (inode : Nat) (st : Stat) (fuel offset : Nat) (rest : Bytes) :
    Sound erasesize (fileLoop erasesize inode st fuel offset rest p) := by
  induction fuel generalizing p offset rest with
  | zero => exact h
  | succ fuel ih =>
      rcases makeRoom_spec hE h hne with ⟨hsound, hcur, hroom⟩
      unfold Pack.fileLoop
      dsimp only
      split
      · exact hsound
      · exact ih ((hsound.addData hcur h4 hroom inode st offset rest).prep (by lia))
          prep_cur_ne_nil _ _

end

/-!
## The data of a file
-/

def contents (nodes : List Bytes) : List (Nat × Bytes) :=
  nodes.filterMap fun raw => inodeData (0, raw)

def place (mem : Nat -> UInt8) (data : List (Nat × Bytes)) : Nat -> UInt8 :=
  data.foldl (fun mem d => overwrite mem d.1 d.2) mem

def data (p : Pack) : List (Nat × Bytes) := contents (p.full.flatten ++ p.cur)

section

variable {erasesize : Nat} {p : Pack}

theorem contents_none {raw : Bytes} (h : inodeData (0, raw) = none) : contents [raw] = [] :=
  List.filterMap_cons_none h

theorem contents_some {raw : Bytes} {d : Nat × Bytes} (h : inodeData (0, raw) = some d) :
    contents [raw] = [d] :=
  List.filterMap_cons_some h

theorem data_flush : p.flush.data = p.data := by
  unfold data
  rw [flush_full, flush_cur, List.flatten_append, List.append_nil]
  simp only [List.flatten_cons, List.flatten_nil, List.append_nil]

theorem data_close : p.close.data = p.data := by
  unfold close
  split
  · rfl
  · exact data_flush

theorem data_append (p : Pack) (node : Bytes) :
    data { p with cur := p.cur ++ [node] } = p.data ++ contents [node] := by
  unfold data contents
  rw [<- List.append_assoc, List.filterMap_append]

theorem data_prep : p.prep.data = p.data := by
  unfold prep
  split
  case isTrue h =>
    have happend := data_append p CLEANMARKER
    rw [h, contents_none (inodeData_cleanmarker 0), List.append_nil] at happend
    exact happend
  case isFalse => rfl

theorem data_put (p : Pack) (node : Bytes) :
    (p.put erasesize node).data = p.data ++ contents [node] := by
  rw [<- data_append]
  unfold put
  dsimp only
  split
  · exact data_flush
  · rfl

theorem data_addDirent (name : Bytes) (type parent : Nat) :
    (p.addDirent erasesize name type parent).data = p.data := by
  unfold addDirent
  rw [data_put, contents_none (inodeData_dirent 0 _ _ _ _ _), List.append_nil]
  exact data_prep

theorem data_addData {offset : Nat} (hoffset : offset < 2 ^ 32) (inode : Nat) (st : Stat)
    (data : Bytes) :
    (p.addData erasesize inode st offset data).data = p.data ++ [(offset, data)] := by
  unfold addData
  rw [data_put, contents_some (inodeData_inode inode _ st offset 0 hoffset)]
  rfl

theorem data_makeRoom : (p.makeRoom erasesize).data = p.data := by
  unfold makeRoom
  split
  · rfl
  · rw [data_prep, data_close]

theorem place_append (mem : Nat -> UInt8) (xs ys : List (Nat × Bytes)) :
    place mem (xs ++ ys) = place (place mem xs) ys :=
  List.foldl_append

theorem place_fileLoop (h4 : 4 ∣ erasesize) (hE : 4096 ≤ erasesize) (h : Sound erasesize p)
    (hne : p.cur ≠ []) (inode : Nat) (st : Stat) {fuel offset : Nat} {rest : Bytes}
    (hfuel : rest.length < fuel) (hoffset : offset + rest.length < 2 ^ 32)
    (mem : Nat -> UInt8) :
    place mem (fileLoop erasesize inode st fuel offset rest p).data =
      overwrite (place mem p.data) offset rest := by
  induction fuel generalizing p offset rest with
  | zero => cases hfuel
  | succ fuel ih =>
      rcases makeRoom_spec hE h hne with ⟨hsound, hcur, hroom⟩
      unfold Pack.fileLoop
      dsimp only
      by_cases hnil : (p.makeRoom erasesize).chunk erasesize rest = []
      · rw [if_pos hnil, (chunk_eq_nil_iff hroom rest).mp hnil, overwrite_nil, data_makeRoom]
      · generalize hchunk : (p.makeRoom erasesize).chunk erasesize rest = wbuf at hnil
        have hpos := List.length_pos_iff.mpr hnil
        have hsplit : wbuf ++ rest.drop wbuf.length = rest := by
          rw [<- hchunk]
          exact List.prefix_iff_eq_append.mp (List.take_prefix _ rest)
        have hlen := congrArg List.length hsplit
        rw [List.length_append] at hlen
        have hnext := (hsound.addData hcur h4 hroom inode st offset rest).prep (by lia)
        rw [hchunk] at hnext
        rw [if_neg hnil, ih hnext prep_cur_ne_nil (by lia) (by lia), data_prep,
          data_addData (by lia), place_append, data_makeRoom]
        show overwrite (overwrite (place mem p.data) offset wbuf) _ _ = _
        rw [overwrite_append, hsplit]

theorem place_addDir (mem : Nat -> UInt8) {name : Bytes} {parent : Nat}
    (hfit : p.prep.used + PAD (40 + name.length) + 68 < erasesize) :
    place mem (p.addDir erasesize name parent).data = place mem p.data := by
  rw [addDir_of_lt hfit, data_put, data_addDirent, place_append,
    contents_some (inodeData_inode _ 1 _ 0 0 (by decide))]
  exact overwrite_nil _ 0

/-!
## Growth
-/

theorem full_le_close (p : Pack) : p.full.length ≤ p.close.full.length := by
  unfold close
  split
  · exact Nat.le_refl _
  · rw [flush_full, List.length_append]
    exact Nat.le_add_right _ _

theorem full_le_put (p : Pack) (node : Bytes) :
    p.full.length ≤ (p.put erasesize node).full.length := by
  unfold put
  dsimp only
  split
  · rw [flush_full, List.length_append]
    exact Nat.le_add_right _ _
  · exact Nat.le_refl _

theorem full_le_addDirent (p : Pack) (name : Bytes) (type parent : Nat) :
    p.full.length ≤ (p.addDirent erasesize name type parent).full.length := by
  refine Nat.le_trans ?_ (full_le_put _ _)
  exact Nat.le_of_eq (congrArg List.length prep_full.symm)

theorem full_le_addData (p : Pack) (inode : Nat) (st : Stat) (offset : Nat) (data : Bytes) :
    p.full.length ≤ (p.addData erasesize inode st offset data).full.length :=
  full_le_put { p with lastVersion := p.lastVersion + 1 } _

theorem full_le_makeRoom (erasesize : Nat) (p : Pack) :
    p.full.length ≤ (p.makeRoom erasesize).full.length := by
  unfold makeRoom
  split
  · exact Nat.le_refl _
  · rw [prep_full]
    exact full_le_close p

theorem full_le_fileLoop (inode : Nat) (st : Stat) (fuel offset : Nat) (rest : Bytes)
    (p : Pack) :
    p.full.length ≤ (fileLoop erasesize inode st fuel offset rest p).full.length := by
  induction fuel generalizing p offset rest with
  | zero => exact Nat.le_refl _
  | succ fuel ih =>
      unfold fileLoop
      dsimp only
      have hroom := full_le_makeRoom erasesize p
      split
      · exact hroom
      · refine Nat.le_trans hroom (Nat.le_trans ?_ (ih _ _ _))
        rw [prep_full]
        exact full_le_addData _ _ _ _ _

theorem full_le_addFile (file : File) (parent : Nat) (p : Pack) :
    p.full.length ≤ (p.addFile erasesize file parent).full.length :=
  Nat.le_trans (full_le_addDirent p _ _ _) (full_le_fileLoop _ _ _ _ _ _)

theorem full_le_finish (p : Pack) : p.full.length ≤ p.finish.full.length := by
  refine Nat.le_trans (full_le_close p) ?_
  show _ ≤ (p.close.full ++ [[JFFS2_EOF]]).length
  rw [List.length_append]
  exact Nat.le_add_right _ _

def size (erasesize : Nat) (p : Pack) : Nat := p.full.length * erasesize + p.used

theorem size_flush (p : Pack) : p.flush.size erasesize = p.full.length * erasesize + erasesize := by
  unfold size
  rw [flush_full, List.length_append, used_of_nil flush_cur]
  exact Nat.succ_mul _ _

theorem size_put (p : Pack) (node : Bytes) :
    (p.put erasesize node).size erasesize = p.size erasesize + PAD node.length := by
  unfold put
  dsimp only
  rw [used_append]
  split
  case isTrue h =>
    rw [size_flush]
    unfold size
    dsimp only
    lia
  case isFalse =>
    unfold size
    rw [used_append]
    exact (Nat.add_assoc _ _ _).symm

theorem size_prep (erasesize : Nat) (p : Pack) : p.size erasesize ≤ p.prep.size erasesize := by
  unfold size
  rw [prep_full]
  by_cases hnil : p.cur = []
  · rw [used_of_nil hnil]
    exact Nat.add_le_add_left (Nat.zero_le _) _
  · exact Nat.le_of_eq (by rw [prep_of_ne_nil hnil])

theorem size_addData (erasesize : Nat) (p : Pack) (inode : Nat) (st : Stat) (offset : Nat)
    (data : Bytes) :
    (p.addData erasesize inode st offset data).size erasesize =
      p.size erasesize + PAD (68 + data.length) := by
  rw [<- inodeNode_length inode (p.lastVersion + 1) st offset data]
  exact size_put { p with lastVersion := p.lastVersion + 1 } _

theorem size_close (h : p.used ≤ erasesize) : p.size erasesize ≤ p.close.size erasesize := by
  unfold close
  split
  · exact Nat.le_refl _
  · rw [size_flush]
    exact Nat.add_le_add_left h _

theorem size_makeRoom (h : p.used ≤ erasesize) :
    p.size erasesize ≤ (p.makeRoom erasesize).size erasesize := by
  unfold makeRoom
  split
  · exact Nat.le_refl _
  · exact Nat.le_trans (size_close h) (size_prep _ _)

theorem size_fileLoop (h4 : 4 ∣ erasesize) (hE : 4096 ≤ erasesize) (h : Sound erasesize p)
    (hne : p.cur ≠ []) (inode : Nat) (st : Stat) {fuel : Nat} (offset : Nat) {rest : Bytes}
    (hfuel : rest.length < fuel) :
    p.size erasesize + rest.length ≤
      (fileLoop erasesize inode st fuel offset rest p).size erasesize := by
  induction fuel generalizing p offset rest with
  | zero => cases hfuel
  | succ fuel ih =>
      rcases makeRoom_spec hE h hne with ⟨hsound, hcur, hroom⟩
      have hmade := size_makeRoom (Nat.le_of_lt h.room)
      unfold Pack.fileLoop
      dsimp only
      generalize p.makeRoom erasesize = q at *
      by_cases hnil : q.chunk erasesize rest = []
      · rw [if_pos hnil, (chunk_eq_nil_iff hroom rest).mp hnil]
        exact hmade
      · have hnext := (hsound.addData hcur h4 hroom inode st offset rest).prep (by omega)
        have hpos := List.length_pos_iff.mpr hnil
        have hle : (q.chunk erasesize rest).length ≤ rest.length := List.length_take_le' _ _
        rw [if_neg hnil]
        generalize q.chunk erasesize rest = wbuf at *
        have hput := size_addData erasesize q inode st offset wbuf
        have hpad := le_PAD (68 + wbuf.length)
        have hprep := size_prep erasesize (q.addData erasesize inode st offset wbuf)
        have hrest : (rest.drop wbuf.length).length = rest.length - wbuf.length :=
          List.length_drop
        have hfuel' : (rest.drop wbuf.length).length < fuel := by omega
        have hrec := ih hnext prep_cur_ne_nil (offset + wbuf.length) hfuel'
        omega

/-!
## Whole files
-/

structure Packed (erasesize : Nat) (content : Bytes) (full : List (List Bytes)) : Prop where
  split : full = full.dropLast ++ [[JFFS2_EOF]]
  blocks : forall nodes, nodes ∈ full.dropLast -> Block erasesize nodes
  data : forall mem, place mem (contents full.dropLast.flatten) = overwrite mem 0 content

theorem Sound.addFile (h4 : 4 ∣ erasesize) (hE : 4096 ≤ erasesize) (h : Sound erasesize p)
    {file : File} (parent : Nat) (hname : file.fname.length ≤ 255)
    (hfit : p.prep.used + PAD (40 + file.fname.length) < erasesize) :
    Sound erasesize (p.addFile erasesize file parent) :=
  (h.addDirent (by lia) 8 parent hname hfit).fileLoop h4 hE (addDirent_cur 8 parent hfit) _ _ _ _ _

theorem place_addFile (h4 : 4 ∣ erasesize) (hE : 4096 ≤ erasesize) (h : Sound erasesize p)
    {file : File} {parent : Nat} (hname : file.fname.length ≤ 255)
    (hfit : p.prep.used + PAD (40 + file.fname.length) < erasesize)
    (hlen : file.content.length < 2 ^ 32) (mem : Nat -> UInt8) :
    place mem (p.addFile erasesize file parent).data =
      overwrite (place mem p.data) 0 file.content := by
  have hloop := place_fileLoop h4 hE (h.addDirent (by lia) 8 parent hname hfit)
    (addDirent_cur 8 parent hfit) p.ino file.stat
    (Nat.lt_succ_self file.content.length) 
    (show 0 + file.content.length < 2 ^ 32 by rwa [Nat.zero_add]) mem
  rw [data_addDirent] at hloop
  exact hloop

theorem size_addFile (h4 : 4 ∣ erasesize) (hE : 4096 ≤ erasesize) (h : Sound erasesize p)
    {file : File} {parent : Nat} (hname : file.fname.length ≤ 255)
    (hfit : p.prep.used + PAD (40 + file.fname.length) < erasesize) :
    file.content.length ≤ (p.addFile erasesize file parent).size erasesize :=
  Nat.le_trans (Nat.le_add_left _ _)
    (size_fileLoop h4 hE (h.addDirent (by lia) 8 parent hname hfit)
      (addDirent_cur 8 parent hfit) p.ino file.stat 0
      (Nat.lt_succ_self file.content.length))

theorem finish_full (p : Pack) : p.finish.full = p.close.full ++ [[JFFS2_EOF]] := rfl

theorem finish_dropLast (p : Pack) : p.finish.full.dropLast = p.close.full := by
  rw [finish_full, List.dropLast_concat]

theorem packed_finish (h : Sound erasesize p) {content : Bytes}
    (hdata : forall mem, place mem p.data = overwrite mem 0 content) :
    Packed erasesize content p.finish.full where
  split := by rw [finish_dropLast, finish_full]
  blocks := by
    rw [finish_dropLast]
    exact h.close.full
  data := by
    intro mem
    have hclose : contents p.close.full.flatten = p.data := by
      rw [<- data_close]
      unfold Pack.data
      rw [close_cur, List.append_nil]
    rw [finish_dropLast, hclose, hdata]

theorem size_finish (h : Sound erasesize p) :
    p.size erasesize ≤ p.finish.full.length * erasesize := by
  have hclose : p.close.size erasesize = p.close.full.length * erasesize := by
    unfold size
    rw [used_of_nil close_cur, Nat.add_zero]
  rw [finish_full, List.length_append]
  refine Nat.le_trans (size_close (Nat.le_of_lt h.room)) ?_
  rw [hclose]
  exact Nat.mul_le_mul_right _ (Nat.le_add_right _ _)

end

def start (lastIno lastVersion : Nat) : Pack :=
  ⟨[], [], if lastIno = 0 then 1 else lastIno, lastVersion⟩

def replaceJffs2 (erasesize : Nat) (file : File) (p : Pack) : Pack :=
  finish (p.addFile erasesize file 1)

def writeJffs2 (erasesize targetIno : Nat) (dir : Bytes) (file : File) (p : Pack) : Pack :=
  finish (if targetIno = 0 then (p.addDir erasesize dir 1).addFile erasesize file p.ino
    else p.addFile erasesize file targetIno)

section

variable {erasesize : Nat}

theorem sound_start (hE : 0 < erasesize) (lastIno lastVersion : Nat) :
    Sound erasesize (start lastIno lastVersion) where
  full := fun _ h => absurd h List.not_mem_nil
  cur := fun h => absurd rfl h
  room := hE

theorem PAD_le {n m : Nat} (h : n ≤ m) : PAD n ≤ m + 3 := by
  unfold PAD
  omega

theorem fits_start {name : Bytes} (hname : name.length ≤ 255) (lastIno lastVersion : Nat) :
    (start lastIno lastVersion).prep.used + PAD (40 + name.length) + 68 ≤ 378 := by
  have hpad := PAD_le (Nat.add_le_add_left hname 40)
  rw [prep_used_of_nil rfl]
  omega

theorem fits_addDir (hE : 4096 ≤ erasesize) {dir name : Bytes} (hdir : dir.length ≤ 255)
    (hname : name.length ≤ 255) (lastIno lastVersion : Nat) :
    ((start lastIno lastVersion).addDir erasesize dir 1).prep.used +
      PAD (40 + name.length) < erasesize := by
  have hfit := fits_start hdir lastIno lastVersion
  have hpad := PAD_le (Nat.add_le_add_left hname 40)
  have hroom := Nat.lt_of_le_of_lt hfit (Nat.lt_of_lt_of_le (by decide : 378 < 4096) hE)
  rw [prep_of_ne_nil (addDir_cur hroom), addDir_used hroom]
  omega

theorem packed_replaceJffs2 (h4 : 4 ∣ erasesize) (hE : 4096 ≤ erasesize) {file : File}
    (hname : file.fname.length ≤ 255) (lastIno lastVersion : Nat) :
    let full := ((start lastIno lastVersion).replaceJffs2 erasesize file).full
    file.content.length ≤ full.length * erasesize ∧
      (file.content.length < 2 ^ 32 -> Packed erasesize file.content full) := by
  have hstart := sound_start (by omega : 0 < erasesize) lastIno lastVersion
  have hfit := fits_start hname lastIno lastVersion
  have hroom : (start lastIno lastVersion).prep.used + PAD (40 + file.fname.length) <
      erasesize := by omega
  have hsound := hstart.addFile h4 hE 1 hname hroom
  refine ⟨?_, fun hlen => packed_finish hsound fun mem => ?_⟩
  · exact Nat.le_trans (size_addFile h4 hE hstart hname hroom) (size_finish hsound)
  · exact place_addFile h4 hE hstart hname hroom hlen mem

theorem packed_writeJffs2 (h4 : 4 ∣ erasesize) (hE : 4096 ≤ erasesize) {dir : Bytes}
    {file : File} (hdir : dir.length ≤ 255) (hname : file.fname.length ≤ 255)
    (targetIno lastIno lastVersion : Nat) :
    let full := ((start lastIno lastVersion).writeJffs2 erasesize targetIno dir file).full
    file.content.length ≤ full.length * erasesize ∧
      (file.content.length < 2 ^ 32 -> Packed erasesize file.content full) := by
  have hstart := sound_start (by omega : 0 < erasesize) lastIno lastVersion
  unfold writeJffs2
  split
  case isTrue =>
    have hfit := fits_start hdir lastIno lastVersion
    have hroom : (start lastIno lastVersion).prep.used + PAD (40 + dir.length) + 68 <
        erasesize := by omega
    have hroom' := fits_addDir hE hdir hname lastIno lastVersion
    have hadded := hstart.addDir (by omega) 1 hdir hroom
    have hsound := hadded.addFile h4 hE (start lastIno lastVersion).ino hname hroom'
    refine ⟨?_, fun hlen => packed_finish hsound fun mem => ?_⟩
    · exact Nat.le_trans (size_addFile h4 hE hadded hname hroom') (size_finish hsound)
    · rw [place_addFile h4 hE hadded hname hroom' hlen mem, place_addDir mem hroom]
      rfl
  case isFalse =>
    have hfit := fits_start hname lastIno lastVersion
    have hroom : (start lastIno lastVersion).prep.used + PAD (40 + file.fname.length) <
        erasesize := by omega
    have hsound := hstart.addFile h4 hE targetIno hname hroom
    refine ⟨?_, fun hlen => packed_finish hsound fun mem => ?_⟩
    · exact Nat.le_trans (size_addFile h4 hE hstart hname hroom) (size_finish hsound)
    · exact place_addFile h4 hE hstart hname hroom hlen mem

end

end Pack

end Jffs2
end Mtd
end Hlk7621
