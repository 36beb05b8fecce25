import Hlk7621.Lib.Runs
import Hlk7621.Mtd.Jffs2Layout

/-!
# Scanning a JFFS2 block

`mtd_parse_jffs2data` goes from node to node through an erase block and takes the inode
of the directory `dir` and the largest numbers from the directory entries.  Every read of
the block is compared with its end.

The scan takes the length of a node and of a name from the block.  It ends in the block if
the nodes lead it to no place twice and what it looks at of each of them lies in the
block.  A name is compared up to its own length only, so that a beginning of `dir` is taken
for `dir`.
-/

namespace Hlk7621
namespace Mtd
namespace Jffs2

variable (buf dir : Bytes)

/-!
## The scan
-/

def pad32 (x : Nat) : Nat := u32 (x + 3) / 4 * 4

structure Numbers where
  targetIno : Nat
  lastIno : Nat
  lastVersion : Nat
  deriving DecidableEq

def readField (ofs len : Nat) : Option Nat :=
  if ofs + len ≤ buf.length then some (field buf ofs len) else none

/-- `!strncmp(name, dir, n)` with the name at `p` in the block. -/
def strncmpIn : Bytes -> Nat -> Nat -> Option Bool
  | _, 0, _ => some true
  | dir, n + 1, p =>
      match readField buf p 1 with
      | none => none
      | some c =>
          if c ≠ (dir.headD 0).toNat then some false
          else if c = 0 then some true
          else strncmpIn dir.tail n (p + 1)

/-- `target_ino` behind a directory entry. -/
def targetOf (ofs target : Nat) : Option Nat :=
  if dir = [] then some target
  else
    match readField buf (ofs + 12) 4 with
    | none => none
    | some pino =>
        if pino ≠ 1 then some target
        else
          match readField buf (ofs + 28) 1 with
          | none => none
          | some nsize =>
              match strncmpIn buf dir nsize (ofs + 40) with
              | none => none
              | some false => some target
              | some true => readField buf (ofs + 20) 4

def parseDirent (ofs : Nat) (s : Numbers) : Option Numbers :=
  match targetOf buf dir ofs s.targetIno, readField buf (ofs + 20) 4,
      readField buf (ofs + 16) 4 with
  | some target, some ino, some version =>
      some
        { targetIno := target
          lastIno := if s.lastIno < ino then ino else s.lastIno
          lastVersion := if s.lastVersion < version then version else s.lastVersion }
  | _, _, _ => none

inductive Outcome where
  | running
  | outside
  | done (s : Numbers)
  deriving DecidableEq

/-- The loop of `mtd_parse_jffs2data`; the first argument bounds its iterations. -/
def parse : Nat -> Nat -> Numbers -> Outcome
  | 0, _, _ => .running
  | fuel + 1, ofs, s =>
      if ofs < buf.length then
        match readField buf ofs 2 with
        | none => .outside
        | some magic =>
            if magic ≠ JFFS2_MAGIC_BITMASK then .done s
            else
              match readField buf (ofs + 4) 4, readField buf (ofs + 2) 2 with
              | some totlen, some nodetype =>
                  let next := u32 (ofs + pad32 totlen)
                  if nodetype = JFFS2_NODETYPE_DIRENT then
                    match parseDirent buf dir ofs s with
                    | none => .outside
                    | some s => parse fuel next s
                  else parse fuel next s
              | _, _ => .outside
      else .done s

def mtdParseJffs2data (fuel : Nat) (s : Numbers) : Outcome := parse buf dir fuel 0 s

/-!
## The nodes on the way
-/

def IsNode (ofs : Nat) : Prop := ofs < buf.length ∧ field buf ofs 2 = JFFS2_MAGIC_BITMASK

instance (ofs : Nat) : Decidable (IsNode buf ofs) := inferInstanceAs (Decidable (_ ∧ _))

def nextOfs (ofs : Nat) : Nat := u32 (ofs + pad32 (field buf (ofs + 4) 4))

/-- The place of node number `n` if the nodes before it are followed by their `totlen`. -/
def ofsAt (n : Nat) : Nat := (nextOfs buf)^[n] 0

def Visited (n : Nat) : Prop := forall k, k ≤ n -> IsNode buf (ofsAt buf k)

/-- The number of bytes of a name at `p` that `strncmp` looks at. -/
def compared : Bytes -> Nat -> Nat -> Nat
  | _, 0, _ => 0
  | dir, n + 1, p =>
      if field buf p 1 ≠ (dir.headD 0).toNat ∨ field buf p 1 = 0 then 1
      else compared dir.tail n (p + 1) + 1

/-- What is read of a node lies in the block: its header, of a directory entry its
numbers, and of an entry of the root the part of its name that is compared. -/
structure NodeInside (ofs : Nat) : Prop where
  header : ofs + 8 ≤ buf.length
  dirent : field buf (ofs + 2) 2 = JFFS2_NODETYPE_DIRENT -> ofs + 24 ≤ buf.length
  nsize : field buf (ofs + 2) 2 = JFFS2_NODETYPE_DIRENT -> dir ≠ [] ->
    field buf (ofs + 12) 4 = 1 -> ofs + 28 + 1 ≤ buf.length
  name : field buf (ofs + 2) 2 = JFFS2_NODETYPE_DIRENT -> dir ≠ [] ->
    field buf (ofs + 12) 4 = 1 -> 0 < field buf (ofs + 28) 1 ->
      ofs + 40 + compared buf dir (field buf (ofs + 28) 1) (ofs + 40) ≤ buf.length

def NoRepeat : Prop :=
  forall i j, i < j -> Visited buf j -> ofsAt buf i ≠ ofsAt buf j

/-- What the scan reads lies in the block: of every node that it comes to, and the magic
number where it comes to no node. -/
structure ScanInside : Prop where
  node : forall n, Visited buf n -> NodeInside buf dir (ofsAt buf n)
  magic : forall n, (forall k, k < n -> IsNode buf (ofsAt buf k)) ->
    ofsAt buf n < buf.length -> ofsAt buf n + 2 ≤ buf.length

def sameName : Bytes -> Nat -> Nat -> Bool
  | _, 0, _ => true
  | dir, n + 1, p =>
      if field buf p 1 ≠ (dir.headD 0).toNat then false
      else if field buf p 1 = 0 then true
      else sameName dir.tail n (p + 1)

def behindNode (ofs : Nat) (s : Numbers) : Numbers :=
  if field buf (ofs + 2) 2 = JFFS2_NODETYPE_DIRENT then
    { targetIno :=
        if dir ≠ [] ∧ field buf (ofs + 12) 4 = 1 ∧
            sameName buf dir (field buf (ofs + 28) 1) (ofs + 40) = true then
          field buf (ofs + 20) 4
        else s.targetIno
      lastIno := max s.lastIno (field buf (ofs + 20) 4)
      lastVersion := max s.lastVersion (field buf (ofs + 16) 4) }
  else s

def numbersAt (s : Numbers) : Nat -> Numbers
  | 0 => s
  | n + 1 => behindNode buf dir (ofsAt buf n) (numbersAt s n)

/-!
## Blocks of well-formed nodes
-/

structure WellFormedNode (raw : Bytes) : Prop where
  long : 12 ≤ raw.length
  magic : field raw 0 2 = JFFS2_MAGIC_BITMASK
  totlen : field raw 4 4 = raw.length
  nsize : field raw 2 2 = JFFS2_NODETYPE_DIRENT -> 40 + field raw 28 1 = raw.length
  name : field raw 2 2 = JFFS2_NODETYPE_DIRENT -> raw.drop 40 ≠ [] ∧ 0 ∉ raw.drop 40

/-- A block of nodes, each with its padding, and behind them something without the magic
number. -/
inductive Block : List Bytes -> Bytes -> Prop where
  | rest {rest : Bytes} (magic : field rest 0 2 ≠ JFFS2_MAGIC_BITMASK) : Block [] rest
  | node {raw padding rest : Bytes} {nodes : List Bytes} (good : WellFormedNode raw)
      (padded : raw.length + padding.length = PAD raw.length) (more : Block nodes rest) :
      Block (raw :: nodes) (raw ++ (padding ++ rest))

def lastEntry (good : Bytes -> Bool) (nodes : List Bytes) : Option Nat :=
  (nodes.filter fun raw =>
    field raw 2 2 = JFFS2_NODETYPE_DIRENT && field raw 12 4 = 1 && good (raw.drop 40)).getLast?.map
      fun raw => field raw 20 4

def maxField (ofs : Nat) (m : Nat) (nodes : List Bytes) : Nat :=
  (nodes.filter fun raw => field raw 2 2 = JFFS2_NODETYPE_DIRENT).foldl
    (fun m raw => max m (field raw ofs 4)) m

/-- What a block of these nodes says if the directory is the last entry of the root with
such a name. -/
def foundBy (good : Bytes -> Bool) (nodes : List Bytes) (s : Numbers) : Numbers where
  targetIno := (lastEntry good nodes).getD s.targetIno
  lastIno := maxField 20 s.lastIno nodes
  lastVersion := maxField 16 s.lastVersion nodes

/-!
## One node
-/

variable {buf dir}

theorem readField_inside {ofs len : Nat} (h : ofs + len ≤ buf.length) :
    readField buf ofs len = some (field buf ofs len) :=
  if_pos h

theorem readField_outside {ofs len : Nat} (h : ¬ ofs + len ≤ buf.length) :
    readField buf ofs len = none :=
  if_neg h

theorem compared_pos {n : Nat} (hn : 0 < n) (p : Nat) : 0 < compared buf dir n p := by
  cases n with
  | zero => cases hn
  | succ n =>
      rw [compared]
      split
      · exact Nat.one_pos
      · exact Nat.succ_pos _

theorem strncmpIn_inside {n p : Nat} (h : p + compared buf dir n p ≤ buf.length) :
    strncmpIn buf dir n p = some (sameName buf dir n p) := by
  induction n generalizing dir p with
  | zero => rfl
  | succ n ih =>
      have hpos : 0 < compared buf dir (n + 1) p := compared_pos (Nat.succ_pos n) p
      rw [strncmpIn, sameName, readField_inside (by lia)]
      dsimp only
      by_cases hdiffers : field buf p 1 ≠ (dir.headD 0).toNat
      · rw [if_pos hdiffers, if_pos hdiffers]
      · rw [if_neg hdiffers, if_neg hdiffers]
        by_cases hend : field buf p 1 = 0
        · rw [if_pos hend, if_pos hend]
        · rw [if_neg hend, if_neg hend]
          rw [compared, if_neg (fun hor => hor.elim hdiffers hend)] at h
          exact ih (by lia)

theorem strncmpIn_outside {n p : Nat} (hn : 0 < n)
    (h : ¬ p + compared buf dir n p ≤ buf.length) : strncmpIn buf dir n p = none := by
  induction n generalizing dir p with
  | zero => cases hn
  | succ n ih =>
      rw [strncmpIn]
      by_cases hinside : p + 1 ≤ buf.length
      · rw [readField_inside hinside]
        dsimp only
        rw [compared] at h
        by_cases hstop : field buf p 1 ≠ (dir.headD 0).toNat ∨ field buf p 1 = 0
        · rw [if_pos hstop] at h
          exact absurd hinside h
        · rw [if_neg hstop] at h
          rw [if_neg (fun hne => hstop (Or.inl hne)), if_neg (fun hz => hstop (Or.inr hz))]
          cases n with
          | zero => 
              rw [compared] at h
              exact absurd hinside h
          | succ n => exact ih (Nat.succ_pos n) (by lia)
      · rw [readField_outside hinside]

theorem targetOf_inside {ofs target : Nat} (hin : NodeInside buf dir ofs)
    (hdirent : field buf (ofs + 2) 2 = JFFS2_NODETYPE_DIRENT) :
    targetOf buf dir ofs target =
      some (if dir ≠ [] ∧ field buf (ofs + 12) 4 = 1 ∧
          sameName buf dir (field buf (ofs + 28) 1) (ofs + 40) = true then
        field buf (ofs + 20) 4
      else target) := by
  have hlong := hin.dirent hdirent
  unfold targetOf
  by_cases hdir : dir = []
  · rw [if_pos hdir, if_neg (fun h => h.left hdir)]
  rw [if_neg hdir, readField_inside (by lia)]
  dsimp only
  by_cases hpino : field buf (ofs + 12) 4 = 1
  · rw [if_neg (not_not_intro hpino), readField_inside (hin.nsize hdirent hdir hpino)]
    dsimp only
    have hname : strncmpIn buf dir (field buf (ofs + 28) 1) (ofs + 40) =
        some (sameName buf dir (field buf (ofs + 28) 1) (ofs + 40)) := by
      rcases Nat.eq_zero_or_pos (field buf (ofs + 28) 1) with hzero | hpos
      · rw [hzero]
        rfl
      · exact strncmpIn_inside (hin.name hdirent hdir hpino hpos)
    rw [hname]
    cases hsame : sameName buf dir (field buf (ofs + 28) 1) (ofs + 40) with
    | false =>
        rw [if_neg (fun h => Bool.noConfusion h.right.right)]
    | true =>
        rw [if_pos ⟨hdir, hpino, rfl⟩]
        exact readField_inside (by lia)
  · rw [if_pos hpino, if_neg (fun h => hpino h.right.left)]

theorem parseDirent_inside {ofs : Nat} {s : Numbers} (hin : NodeInside buf dir ofs)
    (hdirent : field buf (ofs + 2) 2 = JFFS2_NODETYPE_DIRENT) :
    parseDirent buf dir ofs s = some (behindNode buf dir ofs s) := by
  have hlong := hin.dirent hdirent
  unfold parseDirent behindNode
  rw [targetOf_inside hin hdirent, readField_inside (by lia), readField_inside (by lia),
    if_pos hdirent]
  dsimp only
  rw [Nat.max_def, Nat.max_def]
  congr 2
  · split <;> split <;> lia
  · split <;> split <;> lia

/-- A directory entry that is not in the block is found out before its numbers are
complete. -/
theorem parseDirent_outside {ofs : Nat} {s : Numbers} (hheader : ofs + 8 ≤ buf.length)
    (hout : ¬ NodeInside buf dir ofs) : parseDirent buf dir ofs s = none := by
  unfold parseDirent
  by_cases hlong : ofs + 24 ≤ buf.length
  · have htarget : targetOf buf dir ofs s.targetIno = none := by
      unfold targetOf
      by_cases hdir : dir = []
      · exact absurd ⟨hheader, fun _ => hlong, fun _ h => absurd hdir h,
          fun _ h => absurd hdir h⟩ hout
      rw [if_neg hdir, readField_inside (by lia)]
      dsimp only
      by_cases hpino : field buf (ofs + 12) 4 = 1
      · rw [if_neg (not_not_intro hpino)]
        by_cases hsize : ofs + 28 + 1 ≤ buf.length
        · rw [readField_inside hsize]
          dsimp only
          by_cases hname : 0 < field buf (ofs + 28) 1 ∧
              ¬ ofs + 40 + compared buf dir (field buf (ofs + 28) 1) (ofs + 40) ≤ buf.length
          · rw [strncmpIn_outside hname.left hname.right]
          · refine absurd ⟨hheader, fun _ => hlong, fun _ _ _ => hsize, ?_⟩ hout
            intro _ _ _ hpos
            by_contra hpast
            exact hname ⟨hpos, hpast⟩
        · rw [readField_outside hsize]
      · exact absurd ⟨hheader, fun _ => hlong, fun _ _ h => absurd h hpino,
          fun _ _ h => absurd h hpino⟩ hout
    rw [htarget]
  · rw [readField_outside (show ¬ ofs + 20 + 4 ≤ buf.length by lia)]
    cases targetOf buf dir ofs s.targetIno <;> rfl

/-!
## One step of the loop
-/

theorem IsNode.magic_inside {ofs : Nat} (h : IsNode buf ofs) : ofs + 2 ≤ buf.length := by
  by_contra hout
  have hlt := leNat_lt ((buf.drop ofs).take 2)
  have hlen : ((buf.drop ofs).take 2).length ≤ 1 := by
    rw [List.length_take, List.length_drop]
    lia
  have hpow : 256 ^ ((buf.drop ofs).take 2).length ≤ 256 ^ 1 :=
    Nat.pow_le_pow_right (by decide) hlen
  have hmagic : leNat ((buf.drop ofs).take 2) = 0x1985 := h.right
  lia

theorem parse_end {fuel ofs : Nat} {s : Numbers} (hnode : ¬ IsNode buf ofs)
    (hin : ofs < buf.length -> ofs + 2 ≤ buf.length) :
    parse buf dir (fuel + 1) ofs s = .done s := by
  rw [parse]
  split
  case isTrue hlt =>
    rw [readField_inside (hin hlt)]
    dsimp only
    rw [if_pos (fun hmagic => hnode ⟨hlt, hmagic⟩)]
  case isFalse => rfl

theorem parse_end_outside {fuel ofs : Nat} {s : Numbers} (hlt : ofs < buf.length)
    (hout : ¬ ofs + 2 ≤ buf.length) : parse buf dir (fuel + 1) ofs s = .outside := by
  rw [parse, if_pos hlt, readField_outside hout]

theorem parse_node {fuel ofs : Nat} {s : Numbers} (hnode : IsNode buf ofs)
    (hin : NodeInside buf dir ofs) :
    parse buf dir (fuel + 1) ofs s =
      parse buf dir fuel (nextOfs buf ofs) (behindNode buf dir ofs s) := by
  have hheader := hin.header
  rw [parse, if_pos hnode.left, readField_inside hnode.magic_inside]
  dsimp only
  rw [if_neg (not_not_intro hnode.right), readField_inside (by lia), readField_inside (by lia)]
  dsimp only
  split
  case isTrue hdirent =>
    rw [parseDirent_inside hin hdirent]
    rfl
  case isFalse hother =>
    rw [behindNode, if_neg hother]
    rfl

theorem parse_node_outside {fuel ofs : Nat} {s : Numbers} (hnode : IsNode buf ofs)
    (hout : ¬ NodeInside buf dir ofs) : parse buf dir (fuel + 1) ofs s = .outside := by
  rw [parse, if_pos hnode.left, readField_inside hnode.magic_inside]
  dsimp only
  rw [if_neg (not_not_intro hnode.right)]
  by_cases hheader : ofs + 8 ≤ buf.length
  · rw [readField_inside (by lia), readField_inside (by lia)]
    dsimp only
    split
    case isTrue => rw [parseDirent_outside hheader hout]
    case isFalse hother =>
      exact absurd ⟨hheader, fun h => absurd h hother, fun h => absurd h hother,
        fun h => absurd h hother⟩ hout
  · rw [readField_outside (show ¬ ofs + 4 + 4 ≤ buf.length by lia)]

/-!
## Whole scans
-/

variable (buf dir) in
theorem ofsAt_succ (n : Nat) : ofsAt buf (n + 1) = nextOfs buf (ofsAt buf n) :=
  Function.iterate_succ_apply' _ _ _

theorem parse_run {n : Nat} (s : Numbers)
    (hnodes : forall k, k < n -> IsNode buf (ofsAt buf k) ∧ NodeInside buf dir (ofsAt buf k))
    (fuel : Nat) :
    mtdParseJffs2data buf dir (n + fuel) s =
      parse buf dir fuel (ofsAt buf n) (numbersAt buf dir s n) := by
  induction n generalizing fuel with
  | zero =>
      rw [Nat.zero_add]
      rfl
  | succ n ih =>
      have hlast := hnodes n (Nat.lt_succ_self n)
      rw [Nat.add_assoc, Nat.add_comm 1 fuel, ih (fun k hk => hnodes k (by lia)),
        parse_node hlast.left hlast.right, <- ofsAt_succ]
      rfl

structure EndsAt (buf dir : Bytes) (n : Nat) : Prop where
  nodes : forall k, k < n -> IsNode buf (ofsAt buf k) ∧ NodeInside buf dir (ofsAt buf k)
  last : ¬ IsNode buf (ofsAt buf n)
  magic : ofsAt buf n < buf.length -> ofsAt buf n + 2 ≤ buf.length

theorem EndsAt.unique {m n : Nat} (hm : EndsAt buf dir m) (hn : EndsAt buf dir n) : m = n := by
  rcases Nat.lt_trichotomy m n with hlt | heq | hlt
  · exact absurd (hn.nodes m hlt).left hm.last
  · exact heq
  · exact absurd (hm.nodes n hlt).left hn.last

theorem EndsAt.done {n : Nat} (h : EndsAt buf dir n) (s : Numbers) :
    mtdParseJffs2data buf dir (n + 1) s = .done (numbersAt buf dir s n) := by
  rw [parse_run s h.nodes, parse_end h.last h.magic]

theorem ends_of_done {s s' : Numbers} {fuel n : Nat}
    (hnodes : forall k, k < n -> IsNode buf (ofsAt buf k) ∧ NodeInside buf dir (ofsAt buf k))
    (hdone : parse buf dir fuel (ofsAt buf n) (numbersAt buf dir s n) = .done s') :
    exists m, EndsAt buf dir m ∧ s' = numbersAt buf dir s m := by
  induction fuel generalizing n with
  | zero => cases hdone
  | succ fuel ih =>
      by_cases hnode : IsNode buf (ofsAt buf n)
      · by_cases hin : NodeInside buf dir (ofsAt buf n)
        · rw [parse_node hnode hin, <- ofsAt_succ] at hdone
          refine ih (n := n + 1) (fun k hk => ?_) hdone
          rcases Nat.lt_or_eq_of_le (Nat.le_of_lt_succ hk) with hlt | heq
          · exact hnodes k hlt
          · rw [heq]
            exact ⟨hnode, hin⟩
        · rw [parse_node_outside hnode hin] at hdone
          cases hdone
      · by_cases hmagic : ofsAt buf n < buf.length -> ofsAt buf n + 2 ≤ buf.length
        · rw [parse_end hnode hmagic] at hdone
          cases hdone
          exact ⟨n, ⟨hnodes, hnode, hmagic⟩, rfl⟩
        · push Not at hmagic
          rw [parse_end_outside hmagic.left (by lia)] at hdone
          cases hdone

theorem done_iff {s s' : Numbers} :
    (exists fuel, mtdParseJffs2data buf dir fuel s = .done s') <->
      exists n, EndsAt buf dir n ∧ s' = numbersAt buf dir s n := by
  constructor
  · rintro ⟨fuel, hdone⟩
    exact ends_of_done (n := 0) (fun k hk => absurd hk (Nat.not_lt_zero k)) hdone
  · rintro ⟨n, hends, rfl⟩
    exact ⟨n + 1, hends.done s⟩

variable (buf) in
theorem isNode_finite : {ofs | IsNode buf ofs}.Finite :=
  (Set.finite_lt_nat buf.length).subset fun _ h => h.left

theorem endsAt_iff :
    (exists n, EndsAt buf dir n) <-> NoRepeat buf ∧ ScanInside buf dir := by
  have hleaves : (exists n, ¬ IsNode buf (ofsAt buf n)) <-> NoRepeat buf :=
    Runs.iterate_leaves_iff (isNode_finite buf) 0
  constructor
  · rintro ⟨m, hends⟩
    refine ⟨hleaves.mp ⟨m, hends.last⟩, ⟨?_, ?_⟩⟩
    · intro n hvisited
      have hbefore : n < m := by
        by_contra hge
        exact hends.last (hvisited m (by lia))
      exact (hends.nodes n hbefore).right
    · intro n hbefore
      rcases Nat.lt_trichotomy n m with hlt | heq | hgt
      · exact fun _ => (hends.nodes n hlt).left.magic_inside
      · rw [heq]
        exact hends.magic
      · exact absurd (hbefore m hgt) hends.last
  · rintro ⟨hrepeat, hinside⟩
    have hend := hleaves.mpr hrepeat
    have hnodes : forall k, k < Nat.find hend -> IsNode buf (ofsAt buf k) := by
      intro k hk
      by_contra hnode
      exact Nat.find_min hend hk hnode
    refine ⟨Nat.find hend, ?_, Nat.find_spec hend, hinside.magic _ hnodes⟩
    intro k hk
    exact ⟨hnodes k hk, hinside.node k fun i hi => hnodes i (Nat.lt_of_le_of_lt hi hk)⟩

/-!
## Well-formed blocks
-/

theorem field_behind (front b : Bytes) (ofs len : Nat) :
    field (front ++ b) (front.length + ofs) len = field b ofs len := by
  unfold field
  rw [<- List.drop_drop, List.drop_left]

theorem field_node {front raw : Bytes} (rest : Bytes) {ofs len : Nat}
    (h : ofs + len ≤ raw.length) :
    field (front ++ (raw ++ rest)) (front.length + ofs) len = field raw ofs len := by
  rw [field_behind, field_append h]

/-- The comparison of a name without NUL finds out whether it is the beginning of
`dir`. -/
theorem sameName_iff {front name rest : Bytes} (hname : 0 ∉ name) :
    sameName (front ++ (name ++ rest)) dir name.length front.length = true <-> name <+: dir := by
  induction name generalizing dir front with
  | nil => exact iff_of_true rfl List.nil_prefix
  | cons c name ih =>
      have hc : c ≠ 0 := fun h => hname (h ▸ List.mem_cons_self)
      have hbyte : field (front ++ (c :: name ++ rest)) front.length 1 = c.toNat := by
        rw [<- Nat.add_zero front.length, field_behind]
        rfl
      have hnonzero : c.toNat ≠ 0 := fun h => hc (UInt8.toNat_inj.mp h)
      have hnext : sameName (front ++ (c :: name ++ rest)) dir.tail name.length
          (front.length + 1) = true <-> name <+: dir.tail := by
        have hrest : sameName (front ++ [c] ++ (name ++ rest)) dir.tail name.length
            (front ++ [c]).length = true <-> name <+: dir.tail :=
          ih fun h => hname (List.mem_cons_of_mem c h)
        rwa [List.append_assoc, List.length_append] at hrest
      rw [List.length_cons, sameName, hbyte]
      cases dir with
      | nil =>
          rw [if_pos (by exact hnonzero)]
          simp
      | cons d dir =>
          by_cases hd : c = d
          · rw [if_neg (not_not_intro (by rw [hd]; rfl)), if_neg hnonzero, hnext, hd,
              List.prefix_cons_inj]
            rfl
          · have hdiffers : c.toNat ≠ ((d :: dir).headD 0).toNat := fun h =>
              hd (UInt8.toNat_inj.mp h)
            rw [if_pos hdiffers, List.cons_prefix_cons]
            simp [hd]

theorem lastEntry_cons (good : Bytes -> Bool) (raw : Bytes) (nodes : List Bytes) (target : Nat) :
    (lastEntry good (raw :: nodes)).getD target =
      (lastEntry good nodes).getD
        (if field raw 2 2 = JFFS2_NODETYPE_DIRENT ∧ field raw 12 4 = 1 ∧
            good (raw.drop 40) = true then
          field raw 20 4
        else target) := by
  unfold lastEntry
  rw [List.filter_cons]
  by_cases hraw : field raw 2 2 = JFFS2_NODETYPE_DIRENT ∧ field raw 12 4 = 1 ∧
      good (raw.drop 40) = true
  · rw [if_pos (by simp [hraw]), if_pos hraw, List.getLast?_cons]
    cases (nodes.filter fun raw =>
      field raw 2 2 = JFFS2_NODETYPE_DIRENT && field raw 12 4 = 1 &&
        good (raw.drop 40)).getLast? <;>
      rfl
  · rw [if_neg hraw, if_neg]
    rw [Bool.and_eq_true, Bool.and_eq_true, decide_eq_true_eq, decide_eq_true_eq, and_assoc]
    exact hraw

theorem maxField_cons (ofs m : Nat) (raw : Bytes) (nodes : List Bytes) :
    maxField ofs m (raw :: nodes) =
      maxField ofs
        (if field raw 2 2 = JFFS2_NODETYPE_DIRENT then max m (field raw ofs 4) else m) nodes := by
  unfold maxField
  rw [List.filter_cons]
  by_cases hraw : field raw 2 2 = JFFS2_NODETYPE_DIRENT
  · rw [if_pos (decide_eq_true hraw), if_pos hraw]
    rfl
  · rw [if_neg (by simp [hraw]), if_neg hraw]

theorem behindNode_wellFormed {front raw : Bytes} (hraw : WellFormedNode raw) (rest : Bytes)
    (nodes : List Bytes) (s : Numbers) :
    foundBy (· <+: dir) nodes (behindNode (front ++ (raw ++ rest)) dir front.length s) =
      foundBy (· <+: dir) (raw :: nodes) s := by
  have hlong := hraw.long
  unfold foundBy
  rw [lastEntry_cons, maxField_cons, maxField_cons]
  unfold behindNode
  rw [field_node rest (show 2 + 2 ≤ raw.length by lia)]
  by_cases hdirent : field raw 2 2 = JFFS2_NODETYPE_DIRENT
  · have hsize := hraw.nsize hdirent
    have hname := hraw.name hdirent
    have hpast : 40 < raw.length := by
      by_contra hle
      exact hname.left (List.drop_eq_nil_of_le (by lia))
    have hlater : forall ofs len, ofs + len ≤ 40 ->
        field (front ++ (raw ++ rest)) (front.length + ofs) len = field raw ofs len :=
      fun ofs len h => field_node rest (by lia)
    have hsame :
        sameName (front ++ (raw ++ rest)) dir (field raw 28 1) (front.length + 40) = true <->
        raw.drop 40 <+: dir := by
      have hrest : sameName (front ++ raw.take 40 ++ (raw.drop 40 ++ rest)) dir
          (raw.drop 40).length (front ++ raw.take 40).length = true <-> raw.drop 40 <+: dir :=
        sameName_iff hname.right
      have hbytes : front ++ raw.take 40 ++ (raw.drop 40 ++ rest) = front ++ (raw ++ rest) := by
        rw [List.append_assoc, <- List.append_assoc (raw.take 40), List.take_append_drop]
      rw [hbytes, List.length_append, List.length_take, List.length_drop,
        Nat.min_eq_left (Nat.le_of_lt hpast)] at hrest
      rwa [show field raw 28 1 = raw.length - 40 by lia]
    have htarget : dir ≠ [] ∧ field (front ++ (raw ++ rest)) (front.length + 12) 4 = 1 ∧
        sameName (front ++ (raw ++ rest)) dir (field (front ++ (raw ++ rest)) (front.length + 28) 1)
          (front.length + 40) = true <->
        field raw 2 2 = JFFS2_NODETYPE_DIRENT ∧ field raw 12 4 = 1 ∧
          decide (raw.drop 40 <+: dir) = true := by
      rw [hlater 12 4 (by lia), hlater 28 1 (by lia), hsame]
      constructor
      · rintro ⟨_, hpino, hbegins⟩
        exact ⟨hdirent, hpino, decide_eq_true hbegins⟩
      · rintro ⟨_, hpino, hbegins⟩
        refine ⟨?_, hpino, of_decide_eq_true hbegins⟩
        rintro rfl
        exact hname.left (List.prefix_nil.mp (of_decide_eq_true hbegins))
    rw [if_pos hdirent, if_pos hdirent, if_pos hdirent, if_congr htarget rfl rfl,
      hlater 16 4 (by lia), hlater 20 4 (by lia)]
  · rw [if_neg hdirent, if_neg hdirent, if_neg hdirent, if_neg (fun h => hdirent h.left)]

theorem Block.numbers {nodes : List Bytes} {b : Bytes} (h : Block nodes b) {m : Nat}
    (hends : EndsAt buf dir m) (hlen : buf.length < 2 ^ 32) (s : Numbers) {front : Bytes} {n : Nat}
    (hbuf : buf = front ++ b) (hofs : ofsAt buf n = front.length) (hn : n ≤ m) :
    numbersAt buf dir s m = foundBy (· <+: dir) nodes (numbersAt buf dir s n) := by
  induction h generalizing front n with
  | rest magic =>
      have hlast : n = m := by
        by_contra hne
        have hnode := (hends.nodes n (by lia)).left.right
        rw [hofs, hbuf, <- Nat.add_zero front.length, field_behind] at hnode
        exact magic hnode
      rw [hlast]
      rfl
  | @node raw padding rest nodes good padded more ih =>
      have hlong := good.long
      have hbytes : buf.length = front.length + (PAD raw.length + rest.length) := by
        rw [hbuf, List.length_append, List.length_append, List.length_append, <- padded]
        lia
      have hmagic : IsNode buf front.length := by
        refine ⟨by unfold PAD at hbytes; lia, ?_⟩
        rw [hbuf, <- Nat.add_zero front.length, field_node (padding ++ rest) (by lia)]
        exact good.magic
      have hbefore : n ≠ m := by
        rintro rfl
        exact hends.last (hofs ▸ hmagic)
      have htotlen : field buf (front.length + 4) 4 = raw.length := by
        rw [hbuf, field_node (padding ++ rest) (by lia)]
        exact good.totlen
      have hnext : ofsAt buf (n + 1) = (front ++ (raw ++ padding)).length := by
        rw [ofsAt_succ, hofs, nextOfs, htotlen, List.length_append, List.length_append, padded]
        unfold pad32 PAD at *
        rw [u32_of_lt (show raw.length + 3 < 2 ^ 32 by lia), u32_of_lt (by lia)]
      rw [ih (by rw [hbuf]; simp only [List.append_assoc]) hnext (by lia)]
      rw [numbersAt, hofs, hbuf, behindNode_wellFormed good]

theorem mtdParseJffs2data_iff (hlen : buf.length < 2 ^ 32) (s : Numbers) :
    (exists fuel s', mtdParseJffs2data buf dir fuel s = .done s' ∧
        forall nodes, Block nodes buf -> s' = foundBy (· = dir) nodes s) <->
      NoRepeat buf ∧ ScanInside buf dir ∧
        forall nodes, Block nodes buf ->
          (lastEntry (· <+: dir) nodes).getD s.targetIno =
            (lastEntry (· = dir) nodes).getD s.targetIno := by
  constructor
  · rintro ⟨fuel, s', hdone, hcorrect⟩
    rcases done_iff.mp ⟨fuel, hdone⟩ with ⟨m, hends, rfl⟩
    have hsafe := endsAt_iff.mp ⟨m, hends⟩
    refine ⟨hsafe.left, hsafe.right, ?_⟩
    intro nodes hblock
    have hfound := hblock.numbers hends hlen s (List.nil_append buf).symm rfl (Nat.zero_le m)
    exact congrArg Numbers.targetIno (hfound.symm.trans (hcorrect nodes hblock))
  · rintro ⟨hrepeat, hinside, hnames⟩
    rcases endsAt_iff.mpr ⟨hrepeat, hinside⟩ with ⟨m, hends⟩
    refine ⟨m + 1, _, hends.done s, ?_⟩
    intro nodes hblock
    rw [hblock.numbers hends hlen s (List.nil_append buf).symm rfl (Nat.zero_le m)]
    unfold foundBy
    rw [numbersAt, hnames nodes hblock]

theorem Block.wellFormed {nodes : List Bytes} {b : Bytes} (h : Block nodes b) :
    forall raw, raw ∈ nodes -> WellFormedNode raw := by
  induction h with
  | rest => exact fun _ h => absurd h List.not_mem_nil
  | node good _ _ ih => exact List.forall_mem_cons.mpr ⟨good, ih⟩

theorem lastEntry_one {nodes : List Bytes} (h : forall raw, raw ∈ nodes -> WellFormedNode raw)
    (c : UInt8) : lastEntry (· <+: [c]) nodes = lastEntry (· = [c]) nodes := by
  unfold lastEntry
  congr 2
  apply List.filter_congr
  intro raw hraw
  by_cases hdirent : field raw 2 2 = JFFS2_NODETYPE_DIRENT
  · have hname := ((h raw hraw).name hdirent).left
    congr 1
    apply decide_eq_decide.mpr
    constructor
    · intro hbegins
      refine hbegins.eq_of_length (Nat.le_antisymm hbegins.length_le ?_)
      exact List.length_pos_of_ne_nil hname
    · intro heq
      rw [heq]
  · simp [hdirent]

def oneEntry : Bytes :=
  [0x85, 0x19, 0x01, 0xe0, 41, 0, 0, 0, 0x6d, 0xa6, 0x2f, 0xd7, 1, 0, 0, 0, 2, 0, 0, 0,
    5, 0, 0, 0, 0, 0, 0, 0, 1, 4, 0, 0, 0x8c, 0xa6, 0xd1, 0xc5, 0xce, 0x51, 0xb5, 0x3a,
    97, 0xff, 0xff, 0xff]

theorem oneEntry_scanned :
    exists fuel s', mtdParseJffs2data oneEntry [97] fuel ⟨0, 0, 0⟩ = .done s' ∧
      forall nodes, Block nodes oneEntry -> s' = foundBy (· = [97]) nodes ⟨0, 0, 0⟩ := by
  have hend : ¬ IsNode oneEntry (ofsAt oneEntry 1) := by decide +kernel
  have hfirst : forall n, Visited oneEntry n -> n = 0 := by
    intro n hvisited
    by_contra hne
    exact hend (hvisited 1 (by lia))
  refine (mtdParseJffs2data_iff (by decide +kernel) ⟨0, 0, 0⟩).mpr ⟨?_, ⟨?_, ?_⟩, ?_⟩
  · intro i j hij hvisited
    have hj := hfirst j hvisited
    lia
  · intro n hvisited
    rw [hfirst n hvisited]
    exact ⟨by decide +kernel, fun _ => by decide +kernel, fun _ _ _ => by decide +kernel,
      fun _ _ _ _ => by decide +kernel⟩
  · intro n hbefore hlt
    match n with
    | 0 => decide +kernel
    | 1 => exact absurd hlt (by decide +kernel)
    | n + 2 => exact absurd (hbefore 1 (by lia)) hend
  · intro nodes hblock
    rw [lastEntry_one hblock.wellFormed]

def emptyNode : Bytes := [0x85, 0x19, 0x03, 0x20, 0, 0, 0, 0] ++ List.replicate 65528 0xff

theorem emptyNode_running (fuel : Nat) (s : Numbers) :
    mtdParseJffs2data emptyNode dir fuel s = .running := by
  have hlength : emptyNode.length = 65536 := by
    unfold emptyNode
    rw [List.length_append, List.length_replicate]
    rfl
  have hfield : forall ofs len, ofs + len ≤ 8 -> field emptyNode ofs len =
      field [0x85, 0x19, 0x03, 0x20, 0, 0, 0, 0] ofs len :=
    fun ofs len h => field_append h _
  have hother : ¬ field emptyNode (0 + 2) 2 = JFFS2_NODETYPE_DIRENT := by
    rw [hfield 2 2 (by decide)]
    decide
  have hpos : 0 < emptyNode.length := by
    rw [hlength]
    decide
  have hmagic : field emptyNode 0 2 = JFFS2_MAGIC_BITMASK := by
    rw [hfield 0 2 (by decide)]
    decide
  have hnode : IsNode emptyNode 0 := ⟨hpos, hmagic⟩
  have hinside : NodeInside emptyNode dir 0 :=
    ⟨by lia, fun h => absurd h hother, fun h => absurd h hother, fun h => absurd h hother⟩
  have hstays : nextOfs emptyNode 0 = 0 := by
    unfold nextOfs
    rw [hfield 4 4 (by decide)]
    decide +kernel
  induction fuel with
  | zero => rfl
  | succ fuel ih =>
      rw [mtdParseJffs2data, parse_node hnode hinside, hstays, behindNode, if_neg hother]
      exact ih

theorem emptyNode_stuck :
    ¬ exists fuel s', mtdParseJffs2data emptyNode [] fuel ⟨0, 0, 0⟩ = .done s' ∧
      forall nodes, Block nodes emptyNode -> s' = foundBy (· = []) nodes ⟨0, 0, 0⟩ := by
  rintro ⟨fuel, s', hdone, _⟩
  rw [emptyNode_running] at hdone
  cases hdone

end Jffs2
end Mtd
end Hlk7621
