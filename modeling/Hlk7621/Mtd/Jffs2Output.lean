import Hlk7621.Mtd.Jffs2Pack

/-!
# The JFFS2 generator against the packed blocks

The generator writes the blocks of `Pack` to the good blocks of the device, and it does
so without leaving the buffer: each function takes a state that holds a `Pack` to one
that holds the next.
-/

namespace Hlk7621
namespace Mtd
namespace Jffs2

/-!
## The device
-/

/-- The status of each block is known, and good blocks are erased and written. -/
structure Working (erasesize : Nat) (d : Tool.Device) : Prop where
  status : forall a, a + erasesize ≤ d.size -> 0 ≤ d.blockIsBad erasesize a
  erase : forall a, a + erasesize ≤ d.size -> d.blockIsBad erasesize a = 0 ->
    d.eraseOk (a / erasesize) = true
  write : forall a, a + erasesize ≤ d.size -> d.blockIsBad erasesize a = 0 ->
    d.writeOk (a / erasesize) = true

def blockStatus (erasesize : Nat) (d : Tool.Device) (a : Nat) : Option Bool :=
  if d.blockIsBad erasesize a < 0 then none else some (decide (d.blockIsBad erasesize a ≠ 0))

def goodBlocks (erasesize : Nat) (d : Tool.Device) (n start : Nat) : List Nat :=
  GoodBlocks.good erasesize (blockStatus erasesize d) n start

section

variable {erasesize : Nat} {d : Tool.Device}

theorem goodBlocks_good {n start : Nat} (h : d.blockIsBad erasesize start = 0) :
    goodBlocks erasesize d (n + 1) start =
      start :: goodBlocks erasesize d n (start + erasesize) := by
  have hstatus : blockStatus erasesize d start = some false := by
    unfold blockStatus
    rw [h]
    rfl
  exact if_pos hstatus

theorem goodBlocks_bad {n start : Nat} (h : d.blockIsBad erasesize start ≠ 0) :
    goodBlocks erasesize d (n + 1) start = goodBlocks erasesize d n (start + erasesize) := by
  refine if_neg fun hstatus => h ?_
  unfold blockStatus at hstatus
  split at hstatus
  · cases hstatus
  · simpa using hstatus

theorem goodBlocks_length (n start : Nat) : (goodBlocks erasesize d n start).length ≤ n := by
  induction n generalizing start with
  | zero => exact Nat.le_refl 0
  | succ n ih =>
      by_cases h : d.blockIsBad erasesize start = 0
      · rw [goodBlocks_good h]
        exact Nat.succ_le_succ (ih _)
      · rw [goodBlocks_bad h]
        exact Nat.le_trans (ih _) (Nat.le_succ n)

theorem skipBad_spec (hE : 0 < erasesize) (hd : Working erasesize d) {s : Gen}
    (hdev : s.dev = { d with mem := s.dev.mem }) (hpos : s.pos = s.mtdofs) {n fuel b : Nat}
    {rest : List Nat} (hsize : s.mtdofs + n * erasesize = d.size)
    (hgood : goodBlocks erasesize d n s.mtdofs = b :: rest) (hfuel : n < fuel) :
    skipBad erasesize fuel s = .ok { s with mtdofs := b, pos := b } ∧ s.mtdofs ≤ b ∧
      d.blockIsBad erasesize b = 0 ∧ exists m, b + (m + 1) * erasesize = d.size ∧
        goodBlocks erasesize d m (b + erasesize) = rest := by
  induction n generalizing s fuel with
  | zero => cases hgood
  | succ n ih =>
      rcases fuel with _ | fuel
      · cases hfuel
      have hmul : (n + 1) * erasesize = n * erasesize + erasesize := Nat.succ_mul n erasesize
      have hbad : s.dev.blockIsBad erasesize s.mtdofs = d.blockIsBad erasesize s.mtdofs := by
        rw [hdev]
        rfl
      have hdevsize : s.dev.size = d.size := by rw [hdev]
      have hstatus := hd.status s.mtdofs (by omega)
      unfold skipBad
      dsimp only
      rw [hbad, if_neg (by omega)]
      by_cases h : d.blockIsBad erasesize s.mtdofs = 0
      · rw [goodBlocks_good h] at hgood
        cases hgood
        rw [if_neg (fun hne => hne.left h)]
        have hself := congrArg (fun pos => Except.ok (ε := Stop) { s with pos := pos }) hpos
        exact ⟨hself, Nat.le_refl _, h, n, hsize, rfl⟩
      · rw [goodBlocks_bad h] at hgood
        have hseek : s.dev.lseek s.pos (s.pos + erasesize) = s.mtdofs + erasesize := by
          unfold Tool.Device.lseek
          rw [if_pos (by omega), hpos]
        rw [if_pos ⟨h, by omega⟩, hseek]
        have hrec := ih
          (s := { s with mtdofs := s.mtdofs + erasesize, pos := s.mtdofs + erasesize })
          hdev rfl (by dsimp only; omega) hgood (Nat.lt_of_succ_lt_succ hfuel)
        refine ⟨hrec.left, ?_, hrec.right.right⟩
        exact Nat.le_trans (Nat.le_add_right _ _) hrec.right.left

end

/-!
## Blocks that are written
-/

section

variable {erasesize : Nat} {d : Tool.Device} {good : List Nat}

structure Flashed (erasesize : Nat) (d : Tool.Device) (good : List Nat) (s : Gen)
    (blocks : List Bytes) : Prop where
  dev : s.dev = { d with mem := s.dev.mem }
  written : s.written = good.take blocks.length
  data : s.written.map (fun a => window s.dev.mem a erasesize) = blocks
  below : forall a, a ∈ s.written -> a + erasesize ≤ s.mtdofs
  pos : s.pos = s.mtdofs
  rest : exists n, s.mtdofs + n * erasesize = d.size ∧
    goodBlocks erasesize d n s.mtdofs = good.drop blocks.length

theorem Flashed.buffer {s : Gen} {blocks : List Bytes} (h : Flashed erasesize d good s blocks)
    (buf : Bytes) (ofs lastIno lastVersion : Nat) :
    Flashed erasesize d good
      { s with buf := buf, ofs := ofs, lastIno := lastIno, lastVersion := lastVersion } blocks :=
  ⟨h.dev, h.written, h.data, h.below, h.pos, h.rest⟩

theorem writeBlock_spec (hE : 0 < erasesize) (hd : Working erasesize d) {s : Gen}
    {blocks : List Bytes} (h : Flashed erasesize d good s blocks)
    (hbuf : s.buf.length = erasesize) (hleft : blocks.length < good.length) :
    exists dev pos mtdofs written,
      writeBlock erasesize s =
        .ok { s with dev := dev, pos := pos, mtdofs := mtdofs, written := written } ∧
      Flashed erasesize d good
        { s with dev := dev, pos := pos, mtdofs := mtdofs, written := written }
        (blocks ++ [s.buf]) := by
  rcases h.rest with ⟨n, hsize, hgood⟩
  have hdrop : good.drop blocks.length = good[blocks.length] :: good.drop (blocks.length + 1) :=
    List.drop_eq_getElem_cons hleft
  rw [hdrop] at hgood
  have hsizes : s.dev.size = d.size := by rw [h.dev]
  have hn : n ≤ n * erasesize := Nat.le_mul_of_pos_right n hE
  have hfuel : n < s.dev.size + 1 := by omega
  rcases skipBad_spec hE hd h.dev h.pos hsize hgood hfuel with
    ⟨hskip, hge, hzero, m, hend, hrest⟩
  generalize hb : good[blocks.length] = b at *
  have hmul : (m + 1) * erasesize = m * erasesize + erasesize := Nat.succ_mul m erasesize
  have herase : s.dev.eraseBlock erasesize b =
      some { s.dev with mem := overwrite s.dev.mem b (List.replicate erasesize 0xff) } := by
    have hok : s.dev.eraseOk (b / erasesize) = true := by
      rw [h.dev]
      exact hd.erase b (by omega) hzero
    exact if_pos ⟨by omega, hok⟩
  have hwrite : forall mem, ({ s.dev with mem := mem } : Tool.Device).write erasesize b s.buf =
      ((erasesize : Int), { s.dev with mem := overwrite mem b s.buf }) := by
    intro mem
    have hok : s.dev.writeOk (b / erasesize) = true := by
      rw [h.dev]
      exact hd.write b (by omega) hzero
    have hall : s.buf.take (s.dev.size - b) = s.buf :=
      List.take_of_length_le (by omega)
    unfold Tool.Device.write
    dsimp only
    rw [if_pos ⟨by omega, hok⟩, hall, hbuf]
  refine ⟨{ s.dev with mem := overwrite (overwrite s.dev.mem b
    (List.replicate erasesize 0xff)) b s.buf }, b + erasesize, b + erasesize,
    s.written ++ [b], ?_, ?_⟩
  · unfold writeBlock
    rw [hskip]
    show Except.ok _ = _
    dsimp only
    rw [herase, Option.getD_some, hwrite]
    rfl
  · have hlen : (blocks ++ [s.buf]).length = blocks.length + 1 := List.length_append
    refine ⟨?_, ?_, ?_, ?_, rfl, m, ?_, ?_⟩
    · rw [h.dev]
    · rw [hlen, List.take_succ_eq_append_getElem hleft, hb, h.written]
    · rw [List.map_append, List.map_singleton]
      congr 1
      · rw [<- h.data]
        refine List.map_congr_left fun a ha => window_congr fun x _ hlt => ?_
        have hbelow := h.below a ha
        exact (overwrite_of_lt (by omega)).trans (overwrite_of_lt (by omega))
      · have hself := window_overwrite_self (overwrite s.dev.mem b
          (List.replicate erasesize 0xff)) b s.buf
        rw [hbuf] at hself
        exact congrArg (fun x => [x]) hself
    · intro a ha
      show a + erasesize ≤ b + erasesize
      rcases List.mem_append.mp ha with ha | ha
      · have hbelow := h.below a ha
        omega
      · exact Nat.le_of_eq (by rw [List.mem_singleton.mp ha])
    · show b + erasesize + m * erasesize = d.size
      omega
    · rw [hlen]
      exact hrest

/-!
## The buffer
-/

theorem splice_take {old data : Bytes} {off : Nat} (h : off + data.length ≤ old.length) :
    (splice old off data).take (off + data.length) = old.take off ++ data := by
  have hlen : old.length = (off + data.length) + (old.length - (off + data.length)) := by omega
  have hfront : window (fun i => old.getD i 0) 0 off = old.take off := by
    have htake : (old.take off).length = off := List.length_take_of_le (by omega)
    conv => lhs; rw [<- htake]
    rw [window_eq_iff]
    intro i hi
    rw [Nat.zero_add, List.getElem_take, List.getD_eq_getElem]
  have hover := window_overwrite_append (fun i => old.getD i 0) 0 off data
  rw [Nat.zero_add, hfront] at hover
  unfold splice
  rw [hlen, window_append, List.take_left' (window_length _ _ _), hover]

theorem image_length {nodes : List Bytes} (h : (front nodes).length ≤ erasesize) :
    (image erasesize nodes).length = erasesize := by
  unfold image
  rw [List.length_append, List.length_replicate]
  omega

/-- The state holds what is packed, and behind the nodes of the block the bytes of
`extra`. -/
structure Holds (erasesize : Nat) (d : Tool.Device) (good : List Nat) (p : Pack)
    (extra : Bytes) (s : Gen) : Prop where
  flashed : Flashed erasesize d good s (p.full.map (image erasesize))
  buf : s.buf.length = erasesize
  ofs : s.ofs = p.used + extra.length
  front : s.buf.take s.ofs = front p.cur ++ extra
  lastIno : s.lastIno = p.lastIno
  lastVersion : s.lastVersion = p.lastVersion

theorem Holds.number {p : Pack} {extra : Bytes} {s : Gen}
    (h : Holds erasesize d good p extra s) (lastIno lastVersion : Nat) :
    Holds erasesize d good { p with lastIno := lastIno, lastVersion := lastVersion } extra
      { s with lastIno := lastIno, lastVersion := lastVersion } :=
  ⟨h.flashed.buffer s.buf s.ofs lastIno lastVersion, h.buf, h.ofs, h.front, rfl, rfl⟩

theorem Holds.poke {p : Pack} {extra : Bytes} {s : Gen} (h : Holds erasesize d good p extra s)
    (data : Bytes) (hfit : s.ofs + data.length ≤ erasesize) :
    poke erasesize s.ofs data s = .ok { s with buf := splice s.buf s.ofs data } ∧
      Holds erasesize d good p (extra ++ data)
        { s with buf := splice s.buf s.ofs data, ofs := s.ofs + data.length } := by
  refine ⟨if_pos hfit, h.flashed.buffer _ _ _ _, ?_, ?_, ?_, h.lastIno, h.lastVersion⟩
  · exact (splice_length _ _ _).trans h.buf
  · show s.ofs + data.length = _
    rw [h.ofs, List.length_append, Nat.add_assoc]
  · show (splice s.buf s.ofs data).take (s.ofs + data.length) = _
    rw [splice_take (by rw [h.buf]; exact hfit), h.front, List.append_assoc]

theorem append_spec {p : Pack} {extra : Bytes} {s : Gen}
    (h : Holds erasesize d good p extra s) (data : Bytes)
    (hfit : p.used + extra.length + data.length ≤ erasesize) :
    exists s', append erasesize data s = .ok s' ∧
      Holds erasesize d good p (extra ++ data) s' := by
  rw [<- h.ofs] at hfit
  have hpoke := h.poke data hfit
  refine ⟨_, ?_, hpoke.right⟩
  unfold append
  rw [hpoke.left]
  rfl

theorem flush_spec (hE : 0 < erasesize) (hd : Working erasesize d) {p : Pack} {s : Gen}
    (hflashed : Flashed erasesize d good s (p.full.map (image erasesize)))
    (hbuf : s.buf = image erasesize p.cur) (hfits : p.used ≤ erasesize) (hofs : s.ofs = 0)
    (hino : s.lastIno = p.lastIno) (hversion : s.lastVersion = p.lastVersion)
    (hleft : p.flush.full.length ≤ good.length) :
    exists s', writeBlock erasesize s = .ok s' ∧ Holds erasesize d good p.flush [] s' := by
  have hlen : s.buf.length = erasesize := by rw [hbuf, image_length hfits]
  have hcount : (p.full.map (image erasesize)).length < good.length := by
    rw [List.length_map]
    rwa [Pack.flush_full, List.length_append] at hleft
  rcases writeBlock_spec hE hd hflashed hlen hcount with
    ⟨dev, pos, mtdofs, written, hrun, hnext⟩
  refine ⟨_, hrun, ?_, hlen, ?_, ?_, hino, hversion⟩
  · rw [Pack.flush_full, List.map_append, List.map_singleton, <- hbuf]
    exact hnext
  · rw [Pack.used_of_nil Pack.flush_cur]
    exact hofs
  · show s.buf.take s.ofs = _
    rw [hofs]
    rfl

/-- `pad(erasesize)`. -/
theorem close_spec (hE : 0 < erasesize) (hd : Working erasesize d) {p : Pack} {s : Gen}
    (h : Holds erasesize d good p [] s) (hroom : p.used < erasesize)
    (hbegun : p.cur ≠ [] -> 0 < p.used) (hleft : p.close.full.length ≤ good.length) :
    exists s', pad erasesize erasesize s = .ok s' ∧ Holds erasesize d good p.close [] s' := by
  have hofs : s.ofs = p.used := h.ofs
  have hmod : s.ofs % erasesize = s.ofs := Nat.mod_eq_of_lt (by omega)
  unfold pad
  rw [hmod]
  by_cases hnil : p.cur = []
  · have hzero := Pack.used_of_nil hnil
    rw [if_pos (by omega), Pack.close, if_pos hnil]
    exact ⟨s, rfl, h⟩
  · have hpos := hbegun hnil
    have hones : (List.replicate (erasesize - s.ofs) (0xff : UInt8)).length = erasesize - s.ofs :=
      List.length_replicate
    have hpoke := h.poke (List.replicate (erasesize - s.ofs) 0xff) (by omega)
    have hfull := hpoke.right.front
    have hend : s.ofs + (erasesize - s.ofs) = erasesize := by omega
    rw [Pack.close, if_neg hnil] at hleft ⊢
    rw [if_neg (by omega), if_pos (by omega), hpoke.left]
    dsimp only [bind, Except.bind, pure, Except.pure] at hfull ⊢
    rw [hones, hend] at hfull
    rw [hend, Nat.mod_self, if_pos rfl]
    refine flush_spec hE hd (p := p) (h.flashed.buffer _ _ _ _) ?_ (Nat.le_of_lt hroom) rfl
      h.lastIno h.lastVersion hleft
    rw [List.take_of_length_le (Nat.le_of_eq ((splice_length _ _ _).trans h.buf))] at hfull
    rw [hfull, hofs]
    rfl

/-- The end of `pad(4)`: a block that is full is written. -/
theorem settle_spec (hE : 0 < erasesize) (hd : Working erasesize d) {p : Pack} {s : Gen}
    (h : Holds erasesize d good p [] s) (hfit : p.used ≤ erasesize)
    (hleft : (if p.used = erasesize then p.flush else p).full.length ≤ good.length)
    (hpos : 0 < p.used) :
    exists s',
      (if s.ofs % erasesize = 0 then writeBlock erasesize { s with ofs := s.ofs % erasesize }
        else .ok { s with ofs := s.ofs % erasesize }) = .ok s' ∧
      Holds erasesize d good (if p.used = erasesize then p.flush else p) [] s' := by
  have hofs : s.ofs = p.used := h.ofs
  by_cases hfull : p.used = erasesize
  · rw [if_pos hfull] at hleft
    have hmod : s.ofs % erasesize = 0 := by rw [hofs, hfull, Nat.mod_self]
    rw [hmod, if_pos rfl, if_pos hfull]
    refine flush_spec hE hd (h.flashed.buffer _ _ _ _) ?_ hfit rfl h.lastIno h.lastVersion hleft
    have hfront := h.front
    have hlen : (front p.cur).length = erasesize := hfull
    rw [List.take_of_length_le (by rw [h.buf]; omega), List.append_nil] at hfront
    show s.buf = _
    rw [hfront, image, hlen, Nat.sub_self]
    exact (List.append_nil _).symm
  · have hmod : s.ofs % erasesize = s.ofs := Nat.mod_eq_of_lt (by omega)
    rw [hmod, if_neg (by omega), if_neg hfull]
    exact ⟨_, rfl, h⟩

/-- `pad(4)` behind a node. -/
theorem put_spec (h4 : 4 ∣ erasesize) (hd : Working erasesize d) {p : Pack} (node : Bytes)
    {s : Gen} (h : Holds erasesize d good p node s) (hnode : node ≠ [])
    (hfit : p.used + PAD node.length ≤ erasesize)
    (hleft : (p.put erasesize node).full.length ≤ good.length) :
    exists s', pad erasesize 4 s = .ok s' ∧
      Holds erasesize d good (p.put erasesize node) [] s' := by
  have hofs : s.ofs = p.used + node.length := h.ofs
  have hlen := List.length_pos_iff.mpr hnode
  have hpad := le_PAD node.length
  have haligned : 4 ∣ p.used := front_aligned p.cur
  have hused := Pack.used_append p node
  have hE : 0 < erasesize := by omega
  -- the state behind the padding holds the node as one of the block
  have hnext : forall s' : Gen, Holds erasesize d good p
        (node ++ List.replicate (PAD node.length - node.length) 0xff) s' ->
      Holds erasesize d good { p with cur := p.cur ++ [node] } [] s' := by
    intro s' h'
    refine ⟨h'.flashed, h'.buf, ?_, ?_, h'.lastIno, h'.lastVersion⟩
    · rw [hused, h'.ofs, List.length_append, List.length_replicate]
      show p.used + (node.length + (PAD node.length - node.length)) = p.used + PAD node.length + 0
      omega
    · rw [h'.front, front_append, List.append_nil, front_cons]
      show _ = front p.cur ++ (padded node ++ [])
      rw [List.append_nil]
      rfl
  have hsettle := fun s' h' => settle_spec hE hd (s := s') (hnext s' h')
    (by rw [hused]; exact hfit) hleft (by rw [hused]; omega)
  unfold pad
  by_cases hmod : s.ofs % 4 = 0
  · have hexact : PAD node.length = node.length := by
      unfold PAD
      omega
    have hsame : Holds erasesize d good p
        (node ++ List.replicate (PAD node.length - node.length) 0xff) s := by
      rw [hexact, Nat.sub_self]
      show Holds erasesize d good p (node ++ []) s
      rwa [List.append_nil]
    by_cases hlt : s.ofs < erasesize
    · rw [if_pos ⟨hmod, hlt⟩, Pack.put_of_lt (by omega)]
      exact ⟨s, rfl, hnext s hsame⟩
    · rw [if_neg (fun hand => hlt hand.right), if_neg hlt]
      exact hsettle s hsame
  · have hlt : s.ofs < erasesize := by
      unfold PAD at hfit
      omega
    have hcount : 4 - s.ofs % 4 = PAD node.length - node.length := by
      unfold PAD
      omega
    have hones : (List.replicate (PAD node.length - node.length) (0xff : UInt8)).length =
      PAD node.length - node.length := List.length_replicate
    have hpoke := h.poke (List.replicate (PAD node.length - node.length) 0xff) (by omega)
    have hheld := hpoke.right
    rw [hones] at hheld
    rw [if_neg (fun hand => hmod hand.left), if_pos hlt, hcount, hpoke.left]
    exact hsettle _ hheld

theorem prep_spec (hE : 12 ≤ erasesize) {p : Pack} {s : Gen}
    (h : Holds erasesize d good p [] s) (hsound : Pack.Sound erasesize p) :
    exists s', prepEraseblock erasesize s = .ok s' ∧ Holds erasesize d good p.prep [] s' := by
  have hofs : s.ofs = p.used := h.ofs
  unfold prepEraseblock Pack.prep
  by_cases hnil : p.cur = []
  · have hzero := Pack.used_of_nil hnil
    have hfit : s.ofs + CLEANMARKER.length ≤ erasesize := by
      rw [hofs, hzero]
      exact hE
    rw [if_neg (by omega), if_neg (by omega), if_pos hnil]
    rcases append_spec h CLEANMARKER (by rw [<- hofs]; exact hfit) with ⟨s', hrun, h'⟩
    refine ⟨s', hrun, h'.flashed, h'.buf, ?_, ?_, h'.lastIno, h'.lastVersion⟩
    · rw [h'.ofs, hzero]
      rfl
    · rw [h'.front, hnil]
      rfl
  · have hpos := hsound.used_pos hnil
    rw [if_pos (by omega), if_neg hnil]
    exact ⟨s, rfl, h⟩

/-!
## The functions
-/

theorem addDirent_spec (h4 : 4 ∣ erasesize) (hE : 12 < erasesize) (hmax : erasesize < 2 ^ 31)
    (hd : Working erasesize d) {p : Pack} {s : Gen} (h : Holds erasesize d good p [] s)
    (hsound : Pack.Sound erasesize p) {name : Bytes} (type parent : Nat)
    (hname : name.length ≤ 255) (hfit : p.prep.used + PAD (40 + name.length) < erasesize)
    (hleft : (p.addDirent erasesize name type parent).full.length ≤ good.length) :
    exists s', addDirent erasesize name type parent s = .ok (p.ino, s') ∧
      Holds erasesize d good (p.addDirent erasesize name type parent) [] s' := by
  have hofs : s.ofs = p.used := h.ofs
  have hroom := hsound.room
  -- the difference is negative, so that it is large as an unsigned number
  have htest : ¬sub32 s.ofs erasesize < 40 + name.length := by
    unfold sub32
    omega
  rcases prep_spec (Nat.le_of_lt hE) h hsound with ⟨s1, hprep, h1⟩
  have hino : s1.lastIno = p.lastIno := h1.lastIno.trans Pack.prep_lastIno
  have hversion : s1.lastVersion = p.lastVersion := h1.lastVersion.trans Pack.prep_lastVersion
  have hlen := rawDirent_length parent p.lastVersion p.ino type name
  have hpad := le_PAD (40 + name.length)
  have hofs1 : s1.ofs = p.prep.used := h1.ofs
  have hpoke := h1.poke (rawDirent parent p.lastVersion p.ino type name) (by omega)
  have hheld := hpoke.right.number (p.lastIno + 2) (p.lastVersion + 1)
  have hne : rawDirent parent p.lastVersion p.ino type name ≠ [] :=
    List.ne_nil_of_length_pos (by omega)
  rw [List.nil_append] at hheld
  rcases put_spec h4 hd _ hheld hne (by rw [hlen]; exact Nat.le_of_lt hfit) hleft with
    ⟨s2, hpad4, h2⟩
  refine ⟨s2, ?_, h2⟩
  unfold addDirent
  rw [if_neg htest]
  dsimp only [bind, Except.bind, pure, Except.pure] at hpad4 ⊢
  rw [hprep]
  dsimp only
  rw [hino, hversion]
  have hmod : name.length % 256 = name.length := Nat.mod_eq_of_lt (by omega)
  rw [hlen] at hpad4
  rw [show p.lastIno + 1 = p.ino from rfl, hpoke.left, hmod]
  dsimp only
  rw [hino, hversion, hpad4]

theorem addDir_spec (h4 : 4 ∣ erasesize) (hE : 12 < erasesize) (hmax : erasesize < 2 ^ 31)
    (hd : Working erasesize d) {p : Pack} {s : Gen} (h : Holds erasesize d good p [] s)
    (hsound : Pack.Sound erasesize p) {name : Bytes} {parent : Nat} (hname : name.length ≤ 255)
    (hfit : p.prep.used + PAD (40 + name.length) + 68 < erasesize)
    (hleft : (p.addDir erasesize name parent).full.length ≤ good.length) :
    exists s', addDir erasesize name parent s = .ok (p.ino, s') ∧
      Holds erasesize d good (p.addDir erasesize name parent) [] s' := by
  have hfit' : p.prep.used + PAD (40 + name.length) < erasesize := by omega
  rw [Pack.addDir_of_lt hfit] at hleft ⊢
  rcases addDirent_spec h4 hE hmax hd h hsound 4 parent hname hfit'
    (Nat.le_trans (Pack.full_le_put _ _) hleft) with ⟨s1, hdirent, h1⟩
  have hsound1 := hsound.addDirent hE 4 parent hname hfit'
  have hused := Pack.addDirent_used 4 parent hfit'
  have hne := Pack.addDirent_cur 4 parent hfit'
  have hofs : s1.ofs = p.prep.used + PAD (40 + name.length) := h1.ofs.trans hused
  have hrbytes : ¬rbytes erasesize s1 < 68 := by
    unfold rbytes
    rw [Nat.mod_eq_of_lt (by omega)]
    omega
  rcases prep_spec (Nat.le_of_lt hE) h1 hsound1 with ⟨s2, hprep, h2⟩
  rw [Pack.prep_of_ne_nil hne] at h2
  have hnode : rawInode p.ino 1 ⟨0o40755, 0, 0, 0, 0⟩ 0 0 0 =
      inodeNode p.ino 1 ⟨0o40755, 0, 0, 0, 0⟩ 0 [] := by
    have hcrc : crc32 [] = 0 := by
      unfold crc32
      rfl
    unfold inodeNode
    rw [hcrc, List.append_nil]
    rfl
  have hlen := inodeNode_length p.ino 1 ⟨0o40755, 0, 0, 0, 0⟩ 0 []
  rw [List.length_nil, Nat.add_zero] at hlen
  have hofs2 : s2.ofs = p.prep.used + PAD (40 + name.length) := h2.ofs.trans hused
  rcases append_spec h2 (inodeNode p.ino 1 ⟨0o40755, 0, 0, 0, 0⟩ 0 [])
    (by rw [hused, List.length_nil]; omega) with ⟨s3, happend, h3⟩
  rw [List.nil_append] at h3
  rcases put_spec h4 hd _ h3 (List.ne_nil_of_length_pos (by omega))
    (by rw [hused, hlen]; exact Nat.le_of_lt hfit) hleft with ⟨s4, hpad4, h4⟩
  refine ⟨s4, ?_, h4⟩
  unfold addDir
  rw [hdirent]
  dsimp only [bind, Except.bind, pure, Except.pure]
  rw [if_neg hrbytes]
  rw [hprep]
  dsimp only
  rw [hnode, addData, if_neg (by omega), happend]
  dsimp only
  rw [hpad4]

/-- The loop for room ends after two rounds at most. -/
theorem makeRoom_spec (hE : 4096 ≤ erasesize) (hd : Working erasesize d) {p : Pack} {s : Gen}
    (h : Holds erasesize d good p [] s) (hsound : Pack.Sound erasesize p)
    (hleft : (p.makeRoom erasesize).full.length ≤ good.length) :
    exists s', makeRoom erasesize 2 s = .ok s' ∧
      Holds erasesize d good (p.makeRoom erasesize) [] s' := by
  have hroom := hsound.room
  have hrbytes : forall {q : Pack} {s : Gen}, Holds erasesize d good q [] s ->
      q.used < erasesize -> rbytes erasesize s = erasesize - q.used := by
    intro q s hq hlt
    have hofs : s.ofs = q.used := hq.ofs
    unfold rbytes
    rw [hofs, Nat.mod_eq_of_lt hlt]
  unfold Pack.makeRoom at hleft ⊢
  unfold makeRoom
  rw [hrbytes h hroom]
  by_cases hmuch : 196 < erasesize - p.used
  · rw [if_pos (by omega), if_pos hmuch]
    exact ⟨s, rfl, h⟩
  · rw [if_neg hmuch] at hleft ⊢
    rw [Pack.prep_full] at hleft
    rw [if_neg (by omega)]
    rcases close_spec (by omega) hd h hroom hsound.used_pos hleft with ⟨s1, hclose, h1⟩
    rcases prep_spec (by omega) h1 hsound.close with ⟨s2, hprep, h2⟩
    have hused := Pack.prep_used_of_nil (p := p.close) Pack.close_cur
    dsimp only [bind, Except.bind]
    rw [hclose]
    dsimp only
    rw [hprep]
    dsimp only
    unfold makeRoom
    rw [hrbytes h2 (by omega), if_pos (by omega)]
    exact ⟨s2, rfl, h2⟩

theorem addData_spec (h4 : 4 ∣ erasesize) (hd : Working erasesize d) {p : Pack} {s : Gen}
    (h : Holds erasesize d good p [] s) {inode : Nat} {st : Stat} {offset : Nat} {data : Bytes}
    (hfit : p.used + PAD (68 + data.length) ≤ erasesize)
    (hleft : (p.addData erasesize inode st offset data).full.length ≤ good.length) :
    exists s1 s2 s3,
      addData erasesize (rawInode inode (s.lastVersion + 1) st offset data.length (crc32 data))
        { s with lastVersion := s.lastVersion + 1 } = .ok s1 ∧
      addData erasesize data s1 = .ok s2 ∧ pad erasesize 4 s2 = .ok s3 ∧
      Holds erasesize d good (p.addData erasesize inode st offset data) [] s3 := by
  have hpad := le_PAD (68 + data.length)
  have hofs : s.ofs = p.used := h.ofs
  have hheader := rawInode_length inode (p.lastVersion + 1) st offset data.length (crc32 data)
  have hnode := inodeNode_length inode (p.lastVersion + 1) st offset data
  rw [h.lastVersion]
  rcases append_spec (h.number s.lastIno (p.lastVersion + 1))
      (rawInode inode (p.lastVersion + 1) st offset data.length (crc32 data))
      (by show p.used + 0 + _ ≤ _; omega) with ⟨s1, hfirst, h1⟩
  rw [List.nil_append] at h1
  have hofs1 : s1.ofs = p.used + 68 := by
    rw [h1.ofs, hheader]
    rfl
  rcases append_spec h1 data (by show p.used + _ + _ ≤ _; omega) with
    ⟨s2, hsecond, h2⟩
  have hino := h.lastIno
  rw [hino] at h2
  rcases put_spec h4 hd (inodeNode inode (p.lastVersion + 1) st offset data) h2
      (List.ne_nil_of_length_pos (by omega)) (by rw [hnode]; exact hfit) hleft with
    ⟨s3, hpad4, h3⟩
  refine ⟨s1, s2, s3, ?_, ?_, hpad4, h3⟩
  · unfold addData
    rw [if_neg (by show ¬s.ofs + _ > _; omega)]
    exact hfirst
  · unfold addData
    rw [if_neg (by omega)]
    exact hsecond

theorem fileLoop_spec (h4 : 4 ∣ erasesize) (hE : 4096 ≤ erasesize) (hd : Working erasesize d)
    (inode : Nat) (st : Stat) {fuel offset : Nat} {rest : Bytes} {p : Pack} {s : Gen}
    (h : Holds erasesize d good p [] s) (hsound : Pack.Sound erasesize p) (hne : p.cur ≠ [])
    (hfuel : rest.length < fuel)
    (hleft : (Pack.fileLoop erasesize inode st fuel offset rest p).full.length ≤ good.length) :
    exists s', fileLoop erasesize inode st fuel offset rest s = .ok s' ∧
      Holds erasesize d good (Pack.fileLoop erasesize inode st fuel offset rest p) [] s' := by
  induction fuel generalizing offset rest p s with
  | zero => cases hfuel
  | succ fuel ih =>
      rcases Pack.makeRoom_spec hE hsound hne with ⟨hsound1, hne1, hroom⟩
      have hused1 := hsound1.room
      unfold Pack.fileLoop at hleft ⊢
      unfold fileLoop
      dsimp only at hleft ⊢
      have hmade : (p.makeRoom erasesize).full.length ≤ good.length := by
        refine Nat.le_trans ?_ hleft
        split
        · exact Nat.le_refl _
        · refine Nat.le_trans ?_ (Pack.full_le_fileLoop _ _ _ _ _ _)
          rw [Pack.prep_full]
          exact Pack.full_le_addData _ _ _ _ _
      rcases makeRoom_spec hE hd h hsound hmade with ⟨s1, hmake, h1⟩
      have hofs1 : s1.ofs = (p.makeRoom erasesize).used := h1.ofs
      have hchunk : rest.take (min (rbytes erasesize s1 - 68) 4096) =
          (p.makeRoom erasesize).chunk erasesize rest := by
        unfold Pack.chunk rbytes
        rw [hofs1, Nat.mod_eq_of_lt hused1]
      have hfit := Pack.chunk_fits h4 hroom rest
      have hnil := Pack.chunk_eq_nil_iff hroom rest
      have hlen : ((p.makeRoom erasesize).chunk erasesize rest).length ≤ rest.length :=
        List.length_take_le' _ _
      have hadded := hsound1.addData hne1 h4 hroom inode st offset rest
      dsimp only [bind, Except.bind, pure, Except.pure]
      rw [hmake]
      dsimp only
      rw [hchunk]
      generalize p.makeRoom erasesize = q at *
      generalize q.chunk erasesize rest = wbuf at *
      by_cases hw : wbuf = []
      · rw [if_pos hw, if_pos hw]
        exact ⟨s1, rfl, h1⟩
      · rw [if_neg hw] at hleft ⊢
        rw [if_neg hw]
        have hpos := List.length_pos_iff.mpr hw
        have hfull := Nat.le_trans (Pack.full_le_fileLoop _ _ _ _ _ _) hleft
        rw [Pack.prep_full] at hfull
        rcases addData_spec h4 hd h1 hfit hfull with ⟨s2, s3, s4, hrun2, hrun3, hrun4, h4'⟩
        rcases prep_spec (by omega) h4' hadded with ⟨s5, hrun5, h5⟩
        rw [hrun2]
        dsimp only
        rw [hrun3]
        dsimp only
        rw [hrun4]
        dsimp only
        rw [hrun5]
        have hrest : (rest.drop wbuf.length).length < fuel := by
          rw [List.length_drop]
          omega
        exact ih h5 (hadded.prep (by omega)) Pack.prep_cur_ne_nil hrest hleft

theorem addFile_spec (h4 : 4 ∣ erasesize) (hE : 4096 ≤ erasesize) (hmax : erasesize < 2 ^ 31)
    (hd : Working erasesize d) {p : Pack} {s : Gen} (h : Holds erasesize d good p [] s)
    (hsound : Pack.Sound erasesize p) {file : File} {parent : Nat}
    (hname : file.fname.length ≤ 255)
    (hfit : p.prep.used + PAD (40 + file.fname.length) < erasesize)
    (hleft : (p.addFile erasesize file parent).full.length ≤ good.length) :
    exists s', addFile erasesize file parent s = .ok s' ∧
      Holds erasesize d good (p.addFile erasesize file parent) [] s' := by
  unfold Pack.addFile at hleft ⊢
  have hsmall : 12 < erasesize := by omega
  rcases addDirent_spec h4 hsmall hmax hd h hsound 8 parent hname hfit
    (Nat.le_trans (Pack.full_le_fileLoop _ _ _ _ _ _) hleft) with ⟨s1, hdirent, h1⟩
  rcases fileLoop_spec h4 hE hd p.ino file.stat h1 (hsound.addDirent hsmall 8 parent hname hfit)
    (Pack.addDirent_cur 8 parent hfit) (Nat.lt_succ_self _) hleft with ⟨s2, hloop, h2⟩
  refine ⟨s2, ?_, h2⟩
  unfold addFile
  rw [hdirent]
  exact hloop

theorem finish_spec (hE : 4 < erasesize) (hd : Working erasesize d) {p : Pack} {s : Gen}
    (h : Holds erasesize d good p [] s) (hsound : Pack.Sound erasesize p)
    (hleft : p.finish.full.length ≤ good.length) :
    exists s', finish erasesize s = .ok s' ∧ Holds erasesize d good p.finish [] s' := by
  have hclosed : p.close.full.length ≤ good.length := by
    refine Nat.le_trans ?_ hleft
    rw [Pack.finish_full, List.length_append]
    exact Nat.le_add_right _ _
  rcases close_spec (by omega) hd h hsound.room hsound.used_pos hclosed with ⟨s1, hrun1, h1⟩
  have hzero := Pack.used_of_nil (p := p.close) Pack.close_cur
  have hofs1 : s1.ofs = 0 := h1.ofs.trans hzero
  rcases append_spec h1 JFFS2_EOF (by rw [hzero]; exact Nat.le_of_lt hE) with
    ⟨s2, hrun2, h2⟩
  -- the mark alone, as if it were a node
  have hmark : Holds erasesize d good { p.close with cur := [JFFS2_EOF] } [] s2 := by
    refine ⟨h2.flashed, h2.buf, ?_, ?_, h2.lastIno, h2.lastVersion⟩
    · rw [h2.ofs, hzero]
      rfl
    · rw [h2.front, Pack.close_cur]
      rfl
  have hdata : addData erasesize JFFS2_EOF s1 = .ok s2 := by
    unfold addData
    rw [if_neg (by rw [hofs1]; show ¬0 + 4 > erasesize; omega)]
    exact hrun2
  rcases close_spec (by omega) hd hmark hE
      (fun _ => show 0 < (front [JFFS2_EOF]).length by decide) hleft with ⟨s3, hrun3, h3⟩
  refine ⟨s3, ?_, h3⟩
  unfold finish
  dsimp only [bind, Except.bind]
  rw [hrun1]
  dsimp only
  rw [hdata]
  exact hrun3

/-!
## Whole runs
-/

theorem Holds.start {s : Gen} {n : Nat} (hwritten : s.written = [])
    (hbuf : s.buf.length = erasesize) (hofs : s.ofs = 0) (hpos : s.pos = s.mtdofs)
    (hsize : s.mtdofs + n * erasesize = s.dev.size) :
    Holds erasesize s.dev (goodBlocks erasesize s.dev n s.mtdofs)
      (Pack.start s.lastIno s.lastVersion) [] (firstIno s) where
  flashed := by
    refine ⟨rfl, hwritten, ?_, ?_, hpos, n, hsize, rfl⟩
    · show s.written.map _ = _
      rw [hwritten]
      rfl
    · intro a ha
      rw [show (firstIno s).written = [] from hwritten] at ha
      cases ha
  buf := hbuf
  ofs := hofs
  front := by
    show s.buf.take s.ofs = _
    rw [hofs]
    rfl
  lastIno := rfl
  lastVersion := rfl

theorem mtdReplaceJffs2_spec (h4 : 4 ∣ erasesize) (hE : 4096 ≤ erasesize)
    (hmax : erasesize < 2 ^ 31) {s : Gen} (hd : Working erasesize s.dev) {file : File}
    (hname : file.fname.length ≤ 255) {n : Nat} (hwritten : s.written = [])
    (hbuf : s.buf.length = erasesize) (hofs : s.ofs = 0)
    (hsize : s.pos + n * erasesize = s.dev.size)
    (hleft : ((Pack.start s.lastIno s.lastVersion).replaceJffs2 erasesize file).full.length ≤
      (goodBlocks erasesize s.dev n s.pos).length) :
    exists s', mtdReplaceJffs2 erasesize s.pos file s = .ok s' ∧
      Holds erasesize s.dev (goodBlocks erasesize s.dev n s.pos)
        ((Pack.start s.lastIno s.lastVersion).replaceJffs2 erasesize file) [] s' := by
  have hstart := Pack.sound_start (by omega : 0 < erasesize) s.lastIno s.lastVersion
  have hfit := Pack.fits_start hname s.lastIno s.lastVersion
  have hroom : (Pack.start s.lastIno s.lastVersion).prep.used +
      PAD (40 + file.fname.length) < erasesize := by omega
  have hsound := hstart.addFile h4 hE 1 hname hroom
  have hheld := Holds.start (s := { s with mtdofs := s.pos }) hwritten hbuf hofs rfl hsize
  rcases addFile_spec h4 hE hmax hd hheld hstart hname hroom
    (Nat.le_trans (Pack.full_le_finish _) hleft) with ⟨s1, hrun1, h1⟩
  rcases finish_spec (by omega) hd h1 hsound hleft with ⟨s2, hrun2, h2⟩
  refine ⟨s2, ?_, h2⟩
  unfold mtdReplaceJffs2
  rw [hrun1]
  exact hrun2

theorem mtdWriteJffs2_spec (h4 : 4 ∣ erasesize) (hE : 4096 ≤ erasesize)
    (hmax : erasesize < 2 ^ 31) {s : Gen} (hd : Working erasesize s.dev) {dir : Bytes}
    {file : File} (hdir : dir.length ≤ 255) (hname : file.fname.length ≤ 255)
    (targetIno : Nat) {n : Nat} (hwritten : s.written = []) (hbuf : s.buf.length = erasesize)
    (hsize : s.mtdofs + n * erasesize = s.dev.size)
    (hleft : ((Pack.start s.lastIno s.lastVersion).writeJffs2 erasesize targetIno dir
      file).full.length ≤ (goodBlocks erasesize s.dev n s.mtdofs).length) :
    exists s', mtdWriteJffs2 erasesize targetIno dir file s = .ok s' ∧
      Holds erasesize s.dev (goodBlocks erasesize s.dev n s.mtdofs)
        ((Pack.start s.lastIno s.lastVersion).writeJffs2 erasesize targetIno dir file) [] s' := by
  have hstart := Pack.sound_start (by omega : 0 < erasesize) s.lastIno s.lastVersion
  have hseek : s.dev.lseek s.pos s.mtdofs = s.mtdofs := if_pos (by omega)
  have hheld := Holds.start (s := { s with pos := s.dev.lseek s.pos s.mtdofs, ofs := 0 })
    hwritten hbuf rfl hseek hsize
  unfold Pack.writeJffs2 at hleft ⊢
  unfold mtdWriteJffs2
  by_cases hzero : targetIno = 0
  · rw [if_pos hzero] at hleft ⊢
    rw [if_pos hzero]
    have hfit := Pack.fits_start hdir s.lastIno s.lastVersion
    have hroom : (Pack.start s.lastIno s.lastVersion).prep.used + PAD (40 + dir.length) + 68 <
        erasesize := by omega
    have hroom' := Pack.fits_addDir hE hdir hname s.lastIno s.lastVersion
    have hsound := hstart.addDir (by omega) 1 hdir hroom
    have hsound' := hsound.addFile h4 hE
      (Pack.start s.lastIno s.lastVersion).ino hname hroom'
    have hadded := Nat.le_trans (Pack.full_le_finish _) hleft
    rcases addDir_spec h4 (by omega) hmax hd hheld hstart hdir hroom
      (Nat.le_trans (Pack.full_le_addFile _ _ _) hadded) with ⟨s1, hrun1, h1⟩
    rcases addFile_spec h4 hE hmax hd h1 hsound hname hroom' hadded with ⟨s2, hrun2, h2⟩
    rcases finish_spec (by omega) hd h2 hsound' hleft with ⟨s3, hrun3, h3⟩
    refine ⟨s3, ?_, h3⟩
    dsimp only [bind, Except.bind]
    rw [hrun1]
    dsimp only
    rw [hrun2]
    exact hrun3
  · rw [if_neg hzero] at hleft ⊢
    rw [if_neg hzero]
    have hfit := Pack.fits_start hname s.lastIno s.lastVersion
    have hroom : (Pack.start s.lastIno s.lastVersion).prep.used +
        PAD (40 + file.fname.length) < erasesize := by omega
    have hsound := hstart.addFile h4 hE targetIno hname hroom
    rcases addFile_spec h4 hE hmax hd hheld hstart hname hroom
      (Nat.le_trans (Pack.full_le_finish _) hleft) with ⟨s1, hrun1, h1⟩
    rcases finish_spec (by omega) hd h1 hsound hleft with ⟨s2, hrun2, h2⟩
    refine ⟨s2, ?_, h2⟩
    dsimp only [bind, Except.bind, pure, Except.pure]
    rw [hrun1]
    exact hrun2

end

end Jffs2
end Mtd
end Hlk7621
