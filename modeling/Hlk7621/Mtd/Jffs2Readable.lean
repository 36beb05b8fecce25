import Hlk7621.Mtd.Jffs2Output

/-!
# The file that a reader finds

The blocks that the JFFS2 generator writes are read back by the loop that the tool
itself reads blocks with.
-/

namespace Hlk7621
namespace Mtd
namespace Jffs2

/-- The blocks at `blocks` of a memory hold nodes and ones, the last one the mark, and
the inode nodes hold the file. -/
structure Readable (erasesize : Nat) (content : Bytes) (mem : Nat -> UInt8)
    (blocks : List Nat) : Prop where
  filled : forall a, a ∈ blocks.dropLast -> window mem a erasesize =
    image erasesize ((nodesOf (window mem a erasesize)).map Prod.snd)
  marked : forall a, a ∈ blocks.dropLast ->
    (nodesOf (window mem a erasesize)).head? = some (0, CLEANMARKER)
  node : forall a, a ∈ blocks -> forall node, node ∈ nodesOf (window mem a erasesize) ->
    4 ∣ node.1 ∧ node.1 + node.2.length ≤ erasesize ∧ Node node.2
  eof : exists a, blocks.getLast? = some a ∧ (window mem a erasesize).take 4 = JFFS2_EOF
  content : forall file, Pack.place file
    ((blocks.flatMap fun a => nodesOf (window mem a erasesize)).filterMap inodeData) =
      overwrite file 0 content

section

variable {erasesize : Nat}

theorem placed_snd (ofs : Nat) (nodes : List Bytes) : (placed ofs nodes).map Prod.snd = nodes := by
  induction nodes generalizing ofs with
  | nil => rfl
  | cons raw nodes ih => rw [placed, List.map_cons, ih]

theorem placed_data (ofs : Nat) (nodes : List Bytes) :
    (placed ofs nodes).filterMap inodeData = Pack.contents nodes := by
  have hsnd := congrArg (List.filterMap fun raw => inodeData (0, raw)) (placed_snd ofs nodes)
  rw [List.filterMap_map] at hsnd
  exact hsnd

theorem nodesOf_mark (erasesize : Nat) : nodesOf (image erasesize [JFFS2_EOF]) = [] := by
  unfold nodesOf
  generalize (image erasesize [JFFS2_EOF]).length = fuel
  cases fuel with
  | zero => rfl
  | succ fuel =>
      rw [walk, if_neg]
      rintro ⟨_, hmagic⟩
      exact absurd hmagic (show leNat [0xde, 0xad] ≠ JFFS2_MAGIC_BITMASK by decide)

theorem Pack.Block.headers {nodes : List Bytes} (h : Pack.Block erasesize nodes) :
    forall raw, raw ∈ nodes -> GoodHeader raw :=
  fun raw hraw => (h.nodes raw hraw).header

theorem nodesOf_block {nodes : List Bytes} (h : Pack.Block erasesize nodes) :
    nodesOf (image erasesize nodes) = placed 0 nodes :=
  nodesOf_image erasesize h.headers

theorem nodesOf_blocks {full : List (List Bytes)}
    (h : forall nodes, nodes ∈ full -> Pack.Block erasesize nodes) :
    ((full.map (image erasesize)).flatMap nodesOf).filterMap inodeData =
      Pack.contents full.flatten := by
  induction full with
  | nil => rfl
  | cons nodes full ih =>
      have hfirst := nodesOf_block (h nodes List.mem_cons_self)
      have hrest := ih fun x hx => h x (List.mem_cons_of_mem _ hx)
      rw [List.map_cons, List.flatMap_cons, List.filterMap_append, hrest, hfirst, placed_data,
        List.flatten_cons]
      exact List.filterMap_append.symm

theorem readable_of_packed {content : Bytes} {full : List (List Bytes)}
    (h : Pack.Packed erasesize content full) {mem : Nat -> UInt8} {blocks : List Nat}
    (hmem : blocks.map (fun a => window mem a erasesize) = full.map (image erasesize)) :
    Readable erasesize content mem blocks := by
  have hsplit := hmem
  rw [h.split, List.map_append, List.map_singleton] at hsplit
  rcases List.map_eq_append_iff.mp hsplit with ⟨data, last, rfl, hdata, hlast⟩
  rcases List.map_eq_singleton_iff.mp hlast with ⟨mark, rfl, hmark⟩
  have hblock : forall a, a ∈ data -> exists nodes, Pack.Block erasesize nodes ∧
      window mem a erasesize = image erasesize nodes := by
    intro a ha
    have hin := List.mem_map_of_mem (f := fun a => window mem a erasesize) ha
    rw [hdata] at hin
    rcases List.mem_map.mp hin with ⟨nodes, hnodes, heq⟩
    exact ⟨nodes, h.blocks nodes hnodes, heq.symm⟩
  refine ⟨?_, ?_, ?_, ⟨mark, List.getLast?_concat, ?_⟩, ?_⟩
  · rw [List.dropLast_concat]
    intro a ha
    rcases hblock a ha with ⟨nodes, hnodes, heq⟩
    rw [heq, nodesOf_block hnodes, placed_snd]
  · rw [List.dropLast_concat]
    intro a ha
    rcases hblock a ha with ⟨nodes, hnodes, heq⟩
    rw [heq, nodesOf_block hnodes]
    have hmarked := hnodes.marked
    cases nodes with
    | nil => cases hmarked
    | cons raw nodes =>
        cases hmarked
        rfl
  · intro a ha node hnode
    rcases List.mem_append.mp ha with ha | ha
    · rcases hblock a ha with ⟨nodes, hnodes, heq⟩
      rw [heq, nodesOf_block hnodes] at hnode
      rcases placed_spec (Nat.dvd_zero 4) hnode with ⟨haligned, _, hle, hmem⟩
      have hfits := hnodes.fits
      exact ⟨haligned, by omega, hnodes.nodes _ hmem⟩
    · rw [List.mem_singleton.mp ha, hmark, nodesOf_mark] at hnode
      cases hnode
  · rw [hmark]
    rfl
  · intro file
    have hmarkNodes : nodesOf (window mem mark erasesize) = [] := by rw [hmark, nodesOf_mark]
    have hflat : (data.flatMap fun a => nodesOf (window mem a erasesize)) =
        (full.dropLast.map (image erasesize)).flatMap nodesOf := by
      rw [<- hdata, List.flatMap_map]
    rw [List.flatMap_append, List.flatMap_singleton, hmarkNodes, List.append_nil, hflat,
      nodesOf_blocks h.blocks]
    exact h.data file

theorem Holds.readable {d : Tool.Device} {good : List Nat} {p : Pack} {content : Bytes}
    {s : Gen} (h : Holds erasesize d good p [] s)
    (hpacked : Pack.Packed erasesize content p.full) :
    s.written = good.take p.full.length ∧
      Readable erasesize content s.dev.mem s.written := by
  refine ⟨?_, readable_of_packed hpacked h.flashed.data⟩
  have hwritten := h.flashed.written
  rwa [List.length_map] at hwritten

end

def replaceBlocks (erasesize : Nat) (file : File) (s : Gen) : Nat :=
  ((Pack.start s.lastIno s.lastVersion).replaceJffs2 erasesize file).full.length

def writeBlocks (erasesize targetIno : Nat) (dir : Bytes) (file : File) (s : Gen) : Nat :=
  ((Pack.start s.lastIno s.lastVersion).writeJffs2 erasesize targetIno dir file).full.length

/-- With enough good blocks, both functions come to their end without leaving the buffer,
write that many of them, and the blocks hold the file. -/
theorem generated_readable {erasesize : Nat} (h4 : 4 ∣ erasesize) (hE : 4096 ≤ erasesize)
    {s : Gen} (hd : Working erasesize s.dev) (hsmall : s.dev.size < 2 ^ 31)
    (hwritten : s.written = []) (hbuf : s.buf.length = erasesize) {dir : Bytes} {file : File}
    (hdir : dir.length ≤ 255) (hname : file.fname.length ≤ 255) (targetIno n : Nat) :
    (s.ofs = 0 -> s.pos + n * erasesize = s.dev.size ->
      replaceBlocks erasesize file s ≤ (goodBlocks erasesize s.dev n s.pos).length ->
      exists s', mtdReplaceJffs2 erasesize s.pos file s = .ok s' ∧
        s'.written = (goodBlocks erasesize s.dev n s.pos).take (replaceBlocks erasesize file s) ∧
        Readable erasesize file.content s'.dev.mem s'.written) ∧
    (s.mtdofs + n * erasesize = s.dev.size ->
      writeBlocks erasesize targetIno dir file s ≤
        (goodBlocks erasesize s.dev n s.mtdofs).length ->
      exists s', mtdWriteJffs2 erasesize targetIno dir file s = .ok s' ∧
        s'.written = (goodBlocks erasesize s.dev n s.mtdofs).take
          (writeBlocks erasesize targetIno dir file s) ∧
        Readable erasesize file.content s'.dev.mem s'.written) := by
  -- a file that the blocks of the device hold has offsets of 32 bits
  have hspace : forall {full start : Nat}, start + n * erasesize = s.dev.size ->
      full ≤ (goodBlocks erasesize s.dev n start).length -> 0 < full ->
      full * erasesize < 2 ^ 31 ∧ erasesize < 2 ^ 31 := by
    intro full start hsize hfull hpos
    have hn := Nat.le_trans hfull (goodBlocks_length n start)
    have hmul := Nat.mul_le_mul_right erasesize hn
    have hone := Nat.le_mul_of_pos_left erasesize hpos
    omega
  constructor
  · intro hofs hsize hfull
    rcases Pack.packed_replaceJffs2 h4 hE hname s.lastIno s.lastVersion with ⟨hlen, hpacked⟩
    have hpos : 0 < replaceBlocks erasesize file s := by
      unfold replaceBlocks Pack.replaceJffs2
      rw [Pack.finish_full, List.length_append]
      exact Nat.succ_pos _
    rcases hspace hsize hfull hpos with ⟨hbytes, hmax⟩
    rcases mtdReplaceJffs2_spec h4 hE hmax hd hname hwritten hbuf hofs hsize hfull with
      ⟨s', hrun, hheld⟩
    refine ⟨s', hrun, hheld.readable (hpacked ?_)⟩
    exact Nat.lt_of_le_of_lt hlen (Nat.lt_trans hbytes (by decide))
  · intro hsize hfull
    rcases Pack.packed_writeJffs2 h4 hE hdir hname targetIno s.lastIno s.lastVersion with
      ⟨hlen, hpacked⟩
    have hpos : 0 < writeBlocks erasesize targetIno dir file s := by
      unfold writeBlocks Pack.writeJffs2
      rw [Pack.finish_full, List.length_append]
      exact Nat.succ_pos _
    rcases hspace hsize hfull hpos with ⟨hbytes, hmax⟩
    rcases mtdWriteJffs2_spec h4 hE hmax hd hdir hname targetIno hwritten hbuf hsize hfull with
      ⟨s', hrun, hheld⟩
    refine ⟨s', hrun, hheld.readable (hpacked ?_)⟩
    exact Nat.lt_of_le_of_lt hlen (Nat.lt_trans hbytes (by decide))

def exampleGen : Gen where
  dev :=
    { size := 20480, nand := true, status := fun b => if b = 1 then 1 else 0,
      eraseOk := fun _ => true, writeOk := fun _ => true, mem := fun _ => 0 }
  pos := 0
  buf := List.replicate 4096 0
  ofs := 0
  mtdofs := 0
  lastIno := 0
  lastVersion := 0
  written := []

def exampleFile : File := ⟨str "/tmp/a", 0, 0, 0, 0, List.replicate 5000 7⟩

theorem working_exampleGen : Working 4096 exampleGen.dev := by
  refine ⟨fun a _ => ?_, fun _ _ _ => rfl, fun _ _ _ => rfl⟩
  show (0 : Int) ≤ if a / 4096 = 1 then 1 else 0
  split <;> decide

/-- Each function fills two blocks and marks a third as the last one. -/
theorem generated_readable_example :
    (exists s', mtdReplaceJffs2 4096 0 exampleFile exampleGen = .ok s' ∧
      s'.written = [0, 8192, 12288] ∧
      Readable 4096 exampleFile.content s'.dev.mem s'.written) ∧
    (exists s', mtdWriteJffs2 4096 1 (str "etc") exampleFile exampleGen = .ok s' ∧
      s'.written = [0, 8192, 12288] ∧
      Readable 4096 exampleFile.content s'.dev.mem s'.written) := by
  have hgood : goodBlocks 4096 exampleGen.dev 5 0 = [0, 8192, 12288, 16384] := by decide
  have hreplace : replaceBlocks 4096 exampleFile exampleGen = 3 := by decide +kernel
  have hwrite : writeBlocks 4096 1 (str "etc") exampleFile exampleGen = 3 := by decide +kernel
  have hdir : (str "etc").length ≤ 255 := by decide
  have hname : exampleFile.fname.length ≤ 255 := by decide
  have hfirst : (goodBlocks 4096 exampleGen.dev 5 0).take 3 = [0, 8192, 12288] := by
    rw [hgood]
    rfl
  rcases generated_readable (by decide) (by decide) working_exampleGen (by decide) rfl
    List.length_replicate hdir hname 1 5 with ⟨hreplaced, hwrote⟩
  rw [hreplace] at hreplaced
  rw [hwrite] at hwrote
  have hroom : 3 ≤ (goodBlocks 4096 exampleGen.dev 5 0).length := by
    rw [hgood]
    decide
  constructor
  · rcases hreplaced rfl rfl hroom with ⟨s', hrun, hwritten, hread⟩
    exact ⟨s', hrun, hwritten.trans hfirst, hread⟩
  · rcases hwrote rfl hroom with ⟨s', hrun, hwritten, hread⟩
    exact ⟨s', hrun, hwritten.trans hfirst, hread⟩

end Jffs2
end Mtd
end Hlk7621
