import Mathlib.Data.List.Perm.Subperm
import Mathlib.Order.Bounds.Basic
import Hlk7621.Mtd.Dumps

/-!
# Writing to one device and reading it back

With an offset the writer looks for bad blocks at the start of the device instead of
behind the offset, and the dump steps through bad blocks by the length of the last piece
of the image.  The image is where it should be and comes back exactly when neither
matters.
-/

namespace Hlk7621
namespace Mtd
namespace Tool

/-!
## What is asked of the two commands
-/

def goodsFrom (d : Device) (q len : Nat) : List Nat :=
  (List.range' q len).filter fun b => decide (d.Good b)

def Event.On (erasesize : Nat) (blocks : List Nat) : Event -> Prop
  | .erase _ offset => exists b, b ∈ blocks ∧ offset = erasesize * b
  | .write _ pos _ len => exists b, b ∈ blocks ∧ pos = erasesize * b ∧ len = erasesize

/-- The image is in the first good blocks from `q` on, in order; no other block was erased
or written, and nothing outside them has changed. -/
def PlacedFrom (erasesize q : Nat) (d : Device) (image : Bytes) (s : Writer) : Prop :=
  exists len,
    ((goodsFrom d q len).flatMap fun b => window s.dev.mem (erasesize * b) erasesize) =
      padded erasesize image ∧
    (forall ev, ev ∈ s.log -> ev.On erasesize (goodsFrom d q len)) ∧
    forall a,
      (forall b, b ∈ goodsFrom d q len -> a < erasesize * b ∨ erasesize * b + erasesize ≤ a) ->
      s.dev.mem a = d.mem a

def Completes (erasesize q : Nat) (d : Device) (heap : Nat -> UInt8) (held : Nat) (image : Bytes)
    (s : Writer) : Prop :=
  exists fuel, mtdWrite erasesize (erasesize * q) fuel d [] heap held image = .done s

def blocksFor (erasesize n : Nat) : Nat := (n + erasesize - 1) / erasesize

def lastLength (erasesize n : Nat) : Nat := n - erasesize * (blocksFor erasesize n - 1)

/-- Up to the last block that is taken, block `i` of the device is good when block `q + i` is. -/
def Aligned (d : Device) (q m : Nat) : Prop :=
  forall i, Nat.count d.Good i < m -> (d.Good i <-> d.Good (q + i))

/-- The bad blocks in front of the last block are a multiple of the last piece. -/
def Stepped (erasesize : Nat) (d : Device) (n : Nat) : Prop :=
  forall first last,
    IsLeast { i | Nat.count d.Good i = blocksFor erasesize n - 1 } first ->
    IsGreatest { i | Nat.count d.Good i = blocksFor erasesize n - 1 } last ->
    lastLength erasesize n ∣ erasesize * (last - first)

section

variable {erasesize q k n held : Nat} {d : Device} {heap : Nat -> UInt8} {image : Bytes}
  {s : Writer}

theorem blocksFor_spec (hE : 0 < erasesize) (hn : 0 < n) :
    0 < blocksFor erasesize n ∧ erasesize * (blocksFor erasesize n - 1) < n ∧
      n ≤ erasesize * blocksFor erasesize n := by
  have hdm := Nat.div_add_mod (n + erasesize - 1) erasesize
  have hmod := Nat.mod_lt (n + erasesize - 1) hE
  have hpos : 0 < blocksFor erasesize n := Nat.div_pos (by lia) hE
  have hmul : erasesize * blocksFor erasesize n =
      erasesize * (blocksFor erasesize n - 1) + erasesize := by
    rw [← Nat.mul_succ]
    congr 1
    lia
  unfold blocksFor at *
  exact ⟨hpos, by lia, by lia⟩

/-!
## The place of the image
-/

theorem Completes.holding (hE : 0 < erasesize) (hheld : held ≤ erasesize)
    (h : Completes erasesize q d heap held image s) :
    exists k, Holding erasesize (erasesize * q) d [] k (padded erasesize image) s := by
  rcases h with ⟨fuel, hrun⟩
  rcases writeLoop_device hE (start_filling hheld) hrun with
    ⟨k, hold, _⟩ | ⟨_, _, _, _, _, _, _, _, _, _, _, _, hlist, _⟩
  · rw [start_pending, List.nil_append] at hold
    exact ⟨k, hold⟩
  · cases hlist

theorem Holding.count (hE : 0 < erasesize)
    (h : Holding erasesize (erasesize * q) d [] k (padded erasesize image) s) :
    Nat.count d.Good k = blocksFor erasesize image.length := by
  have hlen : (contents erasesize (erasesize * q) d k s.dev.mem).length =
      (padded erasesize image).length := by rw [h.data]
  rw [contents_length, padded_length hE, goods_length] at hlen
  exact Nat.eq_of_mul_eq_mul_left hE hlen

theorem Holding.last_good (hE : 0 < erasesize) (hn : 0 < image.length)
    (h : Holding erasesize (erasesize * q) d [] k (padded erasesize image) s) :
    0 < k ∧ d.Good (k - 1) ∧
      Nat.count d.Good (k - 1) = blocksFor erasesize image.length - 1 := by
  have hcount := h.count hE
  have hpos := (blocksFor_spec hE hn).1
  have hk : 0 < k := by
    rcases Nat.eq_zero_or_pos k with rfl | hk
    · rw [Nat.count_zero] at hcount
      lia
    · exact hk
  have hgood : d.Good (k - 1) := by
    rcases h.last with hz | hgood
    · lia
    · exact hgood
  have hsucc := Nat.count_succ d.Good (k - 1)
  rw [Nat.sub_add_cancel hk, if_pos hgood] at hsucc
  exact ⟨hk, hgood, by lia⟩

theorem Holding.lt_iff (hE : 0 < erasesize) (hn : 0 < image.length)
    (h : Holding erasesize (erasesize * q) d [] k (padded erasesize image) s) {i : Nat} :
    Nat.count d.Good i < blocksFor erasesize image.length <-> i < k := by
  have hcount := h.count hE
  have hpos := (blocksFor_spec hE hn).1
  rcases h.last_good hE hn with ⟨hk, _, hprev⟩
  constructor
  · intro hlt
    by_contra hge
    have := Nat.count_monotone d.Good (Nat.le_of_not_lt hge)
    lia
  · intro hlt
    have := Nat.count_monotone d.Good (show i ≤ k - 1 by lia)
    lia

theorem mem_goodsFrom {len b : Nat} : b ∈ goodsFrom d q len <-> q ≤ b ∧ b < q + len ∧ d.Good b := by
  simp [goodsFrom, List.mem_range'_1, and_assoc]

theorem goodsFrom_eq {len : Nat} (h : forall i, i < len -> (d.Good i <-> d.Good (q + i))) :
    goodsFrom d q len = (goods d len).map (q + ·) := by
  unfold goodsFrom goods
  rw [List.range'_eq_map_range, List.filter_map]
  congr 1
  apply List.filter_congr
  intro i hi
  exact decide_eq_decide.mpr (h i (List.mem_range.mp hi)).symm

theorem placedFrom_of_aligned (hE : 0 < erasesize) (hn : 0 < image.length)
    (h : Holding erasesize (erasesize * q) d [] k (padded erasesize image) s)
    (haligned : Aligned d q (blocksFor erasesize image.length)) :
    PlacedFrom erasesize q d image s := by
  have hblocks : goodsFrom d q k = (goods d k).map (q + ·) :=
    goodsFrom_eq fun i hi => haligned i ((h.lt_iff hE hn).mpr hi)
  refine ⟨k, ?_, ?_, ?_⟩
  · rw [hblocks, List.flatMap_map, ← h.data]
    unfold contents
    apply List.flatMap_congr
    intro i _
    rw [Nat.mul_add]
  · intro ev hev
    rw [h.log, List.nil_append, calls, List.mem_flatMap] at hev
    rcases hev with ⟨i, hi, hev⟩
    have hmem : q + i ∈ goodsFrom d q k := by
      rw [hblocks]
      exact List.mem_map_of_mem hi
    simp only [List.mem_cons, List.not_mem_nil, or_false] at hev
    rcases hev with rfl | rfl
    · exact ⟨q + i, hmem, (Nat.mul_add _ _ _).symm⟩
    · exact ⟨q + i, hmem, (Nat.mul_add _ _ _).symm, rfl⟩
  · intro a ha
    refine h.frame a ?_
    intro i hi
    have := ha (q + i) (by rw [hblocks]; exact List.mem_map_of_mem hi)
    rwa [Nat.mul_add] at this

theorem aligned_of_placedFrom (hE : 0 < erasesize) (hn : 0 < image.length)
    (h : Holding erasesize (erasesize * q) d [] k (padded erasesize image) s)
    (hplaced : PlacedFrom erasesize q d image s) :
    Aligned d q (blocksFor erasesize image.length) := by
  rcases hplaced with ⟨len, hdata, hlog, _⟩
  rcases h.last_good hE hn with ⟨hk, hlast, _⟩
  have hsub : (goods d k).map (q + ·) ⊆ goodsFrom d q len := by
    intro b hb
    rcases List.mem_map.mp hb with ⟨i, hi, rfl⟩
    have hev : Event.erase s.closed.length (erasesize * q + erasesize * i) ∈ s.log := by
      rw [h.log, List.nil_append, calls, List.mem_flatMap]
      exact ⟨i, hi, List.mem_cons_self⟩
    rcases hlog _ hev with ⟨b, hb, heq⟩
    rw [← Nat.mul_add] at heq
    rw [Nat.eq_of_mul_eq_mul_left hE heq]
    exact hb
  have hnodup : ((goods d k).map (q + ·)).Nodup :=
    (List.nodup_range.filter _).map (fun a b hab => Nat.add_left_cancel hab)
  have hlen : (goodsFrom d q len).length ≤ ((goods d k).map (q + ·)).length := by
    have hleft := congrArg List.length hdata
    rw [flatMap_window_length, ← h.data, contents_length] at hleft
    rw [List.length_map, Nat.eq_of_mul_eq_mul_left hE hleft]
  have hperm := (List.subperm_of_subset hnodup hsub).perm_of_length_le hlen
  have hmem : forall i, i ∈ goods d k <-> q + i ∈ goodsFrom d q len := by
    intro i
    rw [← hperm.mem_iff, List.mem_map]
    constructor
    · exact fun hi => ⟨i, hi, rfl⟩
    · rintro ⟨j, hj, heq⟩
      rwa [← Nat.add_left_cancel heq]
  have hstop := (mem_goodsFrom.mp ((hmem (k - 1)).mp (mem_goods.mpr ⟨by lia, hlast⟩))).2.1
  intro i hi
  have hik := (h.lt_iff hE hn).mp hi
  have hiff := hmem i
  rw [mem_goods, mem_goodsFrom] at hiff
  constructor
  · exact fun hgood => (hiff.mp ⟨hik, hgood⟩).2.2
  · exact fun hgood => (hiff.mpr ⟨Nat.le_add_right q i, by lia, hgood⟩).2

/-!
## The dump
-/

theorem Holding.good_eq (h : Holding erasesize (erasesize * q) d [] k (padded erasesize image) s) :
    s.dev.Good = d.Good := by
  rw [h.dev]
  rfl

theorem Holding.goods_eq (h : Holding erasesize (erasesize * q) d [] k (padded erasesize image) s)
    (i : Nat) : goods s.dev i = goods d i := by
  rw [h.dev]
  rfl

theorem Holding.lastPiece (hE : 0 < erasesize) (hn : 0 < image.length)
    (h : Holding erasesize (erasesize * q) d [] k (padded erasesize image) s) :
    exists first,
      IsLeast { i | Nat.count d.Good i = blocksFor erasesize image.length - 1 } first ∧
      IsGreatest { i | Nat.count d.Good i = blocksFor erasesize image.length - 1 } (k - 1) ∧
      LastPiece erasesize (erasesize * q) s.dev image.length first (k - 1) := by
  rcases h.last_good hE hn with ⟨hk, hlast, hprev⟩
  rcases blocksFor_spec hE hn with ⟨hpos, hlower, hupper⟩
  have hex : exists i, Nat.count d.Good i = blocksFor erasesize image.length - 1 := ⟨k - 1, hprev⟩
  have hfirst := Nat.find_spec hex
  have hleast : forall {i}, Nat.count d.Good i = blocksFor erasesize image.length - 1 ->
      Nat.find hex ≤ i := fun hi => Nat.find_min' hex hi
  have hmul : erasesize * blocksFor erasesize image.length =
      erasesize * (blocksFor erasesize image.length - 1) + erasesize := by
    rw [← Nat.mul_succ]
    congr 1
    lia
  generalize Nat.find hex = first at hfirst hleast
  have hle : first ≤ k - 1 := hleast hprev
  have hreport : s.dev.report = d.report := by
    rw [h.dev]
    rfl
  have hsize : s.dev.size = d.size := by
    rw [h.dev]
    rfl
  refine ⟨first, ⟨hfirst, fun i hi => hleast hi⟩, ⟨hprev, ?_⟩, ?_⟩
  · intro i hi
    have hcount : Nat.count d.Good i = blocksFor erasesize image.length - 1 := hi
    have hlt : i < k := (h.lt_iff hE hn).mp (by lia)
    lia
  · refine ⟨?_, ?_, ⟨hle, ?_, ?_⟩, ?_, ?_, ?_⟩
    · have := h.inside (k - 1) (mem_goods.mpr ⟨by lia, hlast⟩)
      rw [Nat.mul_succ, hsize]
      lia
    · intro i hi
      rw [hreport]
      exact h.known i (by lia)
    · intro i hfi hik
      -- no block is counted between `first` and the last one
      have hlow := Nat.count_monotone d.Good hfi
      have hhigh := Nat.count_monotone d.Good (show i + 1 ≤ k - 1 by lia)
      have hsucc := Nat.count_succ d.Good i
      have hnot : ¬ d.Good i := by
        intro hgood
        rw [if_pos hgood] at hsucc
        lia
      have hne : d.report i ≠ 0 := hnot
      have hge := h.known i (by lia)
      rw [hreport]
      lia
    · rw [h.good_eq]
      exact hlast
    · intro i hi
      have hmono := Nat.count_monotone d.Good (Nat.le_of_lt hi)
      have hne : Nat.count d.Good i ≠ blocksFor erasesize image.length - 1 := by
        intro heq
        have := hleast heq
        lia
      have hsucc := Nat.mul_le_mul_left erasesize
        (show Nat.count d.Good i + 1 ≤ blocksFor erasesize image.length - 1 by lia)
      rw [h.goods_eq, goods_length]
      rw [Nat.mul_succ] at hsucc
      lia
    · rw [h.goods_eq, goods_length, hfirst]
      exact hlower
    · rw [h.goods_eq, goods_length, hfirst]
      lia

theorem Holding.contents_split {first : Nat}
    (h : Holding erasesize (erasesize * q) d [] k (padded erasesize image) s) (hk : 0 < k)
    (hnext : NextGood d first (k - 1)) :
    padded erasesize image = contents erasesize (erasesize * q) s.dev first s.dev.mem ++
      window s.dev.mem (erasesize * q + erasesize * (k - 1)) erasesize := by
  have hgoods := hnext.goods_succ
  rw [Nat.sub_add_cancel hk] at hgoods
  rw [← h.data]
  unfold contents
  rw [hgoods, List.flatMap_append, List.flatMap_singleton, h.goods_eq]

theorem take_padded (erasesize : Nat) (image : Bytes) :
    (padded erasesize image).take image.length = image := by
  unfold padded
  exact List.take_left

theorem Holding.dump (hE : 0 < erasesize) (hn : 0 < image.length)
    (h : Holding erasesize (erasesize * q) d [] k (padded erasesize image) s) :
    exists first last shift out,
      IsLeast { i | Nat.count d.Good i = blocksFor erasesize image.length - 1 } first ∧
      IsGreatest { i | Nat.count d.Good i = blocksFor erasesize image.length - 1 } last ∧
      shift < lastLength erasesize image.length ∧
      lastLength erasesize image.length ∣ erasesize * (last - first) + shift ∧
      mtdDump erasesize s.dev (erasesize * q) image.length = .returned out ∧
      (shift = 0 -> out = image) ∧
      (out = image -> image[erasesize * (blocksFor erasesize image.length - 1)]? =
        image[erasesize * (blocksFor erasesize image.length - 1) + shift]?) := by
  rcases h.lastPiece hE hn with ⟨first, hleast, hgreatest, hpiece⟩
  rcases blocksFor_spec hE hn with ⟨_, hlower, _⟩
  have hcount : (goods s.dev first).length = blocksFor erasesize image.length - 1 := by
    rw [h.goods_eq, goods_length]
    exact hleast.1
  have hr : lastLength erasesize image.length =
      image.length - erasesize * (goods s.dev first).length := by
    rw [hcount]
    rfl
  rcases mtdDump_result hE hpiece hr with ⟨shift, hshift, hdvd, hdump⟩
  have hnext : NextGood d first (k - 1) := by
    have hdev := hpiece.next
    rw [h.dev] at hdev
    exact ⟨hdev.le, hdev.bad, hdev.good⟩
  have hsplit := h.contents_split (h.last_good hE hn).1 hnext
  have hfull : (contents erasesize (erasesize * q) s.dev first s.dev.mem).length =
      erasesize * (blocksFor erasesize image.length - 1) := by
    rw [contents_length, hcount]
  have hfit := hpiece.fit
  have hupper := hpiece.upper
  rw [Nat.mul_succ] at hfit
  rw [hcount] at hr hupper
  generalize lastLength erasesize image.length = r at *
  generalize contents erasesize (erasesize * q) s.dev first s.dev.mem = full at *
  have himage : image = full ++ window s.dev.mem (erasesize * q + erasesize * (k - 1)) r := by
    rw [← take_padded erasesize image, hsplit, List.take_append,
      List.take_of_length_le (by lia)]
    congr 1
    have hslice := window_slice s.dev.mem (erasesize * q + erasesize * (k - 1))
      (show 0 + r ≤ erasesize by lia)
    rw [List.drop_zero] at hslice
    rw [show image.length - full.length = r by lia]
    exact hslice
  refine ⟨first, k - 1, shift, _, hleast, hgreatest, hshift, hdvd, hdump, ?_, ?_⟩
  · rintro rfl
    rw [if_pos (by lia)]
    exact himage.symm
  · intro hout
    by_cases hin : erasesize * q + erasesize * (k - 1) + shift + r ≤ s.dev.size
    · rw [if_pos hin] at hout
      have hleft : image[full.length]? =
          some (s.dev.mem (erasesize * q + erasesize * (k - 1) + shift)) := by
        rw [← hout, List.getElem?_append_right (Nat.le_refl _), Nat.sub_self]
        exact window_getElem? _ _ _ 0 (by lia)
      have hright : image[full.length + shift]? =
          some (s.dev.mem (erasesize * q + erasesize * (k - 1) + shift)) := by
        conv_lhs => rw [himage]
        rw [List.getElem?_append_right (by lia), Nat.add_sub_cancel_left]
        exact window_getElem? _ _ _ shift hshift
      rw [← hfull, hleft, hright]
    · rw [if_neg hin, List.append_nil] at hout
      have := congrArg List.length hout
      lia

/-!
## Runs of one length

Nothing that the writer decides depends on the bytes of the image.
-/

structure Alike (s s' : Writer) : Prop where
  dev : s'.dev = s.dev.withMem s'.dev.mem
  next : s'.next = s.next
  pos : s'.pos = s.pos
  w : s'.w = s.w
  e : s'.e = s.e
  skipped : s'.skipBadBlocks = s.skipBadBlocks
  offset : s'.offset = s.offset
  buflen : s'.buflen = s.buflen
  image : s'.image.length = s.image.length

end

namespace Alike

variable (erasesize partOffset : Nat) {s s' : Writer}

theorem fill (h : Alike s s') : Alike (s.fill erasesize) (s'.fill erasesize) where
  dev := h.dev
  next := h.next
  pos := h.pos
  w := h.w
  e := h.e
  skipped := h.skipped
  offset := h.offset
  buflen := by
    simp only [Writer.fill, List.length_take, h.buflen, h.image]
  image := by
    simp only [Writer.fill, List.length_drop, h.buflen, h.image]

theorem pad (h : Alike s s') : Alike (s.pad erasesize) (s'.pad erasesize) := by
  unfold Writer.pad
  rw [h.buflen]
  split
  · exact ⟨h.dev, h.next, h.pos, h.w, h.e, h.skipped, h.offset, rfl, h.image⟩
  · exact h

theorem skip (h : Alike s s') : Alike (s.skip erasesize) (s'.skip erasesize) where
  dev := h.dev
  next := h.next
  pos := by
    simp only [Writer.skip, Device.lseek, h.pos]
    rw [h.dev]
    rfl
  w := h.w
  e := by simp only [Writer.skip, h.e]
  skipped := by simp only [Writer.skip, h.skipped]
  offset := h.offset
  buflen := h.buflen
  image := h.image

theorem erased (h : Alike s s') {d d' : Device} (hd : d' = d.withMem d'.mem) :
    Alike (s.erased erasesize partOffset d) (s'.erased erasesize partOffset d') where
  dev := hd
  next := h.next
  pos := h.pos
  w := h.w
  e := by simp only [Writer.erased, h.e]
  skipped := h.skipped
  offset := h.offset
  buflen := h.buflen
  image := h.image

theorem write (h : Alike s s') {xs ys : Bytes} (hlen : ys.length = xs.length) :
    (s'.dev.write erasesize s'.pos ys).1 = (s.dev.write erasesize s.pos xs).1 ∧
      (s'.dev.write erasesize s'.pos ys).2 =
        (s.dev.write erasesize s.pos xs).2.withMem (s'.dev.write erasesize s'.pos ys).2.mem := by
  rw [h.pos, h.dev]
  unfold Device.write
  by_cases hok : s.pos < s.dev.size ∧ s.dev.writeOk (s.pos / erasesize) = true
  · simp [Device.withMem, hok, hlen]
  · simp [Device.withMem, hok]

theorem put (h : Alike s s') (len : Nat) :
    (s'.put erasesize len).1 = (s.put erasesize len).1 ∧
      Alike (s.put erasesize len).2 (s'.put erasesize len).2 := by
  have hlen : (window s'.buf s'.offset len).length = (window s.buf s.offset len).length := by simp
  have hwrite := h.write erasesize hlen
  refine ⟨hwrite.1, ⟨hwrite.2, h.next, ?_, h.w, h.e, h.skipped, h.offset, h.buflen, h.image⟩⟩
  simp only [Writer.put]
  rw [hwrite.1, h.pos]

theorem advance (h : Alike s s') : Alike s.advance s'.advance where
  dev := h.dev
  next := h.next
  pos := h.pos
  w := by simp only [Writer.advance, h.w, h.buflen]
  e := h.e
  skipped := h.skipped
  offset := rfl
  buflen := rfl
  image := h.image

theorem drain (h : Alike s s') : Alike (s.drain erasesize) (s'.drain erasesize) := by
  unfold Writer.drain
  rw [h.w, h.e]
  split
  · have hput := (h.put erasesize (s.e - s.w)).2
    exact ⟨hput.dev, hput.next, hput.pos, hput.w, hput.e, hput.skipped, rfl, hput.buflen,
      hput.image⟩
  · exact h

theorem reopen (h : Alike s s') (d : Device) (rest : List Device) :
    Alike (s.reopen partOffset d rest) (s'.reopen partOffset d rest) :=
  ⟨rfl, rfl, rfl, rfl, rfl, h.skipped, h.offset, h.buflen, h.image⟩

def Ends : Erased -> Erased -> Prop
  | .ready s, .ready s' => Alike s s'
  | .full s, .full s' => Alike s s'
  | .exit, .exit => True
  | .hung, .hung => True
  | _, _ => False

theorem eraseLoop (h : Alike s s') (fuel : Nat) :
    Ends (eraseLoop erasesize partOffset fuel s) (eraseLoop erasesize partOffset fuel s') := by
  induction fuel generalizing s s' with
  | zero => trivial
  | succ fuel ih =>
      have hbad : s'.dev.blockIsBad erasesize s'.e = s.dev.blockIsBad erasesize s.e := by
        rw [h.e, h.dev]
        rfl
      unfold Tool.eraseLoop
      rw [h.w, h.buflen, h.skipped, h.e, ← h.e, hbad, h.e]
      split
      · split
        · trivial
        · split
          · exact ih (h.skip erasesize)
          · have herase : s'.dev.eraseBlock erasesize (s.e + partOffset) =
                (s.dev.eraseBlock erasesize (s.e + partOffset)).map fun d =>
                  d.withMem (overwrite s'.dev.mem (s.e + partOffset)
                    (List.replicate erasesize 0xff)) := by
              rw [h.dev]
              unfold Device.eraseBlock
              by_cases hok : s.e + partOffset + erasesize ≤ s.dev.size ∧
                  s.dev.eraseOk ((s.e + partOffset) / erasesize) = true
              · simp [Device.withMem, hok]
              · simp [Device.withMem, hok]
            rw [herase]
            cases s.dev.eraseBlock erasesize (s.e + partOffset) with
            | none => exact h
            | some d => exact ih (h.erased erasesize partOffset rfl)
      · exact h

theorem writeLoop (h : Alike s s') {fuel : Nat} {t : Writer}
    (hrun : writeLoop erasesize partOffset fuel s = .done t) :
    exists t', writeLoop erasesize partOffset fuel s' = .done t' := by
  induction fuel generalizing s s' with
  | zero => cases hrun
  | succ fuel ih =>
      unfold Tool.writeLoop at hrun ⊢
      rw [(h.fill erasesize).buflen]
      split at hrun
      · rename_i hzero
        exact ⟨_, if_pos hzero⟩
      · rename_i hne
        rw [if_neg hne]
        have hends := ((h.fill erasesize).pad erasesize).eraseLoop erasesize partOffset fuel
        revert hrun hends
        generalize Tool.eraseLoop erasesize partOffset fuel ((s.fill erasesize).pad erasesize) = r
        generalize Tool.eraseLoop erasesize partOffset fuel ((s'.fill erasesize).pad erasesize) = r'
        intro hrun hends
        cases r with
        | ready u =>
            cases r' with
            | ready u' =>
                have hu : Alike u u' := hends
                have hput := hu.put erasesize u.buflen
                simp only at hrun ⊢
                rw [hu.buflen, hput.1]
                split at hrun
                · cases hrun
                · rename_i hge
                  rw [if_neg hge]
                  exact ih hput.2.advance hrun
            | full u' => cases hends
            | exit => cases hends
            | hung => cases hends
        | full u =>
            cases r' with
            | full u' =>
                have hu : Alike u u' := hends
                simp only at hrun ⊢
                rw [hu.next]
                cases hnext : u.next with
                | nil =>
                    rw [hnext] at hrun
                    cases hrun
                | cons d rest =>
                    rw [hnext] at hrun
                    exact ih ((hu.drain erasesize).reopen partOffset d rest) hrun
            | ready u' => cases hends
            | exit => cases hends
            | hung => cases hends
        | exit => cases hrun
        | hung => cases hrun

theorem start {d : Device} {next : List Device} {heap : Nat -> UInt8} {held : Nat}
    {image image' : Bytes} (h : image'.length = image.length) :
    Alike (start partOffset d next heap held image) (start partOffset d next heap held image') :=
  ⟨rfl, rfl, rfl, rfl, rfl, rfl, rfl, by simp [Tool.start, h], by simp [Tool.start, h]⟩

end Alike

/-!
## Reading back
-/

section

variable {erasesize q n : Nat} {d : Device}

/-- An image whose last piece starts with a byte of its own. -/
def probe (erasesize n : Nat) : Bytes :=
  List.replicate (erasesize * (blocksFor erasesize n - 1)) 0 ++
    1 :: List.replicate (lastLength erasesize n - 1) 0

theorem probe_length (hE : 0 < erasesize) (hn : 0 < n) : (probe erasesize n).length = n := by
  have hlower := (blocksFor_spec hE hn).2.1
  simp only [probe, lastLength, List.length_append, List.length_cons, List.length_replicate]
  lia

theorem probe_ne {shift : Nat} (hpos : shift ≠ 0) (hshift : shift < lastLength erasesize n) :
    (probe erasesize n)[erasesize * (blocksFor erasesize n - 1)]? ≠
      (probe erasesize n)[erasesize * (blocksFor erasesize n - 1) + shift]? := by
  obtain ⟨j, rfl⟩ := Nat.exists_eq_succ_of_ne_zero hpos
  unfold probe
  rw [List.getElem?_append_right (by simp), List.getElem?_append_right (by simp)]
  simp only [List.length_replicate, Nat.sub_self, Nat.add_sub_cancel_left, List.getElem?_cons_zero,
    List.getElem?_cons_succ]
  rw [List.getElem?_replicate, if_pos (by lia)]
  decide

/-- Among the runs with `n` bytes on one device, every one that completes leaves the image in
the first good blocks from the offset on and reads it back, exactly when the blocks behind
the offset are bad where those at the start are and the last piece steps evenly. -/
theorem write_dump_iff (hE : 0 < erasesize) (hn : 0 < n)
    (hc : exists heap held image s, held ≤ erasesize ∧ image.length = n ∧
      Completes erasesize q d heap held image s) :
    (forall heap held image s, held ≤ erasesize -> image.length = n ->
      Completes erasesize q d heap held image s ->
      PlacedFrom erasesize q d image s ∧
        mtdDump erasesize s.dev (erasesize * q) n = .returned image) <->
    Aligned d q (blocksFor erasesize n) ∧ Stepped erasesize d n := by
  constructor
  · intro hall
    rcases hc with ⟨heap, held, image, s, hheld, rfl, fuel, hrun⟩
    have hlen := probe_length hE hn
    rcases (Alike.start (erasesize * q) hlen).writeLoop erasesize (erasesize * q) hrun with
      ⟨t, ht⟩
    have hcomp : Completes erasesize q d heap held (probe erasesize image.length) t := ⟨fuel, ht⟩
    rcases hall heap held _ t hheld hlen hcomp with ⟨hplaced, hback⟩
    rcases hcomp.holding hE hheld with ⟨k, hold⟩
    have hpos : 0 < (probe erasesize image.length).length := by lia
    have haligned := aligned_of_placedFrom hE hpos hold hplaced
    rcases hold.dump hE hpos with
      ⟨first, last, shift, out, hleast, hgreatest, hshift, hdvd, hdump, _, hsame⟩
    rw [hlen] at haligned hleast hgreatest hshift hdvd hdump hsame
    refine ⟨haligned, ?_⟩
    intro first' last' hleast' hgreatest'
    rw [hleast'.unique hleast, hgreatest'.unique hgreatest]
    have hout : out = probe erasesize image.length := by
      rw [hback] at hdump
      exact (Dumped.returned.inj hdump).symm
    have hzero : shift = 0 := by
      by_contra hne
      exact probe_ne hne hshift (hsame hout)
    rw [hzero, Nat.add_zero] at hdvd
    exact hdvd
  · rintro ⟨haligned, hstepped⟩ heap held image s hheld rfl hcomp
    rcases hcomp.holding hE hheld with ⟨k, hold⟩
    refine ⟨placedFrom_of_aligned hE hn hold haligned, ?_⟩
    rcases hold.dump hE hn with
      ⟨first, last, shift, out, hleast, hgreatest, hshift, hdvd, hdump, himage, _⟩
    have hdvd' := hstepped first last hleast hgreatest
    have hzero : shift = 0 :=
      Nat.eq_zero_of_dvd_of_lt ((Nat.dvd_add_right hdvd').mp hdvd) hshift
    rw [hdump, himage hzero]

end

def nandWith (size : Nat) (bad : Nat -> Bool) : Device :=
  { size := size
    nand := true
    status := fun i => if bad i then 1 else 0
    eraseOk := fun i => !bad i
    writeOk := fun i => !bad i
    mem := fun _ => 0 }

def Outcome.passes (test : Writer -> Bool) : Outcome -> Bool
  | .done s => test s
  | _ => false

theorem Outcome.exists_of_passes {o : Outcome} {test : Writer -> Bool}
    (h : o.passes test = true) : exists s, o = .done s ∧ test s = true := by
  cases o with
  | done s => exact ⟨s, rfl, h⟩
  | exit => cases h
  | hung => cases h

/-- Every second block is bad, and so from the offset on. -/
theorem write_dump_every_second :
    (exists heap held image s, held ≤ 2 ∧ image.length = 3 ∧
      Completes 2 2 (nandWith 10 fun i => i % 2 == 1) heap held image s) ∧
    forall heap held image s, held ≤ 2 -> image.length = 3 ->
      Completes 2 2 (nandWith 10 fun i => i % 2 == 1) heap held image s ->
      PlacedFrom 2 2 (nandWith 10 fun i => i % 2 == 1) image s ∧
        mtdDump 2 s.dev (2 * 2) 3 = .returned image := by
  have hc : exists heap held image s, held ≤ 2 ∧ image.length = 3 ∧
      Completes 2 2 (nandWith 10 fun i => i % 2 == 1) heap held image s := by
    have hrun : (mtdWrite 2 (2 * 2) 10 (nandWith 10 fun i => i % 2 == 1) [] (fun _ => 0) 0
        [1, 2, 3]).passes (fun _ => true) = true := by decide +kernel
    rcases Outcome.exists_of_passes hrun with ⟨s, hs, _⟩
    exact ⟨fun _ => 0, 0, [1, 2, 3], s, by decide, rfl, 10, hs⟩
  refine ⟨hc, (write_dump_iff (by decide) (by decide) hc).mpr ⟨?_, ?_⟩⟩
  · intro i _
    simp [Device.Good, Device.report, nandWith]
  · intro first last _ _
    exact Nat.one_dvd _

/-- A bad block at the start of the device moves an image that is written behind it, and
a dump of two bytes steps into the block behind a bad one. -/
theorem write_dump_fails :
    (exists s, Completes 2 1 (nandWith 8 fun i => i == 0) (fun _ => 0) 0 [10, 11] s ∧
      ¬ PlacedFrom 2 1 (nandWith 8 fun i => i == 0) [10, 11] s) ∧
    exists s, Completes 3 0 (nandWith 9 fun i => i == 0) (fun _ => 0) 0 [7, 8] s ∧
      mtdDump 3 s.dev 0 2 ≠ .returned [7, 8] := by
  constructor
  · have hrun : (mtdWrite 2 (2 * 1) 10 (nandWith 8 fun i => i == 0) [] (fun _ => 0) 0
        [10, 11]).passes (fun _ => true) = true := by decide +kernel
    rcases Outcome.exists_of_passes hrun with ⟨s, hs, _⟩
    have hcomp : Completes 2 1 (nandWith 8 fun i => i == 0) (fun _ => 0) 0 [10, 11] s := ⟨10, hs⟩
    refine ⟨s, hcomp, ?_⟩
    intro hplaced
    rcases hcomp.holding (by decide) (by decide) with ⟨k, hold⟩
    have haligned := aligned_of_placedFrom (by decide) (by decide) hold hplaced
    exact absurd ((haligned 0 (by decide)).mpr (by decide)) (by decide)
  · have hrun : (mtdWrite 3 (3 * 0) 10 (nandWith 9 fun i => i == 0) [] (fun _ => 0) 0
        [7, 8]).passes (fun s => decide (mtdDump 3 s.dev 0 2 = .returned [8, 0xff])) = true := by
      decide +kernel
    rcases Outcome.exists_of_passes hrun with ⟨s, hs, hdump⟩
    refine ⟨s, ⟨10, hs⟩, ?_⟩
    rw [of_decide_eq_true hdump]
    decide

end Tool
end Mtd
end Hlk7621
