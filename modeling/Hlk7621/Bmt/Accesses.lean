import Hlk7621.Bmt.Reboot

/-!
# The accesses to the BMT v2 table

Every word of `bbt_buf` that the functions read or write through `bb_tbl` and the pool
table, in order.  The buffer has room for `bmt_table_size` pool entries behind its header,
but the pool table starts behind `bb_tbl`, and the indices are not compared with its end.
-/

namespace Hlk7621
namespace Bmt
namespace V2

section

variable (G : Geometry) (C : Chip)

/-- The words of `bb_tbl[i]`, `bmt_tbl(bbt)[i].block` and `bmt_tbl(bbt)[i].mapped`. -/
def atBb (i : Nat) : Nat := 2 + i

def atBlock (i : Nat) : Nat := 2 + G.tableSize + 2 * i

def atMapped (i : Nat) : Nat := 2 + G.tableSize + 2 * i + 1

/-- `get_bmt_index` from entry `i` on: the index as a `u16`, and the accesses.  The walk is
followed far enough to leave the buffer. -/
def indexWalk (t : Words) : Nat -> Nat -> Nat × List Nat
  | 0, _ => (0, [])
  | fuel + 1, i =>
      if t.block G.tableSize i ≠ 0 then
        if t.mapped G.tableSize i = BMT_MAPPED then (i % 2 ^ 16, [atBlock G i, atMapped G i])
        else
          let r := indexWalk t fuel (i + 1)
          (r.1, atBlock G i :: atMapped G i :: r.2)
      else (0, [atBlock G i])

/-- The memory after the buffer was read from block `b`. -/
def loaded (f : Flash) (b : Nat) (t : Words) : Words :=
  fun i => if i < G.bufWords then (f.blocks b).words i else t i

/-- The search of `mtk_bmt_init_v2`. -/
def searchWalk (f : Flash) : Nat -> Words -> Search × List Nat
  | 0, t => (.missing t, [])
  | n + 1, t =>
      let b := G.poolLba + n
      let r := G.readBlk b
      if C.readOk r then
        let t := loaded G f r t
        if isValidBmt (f.blocks r) then
          let walk := indexWalk G t (G.bufWords + 1) 0
          (if walk.1 = 0 then .wrongIndex t else .found b t walk.1, walk.2)
        else searchWalk f n t
      else searchWalk f n t

/-- `scan_bad_blocks` on the mapped blocks. -/
def scanBlocksAccesses (f : Flash) : Nat -> Nat -> Words -> List Nat
  | 0, _, _ => []
  | n + 1, i, t =>
      let b := findValidBlock G C f (t.bbTbl (i - 1) + 1)
      atBb (i - 1) :: atBb i ::
        if b = 0 then [] else scanBlocksAccesses f n (i + 1) (t.setBb i b)

def scanPoolAccesses (f : Flash) : Nat -> Nat -> Nat -> List Nat
  | 0, _, _ => []
  | fuel + 1, b, i =>
      let b := findValidBlock G C f b
      if b = 0 then []
      else atBlock G i :: atMapped G i :: scanPoolAccesses f fuel (b + 1) (i + 1)

/-- The mark of the last entry is set before the number of entries is looked at. -/
def markPoolAccesses (f : Flash) (t : Words) : List Nat :=
  let poolPba := t.bbTbl (G.poolLba - 1) + 1
  atBb (G.poolLba - 1) ::
    if G.totalBlks ≤ poolPba + 2 then []
    else
      let r := scanPool G C f G.totalBlks poolPba 0 t
      scanPoolAccesses G C f G.totalBlks poolPba 0 ++ [atMapped G ((r.2 + 2 ^ 16 - 1) % 2 ^ 16)]

def scanBadBlocksAccesses (f : Flash) (t : Words) : List Nat :=
  let t := t.setBb 0 0
  atBb 0 :: scanBlocksAccesses G C f (G.poolLba - 1) 1 t ++
    match scanBlocks G C f (G.poolLba - 1) 1 t with
    | none => []
    | some t => markPoolAccesses G C f t

def uploadBmtAccesses : Nat -> Words -> Flash -> List Nat
  | n, t, f =>
      atMapped G n ::
        if t.mapped G.tableSize n = NORMAL_MAPPED then []
        else
          atBlock G n ::
            match tryUpload G C n t f with
            | (true, _, _) => []
            | (false, t, f) =>
                match n with
                | 0 => []
                | n + 1 => uploadBmtAccesses n t f

/-- The words that `memset` clears. -/
def clearPoolAccesses : List Nat := List.range' (2 + G.tableSize) (2 * G.tableSize)

/-- The entry of the table is looked up before a failure of the upload is noticed. -/
def createAccesses (t : Words) (f : Flash) : List Nat :=
  if G.tableSize + G.tableSize * BBPOOL_RATIO / 100 < G.totalBlks then []
  else
    clearPoolAccesses G ++ scanBadBlocksAccesses G C f (t.clearPool G.tableSize) ++
      match scanBadBlocks G C f (t.clearPool G.tableSize) with
      | none => []
      | some r => uploadBmtAccesses G C r.2 r.1 f ++ [atBlock G (uploadBmt G C r.2 r.1 f).1]

/-- `mtk_bmt_init_v2`. -/
def init (heap : Words) (f : Flash) : Option World × List Nat :=
  let s := searchWalk G C f (G.totalBlks - G.poolLba) (buffer G heap)
  match s.1.ended G with
  | .found _ t idx => (some { table := t, bmtBlkIdx := idx, flash := f }, s.2)
  | .wrongIndex t => (create G C t f, s.2 ++ createAccesses G C t f)
  | .missing t => (create G C t f, s.2 ++ createAccesses G C t f)
  | .endless => (none, s.2)

/-- `find_valid_block_in_pool` up to the entry that it takes. -/
def freeEntryAccesses (t : Words) : Nat -> Nat -> List Nat
  | 0, _ => []
  | n + 1, i =>
      atBlock G i ::
        if t.block G.tableSize i ≠ 0 then
          atMapped G i ::
            if t.mapped G.tableSize i = NO_MAPPED then [] else freeEntryAccesses t n (i + 1)
        else freeEntryAccesses t n (i + 1)

/-- `remap_block_v2`. -/
def remapAccesses (r : Remap) (w : World) : List Nat :=
  freeEntryAccesses G w.table w.bmtBlkIdx 0 ++
    match freeEntry G w.table w.bmtBlkIdx 0 with
    | none => []
    | some i =>
        let newBlock := w.table.block G.tableSize i
        let t := (w.table.setMapped G.tableSize i NORMAL_MAPPED).setBb r.block newBlock
        let f := (bbtNandErase C newBlock w.flash).2
        let f := if 0 < r.copyLen then bbtNandCopy C newBlock r.mappedBlock r.copyLen f else f
        [atMapped G i, atBlock G i, atBb r.block] ++ uploadBmtAccesses G C w.bmtBlkIdx t f

def remapAllAccesses : List Remap -> World -> List Nat
  | [], _ => []
  | r :: rs, w =>
      remapAccesses G C r w ++
        remapAllAccesses rs (remapBlock G C r.block r.mappedBlock r.copyLen w).2

/-- The accesses of a run: the initialisation, and the remappings when it succeeds. -/
def runAccesses (heap : Words) (f : Flash) (calls : List Remap) : List Nat :=
  (init G C heap f).2 ++
    match (init G C heap f).1 with
    | none => []
    | some w => remapAllAccesses G C calls w

end

/-!
## The same initialisation
-/

section

variable {G : Geometry} {C : Chip} {f : Flash}

theorem indexWalk_eq (t : Words) (fuel i : Nat) :
    (indexWalk G t fuel i).1 = bmtIndexLoop G t fuel i := by
  induction fuel generalizing i with
  | zero => rfl
  | succ fuel ih =>
      rw [indexWalk, bmtIndexLoop]
      split
      · split
        · rfl
        · exact ih (i + 1)
      · rfl

theorem searchWalk_eq (n : Nat) (t : Words) :
    (searchWalk G C f n t).1 = searchBmt G C f n t := by
  induction n generalizing t with
  | zero => rfl
  | succ n ih =>
      rw [searchWalk, searchBmt]
      dsimp only
      split
      · split
        · dsimp only
          rw [indexWalk_eq]
          rfl
        · exact ih _
      · exact ih t

/-- The accesses are those of the initialisation that the reboot is about. -/
theorem init_eq (heap : Words) : (init G C heap f).1 = mtkBmtInit G C heap f := by
  unfold init mtkBmtInit search
  dsimp only
  rw [searchWalk_eq]
  cases (searchBmt G C f (G.totalBlks - G.poolLba) (buffer G heap)).ended G with
  | found b t idx => rfl
  | wrongIndex t => rfl
  | missing t => rfl
  | endless => rfl

end

/-!
## Where the accesses are
-/

def Inside (G : Geometry) (accesses : List Nat) : Prop :=
  forall a, a ∈ accesses -> a < G.bufWords

section

variable {G : Geometry} {C : Chip} {f : Flash} {t : Words}

theorem inside_nil : Inside G [] := fun _ h => absurd h List.not_mem_nil

theorem inside_cons {a : Nat} {l : List Nat} : Inside G (a :: l) <-> a < G.bufWords ∧ Inside G l :=
  List.forall_mem_cons

theorem inside_append {l l' : List Nat} : Inside G (l ++ l') <-> Inside G l ∧ Inside G l' :=
  List.forall_mem_append

def PoolEnds (G : Geometry) (t : Words) : Prop :=
  exists j, atBlock G j < G.bufWords ∧ (t.block G.tableSize j = 0 ∨
    (atMapped G j < G.bufWords ∧ t.mapped G.tableSize j = BMT_MAPPED))

theorem indexWalk_inside (fuel : Nat) {j i : Nat} (hj : atBlock G j < G.bufWords)
    (hend : t.block G.tableSize j = 0 ∨
      (atMapped G j < G.bufWords ∧ t.mapped G.tableSize j = BMT_MAPPED)) (hi : i ≤ j) :
    Inside G (indexWalk G t fuel i).2 ∧
      ((indexWalk G t fuel i).1 = 0 ∨ atMapped G (indexWalk G t fuel i).1 < G.bufWords) := by
  unfold atBlock at hj
  unfold atMapped at hend
  induction fuel generalizing i with
  | zero => exact ⟨inside_nil, Or.inl rfl⟩
  | succ fuel ih =>
      rw [indexWalk]
      have hblock : atBlock G i < G.bufWords := by
        unfold atBlock
        lia
      by_cases hne : t.block G.tableSize i ≠ 0
      · rw [if_pos hne]
        have hmapped : atMapped G i < G.bufWords := by
          unfold atMapped
          rcases Nat.eq_or_lt_of_le hi with rfl | hlt
          · rcases hend with hzero | hmark
            · exact absurd hzero hne
            · exact hmark.1
          · lia
        by_cases hmark : t.mapped G.tableSize i = BMT_MAPPED
        · rw [if_pos hmark]
          refine ⟨inside_cons.mpr ⟨hblock, inside_cons.mpr ⟨hmapped, inside_nil⟩⟩, Or.inr ?_⟩
          unfold atMapped at hmapped ⊢
          have := Nat.mod_le i (2 ^ 16)
          dsimp only
          lia
        · rw [if_neg hmark]
          have hlt : i ≠ j := by
            rintro rfl
            rcases hend with hzero | hm
            · exact hne hzero
            · exact hmark hm.2
          have hrest := ih (i := i + 1) (by lia)
          exact ⟨inside_cons.mpr ⟨hblock, inside_cons.mpr ⟨hmapped, hrest.1⟩⟩, hrest.2⟩
      · rw [if_neg hne]
        exact ⟨inside_cons.mpr ⟨hblock, inside_nil⟩, Or.inl rfl⟩

theorem poolEnds_loaded {b : Nat} (h : PoolEnds G (f.blocks b).words) :
    PoolEnds G (loaded G f b t) := by
  rcases h with ⟨j, hj, hend⟩
  have hblock : (loaded G f b t).block G.tableSize j = (f.blocks b).words.block G.tableSize j :=
    if_pos hj
  refine ⟨j, hj, ?_⟩
  rw [hblock]
  rcases hend with hzero | ⟨hin, hmark⟩
  · exact Or.inl hzero
  · have hmapped : (loaded G f b t).mapped G.tableSize j =
        (f.blocks b).words.mapped G.tableSize j :=
      if_pos hin
    exact Or.inr ⟨hin, hmapped.trans hmark⟩

/-- The block that is read for pool block `k` is taken for the one of the table. -/
def HasTable (G : Geometry) (C : Chip) (f : Flash) (k : Nat) : Prop :=
  C.readOk (G.readBlk (G.poolLba + k)) = true ∧
    isValidBmt (f.blocks (G.readBlk (G.poolLba + k))) = true

/-- Of the first `n` pool blocks, the highest one that is read with a table has one whose
pool list ends inside the buffer. -/
def StoredEnds (G : Geometry) (C : Chip) (f : Flash) (n : Nat) : Prop :=
  forall k, k < n -> HasTable G C f k -> (forall k', k < k' -> k' < n -> ¬ HasTable G C f k') ->
    PoolEnds G (f.blocks (G.readBlk (G.poolLba + k))).words

theorem StoredEnds.pred {n : Nat} (h : StoredEnds G C f (n + 1)) (hnot : ¬ HasTable G C f n) :
    StoredEnds G C f n := by
  intro k hk htable habove
  refine h k (by lia) htable ?_
  intro k' hlt hk'
  rcases Nat.lt_succ_iff_lt_or_eq.mp hk' with hk' | rfl
  · exact habove k' hlt hk'
  · exact hnot

theorem searchWalk_inside {n : Nat} (h : StoredEnds G C f n) (t : Words) :
    Inside G (searchWalk G C f n t).2 ∧ forall b t' idx,
      (searchWalk G C f n t).1 = .found b t' idx -> atMapped G idx < G.bufWords := by
  induction n generalizing t with
  | zero =>
      refine ⟨inside_nil, ?_⟩
      intro b t' idx hfound
      cases hfound
  | succ n ih =>
      rw [searchWalk]
      by_cases hread : C.readOk (G.readBlk (G.poolLba + n)) = true
      · rw [if_pos hread]
        by_cases hvalid : isValidBmt (f.blocks (G.readBlk (G.poolLba + n))) = true
        · have hends : PoolEnds G (loaded G f (G.readBlk (G.poolLba + n)) t) :=
            poolEnds_loaded (h n (Nat.lt_succ_self n) ⟨hread, hvalid⟩ fun k' hlt hk' => by lia)
          rcases hends with ⟨j, hj, hend⟩
          have hwalk := indexWalk_inside (G.bufWords + 1) hj hend (Nat.zero_le j)
          dsimp only
          rw [if_pos hvalid]
          refine ⟨hwalk.1, ?_⟩
          intro b t' idx hfound
          dsimp only at hfound
          split at hfound
          · cases hfound
          · rename_i hne
            cases hfound
            rcases hwalk.2 with hzero | hin
            · exact absurd hzero hne
            · exact hin
        · dsimp only
          rw [if_neg hvalid]
          exact ih (h.pred fun htable => hvalid htable.2) _
      · rw [if_neg hread]
        exact ih (h.pred fun htable => hread htable.1) t

/-!
## A new table
-/

theorem scanBlocks_accesses (hroom : 2 + G.totalBlks < G.bufWords) {n i : Nat} {t : Words}
    (hi : 1 ≤ i) (hprev : i - 1 ≤ t.bbTbl (i - 1)) (hlt : t.bbTbl (i - 1) < G.totalBlks) :
    Inside G (scanBlocksAccesses G C f n i t) ∧
      forall t', scanBlocks G C f n i t = some t' ->
        i + n - 1 ≤ t'.bbTbl (i + n - 1) ∧ t'.bbTbl (i + n - 1) < G.totalBlks := by
  induction n generalizing i t with
  | zero =>
      refine ⟨inside_nil, ?_⟩
      intro t' h
      cases h
      exact ⟨hprev, hlt⟩
  | succ n ih =>
      rw [scanBlocksAccesses, scanBlocks]
      have hin : atBb (i - 1) < G.bufWords ∧ atBb i < G.bufWords := by
        unfold atBb
        lia
      by_cases hzero : findValidBlock G C f (t.bbTbl (i - 1) + 1) = 0
      · rw [if_pos hzero, if_pos hzero]
        refine ⟨inside_cons.mpr ⟨hin.1, inside_cons.mpr ⟨hin.2, inside_nil⟩⟩, ?_⟩
        intro t' h
        cases h
      · rw [if_neg hzero, if_neg hzero]
        rcases findValidLoop_ne_zero hzero with ⟨hge, hbelow, _⟩
        have hstep : (t.setBb i (findValidBlock G C f (t.bbTbl (i - 1) + 1))).bbTbl (i + 1 - 1) =
            findValidBlock G C f (t.bbTbl (i - 1) + 1) := by
          rw [Nat.add_sub_cancel, Words.bbTbl_setBb, if_pos rfl]
        have hrest := ih (i := i + 1) (by lia) (by
          rw [hstep, Nat.add_sub_cancel]
          exact Nat.le_trans (by lia) hge) (by
          rw [hstep]
          exact hbelow)
        rw [show i + (n + 1) - 1 = i + 1 + n - 1 by lia]
        exact ⟨inside_cons.mpr ⟨hin.1, inside_cons.mpr ⟨hin.2, hrest.1⟩⟩, hrest.2⟩

theorem scanPool_accesses {fuel b i : Nat} {t : Words}
    (hroom : 2 + G.tableSize + 2 * (scanPool G C f fuel b i t).2 ≤ G.bufWords) :
    Inside G (scanPoolAccesses G C f fuel b i) ∧ i ≤ (scanPool G C f fuel b i t).2 := by
  induction fuel generalizing b i t with
  | zero => exact ⟨inside_nil, Nat.le_refl i⟩
  | succ fuel ih =>
      rw [scanPool] at hroom ⊢
      rw [scanPoolAccesses]
      by_cases hzero : findValidBlock G C f b = 0
      · rw [if_pos hzero]
        rw [if_pos hzero] at hroom ⊢
        exact ⟨inside_nil, Nat.le_refl i⟩
      · rw [if_neg hzero]
        rw [if_neg hzero] at hroom ⊢
        rcases ih hroom with ⟨hrest, hle⟩
        have hin : atBlock G i < G.bufWords ∧ atMapped G i < G.bufWords := by
          unfold atBlock atMapped
          lia
        exact ⟨inside_cons.mpr ⟨hin.1, inside_cons.mpr ⟨hin.2, hrest⟩⟩, by lia⟩

/-- An upload stays at or below the entry that it starts from. -/
theorem uploadBmt_accesses {n : Nat} {t : Words} {f : Flash} (hn : atMapped G n < G.bufWords) :
    Inside G (uploadBmtAccesses G C n t f) ∧
      ((uploadBmt G C n t f).1 = 0xffff ∨ (uploadBmt G C n t f).1 ≤ n) := by
  have hblock : forall {n : Nat}, atMapped G n < G.bufWords -> atBlock G n < G.bufWords := by
    intro n h
    unfold atMapped at h
    unfold atBlock
    lia
  induction n generalizing t f with
  | zero =>
      rw [uploadBmtAccesses, uploadBmt]
      by_cases hmapped : t.mapped G.tableSize 0 = NORMAL_MAPPED
      · rw [if_pos hmapped, if_pos hmapped]
        exact ⟨inside_cons.mpr ⟨hn, inside_nil⟩, Or.inl rfl⟩
      · rw [if_neg hmapped, if_neg hmapped, inside_cons, inside_cons]
        rcases tryUpload G C 0 t f with ⟨done, t', f'⟩
        cases done with
        | true => exact ⟨⟨hn, hblock hn, inside_nil⟩, Or.inr (Nat.le_refl _)⟩
        | false => exact ⟨⟨hn, hblock hn, inside_nil⟩, Or.inl rfl⟩
  | succ n ih =>
      rw [uploadBmtAccesses, uploadBmt]
      by_cases hmapped : t.mapped G.tableSize (n + 1) = NORMAL_MAPPED
      · rw [if_pos hmapped, if_pos hmapped]
        exact ⟨inside_cons.mpr ⟨hn, inside_nil⟩, Or.inl rfl⟩
      · rw [if_neg hmapped, if_neg hmapped, inside_cons, inside_cons]
        rcases tryUpload G C (n + 1) t f with ⟨done, t', f'⟩
        cases done with
        | true => exact ⟨⟨hn, hblock hn, inside_nil⟩, Or.inr (Nat.le_refl _)⟩
        | false =>
            have hlower : atMapped G n < G.bufWords := by
              unfold atMapped at hn ⊢
              lia
            have hrest := ih (t := t') (f := f') hlower
            refine ⟨⟨hn, hblock hn, hrest.1⟩, ?_⟩
            rcases hrest.2 with hnone | hle
            · exact Or.inl hnone
            · exact Or.inr (Nat.le_succ_of_le hle)

/-- What a new table needs: room for what `memset` clears, one good block in the pool, room
for all of them, and a block that takes the table. -/
structure CreateFine (G : Geometry) (C : Chip) (t : Words) (f : Flash) : Prop where
  cleared : 2 + 3 * G.tableSize ≤ G.bufWords
  pool : forall t', scanBlocks G C f (G.poolLba - 1) 1 ((t.clearPool G.tableSize).setBb 0 0) =
      some t' ->
    ¬ G.totalBlks ≤ t'.bbTbl (G.poolLba - 1) + 1 + 2 ->
    let r := scanPool G C f G.totalBlks (t'.bbTbl (G.poolLba - 1) + 1) 0 t'
    (r.2 = 0 -> atMapped G 0xffff < G.bufWords) ∧ 2 + G.tableSize + 2 * r.2 ≤ G.bufWords
  taken : forall r, scanBadBlocks G C f (t.clearPool G.tableSize) = some r ->
    (uploadBmt G C r.2 r.1 f).1 = 0xffff -> atBlock G 0xffff < G.bufWords

theorem markPool_accesses (hroom : 2 + G.totalBlks < G.bufWords)
    (hlast : G.poolLba - 1 ≤ G.totalBlks)
    (hpool : ¬ G.totalBlks ≤ t.bbTbl (G.poolLba - 1) + 1 + 2 ->
      let r := scanPool G C f G.totalBlks (t.bbTbl (G.poolLba - 1) + 1) 0 t
      (r.2 = 0 -> atMapped G 0xffff < G.bufWords) ∧ 2 + G.tableSize + 2 * r.2 ≤ G.bufWords) :
    Inside G (markPoolAccesses G C f t) ∧
      forall r, markPool G C f t = some r -> atMapped G r.2 < G.bufWords := by
  have hbb : atBb (G.poolLba - 1) < G.bufWords := by
    unfold atBb
    lia
  unfold markPoolAccesses markPool
  dsimp only at hpool ⊢
  by_cases hmany : G.totalBlks ≤ t.bbTbl (G.poolLba - 1) + 1 + 2
  · rw [if_pos hmany, if_pos hmany]
    refine ⟨inside_cons.mpr ⟨hbb, inside_nil⟩, ?_⟩
    intro r hr
    cases hr
  · rw [if_neg hmany, if_neg hmany]
    rcases hpool hmany with ⟨hnone, hfits⟩
    have hscan := (scanPool_accesses hfits).1
    generalize scanPool G C f G.totalBlks (t.bbTbl (G.poolLba - 1) + 1) 0 t = r at *
    have hmark : 1 ≤ r.2 -> atMapped G (r.2 - 1) < G.bufWords := by
      intro hsome
      unfold atMapped
      lia
    constructor
    · refine inside_cons.mpr ⟨hbb, inside_append.mpr ⟨hscan, inside_cons.mpr ⟨?_, inside_nil⟩⟩⟩
      by_cases hsome : 1 ≤ r.2
      · have hle : (r.2 + 2 ^ 16 - 1) % 2 ^ 16 ≤ r.2 - 1 := by lia
        have := hmark hsome
        unfold atMapped at this ⊢
        lia
      · have hzero : r.2 = 0 := by lia
        rw [hzero]
        exact hnone hzero
    · intro r' hr'
      by_cases hfew : r.2 < 1
      · rw [if_pos hfew] at hr'
        cases hr'
      · rw [if_neg hfew] at hr'
        cases hr'
        exact hmark (by lia)

theorem scanBadBlocks_accesses (hroom : 2 + G.totalBlks < G.bufWords) (htotal : 0 < G.totalBlks)
    (hpool : forall t', scanBlocks G C f (G.poolLba - 1) 1 (t.setBb 0 0) = some t' ->
      ¬ G.totalBlks ≤ t'.bbTbl (G.poolLba - 1) + 1 + 2 ->
      let r := scanPool G C f G.totalBlks (t'.bbTbl (G.poolLba - 1) + 1) 0 t'
      (r.2 = 0 -> atMapped G 0xffff < G.bufWords) ∧ 2 + G.tableSize + 2 * r.2 ≤ G.bufWords) :
    Inside G (scanBadBlocksAccesses G C f t) ∧
      forall r, scanBadBlocks G C f t = some r -> atMapped G r.2 < G.bufWords := by
  have hfirst : (t.setBb 0 0).bbTbl (1 - 1) = 0 := by
    rw [Words.bbTbl_setBb, if_pos rfl]
  have hbb : atBb 0 < G.bufWords := by
    unfold atBb
    lia
  have hscan := scanBlocks_accesses (C := C) (f := f) (n := G.poolLba - 1) hroom (Nat.le_refl 1)
    (Nat.zero_le _) (by rw [hfirst]; exact htotal)
  unfold scanBadBlocksAccesses scanBadBlocks
  dsimp only
  rw [List.cons_append, inside_cons, inside_append]
  cases hblocks : scanBlocks G C f (G.poolLba - 1) 1 (t.setBb 0 0) with
  | none =>
      refine ⟨⟨hbb, hscan.1, inside_nil⟩, ?_⟩
      intro r hr
      cases hr
  | some t' =>
      have hend := hscan.2 t' hblocks
      rw [Nat.add_sub_cancel_left] at hend
      have hmark := markPool_accesses (C := C) (f := f) (t := t') hroom (by lia) (hpool t' hblocks)
      exact ⟨⟨hbb, hscan.1, hmark.1⟩, hmark.2⟩

theorem createAccesses_inside (htotal : 0 < G.totalBlks)
    (h : G.totalBlks ≤ G.tableSize + G.tableSize * BBPOOL_RATIO / 100 -> CreateFine G C t f) :
    Inside G (createAccesses G C t f) ∧ forall w, create G C t f = some w ->
      atMapped G w.bmtBlkIdx < G.bufWords := by
  unfold createAccesses create
  by_cases hmany : G.tableSize + G.tableSize * BBPOOL_RATIO / 100 < G.totalBlks
  · rw [if_pos hmany, if_pos hmany]
    refine ⟨inside_nil, ?_⟩
    intro w hw
    cases hw
  · rw [if_neg hmany, if_neg hmany]
    have hfine := h (by lia)
    have hcleared := hfine.cleared
    have hroom : 2 + G.totalBlks < G.bufWords := by
      unfold BBPOOL_RATIO at hmany
      lia
    have hclear : Inside G (clearPoolAccesses G) := by
      intro a ha
      unfold clearPoolAccesses at ha
      rw [List.mem_range'_1] at ha
      lia
    have hscan := scanBadBlocks_accesses hroom htotal hfine.pool
    rw [inside_append, inside_append]
    cases hblocks : scanBadBlocks G C f (t.clearPool G.tableSize) with
    | none =>
        refine ⟨⟨⟨hclear, hscan.1⟩, inside_nil⟩, ?_⟩
        intro w hw
        cases hw
    | some r =>
        have hupload := uploadBmt_accesses (C := C) (t := r.1) (f := f) (hscan.2 r hblocks)
        have hmark : (uploadBmt G C r.2 r.1 f).1 ≠ 0xffff ->
            atMapped G (uploadBmt G C r.2 r.1 f).1 < G.bufWords := by
          intro hne
          have hlast := hscan.2 r hblocks
          rcases hupload.2 with hnone | hle
          · exact absurd hnone hne
          · unfold atMapped at hlast ⊢
            lia
        have hblock : atBlock G (uploadBmt G C r.2 r.1 f).1 < G.bufWords := by
          by_cases hnone : (uploadBmt G C r.2 r.1 f).1 = 0xffff
          · rw [hnone]
            exact hfine.taken r hblocks hnone
          · have := hmark hnone
            unfold atMapped at this
            unfold atBlock
            lia
        refine ⟨⟨⟨hclear, hscan.1⟩,
          inside_append.mpr ⟨hupload.1, inside_cons.mpr ⟨hblock, inside_nil⟩⟩⟩, ?_⟩
        intro w hw
        rw [Option.bind_some, storeNew] at hw
        by_cases hnone : (uploadBmt G C r.2 r.1 f).1 = 0xffff
        · rw [if_pos hnone] at hw
          cases hw
        · rw [if_neg hnone] at hw
          cases hw
          exact hmark hnone

/-!
## Remappings
-/

theorem freeEntry_accesses {n i : Nat} (h : forall k, k < i + n -> atMapped G k < G.bufWords) :
    Inside G (freeEntryAccesses G t n i) := by
  induction n generalizing i with
  | zero => exact inside_nil
  | succ n ih =>
      have hmapped := h i (by lia)
      have hblock : atBlock G i < G.bufWords := by
        unfold atMapped at hmapped
        unfold atBlock
        lia
      have hrest := ih (i := i + 1) fun k hk => h k (by lia)
      rw [freeEntryAccesses, inside_cons]
      refine ⟨hblock, ?_⟩
      split
      · rw [inside_cons]
        refine ⟨hmapped, ?_⟩
        split
        · exact inside_nil
        · exact hrest
      · exact hrest

/-- The entry of the table is inside the buffer, or the last upload has failed. -/
def IndexInside (G : Geometry) (w : World) : Prop :=
  w.bmtBlkIdx = 0xffff ∨ atMapped G w.bmtBlkIdx < G.bufWords

/-- What a call needs: the block has its place in `bb_tbl` inside the buffer, and the last
upload has not failed. -/
structure CallFine (G : Geometry) (r : Remap) (w : World) : Prop where
  block : atBb r.block < G.bufWords
  stored : w.bmtBlkIdx = 0xffff -> atMapped G 0xffff < G.bufWords

theorem remap_accesses {r : Remap} {w : World} (hfine : CallFine G r w) (h : IndexInside G w) :
    Inside G (remapAccesses G C r w) ∧
      IndexInside G (remapBlock G C r.block r.mappedBlock r.copyLen w).2 := by
  have hidx : atMapped G w.bmtBlkIdx < G.bufWords := by
    rcases h with hnone | hin
    · rw [hnone]
      exact hfine.stored hnone
    · exact hin
  have hlower : forall k, k ≤ w.bmtBlkIdx -> atMapped G k < G.bufWords := by
    intro k hk
    unfold atMapped at hidx ⊢
    lia
  have hwalk := freeEntry_accesses (t := w.table) (i := 0) (n := w.bmtBlkIdx)
    fun k hk => hlower k (by lia)
  unfold remapAccesses remapBlock
  rw [inside_append]
  cases hfree : freeEntry G w.table w.bmtBlkIdx 0 with
  | none => exact ⟨⟨hwalk, inside_nil⟩, h⟩
  | some i =>
      have hi : i < w.bmtBlkIdx := by
        have := freeEntry_some hfree
        lia
      have hmapped := hlower i (Nat.le_of_lt hi)
      have hblock : atBlock G i < G.bufWords := by
        unfold atMapped at hmapped
        unfold atBlock
        lia
      dsimp only
      generalize (w.table.setMapped G.tableSize i NORMAL_MAPPED).setBb r.block
        (w.table.block G.tableSize i) = t
      generalize (if 0 < r.copyLen then bbtNandCopy C (w.table.block G.tableSize i) r.mappedBlock
        r.copyLen (bbtNandErase C (w.table.block G.tableSize i) w.flash).2
        else (bbtNandErase C (w.table.block G.tableSize i) w.flash).2) = f
      have hupload := uploadBmt_accesses (C := C) (t := t) (f := f) hidx
      refine ⟨⟨hwalk, ?_⟩, ?_⟩
      · exact inside_cons.mpr ⟨hmapped, inside_cons.mpr ⟨hblock,
          inside_cons.mpr ⟨hfine.block, hupload.1⟩⟩⟩
      · rcases hupload.2 with hnone | hle
        · exact Or.inl hnone
        · exact Or.inr (hlower _ hle)

def CallsFine (G : Geometry) (C : Chip) : List Remap -> World -> Prop
  | [], _ => True
  | r :: rs, w =>
      CallFine G r w ∧ CallsFine G C rs (remapBlock G C r.block r.mappedBlock r.copyLen w).2

theorem remapAll_accesses {calls : List Remap} {w : World} (hfine : CallsFine G C calls w)
    (h : IndexInside G w) : Inside G (remapAllAccesses G C calls w) := by
  induction calls generalizing w with
  | nil => exact inside_nil
  | cons r rs ih =>
      have hstep := remap_accesses (C := C) hfine.1 h
      exact inside_append.mpr ⟨hstep.1, ih hfine.2 hstep.2⟩

end

/-!
## Runs
-/

/-- The words of the buffer as the code computes its size, with `size_t` of 32 bits. -/
def roomWords (G : Geometry) : Nat :=
  u32 ((u32 (4 + u32 (G.tableSize * 4)) + G.pgSize - 1) / G.pgSize * G.pgSize) / 2

theorem roomWords_eq {G : Geometry} (h : 4 + G.tableSize * 4 + G.pgSize ≤ 2 ^ 32) :
    roomWords G = G.bufWords := by
  have hle := Nat.div_mul_le_self (4 + G.tableSize * 4 + G.pgSize - 1) G.pgSize
  unfold roomWords Geometry.bufWords
  by_cases hpg : G.pgSize = 0
  · rw [hpg, Nat.div_zero, Nat.div_zero, Nat.zero_mul, u32_of_lt (by decide)]
  · rw [u32_of_lt (n := G.tableSize * 4) (by lia), u32_of_lt (n := 4 + G.tableSize * 4) (by lia),
      u32_of_lt (by lia)]

/-- What the initialisation needs: a stored table ends inside the buffer, and a new one is
made as in `CreateFine`. -/
structure InitFine (G : Geometry) (C : Chip) (heap : Words) (f : Flash) : Prop where
  size : 4 + G.tableSize * 4 + G.pgSize ≤ 2 ^ 32
  stored : StoredEnds G C f (G.totalBlks - G.poolLba)
  created : forall t,
    (searchWalk G C f (G.totalBlks - G.poolLba) (buffer G heap)).1.ended G = .missing t ∨
      (searchWalk G C f (G.totalBlks - G.poolLba) (buffer G heap)).1.ended G = .wrongIndex t ->
    G.totalBlks ≤ G.tableSize + G.tableSize * BBPOOL_RATIO / 100 -> CreateFine G C t f

theorem init_accesses {G : Geometry} {C : Chip} {heap : Words} {f : Flash}
    (htotal : 0 < G.totalBlks) (h : InitFine G C heap f) :
    Inside G (init G C heap f).2 ∧
      forall w, (init G C heap f).1 = some w -> IndexInside G w := by
  have hsearch := searchWalk_inside h.stored (buffer G heap)
  have hcreated := h.created
  unfold init
  dsimp only
  generalize searchWalk G C f (G.totalBlks - G.poolLba) (buffer G heap) = s at *
  rcases s with ⟨found, accesses⟩
  dsimp only at hsearch hcreated ⊢
  cases hend : found.ended G with
  | found b t idx =>
      refine ⟨hsearch.1, ?_⟩
      intro w hw
      cases hw
      exact Or.inr (hsearch.2 b t idx (Search.ended_found hend))
  | wrongIndex t =>
      have hcreate := createAccesses_inside htotal (hcreated t (Or.inr hend))
      exact ⟨inside_append.mpr ⟨hsearch.1, hcreate.1⟩, fun w hw => Or.inr (hcreate.2 w hw)⟩
  | missing t =>
      have hcreate := createAccesses_inside htotal (hcreated t (Or.inl hend))
      exact ⟨inside_append.mpr ⟨hsearch.1, hcreate.1⟩, fun w hw => Or.inr (hcreate.2 w hw)⟩
  | endless =>
      refine ⟨hsearch.1, ?_⟩
      intro w hw
      cases hw

/-- In every run whose steps are all fine, the accesses to the table are inside its
buffer. -/
theorem run_accesses_inside (G : Geometry) (C : Chip) (heap : Words) (f : Flash)
    (calls : List Remap) (htotal : 0 < G.totalBlks) (hinit : InitFine G C heap f)
    (hcalls : forall w, (init G C heap f).1 = some w -> CallsFine G C calls w) :
    forall a, a ∈ runAccesses G C heap f calls -> a < roomWords G := by
  have hfirst := init_accesses htotal hinit
  have hrun : Inside G (runAccesses G C heap f calls) := by
    unfold runAccesses
    rw [inside_append]
    refine ⟨hfirst.1, ?_⟩
    cases hw : (init G C heap f).1 with
    | none => exact inside_nil
    | some w => exact remapAll_accesses (hcalls w hw) (hfirst.2 w hw)
  rw [roomWords_eq hinit.size]
  exact hrun

/-- Eight blocks with a table in the last one; the other pool blocks are free. -/
def tableFlash : Flash where
  blocks := fun b =>
    if b = 7 then
      { words := fun i => ([0x4d42, 0x0254, 0, 1, 2, 3, 4, 5, 6, 7, 4, 0, 5, 0, 6, 0, 7, 2] :
          List Nat).getD i 0
        fdm := fun i => [0xff, 0x62, 0x6d, 0x74].getD i 0xff }
    else blank
  clock := 0

theorem tableFlash_fine : InitFine small (chipWith (fun _ => true) fun _ => true)
    (fun _ => 0) tableFlash where
  size := by decide
  stored := by
    intro k hk htable _
    have hk3 : k = 3 := by
      by_contra hne
      have hlba : small.poolLba = 4 := by decide
      have hread : small.readBlk (small.poolLba + k) = small.poolLba + k := by
        have htotal : small.totalBlks = 8 := rfl
        exact readBlk_eq (by decide) (by lia)
      have hblank : tableFlash.blocks (small.readBlk (small.poolLba + k)) = blank := by
        refine if_neg ?_
        lia
      have hvalid := htable.2
      rw [hblank] at hvalid
      exact absurd hvalid (by decide)
    subst hk3
    exact ⟨3, by decide, Or.inr ⟨by decide, by decide⟩⟩
  created := by
    intro t ht _
    have hfound : (match (searchWalk small (chipWith (fun _ => true) fun _ => true) tableFlash
        (small.totalBlks - small.poolLba) (buffer small fun _ => 0)).1.ended small with
        | .found _ _ _ => true
        | _ => false) = true := by
      decide +kernel
    rcases ht with ht | ht
    · rw [ht] at hfound
      cases hfound
    · rw [ht] at hfound
      cases hfound

/-- One block is remapped. -/
theorem table_used_inside :
    0 < small.totalBlks ∧ InitFine small (chipWith (fun _ => true) fun _ => true) (fun _ => 0)
      tableFlash ∧
    forall a, a ∈ runAccesses small (chipWith (fun _ => true) fun _ => true) (fun _ => 0)
      tableFlash [⟨1, 1, 0⟩] -> a < roomWords small := by
  refine ⟨by decide, tableFlash_fine, run_accesses_inside small _ (fun _ => 0) tableFlash
    [⟨1, 1, 0⟩] (by decide) tableFlash_fine ?_⟩
  intro w hw
  have hidx : (init small (chipWith (fun _ => true) fun _ => true) (fun _ => 0)
      tableFlash).1.map World.bmtBlkIdx = some 3 := by
    decide +kernel
  rw [hw] at hidx
  refine ⟨⟨by decide, ?_⟩, trivial⟩
  intro hnone
  rw [Option.map_some, hnone] at hidx
  cases hidx

/-- The default table size with pages of 2 KiB. -/
def defaults : Geometry :=
  { blkShift := 17, totalBlks := 1024, bmtPoolSize := 80, tableSize := 0x2000, pgSize := 2048
    totalBlks_lt := (by decide : 2 ^ 10 < 2 ^ 16) }

theorem searchWalk_missing {G : Geometry} {C : Chip} {f : Flash} {n : Nat}
    (h : forall k, k < n -> ¬ HasTable G C f k) (t : Words) :
    exists t', searchWalk G C f n t = (.missing t', []) := by
  induction n generalizing t with
  | zero => exact ⟨t, rfl⟩
  | succ n ih =>
      rw [searchWalk]
      have hnot := h n (Nat.lt_succ_self n)
      by_cases hread : C.readOk (G.readBlk (G.poolLba + n)) = true
      · rw [if_pos hread]
        dsimp only
        rw [if_neg fun hvalid => hnot ⟨hread, hvalid⟩]
        exact ih (fun k hk => h k (Nat.lt_succ_of_lt hk)) _
      · rw [if_neg hread]
        exact ih (fun k hk => h k (Nat.lt_succ_of_lt hk)) t

/-- On a blank chip the clearing of the pool table goes far behind the buffer. -/
theorem defaults_leave_buffer :
    ¬ forall a, a ∈ runAccesses defaults (chipWith (fun _ => true) fun _ => true) (fun _ => 0)
      blankFlash [] -> a < roomWords defaults := by
  intro h
  have hblank : forall k, k < defaults.totalBlks - defaults.poolLba ->
      ¬ HasTable defaults (chipWith (fun _ => true) fun _ => true) blankFlash k := by
    intro k _ htable
    have hvalid : isValidBmt blank = true := htable.2
    exact absurd hvalid (by decide)
  rcases searchWalk_missing hblank (buffer defaults fun _ => 0) with ⟨t, ht⟩
  have hlba : ¬ defaults.poolLba = 0 := by decide
  have hended : (Search.missing t).ended defaults = .missing t := by
    unfold Search.ended
    exact if_neg hlba
  have hlast := h (2 + 3 * 0x2000 - 1) (by
    unfold runAccesses init
    rw [ht]
    dsimp only
    rw [hended]
    dsimp only
    apply List.mem_append_left
    unfold createAccesses
    rw [if_neg (by decide)]
    apply List.mem_append_right
    apply List.mem_append_left
    apply List.mem_append_left
    unfold clearPoolAccesses
    rw [List.mem_range'_1]
    decide)
  exact absurd hlast (by decide +kernel)

end V2
end Bmt
end Hlk7621
