import Hlk7621.Nmbm.Loading

/-!
# Where loading a table reads and writes

`nmbm_try_load_info_table` and its checks take two offsets from the table they check.
Here every read of `info_table_cache` and every write of `block_state` and
`block_mapping` is compared with the end of its memory; `none` is an access that leaves
it.
-/

namespace Hlk7621
namespace Nmbm

/-!
## Scans that may leave their memory
-/

/-- Looks at `n` entries from `i` on until one is not `ok`; only the entries `inside` can
be looked at. -/
def guardedScan (inside ok : Nat -> Prop) [DecidablePred inside] [DecidablePred ok] :
    Nat -> Nat -> Option Bool
  | 0, _ => some true
  | n + 1, i =>
      if inside i then if ok i then guardedScan inside ok n (i + 1) else some false else none

section

variable {inside ok : Nat -> Prop} [DecidablePred inside] [DecidablePred ok]

theorem guardedScan_inside_iff (n i : Nat) :
    guardedScan inside ok n i ≠ none <->
      forall b, i ≤ b -> b < i + n -> (forall c, i ≤ c -> c < b -> ok c) -> inside b := by
  induction n generalizing i with
  | zero =>
      constructor
      · intro _ b hlo hhi
        lia
      · intro _ hnone
        cases hnone
  | succ n ih =>
      rw [guardedScan]
      by_cases hinside : inside i
      · rw [if_pos hinside]
        by_cases hok : ok i
        · rw [if_pos hok, ih]
          constructor
          · intro h b hlo hhi hbefore
            rcases Nat.eq_or_lt_of_le hlo with rfl | hlt
            · exact hinside
            · exact h b hlt (by lia) (fun c hc => hbefore c (Nat.le_of_succ_le hc))
          · intro h b hlo hhi hbefore
            refine h b (Nat.le_of_succ_le hlo) (by lia) ?_
            intro c hc hcb
            rcases Nat.eq_or_lt_of_le hc with rfl | hlt
            · exact hok
            · exact hbefore c hlt hcb
        · rw [if_neg hok]
          constructor
          · intro _ b hlo _ hbefore
            rcases Nat.eq_or_lt_of_le hlo with rfl | hlt
            · exact hinside
            · exact absurd (hbefore i (Nat.le_refl i) hlt) hok
          · intro _ hnone
            cases hnone
      · rw [if_neg hinside]
        constructor
        · intro h
          exact absurd rfl h
        · intro h
          refine absurd (h i (Nat.le_refl i) (by lia) ?_) hinside
          intro c hc hci
          lia

theorem guardedScan_ok {n i : Nat} {r : Bool} (h : guardedScan inside ok n i = some r) :
    r = true <-> forall b, i ≤ b -> b < i + n -> ok b := by
  induction n generalizing i with
  | zero =>
      cases h
      constructor
      · intro _ b hlo hhi
        lia
      · intro _
        rfl
  | succ n ih =>
      rw [guardedScan] at h
      split at h
      · split at h
        · rename_i hok
          rw [ih h]
          constructor
          · intro hrest b hlo hhi
            rcases Nat.eq_or_lt_of_le hlo with rfl | hlt
            · exact hok
            · exact hrest b hlt (by lia)
          · intro hall b hlo hhi
            exact hall b (Nat.le_of_succ_le hlo) (by lia)
        · rename_i hok
          cases h
          constructor
          · intro hfalse
            cases hfalse
          · intro hall
            exact absurd (hall i (Nat.le_refl i) (by lia)) hok
      · cases h

variable (inside ok)

theorem scanRange_inside_iff (lo hi : Nat) :
    guardedScan inside ok (hi - lo) lo ≠ none <->
      forall b, lo ≤ b -> b < hi -> (forall c, lo ≤ c -> c < b -> ok c) -> inside b := by
  rw [guardedScan_inside_iff]
  constructor
  · intro h b hlo hhi
    exact h b hlo (by lia)
  · intro h b hlo hhi
    exact h b hlo (by lia)

theorem scanRange_ok {lo hi : Nat} {r : Bool} (h : guardedScan inside ok (hi - lo) lo = some r) :
    r = true <-> forall b, lo ≤ b -> b < hi -> ok b := by
  rw [guardedScan_ok h]
  constructor
  · intro hok b hlo hhi
    exact hok b hlo (by lia)
  · intro hok b hlo hhi
    exact hok b hlo (by lia)

end

variable (g : Geometry) (chip : Chip) (bits : Nat)

/-!
## The checks with their reads
-/

/-- Where the pointer to the cache goes when `off` and `i` are added to it; a pointer has
`bits` bits. -/
def cachePtr (off i : Nat) : Nat := (off + i) % 2 ^ bits

def cacheRead (data : Bytes) (off len : Nat) : Option Bytes :=
  if off + len ≤ infoTableSize g then some ((data.drop off).take len) else none

def cacheWord (data : Bytes) (off : Nat) : Option Nat := (cacheRead g data off 4).map leNat

def checkInfoTableHeaderIn (data : Bytes) : Option Bool :=
  match cacheWord g data 0 with
  | none => none
  | some magic =>
      if magic ≠ NMBM_MAGIC_INFO_TABLE then some false
      else
        match cacheWord g data 8 with
        | none => none
        | some size =>
            if size ≠ infoTableSize g then some false
            else
              match cacheWord g data 20, cacheWord g data 24 with
              | some stateOff, some mappingOff =>
                  if sub32 mappingOff stateOff < stateTableSize g then some false
                  else if sub32 (infoTableSize g) mappingOff < mappingTableSize g then
                    some false
                  else some true
              | _, _ => none

def checkHeaderIn (data : Bytes) : Option Bool :=
  match cacheWord g data 8, cacheRead g data 0 12, cacheWord g data 12 with
  | some headerSize, some front, some checksum =>
      if headerSize > infoTableSize g then some false
      else
        let crc := nmbmCrc32 0 (front ++ [0, 0, 0, 0])
        if headerSize > 16 then
          match cacheRead g data 16 (headerSize - 16) with
          | none => none
          | some rest => some (checksum = (nmbmCrc32 crc rest).toNat)
        else some (checksum = crc.toNat)
  | _, _, _ => none

def checkMappingIn (ni : Instance) (endBa : Nat) (data : Bytes) :
    Nat -> Nat -> Nat -> Option (Option Nat)
  | 0, _, minimum => some (some minimum)
  | n + 1, ba, minimum =>
      match cacheWord g data (cachePtr bits (le32 data 24) (4 * ba)) with
      | none => none
      | some word =>
          let pb := asU32 (toInt32 word)
          if (ni.dataBlockCount ≤ pb ∧ pb < endBa) ∨ pb = ni.signatureBa then some none
          else
            checkMappingIn ni endBa data n (ba + 1)
              (if endBa ≤ pb ∧ pb < minimum then pb else minimum)

def checkTableStatesIn (ni : Instance) (data : Bytes) : Nat -> Nat -> Option Bool
  | 0, _ => some true
  | n + 1, ba =>
      if ni.blockState ba = .good then
        match cacheRead g data (cachePtr bits (le32 data 20) (ba / 16 * 4)) 4 with
        | none => none
        | some unit =>
            if nmbmGetBlockStateRaw unit 0 (ba % 16) ≠ .good then some false
            else checkTableStatesIn ni data n (ba + 1)
      else checkTableStatesIn ni data n (ba + 1)

def checkInfoTableIn (ni : Instance) (startBa endBa : Nat) (data : Bytes) :
    Option (Option Nat) :=
  match checkMappingIn g bits ni endBa data ni.dataBlockCount 0 ni.signatureBa with
  | none => none
  | some none => some none
  | some (some minimum) =>
      match checkTableStatesIn g bits ni data (endBa - startBa) startBa with
      | none => none
      | some false => some none
      | some true => some (some (sub32 minimum 1))

/-!
## The load with its accesses
-/

/-- `nmbm_set_block_state`, which writes the word of the state table that holds the
block. -/
def setBadIn (ba : Nat) (d : Dev) : Option Dev :=
  if ba / 16 * 4 + 4 ≤ stateTableSize g then some (d.setBad ba) else none

def loadTableLoopIn : Nat -> Nat -> Nat -> Option Nat -> Bytes -> Dev ->
    Option (Option (Nat × Nat × Bytes) × Dev)
  | 0, ba, sizeremain, start, data, d =>
      some (if sizeremain = 0 then some (start.getD 0, ba, data) else none, d)
  | n + 1, ba, sizeremain, start, data, d =>
      if sizeremain = 0 then some (some (start.getD 0, ba, data), d)
      else if d.ni.blockState ba ≠ .good then loadTableLoopIn n (ba + 1) sizeremain start data d
      else
        match nmbmCheckBadPhysBlock g chip ba d with
        | (true, d) =>
            match setBadIn g ba d with
            | none => none
            | some d => loadTableLoopIn n (ba + 1) sizeremain start data d
        | (false, d) =>
            let chunksize := min sizeremain g.blkSize
            match nmbnReadData g chip (ba2addr g ba) chunksize d with
            | ((ret, bytes), d) =>
                if ret < 0 then
                  match setBadIn g ba d with
                  | none => none
                  | some d => loadTableLoopIn n (ba + 1) sizeremain start data d
                else if 0 < ret then some (none, d)
                else
                  match (if start = none then checkInfoTableHeaderIn g bytes else some true) with
                  | none => none
                  | some false => some (none, d)
                  | some true =>
                      loadTableLoopIn n (ba + 1) (sizeremain - chunksize)
                        (some (start.getD ba)) (data ++ bytes) d

/-- The copies of the two tables, from the cache to memory of their size. -/
def takeTableIn (data : Bytes) (d : Dev) : Option Dev :=
  match cacheRead g data 0 32,
      cacheRead g data (cachePtr bits (le32 data 20) 0) (stateTableSize g),
      cacheRead g data (cachePtr bits (le32 data 24) 0) (mappingTableSize g) with
  | some _, some _, some _ => some (d.update (Instance.takeTable data))
  | _, _, _ => none

/-- What follows the reading of the blocks, on the bytes read. -/
def judgeTableIn (startBa endBa : Nat) (data : Bytes) (tableLoaded : Bool) (d : Dev) :
    Option (Option Found × Dev) :=
  match cacheWord g data 16 with
  | none => none
  | some writeCount =>
      match checkInfoTableIn g bits d.ni startBa endBa data with
      | none => none
      | some none => some (none, d)
      | some (some top) =>
          let found := { endBa := endBa, writeCount := writeCount, topBa := top }
          if tableLoaded = false ∨ writeCount > d.ni.writeCount then
            (takeTableIn g bits data d).map fun d => (some found, d)
          else some (some found, d)

def tryLoadInfoTableIn (ba : Nat) (tableLoaded : Bool) (d : Dev) : Option (Option Found × Dev) :=
  match loadTableLoopIn g chip (size2blk g (infoTableSize g)) ba (infoTableSize g) none [] d with
  | none => none
  | some (none, d) => some (none, d)
  | some (some (start, endBa, data), d) =>
      match checkHeaderIn g data with
      | none => none
      | some false => some (none, d)
      | some true => judgeTableIn g bits start endBa data tableLoaded d

/-!
## The parts that stay inside for every table
-/

theorem infoTableSize_ge : 32 ≤ infoTableSize g := by
  have hpg := g.pgSize_pos
  have hround : 32 + g.pgSize - 1 < (32 + g.pgSize - 1) / g.pgSize * g.pgSize + g.pgSize :=
    Nat.lt_div_mul_add hpg
  unfold infoTableSize ALIGN
  lia

theorem cacheRead_inside {data : Bytes} {off len : Nat} (h : off + len ≤ infoTableSize g) :
    cacheRead g data off len = some ((data.drop off).take len) :=
  if_pos h

theorem cacheWord_inside {data : Bytes} {off : Nat} (h : off + 4 ≤ infoTableSize g) :
    cacheWord g data off = some (le32 data off) := by
  rw [cacheWord, cacheRead_inside g h]
  rfl

theorem checkInfoTableHeaderIn_eq (data : Bytes) :
    checkInfoTableHeaderIn g data = some (nmbmCheckInfoTableHeader g data) := by
  have hsize := infoTableSize_ge g
  rw [checkInfoTableHeaderIn, nmbmCheckInfoTableHeader, cacheWord_inside g (by lia),
    cacheWord_inside g (by lia), cacheWord_inside g (by lia), cacheWord_inside g (by lia)]
  dsimp only
  split
  · rfl
  · split
    · rfl
    · split
      · rfl
      · split
        · rfl
        · rfl

theorem checkHeaderIn_eq (data : Bytes) :
    checkHeaderIn g data = some (nmbmCheckHeader data (infoTableSize g)) := by
  have hsize := infoTableSize_ge g
  rw [checkHeaderIn, nmbmCheckHeader, cacheWord_inside g (by lia), cacheWord_inside g (by lia),
    cacheRead_inside g (by lia)]
  dsimp only [List.drop_zero]
  split
  · rfl
  · rename_i hle
    split
    · rw [cacheRead_inside g (by lia)]
      rfl
    · rfl

theorem setBadIn_eq {ba : Nat} (h : ba < g.totalBlks) (d : Dev) :
    setBadIn g ba d = some (d.setBad ba) := by
  have hslot : ba / 16 * 4 + 4 ≤ stateTableSize g := by
    unfold stateTableSize
    lia
  exact if_pos hslot

theorem loadTableLoopIn_eq (n : Nat) {ba : Nat} (hrange : ba + n ≤ g.totalBlks)
    (sizeremain : Nat) (start : Option Nat) (data : Bytes) (d : Dev) :
    loadTableLoopIn g chip n ba sizeremain start data d =
      some (loadTableLoop g chip n ba sizeremain start data d) := by
  induction n generalizing ba sizeremain start data d with
  | zero => rfl
  | succ n ih =>
      have hba : ba < g.totalBlks := by lia
      have hnext : ba + 1 + n ≤ g.totalBlks := by lia
      rw [loadTableLoopIn, loadTableLoop]
      split
      · rfl
      · split
        · exact ih hnext _ _ _ _
        · rcases nmbmCheckBadPhysBlock g chip ba d with ⟨isbad, d1⟩
          cases isbad with
          | true =>
              dsimp only
              rw [setBadIn_eq g hba]
              exact ih hnext _ _ _ _
          | false =>
              dsimp only
              rcases nmbnReadData g chip (ba2addr g ba) (min sizeremain g.blkSize) d1 with
                ⟨⟨ret, bytes⟩, d2⟩
              dsimp only
              by_cases hneg : ret < 0
              · rw [if_pos hneg, if_pos hneg, setBadIn_eq g hba]
                exact ih hnext _ _ _ _
              · rw [if_neg hneg, if_neg hneg]
                by_cases hpos : 0 < ret
                · rw [if_pos hpos, if_pos hpos]
                · rw [if_neg hpos, if_neg hpos, checkInfoTableHeaderIn_eq]
                  cases start with
                  | some start =>
                      rw [if_neg (fun h => by cases h), if_neg (fun h => by cases h.left)]
                      exact ih hnext _ _ _ _
                  | none =>
                      rw [if_pos rfl]
                      cases hheader : nmbmCheckInfoTableHeader g bytes with
                      | false =>
                          rw [if_pos ⟨rfl, rfl⟩]
                      | true =>
                          rw [if_neg (fun h => by cases h.right)]
                          exact ih hnext _ _ _ _

theorem loadTableLoop_end {n ba sizeremain : Nat} {start : Option Nat} {data : Bytes} {d : Dev}
    {first endBa : Nat} {bytes : Bytes}
    (h : (loadTableLoop g chip n ba sizeremain start data d).1 = some (first, endBa, bytes)) :
    endBa ≤ ba + n := by
  induction n generalizing ba sizeremain start data d with
  | zero =>
      rw [loadTableLoop] at h
      dsimp only at h
      split at h
      · cases h
        exact Nat.le_refl _
      · cases h
  | succ n ih =>
      have hnext : forall sizeremain start data d,
          (loadTableLoop g chip n (ba + 1) sizeremain start data d).1 =
            some (first, endBa, bytes) -> endBa ≤ ba + (n + 1) := by
        intro _ _ _ _ hrest
        have hend := ih hrest
        lia
      rw [loadTableLoop] at h
      split at h
      · cases h
        exact Nat.le_add_right _ _
      · split at h
        · exact hnext _ _ _ _ h
        · split at h
          · exact hnext _ _ _ _ h
          · dsimp only at h
            split at h
            · exact hnext _ _ _ _ h
            · split at h
              · cases h
              · split at h
                · cases h
                · exact hnext _ _ _ _ h

/-!
## The two checks
-/

def mappingAt (data : Bytes) (ba : Nat) : Nat :=
  asU32 (toInt32 (le32 data (cachePtr bits (le32 data 24) (4 * ba))))

def MappingInside (data : Bytes) (ba : Nat) : Prop :=
  cachePtr bits (le32 data 24) (4 * ba) + 4 ≤ infoTableSize g

def MappingOk (ni : Instance) (endBa : Nat) (data : Bytes) (ba : Nat) : Prop :=
  ¬ ((ni.dataBlockCount ≤ mappingAt bits data ba ∧ mappingAt bits data ba < endBa) ∨
    mappingAt bits data ba = ni.signatureBa)

def StateInside (ni : Instance) (data : Bytes) (ba : Nat) : Prop :=
  ni.blockState ba = .good ->
    cachePtr bits (le32 data 20) (ba / 16 * 4) + 4 ≤ infoTableSize g

def StateOk (ni : Instance) (data : Bytes) (ba : Nat) : Prop :=
  ni.blockState ba = .good ->
    nmbmGetBlockStateRaw data (cachePtr bits (le32 data 20) (ba / 16 * 4)) (ba % 16) = .good

instance (data : Bytes) : DecidablePred (MappingInside g bits data) :=
  fun _ => inferInstanceAs (Decidable (_ ≤ _))

instance (ni : Instance) (endBa : Nat) (data : Bytes) :
    DecidablePred (MappingOk bits ni endBa data) :=
  fun _ => inferInstanceAs (Decidable (¬ _))

instance (ni : Instance) (data : Bytes) : DecidablePred (StateInside g bits ni data) :=
  fun _ => inferInstanceAs (Decidable (_ -> _))

instance (ni : Instance) (data : Bytes) : DecidablePred (StateOk bits ni data) :=
  fun _ => inferInstanceAs (Decidable (_ -> _))

theorem checkMappingIn_scan (ni : Instance) (endBa : Nat) (data : Bytes) (n ba minimum : Nat) :
    (checkMappingIn g bits ni endBa data n ba minimum).map Option.isSome =
      guardedScan (MappingInside g bits data) (MappingOk bits ni endBa data) n ba := by
  induction n generalizing ba minimum with
  | zero => rfl
  | succ n ih =>
      rw [checkMappingIn, guardedScan]
      by_cases hinside : MappingInside g bits data ba
      · rw [if_pos hinside, cacheWord_inside g hinside]
        dsimp only
        by_cases hok : MappingOk bits ni endBa data ba
        · rw [if_pos hok]
          exact (congrArg (Option.map Option.isSome) (if_neg hok)).trans (ih _ _)
        · rw [if_neg hok]
          exact congrArg (Option.map Option.isSome) (if_pos (Decidable.not_not.mp hok))
      · have hout : ¬ cachePtr bits (le32 data 24) (4 * ba) + 4 ≤ infoTableSize g := hinside
        rw [if_neg hinside, cacheWord, cacheRead, if_neg hout]
        rfl

theorem checkTableStatesIn_scan (ni : Instance) (data : Bytes) (n ba : Nat) :
    checkTableStatesIn g bits ni data n ba =
      guardedScan (StateInside g bits ni data) (StateOk bits ni data) n ba := by
  induction n generalizing ba with
  | zero => rfl
  | succ n ih =>
      rw [checkTableStatesIn, guardedScan]
      by_cases hgood : ni.blockState ba = .good
      · rw [if_pos hgood]
        by_cases hinside : cachePtr bits (le32 data 20) (ba / 16 * 4) + 4 ≤ infoTableSize g
        · have hin : StateInside g bits ni data ba := fun _ => hinside
          have hraw : nmbmGetBlockStateRaw
              ((data.drop (cachePtr bits (le32 data 20) (ba / 16 * 4))).take 4) 0 (ba % 16) =
              nmbmGetBlockStateRaw data (cachePtr bits (le32 data 20) (ba / 16 * 4)) (ba % 16) := by
            have hunit : ba % 16 / 16 * 4 = 0 := by lia
            unfold nmbmGetBlockStateRaw le32
            rw [hunit, Nat.add_zero, Nat.add_zero, List.drop_zero, List.take_take, Nat.min_self]
          rw [if_pos hin, cacheRead_inside g hinside]
          dsimp only
          rw [hraw, ih]
          by_cases hok : nmbmGetBlockStateRaw data
              (cachePtr bits (le32 data 20) (ba / 16 * 4)) (ba % 16) = .good
          · have hstate : StateOk bits ni data ba := fun _ => hok
            rw [if_pos hstate, if_neg (not_not_intro hok)]
          · have hstate : ¬ StateOk bits ni data ba := fun h => hok (h hgood)
            rw [if_neg hstate, if_pos hok]
        · have hout : ¬ StateInside g bits ni data ba := fun h => hinside (h hgood)
          rw [if_neg hout, cacheRead, if_neg hinside]
      · have hin : StateInside g bits ni data ba := fun h => absurd h hgood
        have hok : StateOk bits ni data ba := fun h => absurd h hgood
        rw [if_neg hgood, if_pos hin, if_pos hok]
        exact ih _

def MappingAccepted (ni : Instance) (endBa : Nat) (data : Bytes) : Prop :=
  forall b, b < ni.dataBlockCount -> MappingOk bits ni endBa data b

def StatesAccepted (ni : Instance) (startBa endBa : Nat) (data : Bytes) : Prop :=
  forall b, startBa ≤ b -> b < endBa -> StateOk bits ni data b

/-- The accesses that depend on the offsets in the table: the entries and words that the
checks come to, and the copies if the table is accepted and taken. -/
structure TableInside (ni : Instance) (startBa endBa : Nat) (data : Bytes) (taken : Prop) :
    Prop where
  mapping : forall b, b < ni.dataBlockCount ->
    (forall c, c < b -> MappingOk bits ni endBa data c) -> MappingInside g bits data b
  states : MappingAccepted bits ni endBa data -> forall b, startBa ≤ b -> b < endBa ->
    (forall c, startBa ≤ c -> c < b -> StateOk bits ni data c) -> StateInside g bits ni data b
  copies : MappingAccepted bits ni endBa data -> StatesAccepted bits ni startBa endBa data ->
    taken -> cachePtr bits (le32 data 20) 0 + stateTableSize g ≤ infoTableSize g ∧
      cachePtr bits (le32 data 24) 0 + mappingTableSize g ≤ infoTableSize g

variable {ni : Instance} {startBa endBa : Nat} {data : Bytes}

theorem checkMappingIn_inside_iff (minimum : Nat) :
    checkMappingIn g bits ni endBa data ni.dataBlockCount 0 minimum ≠ none <->
      forall b, b < ni.dataBlockCount -> (forall c, c < b -> MappingOk bits ni endBa data c) ->
        MappingInside g bits data b := by
  have hscan := checkMappingIn_scan g bits ni endBa data ni.dataBlockCount 0 minimum
  have hrange := scanRange_inside_iff (MappingInside g bits data) (MappingOk bits ni endBa data)
    0 ni.dataBlockCount
  rw [Nat.sub_zero, <- hscan, ne_eq, Option.map_eq_none_iff] at hrange
  rw [ne_eq, hrange]
  constructor
  · intro h b hb hbefore
    exact h b (Nat.zero_le b) hb (fun c _ => hbefore c)
  · intro h b _ hb hbefore
    exact h b hb (fun c => hbefore c (Nat.zero_le c))

theorem checkMappingIn_some {minimum : Nat} {r : Option Nat}
    (h : checkMappingIn g bits ni endBa data ni.dataBlockCount 0 minimum = some r) :
    r.isSome = true <-> MappingAccepted bits ni endBa data := by
  have hscan := checkMappingIn_scan g bits ni endBa data ni.dataBlockCount 0 minimum
  rw [h] at hscan
  have hrange : guardedScan (MappingInside g bits data) (MappingOk bits ni endBa data)
      (ni.dataBlockCount - 0) 0 = some r.isSome := hscan.symm
  rw [scanRange_ok _ _ hrange]
  constructor
  · intro hok c hc
    exact hok c (Nat.zero_le c) hc
  · intro hok c _ hc
    exact hok c hc

theorem checkTableStatesIn_inside_iff :
    checkTableStatesIn g bits ni data (endBa - startBa) startBa ≠ none <->
      forall b, startBa ≤ b -> b < endBa ->
        (forall c, startBa ≤ c -> c < b -> StateOk bits ni data c) ->
          StateInside g bits ni data b := by
  rw [checkTableStatesIn_scan]
  exact scanRange_inside_iff _ _ startBa endBa

theorem checkTableStatesIn_some {r : Bool}
    (h : checkTableStatesIn g bits ni data (endBa - startBa) startBa = some r) :
    r = true <-> StatesAccepted bits ni startBa endBa data := by
  rw [checkTableStatesIn_scan] at h
  exact scanRange_ok _ _ h

theorem takeTableIn_inside_iff (d : Dev) :
    takeTableIn g bits data d ≠ none <->
      cachePtr bits (le32 data 20) 0 + stateTableSize g ≤ infoTableSize g ∧
        cachePtr bits (le32 data 24) 0 + mappingTableSize g ≤ infoTableSize g := by
  have hsize := infoTableSize_ge g
  rw [takeTableIn, cacheRead_inside g (by lia)]
  unfold cacheRead
  by_cases hstate : cachePtr bits (le32 data 20) 0 + stateTableSize g ≤ infoTableSize g
  · rw [if_pos hstate]
    by_cases hmapping : cachePtr bits (le32 data 24) 0 + mappingTableSize g ≤ infoTableSize g
    · rw [if_pos hmapping]
      exact iff_of_true (nomatch ·) ⟨hstate, hmapping⟩
    · rw [if_neg hmapping]
      exact iff_of_false (absurd rfl) (fun h => hmapping h.right)
  · rw [if_neg hstate]
    exact iff_of_false (absurd rfl) (fun h => hstate h.left)

theorem judgeTableIn_inside_iff (startBa endBa : Nat) (data : Bytes) (tableLoaded : Bool)
    (d : Dev) :
    judgeTableIn g bits startBa endBa data tableLoaded d ≠ none <->
      TableInside g bits d.ni startBa endBa data
        (tableLoaded = false ∨ le32 data 16 > d.ni.writeCount) := by
  have hsize := infoTableSize_ge g
  rw [judgeTableIn, cacheWord_inside g (by lia), checkInfoTableIn]
  dsimp only
  have hmapIn : checkMappingIn g bits d.ni endBa data d.ni.dataBlockCount 0 d.ni.signatureBa ≠
      none <-> _ := checkMappingIn_inside_iff g bits d.ni.signatureBa
  rcases hm : checkMappingIn g bits d.ni endBa data d.ni.dataBlockCount 0 d.ni.signatureBa
    with _ | _ | minimum
  · rw [hm] at hmapIn
    exact iff_of_false (absurd rfl) (fun h => hmapIn.mpr h.mapping rfl)
  · have hrefused : ¬ MappingAccepted bits d.ni endBa data := by
      intro haccepted
      have hsome := (checkMappingIn_some g bits hm).mpr haccepted
      cases hsome
    rw [hm] at hmapIn
    refine iff_of_true (nomatch ·) ⟨hmapIn.mp (nomatch ·), ?_, ?_⟩
    · intro haccepted
      exact absurd haccepted hrefused
    · intro haccepted
      exact absurd haccepted hrefused
  · have haccepted := (checkMappingIn_some g bits hm).mp rfl
    rw [hm] at hmapIn
    have hmapping := hmapIn.mp (nomatch ·)
    have hstateIn : checkTableStatesIn g bits d.ni data (endBa - startBa) startBa ≠ none <->
        _ := checkTableStatesIn_inside_iff g bits
    dsimp only
    rcases hs : checkTableStatesIn g bits d.ni data (endBa - startBa) startBa with _ | states
    · rw [hs] at hstateIn
      exact iff_of_false (absurd rfl) (fun h => hstateIn.mpr (h.states haccepted) rfl)
    · have hok := checkTableStatesIn_some g bits hs
      rw [hs] at hstateIn
      have hstates := hstateIn.mp (nomatch ·)
      cases states with
      | false =>
          refine iff_of_true (nomatch ·) ⟨hmapping, fun _ => hstates, ?_⟩
          intro _ hall
          cases hok.mpr hall
      | true =>
          dsimp only
          by_cases htaken : tableLoaded = false ∨ le32 data 16 > d.ni.writeCount
          · rw [if_pos htaken, ne_eq, Option.map_eq_none_iff, <- ne_eq, takeTableIn_inside_iff]
            constructor
            · intro hcopies
              exact ⟨hmapping, fun _ => hstates, fun _ _ _ => hcopies⟩
            · intro h
              exact h.copies haccepted (hok.mp rfl) htaken
          · rw [if_neg htaken]
            exact iff_of_true (nomatch ·)
              ⟨hmapping, fun _ => hstates, fun _ _ h => absurd h htaken⟩

/-!
## Tables with room
-/

theorem cachePtr_inside (hbits : infoTableSize g ≤ 2 ^ bits) {off i : Nat}
    (h : off + i + 4 ≤ infoTableSize g) : cachePtr bits off i = off + i :=
  Nat.mod_eq_of_lt (by lia)

theorem checkMappingIn_eq (hbits : infoTableSize g ≤ 2 ^ bits) (n : Nat) {ba : Nat}
    (minimum : Nat) (hroom : le32 data 24 + 4 * (ba + n) ≤ infoTableSize g) :
    checkMappingIn g bits ni endBa data n ba minimum =
      some (checkMapping ni endBa (mappingEntry data (le32 data 24)) n ba minimum) := by
  induction n generalizing ba minimum with
  | zero => rfl
  | succ n ih =>
      have hword : le32 data 24 + 4 * ba + 4 ≤ infoTableSize g := by lia
      rw [checkMappingIn, cachePtr_inside g bits hbits hword, cacheWord_inside g hword,
        checkMapping]
      unfold mappingEntry
      dsimp only
      split
      · rfl
      · exact ih _ (by lia)

theorem checkTableStatesIn_eq (hbits : infoTableSize g ≤ 2 ^ bits) (n : Nat) {ba : Nat}
    (hba : ba + n ≤ g.totalBlks)
    (hroom : le32 data 20 + stateTableSize g ≤ infoTableSize g) :
    checkTableStatesIn g bits ni data n ba =
      some (checkTableStates ni (nmbmGetBlockStateRaw data (le32 data 20)) n ba) := by
  induction n generalizing ba with
  | zero => rfl
  | succ n ih =>
      have hword : le32 data 20 + ba / 16 * 4 + 4 ≤ infoTableSize g := by
        unfold stateTableSize at hroom
        lia
      have hraw : nmbmGetBlockStateRaw ((data.drop (le32 data 20 + ba / 16 * 4)).take 4) 0
          (ba % 16) = nmbmGetBlockStateRaw data (le32 data 20) ba := by
        have hunit : ba % 16 / 16 * 4 = 0 := by lia
        unfold nmbmGetBlockStateRaw le32
        rw [hunit, Nat.add_zero, List.drop_zero, List.take_take, Nat.min_self, Nat.mod_mod]
      rw [checkTableStatesIn, checkTableStates, cachePtr_inside g bits hbits hword,
        cacheRead_inside g hword, ih (by lia)]
      dsimp only
      rw [hraw]
      by_cases hgood : ni.blockState ba = .good
      · rw [if_pos hgood]
        by_cases hok : nmbmGetBlockStateRaw data (le32 data 20) ba ≠ .good
        · rw [if_pos hok, if_pos ⟨hgood, hok⟩]
        · rw [if_neg hok, if_neg (fun h => hok h.right)]
      · rw [if_neg hgood, if_neg (fun h => hgood h.left)]

/-- Such a table is loaded as if no access could leave its memory. -/
theorem judgeTableIn_eq (hbits : infoTableSize g ≤ 2 ^ bits) {d : Dev}
    (hcount : d.ni.dataBlockCount ≤ g.totalBlks) (hend : endBa ≤ g.totalBlks)
    (hstate : le32 data 20 + stateTableSize g ≤ infoTableSize g)
    (hmapping : le32 data 24 + mappingTableSize g ≤ infoTableSize g) (tableLoaded : Bool) :
    judgeTableIn g bits startBa endBa data tableLoaded d =
      some (match nmbmCheckInfoTable d.ni startBa endBa data with
        | none => (none, d)
        | some top =>
            let found := { endBa := endBa, writeCount := le32 data 16, topBa := top }
            if tableLoaded = false ∨ le32 data 16 > d.ni.writeCount then
              (some found, d.update (Instance.takeTable data))
            else (some found, d)) := by
  have hsize := infoTableSize_ge g
  have hmap : le32 data 24 + 4 * (0 + d.ni.dataBlockCount) ≤ infoTableSize g := by
    unfold mappingTableSize at hmapping
    lia
  have hstates : checkTableStatesIn g bits d.ni data (endBa - startBa) startBa =
      some (checkTableStates d.ni (nmbmGetBlockStateRaw data (le32 data 20)) (endBa - startBa)
        startBa) := by
    rcases Nat.le_total startBa endBa with hle | hge
    · exact checkTableStatesIn_eq g bits hbits _ (by lia) hstate
    · rw [Nat.sub_eq_zero_of_le hge]
      rfl
  have hcopies : takeTableIn g bits data d = some (d.update (Instance.takeTable data)) := by
    have hptr : forall off, cachePtr bits off 0 ≤ off := fun off => Nat.mod_le _ _
    have hs := hptr (le32 data 20)
    have hm := hptr (le32 data 24)
    rw [takeTableIn, cacheRead_inside g (by lia), cacheRead_inside g (by lia),
      cacheRead_inside g (by lia)]
  rw [judgeTableIn, cacheWord_inside g (by lia), checkInfoTableIn,
    checkMappingIn_eq g bits hbits _ _ hmap, hstates, hcopies, nmbmCheckInfoTable]
  dsimp only
  rcases checkMapping d.ni endBa (mappingEntry data (le32 data 24)) d.ni.dataBlockCount 0
    d.ni.signatureBa with _ | minimum
  · rfl
  · cases checkTableStates d.ni (nmbmGetBlockStateRaw data (le32 data 20)) (endBa - startBa)
      startBa with
    | false => rfl
    | true =>
        dsimp only
        rw [if_pos rfl]
        dsimp only
        split
        · rfl
        · rfl

/-!
## The whole load
-/

/-- A table for which there is room on the chip: the load stays inside its memory exactly
when the entries, the words and the copies do that the offsets in the table lead to; if
the offsets leave room for both tables, it is the load of `nmbmTryLoadInfoTable`. -/
theorem tryLoadInfoTableIn_inside_iff (ba : Nat) (tableLoaded : Bool) (d : Dev)
    (hrange : ba + size2blk g (infoTableSize g) ≤ g.totalBlks) :
    (tryLoadInfoTableIn g chip bits ba tableLoaded d ≠ none <->
      forall startBa endBa data d',
        loadTableLoop g chip (size2blk g (infoTableSize g)) ba (infoTableSize g) none [] d =
          (some (startBa, endBa, data), d') ->
        nmbmCheckHeader data (infoTableSize g) = true ->
        TableInside g bits d'.ni startBa endBa data
          (tableLoaded = false ∨ le32 data 16 > d'.ni.writeCount)) ∧
    (infoTableSize g ≤ 2 ^ bits -> d.ni.dataBlockCount ≤ g.totalBlks ->
      (forall startBa endBa data d',
        loadTableLoop g chip (size2blk g (infoTableSize g)) ba (infoTableSize g) none [] d =
          (some (startBa, endBa, data), d') ->
        nmbmCheckHeader data (infoTableSize g) = true ->
        le32 data 20 + stateTableSize g ≤ infoTableSize g ∧
          le32 data 24 + mappingTableSize g ≤ infoTableSize g) ->
      tryLoadInfoTableIn g chip bits ba tableLoaded d =
        some (nmbmTryLoadInfoTable g chip ba tableLoaded d)) := by
  have hsame := (loadTableLoop_spec g chip (size2blk g (infoTableSize g)) ba (infoTableSize g)
    none [] d).left.ni
  rw [tryLoadInfoTableIn, loadTableLoopIn_eq g chip _ hrange, nmbmTryLoadInfoTable]
  rcases hloop : loadTableLoop g chip (size2blk g (infoTableSize g)) ba (infoTableSize g) none []
    d with ⟨_ | ⟨startBa, endBa, data⟩, d'⟩
  · exact ⟨iff_of_true (fun h => by cases h) (fun _ _ _ _ h => by cases h), fun _ _ _ => rfl⟩
  · have hend := loadTableLoop_end g chip (congrArg Prod.fst hloop)
    rw [hloop] at hsame
    have hcount : d'.ni.dataBlockCount = d.ni.dataBlockCount := by
      rcases hsame with ⟨_, _, hni⟩
      rw [hni]
    dsimp only
    rw [checkHeaderIn_eq]
    cases hheader : nmbmCheckHeader data (infoTableSize g) with
    | false =>
        refine ⟨iff_of_true (fun h => by cases h) ?_, fun _ _ _ => rfl⟩
        intro startBa' endBa' data' d'' heq htrue
        cases heq
        rw [hheader] at htrue
        cases htrue
    | true =>
        dsimp only
        refine ⟨?_, ?_⟩
        · rw [judgeTableIn_inside_iff]
          constructor
          · intro hinside startBa' endBa' data' d'' heq _
            cases heq
            exact hinside
          · intro h
            exact h startBa endBa data d' rfl hheader
        · intro hbits hblocks hroom
          rcases hroom startBa endBa data d' rfl hheader with ⟨hstate, hmapping⟩
          refine (judgeTableIn_eq g bits hbits (hcount.trans_le hblocks) (hend.trans hrange) hstate
            hmapping _).trans ?_
          exact congrArg some (if_pos rfl).symm

/-!
## A table with crooked offsets
-/

def tinyGeometry : Geometry :=
  { totalBlks := 16, blkSize := 128, pgSize := 32, oobsize := 8, bitflipThreshold := 0
    eccStrength := 1, maxRatio := 1, maxReservedBlocks := 0, emptyPageEccOk := false
    forceCreate := false, totalBlks_pos := Nat.succ_pos 15
    totalBlks_lt := (by decide : 2 ^ 4 < 2 ^ 16), pgSize_pos := Nat.succ_pos 31 }

def crookedTable : Bytes :=
  [78, 77, 77, 49, 1, 0, 0, 0, 128, 0, 0, 0, 189, 98, 192, 101,
    1, 0, 0, 0, 32, 0, 0, 0, 160, 255, 255, 255, 0, 0, 0, 0] ++ List.replicate 96 0

def crookedChip : Chip :=
  { isbad := fun _ _ => 0
    erase := fun _ _ => 0
    write := fun _ _ => 0
    read := fun _ addr =>
      { ret := 0, data := (crookedTable.drop (addr % 128)).take 32, same := true } }

def loadingDev : Dev :=
  { ni := { nmbmInitStructure with dataBlockCount := 8, mgmtStartBa := 8, signatureBa := 15 }
    calls := 0, erased := [], tables := [] }

theorem crooked_isNone (bits : Nat) (hbits : bits = 32 ∨ bits = 64) :
    (tryLoadInfoTableIn tinyGeometry crookedChip bits 8 false loadingDev).isNone = true := by
  rcases hbits with rfl | rfl
  · decide +kernel
  · decide +kernel

/-- The first entry of the mapping table is read far outside of the cache. -/
theorem crooked_leaves :
    tryLoadInfoTableIn tinyGeometry crookedChip 32 8 false loadingDev = none ∧
      tryLoadInfoTableIn tinyGeometry crookedChip 64 8 false loadingDev = none :=
  ⟨Option.isNone_iff_eq_none.mp (crooked_isNone 32 (Or.inl rfl)),
    Option.isNone_iff_eq_none.mp (crooked_isNone 64 (Or.inr rfl))⟩

theorem crooked_not_inside :
    ¬ forall startBa endBa data d',
      loadTableLoop tinyGeometry crookedChip 1 8 128 none [] loadingDev =
        (some (startBa, endBa, data), d') ->
      nmbmCheckHeader data 128 = true ->
      TableInside tinyGeometry 32 d'.ni startBa endBa data
        (false = false ∨ le32 data 16 > d'.ni.writeCount) := by
  intro hinside
  exact (tryLoadInfoTableIn_inside_iff tinyGeometry crookedChip 32 8 false loadingDev
    (by decide)).left.mpr hinside
    (Option.isNone_iff_eq_none.mp (crooked_isNone 32 (Or.inl rfl)))

end Nmbm
end Hlk7621
