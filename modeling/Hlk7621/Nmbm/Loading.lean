import Hlk7621.Nmbm.Layout

/-!
# Loading info tables

What the search for info tables does to the driver and what the checks of a
table say about its mapping.  A loaded table keeps the roles of blocks apart if
its entries are distinct and none of them lies between the start of the
management area and the end of the last table found.
-/

namespace Hlk7621
namespace Nmbm

/-!
## Reading
-/

/-- From `d` to `d'` only tables have been read: the block states, the mapping and
the write count may differ. -/
structure Reads (d d' : Dev) : Prop where
  ni : exists state changed mapping count, d'.ni =
    { d.ni with blockState := state, blockStateChanged := changed, blockMapping := mapping,
                writeCount := count }
  erased : d'.erased = d.erased
  tables : d'.tables = d.tables

structure Scans (d d' : Dev) : Prop where
  ni : SameButStates d.ni d'.ni
  erased : d'.erased = d.erased
  tables : d'.tables = d.tables

theorem Scans.refl (d : Dev) : Scans d d := ⟨SameButStates.refl _, rfl, rfl⟩

theorem Scans.trans {a b c : Dev} (hab : Scans a b) (hbc : Scans b c) : Scans a c :=
  ⟨hab.ni.trans hbc.ni, hbc.erased.trans hab.erased, hbc.tables.trans hab.tables⟩

theorem Scans.reads {d d' : Dev} (h : Scans d d') : Reads d d' := by
  rcases h.ni with ⟨state, changed, hni⟩
  exact ⟨⟨state, changed, d.ni.blockMapping, d.ni.writeCount, hni⟩, h.erased, h.tables⟩

theorem Reads.trans {a b c : Dev} (hab : Reads a b) (hbc : Reads b c) : Reads a c := by
  rcases hab.ni with ⟨_, _, _, _, hb⟩
  rcases hbc.ni with ⟨state, changed, mapping, count, hc⟩
  refine ⟨⟨state, changed, mapping, count, ?_⟩, hbc.erased.trans hab.erased,
    hbc.tables.trans hab.tables⟩
  rw [hc, hb]

section ReadFields

variable {d d' : Dev} (h : Reads d d')

include h

theorem Reads.mgmtStartBa : d'.ni.mgmtStartBa = d.ni.mgmtStartBa := by
  rcases h.ni with ⟨_, _, _, _, hni⟩
  rw [hni]

theorem Reads.signatureBa : d'.ni.signatureBa = d.ni.signatureBa := by
  rcases h.ni with ⟨_, _, _, _, hni⟩
  rw [hni]

theorem Reads.dataBlockCount : d'.ni.dataBlockCount = d.ni.dataBlockCount := by
  rcases h.ni with ⟨_, _, _, _, hni⟩
  rw [hni]

theorem Reads.main : d'.ni.main = d.ni.main := by
  rcases h.ni with ⟨_, _, _, _, hni⟩
  rw [hni]
  rfl

theorem Reads.backup : d'.ni.backup = d.ni.backup := by
  rcases h.ni with ⟨_, _, _, _, hni⟩
  rw [hni]
  rfl

theorem Reads.clean (hclean : Clean d) : Clean d' := by
  constructor
  · rw [h.erased]
    exact hclean.erased
  · rw [h.tables]
    exact hclean.tables

end ReadFields

variable (g : Geometry) (chip : Chip)

theorem scans_calls (n : Nat) (d : Dev) : Scans d { d with calls := n } :=
  ⟨SameButStates.refl _, rfl, rfl⟩

theorem scans_setBad (ba : Nat) (d : Dev) : Scans d (d.setBad ba) :=
  ⟨⟨_, _, rfl⟩, rfl, rfl⟩

theorem scans_checkBad (ba : Nat) (d : Dev) : Scans d (nmbmCheckBadPhysBlock g chip ba d).2 :=
  scans_calls (d.calls + 1) d

theorem scans_readTries (addr n : Nat) (ret : Int) (d : Dev) :
    Scans d (readTries g chip addr n ret d).2 := by
  induction n generalizing ret d with
  | zero => exact Scans.refl d
  | succ n ih =>
      have hcall := scans_calls (d.calls + 1) d
      rw [readTries]
      split
      · exact hcall
      · split
        · exact hcall
        · exact hcall.trans (ih _ _)

theorem scans_readPages (addr n sizeremain : Nat) (acc : Bytes) (d : Dev) :
    Scans d (readPages g chip addr n sizeremain acc d).2 := by
  induction n generalizing addr sizeremain acc d with
  | zero => exact Scans.refl d
  | succ n ih =>
      have hread := scans_readTries g chip addr NMBM_TRY_COUNT 0 d
      rw [readPages, nmbmReadPhysPage]
      split
      rename_i ret a d' heq
      rw [heq] at hread
      split
      · exact hread
      · exact hread.trans (ih _ _ _ d')

theorem scans_scanBadblocks (n ba : Nat) (d : Dev) : Scans d (scanBadblocks g chip n ba d) := by
  induction n generalizing ba d with
  | zero => exact Scans.refl d
  | succ n ih =>
      have hbad := scans_checkBad g chip ba d
      rw [scanBadblocks]
      split
      · rename_i d' heq
        rw [heq] at hbad
        exact (hbad.trans (scans_setBad ba d')).trans (ih _ _)
      · rename_i d' heq
        rw [heq] at hbad
        exact hbad.trans (ih _ _)

theorem scans_findInBlock (addr n : Nat) (d : Dev) :
    Scans d (findInBlock g chip addr n d).2 := by
  induction n generalizing addr d with
  | zero => exact Scans.refl d
  | succ n ih =>
      have hread := scans_readPages g chip addr (pages g signatureSize) signatureSize [] d
      rw [findInBlock, nmbnReadData]
      split
      rename_i ret bytes d' heq
      rw [heq] at hread
      split
      · exact hread
      · exact hread.trans (ih _ d')

theorem findSignatureLoop_spec (limit n : Nat) (d : Dev) :
    Scans d (findSignatureLoop g chip limit n d).2 ∧
      forall sig ba, (findSignatureLoop g chip limit n d).1 = some (some (sig, ba)) -> ba < n := by
  induction n generalizing d with
  | zero =>
      rw [findSignatureLoop]
      refine ⟨Scans.refl d, ?_⟩
      intro sig ba h
      dsimp only at h
      split at h
      · cases h
      · cases h
  | succ n ih =>
      have hnext : forall d0 d', Scans d0 d' ->
          Scans d0 (findSignatureLoop g chip limit n d').2 ∧
          forall sig ba, (findSignatureLoop g chip limit n d').1 = some (some (sig, ba)) ->
            ba < n + 1 := by
        intro d0 d' hscan
        refine ⟨hscan.trans (ih d').left, ?_⟩
        intro sig ba h
        exact Nat.lt_succ_of_lt ((ih d').right sig ba h)
      have hbad := scans_checkBad g chip n d
      rw [findSignatureLoop]
      split
      · split
        · rename_i d' heq
          rw [heq] at hbad
          exact hnext d d' hbad
        · rename_i d' heq
          rw [heq] at hbad
          have hfind := scans_findInBlock g chip (ba2addr g n) (pages g g.blkSize) d'
          split
          · rename_i sig d'' heq'
            rw [heq'] at hfind
            refine ⟨hbad.trans hfind, ?_⟩
            intro sig' ba h
            cases h
            exact Nat.lt_succ_self n
          · rename_i d'' heq'
            rw [heq'] at hfind
            exact hnext d d'' (hbad.trans hfind)
      · refine ⟨Scans.refl d, ?_⟩
        intro sig ba h
        cases h

theorem findSignature_spec (d : Dev) :
    Scans d (nmbmFindSignature g chip d).2 ∧
      forall sig ba, (nmbmFindSignature g chip d).1 = some (some (sig, ba)) ->
        ba < g.totalBlks :=
  findSignatureLoop_spec g chip _ g.totalBlks d

/-!
## Checking a table
-/

/-- The accepted entries of a mapping: none is the signature, none lies between the
data and the end of the table, and `minimum` is the lowest one after it. -/
structure Checked (mgmt sig endBa : Nat) (mapping : Nat -> Int) (minimum : Nat) : Prop where
  le_sig : minimum ≤ sig
  attained : minimum = sig ∨
    (endBa ≤ minimum ∧ exists lb, lb < mgmt ∧ asU32 (mapping lb) = minimum)
  entry : forall lb, lb < mgmt -> asU32 (mapping lb) ≠ sig ∧
    ¬ (mgmt ≤ asU32 (mapping lb) ∧ asU32 (mapping lb) < endBa) ∧
    (endBa ≤ asU32 (mapping lb) -> asU32 (mapping lb) < sig -> minimum ≤ asU32 (mapping lb))

theorem checkMapping_spec {ni : Instance} {endBa : Nat} {mapping : Nat -> Int}
    {n ba minimum result : Nat} (hn : ba + n = ni.dataBlockCount)
    (hle : minimum ≤ ni.signatureBa)
    (hattained : minimum = ni.signatureBa ∨ (endBa ≤ minimum ∧
      exists lb, lb < ni.dataBlockCount ∧ asU32 (mapping lb) = minimum))
    (hentry : forall lb, lb < ba -> asU32 (mapping lb) ≠ ni.signatureBa ∧
      ¬ (ni.dataBlockCount ≤ asU32 (mapping lb) ∧ asU32 (mapping lb) < endBa) ∧
      (endBa ≤ asU32 (mapping lb) -> asU32 (mapping lb) < ni.signatureBa ->
        minimum ≤ asU32 (mapping lb)))
    (h : checkMapping ni endBa mapping n ba minimum = some result) :
    Checked ni.dataBlockCount ni.signatureBa endBa mapping result := by
  induction n generalizing ba minimum with
  | zero =>
      rw [checkMapping] at h
      cases h
      refine ⟨hle, hattained, ?_⟩
      intro lb hlb
      exact hentry lb (by lia)
  | succ n ih =>
      rw [checkMapping] at h
      split at h
      · cases h
      · rename_i hok
        refine ih (by lia) ?_ ?_ ?_ h
        · split
          · lia
          · exact hle
        · split
          · rename_i hnew
            exact Or.inr ⟨hnew.left, ba, by lia, rfl⟩
          · exact hattained
        · intro lb hlb
          by_cases hlast : lb = ba
          · subst hlast
            refine ⟨fun heq => hok (Or.inr heq), fun hin => hok (Or.inl hin), ?_⟩
            intro hend hsig
            split
            · exact Nat.le_refl _
            · lia
          · have hold := hentry lb (by lia)
            refine ⟨hold.left, hold.right.left, ?_⟩
            intro hend hsig
            have hmin := hold.right.right hend hsig
            split
            · lia
            · exact hmin

theorem checkInfoTable_spec {ni : Instance} {startBa endBa top : Nat} {data : Bytes}
    (h : nmbmCheckInfoTable ni startBa endBa data = some top) :
    exists minimum, top = sub32 minimum 1 ∧
      Checked ni.dataBlockCount ni.signatureBa endBa (mappingEntry data (le32 data 24))
        minimum := by
  rw [nmbmCheckInfoTable] at h
  split at h
  · cases h
  · rename_i minimum hcheck
    split at h
    · cases h
      exact ⟨minimum, rfl, checkMapping_spec (Nat.zero_add _) (Nat.le_refl _) (Or.inl rfl)
        (fun lb hlb => (Nat.not_lt_zero lb hlb).elim) hcheck⟩
    · cases h

/-- Reading a table does not touch the mapping, and a table takes at least one
block. -/
theorem loadTableLoop_spec (n ba sizeremain : Nat) (start : Option Nat) (data : Bytes) (d : Dev) :
    Scans d (loadTableLoop g chip n ba sizeremain start data d).2 ∧
      forall r, (loadTableLoop g chip n ba sizeremain start data d).1 = some r ->
        ba ≤ r.2.1 ∧ (0 < sizeremain -> ba < r.2.1) := by
  induction n generalizing ba sizeremain start data d with
  | zero =>
      rw [loadTableLoop]
      refine ⟨Scans.refl d, ?_⟩
      intro r h
      dsimp only at h
      split at h
      · cases h
        exact ⟨Nat.le_refl _, fun hpos => by lia⟩
      · cases h
  | succ n ih =>
      have hnext : forall sizeremain' start' data' d0 d', Scans d0 d' ->
          Scans d0 (loadTableLoop g chip n (ba + 1) sizeremain' start' data' d').2 ∧
          forall r, (loadTableLoop g chip n (ba + 1) sizeremain' start' data' d').1 = some r ->
            ba ≤ r.2.1 ∧ (0 < sizeremain -> ba < r.2.1) := by
        intro sizeremain' start' data' d0 d' hscan
        have hrec := ih (ba + 1) sizeremain' start' data' d'
        refine ⟨hscan.trans hrec.left, ?_⟩
        intro r h
        have hle := (hrec.right r h).left
        exact ⟨by lia, fun _ => by lia⟩
      have hbad := scans_checkBad g chip ba d
      rw [loadTableLoop]
      split
      · refine ⟨Scans.refl d, ?_⟩
        intro r h
        cases h
        exact ⟨Nat.le_refl _, fun hpos => by lia⟩
      · split
        · exact hnext _ _ _ d d (Scans.refl d)
        · split
          · rename_i d' heq
            rw [heq] at hbad
            exact hnext _ _ _ d _ (hbad.trans (scans_setBad ba d'))
          · rename_i d' heq
            rw [heq] at hbad
            have hread := scans_readPages g chip (ba2addr g ba)
              (pages g (min sizeremain g.blkSize)) (min sizeremain g.blkSize) [] d'
            have hscan := hbad.trans hread
            dsimp only [nmbnReadData]
            split
            · exact hnext _ _ _ d _ (hscan.trans (scans_setBad ba _))
            · split
              · exact ⟨hscan, (fun r h => nomatch h)⟩
              · split
                · exact ⟨hscan, (fun r h => nomatch h)⟩
                · exact hnext _ _ _ d _ hscan

theorem le32_lt (data : Bytes) (off : Nat) : le32 data off < 2 ^ 32 := by
  have hlt := leNat_lt ((data.drop off).take 4)
  have hlen : ((data.drop off).take 4).length ≤ 4 := List.length_take_le 4 _
  have hpow : 256 ^ ((data.drop off).take 4).length ≤ 256 ^ 4 :=
    Nat.pow_le_pow_right (by decide) hlen
  unfold le32
  lia

theorem mappingEntry_small (data : Bytes) (off ba : Nat) :
    -2 ^ 31 ≤ mappingEntry data off ba ∧ mappingEntry data off ba < 2 ^ 31 := by
  have hlt := le32_lt data (off + 4 * ba)
  unfold mappingEntry toInt32
  split
  · lia
  · lia

structure Loaded (ni : Instance) (found : Found) : Prop where
  small : forall lb, -2 ^ 31 ≤ ni.blockMapping lb ∧ ni.blockMapping lb < 2 ^ 31
  count : ni.writeCount = found.writeCount
  checked : exists minimum, found.topBa = sub32 minimum 1 ∧
    Checked ni.dataBlockCount ni.signatureBa found.endBa ni.blockMapping minimum

/-- A table found at `ba`: either it has become the tables of the instance, or the
instance already had newer ones. -/
theorem tryLoad_spec (ba : Nat) (tableLoaded : Bool) (d : Dev) :
    Reads d (nmbmTryLoadInfoTable g chip ba tableLoaded d).2 ∧
      ((nmbmTryLoadInfoTable g chip ba tableLoaded d).1 = none ->
        Scans d (nmbmTryLoadInfoTable g chip ba tableLoaded d).2) ∧
      forall found, (nmbmTryLoadInfoTable g chip ba tableLoaded d).1 = some found ->
        ba < found.endBa ∧
          (Loaded (nmbmTryLoadInfoTable g chip ba tableLoaded d).2.ni found ∧
              (tableLoaded = true -> d.ni.writeCount < found.writeCount) ∨
            tableLoaded = true ∧ found.writeCount ≤ d.ni.writeCount ∧
              Scans d (nmbmTryLoadInfoTable g chip ba tableLoaded d).2) := by
  have hloop := loadTableLoop_spec g chip (size2blk g (infoTableSize g)) ba (infoTableSize g)
    none [] d
  rw [nmbmTryLoadInfoTable]
  split
  · rename_i d1 heq
    rw [heq] at hloop
    exact ⟨hloop.left.reads, fun _ => hloop.left, (fun found h => nomatch h)⟩
  · rename_i start endBa data d1 heq
    rw [heq] at hloop
    have hscan : Scans d d1 := hloop.left
    have hend : ba < endBa := (hloop.right _ rfl).right (infoTableSize_pos g)
    split
    · split
      · exact ⟨hscan.reads, fun _ => hscan, (fun found h => nomatch h)⟩
      · rename_i top hcheck
        rcases checkInfoTable_spec hcheck with ⟨minimum, htop, hchecked⟩
        dsimp only
        have hcount : d1.ni.writeCount = d.ni.writeCount := by
          rcases hscan.ni with ⟨_, _, hni⟩
          rw [hni]
        split
        · rename_i htake
          have htaken : Reads d1 (d1.update (Instance.takeTable data)) :=
            ⟨⟨_, d1.ni.blockStateChanged, _, _, rfl⟩, rfl, rfl⟩
          refine ⟨hscan.reads.trans htaken, (fun h => nomatch h), ?_⟩
          intro found h
          cases h
          refine ⟨hend, Or.inl ⟨⟨mappingEntry_small data _, rfl, minimum, htop, hchecked⟩, ?_⟩⟩
          intro hloaded
          rcases htake with hfirst | hnewer
          · rw [hfirst] at hloaded
            cases hloaded
          · exact hcount.symm.trans_lt hnewer
        · rename_i hkeep
          refine ⟨hscan.reads, (fun h => nomatch h), ?_⟩
          intro found h
          cases h
          have hloaded : tableLoaded = true := by
            cases tableLoaded with
            | true => rfl
            | false => exact (hkeep (Or.inl rfl)).elim
          refine ⟨hend, Or.inr ⟨hloaded, ?_, hscan⟩⟩
          have hle : ¬ le32 data 16 > d1.ni.writeCount := fun hgt => hkeep (Or.inr hgt)
          change le32 data 16 ≤ d.ni.writeCount
          lia
    · exact ⟨hscan.reads, fun _ => hscan, (fun found h => nomatch h)⟩

theorem searchLoop_spec (tableLoaded : Bool) (n ba : Nat) (d : Dev) :
    Reads d (searchLoop g chip tableLoaded n ba d).2 ∧
      ((searchLoop g chip tableLoaded n ba d).1 = none ->
        Scans d (searchLoop g chip tableLoaded n ba d).2) ∧
      forall tableBa found, (searchLoop g chip tableLoaded n ba d).1 = some (tableBa, found) ->
        ba ≤ tableBa ∧ tableBa < found.endBa ∧
          (Loaded (searchLoop g chip tableLoaded n ba d).2.ni found ∧
              (tableLoaded = true -> d.ni.writeCount < found.writeCount) ∨
            tableLoaded = true ∧ found.writeCount ≤ d.ni.writeCount ∧
              Scans d (searchLoop g chip tableLoaded n ba d).2) := by
  induction n generalizing ba d with
  | zero => exact ⟨(Scans.refl d).reads, fun _ => Scans.refl d, (fun _ _ h => nomatch h)⟩
  | succ n ih =>
      have htry := tryLoad_spec g chip ba tableLoaded d
      rw [searchLoop]
      split
      · rename_i found d1 heq
        rw [heq] at htry
        refine ⟨htry.left, (fun h => nomatch h), ?_⟩
        intro tableBa found' h
        cases h
        have hfound := htry.right.right found rfl
        exact ⟨Nat.le_refl _, hfound.left, hfound.right⟩
      · rename_i d1 heq
        rw [heq] at htry
        have hscan : Scans d d1 := htry.right.left rfl
        have hcount : d1.ni.writeCount = d.ni.writeCount := by
          rcases hscan.ni with ⟨_, _, hni⟩
          rw [hni]
        have hrec := ih (ba + 1) d1
        refine ⟨hscan.reads.trans hrec.left, fun h => hscan.trans (hrec.right.left h), ?_⟩
        intro tableBa found h
        rcases hrec.right.right tableBa found h with ⟨hba, hend, hcases⟩
        refine ⟨by lia, hend, ?_⟩
        rw [hcount] at hcases
        rcases hcases with hloaded | ⟨hflag, hle, hscan'⟩
        · exact Or.inl hloaded
        · exact Or.inr ⟨hflag, hle, hscan.trans hscan'⟩

/-!
## The loaded instance
-/

/-- The tables read can be used: they end before the signature, their entries are
distinct, and none lies between the start of the management area and the end of
the last table. -/
def Loadable (ni : Instance) (tableEndBa : Nat) : Prop :=
  tableEndBa < ni.signatureBa ∧
    Allotment.Exclusive (fun lb => lb < ni.mgmtStartBa) (held ni.blockMapping)
      (fun b => ni.mgmtStartBa ≤ b ∧ b ≤ tableEndBa)

theorem finalCount_le (mapping : Nat -> Int) {count n : Nat} (hn : n ≤ count) :
    finalCount mapping count n ≤ count := by
  induction n with
  | zero => exact Nat.le_refl _
  | succ n ih =>
      rw [finalCount]
      split
      · exact hn
      · exact ih (Nat.le_of_succ_le hn)

theorem held_eq_some {mapping : Nat -> Int} {lb b : Nat} (h : held mapping lb = some b) :
    mapping lb = b := by
  unfold held at h
  split at h
  · rename_i hpos
    have hb := Option.some.inj h
    lia
  · cases h

theorem asU32_of_held {mapping : Nat -> Int} {lb b : Nat} (hsmall : mapping lb < 2 ^ 31)
    (h : held mapping lb = some b) : asU32 (mapping lb) = b := by
  have heq := held_eq_some h
  unfold asU32
  rw [heq] at hsmall ⊢
  lia

/-- Below `2 ^ 31` the comparison as unsigned numbers only lets entries through that
are held. -/
theorem held_of_asU32 {mapping : Nat -> Int} {lb b : Nat}
    (hsmall : -2 ^ 31 ≤ mapping lb ∧ mapping lb < 2 ^ 31) (hb : b < 2 ^ 31)
    (h : asU32 (mapping lb) = b) : held mapping lb = some b := by
  unfold asU32 at h
  have hpos : 0 ≤ mapping lb := by lia
  unfold held
  rw [if_pos hpos]
  congr 1
  lia

/-- The mapping of a loadable table keeps to its side of `mapping_blocks_top_ba`. -/
theorem Loaded.roles {ni : Instance} {found : Found} {endBa : Nat} (h : Loaded ni found)
    (hcount : ni.dataBlockCount = ni.mgmtStartBa) (hmgmt : ni.mgmtStartBa ≤ found.endBa)
    (hsig : ni.signatureBa < 2 ^ 16) (hload : Loadable ni endBa) :
    Allotment.Exclusive (fun lb => lb < ni.mgmtStartBa) (held ni.blockMapping)
        (reserve ni.mgmtStartBa found.topBa ni.signatureBa) ∧
      endBa ≤ found.topBa ∧ found.topBa < ni.signatureBa := by
  rcases h.checked with ⟨minimum, htop, hchecked⟩
  rw [hcount] at hchecked
  have hle := hchecked.le_sig
  -- the lowest remapped block is held, so it lies behind the last table
  have hminimum : endBa < minimum := by
    rcases hchecked.attained with hmin | ⟨hge, lb, hlb, hmin⟩
    · exact hload.left.trans_eq hmin.symm
    · have hheld := held_of_asU32 (h.small lb) (by lia) hmin
      have hout := hload.right.unreserved hlb hheld
      by_contra hin
      exact hout ⟨by lia, by lia⟩
  have htop' : found.topBa = minimum - 1 := by
    rw [htop]
    exact sub32_of_le (by lia) (by lia)
  refine ⟨⟨hload.right.unshared, ?_⟩, by lia, by lia⟩
  intro lb b hlb hheld hmem
  have hb := asU32_of_held (h.small lb).right hheld
  have hentry := hchecked.entry lb hlb
  rw [hb] at hentry
  rcases hmem with ⟨hlo, hhi⟩ | heq
  · have hbehind : found.endBa ≤ b := by
      by_contra hlt
      exact hentry.right.left ⟨hlo, by lia⟩
    have hmin := hentry.right.right hbehind (by lia)
    lia
  · exact hentry.left heq

theorem Loaded.sound {ni : Instance} {found : Found} {endBa : Nat} (h : Loaded ni found)
    (hcount : ni.dataBlockCount = ni.mgmtStartBa) (hmgmt : ni.mgmtStartBa ≤ found.endBa)
    (hend : found.endBa ≤ endBa) (hsig : ni.signatureBa < g.totalBlks) (hload : Loadable ni endBa)
    (hmain : Placed ni.mgmtStartBa endBa ni.main) (hpos : 0 < endBa)
    (hbackup : Placed (max ni.mgmtStartBa ni.mainTableEnd) endBa ni.backup)
    (hzero : ni.backupTableBa = 0 -> ni.backup = noTable) :
    Sound g (ni.loaded found.topBa endBa) := by
  have hroles := h.roles hcount hmgmt (hsig.trans g.totalBlks_lt) hload
  refine
    { roles := ?_
      mgmt_le := hmgmt.trans hend
      spare_pos := hpos
      main_placed := hmain
      backup_placed := hbackup
      backup_zero := hzero
      spare_le := hroles.right.left
      top_lt := hroles.right.right
      sig_lt := hsig }
  refine hroles.left.mono ?_ (fun _ hb => hb)
  intro lb hlb
  have hle := finalCount_le ni.blockMapping (Nat.le_of_eq hcount.symm)
  exact hcount ▸ Nat.lt_of_lt_of_le hlb hle

variable {g}

theorem generate_ni (d : Dev) :
    exists count, (nmbmGenerateInfoTableCache d).2.ni = { d.ni with writeCount := count } := by
  rw [nmbmGenerateInfoTableCache]
  dsimp only
  split
  · exact ⟨u32 (d.ni.writeCount + 1), rfl⟩
  · exact ⟨d.ni.writeCount, rfl⟩

theorem good_completeTables {d : Dev} (mainWriteCount : Nat) (backupWriteCount : Option Nat)
    (h : Good g d) (hmain : d.ni.mgmtStartBa ≤ d.ni.mainTableBa) :
    Good g (completeTables g chip mainWriteCount backupWriteCount d).2 := by
  unfold completeTables
  split
  · exact good_rescueSingle chip h
  · rename_i hne
    split
    · exact h
    · split
      · have hmark : Good g (d.update fun ni =>
            { ni with blockStateChanged := 1, blockMappingChanged := 1 }) :=
          h.update h.sound
        exact good_updateSingle chip _ hmark hmain hne
      · exact h

theorem good_finishLoad {d : Dev} (mainWriteCount : Nat) (backupWriteCount : Option Nat)
    (h : Good g d) (hmain : d.ni.mgmtStartBa ≤ d.ni.mainTableBa) :
    Good g (finishLoad g chip mainWriteCount backupWriteCount d) := by
  have hgen := good_generate h
  rcases generate_ni d with ⟨count, hni⟩
  have hmain1 : (nmbmGenerateInfoTableCache d).2.ni.mgmtStartBa ≤
      (nmbmGenerateInfoTableCache d).2.ni.mainTableBa := by
    rw [hni]
    exact hmain
  have hdone := good_completeTables chip mainWriteCount backupWriteCount hgen hmain1
  rw [finishLoad]
  split
  rename_i success d1 heq
  rw [heq] at hdone
  have hgood : Good g d1 := hdone
  split
  · exact hgood.update hgood.sound
  · exact hgood

theorem Loaded.of_scans {d d' : Dev} {found : Found} (h : Loaded d.ni found)
    (hscan : Scans d d') : Loaded d'.ni found := by
  rcases hscan.ni with ⟨_, _, hni⟩
  rw [hni]
  exact ⟨h.small, h.count, h.checked⟩

theorem Clean.update {d : Dev} (h : Clean d) (f : Instance -> Instance) : Clean (d.update f) :=
  ⟨h.erased, h.tables⟩

theorem Loaded.good {d : Dev} {found : Found} (endBa : Nat) (hclean : Clean d)
    (hsig : d.ni.signatureBa < g.totalBlks)
    (hcount : d.ni.dataBlockCount = d.ni.mgmtStartBa) (hloaded : Loaded d.ni found)
    (hmain : d.ni.mgmtStartBa ≤ d.ni.mainTableBa) (hmid : d.ni.mainTableBa < d.ni.mainTableEnd)
    (hend : d.ni.mainTableEnd ≤ endBa) (hfound : d.ni.mgmtStartBa ≤ found.endBa)
    (hle : found.endBa ≤ endBa)
    (hbackup : Placed (max d.ni.mgmtStartBa d.ni.mainTableEnd) endBa d.ni.backup)
    (hzero : d.ni.backupTableBa = 0 -> d.ni.backup = noTable)
    (hload : Loadable (d.ni.loaded found.topBa endBa) endBa) :
    Good g (d.update (Instance.loaded found.topBa endBa)) where
  sound := hloaded.sound g hcount hfound hle hsig hload (Or.inr ⟨hmain, hmid, hend⟩) (by lia)
    hbackup hzero
  clean := hclean.update _

structure Blank (g : Geometry) (d : Dev) : Prop where
  clean : Clean d
  sig : d.ni.signatureBa < g.totalBlks
  count : d.ni.dataBlockCount = d.ni.mgmtStartBa
  backup : d.ni.backup = noTable

theorem Blank.reads {d d' : Dev} (h : Blank g d) (hread : Reads d d') : Blank g d' where
  clean := hread.clean h.clean
  sig := hread.signatureBa.trans_lt h.sig
  count := (hread.dataBlockCount.trans h.count).trans hread.mgmtStartBa.symm
  backup := hread.backup.trans h.backup

theorem good_loadOne {d : Dev} {main : Found} (h : Blank g d) (hloaded : Loaded d.ni main)
    (hlo : d.ni.mgmtStartBa ≤ d.ni.mainTableBa) (hmid : d.ni.mainTableBa < main.endBa)
    (hend : d.ni.mainTableEnd = main.endBa)
    (hload : Loadable (d.ni.loaded main.topBa main.endBa) main.endBa) :
    Good g (finishLoad g chip main.writeCount none
      (d.update (Instance.loaded main.topBa main.endBa))) := by
  have hgood := Loaded.good main.endBa h.clean h.sig h.count hloaded hlo (by lia) (by lia)
    (by lia) (Nat.le_refl _) (Or.inl h.backup) (fun _ => h.backup) hload
  exact good_finishLoad chip _ _ hgood hlo

theorem good_loadTwo {d : Dev} {main backup found : Found} {backupBa : Nat} (h : Blank g d)
    (hloaded : Loaded d.ni found) (hfound : found = main ∨ found = backup)
    (hlo : d.ni.mgmtStartBa ≤ d.ni.mainTableBa) (hmid : d.ni.mainTableBa < main.endBa)
    (hend : d.ni.mainTableEnd = main.endBa) (hafter : main.endBa ≤ backupBa)
    (hmid' : backupBa < backup.endBa)
    (hload : Loadable (d.ni.loaded found.topBa backup.endBa) backup.endBa) :
    Good g (finishLoad g chip main.writeCount (some backup.writeCount)
      ((d.update (Instance.setBackup (backupBa, backup.endBa))).update
        (Instance.loaded found.topBa backup.endBa))) := by
  have hends : main.endBa ≤ found.endBa ∧ found.endBa ≤ backup.endBa := by
    rcases hfound with rfl | rfl
    · lia
    · lia
  have hzero : backupBa = 0 -> (backupBa, backup.endBa) = noTable := by lia
  have hgood := Loaded.good (d := d.update (Instance.setBackup (backupBa, backup.endBa)))
    backup.endBa (h.clean.update _) h.sig h.count
    ⟨hloaded.small, hloaded.count, hloaded.checked⟩ hlo (hmid.trans_eq hend.symm)
    (hend.trans_le (hafter.trans hmid'.le)) ((hlo.trans hmid.le).trans hends.left) hends.right
    (Or.inr ⟨max_le ((hlo.trans hmid.le).trans hafter) (hend.trans_le hafter), hmid',
      Nat.le_refl _⟩) hzero hload
  exact good_finishLoad chip _ _ hgood hlo

theorem second_search_spec {d : Dev} {main : Found} (h : Blank g d) (hloaded : Loaded d.ni main)
    (hlo : d.ni.mgmtStartBa ≤ d.ni.mainTableBa) (hmid : d.ni.mainTableBa < main.endBa)
    (hend : d.ni.mainTableEnd = main.endBa) (limit : Nat) :
    match nmbmSearchInfoTable g chip main.endBa limit true d with
    | (none, d') => Loadable (d'.ni.loaded main.topBa main.endBa) main.endBa ->
        Good g (finishLoad g chip main.writeCount none
          (d'.update (Instance.loaded main.topBa main.endBa)))
    | (some (backupBa, backup), d') =>
        Loadable (d'.ni.loaded
          (if main.writeCount ≥ backup.writeCount then main.topBa else backup.topBa)
          backup.endBa) backup.endBa ->
        Good g (finishLoad g chip main.writeCount (some backup.writeCount)
          ((d'.update (Instance.setBackup (backupBa, backup.endBa))).update
            (Instance.loaded
              (if main.writeCount ≥ backup.writeCount then main.topBa else backup.topBa)
              backup.endBa))) := by
  have hsearch := searchLoop_spec g chip true
    (sub32 limit (size2blk g (infoTableSize g)) - main.endBa) main.endBa d
  have hfields : forall d', Reads d d' -> d'.ni.mgmtStartBa ≤ d'.ni.mainTableBa ∧
      d'.ni.mainTableBa < main.endBa ∧ d'.ni.mainTableEnd = main.endBa := by
    intro d' hread
    have hmain := hread.main
    have hba : d'.ni.mainTableBa = d.ni.mainTableBa := congrArg Prod.fst hmain
    have hend' : d'.ni.mainTableEnd = d.ni.mainTableEnd := congrArg Prod.snd hmain
    have hmgmt := hread.mgmtStartBa
    exact ⟨by lia, by lia, by lia⟩
  rw [nmbmSearchInfoTable]
  split
  · rename_i d' heq
    rw [heq] at hsearch
    have hscan : Scans d d' := hsearch.right.left rfl
    rcases hfields d' hscan.reads with ⟨hlo', hmid', hend'⟩
    exact good_loadOne chip (h.reads hscan.reads) (hloaded.of_scans hscan) hlo' hmid' hend'
  · rename_i backupBa backup d' heq
    rw [heq] at hsearch
    have hread : Reads d d' := hsearch.left
    rcases hfields d' hread with ⟨hlo', hmid', hend'⟩
    rcases hsearch.right.right backupBa backup rfl with ⟨hafter, hmid2, hcases⟩
    rcases hcases with ⟨hnew, hcount⟩ | ⟨_, hcount, hscan⟩
    · -- the second table is newer, and both the mapping and the top come from it
      have hlt : main.writeCount < backup.writeCount := hloaded.count.symm.trans_lt (hcount rfl)
      rw [if_neg (by lia : ¬ main.writeCount ≥ backup.writeCount)]
      exact good_loadTwo chip (h.reads hread) hnew (Or.inr rfl) hlo' hmid' hend' hafter hmid2
    · have hle : backup.writeCount ≤ main.writeCount := hcount.trans_eq hloaded.count
      rw [if_pos hle]
      exact good_loadTwo chip (h.reads hread) (hloaded.of_scans hscan) (Or.inl rfl) hlo' hmid'
        hend' hafter hmid2

/-- Loading existing tables: little has changed if none is found, and otherwise the
driver is good if the tables it met are loadable. -/
theorem load_spec {d : Dev} (hclean : Clean d) (hsig : d.ni.signatureBa < g.totalBlks)
    (limit : Nat) :
    match nmbmLoadInfoTable g chip d.ni.mgmtStartBa limit d with
    | (false, c) => Clean c.dev ∧ c.dev.ni.mgmtStartBa = d.ni.mgmtStartBa ∧
        c.dev.ni.signatureBa = d.ni.signatureBa
    | (true, c) => exists ni endBa, c.met = [.load ni endBa] ∧
        (Loadable ni endBa -> Good g c.dev) := by
  unfold nmbmLoadInfoTable
  generalize hd0 : (d.update fun ni =>
    { (ni.setMain noTable).setBackup noTable with
      writeCount := 0
      mappingBlocksTopBa := sub32 ni.signatureBa 1
      dataBlockCount := ni.mgmtStartBa }) = d0
  have hblank : Blank g d0 := by
    rw [<- hd0]
    exact ⟨hclean.update _, hsig, rfl, rfl⟩
  have hmgmt0 : d0.ni.mgmtStartBa = d.ni.mgmtStartBa := by
    rw [<- hd0]
    rfl
  have hsig0 : d0.ni.signatureBa = d.ni.signatureBa := by
    rw [<- hd0]
    rfl
  clear hd0
  have hfirst := searchLoop_spec g chip false
    (sub32 limit (size2blk g (infoTableSize g)) - d.ni.mgmtStartBa) d.ni.mgmtStartBa d0
  rw [<- nmbmSearchInfoTable] at hfirst
  dsimp only
  generalize nmbmSearchInfoTable g chip d.ni.mgmtStartBa limit false d0 = r at hfirst
  rcases r with ⟨_ | ⟨mainBa, main⟩, d1⟩
  · have hread : Reads d0 d1 := hfirst.left
    exact ⟨hread.clean hblank.clean, hread.mgmtStartBa.trans hmgmt0,
      hread.signatureBa.trans hsig0⟩
  · have hread : Reads d0 d1 := hfirst.left
    rcases hfirst.right.right mainBa main rfl with ⟨hfrom, hmid, hcases⟩
    have hloaded : Loaded d1.ni main := by
      rcases hcases with hloaded | hnever
      · exact hloaded.left
      · cases hnever.left
    have hblank1 := hblank.reads hread
    have hlo : d1.ni.mgmtStartBa ≤ mainBa := (hread.mgmtStartBa.trans hmgmt0).trans_le hfrom
    have hsecond := second_search_spec chip
      (d := d1.update (Instance.setMain (mainBa, main.endBa)))
      ⟨hblank1.clean.update _, hblank1.sig, hblank1.count, hblank1.backup⟩
      ⟨hloaded.small, hloaded.count, hloaded.checked⟩ hlo hmid rfl limit
    dsimp only
    generalize nmbmSearchInfoTable g chip main.endBa limit true
      (d1.update (Instance.setMain (mainBa, main.endBa))) = r at hsecond
    rcases r with ⟨_ | ⟨backupBa, backup⟩, d2⟩
    · exact ⟨_, _, rfl, hsecond⟩
    · exact ⟨_, _, rfl, hsecond⟩

end Nmbm
end Hlk7621
