import Hlk7621.Lib.Flash

/-!
# Updating SPI flash

`sf update` of `cmd/sf.c` writes a buffer to any range of a flash whose sectors can
only be erased as a whole.  It goes through the sectors of the range: each is read
into a comparison buffer, and erased and written again if its part of the range
differs from what is to be there.

The driver below it is a parameter.  Every access to the flash and to the comparison
buffer is noted down, newest first.
-/

namespace Hlk7621
namespace UBoot
namespace Sf

/-- A SPI flash and its driver, whose calls return an error number or 0. -/
structure SpiFlash (E : Type) where
  size : Nat
  sectorSize : Nat
  read : Nat -> Nat -> E -> Int × Bytes × E
  erase : Nat -> Nat -> E -> Int × E
  write : Nat -> Bytes -> E -> Int × E

inductive Access where
  | cmpBuf (off len : Nat)
  | read (off len : Nat) (ret : Int)
  | erase (off len : Nat) (ret : Int)
  | write (off len : Nat) (ret : Int)
  deriving DecidableEq

structure State (E : Type) where
  ext : E
  skipped : Nat
  log : List Access

def State.note {E : Type} (a : Access) (s : State E) : State E := { s with log := a :: s.log }

/-!
## The code
-/

section

variable {E : Type} (F : SpiFlash E)

/-- The end of `spi_flash_update_block` for a sector that has to change: it is erased
and written as a whole.  A partial sector is completed in the comparison buffer. -/
def rewriteSector (readOffset startOffset : Nat) (buf cmpBuf : Bytes) (s : State E) :
    Option Bytes × State E :=
  match F.erase readOffset F.sectorSize s.ext with
  | (ret, ext) =>
      let s := { s with ext := ext }.note (.erase readOffset F.sectorSize ret)
      if ret ≠ 0 then (some (str "erase"), s)
      else
        let s := if buf.length ≠ F.sectorSize then
            (s.note (.cmpBuf startOffset buf.length)).note (.cmpBuf 0 F.sectorSize)
          else s
        let data := if buf.length ≠ F.sectorSize then splice cmpBuf startOffset buf else buf
        match F.write readOffset data s.ext with
        | (ret, ext) =>
            let s := { s with ext := ext }.note (.write readOffset data.length ret)
            if ret ≠ 0 then (some (str "write"), s) else (none, s)

/-- `spi_flash_update_block` for the bytes `buf`: the stage that failed, if any. -/
def updateBlock (offset : Nat) (buf : Bytes) (s : State E) : Option Bytes × State E :=
  let startOffset := offset % F.sectorSize
  let readOffset := offset - startOffset
  match F.read readOffset F.sectorSize s.ext with
  | (ret, cmpBuf, ext) =>
      let s := ({ s with ext := ext }.note (.cmpBuf 0 F.sectorSize)).note
        (.read readOffset F.sectorSize ret)
      if ret ≠ 0 then (some (str "read"), s)
      else
        let s := s.note (.cmpBuf startOffset buf.length)
        if (cmpBuf.drop startOffset).take buf.length = buf then
          (none, { s with skipped := s.skipped + buf.length })
        else rewriteSector F readOffset startOffset buf cmpBuf s

/-- The loop of `spi_flash_update`; every round takes at least one byte of `buf`. -/
def updateLoop : Nat -> Nat -> Bytes -> State E -> Option Bytes × State E
  | 0, _, _, s => (none, s)
  | fuel + 1, offset, buf, s =>
      if buf = [] then (none, s)
      else
        let todo := min buf.length (F.sectorSize - offset % F.sectorSize)
        match updateBlock F offset (buf.take todo) s with
        | (some stage, s) => (some stage, s)
        | (none, s) => updateLoop fuel (u32 (offset + todo)) (buf.drop todo) s

/-- `spi_flash_update`; `allocated` says whether there is memory for the comparison
buffer. -/
def spiFlashUpdate (allocated : Bool) (offset : Nat) (buf : Bytes) (ext : E) :
    Int × State E :=
  let s : State E := { ext := ext, skipped := 0, log := [] }
  let r := if allocated then updateLoop F buf.length offset buf s
    else (some (str "malloc"), s)
  (if r.1 ≠ none then 1 else 0, r.2)

/-!
## A sound flash
-/

/-- Every call stays in its range, and one that reports success has done what it is
for: a read returns the contents, an erase sets all bits, and programming clears the
bits that are clear in the data. -/
structure Sound (contents : E -> Nat -> UInt8) : Prop where
  sector_pos : 0 < F.sectorSize
  size_dvd : F.sectorSize ∣ F.size
  size_lt : F.size < 2 ^ 32
  read (off len : Nat) (e : E) (fit : off + len ≤ F.size) :
    contents (F.read off len e).2.2 = contents e ∧
      ((F.read off len e).1 = 0 -> (F.read off len e).2.1 = window (contents e) off len)
  erase (off len : Nat) (e : E) (fit : off + len ≤ F.size) (haligned : F.sectorSize ∣ off)
    (hwhole : F.sectorSize ∣ len) :
    (forall a, a < off ∨ off + len ≤ a -> contents (F.erase off len e).2 a = contents e a) ∧
      ((F.erase off len e).1 = 0 ->
        contents (F.erase off len e).2 = Flash.erase (contents e) off len)
  write (off : Nat) (data : Bytes) (e : E) (fit : off + data.length ≤ F.size) :
    (forall a, a < off ∨ off + data.length ≤ a ->
        contents (F.write off data e).2 a = contents e a) ∧
      ((F.write off data e).1 = 0 ->
        contents (F.write off data e).2 = Flash.program (contents e) off data)

structure SectorOf (offset stop off len : Nat) : Prop where
  aligned : F.sectorSize ∣ off
  whole : len = F.sectorSize
  fit : off + len ≤ F.size
  first : offset - offset % F.sectorSize ≤ off
  last : off < stop

/-- What is right about an access of an update of `[offset, offset + buf.length)` that
starts with the contents `old` and ends with `new`. -/
def Fine (offset : Nat) (buf : Bytes) (old new : Nat -> UInt8) : Access -> Prop
  | .cmpBuf off len => off + len ≤ F.sectorSize
  | .read off len ret => SectorOf F offset (offset + buf.length) off len ∧
      (ret ≠ 0 -> forall a, off ≤ a -> a < off + len -> new a = old a)
  | .erase off len _ | .write off len _ => SectorOf F offset (offset + buf.length) off len ∧
      exists i, off ≤ offset + i ∧ offset + i < off + len ∧ i < buf.length ∧
        buf[i]? ≠ some (old (offset + i))

end

/-!
## One sector
-/

section

variable {offset : Nat} {buf : Bytes}

theorem overwrite_same {mem : Nat -> UInt8} (h : window mem offset buf.length = buf) :
    overwrite mem offset buf = mem := by
  rw [window_eq_iff] at h
  funext a
  unfold overwrite
  split
  · rename_i hin
    have hget := h (a - offset) (by lia)
    rw [List.getD_eq_getElem _ _ (by lia), <- hget, Nat.add_sub_cancel' hin.left]
  · rfl

theorem differs_of_ne {mem : Nat -> UInt8} (h : window mem offset buf.length ≠ buf) :
    exists i, i < buf.length ∧ buf[i]? ≠ some (mem (offset + i)) := by
  by_contra hnone
  apply h
  rw [window_eq_iff]
  intro i hi
  by_contra hne
  refine hnone ⟨i, hi, ?_⟩
  rw [List.getElem?_eq_getElem hi]
  exact fun heq => hne (Option.some.inj heq).symm

theorem splice_all {old : Bytes} (h : buf.length = old.length) : splice old 0 buf = buf := by
  unfold splice
  rw [<- h, window_overwrite_self]

/-- A sector erased and programmed with its old contents, into which `buf` has been
copied, is the sector with `buf` written into it. -/
theorem overwrite_sector (mem : Nat -> UInt8) {base size : Nat} (hbase : base ≤ offset)
    (hfit : offset + buf.length ≤ base + size) :
    overwrite (Flash.erase mem base size) base
        (splice (window mem base size) (offset - base) buf) =
      overwrite mem offset buf := by
  funext a
  by_cases hin : base ≤ a ∧ a < base + size
  · have hread : overwrite (Flash.erase mem base size) base
        (splice (window mem base size) (offset - base) buf) a =
        overwrite (fun i => (window mem base size).getD i 0) (offset - base) buf
          (a - base) := by
      rw [overwrite, if_pos (by simpa using hin), splice,
        List.getD_eq_getElem?_getD, window_length,
        window_getElem? _ _ _ _ (by lia), Nat.zero_add]
      rfl
    rw [hread]
    unfold overwrite
    by_cases hbuf : offset ≤ a ∧ a < offset + buf.length
    · rw [if_pos (by lia), if_pos hbuf]
      congr 1
      lia
    · rw [if_neg (by lia), if_neg hbuf]
      dsimp only
      rw [List.getD_eq_getElem?_getD,
        window_getElem? _ _ _ _ (by lia), Nat.add_sub_cancel' hin.left]
      rfl
  · rw [overwrite, if_neg (by simpa using hin), Flash.erase_outside (by lia),
      overwrite, if_neg (by lia)]

end

section

variable {E : Type} {F : SpiFlash E} {contents : E -> Nat -> UInt8} {offset : Nat}
  {buf : Bytes}

structure Done (F : SpiFlash E) (contents : E -> Nat -> UInt8) (offset : Nat) (buf : Bytes)
    (s : State E) (r : Option Bytes × State E) : Prop where
  log : exists new, r.2.log = new ++ s.log ∧
    forall x, x ∈ new -> Fine F offset buf (contents s.ext) (contents r.2.ext) x
  before : forall a, a < offset - offset % F.sectorSize ->
    contents r.2.ext a = contents s.ext a
  written : r.1 = none -> contents r.2.ext = overwrite (contents s.ext) offset buf

theorem sector_fits (hs : Sound F contents) (h : offset < F.size) :
    offset - offset % F.sectorSize + F.sectorSize ≤ F.size := by
  have hdvd : F.sectorSize ∣ F.size - (offset - offset % F.sectorSize) :=
    Nat.dvd_sub hs.size_dvd (Nat.dvd_sub_mod offset)
  have hle := Nat.le_of_dvd (by lia) hdvd
  lia

theorem Done.of_log {s s' : State E} {err : Option Bytes} (new : List Access)
    (hlog : s'.log = new ++ s.log)
    (hfine : forall x, x ∈ new ->
      Fine F offset buf (contents s.ext) (contents s'.ext) x)
    (hbefore : forall a, a < offset - offset % F.sectorSize ->
      contents s'.ext a = contents s.ext a)
    (hwritten : err = none -> contents s'.ext = overwrite (contents s.ext) offset buf) :
    Done F contents offset buf s (err, s') :=
  ⟨⟨new, hlog, hfine⟩, hbefore, hwritten⟩

theorem sector_data (hin : offset % F.sectorSize + buf.length ≤ F.sectorSize)
    (mem : Nat -> UInt8) (base : Nat) :
    (if buf.length ≠ F.sectorSize then
        splice (window mem base F.sectorSize) (offset % F.sectorSize) buf
      else buf) = splice (window mem base F.sectorSize) (offset % F.sectorSize) buf := by
  split
  · rfl
  · rename_i hwhole
    have hlen : buf.length = F.sectorSize := Decidable.not_not.mp hwhole
    have hzero : offset % F.sectorSize = 0 := by lia
    rw [hzero, splice_all (by rw [hlen, window_length])]

theorem merge_log (s : State E)
    (hin : offset % F.sectorSize + buf.length ≤ F.sectorSize) :
    exists new s', (if buf.length ≠ F.sectorSize then
        (s.note (.cmpBuf (offset % F.sectorSize) buf.length)).note (.cmpBuf 0 F.sectorSize)
      else s) = s' ∧ s'.ext = s.ext ∧ s'.log = new ++ s.log ∧
      forall (old final : Nat -> UInt8) x, x ∈ new -> Fine F offset buf old final x := by
  split
  · refine ⟨[.cmpBuf 0 F.sectorSize, .cmpBuf (offset % F.sectorSize) buf.length], _, rfl, rfl,
      rfl, ?_⟩
    intro old final x hx
    rcases List.mem_cons.mp hx with rfl | hx
    · exact Nat.le_of_eq (Nat.zero_add _)
    · rw [List.mem_singleton.mp hx]
      exact hin
  · exact ⟨[], s, rfl, rfl, rfl, fun _ _ x hx => nomatch hx⟩

theorem rewriteSector_done (hs : Sound F contents) (s : State E)
    (hsector : SectorOf F offset (offset + buf.length)
      (offset - offset % F.sectorSize) F.sectorSize)
    (hin : offset % F.sectorSize + buf.length ≤ F.sectorSize)
    (hne : window (contents s.ext) offset buf.length ≠ buf) :
    Done F contents offset buf s (rewriteSector F (offset - offset % F.sectorSize)
        (offset % F.sectorSize) buf
        (window (contents s.ext) (offset - offset % F.sectorSize) F.sectorSize) s) ∧
      forall a, offset - offset % F.sectorSize + F.sectorSize ≤ a ->
        contents (rewriteSector F (offset - offset % F.sectorSize)
          (offset % F.sectorSize) buf
          (window (contents s.ext) (offset - offset % F.sectorSize) F.sectorSize)
          s).2.ext a = contents s.ext a := by
  have hmod := Nat.mod_le offset F.sectorSize
  have herase := hs.erase (offset - offset % F.sectorSize) F.sectorSize s.ext hsector.fit
    hsector.aligned (Nat.dvd_refl _)
  have hdiffers : forall (b : Nat -> UInt8) (ret : Int),
      Fine F offset buf (contents s.ext) b
          (.erase (offset - offset % F.sectorSize) F.sectorSize ret) ∧
        Fine F offset buf (contents s.ext) b
          (.write (offset - offset % F.sectorSize) F.sectorSize ret) := by
    intro b ret
    rcases differs_of_ne hne with ⟨i, hi, hdiff⟩
    have hplace : SectorOf F offset (offset + buf.length)
      (offset - offset % F.sectorSize) F.sectorSize ∧
        exists i, offset - offset % F.sectorSize ≤ offset + i ∧
          offset + i < offset - offset % F.sectorSize + F.sectorSize ∧
          i < buf.length ∧ buf[i]? ≠ some (contents s.ext (offset + i)) :=
      ⟨hsector, i, by lia, by lia, hi, hdiff⟩
    exact ⟨hplace, hplace⟩
  have hwrite := hs.write (offset - offset % F.sectorSize)
  unfold rewriteSector
  generalize F.write = write at hwrite ⊢
  rcases he : F.erase (offset - offset % F.sectorSize) F.sectorSize s.ext with ⟨ret, ext⟩
  rw [he] at herase
  dsimp only at herase ⊢
  by_cases hret : ret = 0
  · rw [if_neg (Decidable.not_not.mpr hret), sector_data hin]
    rcases merge_log ({ s with ext := ext }.note (.erase (offset - offset % F.sectorSize)
      F.sectorSize ret)) hin with ⟨new, s', hs', hext, hlog, hmerge⟩
    rw [hs', show s'.ext = ext from hext]
    have hsize : (splice (window (contents s.ext) (offset - offset % F.sectorSize)
        F.sectorSize) (offset % F.sectorSize) buf).length = F.sectorSize := by
      rw [splice_length, window_length]
    generalize hdata : splice (window (contents s.ext) (offset - offset % F.sectorSize)
      F.sectorSize) (offset % F.sectorSize) buf = data at hsize ⊢
    have hwrite := hwrite data ext (by rw [hsize]; exact hsector.fit)
    rw [hsize] at hwrite
    rcases hw : write (offset - offset % F.sectorSize) data ext with ⟨wret, ext2⟩
    rw [hw] at hwrite
    dsimp only at hwrite ⊢
    have hframe : forall a, a < offset - offset % F.sectorSize ∨
        offset - offset % F.sectorSize + F.sectorSize ≤ a ->
        contents ext2 a = contents s.ext a := fun a ha =>
      (hwrite.1 a ha).trans (herase.1 a ha)
    have hnew : forall x, x ∈ .write (offset - offset % F.sectorSize) data.length wret ::
        (new ++ [.erase (offset - offset % F.sectorSize) F.sectorSize ret]) ->
        Fine F offset buf (contents s.ext) (contents ext2) x := by
      intro x hx
      rw [hsize] at hx
      rcases List.mem_cons.mp hx with rfl | hx
      · exact (hdiffers _ wret).2
      · rcases List.mem_append.mp hx with hx | hx
        · exact hmerge _ _ x hx
        · rw [List.mem_singleton.mp hx]
          exact (hdiffers _ ret).1
    have hlog2 : s'.log = new ++ [.erase (offset - offset % F.sectorSize) F.sectorSize ret] ++
        s.log := by
      rw [hlog, List.append_assoc]
      rfl
    by_cases hwret : wret = 0
    · rw [if_neg (Decidable.not_not.mpr hwret)]
      refine ⟨Done.of_log
        (.write (offset - offset % F.sectorSize) data.length wret ::
          (new ++ [.erase (offset - offset % F.sectorSize) F.sectorSize ret]))
        (congrArg (List.cons _) hlog2) hnew (fun a ha => hframe a (.inl ha))
        (fun _ => ?_), fun a ha => hframe a (.inr ha)⟩
      have hsector' := overwrite_sector (contents s.ext)
        (Nat.sub_le offset (offset % F.sectorSize))
        (by lia : offset + buf.length ≤ offset - offset % F.sectorSize + F.sectorSize)
      rw [Nat.sub_sub_self hmod, hdata] at hsector'
      show contents ext2 = _
      rw [hwrite.2 hwret, herase.2 hret, Flash.program_erased, hsector']
      intro a hlo hhi
      exact Flash.erase_inside hlo (by lia)
    · rw [if_pos hwret]
      exact ⟨Done.of_log
        (.write (offset - offset % F.sectorSize) data.length wret ::
          (new ++ [.erase (offset - offset % F.sectorSize) F.sectorSize ret]))
        (congrArg (List.cons _) hlog2) hnew (fun a ha => hframe a (.inl ha))
        (fun h => nomatch h), fun a ha => hframe a (.inr ha)⟩
  · rw [if_pos hret]
    refine ⟨Done.of_log [.erase _ _ ret] rfl ?_ ?_ ?_, ?_⟩
    · intro x hx
      rw [List.mem_singleton.mp hx]
      exact (hdiffers _ ret).1
    · intro a ha
      exact herase.1 a (.inl ha)
    · intro h
      cases h
    · intro a ha
      exact herase.1 a (.inr ha)

theorem Done.extend {s s1 : State E} {r : Option Bytes × State E} (new : List Access)
    (hlog : s1.log = new ++ s.log) (hext : contents s1.ext = contents s.ext)
    (hfine : forall x, x ∈ new -> Fine F offset buf (contents s.ext) (contents r.2.ext) x)
    (h : Done F contents offset buf s1 r) : Done F contents offset buf s r := by
  rcases h with ⟨⟨later, hlater, hfine'⟩, hbefore, hwritten⟩
  rw [hext] at hfine' hbefore hwritten
  refine ⟨⟨later ++ new, ?_, ?_⟩, hbefore, hwritten⟩
  · rw [hlater, hlog, List.append_assoc]
  · intro x hx
    rcases List.mem_append.mp hx with hx | hx
    · exact hfine' x hx
    · exact hfine x hx

theorem updateBlock_done (hs : Sound F contents) (s : State E) (hbuf : buf ≠ [])
    (hfit : offset + buf.length ≤ F.size)
    (hin : offset % F.sectorSize + buf.length ≤ F.sectorSize) :
    Done F contents offset buf s (updateBlock F offset buf s) ∧
      forall a, offset - offset % F.sectorSize + F.sectorSize ≤ a ->
        contents (updateBlock F offset buf s).2.ext a = contents s.ext a := by
  have hlen : 0 < buf.length := List.length_pos_iff.mpr hbuf
  have hmod := Nat.mod_le offset F.sectorSize
  have hsector : SectorOf F offset (offset + buf.length)
      (offset - offset % F.sectorSize) F.sectorSize :=
    ⟨Nat.dvd_sub_mod offset, rfl, sector_fits hs (by lia), Nat.le_refl _, by lia⟩
  have hread := hs.read (offset - offset % F.sectorSize) F.sectorSize s.ext hsector.fit
  unfold updateBlock
  generalize F.read = read at hread ⊢
  dsimp only
  rcases hr : read (offset - offset % F.sectorSize) F.sectorSize s.ext with ⟨ret, cmpBuf, ext⟩
  rw [hr] at hread
  dsimp only at hread ⊢
  have hreadfine : forall final : Nat -> UInt8, (ret ≠ 0 -> final = contents s.ext) ->
      forall x, x ∈ [Access.cmpBuf (offset % F.sectorSize) buf.length,
        .read (offset - offset % F.sectorSize) F.sectorSize ret,
        .cmpBuf 0 F.sectorSize] -> Fine F offset buf (contents s.ext) final x := by
    intro final hfinal x hx
    simp only [List.mem_cons, List.not_mem_nil, or_false] at hx
    rcases hx with rfl | rfl | rfl
    · exact hin
    · exact ⟨hsector, fun hret a _ _ => congrFun (hfinal hret) a⟩
    · exact Nat.le_of_eq (Nat.zero_add _)
  by_cases hret : ret = 0
  · rw [if_neg (Decidable.not_not.mpr hret)]
    have hslice : (cmpBuf.drop (offset % F.sectorSize)).take buf.length =
        window (contents s.ext) offset buf.length := by
      rw [hread.2 hret, window_slice _ _ hin, Nat.sub_add_cancel hmod]
    rw [hslice]
    by_cases hsame : window (contents s.ext) offset buf.length = buf
    · rw [if_pos hsame]
      refine ⟨Done.of_log _ rfl (hreadfine _ fun h => absurd hret h) ?_ ?_, ?_⟩
      · exact fun a _ => congrFun hread.1 a
      · intro _
        rw [overwrite_same hsame]
        exact hread.1
      · exact fun a _ => congrFun hread.1 a
    · rw [if_neg hsame]
      generalize hs1 : ((State.note (.cmpBuf (offset % F.sectorSize) buf.length) _ : State E))
        = s1
      have hext : contents s1.ext = contents s.ext := by
        rw [<- hs1]
        exact hread.1
      have hlog : s1.log = [Access.cmpBuf (offset % F.sectorSize) buf.length,
          .read (offset - offset % F.sectorSize) F.sectorSize ret,
          .cmpBuf 0 F.sectorSize] ++ s.log := by
        rw [<- hs1]
        rfl
      have hdone := rewriteSector_done hs s1 hsector hin (by rw [hext]; exact hsame)
      rw [hext, <- hread.2 hret] at hdone
      refine ⟨hdone.1.extend _ hlog hext (hreadfine _ fun h => absurd hret h), hdone.2⟩
  · rw [if_pos hret]
    refine ⟨Done.of_log [.read (offset - offset % F.sectorSize) F.sectorSize ret,
      .cmpBuf 0 F.sectorSize] rfl ?_ ?_ ?_, ?_⟩
    · exact fun x hx => hreadfine _ (fun _ => hread.1) x (List.mem_cons_of_mem _ hx)
    · exact fun a _ => congrFun hread.1 a
    · exact fun h => nomatch h
    · exact fun a _ => congrFun hread.1 a

/-!
## The range
-/

theorem Fine.of_take {n : Nat} {old new : Nat -> UInt8} {x : Access}
    (h : Fine F offset (buf.take n) old new x) : Fine F offset buf old new x := by
  have hlen : (buf.take n).length ≤ buf.length := by
    rw [List.length_take]
    lia
  have hsector : forall {off len : Nat},
      SectorOf F offset (offset + (buf.take n).length) off len ->
      SectorOf F offset (offset + buf.length) off len :=
    fun h => ⟨h.aligned, h.whole, h.fit, h.first, by have := h.last; lia⟩
  have hwiden : forall {off len : Nat},
      (SectorOf F offset (offset + (buf.take n).length) off len ∧
        exists i, off ≤ offset + i ∧ offset + i < off + len ∧ i < (buf.take n).length ∧
          (buf.take n)[i]? ≠ some (old (offset + i))) ->
      SectorOf F offset (offset + buf.length) off len ∧
        exists i, off ≤ offset + i ∧ offset + i < off + len ∧ i < buf.length ∧
          buf[i]? ≠ some (old (offset + i)) := by
    rintro off len ⟨hplace, i, hlo, hhi, hi, hdiff⟩
    have hin : i < n := by
      rw [List.length_take] at hi
      lia
    rw [List.getElem?_take_of_lt hin] at hdiff
    exact ⟨hsector hplace, i, hlo, hhi, by lia, hdiff⟩
  cases x with
  | cmpBuf off len => exact h
  | read off len ret => exact ⟨hsector h.1, h.2⟩
  | erase off len ret => exact hwiden h
  | write off len ret => exact hwiden h

theorem Fine.of_drop {n : Nat} {old mid new : Nat -> UInt8} {x : Access}
    (halign : (offset + n) % F.sectorSize = 0) (hn : n ≤ buf.length)
    (hsame : forall a, offset + n ≤ a -> mid a = old a)
    (h : Fine F (offset + n) (buf.drop n) mid new x) : Fine F offset buf old new x := by
  have hlen : offset + n + (buf.drop n).length = offset + buf.length := by
    rw [List.length_drop]
    lia
  have hsector : forall {off len : Nat},
      SectorOf F (offset + n) (offset + n + (buf.drop n).length) off len ->
      SectorOf F offset (offset + buf.length) off len ∧ offset + n ≤ off := by
    rw [hlen]
    rintro off len ⟨haligned, hwhole, hfit, hfirst, hlast⟩
    rw [halign] at hfirst
    exact ⟨⟨haligned, hwhole, hfit, by lia, hlast⟩, by lia⟩
  have hwiden : forall {off len : Nat},
      (SectorOf F (offset + n) (offset + n + (buf.drop n).length) off len ∧
        exists i, off ≤ offset + n + i ∧ offset + n + i < off + len ∧
          i < (buf.drop n).length ∧ (buf.drop n)[i]? ≠ some (mid (offset + n + i))) ->
      SectorOf F offset (offset + buf.length) off len ∧
        exists i, off ≤ offset + i ∧ offset + i < off + len ∧ i < buf.length ∧
          buf[i]? ≠ some (old (offset + i)) := by
    rintro off len ⟨hplace, i, hlo, hhi, hi, hdiff⟩
    rw [List.getElem?_drop, hsame _ (by lia), Nat.add_assoc] at hdiff
    exact ⟨(hsector hplace).1, n + i, by lia, by lia, by lia, hdiff⟩
  cases x with
  | cmpBuf off len => exact h
  | read off len ret =>
      refine ⟨(hsector h.1).1, fun hret a hlo hhi => ?_⟩
      have hoff := (hsector h.1).2
      rw [h.2 hret a hlo hhi, hsame a (by lia)]
  | erase off len ret => exact hwiden h
  | write off len ret => exact hwiden h

theorem updateLoop_nil (fuel : Nat) (s : State E) : updateLoop F fuel offset [] s = (none, s) := by
  cases fuel with
  | zero => rfl
  | succ fuel => rfl

theorem Done.refl (s : State E) : Done F contents offset [] s (none, s) :=
  Done.of_log [] rfl (fun _ hx => nomatch hx) (fun _ _ => rfl) (fun _ => by rw [overwrite_nil])

theorem Done.of_take {n : Nat} {s s' : State E} {err : Option Bytes}
    (h : Done F contents offset (buf.take n) s (err, s')) (herr : err = none -> buf.length ≤ n) :
    Done F contents offset buf s (err, s') := by
  rcases h with ⟨⟨new, hlog, hfine⟩, hbefore, hwritten⟩
  refine ⟨⟨new, hlog, fun x hx => (hfine x hx).of_take⟩, hbefore, ?_⟩
  intro hnone
  have hall := hwritten hnone
  rw [List.take_of_length_le (herr hnone)] at hall
  exact hall

theorem sector_below {stop off len n : Nat} (h : SectorOf F offset stop off len)
    (halign : (offset + n) % F.sectorSize = 0) (hstop : stop = offset + n) :
    off + len ≤ offset + n := by
  have hdvd : F.sectorSize ∣ offset + n - off :=
    Nat.dvd_sub (Nat.dvd_of_mod_eq_zero halign) h.aligned
  have hlast := h.last
  have hle := Nat.le_of_dvd (by lia) hdvd
  have hwhole := h.whole
  lia

theorem Done.append {n : Nat} {s s1 : State E} {r : Option Bytes × State E}
    (halign : (offset + n) % F.sectorSize = 0) (hn : n ≤ buf.length)
    (hend : offset + n = offset - offset % F.sectorSize + F.sectorSize)
    (hhead : Done F contents offset (buf.take n) s (none, s1))
    (hbehind : forall a, offset - offset % F.sectorSize + F.sectorSize ≤ a ->
      contents s1.ext a = contents s.ext a)
    (hrest : Done F contents (offset + n) (buf.drop n) s1 r) :
    Done F contents offset buf s r := by
  rcases hhead with ⟨⟨new, hlog, hfine⟩, hbefore, hwritten⟩
  rcases hrest with ⟨⟨later, hlater, hfine'⟩, hbefore', hwritten'⟩
  rw [halign, Nat.sub_zero] at hbefore'
  have htake : (buf.take n).length = n := by
    rw [List.length_take]
    lia
  refine ⟨⟨later ++ new, ?_, ?_⟩, ?_, ?_⟩
  · rw [hlater, hlog, List.append_assoc]
  · intro x hx
    rcases List.mem_append.mp hx with hx | hx
    · exact (hfine' x hx).of_drop halign hn fun a ha => hbehind a (by lia)
    · have hpart := hfine x hx
      have hhead := hpart.of_take
      cases x with
      | cmpBuf off len => exact hhead
      | read off len ret =>
          refine ⟨hhead.1, fun hret a hlo hhi => ?_⟩
          have hstop := sector_below hpart.1 halign (by rw [htake])
          rw [hbefore' a (by lia)]
          exact hhead.2 hret a hlo hhi
      | erase off len ret => exact hhead
      | write off len ret => exact hhead
  · intro a ha
    rw [hbefore' a (by lia)]
    exact hbefore a ha
  · intro hnone
    have hall := overwrite_append (contents s.ext) offset (buf.take n) (buf.drop n)
    rw [htake, List.take_append_drop] at hall
    rw [hwritten' hnone, hwritten rfl, hall]

theorem updateLoop_done (hs : Sound F contents) {fuel : Nat} (s : State E)
    (hfit : offset + buf.length ≤ F.size) (hfuel : buf.length ≤ fuel) :
    Done F contents offset buf s (updateLoop F fuel offset buf s) := by
  induction fuel generalizing offset buf s with
  | zero =>
      rw [List.length_eq_zero_iff.mp (Nat.le_zero.mp hfuel)]
      exact Done.refl s
  | succ fuel ih =>
      by_cases hbuf : buf = []
      · rw [hbuf, updateLoop_nil]
        exact Done.refl s
      · have hlen : 0 < buf.length := List.length_pos_iff.mpr hbuf
        have hmod := Nat.mod_lt offset hs.sector_pos
        have hmodle := Nat.mod_le offset F.sectorSize
        rw [updateLoop, if_neg hbuf]
        generalize htodo : min buf.length (F.sectorSize - offset % F.sectorSize) = todo
        dsimp only
        have htake : (buf.take todo).length = todo := by
          rw [List.length_take]
          lia
        have hne : buf.take todo ≠ [] := List.length_pos_iff.mp (by lia)
        have hround := updateBlock_done hs s hne
          (by lia : offset + (buf.take todo).length ≤ F.size) (by lia)
        rcases hb : updateBlock F offset (buf.take todo) s with ⟨err, s1⟩
        rw [hb] at hround
        cases err with
        | some stage => exact hround.1.of_take fun h => nomatch h
        | none =>
            have hsize := hs.size_lt
            dsimp only
            rw [u32_of_lt (by lia)]
            by_cases hlast : buf.length ≤ todo
            · rw [List.drop_eq_nil_of_le hlast, updateLoop_nil]
              exact hround.1.of_take fun _ => hlast
            · have hend : offset + todo = offset - offset % F.sectorSize + F.sectorSize := by
                lia
              have halign : (offset + todo) % F.sectorSize = 0 := by
                rw [hend, Nat.add_mod_right]
                exact Nat.mod_eq_zero_of_dvd (Nat.dvd_sub_mod offset)
              have hdrop : (buf.drop todo).length = buf.length - todo := List.length_drop
              exact Done.append halign (by lia) hend hround.1 hround.2
                (ih s1 (by lia) (by lia))

/-- On a sound flash, an update of `[offset, offset + buf.length)` that reports success
has written the buffer there and nothing anywhere else.  Whether it succeeds or not, the
accesses to the comparison buffer are inside one sector, only sectors of which the range
part differed are erased or written, and a sector whose read failed is unchanged. -/
theorem spiFlashUpdate_frame (hs : Sound F contents) (allocated : Bool) (ext : E)
    (hfit : offset + buf.length ≤ F.size) :
    ((spiFlashUpdate F allocated offset buf ext).1 = 0 ->
      contents (spiFlashUpdate F allocated offset buf ext).2.ext =
        overwrite (contents ext) offset buf) ∧
    forall x, x ∈ (spiFlashUpdate F allocated offset buf ext).2.log ->
      Fine F offset buf (contents ext)
        (contents (spiFlashUpdate F allocated offset buf ext).2.ext) x := by
  unfold spiFlashUpdate
  cases allocated with
  | false => exact ⟨fun h => by simp at h, fun x hx => nomatch hx⟩
  | true =>
      have hdone := updateLoop_done hs { ext := ext, skipped := 0, log := [] } hfit
        (Nat.le_refl _)
      rcases hdone with ⟨⟨new, hlog, hfine⟩, _, hwritten⟩
      rw [List.append_nil] at hlog
      simp only [if_true]
      constructor
      · intro hret
        apply hwritten
        by_contra herr
        rw [if_pos herr] at hret
        cases hret
      · rw [hlog]
        exact hfine

end

/-!
## A small flash
-/

def smallFlash : SpiFlash (Nat -> UInt8) where
  size := 8
  sectorSize := 4
  read off len mem := (0, window mem off len, mem)
  erase off len mem := (0, Flash.erase mem off len)
  write off data mem := (0, Flash.program mem off data)

theorem smallFlash_sound : Sound smallFlash fun mem => mem where
  sector_pos := by decide
  size_dvd := by decide
  size_lt := by decide
  read _ _ _ _ := ⟨rfl, fun _ => rfl⟩
  erase _ _ _ _ _ _ := ⟨fun _ ha => Flash.erase_outside ha, fun _ => rfl⟩
  write _ _ _ _ := ⟨fun _ ha => Flash.program_outside ha, fun _ => rfl⟩

/-- Bytes 2 to 4 are set to 1, 2, 3 in a flash where byte 4 is 3 already: only the
first sector is written again. -/
theorem smallFlash_updated :
    let mem := fun a : Nat => UInt8.ofNat (a - 1)
    let r := spiFlashUpdate smallFlash true 2 [7, 8, 3] mem
    (r.1 = 0 ∧ r.2.log.filter (fun x => match x with | .write .. => true | _ => false) =
        [.write 0 4 0]) ∧
      (r.1 = 0 -> r.2.ext = overwrite mem 2 [7, 8, 3]) ∧
      forall x, x ∈ r.2.log -> Fine smallFlash 2 [7, 8, 3] mem r.2.ext x :=
  ⟨by decide +kernel, spiFlashUpdate_frame smallFlash_sound true _ (by decide)⟩

end Sf
end UBoot
end Hlk7621
