import Hlk7621.Env.Agreement
import Hlk7621.Lib.Flash

/-!
# What saving the environment touches

`env_sf_save` of `env/sf.c` on a flash of bytes, with one copy and with two.  The erase
is rounded up to whole sectors.  What shares the sector with the environment is saved
and restored if one sector is larger than the environment; the rest of the last of
several sectors is not.
-/

namespace Hlk7621
namespace Env
namespace Sf

/-!
## The code
-/

abbrev Mem : Type := Nat -> UInt8

abbrev Err : Type := {err : Int // err ≠ 0}

/-- A sector size and the offset of the environment, at the start of a sector. -/
structure Layout where
  sectSize : Nat
  offset : Nat
  sectSize_pos : 0 < sectSize
  aligned : sectSize ∣ offset

/-- The steps of a save that fail.  An erase or a write that fails leaves something
behind. -/
structure Faults where
  probe : Option Err
  malloc : Bool
  read : Option Err
  erase : Option (Err × Mem)
  write : Option (Err × Mem)
  writeSaved : Option (Err × Mem)
  writeFlag : Option (Err × Mem)

/-- The return value of a save, the flash, and if the erase has been reached. -/
structure Saved where
  ret : Int
  flash : Mem
  erasing : Bool

def attempt (fault : Option (Err × Mem)) (done : Mem) : Except (Err × Mem) Mem :=
  match fault with
  | some left => .error left
  | none => .ok done

def leBytes32 (n : Nat) : Bytes := (List.range 4).map fun i => UInt8.ofNat (n / 256 ^ i)

def divRoundUp (n d : Nat) : Nat := (n + d - 1) / d

/-- The erase and the writes of both variants of `env_sf_save`: `image` is the
environment that goes to `offset`, and `size` is `CONFIG_ENV_SIZE`. -/
def writeOut (faults : Faults) (sectSize size offset : Nat) (image : Bytes) (mem : Mem) :
    Except (Err × Mem) Mem := do
  let saved := window mem (offset + size) (sectSize - size)
  let sector := divRoundUp size sectSize
  let mem <- attempt faults.erase (Flash.erase mem offset (sector * sectSize))
  let mem <- attempt faults.write (Flash.program mem offset image)
  if sectSize > size then
    attempt faults.writeSaved (Flash.program mem (offset + size) saved)
  else pure mem

def finish (written : Except (Err × Mem) Mem) : Saved :=
  match written with
  | .ok mem => ⟨0, mem, true⟩
  | .error (err, mem) => ⟨err, mem, true⟩

structure SfConfig extends Config where
  size_pos : 0 < envSize

/-- `env_t`. -/
def image (block : Block) : Bytes := leBytes32 block.crc.toNat ++ block.data

/-- `env_sf_save` with one copy. -/
def envSfSave (cfg : SfConfig) (L : Layout) (faults : Faults) (htab : Htab) (mem : Mem) :
    Saved :=
  match faults.probe with
  | some err => ⟨err, mem, false⟩
  | none =>
      let size := cfg.envSize + 4
      let embedded := L.sectSize > size
      if embedded ∧ faults.malloc then ⟨-12, mem, false⟩
      else
        match (if embedded then faults.read else none) with
        | some err => ⟨err, mem, false⟩
        | none =>
            match envExport cfg.toConfig 0 htab with
            | none => ⟨1, mem, false⟩
            | some block => finish (writeOut faults L.sectSize size L.offset (image block) mem)

/-- Two copies of `size` bytes, both at the start of a sector and apart. -/
structure Redund (size : Nat) extends Layout where
  offsetRedund : Nat
  alignedRedund : sectSize ∣ offsetRedund
  apart : offset + size ≤ offsetRedund ∨ offsetRedund + size ≤ offset

/-- `env_new_offset`; `valid` tells if `gd->env_valid` is `ENV_VALID`. -/
def Redund.newOffset {size : Nat} (R : Redund size) (valid : Bool) : Nat :=
  if valid then R.offsetRedund else R.offset

/-- `env_offset`. -/
def Redund.oldOffset {size : Nat} (R : Redund size) (valid : Bool) : Nat :=
  if valid then R.offset else R.offsetRedund

/-- `env_t` with flags; `ENV_REDUND_ACTIVE` replaces the serial number. -/
def imageRedund (block : Block) : Bytes := leBytes32 block.crc.toNat ++ 1 :: block.data

/-- `env_sf_save` with two copies. -/
def envSfSaveRedund (cfg : SfConfig) (R : Redund (cfg.envSize + 5)) (faults : Faults)
    (htab : Htab) (valid : Bool) (mem : Mem) : Saved :=
  match faults.probe with
  | some err => ⟨err, mem, false⟩
  | none =>
      match envExport cfg.toConfig 0 htab with
      | none => ⟨-5, mem, false⟩
      | some block =>
          let size := cfg.envSize + 5
          let embedded := R.sectSize > size
          if embedded ∧ faults.malloc then ⟨-12, mem, false⟩
          else
            match (if embedded then faults.read else none) with
            | some err => ⟨err, mem, false⟩
            | none =>
                finish (do
                  let mem <- writeOut faults R.sectSize size (R.newOffset valid)
                    (imageRedund block) mem
                  attempt faults.writeFlag (Flash.program mem (R.oldOffset valid + 4) [0]))

/-!
## The writes
-/

section

variable {faults : Faults} {sectSize size offset : Nat} {data : Bytes} {mem mem' : Mem}

theorem le_sectors (hpos : 0 < sectSize) (size : Nat) :
    size ≤ divRoundUp size sectSize * sectSize := by
  have hmod := Nat.mod_lt (size + sectSize - 1) hpos
  have hdiv := Nat.div_add_mod' (size + sectSize - 1) sectSize
  unfold divRoundUp
  lia

theorem sectors_one (hlt : size < sectSize) (hpos : 0 < size) :
    divRoundUp size sectSize = 1 := by
  unfold divRoundUp
  exact Nat.div_eq_of_lt_le (by lia) (by lia)

theorem sectors_dvd (hpos : 0 < sectSize) (hdvd : sectSize ∣ size) :
    divRoundUp size sectSize * sectSize = size := by
  rcases hdvd with ⟨k, rfl⟩
  unfold divRoundUp
  rw [show sectSize * k + sectSize - 1 = sectSize - 1 + sectSize * k by lia,
    Nat.add_mul_div_left _ _ hpos, Nat.div_eq_of_lt (by lia), Nat.zero_add, Nat.mul_comm]

theorem overwrite_window (mem' : Mem) {off len a : Nat} (h : off ≤ a) (hlt : a < off + len) :
    overwrite mem' off (window mem off len) a = mem a := by
  unfold overwrite
  rw [window_length, if_pos ⟨h, hlt⟩]
  have hget := window_getElem? mem off len (a - off) (by lia)
  rw [List.getD_eq_getElem?_getD, hget, Option.getD_some]
  congr 1
  lia

theorem attempt_ok {fault : Option (Err × Mem)} {done : Mem}
    (h : attempt fault done = .ok mem') : mem' = done := by
  unfold attempt at h
  cases fault with
  | none =>
      cases h
      rfl
  | some left => cases h

theorem bind_ok {x : Except (Err × Mem) Mem} {f : Mem -> Except (Err × Mem) Mem}
    (h : (x >>= f) = .ok mem') : exists mem, x = .ok mem ∧ f mem = .ok mem' := by
  cases x with
  | error e => cases h
  | ok mem => exact ⟨mem, rfl, h⟩

def stored (sectSize offset : Nat) (data : Bytes) (mem : Mem) : Mem :=
  overwrite (Flash.erase mem offset (divRoundUp data.length sectSize * sectSize)) offset data

theorem writeOut_steps (hpos : 0 < sectSize)
    (h : writeOut faults sectSize data.length offset data mem = .ok mem') :
    mem' =
      if sectSize > data.length then
        Flash.program (stored sectSize offset data mem) (offset + data.length)
          (window mem (offset + data.length) (sectSize - data.length))
      else stored sectSize offset data mem := by
  have hle := le_sectors hpos data.length
  rcases bind_ok h with ⟨mem1, herase, h⟩
  rcases bind_ok h with ⟨mem2, hwrite, h⟩
  have hstored : mem2 = stored sectSize offset data mem := by
    rw [attempt_ok hwrite, attempt_ok herase]
    refine Flash.program_erased fun a ha hlt => ?_
    exact Flash.erase_inside ha (by lia)
  rw [<- hstored]
  by_cases hembedded : sectSize > data.length
  · rw [if_pos hembedded] at h ⊢
    exact attempt_ok h
  · rw [if_neg hembedded] at h ⊢
    cases h
    rfl

theorem stored_rest {a : Nat} (h : offset + data.length ≤ a)
    (hlt : a < offset + divRoundUp data.length sectSize * sectSize) :
    stored sectSize offset data mem a = 0xff := by
  unfold stored
  rw [overwrite_of_ge h]
  exact Flash.erase_inside (by lia) hlt

theorem stored_outside (hpos : 0 < sectSize) {a : Nat}
    (h : a < offset ∨ offset + divRoundUp data.length sectSize * sectSize ≤ a) :
    stored sectSize offset data mem a = mem a := by
  have hle := le_sectors hpos data.length
  unfold stored
  rcases h with hlt | hge
  · rw [overwrite_of_lt hlt]
    exact Flash.erase_outside (Or.inl hlt)
  · rw [overwrite_of_ge (by lia)]
    exact Flash.erase_outside (Or.inr hge)

structure Written (mem : Mem) (sectSize offset : Nat) (data : Bytes) (mem' : Mem) : Prop where
  stored : window mem' offset data.length = data
  rest (a : Nat) (h : offset + data.length ≤ a)
    (hlt : a < offset + divRoundUp data.length sectSize * sectSize) :
    mem' a = if data.length < sectSize then mem a else 0xff
  outside (a : Nat)
    (h : a < offset ∨ offset + divRoundUp data.length sectSize * sectSize ≤ a) :
    mem' a = mem a

theorem writeOut_ok (hpos : 0 < sectSize) (hdata : data.length = size) (hsize : 0 < size)
    (h : writeOut faults sectSize size offset data mem = .ok mem') :
    Written mem sectSize offset data mem' := by
  subst hdata
  have hsteps := writeOut_steps hpos h
  by_cases hembedded : sectSize > data.length
  · have hone : divRoundUp data.length sectSize * sectSize = sectSize := by
      rw [sectors_one hembedded hsize, Nat.one_mul]
    rw [if_pos hembedded, Flash.program_erased (by
      intro a ha hlt
      rw [window_length] at hlt
      exact stored_rest ha (by lia))] at hsteps
    rw [hsteps]
    refine ⟨?_, fun a ha hlt => ?_, fun a ha => ?_⟩
    · refine Eq.trans (window_congr fun a ha hlt => overwrite_of_lt hlt) ?_
      exact window_overwrite_self _ offset data
    · rw [if_pos hembedded]
      exact overwrite_window _ ha (by lia)
    · have hout : Sf.stored sectSize offset data mem a = mem a := stored_outside hpos ha
      rw [<- hout]
      rcases ha with ha | ha
      · exact overwrite_of_lt (by lia)
      · refine overwrite_of_ge ?_
        rw [window_length]
        lia
  · rw [if_neg hembedded] at hsteps
    rw [hsteps]
    refine ⟨window_overwrite_self _ offset data, fun a ha hlt => ?_,
      fun a ha => stored_outside hpos ha⟩
    rw [if_neg hembedded]
    exact stored_rest ha hlt

end

/-!
## What a save touches
-/

/-- The image is at `offset`, and every other byte is as it was, apart from the flag of
the other copy. -/
structure SavesOnly (offset : Nat) (data : Bytes) (flag : Option Nat) (mem mem' : Mem) :
    Prop where
  stored : window mem' offset data.length = data
  others (a : Nat) (h : a < offset ∨ offset + data.length ≤ a) (hflag : flag ≠ some a) :
    mem' a = mem a

/-- Nothing is lost behind an environment of `size` bytes: its sectors hold nothing else,
one sector is larger, or what they hold is blank. -/
def NothingLost (sectSize offset size : Nat) (flag : Option Nat) (mem : Mem) : Prop :=
  size < sectSize ∨ sectSize ∣ size ∨
    forall a, offset + size ≤ a -> a < offset + divRoundUp size sectSize * sectSize ->
      flag ≠ some a -> mem a = 0xff

section

variable {faults : Faults} {sectSize size offset : Nat} {data : Bytes} {mem mem' : Mem}

theorem Written.savesOnly_iff (hpos : 0 < sectSize)
    (h : Written mem sectSize offset data mem') (flag : Option Nat) :
    SavesOnly offset data flag mem mem' <->
      NothingLost sectSize offset data.length flag mem := by
  refine ⟨fun hsaves => ?_, fun hlost => ⟨h.stored, fun a ha hflag => ?_⟩⟩
  · by_cases hlt : data.length < sectSize
    · exact Or.inl hlt
    · refine Or.inr (Or.inr fun a ha hend hflag => ?_)
      rw [<- hsaves.others a (Or.inr ha) hflag, h.rest a ha hend, if_neg hlt]
  · by_cases hout : a < offset ∨
        offset + divRoundUp data.length sectSize * sectSize ≤ a
    · exact h.outside a hout
    · have hrest := h.rest a (by lia) (by lia)
      rcases hlost with hlt | hdvd | hblank
      · rw [hrest, if_pos hlt]
      · rw [sectors_dvd hpos hdvd] at hout
        lia
      · rw [hrest, hblank a (by lia) (by lia) hflag, ite_self]

theorem SavesOnly.flag {flagAt : Nat} {value : Bytes} (hvalue : value.length = 1)
    (hapart : flagAt < offset ∨ offset + data.length ≤ flagAt) :
    SavesOnly offset data (some flagAt) mem (Flash.program mem' flagAt value) <->
      SavesOnly offset data (some flagAt) mem mem' := by
  have hsame : forall a, a ≠ flagAt -> Flash.program mem' flagAt value a = mem' a :=
    fun a ha => Flash.program_outside (by lia)
  have hwindow : window (Flash.program mem' flagAt value) offset data.length =
      window mem' offset data.length :=
    window_congr fun a ha hlt => hsame a (by lia)
  refine ⟨fun h => ⟨?_, fun a ha hflag => ?_⟩, fun h => ⟨?_, fun a ha hflag => ?_⟩⟩
  · rw [<- hwindow, h.stored]
  · rw [<- h.others a ha hflag, hsame a fun heq => hflag (congrArg some heq.symm)]
  · rw [hwindow, h.stored]
  · rw [<- h.others a ha hflag, hsame a fun heq => hflag (congrArg some heq.symm)]

end

section

variable {cfg : SfConfig} {faults : Faults} {htab : Htab} {mem : Mem} {block : Block}

theorem block_length (hexport : envExport cfg.toConfig 0 htab = some block) :
    block.data.length = cfg.envSize := by
  rcases Option.map_eq_some_iff.mp hexport with ⟨data, hdata, rfl⟩
  exact hexportR_length cfg.size_pos hdata

theorem image_length (hexport : envExport cfg.toConfig 0 htab = some block) :
    (image block).length = cfg.envSize + 4 := by
  unfold image leBytes32
  rw [List.length_append, block_length hexport, List.length_map, List.length_range]
  lia

theorem imageRedund_length (hexport : envExport cfg.toConfig 0 htab = some block) :
    (imageRedund block).length = cfg.envSize + 5 := by
  unfold imageRedund leBytes32
  rw [List.length_append, List.length_cons, block_length hexport, List.length_map,
    List.length_range]
  lia

theorem finish_ok {written : Except (Err × Mem) Mem} (h : (finish written).ret = 0) :
    written = .ok (finish written).flash := by
  cases written with
  | error e => exact absurd h e.1.2
  | ok mem => rfl

theorem finish_erasing (written : Except (Err × Mem) Mem) : (finish written).erasing = true := by
  cases written with
  | error e => rfl
  | ok mem => rfl

theorem envSfSave_ok {L : Layout} (h : (envSfSave cfg L faults htab mem).ret = 0)
    (hexport : envExport cfg.toConfig 0 htab = some block) :
    writeOut faults L.sectSize (cfg.envSize + 4) L.offset (image block) mem =
      .ok (envSfSave cfg L faults htab mem).flash := by
  unfold envSfSave at h ⊢
  cases hprobe : faults.probe with
  | some err =>
      rw [hprobe] at h
      exact absurd h err.2
  | none =>
      rw [hprobe] at h
      dsimp only at h ⊢
      split at h
      · exact absurd h (show (-12 : Int) ≠ 0 by decide)
      · rename_i hmalloc
        rw [if_neg hmalloc]
        generalize (if L.sectSize > cfg.envSize + 4 then faults.read else none) = read at h ⊢
        cases read with
        | some err => exact absurd h err.2
        | none =>
            dsimp only at h ⊢
            rw [hexport] at h ⊢
            exact finish_ok h

theorem envSfSaveRedund_ok {R : Redund (cfg.envSize + 5)} {valid : Bool}
    (h : (envSfSaveRedund cfg R faults htab valid mem).ret = 0)
    (hexport : envExport cfg.toConfig 0 htab = some block) :
    exists mem', writeOut faults R.sectSize (cfg.envSize + 5) (R.newOffset valid)
        (imageRedund block) mem = .ok mem' ∧
      (envSfSaveRedund cfg R faults htab valid mem).flash =
        Flash.program mem' (R.oldOffset valid + 4) [0] := by
  unfold envSfSaveRedund at h ⊢
  cases hprobe : faults.probe with
  | some err =>
      rw [hprobe] at h
      exact absurd h err.2
  | none =>
      rw [hprobe] at h
      dsimp only at h ⊢
      rw [hexport] at h ⊢
      dsimp only at h ⊢
      split at h
      · exact absurd h (show (-12 : Int) ≠ 0 by decide)
      · rename_i hmalloc
        rw [if_neg hmalloc]
        generalize (if R.sectSize > cfg.envSize + 5 then faults.read else none) = read at h ⊢
        cases read with
        | some err => exact absurd h err.2
        | none =>
            dsimp only at h ⊢
            rcases bind_ok (finish_ok h) with ⟨mem', hwrite, hflag⟩
            exact ⟨mem', hwrite, attempt_ok hflag⟩

theorem envSfSave_unchanged {L : Layout}
    (h : (envSfSave cfg L faults htab mem).erasing = false) :
    (envSfSave cfg L faults htab mem).flash = mem := by
  unfold envSfSave at h ⊢
  dsimp only at h ⊢
  generalize (if L.sectSize > cfg.envSize + 4 then faults.read else none) = read at h ⊢
  cases hprobe : faults.probe with
  | some err => rfl
  | none =>
      rw [hprobe] at h
      dsimp only at h ⊢
      split
      · rfl
      · rename_i hmalloc
        rw [if_neg hmalloc] at h
        cases read with
        | some err => rfl
        | none =>
            dsimp only at h ⊢
            cases hexport : envExport cfg.toConfig 0 htab with
            | none => rfl
            | some block =>
                rw [hexport] at h
                dsimp only at h
                rw [finish_erasing] at h
                cases h

theorem envSfSaveRedund_unchanged {R : Redund (cfg.envSize + 5)} {valid : Bool}
    (h : (envSfSaveRedund cfg R faults htab valid mem).erasing = false) :
    (envSfSaveRedund cfg R faults htab valid mem).flash = mem := by
  unfold envSfSaveRedund at h ⊢
  dsimp only at h ⊢
  generalize (if R.sectSize > cfg.envSize + 5 then faults.read else none) = read at h ⊢
  cases hprobe : faults.probe with
  | some err => rfl
  | none =>
      rw [hprobe] at h
      dsimp only at h ⊢
      cases hexport : envExport cfg.toConfig 0 htab with
      | none => rfl
      | some block =>
          rw [hexport] at h
          dsimp only at h ⊢
          split
          · rfl
          · rename_i hmalloc
            rw [if_neg hmalloc] at h
            cases read with
            | some err => rfl
            | none =>
                dsimp only at h
                rw [finish_erasing] at h
                cases h

theorem Redund.apart_flag {size : Nat} (R : Redund size) (hsize : 4 < size) (valid : Bool) :
    R.oldOffset valid + 4 < R.newOffset valid ∨
      R.newOffset valid + size ≤ R.oldOffset valid + 4 := by
  have hapart := R.apart
  unfold Redund.oldOffset Redund.newOffset
  cases valid with
  | true =>
      rw [if_pos rfl, if_pos rfl]
      lia
  | false =>
      rw [if_neg (by simp), if_neg (by simp)]
      lia

end

/-- A successful save touches only the environment, and with two copies the flag of the
other one, exactly if nothing is lost behind it; a save that has not reached the erase
touches nothing. -/
theorem env_sf_save_touches_iff (cfg : SfConfig) (L : Layout) (R : Redund (cfg.envSize + 5))
    (faults : Faults) (htab : Htab) (valid : Bool) (mem : Mem) :
    ((envSfSave cfg L faults htab mem).ret = 0 ->
      forall block, envExport cfg.toConfig 0 htab = some block ->
        (SavesOnly L.offset (image block) none mem (envSfSave cfg L faults htab mem).flash <->
          NothingLost L.sectSize L.offset (cfg.envSize + 4) none mem)) ∧
      ((envSfSaveRedund cfg R faults htab valid mem).ret = 0 ->
        forall block, envExport cfg.toConfig 0 htab = some block ->
          (SavesOnly (R.newOffset valid) (imageRedund block) (some (R.oldOffset valid + 4)) mem
              (envSfSaveRedund cfg R faults htab valid mem).flash <->
            NothingLost R.sectSize (R.newOffset valid) (cfg.envSize + 5)
              (some (R.oldOffset valid + 4)) mem)) ∧
      ((envSfSave cfg L faults htab mem).erasing = false ->
        (envSfSave cfg L faults htab mem).flash = mem) ∧
      ((envSfSaveRedund cfg R faults htab valid mem).erasing = false ->
        (envSfSaveRedund cfg R faults htab valid mem).flash = mem) := by
  refine ⟨fun hret block hexport => ?_, fun hret block hexport => ?_, envSfSave_unchanged,
    envSfSaveRedund_unchanged⟩
  · have hwrite := envSfSave_ok hret hexport
    have hwritten := writeOut_ok L.sectSize_pos (image_length hexport) (by lia) hwrite
    rw [hwritten.savesOnly_iff L.sectSize_pos, image_length hexport]
  · rcases envSfSaveRedund_ok hret hexport with ⟨mem', hwrite, hflash⟩
    have hapart := R.apart_flag (show 4 < cfg.envSize + 5 by lia) valid
    have hwritten := writeOut_ok R.sectSize_pos (imageRedund_length hexport) (by lia) hwrite
    rw [hflash, SavesOnly.flag rfl (by rwa [imageRedund_length hexport]),
      hwritten.savesOnly_iff R.sectSize_pos, imageRedund_length hexport]

/-!
## Sectors of four and of sixteen bytes
-/

def tinyConfig : SfConfig := ⟨⟨2, 2, 512⟩, by decide⟩

def noFaults : Faults := ⟨none, false, none, none, none, none, none⟩

def smallSectors : Layout := ⟨4, 0, by decide, by decide⟩

def largeSectors : Layout := ⟨16, 0, by decide, by decide⟩

def twoCopies : Redund (tinyConfig.envSize + 5) := ⟨largeSectors, 16, by decide, by decide⟩

def sevens (_ : Nat) : UInt8 := 7

theorem export_empty : (envExport tinyConfig.toConfig 0 (hcreateR 2)).isSome = true := by
  decide +kernel

theorem save_large_sectors :
    exists block, envExport tinyConfig.toConfig 0 (hcreateR 2) = some block ∧
      SavesOnly 0 (image block) none sevens
        (envSfSave tinyConfig largeSectors noFaults (hcreateR 2) sevens).flash ∧
      SavesOnly 16 (imageRedund block) (some 4) sevens
        (envSfSaveRedund tinyConfig twoCopies noFaults (hcreateR 2) true sevens).flash := by
  rcases Option.isSome_iff_exists.mp export_empty with ⟨block, hexport⟩
  have h := env_sf_save_touches_iff tinyConfig largeSectors twoCopies noFaults (hcreateR 2) true
    sevens
  exact ⟨block, hexport,
    (h.left (by decide +kernel) block hexport).mpr (Or.inl (by decide)),
    (h.right.left (by decide +kernel) block hexport).mpr (Or.inl (by decide))⟩

/-- The bytes behind the environment in its second sector are erased. -/
theorem save_small_sectors :
    (envSfSave tinyConfig smallSectors noFaults (hcreateR 2) sevens).ret = 0 ∧
      sevens 6 = 7 ∧
      (envSfSave tinyConfig smallSectors noFaults (hcreateR 2) sevens).flash 6 = 0xff := by
  decide +kernel

end Sf
end Env
end Hlk7621
