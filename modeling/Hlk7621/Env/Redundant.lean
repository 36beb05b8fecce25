import Hlk7621.Env.Linear

/-!
# The redundant environment in SPI flash

Model of `env_sf_save` and `env_sf_load` of `env/sf.c` with
`CONFIG_ENV_OFFSET_REDUND`, of `env_check_redund` and `env_import_redund` of
`env/common.c`, and of the choice of a copy in `fw_env_open` of
`tools/env/fw_env.c`.

The flash is seen as the two regions of whole sectors that hold the copies.  Every
operation on it may fail, or the power may be cut while it runs; what it leaves
behind then is chosen by the caller of the model.
-/

namespace Hlk7621
namespace Env

/-!
## Copies
-/

/-- `env_t` of a redundant environment. -/
structure EnvT where
  crc : BitVec 32
  flags : UInt8
  data : Bytes
  deriving DecidableEq

def ENV_REDUND_OBSOLETE : UInt8 := 0
def ENV_REDUND_ACTIVE : UInt8 := 1

def EnvT.crcOk (e : EnvT) : Bool := UBoot.crc32 0#32 0 e.data == e.crc

/-- The same bytes as `env_single_t`, which has no flags. -/
def EnvT.singleData (e : EnvT) : Bytes := e.flags :: e.data

def EnvT.singleOk (e : EnvT) : Bool := UBoot.crc32 0#32 0 e.singleData == e.crc

def EnvT.erased (envSize : Nat) : EnvT := ⟨0xffffffff#32, 0xff, List.replicate envSize 0xff⟩

/-- A write to NOR flash can only clear bits. -/
def EnvT.program (old new : EnvT) : EnvT :=
  ⟨old.crc &&& new.crc, old.flags &&& new.flags, List.zipWith (· &&& ·) old.data new.data⟩

/-- `CONFIG_ENV_SIZE` is `envSize` and the header of 5 bytes. -/
structure RedundConfig extends Config where
  sectSize : Nat
  /-- `CONFIG_ENV_REDUNDANT_UPGRADE`. -/
  upgrade : Bool
  nent : 2 ≤ min (minEntries + envSize / 8) maxEntries
  nent_lt : min (minEntries + envSize / 8) maxEntries < 2 ^ 32
  size_pos : 0 < envSize
  /-- Erased sectors do not pass the check of the CRC. -/
  erased_bad : (EnvT.erased envSize).crcOk = false

/-- Is the sector larger than the environment? -/
def RedundConfig.embedded (cfg : RedundConfig) : Bool := cfg.sectSize > cfg.envSize + 5

/-!
## Loading
-/

inductive EnvValid where
  | invalid
  | valid
  | redund
  deriving DecidableEq, Repr

/-- `gd->env_valid` and the serial `env_flags`. -/
structure Ram where
  envValid : EnvValid
  envFlags : UInt8
  deriving DecidableEq

def EIO : Int := 5
def ENOMSG : Int := 42
def ENOMEM : Int := 12

/-- `env_check_redund`: the return value, `gd->env_valid` and the first buffer. -/
def envCheckRedund (cfg : RedundConfig) (buf1 : EnvT) (buf1ReadFail : Bool) (buf2 : EnvT)
    (buf2ReadFail : Bool) (envValid : EnvValid) : Int × EnvValid × EnvT :=
  if buf1ReadFail ∧ buf2ReadFail then (- EIO, envValid, buf1)
  else
    let crc1Ok := !buf1ReadFail && buf1.crcOk
    let crc2Ok := !buf2ReadFail && buf2.crcOk
    if !crc1Ok ∧ !crc2Ok then
      if cfg.upgrade ∧ !buf1ReadFail ∧ buf1.singleOk then
        (0, .valid, { buf1 with flags := 0, data := buf1.singleData.take cfg.envSize })
      else (-ENOMSG, .invalid, buf1)
    else if crc1Ok ∧ !crc2Ok then (0, .valid, buf1)
    else if !crc1Ok ∧ crc2Ok then (0, .redund, buf1)
    else if buf1.flags = 255 ∧ buf2.flags = 0 then (0, .redund, buf1)
    else if buf2.flags = 255 ∧ buf1.flags = 0 then (0, .valid, buf1)
    else if buf1.flags.toNat > buf2.flags.toNat then (0, .valid, buf1)
    else if buf2.flags.toNat > buf1.flags.toNat then (0, .redund, buf1)
    else (0, .valid, buf1)

/-- The end of a load: `data` is what was given to `env_import`, and `table` the
environment, `none` if it is the default one. -/
structure Loaded where
  ret : Int
  ram : Ram
  data : Option Bytes
  table : Option Htab

def envImportRedund (cfg : RedundConfig) (buf1 : EnvT) (buf1ReadFail : Bool) (buf2 : EnvT)
    (buf2ReadFail : Bool) (ram : Ram) : Loaded :=
  let r := envCheckRedund cfg buf1 buf1ReadFail buf2 buf2ReadFail ram.envValid
  let ram := { ram with envValid := r.2.1 }
  if r.1 ≠ 0 then ⟨r.1, ram, none, none⟩
  else
    let ep := if ram.envValid = .valid then r.2.2 else buf2
    let table := envImport cfg.toConfig 0 false false none ⟨ep.crc, ep.data⟩
    ⟨if table.isSome then 0 else - EIO, { ram with envFlags := ep.flags }, some ep.data, table⟩

/-- The sectors of a copy: the environment and what is behind it. -/
structure Region where
  env : EnvT
  rest : Bytes
  deriving DecidableEq

/-- The regions at `CONFIG_ENV_OFFSET` and `CONFIG_ENV_OFFSET_REDUND`. -/
structure Flash where
  first : Region
  second : Region
  deriving DecidableEq

/-- `env_sf_load` of a device that can be read, at the start of the program. -/
def envSfLoad (cfg : RedundConfig) (flash : Flash) : Loaded :=
  envImportRedund cfg flash.first.env false flash.second.env false ⟨.invalid, 0⟩

/-!
## Flash operations
-/

inductive Slot where
  | first
  | second
  deriving DecidableEq, Repr

def Slot.other : Slot -> Slot
  | .first => .second
  | .second => .first

def Flash.region (flash : Flash) : Slot -> Region
  | .first => flash.first
  | .second => flash.second

def Flash.set (flash : Flash) (slot : Slot) (region : Region) : Flash :=
  match slot with
  | .first => { flash with first := region }
  | .second => { flash with second := region }

/-- How an operation ends: it is done, it fails with an error, or the power is cut.
In the last two cases something is left behind. -/
inductive Fate (α : Type) where
  | done
  | error (left : α)
  | cut (left : α)

/-- What an erase or a write of a copy that does not end well leaves: nothing has
happened, a copy that does not pass the check of the CRC, or everything has
happened. -/
inductive Left where
  | untouched
  | damaged (env : EnvT) (rest : Bytes) (bad : env.crcOk = false)
  | finished

def Left.region (old new : Region) : Left -> Region
  | .untouched => old
  | .damaged env rest _ => ⟨env, rest⟩
  | .finished => new

inductive Outcome where
  | next (flash : Flash)
  | error (flash : Flash)
  | cut (flash : Flash)

def Outcome.bind (o : Outcome) (k : Flash -> Outcome) : Outcome :=
  match o with
  | .next flash => k flash
  | .error flash => .error flash
  | .cut flash => .cut flash

def Fate.act {α : Type} (fate : Fate α) (finish : Flash) (leave : α -> Flash) : Outcome :=
  match fate with
  | .done => .next finish
  | .error left => .error (leave left)
  | .cut left => .cut (leave left)

/-- The fates of the operations of one save.  The write of the flag is atomic: it is
left done or not done. -/
structure Faults where
  probe : Fate Unit
  memalignFails : Bool
  readRest : Fate Unit
  erase : Fate Left
  writeEnv : Fate Left
  writeRest : Fate Bytes
  writeFlag : Fate Bool

/-!
## Saving
-/

def eraseRegion (cfg : RedundConfig) (fate : Fate Left) (slot : Slot) (flash : Flash) : Outcome :=
  let old := flash.region slot
  let new := ⟨.erased cfg.envSize, List.replicate old.rest.length 0xff⟩
  fate.act (flash.set slot new) fun left => flash.set slot (left.region old new)

/-- `spi_flash_write` of `env_new`. -/
def writeEnv (fate : Fate Left) (slot : Slot) (new : EnvT) (flash : Flash) : Outcome :=
  let old := flash.region slot
  let new := { old with env := old.env.program new }
  fate.act (flash.set slot new) fun left => flash.set slot (left.region old new)

/-- `spi_flash_write` of the saved rest of the sector. -/
def writeRest (fate : Fate Bytes) (slot : Slot) (saved : Bytes) (flash : Flash) : Outcome :=
  let put := fun rest => flash.set slot { flash.region slot with rest := rest }
  fate.act (put (List.zipWith (· &&& ·) (flash.region slot).rest saved)) put

def writeFlag (fate : Fate Bool) (slot : Slot) (flag : UInt8) (flash : Flash) : Outcome :=
  let old := flash.region slot
  let new := flash.set slot
    { old with env := { old.env with flags := old.env.flags &&& flag } }
  fate.act new fun done => if done then new else flash

/-- The flash operations of `env_sf_save`; `slot` is at `env_new_offset`. -/
def saveOperations (cfg : RedundConfig) (faults : Faults) (slot : Slot) (envNew : EnvT)
    (flash : Flash) : Outcome :=
  let saved := (flash.region slot).rest
  let read :=
    if cfg.embedded then
      if faults.memalignFails then .error flash
      else faults.readRest.act flash fun _ => flash
    else .next flash
  read.bind fun flash =>
  (eraseRegion cfg faults.erase slot flash).bind fun flash =>
  (writeEnv faults.writeEnv slot envNew flash).bind fun flash =>
  (if cfg.embedded then writeRest faults.writeRest slot saved flash else .next flash).bind
    fun flash =>
  writeFlag faults.writeFlag slot.other ENV_REDUND_OBSOLETE flash

/-- `env_new_offset`. -/
def EnvValid.newSlot (envValid : EnvValid) : Slot :=
  if envValid = .valid then .second else .first

/-- What a save leaves: `ram` is `none` if the power has been cut, and else `ok` says
if the save has been successful. -/
structure Saved where
  flash : Flash
  ram : Option Ram
  ok : Bool

def envSfSave (cfg : RedundConfig) (faults : Faults) (htab : Htab) (flash : Flash) (ram : Ram) :
    Saved :=
  match faults.probe with
  | .cut _ => ⟨flash, none, false⟩
  | .error _ => ⟨flash, some ram, false⟩
  | .done =>
      match envExport cfg.toConfig 0 htab with
      | none => ⟨flash, some ram, false⟩
      | some block =>
          let ram := { ram with envFlags := ram.envFlags + 1 }
          let envNew : EnvT := ⟨block.crc, ENV_REDUND_ACTIVE, block.data⟩
          match saveOperations cfg faults ram.envValid.newSlot envNew flash with
          | .cut flash => ⟨flash, none, false⟩
          | .error flash => ⟨flash, some ram, false⟩
          | .next flash =>
              let envValid := if ram.envValid = .valid then .redund else .valid
              ⟨flash, some { ram with envValid := envValid }, true⟩

/-!
## The tool
-/

inductive FlagScheme where
  | boolean
  | incremental
  deriving DecidableEq, Repr

/-- `dev_current` at the end of `fw_env_open` for two devices with the given flag
scheme; it is `FLAG_BOOLEAN` for NOR flash. -/
def fwEnvOpen (flagScheme : FlagScheme) (redundant0 redundant1 : EnvT) : Slot :=
  let flag0 := redundant0.flags
  let flag1 := redundant1.flags
  if redundant0.crcOk ∧ !redundant1.crcOk then .first
  else if !redundant0.crcOk ∧ redundant1.crcOk then .second
  else if !redundant0.crcOk ∧ !redundant1.crcOk then .first
  else
    match flagScheme with
    | .boolean =>
        if flag0 = ENV_REDUND_ACTIVE ∧ flag1 = ENV_REDUND_OBSOLETE then .first
        else if flag0 = ENV_REDUND_OBSOLETE ∧ flag1 = ENV_REDUND_ACTIVE then .second
        else if flag0 = flag1 then .first
        else if flag0 = 0xff then .first
        else if flag1 = 0xff then .second
        else .first
    | .incremental =>
        if flag0 = 255 ∧ flag1 = 0 then .second
        else if flag1 = 255 ∧ flag0 = 0 ∨ flag0.toNat ≥ flag1.toNat then .first
        else .second

/-!
## Runs
-/

/-- The environments, as exported, of the last save that has been successful and of
the saves since then. -/
structure History where
  completed : Bytes
  interrupted : List Bytes
  deriving DecidableEq

structure Device where
  flash : Flash
  /-- `none` while the power is off. -/
  ram : Option Ram
  history : History
  deriving DecidableEq

inductive Event where
  | load
  | save (htab : Htab) (faults : Faults)

def Device.start (cfg : RedundConfig) (flash : Flash) (data : Bytes) : Device :=
  ⟨flash, some (envSfLoad cfg flash).ram, ⟨data, []⟩⟩

def History.after (history : History) (ok : Bool) (data : Bytes) : History :=
  if ok then ⟨data, []⟩ else { history with interrupted := data :: history.interrupted }

/-- A load is the start of the program; a save needs a program that runs. -/
def Device.step (cfg : RedundConfig) (d : Device) : Event -> Option Device
  | .load => some { d with ram := some (envSfLoad cfg d.flash).ram }
  | .save htab faults =>
      match d.ram with
      | none => none
      | some ram =>
          let saved := envSfSave cfg faults htab d.flash ram
          let history :=
            match envExport cfg.toConfig 0 htab with
            | none => d.history
            | some block => d.history.after saved.ok block.data
          some ⟨saved.flash, saved.ram, history⟩

def Device.run (cfg : RedundConfig) : Device -> List Event -> Option Device
  | d, [] => some d
  | d, event :: events =>
      match d.step cfg event with
      | none => none
      | some d => d.run cfg events

end Env
end Hlk7621
