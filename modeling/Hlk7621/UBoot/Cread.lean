import Hlk7621.Lib.Buffer

/-!
# Editing the command line

Model of the line editor of `common/cli_readline.c`.  An access outside the buffer, or
outside a slot of the history, stops the model.  What is printed is left out, but the bytes
that are read for it are not.
-/

namespace Hlk7621
namespace UBoot
namespace Cread

open Buffer

/-- `CONFIG_XPL_BUILD`, `CONFIG_SYS_CBSIZE` and `CONFIG_AUTO_COMPLETE`. -/
structure Config where
  xpl : Bool
  cbsize : Nat
  autoComplete : Bool

variable (config : Config)

def HIST_MAX : Nat := if config.xpl then 3 else 20

def HIST_SIZE : Nat := if config.xpl then 32 else config.cbsize

def CREAD_HIST_CHAR : UInt8 := 33

/-!
## The history
-/

/-- The variables of the history, with the string in each slot of `hist_list`.  `hist_cur`
is -1 before the first line. -/
structure Hist where
  list : List Bytes
  max : Nat
  addIdx : Nat
  cur : Option Nat
  deriving DecidableEq

def histInit : Hist where
  list := List.replicate (HIST_MAX config) []
  max := 0
  addIdx := 0
  cur := none

/-- A slot has `HIST_SIZE + 1` bytes. -/
def creadAddToHist (line : Bytes) (hist : Hist) : Option Hist :=
  if line.length ≤ HIST_SIZE config ∧ hist.addIdx < hist.list.length then
    let addIdx := if hist.addIdx + 1 ≥ HIST_MAX config then 0 else hist.addIdx + 1
    some
      { hist with
        list := hist.list.set hist.addIdx line
        addIdx := addIdx
        max := if addIdx > hist.max then addIdx else hist.max }
  else none

/-- A line, or none for the null pointer; a slot that does not exist stops the model. -/
def histPrev (hist : Hist) : Option (Option Bytes × Hist) :=
  match hist.cur with
  | none => some (none, hist)
  | some oldCur =>
      let cur := if oldCur = 0 then hist.max else oldCur - 1
      if cur = hist.addIdx then some (none, hist)
      else
        match hist.list[cur]? with
        | none => none
        | some line => some (some line, { hist with cur := some cur })

def histNext (hist : Hist) : Option (Option Bytes × Hist) :=
  match hist.cur with
  | none => some (none, hist)
  | some oldCur =>
      if oldCur = hist.addIdx then some (none, hist)
      else
        let cur := if oldCur + 1 > hist.max then 0 else oldCur + 1
        if cur = hist.addIdx then some (some [], { hist with cur := some cur })
        else
          match hist.list[cur]? with
          | none => none
          | some line => some (some line, { hist with cur := some cur })

/-!
## The line
-/

/-- `struct cli_line_state` with its buffer. -/
structure Cls where
  num : Nat
  eolNum : Nat
  len : Nat
  insert : Bool
  history : Bool
  cmdComplete : Bool
  buf : Bytes
  deriving DecidableEq

def beginningOfLine : Nat -> Nat
  | 0 => 0
  | num + 1 => beginningOfLine num

/-- The loop of `ERASE_TO_EOL`. -/
def eraseLoop (num : Nat) : Nat -> Nat
  | 0 => 0
  | eolNum + 1 => if eolNum > num then eraseLoop num eolNum else eolNum

def eraseToEol (num eolNum : Nat) : Nat := if num < eolNum then eraseLoop num eolNum else eolNum

def refreshToEol (cls : Cls) : Option Cls :=
  if cls.num < cls.eolNum then do
    putnstr cls.buf cls.num (cls.eolNum - cls.num)
    some { cls with num := cls.eolNum }
  else some cls

def creadAddChar (ichar : UInt8) (insert : Bool) (cls : Cls) : Option Cls :=
  let grows := insert || cls.num == cls.eolNum
  if grows ∧ cls.eolNum > sub32 cls.len 1 then some cls
  else
    let eolNum := if grows then cls.eolNum + 1 else cls.eolNum
    if insert then do
      let wlen := eolNum - cls.num
      let buf <-
        (if wlen > 1 then memmove cls.buf (cls.num + 1) cls.num (wlen - 1) else some cls.buf)
      let buf <- store buf cls.num ichar
      putnstr buf cls.num wlen
      some { cls with num := cls.num + 1, eolNum := eolNum, buf := buf }
    else do
      let buf <- store cls.buf cls.num ichar
      putnstr buf cls.num 1
      some { cls with num := cls.num + 1, eolNum := eolNum, buf := buf }

def creadAddStr : Nat -> Nat -> Cls -> Option Cls
  | 0, _, cls => some cls
  | strsize + 1, str, cls => do
      let c <- load cls.buf str
      let cls <- creadAddChar c false cls
      creadAddStr strsize (str + 1) cls

def cliCreadInit (buf : Bytes) (bufSize : Nat) : Option Cls := do
  let initLen <- strlen buf 0
  let cls :=
    { num := 0
      eolNum := 0
      len := bufSize
      insert := true
      history := false
      cmdComplete := false
      buf := buf }
  creadAddStr initLen 0 cls

/-!
## One character
-/

/-- The labels of the `switch`. -/
inductive Key where
  | ctlA | ctlB | ctlC | ctlD | ctlE | ctlF | ctlK | ctlO | ctlW | ctlU | del | ctlP | ctlN | tab
  | other
  deriving DecidableEq

def key (ichar : UInt8) : Key :=
  if ichar = 1 then .ctlA
  else if ichar = 3 then .ctlC
  else if ichar = 6 then .ctlF
  else if ichar = 2 then .ctlB
  else if ichar = 4 then .ctlD
  else if ichar = 11 then .ctlK
  else if ichar = 5 then .ctlE
  else if ichar = 15 then .ctlO
  else if ichar = 23 then .ctlW
  else if ichar = 24 ∨ ichar = 21 then .ctlU
  else if ichar = 255 ∨ ichar = 127 ∨ ichar = 8 then .del
  else if ichar = 16 then .ctlP
  else if ichar = 14 then .ctlN
  else if ichar = 9 then .tab
  else .other

def forwardChar (cls : Cls) : Option Cls :=
  if cls.num < cls.eolNum then do
    let _ <- load cls.buf cls.num
    some { cls with num := cls.num + 1 }
  else some cls

def backwardChar (cls : Cls) : Cls :=
  if cls.num ≠ 0 then { cls with num := cls.num - 1 } else cls

def deleteChar (cls : Cls) : Option Cls :=
  if cls.num < cls.eolNum then do
    let wlen := cls.eolNum - cls.num - 1
    let buf <-
      (if wlen ≠ 0 then do
        let buf <- memmove cls.buf cls.num (cls.num + 1) wlen
        putnstr buf cls.num wlen
        some buf
      else some cls.buf)
    some { cls with eolNum := cls.eolNum - 1, buf := buf }
  else some cls

/-- The loops that go back from `base` as long as the characters are of one kind. -/
def goBack (kind : UInt8 -> Bool) (buf : Bytes) : Nat -> Option Nat
  | 0 => some 0
  | base + 1 => do
      let c <- load buf base
      if kind c then goBack kind buf base else some (base + 1)

def deleteWord (cls : Cls) : Option Cls :=
  if cls.num ≠ 0 then do
    let base <- goBack (fun c => c == 32) cls.buf cls.num
    let base <- goBack (fun c => !(c == 32)) cls.buf base
    let wlen := cls.num - base
    let eolNum := cls.eolNum - wlen
    let buf <- memmove cls.buf base cls.num (eolNum - base + 1)
    let _ <- string buf base
    some { cls with num := base, eolNum := eolNum, buf := buf }
  else some cls

def deleteBackward (cls : Cls) : Option Cls :=
  if cls.num ≠ 0 then do
    let wlen := cls.eolNum - cls.num
    let num := cls.num - 1
    let buf <- memmove cls.buf num (num + 1) wlen
    putnstr buf num wlen
    some { cls with num := num, eolNum := cls.eolNum - 1, buf := buf }
  else some cls

def showLine (hline : Bytes) (cls : Cls) : Option Cls := do
  let num := beginningOfLine cls.num
  let cls := { cls with num := num, eolNum := eraseToEol num cls.eolNum }
  let buf <- strcpy cls.buf 0 hline
  let eolNum <- strlen buf 0
  refreshToEol { cls with eolNum := eolNum, buf := buf }

def historyLine (step : Hist -> Option (Option Bytes × Hist)) (cls : Cls) (hist : Hist) :
    Option (Cls × Hist) :=
  if cls.history then do
    let (hline, hist) <- step hist
    match hline with
    | none => some (cls, hist)
    | some hline => do
        let cls <- showLine hline cls
        some (cls, hist)
  else some (cls, hist)

inductive Ret where
  | again
  | intr
  | done
  deriving DecidableEq

/-- The line and the history behind the `switch`, for the labels that come to its end.  What
the completion makes of a line is `completed`. -/
def switch (completed : Cls -> Option Cls) (ichar : UInt8) (cls : Cls) (hist : Hist) :
    Option (Cls × Hist) :=
  match key ichar with
  | .ctlA => some ({ cls with num := beginningOfLine cls.num }, hist)
  | .ctlC => some (cls, hist)
  | .ctlF => (forwardChar cls).map (·, hist)
  | .ctlB => some (backwardChar cls, hist)
  | .ctlD => (deleteChar cls).map (·, hist)
  | .ctlK => some ({ cls with eolNum := eraseToEol cls.num cls.eolNum }, hist)
  | .ctlE => (refreshToEol cls).map (·, hist)
  | .ctlO => some ({ cls with insert := !cls.insert }, hist)
  | .ctlW => (deleteWord cls).map (·, hist)
  | .ctlU =>
      let num := beginningOfLine cls.num
      some ({ cls with num := num, eolNum := eraseToEol num cls.eolNum }, hist)
  | .del => (deleteBackward cls).map (·, hist)
  | .ctlP => historyLine histPrev cls hist
  | .ctlN => historyLine histNext cls hist
  | .tab =>
      if config.autoComplete ∧ cls.cmdComplete then
        if cls.num < cls.eolNum then some (cls, hist) else (completed cls).map (·, hist)
      else (creadAddChar ichar cls.insert cls).map (·, hist)
  | .other => (creadAddChar ichar cls.insert cls).map (·, hist)

/-- `buf[cls->eol_num] = '\0'`. -/
def terminate (cls : Cls) : Option Cls :=
  (store cls.buf cls.eolNum 0).map fun buf => { cls with buf := buf }

def creadLineProcessCh (completed : Cls -> Option Cls) (ichar : UInt8) (cls : Cls) (hist : Hist) :
    Option (Ret × Cls × Hist) :=
  if ichar = 0 then some (.again, cls, hist)
  else if ichar = 10 then do
    let cls <- terminate cls
    some (.done, cls, hist)
  else if key ichar = .ctlC then do
    let buf <- store cls.buf 0 0
    some (.intr, { cls with buf := buf }, hist)
  else do
    let (cls, hist) <- switch config completed ichar cls hist
    let cls <- terminate cls
    some (.again, cls, hist)

/-!
## Lines
-/

/-- A call of `cread_line`: before the first one, while it reads, and its result in the
buffer and `*len`. -/
inductive Line where
  | idle
  | reading (cls : Cls)
  | entered (buf : Bytes) (len : Nat)
  | broken (buf : Bytes)
  deriving DecidableEq

structure Console where
  hist : Hist
  line : Line
  deriving DecidableEq

/-- A call of `cread_line`, or a character for it.  A call leaves the one before it, which
has timed out if it was still reading. -/
inductive Event where
  | start (buf : Bytes)
  | ch (ichar : UInt8)
  deriving DecidableEq

def Console.start (buf : Bytes) (len : Nat) (console : Console) : Option Console := do
  let cls <- cliCreadInit buf len
  some { console with line := .reading { cls with history := true, cmdComplete := true } }

/-- The end of `cread_line`. -/
def enter (cls : Cls) (hist : Hist) : Option Console := do
  let c <- load cls.buf 0
  let hist <-
    (if c ≠ 0 ∧ c ≠ CREAD_HIST_CHAR then do
      let line <- string cls.buf 0
      creadAddToHist config line hist
    else some hist)
  some
    { hist := { hist with cur := some hist.addIdx }
      line := .entered cls.buf cls.eolNum }

def Console.ch (completed : Cls -> Option Cls) (ichar : UInt8) (console : Console) :
    Option Console :=
  match console.line with
  | .reading cls => do
      let (ret, cls, hist) <- creadLineProcessCh config completed ichar cls console.hist
      match ret with
      | .again => some { hist := hist, line := .reading cls }
      | .intr => some { hist := hist, line := .broken cls.buf }
      | .done => enter config cls hist
  | _ => some console

def Console.step (completed : Cls -> Option Cls) (len : Nat) (console : Console) :
    Event -> Option Console
  | .start buf => console.start buf len
  | .ch ichar => console.ch config completed ichar

def Console.init : Console where
  hist := histInit config
  line := .idle

def Console.run (completed : Cls -> Option Cls) (len : Nat) (events : List Event) :
    Option Console :=
  events.foldlM (Console.step config completed len) (Console.init config)

end Cread
end UBoot
end Hlk7621
