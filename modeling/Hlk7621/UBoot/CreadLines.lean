import Hlk7621.Lib.CString
import Hlk7621.Lib.Runs
import Hlk7621.UBoot.CreadEditor
import Hlk7621.UBoot.CreadHistory

/-!
# Lines and their history

What `cread_line` is for, line after line: an editor for the line and the lines that were
entered before.  Over any run of calls and characters the code stays inside the buffer and
the slots of the history and shows the same line, cursor and position in the history.

Lines that begin with `!` are not saved.  A line that is broken off leaves the position in
the history as it is.
-/

namespace Hlk7621
namespace UBoot
namespace Cread

open Buffer

inductive DeskLine where
  | idle
  | reading (e : Editor)
  | entered (text : Bytes)
  | broken
  deriving DecidableEq

structure Desk where
  entries : List Bytes
  pos : Nat
  line : DeskLine
  deriving DecidableEq

def Desk.init : Desk where
  entries := []
  pos := 0
  line := .idle

def Desk.browse (e : Editor) (found : Option Bytes × Nat) (d : Desk) : Desk :=
  match found.1 with
  | none => { d with pos := found.2 }
  | some line =>
      { d with pos := found.2, line := .reading { e with cursor := Cursor.behind line } }

def Desk.enter (saved : Bytes -> Bool) (text : Bytes) (d : Desk) : Desk where
  entries := if saved text then text :: d.entries else d.entries
  pos := 0
  line := .entered text

variable (config : Config)

def Desk.press (saved : Bytes -> Bool) (room : Nat) (ichar : UInt8) (e : Editor) (d : Desk) :
    Desk :=
  if ichar = 0 then d
  else if ichar = 10 then d.enter saved e.cursor.text
  else
    match key ichar with
    | .ctlC => { d with line := .broken }
    | .ctlP => d.browse e (older (visible config d.entries) d.pos)
    | .ctlN => d.browse e (newer (visible config d.entries) d.pos)
    | k => { d with line := .reading (e.press room ichar k) }

def Desk.step (saved : Bytes -> Bool) (room : Nat) (d : Desk) : Event -> Desk
  | .start buf =>
      { d with line := .reading ⟨Cursor.behind (buf.takeWhile (· ≠ 0)), true⟩ }
  | .ch ichar =>
      match d.line with
      | .reading e => d.press config saved room ichar e
      | _ => d

def savedLine (text : Bytes) : Bool := text ≠ [] && text.head? ≠ some CREAD_HIST_CHAR

/-- A call has a buffer of `room + 1` bytes with a string in it.  A line that is saved fits
its slot, and there is no tab if tabs complete the line. -/
def Allowed (saved : Bytes -> Bool) (room : Nat) (d : Desk) : Event -> Prop
  | .start buf => buf.length = room + 1 ∧ 0 ∈ buf
  | .ch ichar =>
      match d.line with
      | .reading e =>
          (ichar = 10 -> saved e.cursor.text = true ->
            e.cursor.text.length ≤ HIST_SIZE config) ∧
          (config.autoComplete = true -> key ichar ≠ .tab)
      | _ => True

instance (saved : Bytes -> Bool) (room : Nat) (d : Desk) :
    (event : Event) -> Decidable (Allowed config saved room d event)
  | .start _ => inferInstanceAs (Decidable (_ ∧ _))
  | .ch ichar =>
      match hline : d.line with
      | .reading e =>
          decidable_of_iff
            ((ichar = 10 -> saved e.cursor.text = true ->
              e.cursor.text.length ≤ HIST_SIZE config) ∧
              (config.autoComplete = true -> key ichar ≠ .tab))
            (by rw [Allowed, hline])
      | .idle => isTrue (by rw [Allowed, hline]; trivial)
      | .entered _ => isTrue (by rw [Allowed, hline]; trivial)
      | .broken => isTrue (by rw [Allowed, hline]; trivial)

inductive LineAgrees (room : Nat) : Line -> DeskLine -> Prop where
  | idle : LineAgrees room .idle .idle
  | reading {cls : Cls} {e : Editor} {tail : Bytes} (holds : Holds room cls e (0 :: tail)) :
      LineAgrees room (.reading cls) (.reading e)
  | entered {text tail : Bytes} (noNul : 0 ∉ text) :
      LineAgrees room (.entered (text ++ 0 :: tail) text.length) (.entered text)
  | broken {tail : Bytes} : LineAgrees room (.broken (0 :: tail)) .broken

structure Agrees (room : Nat) (console : Console) (d : Desk) : Prop where
  hist : Ring config console.hist d.entries d.pos
  entries : forall line, line ∈ d.entries -> 0 ∉ line ∧ line.length ≤ room
  line : LineAgrees room console.line d.line

variable {config} {completed : Cls -> Option Cls} {room : Nat} {hist : Hist} {cls : Cls}
  {d : Desk} {e : Editor} {tail : Bytes}

/-!
## One event
-/

theorem start_agrees (hroom : room < 2 ^ 32) {console : Console} (h : Agrees config room console d)
    (saved : Bytes -> Bool) {buf : Bytes} (hbuf : buf.length = room + 1) (hnul : 0 ∈ buf) :
    exists console', console.start buf room = some console' ∧
      Agrees config room console' (d.step config saved room (.start buf)) := by
  rcases first_split hnul with ⟨text, rest, rfl, hfirst⟩
  rcases start_reads console hroom hfirst hbuf with ⟨cls, hstart, hholds⟩
  have htext : (text ++ 0 :: rest).takeWhile (· ≠ 0) = text := by
    have hbefore : forall c, c ∈ text -> decide (c ≠ 0) = true := fun c hc =>
      decide_eq_true fun hzero : c = 0 => hfirst (hzero ▸ hc)
    rw [List.takeWhile_append_of_pos hbefore]
    simp
  refine ⟨_, hstart, h.hist, h.entries, ?_⟩
  show LineAgrees room (.reading cls)
    (.reading ⟨Cursor.behind ((text ++ 0 :: rest).takeWhile (· ≠ 0)), true⟩)
  rw [htext]
  exact LineAgrees.reading hholds

theorem older_mem {entries : List Bytes} {pos : Nat} {line : Bytes}
    (h : (older (visible config entries) pos).1 = some line) : line ∈ entries := by
  unfold older at h
  split at h
  case h_1 => cases h
  case h_2 hget =>
    cases h
    exact List.mem_of_mem_take (List.mem_of_getElem? hget)

theorem newer_mem {entries : List Bytes} {pos : Nat} {line : Bytes}
    (h : (newer (visible config entries) pos).1 = some line) : line ∈ entries ∨ line = [] := by
  rcases pos with _ | _ | pos
  · cases h
  · cases h
    exact Or.inr rfl
  · exact Or.inl (List.mem_of_mem_take (List.mem_of_getElem? h))

theorem enter_agrees (hring : Ring config hist d.entries d.pos)
    (hentries : forall line, line ∈ d.entries -> 0 ∉ line ∧ line.length ≤ room)
    (h : Holds room cls e (0 :: tail))
    (hfits : savedLine e.cursor.text = true -> e.cursor.text.length ≤ HIST_SIZE config) :
    exists console', enter config cls hist = some console' ∧
      Agrees config room console' (d.enter savedLine e.cursor.text) := by
  have hnul := h.noNul
  have hroom := h.text_le
  have hbuf := h.buf
  have hline : LineAgrees room (.entered cls.buf cls.eolNum) (.entered e.cursor.text) := by
    rw [hbuf, h.eol]
    exact LineAgrees.entered hnul
  have hstring : string cls.buf 0 = some e.cursor.text := by
    rw [hbuf]
    exact string_at [] hnul tail
  unfold enter Desk.enter
  rcases htext : e.cursor.text with _ | ⟨c, text⟩
  · rw [htext] at hbuf hline
    have hload : load cls.buf 0 = some 0 := by
      rw [hbuf]
      rfl
    rw [hload]
    exact ⟨_, rfl, hring.first, hentries, hline⟩
  · rw [htext] at hbuf hline hstring hfits hnul hroom
    have hload : load cls.buf 0 = some c := by
      rw [hbuf]
      rfl
    have hc : c ≠ 0 := fun h => hnul (h ▸ List.mem_cons_self)
    rw [hload]
    simp only [Option.bind_eq_bind, Option.bind_some]
    by_cases hbang : c = CREAD_HIST_CHAR
    · have hskipped : savedLine (c :: text) = false := by
        simp [savedLine, hbang]
      rw [if_neg (fun hsaved => hsaved.right hbang), hskipped]
      exact ⟨_, rfl, hring.first, hentries, hline⟩
    · have hsaved : savedLine (c :: text) = true := by
        simp [savedLine, hbang]
      rcases creadAddToHist_ring hring (hfits hsaved) with ⟨hist', hadded, hring'⟩
      rw [if_pos ⟨hc, hbang⟩, hsaved, hstring]
      simp only [Option.bind_some, hadded]
      exact ⟨_, rfl, hring', List.forall_mem_cons.mpr ⟨⟨hnul, hroom⟩, hentries⟩, hline⟩

theorem press_edit {saved : Bytes -> Bool} {ichar : UInt8} (hzero : ichar ≠ 0)
    (hnewline : ichar ≠ 10) (hc : key ichar ≠ .ctlC) (hp : key ichar ≠ .ctlP)
    (hn : key ichar ≠ .ctlN) :
    d.press config saved room ichar e =
      { d with line := .reading (e.press room ichar (key ichar)) } := by
  unfold Desk.press
  rw [if_neg hzero, if_neg hnewline]
  cases hkey : key ichar with
  | ctlC => exact absurd hkey hc
  | ctlP => exact absurd hkey hp
  | ctlN => exact absurd hkey hn
  | _ => rfl

theorem again_agrees {entries : List Bytes} {pos : Nat} {ichar : UInt8} {hist' : Hist} {cls' : Cls}
    {e' : Editor} {c : UInt8} {tail' : Bytes} (hzero : ichar ≠ 0) (hnewline : ichar ≠ 10)
    (hbreak : key ichar ≠ .ctlC)
    (hswitch : switch config completed ichar cls hist = some (cls', hist'))
    (h : Holds room cls' e' (c :: tail')) (hring : Ring config hist' entries pos)
    (hentries : forall line, line ∈ entries -> 0 ∉ line ∧ line.length ≤ room) :
    exists console', Console.ch config completed ichar ⟨hist, .reading cls⟩ = some console' ∧
      Agrees config room console' ⟨entries, pos, .reading e'⟩ := by
  rcases terminate_holds h with ⟨cls'', hterminated, hholds⟩
  refine ⟨⟨hist', .reading cls''⟩, ?_, hring, hentries, LineAgrees.reading hholds⟩
  unfold Console.ch creadLineProcessCh
  dsimp only
  rw [if_neg hzero, if_neg hnewline, if_neg hbreak, hswitch]
  simp only [Option.bind_eq_bind, Option.bind_some, hterminated]

theorem history_agrees {entries : List Bytes} {pos : Nat} {ichar : UInt8} (hzero : ichar ≠ 0)
    (hnewline : ichar ≠ 10) (hbreak : key ichar ≠ .ctlC)
    {step : Hist -> Option (Option Bytes × Hist)} {found : Option Bytes × Nat} {d' : Desk}
    (hswitch : switch config completed ichar cls hist = historyLine step cls hist)
    (hbrowse : d' = Desk.browse e found ⟨entries, pos, .reading e⟩)
    (hstep : exists hist', step hist = some (found.1, hist') ∧
      Ring config hist' entries found.2)
    (hfound : forall line, found.1 = some line -> line ∈ entries ∨ line = [])
    (hentries : forall line, line ∈ entries -> 0 ∉ line ∧ line.length ≤ room)
    (h : Holds room cls e (0 :: tail)) :
    exists console', Console.ch config completed ichar ⟨hist, .reading cls⟩ = some console' ∧
      Agrees config room console' d' := by
  rcases hstep with ⟨hist', hsome, hring⟩
  rcases found with ⟨_ | line, pos'⟩
  · have hsame : switch config completed ichar cls hist = some (cls, hist') := by
      rw [hswitch, historyLine, if_pos h.history, hsome]
      rfl
    rw [hbrowse]
    exact again_agrees hzero hnewline hbreak hsame h hring hentries
  · have hgood : 0 ∉ line ∧ line.length ≤ room := by
      rcases hfound line rfl with hmem | hempty
      · exact hentries line hmem
      · rw [hempty]
        exact ⟨List.not_mem_nil, Nat.zero_le _⟩
    rcases showLine_gives h hgood.left hgood.right with ⟨cls', c, tail', hshown, hholds⟩
    have hchanged : switch config completed ichar cls hist = some (cls', hist') := by
      rw [hswitch, historyLine, if_pos h.history, hsome]
      simp only [Option.bind_eq_bind, Option.bind_some, hshown]
    rw [hbrowse]
    exact again_agrees hzero hnewline hbreak hchanged hholds hring hentries

theorem ch_agrees (hpos : 0 < room) (hroom : room < 2 ^ 32) {console : Console}
    (h : Agrees config room console d) {ichar : UInt8}
    (hallowed : Allowed config savedLine room d (.ch ichar)) :
    exists console', console.ch config completed ichar = some console' ∧
      Agrees config room console' (d.step config savedLine room (.ch ichar)) := by
  rcases console with ⟨hist, line⟩
  rcases d with ⟨entries, pos, dline⟩
  rcases h with ⟨hring, hentries, hline⟩
  cases hline with
  | idle => exact ⟨_, rfl, hring, hentries, LineAgrees.idle⟩
  | entered hnul => exact ⟨_, rfl, hring, hentries, LineAgrees.entered hnul⟩
  | broken => exact ⟨_, rfl, hring, hentries, LineAgrees.broken⟩
  | @reading cls e tail h =>
      rcases hallowed with ⟨hfits, htab⟩
      by_cases hzero : ichar = 0
      · refine ⟨⟨hist, .reading cls⟩, ?_, ?_⟩
        · unfold Console.ch creadLineProcessCh
          dsimp only
          rw [if_pos hzero]
          rfl
        · unfold Desk.step Desk.press
          dsimp only
          rw [if_pos hzero]
          exact ⟨hring, hentries, LineAgrees.reading h⟩
      by_cases hnewline : ichar = 10
      · rcases terminate_holds h with ⟨cls', hterminated, hholds⟩
        rcases enter_agrees hring hentries hholds (hfits hnewline) with
          ⟨console', henter, hagrees⟩
        refine ⟨console', ?_, ?_⟩
        · unfold Console.ch creadLineProcessCh
          dsimp only
          rw [if_neg hzero, if_pos hnewline, hterminated]
          exact henter
        · unfold Desk.step Desk.press
          dsimp only
          rw [if_neg hzero, if_pos hnewline]
          exact hagrees
      have hstep : Desk.step config savedLine room ⟨entries, pos, .reading e⟩ (.ch ichar) =
          Desk.press config savedLine room ichar e ⟨entries, pos, .reading e⟩ := rfl
      rw [hstep]
      by_cases hbreak : key ichar = .ctlC
      · rcases hbuf : cls.buf with _ | ⟨c, rest⟩
        · have hempty := congrArg List.length (h.buf.symm.trans hbuf)
          rw [List.length_append, h.fits] at hempty
          cases hempty
        · have hstored : store cls.buf 0 0 = some (0 :: rest) := by
            rw [hbuf]
            exact store_at [] c 0 rest
          refine ⟨⟨hist, .broken (0 :: rest)⟩, ?_, ?_⟩
          · unfold Console.ch creadLineProcessCh
            dsimp only
            rw [if_neg hzero, if_neg hnewline, if_pos hbreak, hstored]
            rfl
          · unfold Desk.press
            rw [if_neg hzero, if_neg hnewline, hbreak]
            exact ⟨hring, hentries, LineAgrees.broken⟩
      by_cases hp : key ichar = .ctlP
      · have hbrowse : Desk.press config savedLine room ichar e ⟨entries, pos, .reading e⟩ =
            Desk.browse e (older (visible config entries) pos) ⟨entries, pos, .reading e⟩ := by
          unfold Desk.press
          rw [if_neg hzero, if_neg hnewline, hp]
        refine history_agrees hzero hnewline hbreak ?_ hbrowse (histPrev_ring hring)
          (fun line h => Or.inl (older_mem h)) hentries h
        unfold switch
        rw [hp]
      by_cases hn : key ichar = .ctlN
      · have hbrowse : Desk.press config savedLine room ichar e ⟨entries, pos, .reading e⟩ =
            Desk.browse e (newer (visible config entries) pos) ⟨entries, pos, .reading e⟩ := by
          unfold Desk.press
          rw [if_neg hzero, if_neg hnewline, hn]
        refine history_agrees hzero hnewline hbreak ?_ hbrowse (histNext_ring hring)
          (fun line h => newer_mem h) hentries h
        unfold switch
        rw [hn]
      rcases switch_press config completed hpos hroom hzero htab hp hn h hist with
        ⟨cls', c, tail', hswitch, hholds⟩
      rw [press_edit hzero hnewline hbreak hp hn]
      exact again_agrees hzero hnewline hbreak hswitch hholds hring hentries

theorem step_agrees (completed : Cls -> Option Cls) (hpos : 0 < room)
    (hroom : room < 2 ^ 32) {console : Console} (h : Agrees config room console d) {event : Event}
    (hallowed : Allowed config savedLine room d event) :
    exists console', console.step config completed room event = some console' ∧
      Agrees config room console' (d.step config savedLine room event) := by
  cases event with
  | start buf => exact start_agrees hroom h savedLine hallowed.left hallowed.right
  | ch ichar => exact ch_agrees hpos hroom h hallowed

/-!
## Whole runs
-/

theorem LineAgrees.bounds {line : DeskLine} (h : LineAgrees room (.reading cls) line) :
    cls.num ≤ cls.eolNum ∧ cls.eolNum ≤ room := by
  cases h with
  | reading h => exact ⟨h.num_le, h.eol.trans_le h.text_le⟩

theorem foldlM_agrees (completed : Cls -> Option Cls) (hpos : 0 < room)
    (hroom : room < 2 ^ 32) {events : List Event} {console : Console}
    (h : Agrees config room console d)
    (hallowed : Runs.Along (Desk.step config savedLine room)
      (Allowed config savedLine room) d events) :
    exists console', events.foldlM (Console.step config completed room) console = some console' ∧
      Agrees config room console' (events.foldl (Desk.step config savedLine room) d) := by
  induction events generalizing console d with
  | nil => exact ⟨console, rfl, h⟩
  | cons event events ih =>
      rcases step_agrees completed hpos hroom h hallowed.left with
        ⟨console', hstep, hagrees⟩
      rw [List.foldlM_cons, hstep, List.foldl_cons]
      exact ih hagrees hallowed.right

theorem init_agrees : Agrees config room (Console.init config) Desk.init :=
  ⟨ring_init, fun _ h => absurd h List.not_mem_nil, LineAgrees.idle⟩

theorem run_agrees (config : Config) (completed : Cls -> Option Cls) (hpos : 0 < room)
    (hroom : room < 2 ^ 32) (events : List Event)
    (hallowed : Runs.Along (Desk.step config savedLine room)
      (Allowed config savedLine room) Desk.init events) :
    exists console, Console.run config completed room events = some console ∧
      (forall cls, console.line = .reading cls ->
        cls.num ≤ cls.eolNum ∧ cls.eolNum ≤ room) ∧
      Agrees config room console
        (events.foldl (Desk.step config savedLine room) Desk.init) := by
  rcases foldlM_agrees completed hpos hroom init_agrees hallowed with
    ⟨console, hrun, hagrees⟩
  refine ⟨console, hrun, ?_, hagrees⟩
  intro cls hreading
  have hline := hagrees.line
  rw [hreading] at hline
  exact hline.bounds

def oneLine (ichar : UInt8) : List Event :=
  [.start [0, 0, 0, 0, 0], .ch ichar, .ch 10, .start [0, 0, 0, 0, 0], .ch 16]

theorem oneLine_agrees :
    exists console, Console.run ⟨false, 256, true⟩ some 4 (oneLine 97) = some console ∧
      (forall cls, console.line = .reading cls -> cls.num ≤ cls.eolNum ∧ cls.eolNum ≤ 4) ∧
      Agrees ⟨false, 256, true⟩ 4 console ⟨[[97]], 1, .reading ⟨Cursor.behind [97], true⟩⟩ :=
  run_agrees ⟨false, 256, true⟩ some (by decide) (by decide) (oneLine 97) (by decide)

/-- The line `!` does not come back, as it would among all lines that are not empty. -/
theorem bangLine_differs :
    ¬ exists console, Console.run ⟨false, 256, true⟩ some 4 (oneLine 33) = some console ∧
      Agrees ⟨false, 256, true⟩ 4 console
        ((oneLine 33).foldl (Desk.step ⟨false, 256, true⟩ (fun text => text ≠ []) 4)
          Desk.init) := by
  rintro ⟨console, hrun, hagrees⟩
  have hline : (Console.run ⟨false, 256, true⟩ some 4 (oneLine 33)).map Console.line =
      some (.reading ⟨0, 0, 4, true, true, true, [0, 0, 0, 0, 0]⟩) := by decide
  have hdesk : (oneLine 33).foldl (Desk.step ⟨false, 256, true⟩ (fun text => text ≠ []) 4)
      Desk.init = ⟨[[33]], 1, .reading ⟨Cursor.behind [33], true⟩⟩ := by decide
  rw [hrun] at hline
  have hreads := hagrees.line
  rw [hdesk, Option.some.inj hline] at hreads
  cases hreads with
  | reading h => exact absurd h.eol (by decide)

end Cread
end UBoot
end Hlk7621
