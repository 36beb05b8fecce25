import Hlk7621.Lib.CString
import Hlk7621.Lwip.Ip4Addr
import Hlk7621.UBoot.Strto

/-!
# Arguments of the TFTP command

Model of `do_tftpb` from `net/lwip/tftp.c` up to the call of `tftp_loop`.  The
loop that splits `[ip:[port:]]fname` is given by the stores it makes into the
array `words`, so that a store behind the array can be seen; `strsep` replaces
the separators in place.
-/

namespace Hlk7621
namespace Lwip
namespace Tftp

open UBoot

def TFTP_PORT : Nat := 69

def WORDS : Nat := 3

def hextoul (cp : Bytes) : Nat × Bytes := simpleStrtoul cp 16

def dectoul (cp : Bytes) : Nat × Bytes := simpleStrtoul cp 10

/-- The environment variables that the command reads, and the other globals. -/
structure Globals where
  loadaddr : Option Bytes
  bootfile : Option Bytes
  tftpserverip : Option Bytes
  serverip : Option Bytes
  imageLoadAddr : Nat
  /-- The bytes of `net_boot_file_name` in front of its terminating NUL. -/
  netBootFileName : Bytes

/-- One store `words[i] = word`. -/
structure Store where
  index : Nat
  word : Option Bytes
  deriving DecidableEq

/-- `while ((*(words + i) = strsep(&arg, ":"))) i++;`. -/
def wordsLoop : Nat -> Nat -> Option Bytes -> List Store
  | 0, _, _ => []
  | fuel + 1, i, arg =>
      match strsep 58 arg with
      | (none, _) => [⟨i, none⟩]
      | (some word, arg) => ⟨i, some word⟩ :: wordsLoop fuel (i + 1) arg

/-- `words[i]` after the stores; the array starts with null pointers. -/
def wordAt (stores : List Store) (i : Nat) : Option Bytes :=
  ((stores.reverse.find? fun s => s.index = i).map Store.word).join

/-- What splitting the argument leaves in the local variables. -/
structure Words where
  stores : List Store
  serverIp : Option Bytes
  serverPort : Option Bytes
  fname : Option Bytes
  deriving DecidableEq

/-- `if (*arg) { ... }` with the value of `fname` in front of it. -/
def splitArg (fname : Option Bytes) (arg : Bytes) : Words :=
  if arg = [] then ⟨[], none, none, fname⟩
  else
    let stores := wordsLoop (arg.length + 2) 0 (some arg)
    match stores.length - 1 with
    | 3 => ⟨stores, wordAt stores 0, wordAt stores 1, wordAt stores 2⟩
    | 2 => ⟨stores, wordAt stores 0, none, wordAt stores 1⟩
    | 1 => ⟨stores, none, none, wordAt stores 0⟩
    | _ => ⟨stores, none, none, fname⟩

/-- A string after `strsep` has replaced its separators. -/
def separated (s : Bytes) : Bytes := s.map fun b => if b = 58 then 0 else b

/-- The variables behind the `switch`: a null `arg` is no copy of an argument. -/
structure Args where
  laddr : Nat
  fname : Option Bytes
  arg : Option Bytes

/-- The `switch (argc)`; `argv` holds the arguments behind the command's name. -/
def readArgs (g : Globals) (argv : List Bytes) : Option Args :=
  let laddr := (g.loadaddr.map fun s => (simpleStrtoul s 16).1).getD g.imageLoadAddr
  match argv with
  | [] => some ⟨laddr, g.bootfile, none⟩
  | [a] =>
      if (hextoul a).2 = [] then some ⟨(hextoul a).1, g.bootfile, none⟩
      else some ⟨laddr, none, some a⟩
  | [a, b] => some ⟨(hextoul a).1, none, some b⟩
  | _ => none

structure Transfer where
  laddr : Nat
  fname : Bytes
  srvip : Nat
  port : Nat
  deriving DecidableEq

inductive Reply where
  | usage
  | failure
  | start (t : Transfer)
  deriving DecidableEq

/-- The part of `do_tftpb` behind the splitting. -/
def request (g : Globals) (laddr : Nat) (w : Words) : Reply :=
  match (w.serverIp.or g.tftpserverip).or g.serverip with
  | none => .failure
  | some serverIp =>
      let port := match w.serverPort with
        | none => TFTP_PORT
        | some s => (dectoul s).1 % 65536
      match ip4addrAton serverIp with
      | none => .failure
      | some srvip =>
          match w.fname with
          | none => .failure
          | some fname =>
              if laddr = 0 then .failure else .start ⟨laddr, fname, srvip, port⟩

/-- What a run of the command does: its stores into `words`, the split argument,
the reply and `net_boot_file_name` afterwards. -/
structure Outcome where
  words : Words
  reply : Reply
  netBootFileName : Bytes

def doTftpb (g : Globals) (argv : List Bytes) : Outcome :=
  match readArgs g argv with
  | none => ⟨⟨[], none, none, none⟩, .usage, g.netBootFileName⟩
  | some a =>
      match a.arg with
      | some arg =>
          let w := splitArg a.fname arg
          ⟨w, request g a.laddr w, g.netBootFileName⟩
      | none =>
          let w := splitArg a.fname g.netBootFileName
          ⟨w, request g a.laddr w, separated g.netBootFileName⟩

/-!
## The splitting loop
-/

theorem wordsLoop_last {fuel i : Nat} {s : Bytes} (hfuel : 1 < fuel) (h : (58 : UInt8) ∉ s) :
    wordsLoop fuel i (some s) = [⟨i, some s⟩, ⟨i + 1, none⟩] := by
  rcases Nat.exists_eq_add_of_lt hfuel with ⟨n, rfl⟩
  rw [show 1 + n + 1 = n + 1 + 1 by omega, wordsLoop, strsep_of_not_mem h]
  rfl

theorem wordsLoop_colon {fuel i : Nat} {s : Bytes} (rest : Bytes) (h : (58 : UInt8) ∉ s) :
    wordsLoop (fuel + 1) i (some (s ++ 58 :: rest)) =
      ⟨i, some s⟩ :: wordsLoop fuel (i + 1) (some rest) := by
  rw [wordsLoop, strsep_append h]

/-- The loop stores to as many elements as the string has parts, and to one more. -/
theorem mem_wordsLoop {fuel k : Nat} (i : Nat) {s : Bytes} (hfuel : s.length + 1 < fuel)
    (hk : k ≤ s.count 58 + 1) :
    exists store, store ∈ wordsLoop fuel i (some s) ∧ store.index = i + k := by
  induction fuel generalizing i k s with
  | zero => omega
  | succ fuel ih =>
      by_cases hcolon : (58 : UInt8) ∈ s
      · rcases first_split hcolon with ⟨front, rest, rfl, hfront⟩
        rw [wordsLoop_colon rest hfront]
        cases k with
        | zero => exact ⟨_, List.mem_cons_self, rfl⟩
        | succ k =>
            rw [List.count_append, List.count_eq_zero.mpr hfront, List.count_cons_self] at hk
            rw [List.length_append, List.length_cons] at hfuel
            rcases ih (i := i + 1) (k := k) (s := rest) (by omega) (by omega) with
              ⟨store, hmem, hindex⟩
            exact ⟨store, List.mem_cons_of_mem _ hmem, by omega⟩
      · rw [wordsLoop_last (by omega) hcolon]
        rw [List.count_eq_zero.mpr hcolon] at hk
        rcases Nat.le_one_iff_eq_zero_or_eq_one.mp hk with rfl | rfl
        · exact ⟨_, List.mem_cons_self, rfl⟩
        · exact ⟨⟨i + 1, none⟩, by simp, rfl⟩

theorem splitArg_plain {fname : Option Bytes} {s : Bytes} (hne : s ≠ [])
    (h : (58 : UInt8) ∉ s) :
    splitArg fname s = ⟨[⟨0, some s⟩, ⟨1, none⟩], none, none, some s⟩ := by
  unfold splitArg
  rw [if_neg hne, wordsLoop_last (by omega) h]
  rfl

theorem splitArg_one {fname : Option Bytes} {ip file : Bytes} (hip : (58 : UInt8) ∉ ip)
    (hfile : (58 : UInt8) ∉ file) :
    splitArg fname (ip ++ 58 :: file) =
      ⟨[⟨0, some ip⟩, ⟨1, some file⟩, ⟨2, none⟩], some ip, none, some file⟩ := by
  have hne : ip ++ 58 :: file ≠ [] := List.append_ne_nil_of_right_ne_nil _ (List.cons_ne_nil _ _)
  unfold splitArg
  have hfuel : 1 < (ip ++ 58 :: file).length + 1 := by
    rw [List.length_append, List.length_cons]
    omega
  rw [if_neg hne, wordsLoop_colon file hip, wordsLoop_last hfuel hfile]
  rfl

theorem splitArg_stores {s : Bytes} (fname : Option Bytes) (hne : s ≠ []) :
    (splitArg fname s).stores = wordsLoop (s.length + 2) 0 (some s) := by
  unfold splitArg
  rw [if_neg hne]
  dsimp only
  split <;> rfl

theorem separated_eq_iff (s : Bytes) : separated s = s <-> (58 : UInt8) ∉ s := by
  unfold separated
  constructor
  · intro h hmem
    have hself := List.map_eq_map_iff.mp (h.trans (List.map_id s).symm) 58 hmem
    exact absurd hself (by decide)
  · intro h
    refine (List.map_congr_left fun b hb => ?_).trans (List.map_id s)
    exact if_neg fun hb58 : b = 58 => h (hb58 ▸ hb)

/-!
## The arguments of a call
-/

section

variable (g : Globals) (argv : List Bytes)

/-- The string that the call splits: a copy of an argument, or the default name. -/
def argument : Bytes :=
  match readArgs g argv with
  | none => []
  | some a => a.arg.getD g.netBootFileName

def UsesDefault : Prop := exists a, readArgs g argv = some a ∧ a.arg = none

/-- The call stores into the array only, takes the parts of `[ip:[port:]]fname` as
they stand there, starts no transfer for a string with more colons and keeps the
default name. -/
structure Exact : Prop where
  inside : forall s, s ∈ (doTftpb g argv).words.stores -> s.index < WORDS
  plain : argument g argv ≠ [] -> (58 : UInt8) ∉ argument g argv ->
    (doTftpb g argv).words.serverIp = none ∧ (doTftpb g argv).words.serverPort = none ∧
      (doTftpb g argv).words.fname = some (argument g argv)
  withIp : forall ip fname, (58 : UInt8) ∉ ip -> (58 : UInt8) ∉ fname ->
    argument g argv = ip ++ 58 :: fname ->
    (doTftpb g argv).words.serverIp = some ip ∧ (doTftpb g argv).words.serverPort = none ∧
      (doTftpb g argv).words.fname = some fname
  withPort : forall ip port fname, (58 : UInt8) ∉ ip -> (58 : UInt8) ∉ port ->
    (58 : UInt8) ∉ fname -> argument g argv = ip ++ 58 :: (port ++ 58 :: fname) ->
    (doTftpb g argv).words.serverIp = some ip ∧ (doTftpb g argv).words.serverPort = some port ∧
      (doTftpb g argv).words.fname = some fname
  more : 3 ≤ (argument g argv).count 58 -> forall t, (doTftpb g argv).reply ≠ .start t
  kept : (doTftpb g argv).netBootFileName = g.netBootFileName

end

theorem words_eq (g : Globals) (argv : List Bytes) :
    exists fname, (doTftpb g argv).words = splitArg fname (argument g argv) := by
  unfold doTftpb argument
  cases readArgs g argv with
  | none => exact ⟨none, rfl⟩
  | some a =>
      refine ⟨a.fname, ?_⟩
      dsimp only
      cases a.arg with
      | none => rfl
      | some arg => rfl

theorem kept_iff (g : Globals) (argv : List Bytes) :
    (doTftpb g argv).netBootFileName = g.netBootFileName <->
      (UsesDefault g argv -> (58 : UInt8) ∉ argument g argv) := by
  unfold doTftpb argument UsesDefault
  cases readArgs g argv with
  | none => exact iff_of_true rfl fun _ => List.not_mem_nil
  | some a =>
      dsimp only
      cases harg : a.arg with
      | some arg =>
          refine iff_of_true rfl ?_
          rintro ⟨a', ha', hnone⟩
          cases ha'
          rw [harg] at hnone
          cases hnone
      | none =>
          dsimp only
          rw [separated_eq_iff]
          constructor
          · intro h _
            exact h
          · intro h
            exact h ⟨a, rfl, harg⟩

/-- A call does what its syntax says exactly when the string has at most one colon,
and none when it is the default name. -/
theorem tftp_arguments_iff (g : Globals) (argv : List Bytes) :
    Exact g argv <-> (argument g argv).count 58 ≤ 1 ∧
      (UsesDefault g argv -> (58 : UInt8) ∉ argument g argv) := by
  rcases words_eq g argv with ⟨given, hwords⟩
  constructor
  · intro h
    refine ⟨?_, (kept_iff g argv).mp h.kept⟩
    by_contra hcount
    have hne : argument g argv ≠ [] := by
      intro hnil
      rw [hnil] at hcount
      exact hcount (Nat.zero_le _)
    rcases mem_wordsLoop (k := 3) 0 (Nat.lt_succ_self ((argument g argv).length + 1))
      (by omega) with ⟨store, hmem, hindex⟩
    rw [<- splitArg_stores given hne, <- hwords] at hmem
    have hlt := h.inside store hmem
    rw [hindex] at hlt
    exact absurd hlt (by decide)
  · rintro ⟨hcount, hdefault⟩
    have hshort : forall ip port fname : Bytes,
        argument g argv ≠ ip ++ 58 :: (port ++ 58 :: fname) := by
      intro ip port fname hsplit
      rw [hsplit] at hcount
      simp only [List.count_append, List.count_cons_self] at hcount
      omega
    have hone : forall ip fname : Bytes, (58 : UInt8) ∉ ip -> (58 : UInt8) ∉ fname ->
        argument g argv = ip ++ 58 :: fname -> (doTftpb g argv).words =
          ⟨[⟨0, some ip⟩, ⟨1, some fname⟩, ⟨2, none⟩], some ip, none, some fname⟩ := by
      intro ip fname hip hfname hsplit
      rw [hwords, hsplit, splitArg_one hip hfname]
    refine ⟨?_, ?_, ?_, ?_, ?_, (kept_iff g argv).mpr hdefault⟩
    · by_cases hnil : argument g argv = []
      · rw [hwords, hnil]
        intro s hs
        cases hs
      by_cases hcolon : (58 : UInt8) ∈ argument g argv
      · rcases first_split hcolon with ⟨ip, fname, hsplit, hip⟩
        have hfname : (58 : UInt8) ∉ fname := by
          intro hmem
          rcases List.append_of_mem hmem with ⟨port, rest, hrest⟩
          exact hshort ip port rest (by rw [hsplit, hrest])
        rw [hone ip fname hip hfname hsplit]
        simp [WORDS]
      · rw [hwords, splitArg_plain hnil hcolon]
        simp [WORDS]
    · intro hne hcolon
      rw [hwords, splitArg_plain hne hcolon]
      exact ⟨rfl, rfl, rfl⟩
    · intro ip fname hip hfname hsplit
      rw [hone ip fname hip hfname hsplit]
      exact ⟨rfl, rfl, rfl⟩
    · intro ip port fname _ _ _ hsplit
      exact absurd hsplit (hshort ip port fname)
    · intro hmore
      omega

def board (netBootFileName : Bytes) : Globals where
  loadaddr := none
  bootfile := none
  tftpserverip := none
  serverip := some (str "10.0.0.2")
  imageLoadAddr := 0x80000000
  netBootFileName

/-- A string with a port is split with a store behind the array. -/
theorem port_stored_outside : ¬ Exact (board []) [str "10.0.0.1:69:image"] := by
  intro h
  exact absurd (h.inside ⟨3, none⟩ (by decide +kernel)) (by decide)

end Tftp
end Lwip
end Hlk7621
