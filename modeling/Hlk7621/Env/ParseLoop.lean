import Hlk7621.Env.Linear

/-!
# The cursors of the parse loop

`himport_r` works in a copy of its text with one byte more, for a NUL.  Here its
cursors are indices into that copy, and every read and every write goes through a
check: a result `none` is an access outside the copy, or a loop that has not ended
when its fuel is used up.
-/

namespace Hlk7621
namespace Env

/-!
## The code
-/

def store (data : Bytes) (dp : Nat) (c : UInt8) : Option Bytes :=
  if dp < data.length then some (data.set dp c) else none

/-- The loops that move a cursor over the characters of a kind. -/
def scanWhile (p : UInt8 -> Bool) (data : Bytes) : Nat -> Nat -> Option Nat
  | 0, _ => none
  | fuel + 1, dp => do
      let c <- data[dp]?
      if p c then scanWhile p data fuel (dp + 1) else some dp

/-- The string that starts at an index, as the hash table functions read it. -/
def stringAt (data : Bytes) (start : Nat) : Option Bytes := do
  let stop <- scanWhile (fun c => c != 0) data (data.length + 1) start
  some ((data.drop start).take (stop - start))

/-- The removal of the carriage returns in front of line feeds, with the number of
those removed so far. -/
def crlfLoop (size : Nat) : Nat -> Bytes -> Nat -> Nat -> Option (Bytes × Nat)
  | 0, _, _, _ => none
  | fuel + 1, data, dp, ignoredCrs =>
      if dp < size then do
        let c <- data[dp]?
        if c = 0 then some (data, ignoredCrs)
        else
          let cr <- (if c = 13 ∧ dp < size - 1 then
              (data[dp + 1]?).map fun next => next == 10
            else some false)
          if cr then crlfLoop size fuel data (dp + 1) (u32 (ignoredCrs + 1))
          else
            let data <- store data (dp - ignoredCrs) c
            crlfLoop size fuel data (dp + 1) ignoredCrs
      else some (data, ignoredCrs)

/-- The loop over a value, with the cursor `dp` that reads and the cursor `sp` that
writes. -/
def valueLoop (sep : UInt8) : Nat -> Bytes -> Nat -> Nat -> Option (Bytes × Nat × Nat)
  | 0, _, _, _ => none
  | fuel + 1, data, dp, sp => do
      let c <- data[dp]?
      if c ≠ 0 ∧ c ≠ sep then
        let escaped <- (if c = 92 then (data[dp + 1]?).map fun next => next != 0
          else some false)
        let dp := if escaped then dp + 1 else dp
        let c <- data[dp]?
        let data <- store data sp c
        valueLoop sep fuel data (dp + 1) (sp + 1)
      else some (data, dp, sp)

/-- `*dp == '\0' || *(dp + 1) == '\0' || *dp == sep || *(dp + 1) == sep` -/
def nameOnly (sep : UInt8) (data : Bytes) (dp : Nat) : Option Bool := do
  let c <- data[dp]?
  if c = 0 then some true
  else
    let next <- data[dp + 1]?
    some (next == 0 || c == sep || next == sep)

/-- The end of a round that deletes `name`: one terminator, or two behind a `=`. -/
def deleteName (data : Bytes) (name dp : Nat) : Option (Command × Bytes × Nat) := do
  let c <- data[dp]?
  let (data, dp) <- (if c = 61 then (store data dp 0).map fun data => (data, dp + 1)
    else some (data, dp))
  let data <- store data dp 0
  let key <- stringAt data name
  some (.delete key, data, dp + 1)

/-- The end of a round that enters `name` with the value behind `dp`. -/
def enterName (sep : UInt8) (data : Bytes) (name dp : Nat) :
    Option (Command × Bytes × Nat) := do
  let data <- store data dp 0
  let value := dp + 1
  let (data, dp, sp) <- valueLoop sep (data.length + 1) data value value
  let data <- store data sp 0
  let c <- data[name]?
  if c = 0 then some (.emptyName, data, dp + 1)
  else
    let key <- stringAt data name
    let text <- stringAt data value
    some (.enter key text, data, dp + 1)

/-- One round of the parse loop from `dp` on: what is done to the table, the copy and
the cursor behind it. -/
def parseRound (sep : UInt8) (data : Bytes) (dp : Nat) : Option (Command × Bytes × Nat) := do
  let dp <- scanWhile isBlank data (data.length + 1) dp
  let c <- data[dp]?
  if c = 35 then
    let dp <- scanWhile (fun c => c != 0 && c != sep) data (data.length + 1) dp
    some (.comment, data, dp + 1)
  else
    let name := dp
    let dp <- scanWhile (parseName sep) data (data.length + 1) dp
    let last <- nameOnly sep data dp
    if last then deleteName data name dp else enterName sep data name dp

/-- The parse loop: the commands it carries out in the order of the text.  An empty
name with a value ends the import. -/
def parseLoop (sep : UInt8) (size : Nat) : Nat -> Bytes -> Nat -> Option (List Command)
  | 0, _, _ => none
  | fuel + 1, data, dp => do
      let (cmd, data, dp) <- parseRound sep data dp
      if cmd = .emptyName then some [cmd]
      else
        let more <- (if dp < size then (data[dp]?).map fun c => c != 0 else some false)
        if more then
          let cmds <- parseLoop sep size fuel data dp
          some (cmd :: cmds)
        else some [cmd]

/-- The part of `himport_r` that reads the text `env`. -/
def parseCopy (sep : UInt8) (crlfIsLf : Bool) (env : Bytes) : Option (List Command) :=
  let size := env.length
  let data := env ++ [0]
  if size = 0 then some []
  else do
    let (data, ignoredCrs) <- (if crlfIsLf then crlfLoop size (size + 1) data 0 0
      else some (data, 0))
    parseLoop sep (size - ignoredCrs) (size + 1) data 0

/-!
## One access
-/

structure Copy (size : Nat) (data : Bytes) : Prop where
  length : data.length = size + 1
  last : data[size]? = some 0

section

variable {size dp sp i : Nat} {data : Bytes} (sep : UInt8)

theorem copy_append (env : Bytes) : Copy env.length (env ++ [0]) where
  length := by simp
  last := by simp

theorem Copy.read (h : Copy size data) (hi : i ≤ size) : exists c, data[i]? = some c := by
  have hlt : i < data.length := by
    rw [h.length]
    lia
  exact ⟨data[i], List.getElem?_eq_getElem hlt⟩

theorem Copy.next_le (h : Copy size data) {c : UInt8} (hread : data[dp]? = some c)
    (hc : c ≠ 0) : dp + 1 ≤ size := by
  have hlt : dp < data.length := (List.getElem?_eq_some_iff.mp hread).choose
  have hne : dp ≠ size := by
    intro heq
    rw [heq, h.last] at hread
    exact hc (Option.some.inj hread).symm
  rw [h.length] at hlt
  lia

theorem Copy.store (h : Copy size data) {c : UInt8} (hi : i < size ∨ i ≤ size ∧ c = 0) :
    exists data', store data i c = some data' ∧ Copy size data' := by
  have hlt : i < data.length := by
    rw [h.length]
    lia
  refine ⟨data.set i c, if_pos hlt, ⟨?_, ?_⟩⟩
  · rw [List.length_set, h.length]
  · rw [List.getElem?_set]
    split
    · rcases hi with hi | ⟨_, rfl⟩
      · lia
      · rfl
    · exact h.last

/-- A scan for characters other than NUL stops at the NUL at the latest. -/
theorem scanWhile_spec (h : Copy size data) {p : UInt8 -> Bool} (hp : p 0 = false)
    {fuel : Nat} (hdp : dp ≤ size) (hfuel : size < dp + fuel) :
    exists stop, scanWhile p data fuel dp = some stop ∧ dp ≤ stop ∧ stop ≤ size := by
  induction fuel generalizing dp with
  | zero => lia
  | succ fuel ih =>
      rcases h.read hdp with ⟨c, hc⟩
      rw [scanWhile, hc]
      by_cases hpc : p c = true
      · have hne : c ≠ 0 := by
          intro heq
          rw [heq, hp] at hpc
          cases hpc
        rcases ih (h.next_le hc hne) (by lia) with ⟨stop, hstop, hle, hsize⟩
        refine ⟨stop, ?_, by lia, hsize⟩
        simp only [Option.bind_eq_bind, Option.bind_some, hpc, if_true]
        exact hstop
      · refine ⟨dp, ?_, Nat.le_refl dp, hdp⟩
        simp only [Option.bind_eq_bind, Option.bind_some, hpc]
        rfl

theorem scanWhile_whole (h : Copy size data) {p : UInt8 -> Bool} (hp : p 0 = false)
    (hdp : dp ≤ size) :
    exists stop, scanWhile p data (data.length + 1) dp = some stop ∧ dp ≤ stop ∧ stop ≤ size :=
  scanWhile_spec h hp hdp (by rw [h.length]; lia)

theorem stringAt_spec (h : Copy size data) (hi : i ≤ size) :
    exists text, stringAt data i = some text := by
  rcases scanWhile_whole h (p := fun c => c != 0) (by rfl) hi with ⟨stop, hstop, _, _⟩
  refine ⟨(data.drop i).take (stop - i), ?_⟩
  rw [stringAt, hstop]
  rfl

/-!
## The loops
-/

theorem crlfLoop_spec (h : Copy size data) {fuel ignoredCrs : Nat} (hle : ignoredCrs ≤ dp)
    (hdp : dp ≤ size) (hfuel : size < dp + fuel) :
    exists data' ignored, crlfLoop size fuel data dp ignoredCrs = some (data', ignored) ∧
      Copy size data' := by
  induction fuel generalizing data dp ignoredCrs with
  | zero => lia
  | succ fuel ih =>
      rw [crlfLoop]
      by_cases hdp : dp < size
      · rw [if_pos hdp]
        rcases h.read (Nat.le_of_lt hdp) with ⟨c, hc⟩
        have hcr : exists cr, (if c = 13 ∧ dp < size - 1 then
            (data[dp + 1]?).map fun next => next == 10 else some false) = some cr := by
          split
          · rcases h.read (i := dp + 1) (by lia) with ⟨next, hnext⟩
            exact ⟨_, by rw [hnext]; rfl⟩
          · exact ⟨_, rfl⟩
        rcases hcr with ⟨cr, hcr⟩
        simp only [hc, hcr, Option.bind_eq_bind, Option.bind_some]
        by_cases hzero : c = 0
        · exact ⟨data, ignoredCrs, if_pos hzero, h⟩
        · rw [if_neg hzero]
          by_cases hskip : cr = true
          · have hu : u32 (ignoredCrs + 1) ≤ ignoredCrs + 1 := by
              unfold u32
              exact Nat.mod_le _ _
            rw [if_pos hskip]
            exact ih h (by lia) hdp (by lia)
          · rcases h.store (i := dp - ignoredCrs) (c := c) (.inl (by lia)) with
              ⟨data', hstore, h'⟩
            rw [if_neg hskip, hstore, Option.bind_some]
            exact ih h' (by lia) hdp (by lia)
      · exact ⟨data, ignoredCrs, if_neg hdp, h⟩

/-- The character of a value that is copied, behind a backslash or not, is in front of
the NUL of the copy. -/
theorem escaped_spec (h : Copy size data) {c : UInt8} (hread : data[dp]? = some c)
    (hc : c ≠ 0) :
    exists escaped, (if c = 92 then (data[dp + 1]?).map fun next => next != 0
        else some false) = some escaped ∧ (if escaped then dp + 1 else dp) < size := by
  have hnext := h.next_le hread hc
  split
  · rcases h.read hnext with ⟨next, hnextread⟩
    refine ⟨next != 0, by rw [hnextread]; rfl, ?_⟩
    split
    · rename_i hne
      exact h.next_le hnextread (by simpa using hne)
    · exact hnext
  · exact ⟨false, rfl, hnext⟩

theorem valueLoop_spec (h : Copy size data) {fuel : Nat} (hsp : sp ≤ dp) (hdp : dp ≤ size)
    (hfuel : size < dp + fuel) :
    exists data' dp' sp', valueLoop sep fuel data dp sp = some (data', dp', sp') ∧
      Copy size data' ∧ dp ≤ dp' ∧ dp' ≤ size ∧ sp' ≤ dp' := by
  induction fuel generalizing data dp sp with
  | zero => lia
  | succ fuel ih =>
      rcases h.read hdp with ⟨c, hc⟩
      rw [valueLoop]
      simp only [hc, Option.bind_eq_bind, Option.bind_some]
      by_cases hgo : c ≠ 0 ∧ c ≠ sep
      · rcases escaped_spec h hc hgo.left with ⟨escaped, hescaped, hlt⟩
        rw [if_pos hgo, hescaped, Option.bind_some]
        generalize hfrom : (if escaped = true then dp + 1 else dp) = source at hlt ⊢
        have hsource : dp ≤ source := by
          rw [<- hfrom]
          split <;> lia
        rcases h.read (Nat.le_of_lt hlt) with ⟨c', hc'⟩
        rcases h.store (i := sp) (c := c') (.inl (by lia)) with ⟨data', hstore, h'⟩
        rw [hc', Option.bind_some, hstore, Option.bind_some]
        have hcopied : sp + 1 ≤ source + 1 := by lia
        rcases ih h' hcopied (by lia) (by lia) with
          ⟨data'', dp', sp', hrest, h'', hle, hle', hsp'⟩
        exact ⟨data'', dp', sp', hrest, h'', by lia, hle', hsp'⟩
      · exact ⟨data, dp, sp, if_neg hgo, h, Nat.le_refl dp, hdp, hsp⟩

/-- The look-ahead stays in the copy; a name with a value ends in front of the NUL. -/
theorem nameOnly_spec (h : Copy size data) (hdp : dp ≤ size) :
    exists last, nameOnly sep data dp = some last ∧ (last = false -> dp < size) := by
  rcases h.read hdp with ⟨c, hc⟩
  rw [nameOnly]
  simp only [hc, Option.bind_eq_bind, Option.bind_some]
  by_cases hzero : c = 0
  · exact ⟨true, if_pos hzero, fun hlast => nomatch hlast⟩
  · have hnext := h.next_le hc hzero
    rcases h.read hnext with ⟨next, hnextread⟩
    rw [if_neg hzero, hnextread]
    exact ⟨_, rfl, fun _ => hnext⟩

/-- What a round leaves behind: the copy is whole and the cursor has moved on. -/
def Advances (size dp : Nat) (r : Option (Command × Bytes × Nat)) : Prop :=
  exists cmd data' dp', r = some (cmd, data', dp') ∧ Copy size data' ∧ dp < dp'

theorem deleteName_spec (h : Copy size data) {name : Nat} (hname : name ≤ dp)
    (hdp : dp ≤ size) : Advances size dp (deleteName data name dp) := by
  rcases h.read hdp with ⟨c, hc⟩
  have hequals : exists data' dp', (if c = 61 then
        (store data dp 0).map fun data => (data, dp + 1)
      else some (data, dp)) = some (data', dp') ∧
      Copy size data' ∧ dp ≤ dp' ∧ dp' ≤ size := by
    split
    · rename_i heq
      have hlt := h.next_le hc (by rw [heq]; decide)
      rcases h.store (i := dp) (c := 0) (.inl hlt) with ⟨data', hstore, h'⟩
      exact ⟨data', dp + 1, by rw [hstore]; rfl, h', by lia, hlt⟩
    · exact ⟨data, dp, rfl, h, Nat.le_refl dp, hdp⟩
  rcases hequals with ⟨data1, dp1, heq, h1, hle, hsize⟩
  rcases h1.store (i := dp1) (c := 0) (.inr ⟨hsize, rfl⟩) with ⟨data2, hstore, h2⟩
  rcases stringAt_spec h2 (i := name) (by lia) with ⟨key, hkey⟩
  refine ⟨.delete key, data2, dp1 + 1, ?_, h2, by lia⟩
  simp only [deleteName, hc, heq, hstore, hkey, Option.bind_eq_bind, Option.bind_some]

theorem enterName_spec (h : Copy size data) {name : Nat} (hname : name ≤ dp)
    (hdp : dp < size) : Advances size dp (enterName sep data name dp) := by
  rcases h.store (i := dp) (c := 0) (.inl hdp) with ⟨data1, hstore1, h1⟩
  have hfuel : size < dp + 1 + (data1.length + 1) := by
    rw [h1.length]
    lia
  rcases valueLoop_spec sep h1 (Nat.le_refl (dp + 1)) (by lia) hfuel with
    ⟨data2, dp2, sp2, hvalue, h2, hle, hsize, hsp⟩
  rcases h2.store (i := sp2) (c := 0) (.inr ⟨by lia, rfl⟩) with ⟨data3, hstore3, h3⟩
  rcases h3.read (i := name) (by lia) with ⟨c, hc⟩
  rcases stringAt_spec h3 (i := name) (by lia) with ⟨key, hkey⟩
  rcases stringAt_spec h3 (i := dp + 1) (by lia) with ⟨text, htext⟩
  unfold Advances
  simp only [enterName, hstore1, hvalue, hstore3, hc, hkey, htext, Option.bind_eq_bind,
    Option.bind_some]
  split
  · exact ⟨.emptyName, data3, dp2 + 1, rfl, h3, by lia⟩
  · exact ⟨.enter key text, data3, dp2 + 1, rfl, h3, by lia⟩

theorem Advances.mono {r : Option (Command × Bytes × Nat)} {dp' : Nat}
    (h : Advances size dp' r) (hle : dp ≤ dp') : Advances size dp r := by
  rcases h with ⟨cmd, data', dp'', hr, h', hlt⟩
  exact ⟨cmd, data', dp'', hr, h', by lia⟩

theorem parseRound_spec (h : Copy size data) (hdp : dp ≤ size) :
    Advances size dp (parseRound sep data dp) := by
  rcases scanWhile_whole h (p := isBlank) (by decide) hdp with ⟨start, hstart, hle, hsize⟩
  rcases h.read hsize with ⟨c, hc⟩
  rw [parseRound]
  simp only [hstart, hc, Option.bind_eq_bind, Option.bind_some]
  by_cases hcomment : c = 35
  · rcases scanWhile_whole h (p := fun c => c != 0 && c != sep) (by simp) hsize with
      ⟨stop, hstop, hle', _⟩
    rw [if_pos hcomment, hstop]
    exact ⟨.comment, data, stop + 1, rfl, h, by lia⟩
  · rcases scanWhile_whole h (p := parseName sep) (by simp [parseName]) hsize with
      ⟨stop, hstop, hle', hsize'⟩
    rcases nameOnly_spec sep h hsize' with ⟨last, hlast, hvalue⟩
    rw [if_neg hcomment]
    simp only [hstop, hlast, Option.bind_some]
    split
    · exact (deleteName_spec h hle' hsize').mono (by lia)
    · rename_i hfalse
      exact (enterName_spec sep h hle' (hvalue (by simpa using hfalse))).mono (by lia)

theorem parseLoop_spec (h : Copy size data) {limit fuel : Nat} (hlimit : limit ≤ size)
    (hdp : dp ≤ size) (hfuel : size < dp + fuel) :
    exists cmds, parseLoop sep limit fuel data dp = some cmds := by
  induction fuel generalizing data dp with
  | zero => lia
  | succ fuel ih =>
      rcases parseRound_spec sep h hdp with ⟨cmd, data', dp', hround, h', hlt⟩
      rw [parseLoop]
      simp only [hround, Option.bind_eq_bind, Option.bind_some]
      by_cases hempty : cmd = .emptyName
      · exact ⟨[cmd], if_pos hempty⟩
      · rw [if_neg hempty]
        by_cases hdp' : dp' < limit
        · rcases h'.read (i := dp') (by lia) with ⟨c, hc⟩
          rw [if_pos hdp', hc, Option.map_some, Option.bind_some]
          split
          · rcases ih h' (Nat.le_of_lt (Nat.lt_of_lt_of_le hdp' hlimit)) (by lia) with ⟨cmds, hcmds⟩
            exact ⟨cmd :: cmds, by rw [hcmds]; rfl⟩
          · exact ⟨[cmd], rfl⟩
        · exact ⟨[cmd], by rw [if_neg hdp']; rfl⟩

end

/-- For every text, separator and setting of `crlf_is_lf` the parse loop ends, and all
accesses on the way are to the copy of the text and the NUL behind it. -/
theorem parseCopy_inside (sep : UInt8) (crlfIsLf : Bool) (env : Bytes) :
    exists cmds, parseCopy sep crlfIsLf env = some cmds := by
  have hcrlf : exists data ignored, (if crlfIsLf then
        crlfLoop env.length (env.length + 1) (env ++ [0]) 0 0
      else some (env ++ [0], 0)) = some (data, ignored) ∧ Copy env.length data := by
    split
    · exact crlfLoop_spec (copy_append env) (Nat.le_refl 0) (Nat.zero_le _) (by lia)
    · exact ⟨env ++ [0], 0, rfl, copy_append env⟩
  rcases hcrlf with ⟨data, ignored, heq, h⟩
  unfold parseCopy
  simp only [heq, Option.bind_eq_bind, Option.bind_some]
  split
  · exact ⟨[], rfl⟩
  · exact parseLoop_spec sep h (by lia) (by lia) (by lia)

/-- An entry that ends in a backslash, and a comment without an end. -/
example : parseCopy 10 true (str "a=b\\") = some [.enter (str "a") (str "b\\")] ∧
    parseCopy 10 false (str "x=1\n#") = some [.enter (str "x") (str "1"), .comment] := by
  decide +kernel

end Env
end Hlk7621
