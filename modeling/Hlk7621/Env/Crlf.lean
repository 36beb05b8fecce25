import Hlk7621.Env.Commands

/-!
# Import of texts with carriage returns

With `crlf_is_lf`, `himport_r` removes the carriage returns in front of line feeds in
place and takes their number off the size.  The NUL stays where it was, behind the
bytes that the text has left behind; an entry without a line feed is read up to it.
-/

namespace Hlk7621
namespace Env

/-!
## The code
-/

def removeCrs : Bytes -> Bytes
  | [] => []
  | c :: rest =>
      if c = 13 ∧ rest.head? = some 10 then removeCrs rest else c :: removeCrs rest

/-- The buffer behind the loop, with its NUL, and `ignored_crs`.  The loop ends at a
NUL. -/
def squeeze (env : Bytes) : Bytes × Nat :=
  let front := env.takeWhile fun c => c != 0
  let kept := removeCrs front
  (kept ++ (env ++ [0]).drop kept.length, front.length - kept.length)

/-- The parse loop over a buffer in which the data ends `ignored` bytes in front of
the last NUL. -/
def himportLoopTo (sep : UInt8) (ignored : Nat) : Nat -> Bytes -> Htab -> Option (Nat × Htab)
  | 0, _, _ => none
  | fuel + 1, dp, htab =>
      let r := parseEntry sep dp
      match r.1.apply htab with
      | none => none
      | some htab =>
          if r.1 = .emptyName then some (0, htab)
          else if ignored + 2 ≤ r.2.length ∧ r.2.headD 0 ≠ 0 then
            himportLoopTo sep ignored fuel r.2 htab
          else some (1, htab)

/-- `himport_r` with `crlf_is_lf`. -/
def himportCrlfR (cfg : Config) (noclear : Bool) (table : Option Htab) (env : Bytes)
    (sep : UInt8) : Option (Nat × Htab) :=
  let htab := importTable cfg noclear table env.length
  if env = [] then some (1, htab)
  else himportLoopTo sep (squeeze env).2 (env.length + 1) (squeeze env).1 htab

theorem himportLoopTo_zero (sep : UInt8) (fuel : Nat) (dp : Bytes) (htab : Htab) :
    himportLoopTo sep 0 fuel dp htab = himportLoop sep fuel dp htab := by
  induction fuel generalizing dp htab with
  | zero => rfl
  | succ fuel ih =>
      rw [himportLoopTo, himportLoop]
      cases (parseEntry sep dp).1.apply htab with
      | none => rfl
      | some htab => simp only [ih, Nat.zero_add]

theorem removeCrs_length (env : Bytes) : (removeCrs env).length ≤ env.length := by
  induction env with
  | nil => exact Nat.le_refl 0
  | cons c rest ih =>
      unfold removeCrs
      split
      · exact Nat.le_succ_of_le ih
      · exact Nat.succ_le_succ ih

theorem removeCrs_sublist (env : Bytes) : (removeCrs env).Sublist env := by
  induction env with
  | nil => exact List.Sublist.refl []
  | cons c rest ih =>
      unfold removeCrs
      split
      · exact ih.cons c
      · exact ih.cons_cons c

theorem removeCrs_ne_nil {env : Bytes} (henv : env ≠ []) : removeCrs env ≠ [] := by
  induction env with
  | nil => exact absurd rfl henv
  | cons c rest ih =>
      unfold removeCrs
      split
      · rename_i h
        exact ih (fun hnil => by simp [hnil] at h)
      · exact List.cons_ne_nil _ _

theorem squeeze_text {env : Bytes} (hnul : 0 ∉ env) :
    squeeze env = (removeCrs env ++ (env.drop (removeCrs env).length ++ [0]),
      env.length - (removeCrs env).length) := by
  have hfront : env.takeWhile (fun c => c != 0) = env := by
    rw [List.takeWhile_eq_self_iff]
    intro c hc
    simpa using fun h0 : c = 0 => hnul (h0 ▸ hc)
  unfold squeeze
  dsimp only
  rw [hfront, List.drop_append_of_le_length (removeCrs_length env)]

/-!
## Entries with an end
-/

theorem parseValue_lt {w : Bytes} (sep : UInt8) (hw : w ≠ []) :
    (parseValue sep w).2.length < w.length := by
  cases w with
  | nil => exact absurd rfl hw
  | cons c w =>
      unfold parseValue
      split
      · exact Nat.lt_succ_self _
      · split
        · cases w with
          | nil => exact Nat.zero_lt_succ _
          | cons c' w =>
              have hrest := parseValue_length sep w
              dsimp only
              split
              · simp only [List.length_cons]
                lia
              · simp only [List.length_cons]
                lia
        · exact Nat.lt_succ_of_le (parseValue_length sep w)

/-- What is read from a text with others behind it: the same from all of them, or
more than the text. -/
def Local {α : Type} (read : Bytes -> α × Bytes) (u : Bytes) : Prop :=
  (exists a rest, forall w, read (u ++ w) = (a, rest ++ w)) ∨
    forall w, w ≠ [] -> (read (u ++ w)).2.length < w.length

theorem parseValue_local {u : Bytes} (hu : 0 ∉ u) : Local (parseValue 10) u := by
  have hsep : GoodSep 10 := ⟨by decide, by decide⟩
  refine text_induction (P := Local (parseValue 10)) ?_ ?_ ?_ ?_ u hu
  · exact Or.inr fun w hw => parseValue_lt 10 hw
  · refine Or.inr fun w hw => ?_
    cases w with
    | nil => exact absurd rfl hw
    | cons c w =>
        have hrest := parseValue_length 10 w
        rw [List.singleton_append]
        by_cases h0 : c = 0
        · rw [h0, parseValue_last hsep]
          exact Nat.lt_succ_self _
        · rw [parseValue_pair hsep h0]
          exact Nat.lt_succ_of_le hrest
  · intro c text h0 h92 ih
    by_cases hc : c = 10
    · exact Or.inl ⟨[], text, fun w => by rw [List.cons_append, parseValue_end (Or.inr hc)]⟩
    · rcases ih with ⟨v, rest, ih⟩ | ih
      · refine Or.inl ⟨c :: v, rest, fun w => ?_⟩
        rw [List.cons_append, parseValue_plain h0 hc h92, ih]
      · refine Or.inr fun w hw => ?_
        rw [List.cons_append, parseValue_plain h0 hc h92]
        exact ih w hw
  · intro c text h0 ih
    rcases ih with ⟨v, rest, ih⟩ | ih
    · refine Or.inl ⟨c :: v, rest, fun w => ?_⟩
      rw [List.cons_append, List.cons_append, parseValue_pair hsep h0, ih]
    · refine Or.inr fun w hw => ?_
      rw [List.cons_append, List.cons_append, parseValue_pair hsep h0]
      exact ih w hw

theorem comment_local {c : UInt8} {u : Bytes} (hhash : c = 35) :
    Local (parseEntry 10) (c :: u) := by
  subst hhash
  have hread : forall w, parseEntry 10 (35 :: u ++ w) =
      (.comment, ((35 :: u ++ w).dropWhile fun c => c != 0 && c != 10).drop 1) := fun w => rfl
  by_cases hend : (35 :: u).dropWhile (fun c => c != 0 && c != 10) = []
  · refine Or.inr fun w hw => ?_
    have hpos := List.length_pos_iff.mpr hw
    have hle := length_dropWhile_le (fun c => c != 0 && c != 10) w
    rw [hread, List.dropWhile_append, if_pos (List.isEmpty_iff.mpr hend), List.length_drop]
    lia
  · refine Or.inl ⟨.comment, ((35 :: u).dropWhile fun c => c != 0 && c != 10).drop 1,
      fun w => ?_⟩
    have hpos := List.length_pos_iff.mpr hend
    rw [hread, List.dropWhile_append, if_neg (fun h => hend (List.isEmpty_iff.mp h)),
      List.drop_append_of_le_length hpos]

theorem cutName_local {u : Bytes} (hfirst : forall c, u.head? = some c ->
    isBlank c = false ∧ c ≠ 35) (hne : u ≠ [])
    (hname : u.dropWhile (parseName 10) = []) {w : Bytes} (hw : w ≠ []) :
    (parseEntry 10 (u ++ w)).2.length < w.length := by
  have hpos := List.length_pos_iff.mpr hw
  have hle := length_dropWhile_le (parseName 10) w
  have hblank : (u ++ w).dropWhile isBlank = u ++ w := by
    cases u with
    | nil => exact absurd rfl hne
    | cons c u => rw [List.cons_append, List.dropWhile_cons, (hfirst c rfl).left]; rfl
  have hcomment : (u ++ w).head? ≠ some 35 := by
    cases u with
    | nil => exact absurd rfl hne
    | cons c u => exact fun h => (hfirst c rfl).right (Option.some.inj h)
  have hrest : (u ++ w).dropWhile (parseName 10) = w.dropWhile (parseName 10) := by
    rw [List.dropWhile_append, if_pos (List.isEmpty_iff.mpr hname)]
  unfold parseEntry
  rw [hblank]
  dsimp only
  rw [if_neg hcomment, hrest]
  have hvalue := parseValue_length 10 ((w.dropWhile (parseName 10)).drop 1)
  rw [List.length_drop] at hvalue
  split
  · dsimp only
    split <;> rw [List.length_drop] <;> lia
  · dsimp only
    lia

theorem name_local {name b : Bytes} {t : UInt8} (hnul : 0 ∉ name ++ t :: b)
    (hname : forall c, c ∈ name -> parseName 10 c = true) (ht : parseName 10 t = false)
    (hfirst : forall c, (name ++ t :: b).head? = some c -> isBlank c = false ∧ c ≠ 35) :
    Local (parseEntry 10) (name ++ t :: b) := by
  simp only [List.mem_append, List.mem_cons, not_or] at hnul
  have hchars : forall c, c ∈ name -> c ≠ 0 ∧ c ≠ 61 ∧ c ≠ 10 := by
    intro c hc
    have h := hname c hc
    simp only [parseName, Bool.and_eq_true, bne_iff_ne, ne_eq] at h
    exact ⟨h.1.2, h.1.1, h.2⟩
  have hfirst' : forall w c, (name ++ t :: (b ++ w)).head? = some c ->
      isBlank c = false ∧ c ≠ 35 := by
    intro w c hc
    refine hfirst c ?_
    cases name with
    | nil => exact hc
    | cons _ _ => exact hc
  have hsplit : forall w, name ++ t :: b ++ w = name ++ t :: (b ++ w) := fun w => by simp
  have hread := fun w => parseEntry_name 10 name t (b ++ w) hchars (hfirst' w) ht
  have ht' : t = 61 ∨ t = 10 := by
    have h0 : t ≠ 0 := Ne.symm hnul.right.left
    by_cases h61 : t = 61
    · exact Or.inl h61
    · simpa [parseName, h0, h61] using ht
  rcases ht' with rfl | rfl
  · cases b with
    | nil =>
        refine Or.inr fun w hw => ?_
        have hpos := List.length_pos_iff.mpr hw
        rw [hsplit, hread, List.nil_append]
        split
        · rw [if_pos rfl, List.length_drop]
          lia
        · exact parseValue_lt 10 hw
    | cons c b =>
        have hc : c ≠ 0 := fun h => hnul.right.right (by simp [h])
        by_cases hend : c = 10
        · refine Or.inl ⟨.delete name, b, fun w => ?_⟩
          rw [hsplit, hread, List.cons_append, List.headD_cons,
            if_pos (Or.inr (Or.inr (Or.inr hend))), if_pos rfl]
          rfl
        · have hvalue : forall w, parseEntry 10 (name ++ 61 :: c :: b ++ w) =
              (if name = [] then .emptyName else .enter name (parseValue 10 (c :: b ++ w)).1,
                (parseValue 10 (c :: b ++ w)).2) := by
            intro w
            rw [hsplit, hread, if_neg]
            rintro (h | h | h | h)
            · cases h
            · exact hc h
            · cases h
            · exact hend h
          rcases parseValue_local hnul.right.right with ⟨v, rest, hl⟩ | hl
          · refine Or.inl ⟨if name = [] then .emptyName else .enter name v, rest, fun w => ?_⟩
            rw [hvalue, hl]
          · refine Or.inr fun w hw => ?_
            rw [hvalue]
            exact hl w hw
  · refine Or.inl ⟨.delete name, b, fun w => ?_⟩
    rw [hsplit, hread, if_pos (Or.inr (Or.inr (Or.inl rfl))), if_neg (by decide)]

theorem parseEntry_local {u : Bytes} (hu : 0 ∉ u) : Local (parseEntry 10) u := by
  have hskip : forall w, u.dropWhile isBlank ≠ [] ->
      parseEntry 10 (u ++ w) = parseEntry 10 (u.dropWhile isBlank ++ w) := by
    intro w hne
    rw [parseEntry_dropWhile, List.dropWhile_append,
      if_neg (fun h => hne (List.isEmpty_iff.mp h))]
  by_cases hblank : u.dropWhile isBlank = []
  · refine Or.inr fun w hw => ?_
    rw [parseEntry_dropWhile, List.dropWhile_append, if_pos (List.isEmpty_iff.mpr hblank),
      <- parseEntry_dropWhile]
    exact parseEntry_length 10 hw
  · have hhead := List.head?_dropWhile_not isBlank u
    have hnul : 0 ∉ u.dropWhile isBlank := fun h => hu ((List.dropWhile_sublist _).subset h)
    suffices hl : Local (parseEntry 10) (u.dropWhile isBlank) by
      rcases hl with ⟨cmd, rest, hl⟩ | hl
      · exact Or.inl ⟨cmd, rest, fun w => by rw [hskip w hblank, hl]⟩
      · exact Or.inr fun w hw => by rw [hskip w hblank]; exact hl w hw
    generalize u.dropWhile isBlank = v at hblank hhead hnul
    by_cases hhash : v.head? = some 35
    · cases v with
      | nil => exact absurd rfl hblank
      | cons c v => exact comment_local (Option.some.inj hhash)
    · have hfirst : forall c, v.head? = some c -> isBlank c = false ∧ c ≠ 35 := by
        intro c hc
        rw [hc] at hhead hhash
        exact ⟨by simpa using hhead, fun h => hhash (by rw [h])⟩
      cases hrest : v.dropWhile (parseName 10) with
      | nil => exact Or.inr fun w hw => cutName_local hfirst hblank hrest hw
      | cons t b =>
          have hsplit : v.takeWhile (parseName 10) ++ t :: b = v := by
            rw [<- hrest]
            exact List.takeWhile_append_dropWhile
          have ht : parseName 10 t = false := by
            have h := List.head?_dropWhile_not (parseName 10) v
            rw [hrest] at h
            simpa using h
          rw [<- hsplit]
          refine name_local (by rwa [hsplit]) (fun c hc => List.mem_takeWhile_imp hc) ht ?_
          rw [hsplit]
          exact hfirst

theorem parseValue_suffix (sep : UInt8) (text : Bytes) : (parseValue sep text).2 <:+ text := by
  fun_induction parseValue sep text with
  | case1 => exact List.suffix_refl []
  | case2 c rest h => exact List.suffix_cons c rest
  | case3 h => exact List.suffix_cons _ _
  | case4 c rest _ _ _ ih =>
      exact ih.trans ((List.suffix_cons c rest).trans (List.suffix_cons _ _))
  | case5 c rest => exact (List.suffix_cons c rest).trans (List.suffix_cons _ _)
  | case6 c rest _ _ _ ih => exact ih.trans (List.suffix_cons c rest)

theorem parseEntry_suffix (sep : UInt8) (dp : Bytes) : (parseEntry sep dp).2 <:+ dp := by
  have hblank := List.dropWhile_suffix (l := dp) isBlank
  have hdrop : forall (p : UInt8 -> Bool) n,
      ((dp.dropWhile isBlank).dropWhile p).drop n <:+ dp := fun p n =>
    (List.drop_suffix n _).trans ((List.dropWhile_suffix p).trans hblank)
  unfold parseEntry
  dsimp only
  split
  · exact hdrop _ 1
  · split
    · dsimp only
      split
      · exact hdrop _ 2
      · exact hdrop _ 1
    · exact (parseValue_suffix sep _).trans (hdrop _ 1)

/-!
## The lines of a text
-/

/-- The commands of the entries that end in the text, up to an empty name, and the
text of the entry that does not. -/
def readLines : Nat -> Bytes -> List Command × Bytes
  | 0, u => ([], u)
  | fuel + 1, u =>
      let r := parseEntry 10 (u ++ [0])
      if r.2 = [] then ([], u)
      else if r.1 = .emptyName ∨ r.2.length = 1 then ([r.1], [])
      else
        let next := readLines fuel r.2.dropLast
        (r.1 :: next.1, next.2)

/-- The command of an entry without an end that is read with `w` behind it. -/
def lastCommand (line w : Bytes) : Command :=
  if line = [] then .comment else (parseEntry 10 (line ++ w)).1

/-- An import executes the commands of the lines, and the last entry together with
what is behind the text. -/
theorem himportLoopTo_lines {ignored fuel k : Nat} {u w : Bytes} (hu : 0 ∉ u) (hne : u ≠ [])
    (hw : w.length = ignored + 1) (hfuel : u.length ≤ fuel) (hk : u.length ≤ k)
    (htab : Htab) :
    (himportLoopTo 10 ignored fuel (u ++ w) htab).map (·.2) =
      (applyAll htab (readLines k u).1).bind (lastCommand (readLines k u).2 w).apply := by
  have hpos := List.length_pos_iff.mpr hne
  have hwne : w ≠ [] := List.length_pos_iff.mp (by lia)
  induction fuel generalizing k u htab with
  | zero => lia
  | succ fuel ih =>
      cases k with
      | zero => lia
      | succ k =>
          rw [himportLoopTo, readLines]
          rcases parseEntry_local hu with ⟨cmd, rest, hread⟩ | hlong
          · -- the entry ends in the text
            have hend := hread [0]
            have hsuffix : rest <:+ u := by
              rcases parseEntry_suffix 10 (u ++ [0]) with ⟨p, hp⟩
              rw [hend, <- List.append_assoc] at hp
              exact ⟨p, List.append_cancel_right hp⟩
            have hshort := parseEntry_length 10 (show u ++ [0] ≠ [] by simp)
            rw [hend, List.length_append, List.length_append] at hshort
            have hcheck : ignored + 2 ≤ (rest ++ w).length ∧ (rest ++ w).headD 0 ≠ 0 <->
                rest ≠ [] := by
              cases rest with
              | nil => simp [hw]
              | cons c rest =>
                  have hc : c ≠ 0 := fun h => hu (hsuffix.subset (by simp [h]))
                  simp [hw, hc]
            rw [hread, hend]
            dsimp only
            rw [if_neg (by simp), List.dropLast_concat]
            cases happly : cmd.apply htab with
            | none =>
                dsimp only
                split
                · rw [applyAll_cons, happly]
                  rfl
                · rw [applyAll_cons, happly]
                  rfl
            | some htab' =>
                dsimp only
                by_cases hempty : cmd = .emptyName
                · rw [if_pos hempty, if_pos (Or.inl hempty), applyAll_cons, happly]
                  rfl
                · rw [if_neg hempty]
                  by_cases hrest : rest = []
                  · rw [if_neg (fun h => hcheck.mp h hrest), if_pos (Or.inr (by simp [hrest])),
                      applyAll_cons, happly]
                    rfl
                  · have hrpos := List.length_pos_iff.mpr hrest
                    rw [if_pos (hcheck.mpr hrest), if_neg, applyAll_cons, happly,
                      ih (fun h => hu (hsuffix.subset h)) hrest (by lia) (k := k) (by lia)
                        htab' hrpos]
                    · rfl
                    · rintro (h | h)
                      · exact hempty h
                      · rw [List.length_append, List.length_singleton] at h
                        lia
          · -- the entry is read beyond the text
            have hnil : (parseEntry 10 (u ++ [0])).2 = [] := by
              have h := hlong [0] (by simp)
              simp only [List.length_cons, List.length_nil] at h
              exact List.length_eq_zero_iff.mp (by lia)
            have hover := hlong w hwne
            dsimp only
            rw [if_pos hnil]
            show _ = (some htab).bind (lastCommand u w).apply
            rw [Option.bind_some, lastCommand, if_neg hne]
            cases (parseEntry 10 (u ++ w)).1.apply htab with
            | none => rfl
            | some htab' =>
                dsimp only
                split
                · rfl
                · rw [if_neg (by lia)]
                  rfl

/-!
## Both imports
-/

def leftOver (env : Bytes) : Bytes := env.drop (removeCrs env).length

/-- The entry without an end, if there is one, has the same effect with the bytes
behind it as alone. -/
def LastEntryAlike (start : Htab) (env : Bytes) : Prop :=
  let lines := readLines (removeCrs env).length (removeCrs env)
  exists htab, applyAll start lines.1 = some htab ∧
    (lastCommand lines.2 (leftOver env ++ [0]) = lastCommand lines.2 [0] ∨
      Idle htab (lastCommand lines.2 (leftOver env ++ [0])) ∧
        Idle htab (lastCommand lines.2 [0]))

/-- The size of the table that an import fills decides which of two tables it is. -/
theorem importTable_eq {cfg : Config} {noclear : Bool} {table : Option Htab} {size size' : Nat}
    (h : (importTable cfg noclear table size).size = (importTable cfg noclear table size').size) :
    importTable cfg noclear table size = importTable cfg noclear table size' := by
  unfold importTable at h ⊢
  cases hkept : (if noclear then table else none) with
  | some htab => rfl
  | none =>
      rw [hkept] at h
      dsimp only [hcreateR] at h ⊢
      rw [h]

section

variable {cfg : Config} {noclear : Bool} {table : Option Htab} {t : Bytes}

theorem himportCrlfR_state (hnul : 0 ∉ t) :
    (himportCrlfR cfg noclear table t 10).map (·.2) =
      (applyAll (importTable cfg noclear table t.length)
        (readLines (removeCrs t).length (removeCrs t)).1).bind
        (lastCommand (readLines (removeCrs t).length (removeCrs t)).2
          (leftOver t ++ [0])).apply := by
  unfold himportCrlfR
  dsimp only
  by_cases ht : t = []
  · subst ht
    rfl
  · have hle := removeCrs_length t
    rw [if_neg ht, squeeze_text hnul]
    exact himportLoopTo_lines (fun h => hnul ((removeCrs_sublist t).subset h))
      (removeCrs_ne_nil ht) (by simp) (by lia) (Nat.le_refl _) _

theorem himportR_state {u : Bytes} (hnul : 0 ∉ u) :
    (himportR cfg noclear table u 10).map (·.2) =
      (applyAll (importTable cfg noclear table u.length) (readLines u.length u).1).bind
        (lastCommand (readLines u.length u).2 [0]).apply := by
  unfold himportR himportInto
  by_cases hu : u = []
  · subst hu
    rfl
  · rw [if_neg hu, <- himportLoopTo_zero]
    exact himportLoopTo_lines hnul hu rfl (Nat.le_succ _) (Nat.le_refl _) _

end

/-- For a text without a NUL, the import that takes CRLF for LF leaves the same table
as the import of the text without the carriage returns exactly if both fill tables
of the same size and the last entry, if it has no line feed, has the same effect
with the bytes that the text left behind it. -/
theorem crlf_import_same_iff (cfg : Config) (noclear : Bool) (table : Option Htab) (t : Bytes)
    (m m' : Bytes -> Option Bytes) (hnul : 0 ∉ t)
    (hstart : Reachable (importTable cfg noclear table t.length) m)
    (hstart' : Reachable (importTable cfg noclear table (removeCrs t).length) m') :
    (himportCrlfR cfg noclear table t 10).map (·.2) =
        (himportR cfg noclear table (removeCrs t) 10).map (·.2) <->
      (importTable cfg noclear table t.length).size =
          (importTable cfg noclear table (removeCrs t).length).size ∧
        LastEntryAlike (importTable cfg noclear table t.length) t := by
  rw [himportCrlfR_state hnul,
    himportR_state (fun h => hnul ((removeCrs_sublist t).subset h))]
  unfold LastEntryAlike
  dsimp only
  generalize readLines (removeCrs t).length (removeCrs t) = lines
  rcases hstart.spec with ⟨hw, hm⟩
  rcases hstart'.spec with ⟨hw', hm'⟩
  rcases applyAll_spec hw hm lines.1 with ⟨htab, m1, hall, hw1, hm1, hsize⟩
  rcases applyAll_spec hw' hm' lines.1 with ⟨htab', m1', hall', hw1', hm1', hsize'⟩
  rw [hall, hall', Option.bind_some, Option.bind_some]
  have hiff := apply_eq_iff hw1 hm1 (lastCommand lines.2 (leftOver t ++ [0]))
    (lastCommand lines.2 [0])
  constructor
  · intro heq
    rcases apply_entered hw1 hm1 (lastCommand lines.2 (leftOver t ++ [0])) with
      ⟨htab2, m2, happly, he⟩
    rcases apply_entered hw1' hm1' (lastCommand lines.2 [0]) with ⟨htab2', m2', happly', he'⟩
    have hsame : (importTable cfg noclear table t.length).size =
        (importTable cfg noclear table (removeCrs t).length).size := by
      rw [happly, happly'] at heq
      cases heq
      rw [<- hsize, <- hsize', <- he.size, <- he'.size]
    refine ⟨hsame, htab, rfl, ?_⟩
    rw [importTable_eq hsame, hall'] at hall
    cases hall
    exact hiff.mp heq
  · rintro ⟨hsame, _, h1, halike⟩
    cases h1
    rw [importTable_eq hsame, hall'] at hall
    cases hall
    exact hiff.mpr halike

theorem crlf_import_same_finalNewline :
    (himportCrlfR ⟨64, 2, 512⟩ false none (str "a=1\r\n") 10).map (·.2) =
        (himportR ⟨64, 2, 512⟩ false none (removeCrs (str "a=1\r\n")) 10).map (·.2) <->
      (importTable ⟨64, 2, 512⟩ false none (str "a=1\r\n").length).size =
          (importTable ⟨64, 2, 512⟩ false none (removeCrs (str "a=1\r\n")).length).size ∧
        LastEntryAlike (importTable ⟨64, 2, 512⟩ false none (str "a=1\r\n").length)
          (str "a=1\r\n") :=
  crlf_import_same_iff _ _ _ _ _ _ (by decide) ⟨2, [], by decide, by decide, rfl⟩
    ⟨2, [], by decide, by decide, rfl⟩

/-- The last entry has no line feed: the byte that the text left behind is added to
its value. -/
theorem crlf_import_longer_value :
    ((himportCrlfR ⟨64, 2, 512⟩ false none (str "a=1\r\nb=2") 10).map (·.2)).map
        sortedEntries = some [⟨str "a", str "1"⟩, ⟨str "b", str "22"⟩] ∧
    ((himportR ⟨64, 2, 512⟩ false none (removeCrs (str "a=1\r\nb=2")) 10).map (·.2)).map
        sortedEntries = some [⟨str "a", str "1"⟩, ⟨str "b", str "2"⟩] ∧
    (himportCrlfR ⟨64, 2, 512⟩ false none (str "a=1\r\nb=2") 10).map (·.2) ≠
      (himportR ⟨64, 2, 512⟩ false none (removeCrs (str "a=1\r\nb=2")) 10).map (·.2) := by
  have hcrlf : ((himportCrlfR ⟨64, 2, 512⟩ false none (str "a=1\r\nb=2") 10).map (·.2)).map
      sortedEntries = some [⟨str "a", str "1"⟩, ⟨str "b", str "22"⟩] := by decide +kernel
  have hlf : ((himportR ⟨64, 2, 512⟩ false none (removeCrs (str "a=1\r\nb=2")) 10).map
      (·.2)).map sortedEntries = some [⟨str "a", str "1"⟩, ⟨str "b", str "2"⟩] := by
    decide +kernel
  refine ⟨hcrlf, hlf, fun hsame => ?_⟩
  rw [hsame, hlf] at hcrlf
  exact absurd hcrlf (by decide)

end Env
end Hlk7621
