import Hlk7621.Env.FiniteMap
import Hlk7621.Env.Linear

/-!
# Export and import

What `hexport_r` writes for a table is read back by `himport_r` entry by entry.
The first pass of `hexport_r` does not count the escapes that the second pass
writes for a NUL separator, so the text can be longer than the buffer it was
checked against; then the end of the last value is lost.
-/

namespace Hlk7621
namespace Env

/-!
## Values
-/

section

variable {sep : UInt8}

theorem escape_cons (c : UInt8) (data : Bytes) :
    escape sep (c :: data) = (if c = sep ∨ c = 92 then [92, c] else [c]) ++ escape sep data :=
  rfl

/-- A separator that no text is escaped by and that ends no name. -/
def GoodSep (sep : UInt8) : Prop := sep ≠ 92 ∧ sep ≠ 61

theorem parseValue_end {t : UInt8} (ht : t = 0 ∨ t = sep) (rest : Bytes) :
    parseValue sep (t :: rest) = ([], rest) := by
  cases rest <;> simp [parseValue, ht]

theorem parseValue_plain {c : UInt8} (h0 : c ≠ 0) (hs : c ≠ sep) (h92 : c ≠ 92)
    (rest : Bytes) :
    parseValue sep (c :: rest) = (c :: (parseValue sep rest).1, (parseValue sep rest).2) := by
  cases rest <;> simp [parseValue, h0, hs, h92]

theorem parseValue_pair (hsep : GoodSep sep) {c : UInt8} (h0 : c ≠ 0) (rest : Bytes) :
    parseValue sep (92 :: c :: rest) =
      (c :: (parseValue sep rest).1, (parseValue sep rest).2) := by
  simp [parseValue, hsep.left.symm, h0]

theorem parseValue_last (hsep : GoodSep sep) (rest : Bytes) :
    parseValue sep (92 :: 0 :: rest) = ([92], rest) := by
  simp [parseValue, hsep.left.symm]

theorem parseValue_escape (hsep : GoodSep sep) {data : Bytes} (hdata : 0 ∉ data)
    {t : UInt8} (ht : t = 0 ∨ t = sep) (rest : Bytes) :
    parseValue sep (escape sep data ++ t :: rest) = (data, rest) := by
  induction data with
  | nil => exact parseValue_end ht rest
  | cons c data ih =>
      have hc : c ≠ 0 := fun h => hdata (by simp [h])
      have ih' := ih (fun h => hdata (List.mem_cons_of_mem _ h))
      rw [escape_cons]
      by_cases hesc : c = sep ∨ c = 92
      · rw [if_pos hesc]
        show parseValue sep (92 :: c :: (escape sep data ++ t :: rest)) = _
        rw [parseValue_pair hsep hc, ih']
      · rw [if_neg hesc]
        simp only [not_or] at hesc
        show parseValue sep (c :: (escape sep data ++ t :: rest)) = _
        rw [parseValue_plain hc hesc.left hesc.right, ih']

theorem escape_eq_nil {data : Bytes} : escape sep data = [] <-> data = [] := by
  cases data with
  | nil => simp [escape]
  | cons c data =>
      rw [escape_cons]
      split <;> simp

/-- A value that is cut off is another one, unless only the second of two
backslashes at its end is lost. -/
theorem parseValue_cut (hsep : GoodSep sep) {data : Bytes} (hdata : 0 ∉ data) {j : Nat}
    (hj : j < (escape sep data).length) :
    exists value, parseValue sep ((escape sep data).take j ++ [0]) = (value, []) ∧
      (value = data <-> j + 1 = (escape sep data).length ∧ data.getLast? = some 92) := by
  induction data generalizing j with
  | nil => simp [escape] at hj
  | cons c data ih =>
      have hc : c ≠ 0 := fun h => hdata (by simp [h])
      have hdata' : 0 ∉ data := fun h => hdata (List.mem_cons_of_mem _ h)
      -- The cut is behind the first character: it is a cut of the rest.
      have hrest : forall (unit : Bytes) (i : Nat), escape sep (c :: data) =
          unit ++ escape sep data -> j = unit.length + i ->
          (forall rest, parseValue sep (unit ++ rest) =
            (c :: (parseValue sep rest).1, (parseValue sep rest).2)) ->
          exists value, parseValue sep ((escape sep (c :: data)).take j ++ [0]) =
              (value, []) ∧
            (value = c :: data <-> j + 1 = (escape sep (c :: data)).length ∧
              (c :: data).getLast? = some 92) := by
        intro unit i hunit hji hparse
        rw [hunit, List.length_append] at hj
        rcases ih hdata' (j := i) (by lia) with ⟨value, hvalue, hiff⟩
        refine ⟨c :: value, ?_, ?_⟩
        · rw [hunit, hji, List.take_length_add_append, List.append_assoc, hparse, hvalue]
        · rw [hunit, List.length_append, hji]
          have hne : data ≠ [] := by
            rintro rfl
            simp [escape] at hj
            lia
          rw [List.getLast?_cons_of_ne_nil hne]
          simp only [List.cons.injEq, true_and, hiff]
          lia
      by_cases hesc : c = sep ∨ c = 92
      · have hunit : escape sep (c :: data) = [92, c] ++ escape sep data := by
          rw [escape_cons, if_pos hesc]
        rcases j with _ | _ | i
        · refine ⟨[], by simp [parseValue], ?_⟩
          rw [hunit]
          simp
        · refine ⟨[92], ?_, ?_⟩
          · rw [hunit]
            exact parseValue_last hsep []
          · rw [hunit]
            simp only [List.cons.injEq, List.length_append, List.length_cons, List.length_nil]
            refine ⟨?_, ?_⟩
            · rintro ⟨rfl, rfl⟩
              simp [escape]
            · rintro ⟨hlen, hlast⟩
              have hzero : (escape sep data).length = 0 := by lia
              have hnil : data = [] := escape_eq_nil.mp (List.length_eq_zero_iff.mp hzero)
              subst hnil
              exact ⟨(Option.some.inj hlast).symm, rfl⟩
        · exact hrest [92, c] i hunit (by simp; lia) (fun rest => parseValue_pair hsep hc rest)
      · have hunit : escape sep (c :: data) = [c] ++ escape sep data := by
          rw [escape_cons, if_neg hesc]
        simp only [not_or] at hesc
        rcases j with _ | i
        · refine ⟨[], by simp [parseValue], ?_⟩
          rw [hunit]
          refine ⟨fun h => absurd h (by simp), ?_⟩
          rintro ⟨hlen, hlast⟩
          have hzero : (escape sep data).length = 0 := by simpa using hlen
          have hnil : data = [] := escape_eq_nil.mp (List.length_eq_zero_iff.mp hzero)
          subst hnil
          exact absurd (Option.some.inj hlast) hesc.right
        · exact hrest [c] i hunit (by simp; lia)
            (fun rest => parseValue_plain hc hesc.left hesc.right rest)

/-!
## Entries
-/

structure GoodKey (sep : UInt8) (key : Bytes) : Prop where
  nonempty : key ≠ []
  chars : forall c, c ∈ key -> c ≠ 0 ∧ c ≠ 61 ∧ c ≠ sep
  first : forall c, key.head? = some c -> isBlank c = false ∧ c ≠ 35

structure GoodEntry (sep : UInt8) (e : Entry) : Prop where
  key : GoodKey sep e.key
  nonempty : e.data ≠ []
  data : 0 ∉ e.data

theorem takeWhile_parseName {name : Bytes}
    (hname : forall c, c ∈ name -> c ≠ 0 ∧ c ≠ 61 ∧ c ≠ sep) {t : UInt8}
    (ht : parseName sep t = false) (tail : Bytes) :
    (name ++ t :: tail).takeWhile (parseName sep) = name ∧
      (name ++ t :: tail).dropWhile (parseName sep) = t :: tail := by
  have hall : forall c, c ∈ name -> parseName sep c = true := by
    intro c hc
    rcases hname c hc with ⟨h0, h61, hs⟩
    simp [parseName, h0, h61, hs]
  refine ⟨?_, ?_⟩
  · rw [List.takeWhile_append_of_pos hall, List.takeWhile_cons, ht]
    simp
  · rw [List.dropWhile_append_of_pos hall, List.dropWhile_cons, ht]
    simp

theorem parseEntry_name (sep : UInt8) (name : Bytes) (t : UInt8) (tail : Bytes)
    (hname : forall c, c ∈ name -> c ≠ 0 ∧ c ≠ 61 ∧ c ≠ sep)
    (hfirst : forall c, (name ++ t :: tail).head? = some c -> isBlank c = false ∧ c ≠ 35)
    (ht : parseName sep t = false) :
    parseEntry sep (name ++ t :: tail) =
      if t = 0 ∨ tail.headD 0 = 0 ∨ t = sep ∨ tail.headD 0 = sep then
        (.delete name, if t = 61 then tail.drop 1 else tail)
      else
        (if name = [] then .emptyName else .enter name (parseValue sep tail).1,
          (parseValue sep tail).2) := by
  have hdrop : (name ++ t :: tail).dropWhile isBlank = name ++ t :: tail := by
    cases hd : name ++ t :: tail with
    | nil => rfl
    | cons c rest => rw [List.dropWhile_cons, (hfirst c (by rw [hd]; rfl)).left]; simp
  have hcomment : (name ++ t :: tail).head? ≠ some 35 := fun h => (hfirst 35 h).right rfl
  rcases takeWhile_parseName hname ht tail with ⟨htake, hrest⟩
  unfold parseEntry
  rw [hdrop]
  simp only [if_neg hcomment, htake, hrest, List.headD_cons, List.drop_succ_cons,
    List.drop_zero]

theorem GoodKey.first_append {key : Bytes} (hkey : GoodKey sep key) (tail : Bytes) (c : UInt8)
    (h : (key ++ tail).head? = some c) : isBlank c = false ∧ c ≠ 35 := by
  refine hkey.first c ?_
  cases hk : key with
  | nil => exact absurd hk hkey.nonempty
  | cons b key => simpa [hk] using h

theorem headD_escape {data : Bytes} (hsep : GoodSep sep) (hne : data ≠ []) (hdata : 0 ∉ data)
    (tail : Bytes) : (escape sep data ++ tail).headD 0 ≠ 0 ∧
      (escape sep data ++ tail).headD 0 ≠ sep := by
  cases data with
  | nil => exact absurd rfl hne
  | cons c data =>
      have hc : c ≠ 0 := fun h => hdata (by simp [h])
      rw [escape_cons]
      split
      · exact ⟨show (92 : UInt8) ≠ 0 by decide, hsep.left.symm⟩
      · rename_i hesc
        simp only [not_or] at hesc
        exact ⟨hc, hesc.left⟩

theorem parseEntry_value (hsep : GoodSep sep) {key tail : Bytes} (hkey : GoodKey sep key)
    (h0 : tail.headD 0 ≠ 0) (hs : tail.headD 0 ≠ sep) :
    parseEntry sep (key ++ 61 :: tail) =
      (.enter key (parseValue sep tail).1, (parseValue sep tail).2) := by
  rw [parseEntry_name sep key 61 tail hkey.chars (hkey.first_append _) (by simp [parseName]),
    if_neg, if_neg hkey.nonempty]
  rintro (h | h | h | h)
  · cases h
  · exact h0 h
  · exact hsep.right h.symm
  · exact hs h

theorem parseEntry_text (hsep : GoodSep sep) {e : Entry} (he : GoodEntry sep e)
    (rest : Bytes) :
    parseEntry sep (entryText sep e ++ rest) = (.enter e.key e.data, rest) := by
  have hhead := headD_escape hsep he.nonempty he.data (sep :: rest)
  have htext : entryText sep e ++ rest =
      e.key ++ 61 :: (escape sep e.data ++ sep :: rest) := by
    simp [entryText]
  rw [htext, parseEntry_value hsep he.key hhead.left hhead.right,
    parseValue_escape hsep he.data (Or.inr rfl)]

theorem entryText_length (e : Entry) :
    (entryText sep e).length = e.key.length + (escape sep e.data).length + 2 := by
  simp [entryText]
  lia

def Survives (sep : UInt8) (e : Entry) (s : Nat) : Prop :=
  s + 1 = (entryText sep e).length ∨
    s + 2 = (entryText sep e).length ∧ e.data.getLast? = some 92

theorem parseEntry_cut (hsep : GoodSep sep) {e : Entry} (he : GoodEntry sep e) {s : Nat}
    (hs : s < (entryText sep e).length) :
    (exists name, parseEntry sep ((entryText sep e).take s ++ [0]) = (.delete name, []) ∧
      ¬ Survives sep e s) ∨
    exists value, parseEntry sep ((entryText sep e).take s ++ [0]) =
      (.enter e.key value, []) ∧ (value = e.data <-> Survives sep e s) := by
  have hlen : (entryText sep e).length = e.key.length + (escape sep e.data).length + 2 :=
    entryText_length e
  have hpos : 0 < (escape sep e.data).length := by
    rw [List.length_pos_iff]
    exact fun h => he.nonempty (escape_eq_nil.mp h)
  by_cases hkey : s ≤ e.key.length
  · have htake : (entryText sep e).take s = e.key.take s :=
      List.take_append_of_le_length hkey
    refine Or.inl ⟨e.key.take s, ?_, ?_⟩
    · rw [htake, parseEntry_name, if_pos (Or.inl rfl)]
      · rfl
      · exact fun c hc => he.key.chars c (List.mem_of_mem_take hc)
      · intro c hc
        cases hk : e.key.take s with
        | nil =>
            rw [hk] at hc
            cases hc
            decide
        | cons b rest =>
            refine he.key.first c ?_
            have hb : e.key.head? = some b := by
              rw [<- List.take_append_drop s e.key, hk]
              rfl
            rw [hk] at hc
            rw [hb]
            exact hc
      · simp [parseName]
    · rintro (h | ⟨h, _⟩) <;> lia
  · have hsplit : exists j, s = e.key.length + (j + 1) := ⟨s - e.key.length - 1, by lia⟩
    rcases hsplit with ⟨j, rfl⟩
    have hj : j ≤ (escape sep e.data).length := by lia
    have htake : (entryText sep e).take (e.key.length + (j + 1)) ++ [0] =
        e.key ++ 61 :: ((escape sep e.data).take j ++ [0]) := by
      unfold entryText
      rw [List.take_length_add_append, List.take_succ_cons, List.take_append_of_le_length hj]
      simp
    rw [htake]
    by_cases hfull : j = (escape sep e.data).length
    · have hhead := headD_escape hsep he.nonempty he.data [0]
      refine Or.inr ⟨e.data, ?_, ?_⟩
      · rw [hfull, List.take_length, parseEntry_value hsep he.key hhead.left hhead.right,
          parseValue_escape hsep he.data (Or.inl rfl)]
      · exact ⟨fun _ => Or.inl (by lia), fun _ => rfl⟩
    · rcases parseValue_cut hsep he.data (j := j) (by lia) with ⟨value, hvalue, hiff⟩
      have hsurvives : Survives sep e (e.key.length + (j + 1)) <->
          j + 1 = (escape sep e.data).length ∧ e.data.getLast? = some 92 := by
        unfold Survives
        rw [hlen]
        refine ⟨?_, ?_⟩
        · rintro (h | ⟨h, hlast⟩)
          · lia
          · exact ⟨by lia, hlast⟩
        · rintro ⟨h, hlast⟩
          exact Or.inr ⟨by lia, hlast⟩
      rw [hsurvives]
      rcases Nat.eq_zero_or_pos j with hzero | hjpos
      · refine Or.inl ⟨e.key, ?_, ?_⟩
        · rw [hzero, parseEntry_name sep e.key 61 _ he.key.chars (he.key.first_append _)
            (by simp [parseName]), if_pos (Or.inr (Or.inl (by simp)))]
          rfl
        · have hnil : value = [] := by
            rw [hzero] at hvalue
            simpa [parseValue] using hvalue.symm
          rw [<- hiff, hnil]
          exact he.nonempty.symm
      · refine Or.inr ⟨value, ?_, hiff⟩
        have hhead := headD_escape hsep he.nonempty he.data []
        have hsame : ((escape sep e.data).take j ++ [0]).headD 0 =
            (escape sep e.data ++ []).headD 0 := by
          cases hesc : escape sep e.data with
          | nil => simp [hesc] at hpos
          | cons b rest =>
              rw [show j = j - 1 + 1 by lia]
              rfl
        rw [parseEntry_value hsep he.key (by rw [hsame]; exact hhead.left)
          (by rw [hsame]; exact hhead.right), hvalue]

/-!
## The parse loop
-/

/-- The loop goes on with `rest` if it is neither used up nor terminated. -/
def resume (sep : UInt8) (fuel : Nat) (rest : Bytes) (htab : Htab) : Option (Nat × Htab) :=
  if 2 ≤ rest.length ∧ rest.headD 0 ≠ 0 then himportLoop sep fuel rest htab
  else some (1, htab)

/-- A table in the middle of an import: it holds the map `m` and has room for `n`
more keys. -/
structure Holds (htab : Htab) (m : Bytes -> Option Bytes) (n : Nat) : Prop where
  wf : Wf htab
  represents : Represents htab m
  room : htab.filled + n ≤ htab.size

variable {htab : Htab} {m : Bytes -> Option Bytes} {n fuel : Nat} {dp rest : Bytes}

theorem Holds.enter (hh : Holds htab m (n + 1)) (item : Entry) (hnew : m item.key = none) :
    exists htab', (Command.enter item.key item.data).apply htab = some htab' ∧
      Holds htab' (Function.update m item.key (some item.data)) n := by
  rcases hsearchR_spec hh.wf item .enter with ⟨found, hfound, hend⟩
  rcases hsearchR_enter hh.wf hh.represents item with ⟨found', hfound', hwf, hret⟩
  cases hfound.symm.trans hfound'
  have hmissing := hh.represents.missing.mpr hnew
  have hroom := hh.room
  refine ⟨found.htab, by simp [Command.apply, hfound], hwf, ?_, ?_⟩
  · rcases hret with ⟨_, _, hfull, _⟩ | ⟨_, hrep⟩
    · lia
    · exact hrep
  · cases hend with
    | found h => exact absurd h (hmissing _ _)
    | full _ hfull => lia
    | entered _ _ _ =>
        show htab.filled + 1 + n ≤ htab.size
        lia

theorem himportLoop_enter (fuel : Nat) (hh : Holds htab m (n + 1)) (item : Entry)
    (hnew : m item.key = none)
    (hparse : parseEntry sep dp = (.enter item.key item.data, rest)) :
    exists htab', Holds htab' (Function.update m item.key (some item.data)) n ∧
      himportLoop sep (fuel + 1) dp htab = resume sep fuel rest htab' := by
  rcases hh.enter item hnew with ⟨htab', happly, hh'⟩
  refine ⟨htab', hh', ?_⟩
  rw [himportLoop, hparse]
  simp [happly, resume]

theorem himportLoop_delete (fuel : Nat) (hwf : Wf htab) (hrep : Represents htab m) {name : Bytes}
    (hparse : parseEntry sep dp = (.delete name, rest)) :
    exists htab' m', Wf htab' ∧ Represents htab' m' ∧
      (forall key, m' key = m key ∨ m' key = none) ∧
      himportLoop sep (fuel + 1) dp htab = resume sep fuel rest htab' := by
  rcases hdeleteR_spec hwf hrep name with ⟨r, hr, hwf', hret⟩
  have hloop : himportLoop sep (fuel + 1) dp htab = resume sep fuel rest r.2 := by
    rw [himportLoop, hparse]
    simp [Command.apply, hr, resume]
  rcases hret with ⟨_, _, hsame⟩ | ⟨_, _, hrep'⟩
  · rw [hsame] at hloop
    exact ⟨htab, m, hwf, hrep, fun _ => Or.inl rfl, hloop⟩
  · refine ⟨r.2, _, hwf', hrep', ?_, hloop⟩
    intro key
    by_cases hkey : key = name
    · rw [hkey, Function.update_self]
      exact Or.inr rfl
    · rw [Function.update_of_ne hkey]
      exact Or.inl rfl

theorem resume_cons {c : UInt8} (hc : c ≠ 0) (hlen : 0 < rest.length) :
    resume sep fuel (c :: rest) htab = himportLoop sep fuel (c :: rest) htab := by
  unfold resume
  rw [if_pos ⟨by simp; lia, hc⟩]

theorem resume_key {key tail : Bytes} (hkey : GoodKey sep key) (htail : 0 < tail.length) :
    resume sep fuel (key ++ tail) htab = himportLoop sep fuel (key ++ tail) htab := by
  cases hk : key with
  | nil => exact absurd hk hkey.nonempty
  | cons c key =>
      refine resume_cons (hkey.chars c (by simp [hk])).left ?_
      show 0 < (key ++ tail).length
      rw [List.length_append]
      lia

def withEntries (m : Bytes -> Option Bytes) (entries : List Entry) : Bytes -> Option Bytes :=
  entries.foldl (fun m e => Function.update m e.key (some e.data)) m

theorem withEntries_other {entries : List Entry} {key : Bytes}
    (h : key ∉ entries.map (·.key)) : withEntries m entries key = m key := by
  induction entries generalizing m with
  | nil => rfl
  | cons e entries ih =>
      simp only [List.map_cons, List.mem_cons, not_or] at h
      exact (ih h.right).trans (Function.update_of_ne h.left ..)

theorem update_new {e : Entry} {entries : List Entry} (hkey : e.key ∉ entries.map (·.key))
    (hnew : forall x, x ∈ e :: entries -> m x.key = none) (x : Entry) (hx : x ∈ entries) :
    Function.update m e.key (some e.data) x.key = none := by
  rw [Function.update_of_ne]
  · exact hnew x (List.mem_cons_of_mem _ hx)
  · intro heq
    exact hkey (heq ▸ List.mem_map_of_mem hx)

theorem resume_entry (hsep : GoodSep sep) {e : Entry} (he : GoodEntry sep e)
    (hnew : m e.key = none) (hh : Holds htab m (n + 1)) (tail : Bytes) :
    exists htab', Holds htab' (Function.update m e.key (some e.data)) n ∧
      resume sep (fuel + 1) (entryText sep e ++ tail) htab = resume sep fuel tail htab' := by
  rcases himportLoop_enter fuel hh e hnew (parseEntry_text hsep he tail) with
    ⟨htab', hh', hloop⟩
  refine ⟨htab', hh', ?_⟩
  have hsplit : entryText sep e ++ tail =
      e.key ++ (61 :: (escape sep e.data ++ [sep]) ++ tail) := by
    simp [entryText]
  rw [<- hloop, hsplit, resume_key he.key (by simp)]

theorem exportText_cons (e : Entry) (entries : List Entry) :
    exportText sep (e :: entries) = entryText sep e ++ exportText sep entries := rfl

theorem resume_entries (fuel : Nat) (hsep : GoodSep sep) {entries : List Entry}
    (hgood : forall e, e ∈ entries -> GoodEntry sep e)
    (hkeys : (entries.map (·.key)).Nodup) (hnew : forall e, e ∈ entries -> m e.key = none)
    (hh : Holds htab m (n + entries.length)) (tail : Bytes) :
    exists htab', Holds htab' (withEntries m entries) n ∧
      resume sep (fuel + entries.length) (exportText sep entries ++ tail) htab =
        resume sep fuel tail htab' := by
  induction entries generalizing m htab with
  | nil => exact ⟨htab, hh, rfl⟩
  | cons e entries ih =>
      simp only [List.map_cons, List.nodup_cons] at hkeys
      rcases resume_entry hsep (hgood e List.mem_cons_self) (hnew e List.mem_cons_self)
        (n := n + entries.length) hh (exportText sep entries ++ tail) with
        ⟨htab', hh', hfirst⟩
      have hnew' := update_new hkeys.left hnew
      rcases ih (fun x hx => hgood x (List.mem_cons_of_mem _ hx)) hkeys.right hnew' hh' with
        ⟨htab'', hh'', hrest⟩
      refine ⟨htab'', hh'', ?_⟩
      rw [<- hrest, exportText_cons, List.append_assoc]
      exact hfirst

theorem resume_entryText {e : Entry} (he : GoodEntry sep e) {s : Nat} (hs : 0 < s) :
    resume sep fuel ((entryText sep e).take s ++ [0]) htab =
      himportLoop sep fuel ((entryText sep e).take s ++ [0]) htab := by
  unfold entryText
  cases hk : e.key with
  | nil => exact absurd hk he.key.nonempty
  | cons c key =>
      rw [show s = s - 1 + 1 by lia]
      exact resume_cons (he.key.chars c (by simp [hk])).left (by simp)

theorem resume_cut (fuel : Nat) (hsep : GoodSep sep) {e : Entry} (he : GoodEntry sep e)
    (hnew : m e.key = none) (hh : Holds htab m (n + 1)) {s : Nat}
    (hs : s < (entryText sep e).length) :
    exists htab' m', Wf htab' ∧ Represents htab' m' ∧
      resume sep (fuel + 1) ((entryText sep e).take s ++ [0]) htab = some (1, htab') ∧
      (Survives sep e s -> m' = Function.update m e.key (some e.data)) ∧
      (¬ Survives sep e s -> m' e.key ≠ some e.data) ∧
      forall key, key ≠ e.key -> m' key = m key ∨ m' key = none := by
  have hlen : (entryText sep e).length = e.key.length + (escape sep e.data).length + 2 :=
    entryText_length e
  have hpos : 0 < e.key.length := List.length_pos_iff.mpr he.key.nonempty
  rcases Nat.eq_zero_or_pos s with hzero | hspos
  · refine ⟨htab, m, hh.wf, hh.represents, ?_, ?_, ?_, fun _ _ => Or.inl rfl⟩
    · rw [hzero]
      simp [resume]
    · rintro (h | ⟨h, _⟩) <;> lia
    · intro _
      rw [hnew]
      simp
  · rw [resume_entryText he hspos]
    have hend : forall htab, resume sep fuel [] htab = some (1, htab) := by
      simp [resume]
    rcases parseEntry_cut hsep he hs with ⟨name, hparse, hnot⟩ | ⟨value, hparse, hiff⟩
    · rcases himportLoop_delete fuel hh.wf hh.represents hparse with
        ⟨htab', m', hwf, hrep, hkeys, hloop⟩
      refine ⟨htab', m', hwf, hrep, by rw [hloop, hend], fun h => absurd h hnot, ?_,
        fun key _ => hkeys key⟩
      intro _
      rcases hkeys e.key with hk | hk
      · rw [hk, hnew]
        simp
      · rw [hk]
        simp
    · rcases himportLoop_enter fuel hh ⟨e.key, value⟩ hnew hparse with
        ⟨htab', hh', hloop⟩
      refine ⟨htab', _, hh'.wf, hh'.represents, by rw [hloop, hend], ?_, ?_, ?_⟩
      · intro h
        rw [hiff.mpr h]
      · intro h
        simp only [Function.update_self, ne_eq, Option.some.injEq]
        exact fun heq => h (hiff.mp heq)
      · intro key hkey
        exact Or.inl (Function.update_of_ne hkey ..)

/-- A cut in the middle of the entries: keys behind it are not entered. -/
theorem resume_entries_cut (fuel : Nat) (hsep : GoodSep sep) {entries : List Entry}
    (hgood : forall e, e ∈ entries -> GoodEntry sep e)
    (hkeys : (entries.map (·.key)).Nodup) (hnew : forall e, e ∈ entries -> m e.key = none)
    (hh : Holds htab m (n + entries.length)) {s : Nat}
    (hs : s < (exportText sep entries).length) :
    exists htab' m', Wf htab' ∧ Represents htab' m' ∧
      resume sep (fuel + entries.length) ((exportText sep entries).take s ++ [0]) htab =
        some (1, htab') ∧
      forall key, key ∉ entries.map (·.key) -> m' key = m key ∨ m' key = none := by
  induction entries generalizing m htab s with
  | nil => simp [exportText] at hs
  | cons e entries ih =>
      have he := hgood e List.mem_cons_self
      have hnewe := hnew e List.mem_cons_self
      rw [exportText_cons] at hs ⊢
      simp only [List.map_cons, List.nodup_cons] at hkeys
      rcases Nat.lt_or_ge s (entryText sep e).length with hlt | hge
      · rw [List.take_append_of_le_length (Nat.le_of_lt hlt)]
        rcases resume_cut (fuel + entries.length) hsep he hnewe
          (n := n + entries.length) hh hlt with ⟨htab', m', hwf, hrep, hresume, _, _, hother⟩
        refine ⟨htab', m', hwf, hrep, hresume, ?_⟩
        intro key hkey
        simp only [List.map_cons, List.mem_cons, not_or] at hkey
        exact hother key hkey.left
      · rcases Nat.exists_eq_add_of_le hge with ⟨s', rfl⟩
        rw [List.length_append] at hs
        rw [List.take_length_add_append, List.append_assoc]
        rcases resume_entry hsep he hnewe (n := n + entries.length) hh
          ((exportText sep entries).take s' ++ [0]) with ⟨htab', hh', hfirst⟩
        rcases ih (fun x hx => hgood x (List.mem_cons_of_mem _ hx)) hkeys.right
          (update_new hkeys.left hnew) hh' (s := s') (by lia) with
          ⟨htab'', m'', hwf, hrep, hrest, hother⟩
        refine ⟨htab'', m'', hwf, hrep, ?_, ?_⟩
        · rw [<- hrest]
          exact hfirst
        · intro key hkey
          simp only [List.map_cons, List.mem_cons, not_or] at hkey
          rw [<- Function.update_of_ne hkey.left (some e.data) m]
          exact hother key hkey.right

/-!
## The entries of a table
-/

theorem Represents.ext {m' : Bytes -> Option Bytes} (h : Represents htab m)
    (h' : Represents htab m') : m = m' := by
  funext key
  apply Option.ext
  intro value
  exact (h key value).trans (h' key value).symm

theorem usedEntry_iff (hw : Wf htab) (i : Nat) (e : Entry) :
    (if (htab.table i).used > 0 then some ⟨(htab.table i).key, (htab.table i).data⟩
      else none) = some e <-> cell htab i = .live e.key e.data := by
  unfold cell
  dsimp only
  by_cases hfree : (htab.table i).used = USED_FREE
  · simp [hfree, USED_FREE]
  · by_cases hdeleted : (htab.table i).used = USED_DELETED
    · simp [hdeleted, USED_FREE, USED_DELETED]
    · have hused := hw.hashed i hfree hdeleted
      have hfirst := Finset.mem_Icc.mp (firstHash_mem hw.size (htab.table i).key)
      have hpos : (htab.table i).used > 0 := by lia
      rw [if_pos hpos, if_neg hfree, if_neg hdeleted]
      cases e with
      | mk key data => simp

theorem mem_usedEntries (hw : Wf htab) {e : Entry} :
    e ∈ usedEntries htab <-> exists s, cell htab s = .live e.key e.data := by
  unfold usedEntries
  rw [List.mem_filterMap]
  refine ⟨?_, ?_⟩
  · rintro ⟨i, _, hi⟩
    exact ⟨i, (usedEntry_iff hw i e).mp hi⟩
  · rintro ⟨i, hi⟩
    refine ⟨i, ?_, (usedEntry_iff hw i e).mpr hi⟩
    have hin := Finset.mem_Icc.mp (hw.inside i (cell_live hi).left)
    rw [List.mem_range'_1]
    lia

theorem nodup_usedEntries (hw : Wf htab) : ((usedEntries htab).map (·.key)).Nodup := by
  rw [List.Nodup, List.pairwise_map]
  unfold usedEntries
  rw [List.pairwise_filterMap]
  refine List.Pairwise.imp ?_ (List.nodup_range' (s := 1) (n := htab.size))
  intro i j hij e he e' he' hkey
  have hi := (usedEntry_iff hw i e).mp he
  have hj := (usedEntry_iff hw j e').mp he'
  rw [<- hkey] at hj
  exact hij (hw.probed.unique hi hj)

theorem sortedEntries_perm (htab : Htab) : (sortedEntries htab).Perm (usedEntries htab) :=
  List.perm_insertionSort _ _

theorem nodup_sortedEntries (hw : Wf htab) : ((sortedEntries htab).map (·.key)).Nodup :=
  ((sortedEntries_perm htab).map _).nodup_iff.mpr (nodup_usedEntries hw)

theorem mem_sortedEntries (hw : Wf htab) (hm : Represents htab m) {e : Entry} :
    e ∈ sortedEntries htab <-> m e.key = some e.data := by
  rw [(sortedEntries_perm htab).mem_iff, mem_usedEntries hw, hm]

theorem length_sortedEntries (hw : Wf htab) (hm : Represents htab m) :
    (sortedEntries htab).length = htab.filled := by
  have hkeys : {key | m key ≠ none} =
      (((sortedEntries htab).map (·.key)).toFinset : Set Bytes) := by
    ext key
    simp only [Set.mem_ofPred_eq, List.coe_toFinset, List.mem_map]
    refine ⟨?_, ?_⟩
    · intro h
      rcases Option.ne_none_iff_exists'.mp h with ⟨value, hv⟩
      exact ⟨⟨key, value⟩, (mem_sortedEntries hw hm).mpr hv, rfl⟩
    · rintro ⟨e, he, rfl⟩
      rw [(mem_sortedEntries hw hm).mp he]
      simp
  rw [hm.filled hw, hkeys, Set.ncard_coe_finset,
    List.toFinset_card_of_nodup (nodup_sortedEntries hw), List.length_map]

theorem withEntries_mem {entries : List Entry} (hkeys : (entries.map (·.key)).Nodup)
    {e : Entry} (he : e ∈ entries) : withEntries m entries e.key = some e.data := by
  induction entries generalizing m with
  | nil => cases he
  | cons x entries ih =>
      simp only [List.map_cons, List.nodup_cons] at hkeys
      rcases List.mem_cons.mp he with rfl | he
      · exact (withEntries_other hkeys.left).trans (Function.update_self ..)
      · exact ih hkeys.right he

theorem withEntries_sortedEntries (hw : Wf htab) (hm : Represents htab m) :
    withEntries (fun _ => none) (sortedEntries htab) = m := by
  funext key
  cases hkey : m key with
  | some value =>
      exact withEntries_mem (e := ⟨key, value⟩) (nodup_sortedEntries hw)
        ((mem_sortedEntries hw hm).mpr hkey)
  | none =>
      refine withEntries_other ?_
      intro hmem
      rcases List.mem_map.mp hmem with ⟨e, he, rfl⟩
      rw [(mem_sortedEntries hw hm).mp he] at hkey
      cases hkey

/-!
## The length of the text
-/

def rawLength (entries : List Entry) : Nat :=
  (entries.map fun e => e.key.length + e.data.length + 2).sum

def backslashes (entries : List Entry) : Nat :=
  (entries.map fun e => e.data.count 92).sum

theorem escape_nul_length {data : Bytes} (hdata : 0 ∉ data) :
    (escape 0 data).length = data.length + data.count 92 := by
  induction data with
  | nil => rfl
  | cons c data ih =>
      have hc : c ≠ 0 := fun h => hdata (by simp [h])
      have ih' := ih (fun h => hdata (List.mem_cons_of_mem _ h))
      rw [escape_cons, List.length_append, ih', List.count_cons]
      by_cases h92 : c = 92
      · simp [h92]
        lia
      · simp [hc, h92]
        lia

theorem exportText_nul_length {entries : List Entry}
    (hdata : forall e, e ∈ entries -> 0 ∉ e.data) :
    (exportText 0 entries).length = rawLength entries + backslashes entries := by
  induction entries with
  | nil => rfl
  | cons e entries ih =>
      have ih' := ih (fun x hx => hdata x (List.mem_cons_of_mem _ hx))
      rw [exportText_cons, List.length_append, entryText_length,
        escape_nul_length (hdata e List.mem_cons_self), ih']
      simp only [rawLength, backslashes, List.map_cons, List.sum_cons]
      lia

theorem exportText_sep_length (hne : sep ≠ 0) (entries : List Entry) :
    (exportText sep entries).length = (entries.map (countedLength sep)).sum := by
  induction entries with
  | nil => rfl
  | cons e entries ih =>
      rw [exportText_cons, List.length_append, entryText_length, ih, List.map_cons,
        List.sum_cons, countedLength, if_neg hne]

theorem counted_ge (sep : UInt8) (entries : List Entry) :
    entries.length ≤ (entries.map (countedLength sep)).sum := by
  induction entries with
  | nil => exact Nat.le_refl 0
  | cons e entries ih =>
      rw [List.map_cons, List.sum_cons, List.length_cons, countedLength]
      lia

/-!
## The buffer
-/

theorem hexportR_buffer {size : Nat} {buf : Bytes} (h : hexportR htab sep size = some buf) :
    ((sortedEntries htab).map (countedLength sep)).sum + 1 ≤ buf.length ∧
      (buf = exportText sep (sortedEntries htab) ++
          List.replicate (buf.length - (exportText sep (sortedEntries htab)).length) 0 ∨
        buf.length < (exportText sep (sortedEntries htab)).length ∧
          buf = (exportText sep (sortedEntries htab)).take buf.length) := by
  unfold hexportR at h
  dsimp only at h
  split at h
  · cases h
  · rename_i hsize
    generalize hN : (if size = 0 then
      ((sortedEntries htab).map (countedLength sep)).sum + 1 else size) = N at h
    have hge : ((sortedEntries htab).map (countedLength sep)).sum + 1 ≤ N := by
      rw [<- hN]
      split <;> lia
    generalize exportText sep (sortedEntries htab) = text at h ⊢
    have hbuf : buf = (text ++ List.replicate (N - text.length) 0).take N :=
      (Option.some.inj h).symm
    have hlen : buf.length = N := by
      rw [hbuf, List.length_take, List.length_append, List.length_replicate]
      lia
    rw [hlen]
    refine ⟨hge, ?_⟩
    rcases Nat.lt_or_ge N text.length with hlt | hfit
    · refine Or.inr ⟨hlt, ?_⟩
      rw [hbuf, List.take_append_of_le_length (Nat.le_of_lt hlt)]
    · refine Or.inl ?_
      rw [hbuf, List.take_of_length_le]
      rw [List.length_append, List.length_replicate]
      lia

/-- What is lost of the text is the last separator at most, or with it the second
of two backslashes. -/
def Fits (sep : UInt8) (entries : List Entry) (size : Nat) : Prop :=
  sep ≠ 0 ∨ rawLength entries + backslashes entries ≤ size + 1 ∨
    rawLength entries + backslashes entries = size + 2 ∧
      (entries.getLast?.bind fun e => e.data.getLast?) = some 92

theorem fits_of_le {entries : List Entry} {size : Nat}
    (hdata : forall e, e ∈ entries -> 0 ∉ e.data)
    (h : (exportText sep entries).length ≤ size) : Fits sep entries size := by
  by_cases hnul : sep = 0
  · subst hnul
    rw [exportText_nul_length hdata] at h
    exact Or.inr (Or.inl (by lia))
  · exact Or.inl hnul

/-- The first pass counts the whole text unless the separator is NUL. -/
theorem nul_of_cut {entries : List Entry} {size : Nat}
    (hcounted : (entries.map (countedLength sep)).sum + 1 ≤ size)
    (hsize : size < (exportText sep entries).length) : sep = 0 := by
  by_contra hne
  rw [exportText_sep_length hne] at hsize
  lia

theorem exportText_concat (pre : List Entry) (e : Entry) :
    exportText sep (pre ++ [e]) = exportText sep pre ++ entryText sep e := by
  simp [exportText]

theorem fits_iff_survives {pre : List Entry} {e : Entry} {s size : Nat}
    (hdata : forall x, x ∈ pre ++ [e] -> 0 ∉ x.data)
    (hcounted : ((pre ++ [e]).map (countedLength sep)).sum + 1 ≤ size)
    (hs : s < (entryText sep e).length)
    (hsize : size = (exportText sep pre).length + s) :
    Fits sep (pre ++ [e]) size <-> Survives sep e s := by
  have hlen : (exportText sep (pre ++ [e])).length =
      (exportText sep pre).length + (entryText sep e).length := by
    rw [exportText_concat, List.length_append]
  have hnul := nul_of_cut hcounted (by lia)
  subst hnul
  rw [exportText_nul_length hdata] at hlen
  have hlast : ((pre ++ [e]).getLast?.bind fun e => e.data.getLast?) = e.data.getLast? := by
    simp
  unfold Fits Survives
  rw [hlen, hlast]
  refine ⟨?_, ?_⟩
  · rintro (h | h | ⟨h, h92⟩)
    · exact absurd rfl h
    · exact Or.inl (by lia)
    · exact Or.inr ⟨by lia, h92⟩
  · rintro (h | ⟨h, h92⟩)
    · exact Or.inr (Or.inl (by lia))
    · exact Or.inr (Or.inr ⟨by lia, h92⟩)

theorem not_fits_of_lt {pre : List Entry} {e : Entry} {size : Nat}
    (hdata : forall x, x ∈ pre ++ [e] -> 0 ∉ x.data)
    (hcounted : ((pre ++ [e]).map (countedLength sep)).sum + 1 ≤ size)
    (hsize : size < (exportText sep pre).length) : ¬ Fits sep (pre ++ [e]) size := by
  have hlen : (exportText sep (pre ++ [e])).length =
      (exportText sep pre).length + (entryText sep e).length := by
    rw [exportText_concat, List.length_append]
  have hentry : (entryText sep e).length = e.key.length + (escape sep e.data).length + 2 :=
    entryText_length e
  have hnul := nul_of_cut hcounted (by lia)
  subst hnul
  rw [exportText_nul_length hdata] at hlen
  rintro (h | h | ⟨h, _⟩)
  · exact h rfl
  · lia
  · lia

/-!
## Import of an exported buffer
-/

theorem himportInto_resume {buf : Bytes} {e : Entry} (entries : List Entry)
    (he : GoodEntry sep e) (hbuf : buf.head? = (exportText sep (e :: entries)).head?) :
    himportInto htab buf sep = resume sep (buf.length + 1) (buf ++ [0]) htab := by
  cases hk : e.key with
  | nil => exact absurd hk he.key.nonempty
  | cons c key =>
      have hhead : buf.head? = some c := by
        rw [hbuf, exportText_cons, entryText, hk]
        rfl
      cases buf with
      | nil => cases hhead
      | cons b buf =>
          cases hhead
          exact (resume_cons (he.key.chars c (by simp [hk])).left (by simp)).symm

theorem himportInto_take {entries : List Entry} (hne : entries ≠ [])
    (hgood : forall x, x ∈ entries -> GoodEntry sep x) {size : Nat} (hpos : 0 < size)
    (hsize : size ≤ (exportText sep entries).length) :
    himportInto htab ((exportText sep entries).take size) sep =
      resume sep (size + 1) ((exportText sep entries).take size ++ [0]) htab := by
  have htake : ((exportText sep entries).take size).length = size := by
    rw [List.length_take]
    lia
  cases entries with
  | nil => exact absurd rfl hne
  | cons x rest =>
      rw [himportInto_resume rest (hgood x List.mem_cons_self), htake]
      rw [List.head?_take, if_neg (by lia)]

theorem resume_zeros (k : Nat) :
    resume sep fuel (List.replicate k 0 ++ [0]) htab = some (1, htab) := by
  unfold resume
  rw [if_neg]
  rintro ⟨_, h⟩
  cases k with
  | zero => exact h rfl
  | succ k => exact h rfl

theorem himportInto_zeros (hwf : Wf htab) (hrep : Represents htab fun _ => none) {k : Nat}
    (hk : 0 < k) : exists htab', himportInto htab (List.replicate k 0) sep = some (1, htab') ∧
      Represents htab' fun _ => none := by
  have hparse : parseEntry sep (List.replicate k 0 ++ [0]) =
      (.delete [], List.replicate (k - 1) 0 ++ [0]) := by
    have h := parseEntry_name sep [] 0 (List.replicate (k - 1) 0 ++ [0]) (by simp)
      (fun c hc => by cases hc; decide) (by simp [parseName])
    rw [if_pos (Or.inl rfl)] at h
    rw [show k = k - 1 + 1 by lia]
    exact h
  rcases himportLoop_delete k hwf hrep hparse with ⟨htab', m', _, hrep', hkeys, hloop⟩
  have hnone : m' = fun _ => none := by
    funext key
    rcases hkeys key with h | h <;> exact h
  refine ⟨htab', ?_, hnone ▸ hrep'⟩
  unfold himportInto
  rw [if_neg (by simp; lia), List.length_replicate, hloop, resume_zeros]

theorem import_whole (hsep : GoodSep sep) {start : Htab} {entries : List Entry}
    (hgood : forall e, e ∈ entries -> GoodEntry sep e)
    (hkeys : (entries.map (·.key)).Nodup)
    (hstart : Holds start (fun _ => none) entries.length) {k : Nat}
    (hlen : entries.length ≤ (exportText sep entries).length + k)
    (hpos : 0 < (exportText sep entries).length + k) :
    exists htab', himportInto start (exportText sep entries ++ List.replicate k 0) sep =
      some (1, htab') ∧ Represents htab' (withEntries (fun _ => none) entries) := by
  cases entries with
  | nil => exact himportInto_zeros hstart.wf hstart.represents (by simpa [exportText] using hpos)
  | cons e entries =>
      rw [<- Nat.zero_add (e :: entries).length] at hstart
      rcases resume_entries
        ((exportText sep (e :: entries)).length + k + 1 - (e :: entries).length) hsep hgood
        hkeys (fun _ _ => rfl) hstart (List.replicate k 0 ++ [0]) with ⟨htab', hh, hresume⟩
      rw [resume_zeros, Nat.sub_add_cancel (by lia)] at hresume
      refine ⟨htab', ?_, hh.represents⟩
      have hhead : (exportText sep (e :: entries) ++ List.replicate k 0).head? =
          (exportText sep (e :: entries)).head? := by
        rw [exportText_cons, List.append_assoc, List.head?_append, List.head?_append]
        simp [entryText]
      rw [himportInto_resume entries (hgood e List.mem_cons_self) hhead, List.length_append,
        List.length_replicate, List.append_assoc]
      exact hresume

theorem import_cut (hsep : GoodSep sep) {start : Htab} {pre : List Entry} {e : Entry}
    (hgood : forall x, x ∈ pre ++ [e] -> GoodEntry sep x)
    (hkeys : ((pre ++ [e]).map (·.key)).Nodup)
    (hstart : Holds start (fun _ => none) (pre ++ [e]).length) {size : Nat}
    (hcounted : ((pre ++ [e]).map (countedLength sep)).sum + 1 ≤ size)
    (hsize : size < (exportText sep (pre ++ [e])).length) :
    exists htab' m', himportInto start ((exportText sep (pre ++ [e])).take size) sep =
      some (1, htab') ∧ Represents htab' m' ∧
      (Fits sep (pre ++ [e]) size -> m' = withEntries (fun _ => none) (pre ++ [e])) ∧
      (¬ Fits sep (pre ++ [e]) size -> m' e.key ≠ some e.data) := by
  have hdata : forall x, x ∈ pre ++ [e] -> 0 ∉ x.data := fun x hx => (hgood x hx).data
  have hgoodPre : forall x, x ∈ pre -> GoodEntry sep x :=
    fun x hx => hgood x (List.mem_append_left _ hx)
  have hlength : (pre ++ [e]).length ≤ size := by
    have := counted_ge sep (pre ++ [e])
    lia
  rw [List.length_append, List.length_singleton] at hstart hlength
  rw [List.map_append, List.nodup_append] at hkeys
  have hlast : e.key ∉ pre.map (·.key) := by
    intro hmem
    exact hkeys.2.2 _ hmem _ (by simp) rfl
  rw [Nat.add_comm] at hstart
  rw [himportInto_take (by simp) hgood (by lia) (Nat.le_of_lt hsize), exportText_concat]
  rcases Nat.lt_or_ge size (exportText sep pre).length with hlt | hge
  · rw [List.take_append_of_le_length (Nat.le_of_lt hlt)]
    rcases resume_entries_cut (size + 1 - pre.length) hsep hgoodPre hkeys.1 (fun _ _ => rfl)
      hstart hlt with ⟨htab', m', _, hrep, hresume, hother⟩
    rw [Nat.sub_add_cancel (by lia)] at hresume
    refine ⟨htab', m', hresume, hrep, fun h => absurd h (not_fits_of_lt hdata hcounted hlt), ?_⟩
    intro _
    have hnone : m' e.key = none := by
      rcases hother e.key hlast with h | h <;> exact h
    rw [hnone]
    simp
  · rcases Nat.exists_eq_add_of_le hge with ⟨s, hs⟩
    have hslt : s < (entryText sep e).length := by
      rw [exportText_concat, List.length_append] at hsize
      lia
    rw [fits_iff_survives hdata hcounted hslt hs, hs, List.take_length_add_append,
      List.append_assoc, <- hs]
    rcases resume_entries (size + 1 - pre.length) hsep hgoodPre hkeys.1 (fun _ _ => rfl)
      hstart ((entryText sep e).take s ++ [0]) with ⟨htab', hh, hresume⟩
    rw [Nat.sub_add_cancel (by lia)] at hresume
    rcases resume_cut (size - pre.length) hsep (hgood e (by simp))
      ((withEntries_other hlast).trans rfl) (n := 0) hh hslt with
      ⟨htab'', m', _, hrep, hcut, hyes, hno, _⟩
    refine ⟨htab'', m', ?_, hrep, ?_, hno⟩
    · rw [hresume, <- hcut]
      congr 1
      lia
    · intro h
      rw [hyes h, withEntries, withEntries, List.foldl_append]
      rfl

theorem import_export_iff (hsep : GoodSep sep) (hw : Wf htab) (hm : Represents htab m)
    (hgood : forall e, e ∈ sortedEntries htab -> GoodEntry sep e) {size : Nat} {buf : Bytes}
    (hexport : hexportR htab sep size = some buf) {start : Htab}
    (hstart : Holds start (fun _ => none) htab.filled) :
    (exists htab', himportInto start buf sep = some (1, htab') ∧ Represents htab' m) <->
      Fits sep (sortedEntries htab) buf.length := by
  rw [<- length_sortedEntries hw hm] at hstart
  have hdata : forall e, e ∈ sortedEntries htab -> 0 ∉ e.data := fun e he => (hgood e he).data
  have hkeys := nodup_sortedEntries hw
  have hmap := withEntries_sortedEntries hw hm
  have hmem := fun e => mem_sortedEntries hw hm (e := e)
  rcases hexportR_buffer hexport with ⟨hcounted, hbuf⟩
  generalize sortedEntries htab = entries at *
  rcases hbuf with hwhole | ⟨hlt, hcut⟩
  · have hfit : (exportText sep entries).length ≤ buf.length := by
      rw [hwhole, List.length_append]
      lia
    rcases import_whole hsep hgood hkeys hstart
      (k := buf.length - (exportText sep entries).length) (by
        have := counted_ge sep entries
        lia) (by lia) with
      ⟨htab', himport, hrep⟩
    rw [<- hwhole] at himport
    rw [hmap] at hrep
    exact ⟨fun _ => fits_of_le hdata hfit, fun _ => ⟨htab', himport, hrep⟩⟩
  · rcases List.eq_nil_or_concat entries with rfl | ⟨pre, e, rfl⟩
    · simp [exportText] at hlt
    · rw [List.concat_eq_append] at *
      rcases import_cut hsep hgood hkeys hstart hcounted hlt with
        ⟨htab', m', himport, hrep, hyes, hno⟩
      rw [<- hcut] at himport
      rw [hmap] at hyes
      refine ⟨?_, ?_⟩
      · rintro ⟨htab'', himport', hrep'⟩
        by_contra hfit
        rw [himport] at himport'
        cases himport'
        have hsame := hrep.ext hrep'
        refine hno hfit ?_
        rw [hsame]
        exact (hmem e).mp (by simp)
      · intro hfit
        rw [hyes hfit] at hrep
        exact ⟨htab', himport, hrep⟩

end

theorem himportInto_ret {start : Htab} {buf : Bytes} {sep : UInt8} {ret : Nat} {htab : Htab}
    (h : himportInto start buf sep = some (ret, htab)) : ret = 0 ∨ ret = 1 := by
  have hloop : forall fuel dp start,
      himportLoop sep fuel dp start = some (ret, htab) -> ret = 0 ∨ ret = 1 := by
    intro fuel
    induction fuel with
    | zero =>
        intro dp start h
        cases h
    | succ fuel ih =>
        intro dp start h
        rw [himportLoop] at h
        split at h
        · cases h
        · split at h
          · cases h
            exact Or.inl rfl
          · split at h
            · exact ih _ _ h
            · cases h
              exact Or.inr rfl
  unfold himportInto at h
  split at h
  · cases h
    exact Or.inr rfl
  · exact hloop _ _ _ h

/-!
## Environments
-/

def Reachable (htab : Htab) (m : Bytes -> Option Bytes) : Prop :=
  exists nel ops, 2 ≤ nel ∧ nel < 2 ^ 32 ∧
    run ops (hcreateR nel, fun _ => none) = some (htab, m)

theorem Reachable.spec {htab : Htab} {m : Bytes -> Option Bytes} (h : Reachable htab m) :
    Wf htab ∧ Represents htab m := by
  rcases h with ⟨nel, ops, hnel, hlt, hrun⟩
  rcases run_spec (wf_hcreateR hnel hlt) (represents_hcreateR nel) ops with
    ⟨htab', m', hrun', hw, hm⟩
  cases hrun.symm.trans hrun'
  exact ⟨hw, hm⟩

/-- An exported table with good names and values is imported into an empty table
with the same pairs exactly if the escaped text has not lost data at the end of
the buffer; so `env_import` restores what `env_export` stored exactly in this
case. -/
theorem import_restores_export_iff (cfg : Config) (htab start : Htab)
    (m : Bytes -> Option Bytes) (sep : UInt8) (size : Nat) (buf : Bytes) (noclear : Bool)
    (table : Option Htab) (hreach : Reachable htab m) (hsep : sep = 0 ∨ sep = 10)
    (hgood : forall key value, m key = some value ->
      GoodKey sep key ∧ value ≠ [] ∧ 0 ∉ value)
    (hexport : hexportR htab sep size = some buf)
    (hstart : importTable cfg noclear table buf.length = start)
    (hempty : Reachable start fun _ => none) (hroom : htab.filled ≤ start.size) :
    ((exists htab', himportR cfg noclear table buf sep = some (1, htab') ∧
        Represents htab' m) <-> Fits sep (sortedEntries htab) buf.length) ∧
    (sep = 0 -> size = cfg.envSize -> forall addr check, exists block,
      envExport cfg addr htab = some block ∧
      ((exists htab', envImport cfg addr check noclear table block = some htab' ∧
        Represents htab' m) <-> Fits sep (sortedEntries htab) buf.length)) := by
  rcases hreach.spec with ⟨hw, hm⟩
  rcases hempty.spec with ⟨hw', hm'⟩
  have hgoodSep : GoodSep sep := by
    rcases hsep with rfl | rfl <;> exact ⟨by decide, by decide⟩
  have hentries : forall e, e ∈ sortedEntries htab -> GoodEntry sep e := by
    intro e he
    rcases hgood e.key e.data ((mem_sortedEntries hw hm).mp he) with ⟨hkey, hne, hnul⟩
    exact ⟨hkey, hne, hnul⟩
  have hzero : start.filled = 0 := by
    rw [hm'.filled hw']
    simp
  have hholds : Holds start (fun _ => none) htab.filled := ⟨hw', hm', by lia⟩
  have hiff := import_export_iff hgoodSep hw hm hentries hexport hholds
  have himport : himportR cfg noclear table buf sep = himportInto start buf sep := by
    rw [himportR, hstart]
  rw [himport]
  refine ⟨hiff, ?_⟩
  intro hnul henv addr check
  subst hnul henv
  refine ⟨⟨UBoot.crc32 0#32 addr buf, buf⟩, by simp [envExport, hexport], ?_⟩
  rw [<- hiff]
  unfold envImport
  rw [if_neg (by simp), himport]
  cases hresult : himportInto start buf 0 with
  | none => simp
  | some r =>
      rcases r with ⟨ret, htab'⟩
      rcases himportInto_ret hresult with rfl | rfl
      · simp
      · simp

def oneVariable : Htab :=
  newEntry ⟨str "a", str "x"⟩ (hcreateR 2) (firstHash (hcreateR 2).size (str "a"))

theorem run_oneVariable : run [.enter (str "a") (str "x")] (hcreateR 2, fun _ => none) =
    some (oneVariable, Function.update (fun _ => none) (str "a") (some (str "x"))) := by
  have hprobe : probe ⟨str "a", str "x"⟩ .enter (hcreateR 2) =
      some (.bucket (firstHash (hcreateR 2).size (str "a")) 0) := by
    unfold probe
    exact if_pos rfl
  have hroom : (hcreateR 2).filled ≠ (hcreateR 2).size := by decide +kernel
  have hsearch : hsearchR ⟨str "a", str "x"⟩ .enter (hcreateR 2) =
      some ⟨1, some (firstHash (hcreateR 2).size (str "a")), oneVariable⟩ := by
    simp [hsearchR, hprobe, hroom, oneVariable]
  simp [run, exec, hsearch, Op.effect]

theorem oneVariable_map {key value : Bytes}
    (h : Function.update (fun _ => none) (str "a") (some (str "x")) key = some value) :
    key = str "a" ∧ value = str "x" := by
  by_cases ha : key = str "a"
  · rw [ha, Function.update_self] at h
    exact ⟨ha, (Option.some.inj h).symm⟩
  · rw [Function.update_of_ne ha] at h
    cases h

theorem oneVariable_restored :
    exists htab', himportR ⟨8, 2, 512⟩ false none [97, 61, 120, 0, 0, 0, 0, 0] 0 =
      some (1, htab') ∧
      Represents htab' (Function.update (fun _ => none) (str "a") (some (str "x"))) := by
  refine (import_restores_export_iff ⟨8, 2, 512⟩ oneVariable (hcreateR 3) _ 0 8 _ false none
    ⟨2, _, by decide, by decide, run_oneVariable⟩ (Or.inl rfl) ?_
    (by decide +kernel : hexportR oneVariable 0 8 = some [97, 61, 120, 0, 0, 0, 0, 0]) rfl
    ⟨3, [], by decide, by decide, rfl⟩ (by decide +kernel)).1.mpr
    (Or.inr (Or.inl (by decide +kernel)))
  intro key value hkey
  rcases oneVariable_map hkey with ⟨rfl, rfl⟩
  exact ⟨⟨by decide, by decide +kernel, by decide +kernel⟩, by decide, by decide⟩

/-- A value of three backslashes and one more character is exported with success
into a buffer of the length that the first pass counts, and read back without its
last character. -/
theorem backslashes_lose_character :
    ((run [.enter (str "a") [92, 92, 92, 120]] (hcreateR 2, fun _ => none)).bind fun s =>
      (hexportR s.1 0 8).bind fun buf =>
        (himportR ⟨8, 2, 512⟩ false none buf 0).bind fun r =>
          (hsearchR ⟨str "a", []⟩ .find r.2).map fun found =>
            (s.2 (str "a"), r.1, found.entry.map fun i => (found.htab.table i).data)) =
      some (some [92, 92, 92, 120], 1, some [92, 92, 92]) := by
  decide +kernel

end Env
end Hlk7621
