import Hlk7621.Webflash.Validate

/-!
# The search for a device in the metadata

`webflash_json_array_has` with its cursors as indices into the metadata.  Each read
is checked: `none` is a read outside the metadata, or a loop that has not ended when
its fuel is used up.  The code so checked computes `jsonArrayHas`, which is what the
image checks of this development use, and for a member with an array of strings this
is membership.
-/

namespace Hlk7621
namespace Webflash

/-!
## The code
-/

/-- The `n` bytes from `p` on, as `memcmp` reads them. -/
def bytesAt (json : Bytes) (p n : Nat) : Option Bytes :=
  if p + n ≤ json.length then some ((json.drop p).take n) else none

def memmemLoop (data needle : Bytes) : Nat -> Nat -> Option (Option Nat)
  | 0, _ => some none
  | n + 1, i => do
      let front <- bytesAt data i needle.length
      if front = needle then some (some i) else memmemLoop data needle n (i + 1)

def memmemAt (data needle : Bytes) : Option (Option Nat) :=
  if needle.length = 0 ∨ needle.length > data.length then some none
  else memmemLoop data needle (data.length - needle.length + 1) 0

/-- `while (p < end && *p != …) p++` -/
def skipTo (stop : UInt8 -> Bool) (json : Bytes) : Nat -> Nat -> Option Nat
  | 0, _ => none
  | fuel + 1, p =>
      if p < json.length then do
        let c <- json[p]?
        if stop c then some p else skipTo stop json fuel (p + 1)
      else some p

/-- The loop over the characters of an element, to its closing quote. -/
def stringLoop (json : Bytes) : Nat -> Nat -> Option Nat
  | 0, _ => none
  | fuel + 1, p =>
      if p < json.length then do
        let c <- json[p]?
        if c = 34 then some p
        else
          let p := if c = 92 ∧ p + 1 < json.length then p + 1 else p
          stringLoop json fuel (p + 1)
      else some p

def elementLoop (json value : Bytes) : Nat -> Nat -> Option Bool
  | 0, _ => none
  | fuel + 1, p =>
      if p < json.length then do
        let c <- json[p]?
        if c = 93 then some false
        else
          let p <- skipTo (fun c => c == 34 || c == 93) json (json.length + 1) p
          if p = json.length then some false
          else
            let c <- json[p]?
            if c = 93 then some false
            else
              let start := p + 1
              let p <- stringLoop json (json.length + 1) start
              if p = json.length then some false
              else if p - start = value.length then
                let raw <- bytesAt json start value.length
                if raw = value then some true else elementLoop json value fuel (p + 1)
              else elementLoop json value fuel (p + 1)
      else some false

def jsonArrayHasAt (json key value : Bytes) : Option Bool := do
  let found <- memmemAt json key
  match found with
  | none => some false
  | some p =>
      let p <- skipTo (fun c => c == 91) json (json.length + 1) (p + key.length)
      if p = json.length then some false
      else elementLoop json value (json.length + 1) (p + 1)

/-!
## Indices and the text behind them
-/

section

variable {json value : Bytes} {p : Nat}

theorem drop_at (h : p < json.length) : exists c, json[p]? = some c ∧
    json.drop p = c :: json.drop (p + 1) :=
  ⟨json[p], List.getElem?_eq_getElem h, List.drop_eq_getElem_cons h⟩

theorem skipTo_spec (stop : UInt8 -> Bool) {fuel : Nat} (hp : p ≤ json.length)
    (hfuel : json.length < p + fuel) :
    exists q, skipTo stop json fuel p = some q ∧ p ≤ q ∧ q ≤ json.length ∧
      (json.drop q = (json.drop p).dropWhile fun c => !stop c) ∧
      forall c, json[q]? = some c -> stop c = true := by
  induction fuel generalizing p with
  | zero => lia
  | succ fuel ih =>
      rw [skipTo]
      by_cases hlt : p < json.length
      · rcases drop_at hlt with ⟨c, hc, hdrop⟩
        simp only [if_pos hlt, hc, Option.bind_eq_bind, Option.bind_some]
        by_cases hstop : stop c = true
        · refine ⟨p, if_pos hstop, Nat.le_refl p, hp, ?_, ?_⟩
          · rw [hdrop, List.dropWhile_cons, hstop]
            rfl
          · intro c' hc'
            rw [hc] at hc'
            rw [<- Option.some.inj hc', hstop]
        · rcases ih (p := p + 1) hlt (by lia) with ⟨q, hq, hle, hlen, heq, hend⟩
          refine ⟨q, ?_, by lia, hlen, ?_, hend⟩
          · rw [if_neg hstop]
            exact hq
          · rw [heq, hdrop, List.dropWhile_cons, if_pos (by simpa using hstop)]
      · refine ⟨p, if_neg hlt, Nat.le_refl p, hp, ?_, ?_⟩
        · rw [List.drop_eq_nil_of_le (by lia), List.dropWhile_nil]
        · intro c hc
          rw [List.getElem?_eq_none (by lia)] at hc
          cases hc

theorem jsonString_char {c : UInt8} {rest : Bytes} (hquote : c ≠ 34)
    (hescape : c = 92 -> rest = []) :
    jsonString (c :: rest) = (c :: (jsonString rest).1, (jsonString rest).2) := by
  cases rest with
  | nil => simp [jsonString]
  | cons c' rest =>
      have hc : c ≠ 92 := fun h => nomatch hescape h
      simp [jsonString, hc]

theorem stringLoop_spec {fuel : Nat} (hp : p ≤ json.length)
    (hfuel : json.length < p + fuel) :
    exists q, stringLoop json fuel p = some q ∧ p ≤ q ∧ q ≤ json.length ∧
      jsonString (json.drop p) = ((json.drop p).take (q - p), json.drop q) := by
  induction fuel generalizing p with
  | zero => lia
  | succ fuel ih =>
      rw [stringLoop]
      by_cases hlt : p < json.length
      · rcases drop_at hlt with ⟨c, hc, hdrop⟩
        simp only [if_pos hlt, hc, Option.bind_eq_bind, Option.bind_some]
        by_cases hquote : c = 34
        · refine ⟨p, if_pos hquote, Nat.le_refl p, hp, ?_⟩
          rw [hdrop, hquote, Nat.sub_self, List.take_zero, jsonString]
        · rw [if_neg hquote]
          by_cases hescape : c = 92 ∧ p + 1 < json.length
          · rcases drop_at hescape.right with ⟨c', _, hdrop'⟩
            rcases ih (p := p + 2) hescape.right (by lia) with ⟨q, hq, hle, hlen, heq⟩
            refine ⟨q, ?_, by lia, hlen, ?_⟩
            · rw [if_pos hescape]
              exact hq
            · rw [hdrop, hescape.left, hdrop', jsonString, heq,
                show q - p = (q - (p + 2)) + 1 + 1 by lia, List.take_succ_cons,
                List.take_succ_cons]
          · rcases ih (p := p + 1) hlt (by lia) with ⟨q, hq, hle, hlen, heq⟩
            refine ⟨q, ?_, by lia, hlen, ?_⟩
            · rw [if_neg hescape]
              exact hq
            · have hlast : c = 92 -> json.drop (p + 1) = [] := fun hc92 =>
                List.drop_eq_nil_of_le (by
                  have hend : ¬ p + 1 < json.length := fun hlt' => hescape ⟨hc92, hlt'⟩
                  lia)
              rw [hdrop, jsonString_char hquote hlast, heq,
                show q - p = (q - (p + 1)) + 1 by lia, List.take_succ_cons]
      · refine ⟨p, if_neg hlt, Nat.le_refl p, hp, ?_⟩
        rw [List.drop_eq_nil_of_le (by lia), Nat.sub_self, List.take_zero, jsonString]

theorem bytesAt_inside {n : Nat} (h : p + n ≤ json.length) :
    bytesAt json p n = some ((json.drop p).take n) :=
  if_pos h

theorem jsonElements_stop {steps : Nat} {text : Bytes}
    (h : text = [] ∨ exists rest, text = 93 :: rest) : jsonElements value steps text = false := by
  cases steps with
  | zero => rfl
  | succ steps =>
      rcases h with rfl | ⟨rest, rfl⟩
      · rfl
      · rfl

theorem jsonElements_string {steps : Nat} {text start : Bytes}
    (h : text.dropWhile (fun b => b ≠ 34 ∧ b ≠ 93) = 34 :: start) :
    jsonElements value (steps + 1) text =
      match jsonString start with
      | (_, []) => false
      | (raw, _ :: rest) => raw == value || jsonElements value steps rest := by
  rw [jsonElements, h]
  rfl

theorem elementLoop_spec {fuel steps : Nat} (hp : p ≤ json.length)
    (hfuel : json.length < p + fuel) (hsteps : json.length ≤ p + steps) :
    elementLoop json value fuel p = some (jsonElements value steps (json.drop p)) := by
  induction fuel generalizing p steps with
  | zero => lia
  | succ fuel ih =>
      rw [elementLoop]
      by_cases hlt : p < json.length
      · rcases drop_at hlt with ⟨c, hc, hdrop⟩
        simp only [if_pos hlt, hc, Option.bind_eq_bind, Option.bind_some]
        by_cases hclose : c = 93
        · rw [if_pos hclose, jsonElements_stop]
          exact .inr ⟨json.drop (p + 1), by rw [hdrop, hclose]⟩
        · rw [if_neg hclose]
          rcases steps with _ | steps
          · lia
          have hlong : json.length < p + (json.length + 1) := by lia
          rcases skipTo_spec (fun c => c == 34 || c == 93) hp hlong with
            ⟨q, hq, hle, hlen, hskip, hstop⟩
          have hskip' : (json.drop p).dropWhile (fun b => b ≠ 34 ∧ b ≠ 93) =
              json.drop q := by
            rw [hskip]
            congr 1
            funext b
            simp
            rfl
          rw [hq, Option.bind_some]
          by_cases hend : q = json.length
          · rw [if_pos hend, jsonElements, hskip', List.drop_eq_nil_of_le (by lia)]
          · rw [if_neg hend]
            rcases drop_at (by lia : q < json.length) with ⟨c', hc', hdrop'⟩
            have hkind := hstop c' hc'
            rw [hc', Option.bind_some]
            rw [hdrop'] at hskip'
            by_cases hbracket : c' = 93
            · rw [if_pos hbracket, jsonElements, hskip', hbracket]
              rfl
            · have hquote : c' = 34 := by
                simpa [hbracket] using hkind
              subst hquote
              have hfrom : q + 1 ≤ json.length := by lia
              have hlong' : json.length < q + 1 + (json.length + 1) := by lia
              rcases stringLoop_spec hfrom hlong' with ⟨r, hr, hler, hlenr, hraw⟩
              rw [if_neg hbracket, hr, Option.bind_some, jsonElements_string hskip', hraw]
              by_cases hopen : r = json.length
              · have hnil : json.drop r = [] := List.drop_eq_nil_of_le (by lia)
                rw [if_pos hopen, hnil]
              · rw [if_neg hopen]
                have hrest := ih (by lia : r + 1 ≤ json.length) (by lia)
                  (by lia : json.length ≤ r + 1 + steps)
                rcases drop_at (by lia : r < json.length) with ⟨_, _, hdropr⟩
                rw [hdropr]
                by_cases hsize : r - (q + 1) = value.length
                · rw [if_pos hsize, bytesAt_inside (by lia), Option.bind_some, hsize, hrest]
                  split
                  · rename_i heq
                    simp [heq]
                  · rename_i hne
                    simp [hne]
                · rw [if_neg hsize, hrest]
                  have hne : (json.drop (q + 1)).take (r - (q + 1)) ≠ value := by
                    intro heq
                    apply hsize
                    rw [<- heq, List.length_take, List.length_drop]
                    lia
                  simp [hne]
      · rw [if_neg hlt, jsonElements_stop]
        exact .inl (List.drop_eq_nil_of_le (by lia))

theorem memmem_short {needle data : Bytes} (h : data.length < needle.length) :
    memmem needle data = none := by
  induction data with
  | nil => rfl
  | cons b rest ih =>
      have hno : ¬ (needle ≠ [] ∧ needle.isPrefixOf (b :: rest) = true) := by
        rintro ⟨_, hbegins⟩
        have hle := (List.isPrefixOf_iff_prefix.mp hbegins).length_le
        lia
      rw [memmem, if_neg hno]
      exact ih (by
        rw [List.length_cons] at h
        lia)

theorem memmemLoop_spec {data needle : Bytes} (hneedle : 0 < needle.length) {n i : Nat}
    (h : i + needle.length + n = data.length + 1) :
    exists r, memmemLoop data needle n i = some r ∧
      r.map (fun p => data.drop p) = memmem needle (data.drop i) ∧
      forall p, r = some p -> p + needle.length ≤ data.length := by
  induction n generalizing i with
  | zero =>
      refine ⟨none, rfl, ?_, fun _ hp => nomatch hp⟩
      rw [memmem_short]
      · rfl
      · rw [List.length_drop]
        lia
  | succ n ih =>
      rcases drop_at (by lia : i < data.length) with ⟨c, _, hdrop⟩
      rw [memmemLoop, bytesAt_inside (by lia)]
      simp only [Option.bind_eq_bind, Option.bind_some]
      have hbegins : (data.drop i).take needle.length = needle <->
          needle ≠ [] ∧ needle.isPrefixOf (c :: data.drop (i + 1)) = true := by
        rw [<- hdrop, List.isPrefixOf_iff_prefix, List.prefix_iff_eq_take]
        constructor
        · intro heq
          exact ⟨List.length_pos_iff.mp hneedle, heq.symm⟩
        · exact fun heq => heq.2.symm
      rw [hdrop, memmem, <- hdrop]
      by_cases hfront : (data.drop i).take needle.length = needle
      · rw [if_pos hfront, hdrop, if_pos (hbegins.mp hfront), <- hdrop]
        refine ⟨some i, rfl, rfl, ?_⟩
        intro p hp
        cases hp
        lia
      · rw [if_neg hfront, hdrop, if_neg (fun hboth => hfront (hbegins.mpr hboth))]
        exact ih (by lia)

theorem memmemAt_spec (data : Bytes) {needle : Bytes} (hneedle : 0 < needle.length) :
    exists r, memmemAt data needle = some r ∧
      r.map (fun p => data.drop p) = memmem needle data ∧
      forall p, r = some p -> p + needle.length ≤ data.length := by
  unfold memmemAt
  by_cases hlong : needle.length > data.length
  · rw [if_pos (.inr hlong)]
    exact ⟨none, rfl, (memmem_short hlong).symm, fun _ hp => nomatch hp⟩
  · rw [if_neg (by lia)]
    have hplaces : 0 + needle.length + (data.length - needle.length + 1) =
        data.length + 1 := by lia
    have hloop := memmemLoop_spec hneedle hplaces
    rw [List.drop_zero] at hloop
    exact hloop

/-- The code reads inside the metadata only, and its answer is that of the search in
the texts behind its cursors. -/
theorem jsonArrayHasAt_eq (json : Bytes) {key : Bytes} (value : Bytes) (hkey : key ≠ []) :
    jsonArrayHasAt json key value = some (jsonArrayHas json key value) := by
  rcases memmemAt_spec json (List.length_pos_iff.mpr hkey) with ⟨found, hfound, htext, hfit⟩
  unfold jsonArrayHasAt jsonArrayHas
  rw [hfound, <- htext]
  cases found with
  | none => rfl
  | some p =>
      have hp := hfit p rfl
      have hlong : json.length < p + key.length + (json.length + 1) := by lia
      rcases skipTo_spec (fun c => c == 91) hp hlong with ⟨q, hq, hle, hlen, hskip, _⟩
      have hskip' : ((json.drop p).drop key.length).dropWhile (fun b => b ≠ 91) =
          json.drop q := by
        rw [List.drop_drop, hskip]
        congr 1
        funext b
        simp
        rfl
      simp only [Option.bind_eq_bind, Option.bind_some, Option.map_some, hq, hskip']
      by_cases hend : q = json.length
      · have hnil : json.drop q = [] := List.drop_eq_nil_of_le (by lia)
        rw [if_pos hend, hnil]
      · rcases drop_at (by lia : q < json.length) with ⟨_, _, hdrop⟩
        rw [if_neg hend, hdrop]
        exact elementLoop_spec (by lia) (by lia) (by rw [List.length_drop]; lia)

end

/-!
## Arrays of strings
-/

/-- The characters between the quotes of a JSON string.  A backslash takes the next
character with it. -/
inductive RawText : Bytes -> Prop where
  | nil : RawText []
  | escape (c : UInt8) {rest : Bytes} (h : RawText rest) : RawText (92 :: c :: rest)
  | char {c : UInt8} {rest : Bytes} (hquote : c ≠ 34) (hescape : c ≠ 92)
      (h : RawText rest) : RawText (c :: rest)

def Separator (text : Bytes) : Prop := forall c, c ∈ text -> c ≠ 34 ∧ c ≠ 91 ∧ c ≠ 93

instance (text : Bytes) : Decidable (Separator text) :=
  inferInstanceAs (Decidable (forall c, c ∈ text -> _))

structure Element where
  separator : Bytes
  raw : Bytes
  plain : Separator separator
  valid : RawText raw

structure StringArray where
  elements : List Element
  tail : Bytes
  plain : Separator tail

def Element.text (e : Element) : Bytes := e.separator ++ 34 :: (e.raw ++ [34])

def StringArray.text (array : StringArray) : Bytes :=
  91 :: ((array.elements.map Element.text).flatten ++ (array.tail ++ [93]))

theorem RawText.jsonString_quote {raw : Bytes} (h : RawText raw) (rest : Bytes) :
    jsonString (raw ++ 34 :: rest) = (raw, 34 :: rest) := by
  induction h with
  | nil => rfl
  | escape c _ ih =>
      rw [List.cons_append, List.cons_append, jsonString, ih]
  | char hquote hescape _ ih =>
      rw [List.cons_append, jsonString_char hquote (fun hc => absurd hc hescape), ih]

theorem Separator.skip {text : Bytes} (h : Separator text) {c : UInt8}
    (hc : c = 34 ∨ c = 93) (rest : Bytes) :
    (text ++ c :: rest).dropWhile (fun b => b ≠ 34 ∧ b ≠ 93) = c :: rest := by
  induction text with
  | nil =>
      rw [List.nil_append, List.dropWhile_cons, if_neg]
      rcases hc with rfl | rfl <;> decide
  | cons b text ih =>
      have hb := h b List.mem_cons_self
      rw [List.cons_append, List.dropWhile_cons, if_pos (by simp [hb.1, hb.2.2])]
      exact ih fun x hx => h x (List.mem_cons_of_mem b hx)

/-- The search over the elements of an array is membership. -/
theorem jsonElements_array (value : Bytes) (elements : List Element) {tail : Bytes}
    (htail : Separator tail) (rest : Bytes) {steps : Nat}
    (hsteps : elements.length < steps) :
    jsonElements value steps
        ((elements.map Element.text).flatten ++ (tail ++ 93 :: rest)) = true <->
      exists e, e ∈ elements ∧ e.raw = value := by
  induction elements generalizing steps with
  | nil =>
      rcases steps with _ | steps
      · cases hsteps
      · rw [List.map_nil, List.flatten_nil, List.nil_append, jsonElements,
          htail.skip (.inr rfl)]
        simp
  | cons e elements ih =>
      rcases steps with _ | steps
      · cases hsteps
      · have hlater := ih (Nat.lt_of_succ_lt_succ hsteps)
        generalize hmore : (elements.map Element.text).flatten ++ (tail ++ 93 :: rest) = more
          at hlater
        have htext : ((e :: elements).map Element.text).flatten ++ (tail ++ 93 :: rest) =
            e.separator ++ 34 :: (e.raw ++ 34 :: more) := by
          rw [<- hmore]
          simp [Element.text]
        rw [htext, jsonElements_string (e.plain.skip (.inl rfl) _), e.valid.jsonString_quote]
        rw [Bool.or_eq_true, beq_iff_eq, hlater]
        constructor
        · rintro (heq | ⟨e', he', heq⟩)
          · exact ⟨e, List.mem_cons_self, heq⟩
          · exact ⟨e', List.mem_cons_of_mem e he', heq⟩
        · rintro ⟨e', he', heq⟩
          rcases List.mem_cons.mp he' with rfl | he'
          · exact .inl heq
          · exact .inr ⟨e', he', heq⟩

theorem flatten_text_length (elements : List Element) :
    elements.length ≤ (elements.map Element.text).flatten.length := by
  induction elements with
  | nil => exact Nat.le_refl 0
  | cons e elements ih =>
      rw [List.map_cons, List.flatten_cons, List.length_append, List.length_cons]
      have hlen : 1 ≤ e.text.length := by
        rw [Element.text, List.length_append, List.length_cons]
        lia
      lia

theorem memmem_first {needle front text : Bytes} (hneedle : needle ≠ [])
    (hfound : needle <+: text)
    (hfirst : forall i, i < front.length -> ¬ needle <+: (front ++ text).drop i) :
    memmem needle (front ++ text) = some text := by
  induction front with
  | nil =>
      cases text with
      | nil => exact absurd (List.prefix_nil.mp hfound) hneedle
      | cons b rest =>
          rw [List.nil_append, memmem,
            if_pos ⟨hneedle, List.isPrefixOf_iff_prefix.mpr hfound⟩]
  | cons b front ih =>
      have hno : ¬ (needle ≠ [] ∧ needle.isPrefixOf (b :: (front ++ text)) = true) :=
        fun h => hfirst 0 (Nat.zero_lt_succ _) (List.isPrefixOf_iff_prefix.mp h.2)
      rw [List.cons_append, memmem, if_neg hno]
      exact ih fun i hi => hfirst (i + 1) (Nat.succ_lt_succ hi)

theorem dropWhile_gap {gap : Bytes} (hgap : 91 ∉ gap) (rest : Bytes) :
    (gap ++ 91 :: rest).dropWhile (fun b => b ≠ 91) = 91 :: rest := by
  induction gap with
  | nil =>
      rw [List.nil_append, List.dropWhile_cons, if_neg (by decide)]
  | cons b gap ih =>
      have hb : b ≠ 91 := fun h => hgap (h ▸ List.mem_cons_self)
      rw [List.cons_append, List.dropWhile_cons, if_pos (by simpa using hb)]
      exact ih fun h => hgap (List.mem_cons_of_mem b h)

/-- The search reads inside the metadata only.  If the first occurrence of the key is
followed by an array of strings, it finds out whether the value is one of them. -/
theorem jsonArrayHasAt_spec (json key value : Bytes) (hkey : key ≠ []) :
    (exists found, jsonArrayHasAt json key value = some found) ∧
      forall (front gap rest : Bytes) (array : StringArray),
        json = front ++ (key ++ (gap ++ (array.text ++ rest))) ->
        (forall i, i < front.length -> ¬ key <+: json.drop i) -> 91 ∉ gap ->
        (jsonArrayHasAt json key value = some true <->
          exists e, e ∈ array.elements ∧ e.raw = value) := by
  rw [jsonArrayHasAt_eq json value hkey]
  refine ⟨⟨_, rfl⟩, ?_⟩
  intro front gap rest array hjson hfirst hgap
  rw [hjson] at hfirst
  have hfound := memmem_first hkey (List.prefix_append key _) hfirst
  have harray : array.text ++ rest = 91 :: ((array.elements.map Element.text).flatten ++
      (array.tail ++ 93 :: rest)) := by
    simp [StringArray.text]
  rw [Option.some_inj, hjson, jsonArrayHas, hfound]
  dsimp only
  rw [List.drop_left, harray, dropWhile_gap hgap]
  apply jsonElements_array value array.elements array.plain rest
  have hlen := flatten_text_length array.elements
  rw [List.length_append, List.length_append, List.length_cons]
  lia

def twoStrings : StringArray where
  elements :=
    [⟨[], [98, 92, 34], by decide +kernel, .char (by decide) (by decide) (.escape 34 .nil)⟩,
      ⟨[44], [], by decide +kernel, .nil⟩]
  tail := []
  plain := by decide +kernel

/-- The empty string is found in `{"k":["b\"",""]}`. -/
theorem twoStrings_searched :
    (exists found, jsonArrayHasAt
      [123, 34, 107, 34, 58, 91, 34, 98, 92, 34, 34, 44, 34, 34, 93, 125] [34, 107, 34] [] =
        some found) ∧
    (jsonArrayHasAt
      [123, 34, 107, 34, 58, 91, 34, 98, 92, 34, 34, 44, 34, 34, 93, 125] [34, 107, 34] [] =
        some true <-> exists e, e ∈ twoStrings.elements ∧ e.raw = []) := by
  have hspec := jsonArrayHasAt_spec
    [123, 34, 107, 34, 58, 91, 34, 98, 92, 34, 34, 44, 34, 34, 93, 125]
    [34, 107, 34] [] (by decide)
  exact ⟨hspec.1, hspec.2 [123] [58] [125] twoStrings (by decide) (by decide) (by decide)⟩

end Webflash
end Hlk7621
