import Hlk7621.Lib.CString
import Hlk7621.UBoot.Strto

/-!
# URLs of the download command

Model of `parse_url` and `wget_validate_uri` from `net/lwip/wget.c`.  The
parameters stand for what the source asks elsewhere: whether HTTPS support is
enabled, and whether `strdup` finds memory.
-/

namespace Hlk7621
namespace Lwip

open UBoot

def EINVAL : Int := 22
def SERVER_NAME_SIZE : Nat := 254
def HTTP_PORT_DEFAULT : Nat := 80
def HTTPS_PORT_DEFAULT : Nat := 443

def httpPrefix : Bytes := str "http://"
def httpsPrefix : Bytes := str "https://"

/-- A `long` of 32 bits with the bits of `n`. -/
def toLong (n : Nat) : Int := if n < 2 ^ 31 then n else (n : Int) - 2 ^ 32

def simpleStrtol (cp : Bytes) (base : Nat) : Int × Bytes :=
  match cp with
  | 45 :: rest =>
      (toLong (sub32 0 (simpleStrtoul rest base).1), (simpleStrtoul rest base).2)
  | _ => (toLong (simpleStrtoul cp base).1, (simpleStrtoul cp base).2)

def invalidChars : List UInt8 := (List.range' 1 32).map UInt8.ofNat ++ [0x7f]

def wgetValidateUri (wgetHttps dup : Bool) (uri : Bytes) : Bool :=
  if invalidChars.any fun c => (strchr c uri).isSome then false
  else if ¬ httpPrefix <+: uri ∧ ¬ (wgetHttps = true ∧ httpsPrefix <+: uri) then false
  else if dup = false then false
  else
    -- The source skips the length of "http://" for both schemes.
    match strsep 47 (some (uri.drop httpPrefix.length)) with
    | (_, none) => false
    | (authority, some _) =>
        if (strchr 64 (authority.getD [])).isSome then false else true

/-- What `parse_url` stores through its pointers. -/
structure Parsed where
  host : Bytes
  port : Nat
  path : Bytes
  isHttps : Bool
  deriving DecidableEq

/-- The part of `parse_url` behind the search for the end of the host name. -/
def parseHost (p pp : Bytes) (port : Nat) (isHttps : Bool) : Except Int Parsed :=
  let len := p.length - pp.length
  if SERVER_NAME_SIZE ≤ len then .error (-EINVAL)
  else
    match pp with
    | 58 :: digits =>
        let lport := simpleStrtol digits 10
        if lport.2.head? ≠ some 47 then .error (-EINVAL)
        else if lport.1 > 65535 then .error (-EINVAL)
        else .ok ⟨p.take len, (lport.1 % 65536).toNat, lport.2, isHttps⟩
    | _ =>
        if pp.head? ≠ some 47 then .error (-EINVAL)
        else .ok ⟨p.take len, port, pp, isHttps⟩

/-- The scheme: the default port, `is_https` and the rest of the string.  A URL
that has passed the check holds one of the two prefixes. -/
def parseScheme (url : Bytes) : Bytes × Nat × Bool :=
  match strstr httpPrefix url with
  | some p => (p.drop httpPrefix.length, HTTP_PORT_DEFAULT, false)
  | none =>
      (((strstr httpsPrefix url).getD []).drop httpsPrefix.length, HTTPS_PORT_DEFAULT, true)

def parseUrl (wgetHttps dup : Bool) (url : Bytes) : Except Int Parsed :=
  if wgetValidateUri wgetHttps dup url = false then .error (-EINVAL)
  else
    match parseScheme url with
    | (p, port, isHttps) =>
        match (strchr 58 p).or (strchr 47 p) with
        | none => .error (-EINVAL)
        | some pp => parseHost p pp port isHttps

/-!
## Numbers in front of a slash
-/

theorem strtoulLoop_append {base : Nat} {s : Bytes}
    (hs : forall ch, ch ∈ s -> decodeDigit ch < base) (acc : Nat) (t : Bytes) :
    strtoulLoop base acc (s ++ t) = strtoulLoop base (strtoulLoop base acc s).1 t := by
  induction s generalizing acc with
  | nil => rfl
  | cons c rest ih =>
      have hc := hs c List.mem_cons_self
      rw [List.cons_append, strtoulLoop, if_pos hc, strtoulLoop, if_pos hc]
      exact ih (fun ch hch => hs ch (List.mem_cons_of_mem _ hch)) _

theorem parseIntegerFixupRadix_slash {s : Bytes} (hs : Decimal s) (t : Bytes) :
    parseIntegerFixupRadix (s ++ 47 :: t) 10 = (s ++ 47 :: t, 10) := by
  rcases hs with ⟨hne, hdigits⟩
  unfold parseIntegerFixupRadix
  split
  · rename_i ch rest hsplit
    have hx : ¬ (ch = 120 ∨ ch = 88) := by
      cases s with
      | nil => exact absurd rfl hne
      | cons c s =>
          cases s with
          | nil =>
              have hch : ch = 47 := by
                simp only [List.cons_append, List.nil_append, List.cons.injEq] at hsplit
                exact hsplit.2.1.symm
              rw [hch]
              decide
          | cons c' s =>
              have hch : ch = c' := by
                simp only [List.cons_append, List.cons.injEq] at hsplit
                exact hsplit.2.1.symm
              have hdigit := hdigits c' (by simp)
              rw [hch]
              rintro (rfl | rfl) <;> exact absurd hdigit (by decide)
    rw [if_neg hx]
    rfl
  · rfl
  · rfl

theorem simpleStrtoul_slash {s : Bytes} (hs : Decimal s) (hlt : decimalValue s < 2 ^ 32)
    (t : Bytes) :
    simpleStrtoul (s ++ 47 :: t) 10 = (decimalValue s, 47 :: t) := by
  have hbase : forall ch, ch ∈ s -> decodeDigit ch < 10 :=
    fun ch hch => (decodeDigit_of_isDigit (hs.2 ch hch)).right
  have hwhole := simpleStrtoul_decimal hs.2 hlt
  unfold simpleStrtoul at hwhole ⊢
  rw [parseIntegerFixupRadix_digits hs.2] at hwhole
  rw [parseIntegerFixupRadix_slash hs]
  dsimp only at hwhole ⊢
  rw [strtoulLoop_append hbase, hwhole, strtoulLoop, if_neg (by decide)]

/-!
## Locators
-/

def Printable (b : UInt8) : Prop := 0x20 < b ∧ b ≠ 0x7f

instance (b : UInt8) : Decidable (Printable b) :=
  inferInstanceAs (Decidable (_ ∧ _))

/-- A locator `scheme://host[:port]/path`. -/
structure Locator where
  secure : Bool
  host : Bytes
  port : Option Bytes
  path : Bytes
  host_ne : host ≠ []
  host_short : host.length < 254
  host_plain : forall b, b ∈ host -> b ≠ 0 ∧ b ≠ 47 ∧ b ≠ 58 ∧ b ≠ 64
  port_decimal : forall digits, port = some digits ->
    Decimal digits ∧ 1 ≤ decimalValue digits ∧ decimalValue digits ≤ 65535
  path_printable : forall b, b ∈ path -> Printable b

namespace Locator

def portText (u : Locator) : Bytes :=
  match u.port with
  | none => []
  | some digits => 58 :: digits

def file (u : Locator) : Bytes := 47 :: u.path

def scheme (u : Locator) : Bytes := if u.secure then httpsPrefix else httpPrefix

def text (u : Locator) : Bytes := u.scheme ++ (u.host ++ (u.portText ++ u.file))

def portNumber (u : Locator) : Nat :=
  match u.port with
  | none => if u.secure then HTTPS_PORT_DEFAULT else HTTP_PORT_DEFAULT
  | some digits => decimalValue digits

def target (u : Locator) : Parsed := ⟨u.host, u.portNumber, u.file, u.secure⟩

variable {u : Locator}

theorem host_not_mem {c : UInt8} (hc : c = 0 ∨ c = 47 ∨ c = 58 ∨ c = 64) : c ∉ u.host := by
  intro hmem
  have h := u.host_plain c hmem
  rcases hc with rfl | rfl | rfl | rfl
  · exact h.1 rfl
  · exact h.2.1 rfl
  · exact h.2.2.1 rfl
  · exact h.2.2.2 rfl

theorem portText_digits {b : UInt8} (hb : b ∈ u.portText) : b = 58 ∨ IsDigit b := by
  unfold portText at hb
  split at hb
  · cases hb
  · rename_i digits hport
    rcases List.mem_cons.mp hb with rfl | hb
    · exact Or.inl rfl
    · exact Or.inr ((u.port_decimal digits hport).1.2 b hb)

theorem isDigit_printable {b : UInt8} (h : IsDigit b) : Printable b ∧ b ≠ 47 ∧ b ≠ 64 ∧ b ≠ 58 := by
  rcases h with ⟨hlo, hhi⟩
  have hlo' := UInt8.le_iff_toNat_le.mp hlo
  have hhi' := UInt8.le_iff_toNat_le.mp hhi
  refine ⟨⟨UInt8.lt_iff_toNat_lt.mpr ?_, ?_⟩, ?_, ?_, ?_⟩
  · exact Nat.lt_of_lt_of_le (by decide) hlo'
  all_goals
    rintro rfl
    revert hlo' hhi'
    decide

/-!
## The check
-/

theorem mem_invalidChars (c : UInt8) : c ∈ invalidChars <-> c ≠ 0 ∧ ¬ Printable c := by
  have hall : forall n, n < 256 ->
      (UInt8.ofNat n ∈ invalidChars <-> UInt8.ofNat n ≠ 0 ∧ ¬ Printable (UInt8.ofNat n)) := by
    decide +kernel
  have h := hall c.toNat c.toNat_lt
  rwa [UInt8.ofNat_toNat] at h

theorem invalid_text_iff :
    (invalidChars.any fun c => (strchr c u.text).isSome) = false <->
      forall b, b ∈ u.host -> Printable b := by
  rw [List.any_eq_false]
  constructor
  · intro h b hb
    by_contra hbad
    refine h b ((mem_invalidChars b).mpr ⟨fun h0 => ?_, hbad⟩) ((strchr_isSome_iff b _).mpr ?_)
    · exact host_not_mem (Or.inl h0) hb
    · unfold text
      simp [hb]
  · intro hhost c hc hfound
    have hbad := ((mem_invalidChars c).mp hc).2
    have hmem := (strchr_isSome_iff c _).mp hfound
    unfold text file at hmem
    simp only [List.mem_append, List.mem_cons] at hmem
    rcases hmem with hmem | hmem | hmem | rfl | hmem
    · have hscheme : forall b, b ∈ httpsPrefix ++ httpPrefix -> Printable b := by
        decide +kernel
      refine hbad (hscheme c ?_)
      unfold scheme at hmem
      split at hmem
      · exact List.mem_append_left _ hmem
      · exact List.mem_append_right _ hmem
    · exact hbad (hhost c hmem)
    · rcases portText_digits hmem with rfl | hdigit
      · exact hbad (by decide)
      · exact hbad (isDigit_printable hdigit).1
    · exact hbad (by decide)
    · exact hbad (u.path_printable c hmem)

def authority (u : Locator) : Bytes := u.host ++ u.portText

theorem text_eq (u : Locator) : u.text = u.scheme ++ (u.authority ++ 47 :: u.path) := by
  unfold text authority file
  rw [List.append_assoc]

theorem authority_not_mem {c : UInt8} (hc : c = 47 ∨ c = 64) : c ∉ u.authority := by
  intro hmem
  rcases List.mem_append.mp hmem with hmem | hmem
  · exact host_not_mem (by tauto) hmem
  · rcases portText_digits hmem with rfl | hdigit
    · revert hc
      decide
    · rcases hc with rfl | rfl
      · exact (isDigit_printable hdigit).2.1 rfl
      · exact (isDigit_printable hdigit).2.2.1 rfl

theorem strsep_text (u : Locator) : exists a rest,
    strsep 47 (some (u.text.drop httpPrefix.length)) = (some a, some rest) ∧ (64 : UInt8) ∉ a := by
  rw [text_eq]
  unfold scheme
  split
  · exact ⟨[], u.authority ++ 47 :: u.path, strsep_append List.not_mem_nil _, List.not_mem_nil⟩
  · rw [List.drop_left]
    exact ⟨u.authority, u.path, strsep_append (authority_not_mem (Or.inl rfl)) _,
      authority_not_mem (Or.inr rfl)⟩

theorem validate_text_iff :
    wgetValidateUri true true u.text = true <-> forall b, b ∈ u.host -> Printable b := by
  unfold wgetValidateUri
  by_cases hhost : forall b, b ∈ u.host -> Printable b
  · refine iff_of_true ?_ hhost
    rw [invalid_text_iff.mpr hhost]
    have hprefix : ¬ (¬ httpPrefix <+: u.text ∧ ¬ (true = true ∧ httpsPrefix <+: u.text)) := by
      rw [text_eq]
      unfold scheme
      split
      · exact fun h => h.2 ⟨rfl, List.prefix_append _ _⟩
      · exact fun h => h.1 (List.prefix_append _ _)
    rcases strsep_text u with ⟨a, rest, hsep, hat⟩
    rw [if_neg Bool.false_ne_true, if_neg hprefix, if_neg (by decide), hsep]
    have hno : ¬ (strchr 64 a).isSome = true := by
      rw [strchr_isSome_iff]
      exact hat
    exact if_neg hno
  · refine iff_of_false ?_ hhost
    have hany : (invalidChars.any fun c => (strchr c u.text).isSome) = true := by
      rw [<- Bool.not_eq_false]
      exact fun h => hhost (invalid_text_iff.mp h)
    rw [hany, if_pos rfl]
    exact Bool.false_ne_true

/-!
## The scheme
-/

theorem httpPrefix_after {front tail post : Bytes} (hfront : forall b, b ∈ front -> b ≠ 58 ∧ b ≠ 47)
    (htail : tail.head? = some 58 ∨ tail.head? = some 47)
    (h : front ++ tail = httpPrefix ++ post) : tail = 58 :: 47 :: 47 :: post := by
  have hdrop : forall s t : Bytes, (forall b, b ∈ s -> b ≠ 58 ∧ b ≠ 47) ->
      (t.head? = some 58 ∨ t.head? = some 47) ->
      (s ++ t).dropWhile (fun b => b ≠ 58 ∧ b ≠ 47) = t := by
    intro s t hs ht
    rw [List.dropWhile_append_of_pos (fun b hb => decide_eq_true (hs b hb))]
    cases t with
    | nil => rfl
    | cons b t =>
        refine List.dropWhile_cons_of_neg ?_
        rcases ht with ht | ht
        · cases ht
          decide
        · cases ht
          decide
  have hleft := hdrop front tail hfront htail
  have hright := hdrop (str "http") (58 :: 47 :: 47 :: post) (by decide +kernel)
    (Or.inl rfl)
  rw [h] at hleft
  exact hleft.symm.trans hright

theorem strstr_front {front tail : Bytes} (hfront : forall b, b ∈ front -> b ≠ 58 ∧ b ≠ 47)
    (htail : tail.head? = some 58 ∨ tail.head? = some 47)
    (hscheme : forall post, tail ≠ 58 :: 47 :: 47 :: post) :
    strstr httpPrefix (front ++ tail) = strstr httpPrefix tail := by
  induction front with
  | nil => rfl
  | cons b front ih =>
      rw [List.cons_append, strstr_skip]
      · exact ih fun c hc => hfront c (List.mem_cons_of_mem _ hc)
      · rintro ⟨post, hpost⟩
        exact hscheme post (httpPrefix_after hfront htail (by rw [List.cons_append, hpost]))

theorem strstr_https (rest : Bytes) :
    strstr httpPrefix (httpsPrefix ++ rest) = strstr httpPrefix rest := by
  simp [httpsPrefix, httpPrefix, str, strstr, List.cons_prefix_cons]

theorem strstr_secure (h : u.secure = true) :
    strstr httpPrefix u.text = strstr httpPrefix u.file := by
  have hhost : forall b, b ∈ u.host -> b ≠ 58 ∧ b ≠ 47 :=
    fun b hb => ⟨(u.host_plain b hb).2.2.1, (u.host_plain b hb).2.1⟩
  have hfile : forall post, u.file ≠ 58 :: 47 :: 47 :: post := by
    intro post hpost
    cases hpost
  have hscheme : strstr httpPrefix u.text =
      strstr httpPrefix (u.host ++ (u.portText ++ u.file)) := by
    unfold text scheme
    rw [if_pos h, strstr_https]
  rw [hscheme]
  unfold portText
  cases hport : u.port with
  | none => exact strstr_front hhost (Or.inr rfl) hfile
  | some digits =>
      rcases (u.port_decimal digits hport).1 with ⟨hne, hdigits⟩
      have hplain : forall b, b ∈ digits -> b ≠ 58 ∧ b ≠ 47 :=
        fun b hb =>
          ⟨(isDigit_printable (hdigits b hb)).2.2.2, (isDigit_printable (hdigits b hb)).2.1⟩
      rw [strstr_front hhost (Or.inl rfl), List.cons_append, strstr_skip,
        strstr_front hplain (Or.inr rfl) hfile]
      · rintro ⟨post, hpost⟩
        cases hpost
      · intro post hpost
        cases digits with
        | nil => exact hne rfl
        | cons c digits =>
            simp only [List.cons_append, List.cons.injEq] at hpost
            exact (hplain c List.mem_cons_self).2 hpost.2.1

def rest (u : Locator) : Bytes := u.host ++ (u.portText ++ u.file)

theorem parseScheme_plain (h : u.secure = false) :
    parseScheme u.text = (u.rest, HTTP_PORT_DEFAULT, false) := by
  have htext : u.text = httpPrefix ++ u.rest := by
    unfold text scheme
    rw [h]
    rfl
  unfold parseScheme
  rw [htext, strstr_prefix (List.prefix_append _ _)]
  dsimp only
  rw [List.drop_left]

theorem parseScheme_secure (h : u.secure = true) (hpath : ¬ httpPrefix <:+: u.file) :
    parseScheme u.text = (u.rest, HTTPS_PORT_DEFAULT, true) := by
  have htext : u.text = httpsPrefix ++ u.rest := by
    unfold text scheme
    rw [if_pos h]
    rfl
  have hnone : strstr httpPrefix u.text = none := by
    rw [strstr_secure h, <- Option.not_isSome_iff_eq_none, strstr_isSome_iff]
    exact hpath
  unfold parseScheme
  rw [hnone, htext, strstr_prefix (List.prefix_append _ _)]
  dsimp only [Option.getD_some]
  rw [List.drop_left]

/-- A path with another URL in it makes a secure locator a plain one. -/
theorem parseScheme_embedded (h : u.secure = true) (hpath : httpPrefix <:+: u.file) :
    (parseScheme u.text).2.2 = false := by
  have hsome : (strstr httpPrefix u.text).isSome := by
    rw [strstr_secure h, strstr_isSome_iff]
    exact hpath
  rcases Option.isSome_iff_exists.mp hsome with ⟨p, hp⟩
  unfold parseScheme
  rw [hp]

theorem parseScheme_text (hpath : u.secure = true -> ¬ httpPrefix <:+: u.file) :
    parseScheme u.text =
      (u.rest, if u.secure then HTTPS_PORT_DEFAULT else HTTP_PORT_DEFAULT, u.secure) := by
  cases hs : u.secure with
  | false => exact parseScheme_plain hs
  | true => exact parseScheme_secure hs (hpath hs)

/-!
## The host name and the port
-/

theorem portNumber_eq (u : Locator) : u.portNumber = (u.port.map decimalValue).getD
    (if u.secure then HTTPS_PORT_DEFAULT else HTTP_PORT_DEFAULT) := by
  unfold portNumber
  cases u.port with
  | none => rfl
  | some digits => rfl

theorem parseHost_ok {p pp : Bytes} {port : Nat} {isHttps : Bool} {r : Parsed}
    (h : parseHost p pp port isHttps = .ok r) :
    r.host = p.take (p.length - pp.length) ∧ r.isHttps = isHttps := by
  unfold parseHost at h
  dsimp only at h
  by_cases hlen : SERVER_NAME_SIZE ≤ p.length - pp.length
  · rw [if_pos hlen] at h
    cases h
  · rw [if_neg hlen] at h
    split at h
    · by_cases hslash : (simpleStrtol ‹Bytes› 10).2.head? ≠ some 47
      · rw [if_pos hslash] at h
        cases h
      · rw [if_neg hslash] at h
        by_cases hport : (simpleStrtol ‹Bytes› 10).1 > 65535
        · rw [if_pos hport] at h
          cases h
        · rw [if_neg hport] at h
          cases h
          exact ⟨rfl, rfl⟩
    · by_cases hslash : pp.head? ≠ some 47
      · rw [if_pos hslash] at h
        cases h
      · rw [if_neg hslash] at h
        cases h
        exact ⟨rfl, rfl⟩

theorem take_front (front back : Bytes) :
    (front ++ back).take ((front ++ back).length - back.length) = front := by
  rw [List.length_append, Nat.add_sub_cancel]
  exact List.take_left

theorem host_length_lt (back : Bytes) :
    ¬ SERVER_NAME_SIZE ≤ (u.host ++ back).length - back.length := by
  rw [List.length_append, Nat.add_sub_cancel]
  exact Nat.not_le.mpr u.host_short

theorem simpleStrtol_port {digits : Bytes} (h : Decimal digits) (hle : decimalValue digits ≤ 65535)
    (t : Bytes) : simpleStrtol (digits ++ 47 :: t) 10 = ((decimalValue digits : Int), 47 :: t) := by
  have hslash := simpleStrtoul_slash h (by omega) t
  have hlong : toLong (decimalValue digits) = decimalValue digits := if_pos (by omega)
  unfold simpleStrtol
  split
  · rename_i rest hrest
    rcases h with ⟨hne, hdigits⟩
    cases digits with
    | nil => exact absurd rfl hne
    | cons c digits =>
        simp only [List.cons_append, List.cons.injEq] at hrest
        have hc := hdigits c List.mem_cons_self
        rw [hrest.1] at hc
        exact absurd hc (by decide)
  · rw [hslash, hlong]

theorem parse_rest (hplain : u.port = none -> (58 : UInt8) ∉ u.path) (dflt : Nat)
    (isHttps : Bool) : exists pp, (strchr 58 u.rest).or (strchr 47 u.rest) = some pp ∧
      parseHost u.rest pp dflt isHttps =
        .ok ⟨u.host, (u.port.map decimalValue).getD dflt, u.file, isHttps⟩ := by
  have hcolon : (58 : UInt8) ∉ u.host := host_not_mem (by decide)
  have hslash : (47 : UInt8) ∉ u.host := host_not_mem (by decide)
  unfold rest portText
  cases hport : u.port with
  | none =>
      refine ⟨u.file, ?_, ?_⟩
      · have hfile : (58 : UInt8) ∉ u.file := by
          rw [file, List.mem_cons, not_or]
          exact ⟨by decide, hplain hport⟩
        dsimp only
        rw [List.nil_append, strchr_append hcolon, strchr_eq_none hfile, strchr_append hslash]
        exact strchr_cons_self 47 u.path
      · dsimp only
        rw [List.nil_append]
        unfold parseHost
        dsimp only
        rw [if_neg (host_length_lt _), take_front]
        exact if_neg (fun h => h rfl)
  | some digits =>
      rcases u.port_decimal digits hport with ⟨hdecimal, _, hle⟩
      refine ⟨58 :: (digits ++ u.file), ?_, ?_⟩
      · dsimp only
        rw [strchr_append hcolon, List.cons_append, strchr_cons_self]
        rfl
      · dsimp only
        rw [List.cons_append]
        unfold parseHost
        dsimp only
        rw [if_neg (host_length_lt _), take_front]
        simp only [file, simpleStrtol_port hdecimal hle]
        have hrange : ¬ ((decimalValue digits : Int) > 65535) := by omega
        have hport16 : ((decimalValue digits : Int) % 65536).toNat = decimalValue digits := by omega
        rw [if_neg (fun h => h rfl), if_neg hrange, hport16]
        rfl

/-- Without a port, a colon of the path ends the host name. -/
theorem parse_rest_colon (hport : u.port = none) (hcolon : (58 : UInt8) ∈ u.path) :
    exists pp, (strchr 58 u.rest).or (strchr 47 u.rest) = some pp ∧
      forall dflt isHttps r, parseHost u.rest pp dflt isHttps = .ok r -> r.host ≠ u.host := by
  rcases first_split hcolon with ⟨front, back, hpath, hfront⟩
  have hrest : u.rest = (u.host ++ 47 :: front) ++ 58 :: back := by
    unfold rest portText file
    rw [hport, hpath, List.nil_append, List.append_assoc, List.cons_append]
  have hno : (58 : UInt8) ∉ u.host ++ 47 :: front := by
    rw [List.mem_append, List.mem_cons, not_or, not_or]
    exact ⟨host_not_mem (by decide), by decide, hfront⟩
  refine ⟨58 :: back, ?_, ?_⟩
  · rw [hrest, strchr_append hno, strchr_cons_self]
    rfl
  · intro dflt isHttps r hr hhost
    have htake := (parseHost_ok hr).1
    rw [hrest, take_front, hhost] at htake
    have hlen := congrArg List.length htake
    rw [List.length_append, List.length_cons] at hlen
    omega

end Locator

theorem parseUrl_ok {url : Bytes} {r : Parsed} (h : parseUrl true true url = .ok r) :
    wgetValidateUri true true url = true ∧ exists pp,
      (strchr 58 (parseScheme url).1).or (strchr 47 (parseScheme url).1) = some pp ∧
        parseHost (parseScheme url).1 pp (parseScheme url).2.1 (parseScheme url).2.2 = .ok r := by
  unfold parseUrl at h
  cases hvalid : wgetValidateUri true true url with
  | false =>
      rw [if_pos hvalid] at h
      cases h
  | true =>
      rw [hvalid, if_neg (by decide)] at h
      dsimp only at h
      cases hpp : (strchr 58 (parseScheme url).1).or (strchr 47 (parseScheme url).1) with
      | none =>
          rw [hpp] at h
          cases h
      | some pp =>
          rw [hpp] at h
          exact ⟨rfl, pp, rfl, h⟩

theorem parseUrl_of_scheme {u : Locator} {dflt : Nat}
    (hhost : forall b, b ∈ u.host -> Printable b) (hplain : u.port = none -> (58 : UInt8) ∉ u.path)
    (hscheme : parseScheme u.text = (u.rest, dflt, u.secure)) :
    parseUrl true true u.text =
      .ok ⟨u.host, (u.port.map decimalValue).getD dflt, u.file, u.secure⟩ := by
  rcases Locator.parse_rest hplain dflt u.secure with ⟨pp, hpp, hparse⟩
  unfold parseUrl
  rw [Locator.validate_text_iff.mpr hhost, if_neg (by decide), hscheme]
  dsimp only
  rw [hpp]
  exact hparse

/-- `parse_url` names what the locator says exactly when the host name can be
checked, the path of a locator without a port holds no colon, and the path of a
secure one no `http://`. -/
theorem parse_url_iff (u : Locator) :
    parseUrl true true u.text = .ok u.target <->
      (forall b, b ∈ u.host -> Printable b) ∧ (u.port = none -> (58 : UInt8) ∉ u.path) ∧
        (u.secure = true -> ¬ httpPrefix <:+: u.file) := by
  constructor
  · intro h
    rcases parseUrl_ok h with ⟨hvalid, pp, hpp, hparse⟩
    have hsecure : u.secure = true -> ¬ httpPrefix <:+: u.file := by
      intro hs hpath
      have hplain := (Locator.parseHost_ok hparse).2
      rw [Locator.parseScheme_embedded hs hpath] at hplain
      rw [Locator.target, hs] at hplain
      cases hplain
    have hrest : (parseScheme u.text).1 = u.rest := by
      cases hs : u.secure with
      | false => rw [Locator.parseScheme_plain hs]
      | true => rw [Locator.parseScheme_secure hs (hsecure hs)]
    refine ⟨Locator.validate_text_iff.mp hvalid, ?_, hsecure⟩
    intro hport hcolon
    rcases Locator.parse_rest_colon hport hcolon with ⟨pp', hpp', hwrong⟩
    rw [hrest, hpp'] at hpp
    cases hpp
    rw [hrest] at hparse
    exact hwrong _ _ _ hparse rfl
  · rintro ⟨hhost, hplain, hsecure⟩
    rw [parseUrl_of_scheme hhost hplain (Locator.parseScheme_text hsecure),
      <- Locator.portNumber_eq]
    rfl

def embedded : Locator where
  secure := true
  host := str "a"
  port := none
  path := str "?u=http://b/"
  host_ne := by decide
  host_short := by decide
  host_plain := by decide +kernel
  port_decimal := by
    intro digits h
    cases h
  path_printable := by decide +kernel

/-- It is fetched from the other URL, without TLS. -/
theorem embedded_fetched_in_plain :
    parseUrl true true embedded.text = .ok ⟨str "b", 80, str "/", false⟩ ∧
      parseUrl true true embedded.text ≠ .ok embedded.target := by
  decide +kernel

end Lwip
end Hlk7621
