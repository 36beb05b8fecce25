import Hlk7621.Webflash.EnvForm
import Hlk7621.Webflash.Nor
import Hlk7621.Webflash.Views

/-!
# Numbers in requests

What `Content-Length` and `bootdelay` have to look like for a request to be
taken.  The server means decimal numerals; `simple_strtoul` also takes numerals
with a `0x` prefix and reads long ones modulo `2 ^ 32`, so that a field is taken
for what it does not say exactly when such a misreading passes all other checks.
-/

namespace Hlk7621
namespace Webflash

open UBoot (Decimal decimalValue ReadsAs MisreadAs)

/-!
## The first field of a name
-/

def fieldLines : Nat -> Bytes -> List Bytes
  | 0, _ => []
  | fuel + 1, text =>
      if text = [] ∨ text.take 2 = CRLF then []
      else
        match splitCrlf text with
        | none => []
        | some (line, rest) => line :: fieldLines fuel rest

def firstField (header : Bytes) (name : String) : Option Bytes :=
  match splitCrlf (cstr header) with
  | none => none
  | some (_, text) =>
      ((fieldLines text.length text).find? fun line => fieldIs line (str name)).map
        fun line => fieldValue line (str name)

theorem headerValueLoop_eq (name : Bytes) (valueSize fuel : Nat) (text : Bytes) :
    headerValueLoop name valueSize fuel text =
      match (fieldLines fuel text).find? fun line => fieldIs line name with
      | none => .error (-ENOENT)
      | some line =>
          if (fieldValue line name).length ≥ valueSize then .error (-E2BIG)
          else .ok (fieldValue line name) := by
  induction fuel generalizing text with
  | zero => rfl
  | succ fuel ih =>
      unfold headerValueLoop fieldLines
      by_cases hend : text = [] ∨ text.take 2 = CRLF
      · rw [if_pos hend, if_pos hend]
        rfl
      · rw [if_neg hend, if_neg hend]
        cases splitCrlf text with
        | none => rfl
        | some r =>
            simp only [List.find?_cons]
            cases fieldIs r.1 name with
            | true => rfl
            | false => exact ih r.2

theorem headerValue_ok_iff {header : Bytes} {name : String} {size : Nat}
    {v : Bytes} :
    headerValue header name size = .ok v <->
      firstField header name = some v ∧ v.length < size := by
  unfold headerValue firstField
  cases splitCrlf (cstr header) with
  | none => simp
  | some r =>
      simp only [headerValueLoop_eq]
      cases (fieldLines r.2.length r.2).find? fun line => fieldIs line (str name) with
      | none => simp
      | some line =>
          simp only [Option.map_some, Option.some.injEq]
          split
          · rename_i hlong
            constructor
            · intro h
              cases h
            · rintro ⟨rfl, hlt⟩
              omega
          · rename_i hshort
            constructor
            · intro h
              cases h
              exact ⟨rfl, by omega⟩
            · rintro ⟨rfl, -⟩
              rfl

theorem getContentLength_ok_iff {header : Bytes} {n : Nat} :
    getContentLength header = .ok n <->
      exists v, firstField header "Content-Length" = some v ∧ v.length < 32 ∧
        ReadsAs v n := by
  unfold getContentLength ReadsAs
  cases hv : headerValue header "Content-Length" 32 with
  | error e =>
      constructor
      · intro h
        cases h
      · rintro ⟨v, hfirst, hlen, -⟩
        rw [headerValue_ok_iff.mpr ⟨hfirst, hlen⟩] at hv
        cases hv
  | ok v =>
      rcases headerValue_ok_iff.mp hv with ⟨hfirst, hlen⟩
      constructor
      · intro h
        simp only at h
        split at h
        · cases h
        · rename_i hend
          cases h
          rw [not_or, not_not] at hend
          exact ⟨v, hfirst, hlen, hend.left, hend.right, rfl⟩
      · rintro ⟨v', hfirst', -, hmoved, hend, hn⟩
        rw [hfirst] at hfirst'
        cases hfirst'
        simp only
        rw [if_neg (by rw [not_or, not_not]; exact ⟨hmoved, hend⟩), hn]

/-!
## Content lengths
-/

section

variable {E : Type} (P : Platform E)

/-- An accepted upload has a decimal `Content-Length` within the limits of its
target, and this is the length that the server waits for. -/
def UploadMeant (cb : Call) (part : Partition) (w : World E) : Prop :=
  (prepareUpload P cb part w).1 = 0 ->
    exists v, firstField w.ctx.header "Content-Length" = some v ∧ Decimal v ∧
      uploadSizeOk part (decimalValue v) = true ∧
      (prepareUpload P cb part w).2.ctx.contentLength = decimalValue v

/-- An accepted form has a decimal `Content-Length` that fits the body buffer,
and this is the length that the server waits for. -/
def BodyMeant (action : BodyAction) (w : World E) : Prop :=
  (prepareBody P action w).1 = 0 ->
    exists v, firstField w.ctx.header "Content-Length" = some v ∧ Decimal v ∧
      (0 < decimalValue v ∧ decimalValue v < BODY_SIZE) ∧
      (prepareBody P action w).2.ctx.contentLength = decimalValue v

def MisreadLength (header : Bytes) (n : Nat) : Prop :=
  exists v, firstField header "Content-Length" = some v ∧ v.length < 32 ∧
    MisreadAs v n

def UploadMisread (part : Partition) (w : World E) : Prop :=
  operationBlocked w.ctx = false ∧
    exists n, MisreadLength w.ctx.header n ∧ uploadSizeOk part n = true ∧
      (rangeValid P n w).1 = true

def BodyMisread (w : World E) : Prop :=
  operationBlocked w.ctx = false ∧
    exists n, MisreadLength w.ctx.header n ∧ 0 < n ∧ n < BODY_SIZE

variable {P}

theorem prepareUpload_zero {cb : Call} {part : Partition} {w : World E}
    (h : (prepareUpload P cb part w).1 = 0) :
    operationBlocked w.ctx = false ∧
      exists n, getContentLength w.ctx.header = .ok n ∧
        uploadSizeOk part n = true ∧ (rangeValid P n w).1 = true := by
  unfold prepareUpload at h
  split at h
  · exact absurd h (show (-EBUSY : Int) ≠ 0 by decide)
  · rename_i hidle
    refine ⟨by simpa using hidle, ?_⟩
    split at h
    · split at h
      · rename_i he
        exact absurd (he.symm.trans h) (by decide)
      · exact absurd h (show (-EFBIG : Int) ≠ 0 by decide)
    · rename_i n hn
      split at h
      · exact absurd h (show (-EFBIG : Int) ≠ 0 by decide)
      · rename_i hsize
        dsimp only at h
        split at h
        · exact absurd h (show (-ERANGE : Int) ≠ 0 by decide)
        · rename_i hrange
          exact ⟨n, hn, by simpa using hsize, by simpa using hrange⟩

theorem prepareUpload_accepts (cb : Call) {part : Partition} {w : World E}
    {n : Nat} (hidle : operationBlocked w.ctx = false)
    (hn : getContentLength w.ctx.header = .ok n)
    (hsize : uploadSizeOk part n = true) (hrange : (rangeValid P n w).1 = true) :
    prepareUpload P cb part w =
      (0, beginUpload cb part n (rangeValid P n w).2) := by
  unfold prepareUpload
  rw [hidle, hn]
  simp [hsize, hrange]

theorem prepareBody_zero {action : BodyAction} {w : World E}
    (h : (prepareBody P action w).1 = 0) :
    operationBlocked w.ctx = false ∧
      exists n, getContentLength w.ctx.header = .ok n ∧ 0 < n ∧ n < BODY_SIZE := by
  unfold prepareBody at h
  split at h
  · exact absurd h (show (-EBUSY : Int) ≠ 0 by decide)
  · rename_i hidle
    refine ⟨by simpa using hidle, ?_⟩
    split at h
    · split at h
      · rename_i he
        exact absurd (he.symm.trans h) (by decide)
      · exact absurd h (show (-EFBIG : Int) ≠ 0 by decide)
    · rename_i n hn
      split at h
      · exact absurd h (show (-EFBIG : Int) ≠ 0 by decide)
      · exact ⟨n, hn, by omega, by omega⟩

theorem prepareBody_accepts (action : BodyAction) {w : World E} {n : Nat}
    (hidle : operationBlocked w.ctx = false)
    (hn : getContentLength w.ctx.header = .ok n) (hpos : 0 < n)
    (hsize : n < BODY_SIZE) :
    prepareBody P action w = (0, beginBody action n w) := by
  have hfits : ¬ (n = 0 ∨ n ≥ BODY_SIZE) := by omega
  unfold prepareBody
  rw [hidle, hn]
  simp [hfits]

theorem meant_or_misread {header : Bytes} {n : Nat}
    (h : getContentLength header = .ok n) :
    (exists v, firstField header "Content-Length" = some v ∧ Decimal v ∧
      decimalValue v = n) ∨ MisreadLength header n := by
  rcases getContentLength_ok_iff.mp h with ⟨v, hfirst, hlen, hreads⟩
  rcases (UBoot.readsAs_iff v n).mp hreads with ⟨hdec, hval, -⟩ | hmis
  · exact .inl ⟨v, hfirst, hdec, hval⟩
  · exact .inr ⟨v, hfirst, hlen, hmis⟩

theorem MisreadLength.ok {header : Bytes} {n : Nat} (h : MisreadLength header n) :
    getContentLength header = .ok n := by
  rcases h with ⟨v, hfirst, hlen, hmis⟩
  exact getContentLength_ok_iff.mpr
    ⟨v, hfirst, hlen, (UBoot.readsAs_iff v n).mpr (.inr hmis)⟩

theorem MisreadLength.not_meant {header : Bytes} {n : Nat}
    (h : MisreadLength header n) {v : Bytes}
    (hv : firstField header "Content-Length" = some v) :
    ¬ (Decimal v ∧ decimalValue v = n) := by
  rcases h with ⟨v', hfirst, -, hmis⟩
  rw [hv] at hfirst
  cases hfirst
  exact hmis.not_denoted

theorem uploadMeant_iff (cb : Call) (part : Partition) (w : World E) :
    UploadMeant P cb part w <-> ¬ UploadMisread P part w := by
  constructor
  · rintro h ⟨hidle, n, hmis, hsize, hrange⟩
    have haccepts := prepareUpload_accepts cb hidle hmis.ok hsize hrange
    unfold UploadMeant at h
    rw [haccepts] at h
    rcases h rfl with ⟨v, hfirst, hdec, -, hlen⟩
    exact hmis.not_meant hfirst ⟨hdec, hlen.symm⟩
  · intro hnot hzero
    rcases prepareUpload_zero hzero with ⟨hidle, n, hn, hsize, hrange⟩
    rcases meant_or_misread hn with ⟨v, hfirst, hdec, rfl⟩ | hmis
    · rw [prepareUpload_accepts cb hidle hn hsize hrange]
      exact ⟨v, hfirst, hdec, hsize, rfl⟩
    · exact absurd ⟨hidle, n, hmis, hsize, hrange⟩ hnot

theorem bodyMeant_iff (action : BodyAction) (w : World E) :
    BodyMeant P action w <-> ¬ BodyMisread w := by
  constructor
  · rintro h ⟨hidle, n, hmis, hpos, hsize⟩
    have haccepts := prepareBody_accepts (P := P) action hidle hmis.ok hpos hsize
    unfold BodyMeant at h
    rw [haccepts] at h
    rcases h rfl with ⟨v, hfirst, hdec, -, hlen⟩
    exact hmis.not_meant hfirst ⟨hdec, hlen.symm⟩
  · intro hnot hzero
    rcases prepareBody_zero hzero with ⟨hidle, n, hn, hpos, hsize⟩
    rcases meant_or_misread hn with ⟨v, hfirst, hdec, rfl⟩ | hmis
    · rw [prepareBody_accepts action hidle hn hpos hsize]
      exact ⟨v, hfirst, hdec, ⟨hpos, hsize⟩, rfl⟩
    · exact absurd ⟨hidle, n, hmis, hpos, hsize⟩ hnot

end

/-!
## Boot delays

The updates of the environment are observed on a platform that also keeps the
calls of `env_set`.
-/

section

variable {E : Type}

abbrev EnvCall := Bytes × Option Bytes

/-- The platform with a record of the `env_set` calls, the latest first. -/
def Platform.recorded (P : Platform E) : Platform (E × List EnvCall) where
  toBoard := P.toBoard
  spiFlashErase off len e := (P.spiFlashErase off len e.1).map id (·, e.2)
  spiFlashWrite off data e := (P.spiFlashWrite off data e.1).map id (·, e.2)
  spiFlashRead off len e :=
    let r := P.spiFlashRead off len e.1
    (r.1, r.2.1, r.2.2, e.2)
  tcpSndbuf pcb e := P.tcpSndbuf pcb e.1
  tcpWrite pcb data e := (P.tcpWrite pcb data e.1).map id (·, e.2)
  tcpOutput pcb e := (P.tcpOutput pcb e.1).map id (·, e.2)
  tcpClose pcb e := (P.tcpClose pcb e.1).map id (·, e.2)
  tcpAbort pcb e := (P.tcpAbort pcb e.1, e.2)
  envGet name e := P.envGet name e.1
  envSet name value e :=
    (P.envSet name value e.1).map id (·, (name, value) :: e.2)
  envSetHex name n e := (P.envSetHex name n e.1).map id (·, e.2)
  envSetDefault e := (P.envSetDefault e.1, e.2)
  envSave e := (P.envSave e.1).map id (·, e.2)
  lmbReadCheck base size e := (P.lmbReadCheck base size e.1).map id (·, e.2)
  bootm addr ram e := (P.bootm addr ram e.1).map fun r => (r.1, r.2, e.2)

theorem kept_recorded (P : Platform E) :
    Kept P.recorded fun w => Prod.snd w.ext :=
  kept_ext (fun _ _ _ => rfl) (fun _ _ => rfl) (fun _ _ => rfl)
    (fun _ _ _ => rfl)

def World.recording (w : World E) : World (E × List EnvCall) where
  ctx := w.ctx
  ram := w.ram
  ext := (w.ext, [])
  net := w.net
  log := w.log
  halted := w.halted

variable (P : Platform E)

def envCalls (w : World E) : List EnvCall :=
  (envSave P.recorded w.recording).2.ext.2

/-- A boot delay is stored only if it is a decimal number from 0 to 30. -/
def DelayMeant (w : World E) : Prop :=
  forall b, (str "bootdelay", some b) ∈ envCalls P w ->
    Decimal b ∧ decimalValue b ≤ 30

def addressUpdates (ipaddr netmask serverip : Bytes) : List EnvCall :=
  [(str "ipaddr", some ipaddr), (str "netmask", some netmask),
    (str "serverip", if serverip = [] then none else some serverip)]

def addressesOk (ipaddr netmask serverip : Bytes) : Bool :=
  ipv4Valid ipaddr && (Lwip.ip4addrAton netmask).any Lwip.ip4AddrNetmaskValid &&
    (serverip == [] || ipv4Valid serverip)

/-- The fields of a form up to the boot delay `bootdelay` pass the checks of the
server, and the environment takes them. -/
def ReachesDelay (w : World E) (bootdelay : Bytes) : Prop :=
  formValue w.ctx.body (str "bootdelay") 12 = .ok bootdelay ∧
    exists ipaddr netmask serverip,
      formValue w.ctx.body (str "ipaddr") 24 = .ok ipaddr ∧
      formValue w.ctx.body (str "netmask") 24 = .ok netmask ∧
      formValue w.ctx.body (str "serverip") 24 = .ok serverip ∧
      addressesOk ipaddr netmask serverip = true ∧
      (envSetAll P (addressUpdates ipaddr netmask serverip) w.ext).1 = 0

def DelayMisread (w : World E) : Prop :=
  exists b n, ReachesDelay P w b ∧ MisreadAs b n ∧ n ≤ 30

variable {P}

theorem envSetAll_cons (name : Bytes) (value : Option Bytes)
    (rest : List EnvCall) (e : E) :
    envSetAll P ((name, value) :: rest) e =
      if (P.envSet name value e).1 ≠ 0 then P.envSet name value e
      else envSetAll P rest (P.envSet name value e).2 := rfl

theorem envSetAll_cons_zero (name : Bytes) (value : Option Bytes)
    (rest : List EnvCall) (e : E) :
    (envSetAll P ((name, value) :: rest) e).1 = 0 <->
      (P.envSet name value e).1 = 0 ∧
        (envSetAll P rest (P.envSet name value e).2).1 = 0 := by
  rw [envSetAll_cons]
  by_cases hzero : (P.envSet name value e).1 = 0
  · simp [hzero]
  · simp [hzero]

theorem mem_envSetAll_recorded {calls : List EnvCall} {x : EnvCall}
    (l : List EnvCall) (e : E) :
    x ∈ (envSetAll P.recorded l (e, calls)).2.2 <->
      x ∈ calls ∨
        exists pre post, l = pre ++ x :: post ∧ (envSetAll P pre e).1 = 0 := by
  induction l generalizing e calls with
  | nil => simp [envSetAll]
  | cons y rest ih =>
      rcases y with ⟨name, value⟩
      have hfirst : (exists pre post, (name, value) :: rest = pre ++ x :: post ∧
            (envSetAll P pre e).1 = 0) <->
          x = (name, value) ∨ (P.envSet name value e).1 = 0 ∧
            exists pre post, rest = pre ++ x :: post ∧
              (envSetAll P pre (P.envSet name value e).2).1 = 0 := by
        constructor
        · rintro ⟨_ | ⟨z, pre⟩, post, hl, hpre⟩
          · cases hl
            exact .inl rfl
          · cases hl
            rw [envSetAll_cons_zero] at hpre
            exact .inr ⟨hpre.left, pre, post, rfl, hpre.right⟩
        · rintro (rfl | ⟨hzero, pre, post, rfl, hpre⟩)
          · exact ⟨[], rest, rfl, rfl⟩
          · exact ⟨(name, value) :: pre, post, rfl,
              (envSetAll_cons_zero _ _ _ _).mpr ⟨hzero, hpre⟩⟩
      rw [hfirst, envSetAll_cons]
      by_cases hzero : (P.envSet name value e).1 = 0
      · have hcond : ¬ (P.recorded.envSet name value (e, calls)).1 ≠ 0 :=
          not_not.mpr hzero
        rw [if_neg hcond]
        rw [show (P.recorded.envSet name value (e, calls)).2 =
          ((P.envSet name value e).2, (name, value) :: calls) from rfl, ih]
        simp only [List.mem_cons, hzero, true_and]
        tauto
      · have hcond : (P.recorded.envSet name value (e, calls)).1 ≠ 0 := hzero
        rw [if_pos hcond]
        rw [show (P.recorded.envSet name value (e, calls)).2.2 =
          (name, value) :: calls from rfl]
        simp only [List.mem_cons, hzero, false_and, or_false]
        tauto

theorem mem_updates_recorded {ipaddr netmask serverip bootdelay b : Bytes}
    (e : E) :
    (str "bootdelay", some b) ∈
        (envSetAll P.recorded (addressUpdates ipaddr netmask serverip ++
          [(str "bootdelay", some bootdelay)]) (e, [])).2.2 <->
      b = bootdelay ∧
        (envSetAll P (addressUpdates ipaddr netmask serverip) e).1 = 0 := by
  have hip : str "ipaddr" ≠ str "bootdelay" := by decide
  have hmask : str "netmask" ≠ str "bootdelay" := by decide
  have hserver : str "serverip" ≠ str "bootdelay" := by decide
  rw [mem_envSetAll_recorded]
  constructor
  · rintro (hmem | ⟨pre, post, hl, hpre⟩)
    · cases hmem
    · unfold addressUpdates at hl
      rcases pre with _ | ⟨p1, _ | ⟨p2, _ | ⟨p3, pre⟩⟩⟩
      · simp [hip] at hl
      · simp [hmask] at hl
      · simp [hserver] at hl
      · rcases pre with _ | ⟨p4, pre⟩
        · simp only [List.cons_append, List.nil_append, List.cons.injEq,
            Prod.mk.injEq, true_and, Option.some.injEq] at hl
          rcases hl with ⟨rfl, rfl, rfl, rfl, -⟩
          exact ⟨rfl, hpre⟩
        · simp at hl
  · rintro ⟨rfl, hpre⟩
    exact .inr ⟨_, [], rfl, hpre⟩

theorem envStore_calls (ipaddr netmask serverip bootdelay : Bytes)
    (w : World E) :
    (envStore P.recorded ipaddr netmask serverip bootdelay w.recording).2.ext.2 =
      (envSetAll P.recorded (addressUpdates ipaddr netmask serverip ++
        [(str "bootdelay", some bootdelay)]) (w.ext, [])).2.2 := by
  have hk := kept_recorded P
  unfold envStore
  rw [show [(str "ipaddr", some ipaddr), (str "netmask", some netmask),
      (str "serverip", if serverip = [] then none else some serverip),
      (str "bootdelay", some bootdelay)] =
    addressUpdates ipaddr netmask serverip ++
      [(str "bootdelay", some bootdelay)] from rfl,
    show w.recording.ext = (w.ext, []) from rfl]
  generalize envSetAll P.recorded (addressUpdates ipaddr netmask serverip ++
    [(str "bootdelay", some bootdelay)]) (w.ext, []) = r
  dsimp only
  split
  · exact hk.error _ _ _
  · split
    · exact hk.error _ _ _
    · exact hk.ok _ _

theorem addressesOk_eq_false (ipaddr netmask serverip : Bytes) :
    (!ipv4Valid ipaddr ||
      !(Lwip.ip4addrAton netmask).any Lwip.ip4AddrNetmaskValid ||
      (serverip != [] && !ipv4Valid serverip)) =
      !addressesOk ipaddr netmask serverip := by
  unfold addressesOk
  simp only [Bool.not_and, Bool.not_or, bne]

theorem mem_envCalls {w : World E} {b : Bytes} :
    (str "bootdelay", some b) ∈ envCalls P w <->
      ReachesDelay P w b ∧ exists n, ReadsAs b n ∧ n ≤ 30 := by
  have hk := kept_recorded P
  have hnone : forall status message : String,
      (str "bootdelay", some b) ∉ (error P.recorded status message w.recording).ext.2 := by
    intro status message hmem
    rw [hk.error] at hmem
    cases hmem
  unfold envCalls envSave
  rw [show w.recording.ctx = w.ctx from rfl]
  unfold ReachesDelay
  split
  · rename_i ipaddr netmask serverip bootdelay hip hmask hserver hdelay
    rw [hip, hmask, hserver, hdelay, addressesOk_eq_false]
    split
    · rename_i hbad
      constructor
      · intro hmem
        exact absurd hmem (hnone _ _)
      · rintro ⟨⟨-, i, m, s, hi, hm, hs, hok, -⟩, -⟩
        cases hi
        cases hm
        cases hs
        simp [hok] at hbad
    · rename_i hgood
      have hok : addressesOk ipaddr netmask serverip = true := by
        simpa using hgood
      dsimp only
      split
      · rename_i hbad
        constructor
        · intro hmem
          exact absurd hmem (hnone _ _)
        · rintro ⟨⟨hb, -⟩, n, ⟨hmoved, hend, hn⟩, hle⟩
          cases hb
          rcases hbad with h | h | h
          · exact absurd h hmoved
          · exact absurd hend h
          · omega
      · rename_i hread
        rw [not_or, not_or, not_not] at hread
        rw [envStore_calls, mem_updates_recorded]
        constructor
        · rintro ⟨rfl, hset⟩
          exact ⟨⟨rfl, ipaddr, netmask, serverip, rfl, rfl, rfl, hok, hset⟩,
            _, ⟨hread.left, hread.right.left, rfl⟩, by omega⟩
        · rintro ⟨⟨hb, i, m, s, hi, hm, hs, -, hset⟩, -⟩
          cases hb
          cases hi
          cases hm
          cases hs
          exact ⟨rfl, hset⟩
  · rename_i hmissing
    constructor
    · intro hmem
      exact absurd hmem (hnone _ _)
    · rintro ⟨⟨hb, i, m, s, hi, hm, hs, -⟩, -⟩
      exact absurd hb (hmissing i m s b hi hm hs)

theorem delayMeant_iff (w : World E) :
    DelayMeant P w <-> ¬ DelayMisread P w := by
  constructor
  · rintro h ⟨b, n, hreach, hmis, hle⟩
    have hreads : ReadsAs b n := (UBoot.readsAs_iff b n).mpr (.inr hmis)
    have hmeant := h b (mem_envCalls.mpr ⟨hreach, n, hreads, hle⟩)
    rcases hmis with ⟨-, hbig, -⟩ | ⟨digits, hpre, -⟩
    · omega
    · rcases hpre.left with rfl | rfl
      · exact absurd (hmeant.left.right 120 (by simp)) (by decide)
      · exact absurd (hmeant.left.right 88 (by simp)) (by decide)
  · intro hnot b hmem
    rcases mem_envCalls.mp hmem with ⟨hreach, n, hreads, hle⟩
    rcases (UBoot.readsAs_iff b n).mp hreads with ⟨hdec, rfl, -⟩ | hmis
    · exact ⟨hdec, hle⟩
    · exact absurd ⟨b, n, hreach, hmis, hle⟩ hnot

/-!
## All numbers of a request
-/

variable (P) in
def NumbersMeant (cb : Call) (part : Partition) (action : BodyAction)
    (w : World E) : Prop :=
  UploadMeant P cb part w ∧ BodyMeant P action w ∧ DelayMeant P w

/-- Numbers mean what they say except where a misread number passes every other
check of the request. -/
theorem numbers_meant_iff (P : Platform E) (cb : Call) (part : Partition)
    (action : BodyAction) (w : World E) :
    NumbersMeant P cb part action w <->
      ¬ UploadMisread P part w ∧ ¬ BodyMisread w ∧ ¬ DelayMisread P w :=
  and_congr (uploadMeant_iff cb part w)
    (and_congr (bodyMeant_iff action w) (delayMeant_iff w))

end

def longForm : World (Nat -> UInt8) :=
  { hlk7621aStart with
    ctx := { hlk7621aStart.ctx with
      header := httpRequest "POST /api/env" ["Content-Length: 4294967396"] } }

/-- The form is accepted, and the server waits for 100 bytes. -/
theorem long_form_not_meant :
    ¬ NumbersMeant (norPlatform hlk7621a) ⟨1, 0⟩ hlk7621a.firmwarePartition .envSave
      longForm := by
  have hread : UBoot.MisreadAs (str "4294967396") 100 := by
    refine .inl ⟨by decide +kernel, by decide +kernel, ?_⟩
    unfold u32
    decide +kernel
  have hmis : BodyMisread longForm :=
    ⟨by decide, 100, ⟨str "4294967396", by decide +kernel, by decide, hread⟩,
      by decide, by decide⟩
  exact fun h => (bodyMeant_iff .envSave longForm).mp h.right.left hmis

end Webflash
end Hlk7621
