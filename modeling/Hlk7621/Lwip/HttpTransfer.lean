import Hlk7621.Lib.Storing
import Hlk7621.Lwip.HttpAnswer

/-!
# HTTP transfers

An answer is a header and a body, and the connection delivers them in chains that may be
cut anywhere.  What is stored and how the transfer ends depends on the answer only, as
long as the status line has a reason phrase and the length is in the header or nowhere.
The last word has the environment, which may not take the size of the file.
-/

namespace Hlk7621
namespace Lwip
namespace Httpc

/-!
## Storing
-/

variable {L : Type}

/-- What is stored is the front of the body, at the load address and nowhere else. -/
structure Stored (body : Bytes) (dst : Nat) (mem : Nat -> UInt8) (w : Client L) : Prop where
  mem : w.mem = overwrite mem dst (body.take w.size)
  size : w.size ≤ body.length
  daddr : w.daddr = dst + w.size

structure SameProtocol (info : WgetInfo) (w w' : Client L) : Prop where
  closed : w'.closed = w.closed
  broken : info.silent = true ∨ w.hdrContentLen ≠ 0 -> w'.broken = w.broken
  parseState : w'.parseState = w.parseState
  rxStatus : w'.rxStatus = w.rxStatus
  rxContentLen : w'.rxContentLen = w.rxContentLen
  hdrContentLen : w'.hdrContentLen = w.hdrContentLen
  savedDaddr : w'.savedDaddr = w.savedDaddr
  done : w'.done = w.done

variable (lmbReadCheck : Nat -> Nat -> L -> Int × L)
  {envSetHex : Bytes -> Nat -> L -> Int × L} (info : WgetInfo) {body : Bytes} {dst : Nat}
  {mem : Nat -> UInt8}

theorem SameProtocol.refl (w : Client L) : SameProtocol info w w :=
  ⟨rfl, fun _ => rfl, rfl, rfl, rfl, rfl, rfl, rfl⟩

variable {info} in
theorem SameProtocol.trans {w w' w'' : Client L} (h : SameProtocol info w w')
    (h' : SameProtocol info w' w'') : SameProtocol info w w'' :=
  ⟨h'.closed.trans h.closed,
    fun hmarks => (h'.broken (h.hdrContentLen.symm ▸ hmarks)).trans (h.broken hmarks),
    h'.parseState.trans h.parseState, h'.rxStatus.trans h.rxStatus,
    h'.rxContentLen.trans h.rxContentLen, h'.hdrContentLen.trans h.hdrContentLen,
    h'.savedDaddr.trans h.savedDaddr, h'.done.trans h.done⟩

theorem storeBlock_same (src : Bytes) (w : Client L) :
    SameProtocol info w (storeBlock lmbReadCheck info src w).2 := by
  unfold storeBlock
  dsimp only
  split
  · exact SameProtocol.refl info w
  · split
    · refine ⟨rfl, fun hmarks => ?_, rfl, rfl, rfl, rfl, rfl, rfl⟩
      rcases hmarks with hsilent | hlen
      · simp [hsilent]
      · simp [hlen]
    · exact ⟨rfl, fun _ => rfl, rfl, rfl, rfl, rfl, rfl, rfl⟩

theorem storeBlocks_same (chain : List Bytes) (w : Client L) :
    SameProtocol info w (storeBlocks lmbReadCheck info chain w).2 := by
  induction chain generalizing w with
  | nil => exact SameProtocol.refl info w
  | cons buf rest ih =>
      rw [storeBlocks]
      split
      · exact (storeBlock_same lmbReadCheck info buf w).trans (ih _)
      · exact storeBlock_same lmbReadCheck info buf w

theorem storeBlock_spec {w : Client L} {src : Bytes} (hst : Stored body dst mem w)
    (hroom : dst + body.length < 2 ^ 32) (hsrc : src <+: body.drop w.size) :
    let r := storeBlock lmbReadCheck info src w
    Stored body dst mem r.2 ∧ (r.1 = true -> r.2.size = w.size + src.length) := by
  have hlen := length_le_of_prefix_drop hsrc
  have hsize := hst.size
  have hdaddr := hst.daddr
  unfold storeBlock
  dsimp only
  split
  · exact ⟨hst, nofun⟩
  · split
    · rw [u32_of_lt (by lia : w.size + src.length < 2 ^ 32),
        u32_of_lt (by lia : w.daddr + src.length < 2 ^ 32)]
      refine ⟨⟨?_, ?_, ?_⟩, fun _ => rfl⟩
      · show overwrite w.mem w.daddr src = overwrite mem dst _
        rw [hst.mem, hdaddr]
        exact overwrite_front mem dst hsize hsrc
      · show w.size + src.length ≤ body.length
        lia
      · show w.daddr + src.length = dst + (w.size + src.length)
        lia
    · exact ⟨⟨hst.mem, hst.size, hst.daddr⟩, nofun⟩

theorem storeBlocks_spec {chain : List Bytes} {w : Client L} (hst : Stored body dst mem w)
    (hroom : dst + body.length < 2 ^ 32) (hchain : chain.flatten <+: body.drop w.size) :
    let r := storeBlocks lmbReadCheck info chain w
    Stored body dst mem r.2 ∧ (r.1 = true -> r.2.size = w.size + chain.flatten.length) := by
  induction chain generalizing w with
  | nil => exact ⟨hst, fun _ => rfl⟩
  | cons buf rest ih =>
      rw [List.flatten_cons] at hchain
      have hbuf : buf <+: body.drop w.size := (List.prefix_append buf _).trans hchain
      rcases storeBlock_spec lmbReadCheck info hst hroom hbuf with ⟨hst', hsize⟩
      rw [storeBlocks]
      by_cases hok : (storeBlock lmbReadCheck info buf w).1 = true
      · have hrest : rest.flatten <+:
            body.drop (storeBlock lmbReadCheck info buf w).2.size := by
          rw [hsize hok]
          exact prefix_drop_append hchain
        rcases ih hst' hrest with ⟨hst'', hsize'⟩
        rw [if_pos hok]
        refine ⟨hst'', fun hall => ?_⟩
        rw [hsize' hall, hsize hok, List.flatten_cons, List.length_append, Nat.add_assoc]
      · rw [if_neg hok]
        exact ⟨hst', fun h => absurd h hok⟩

structure Fits (an : Answer) : Prop where
  announced : info.checkBufferSize = true -> an.contentLen ≤ info.bufferSize
  buffer : info.bufferSize = 0 ∨ an.body.length ≤ info.bufferSize
  granted : info.setBootdev = true -> forall addr len lmb, (lmbReadCheck addr len lmb).1 = 0

/-- The body ends below 4 GiB, and the hash marks do not go by a length of zero. -/
structure Safe (dst : Nat) (an : Answer) : Prop where
  room : dst + an.body.length < 2 ^ 32
  marks : info.silent = true ∨ an.contentLen ≠ 0

theorem storeBlock_ok {an : Answer} {w : Client L} {src : Bytes}
    (hfits : Fits lmbReadCheck info an)
    (hst : Stored an.body dst mem w) (hroom : dst + an.body.length < 2 ^ 32)
    (hsrc : src <+: an.body.drop w.size) : (storeBlock lmbReadCheck info src w).1 = true := by
  have hlen := length_le_of_prefix_drop hsrc
  have hsize := hst.size
  have hdaddr := hst.daddr
  have hbuffer := hfits.buffer
  have hallowed : (blockAllowed lmbReadCheck info src.length w).1 = true := by
    unfold blockAllowed
    rw [u32_of_lt (by lia : w.daddr + src.length < 2 ^ 32)]
    split
    · rename_i hboot
      rw [if_neg (by lia)]
      simpa using hfits.granted hboot _ _ _
    · rfl
  unfold storeBlock
  rw [u32_of_lt (by lia : w.size + src.length < 2 ^ 32), if_neg (by lia)]
  dsimp only
  rw [if_pos hallowed]

theorem storeBlocks_ok {an : Answer} {w : Client L} {chain : List Bytes}
    (hfits : Fits lmbReadCheck info an)
    (hst : Stored an.body dst mem w) (hroom : dst + an.body.length < 2 ^ 32)
    (hchain : chain.flatten <+: an.body.drop w.size) :
    (storeBlocks lmbReadCheck info chain w).1 = true := by
  induction chain generalizing w with
  | nil => rfl
  | cons buf rest ih =>
      rw [List.flatten_cons] at hchain
      have hbuf : buf <+: an.body.drop w.size := (List.prefix_append buf _).trans hchain
      have hok := storeBlock_ok lmbReadCheck info hfits hst hroom hbuf
      rcases storeBlock_spec lmbReadCheck info hst hroom hbuf with ⟨hst', hsize⟩
      rw [storeBlocks, if_pos hok]
      refine ih hst' ?_
      rw [hsize hok]
      exact prefix_drop_append hchain

theorem pbufFreeHeader_flatten (n : Nat) (chain : List Bytes) :
    (pbufFreeHeader n chain).flatten = chain.flatten.drop n := by
  induction chain generalizing n with
  | nil => cases n <;> rw [pbufFreeHeader] <;> rw [List.flatten_nil, List.drop_nil]
  | cons buf rest ih =>
      cases n with
      | zero => rw [pbufFreeHeader, List.drop_zero]
      | succ n =>
          rw [pbufFreeHeader]
          by_cases hle : buf.length ≤ n + 1
          · rw [if_pos hle, ih, List.flatten_cons, List.drop_append,
              List.drop_eq_nil_of_le hle, List.nil_append]
          · rw [if_neg hle, List.flatten_cons, List.flatten_cons,
              List.drop_append_of_le_length (by lia)]

/-!
## The invariant
-/

structure Gathering (an : Answer) (dst : Nat) (mem : Nat -> UInt8) (xs : Bytes) (w : Client L) :
    Prop where
  closed : w.closed = false
  broken : w.broken = false
  parseState : w.parseState = if an.line + 2 ≤ xs.length then .waitHeaders else .waitFirstLine
  rxHdrs : w.rxHdrs.flatten = xs
  rxStatus : an.line + 2 ≤ xs.length -> w.rxStatus = an.status
  rxContentLen : w.rxContentLen = 0
  mem : w.mem = mem
  size : w.size = 0
  daddr : w.daddr = dst
  savedDaddr : w.savedDaddr = dst

structure Receiving (an : Answer) (dst : Nat) (mem : Nat -> UInt8) (xs : Bytes) (w : Client L) :
    Prop where
  closed : w.closed = false
  broken : w.broken = false
  parseState : w.parseState = .rxData
  reached : an.header.length ≤ xs.length
  rxStatus : w.rxStatus = an.status
  hdrContentLen : w.hdrContentLen = an.contentLen
  rxContentLen : w.rxContentLen = xs.length - an.header.length
  stored : Stored an.body dst mem w
  size : w.size = xs.length - an.header.length
  savedDaddr : w.savedDaddr = dst

/-- What holds once the part `xs` of the answer has arrived; `why` holds if the client has
given up. -/
structure Good (an : Answer) (dst : Nat) (mem : Nat -> UInt8) (why : Prop) (xs : Bytes)
    (w : Client L) : Prop where
  broken : w.broken = false
  failed : w.closed = true -> w.done = .failure ∧ why
  opened : w.closed = false ->
    Gathering an dst mem xs w ∧ xs.length < an.header.length ∨ Receiving an dst mem xs w

def Recorded (envSetHex : Bytes -> Nat -> L -> Int × L) (size addr : Nat) (board : L) : Prop :=
  let r := envSetHex (str "filesize") size board
  r.1 = 0 ∧ (envSetHex (str "fileaddr") addr r.2).1 = 0

variable {an : Answer} {xs : Bytes} {w : Client L} {why : Prop} {lmbReadCheck} {info}

theorem Answer.drop_of_reached {ys zs : Bytes} (h : ys ++ zs <+: an.stream)
    (hreached : an.header.length ≤ ys.length) :
    zs <+: an.body.drop (ys.length - an.header.length) := by
  have hdrop := drop_front h ys.length
  rwa [List.drop_left, Answer.stream, List.drop_append, List.drop_eq_nil_of_le hreached,
    List.nil_append] at hdrop

theorem httpcClose_good {result : Result} {status : Nat} {bufErr : Bool}
    (hbroken : w.broken = false) (hbad : bufErr = true ∨ result ≠ .ok) (hwhy : why) :
    Good an dst mem why xs (httpcClose envSetHex result status bufErr w) := by
  have hfail : httpcResultCb envSetHex result status bufErr w =
      { w with statusCode := status, done := .failure } := by
    unfold httpcResultCb
    exact if_pos (hbad.imp_right Or.inl)
  unfold httpcClose
  rw [hfail]
  exact ⟨hbroken, fun _ => ⟨rfl, hwhy⟩, nofun⟩

theorem Good.of_receiving (h : Receiving an dst mem xs w) : Good an dst mem why xs w where
  broken := h.broken
  failed := fun hclosed => absurd hclosed (by simp [h.closed])
  opened := fun _ => .inr h

theorem Good.of_gathering (h : Gathering an dst mem xs w)
    (hshort : xs.length < an.header.length) : Good an dst mem why xs w where
  broken := h.broken
  failed := fun hclosed => absurd hclosed (by simp [h.closed])
  opened := fun _ => .inl ⟨h, hshort⟩

theorem Receiving.rxData {chain : List Bytes} (h : Receiving an dst mem xs w)
    (hsafe : Safe info dst an) (hchain : xs ++ chain.flatten <+: an.stream)
    (hwhy : ¬ Fits lmbReadCheck info an -> why) :
    Good an dst mem why (xs ++ chain.flatten) (rxData lmbReadCheck envSetHex info chain w) := by
  have hfront := Answer.drop_of_reached hchain h.reached
  have hlen := length_le_of_prefix_drop hfront
  have hreached := h.reached
  have hroom := hsafe.room
  have hxs := hchain.length_le
  rw [List.length_append, Answer.stream, List.length_append] at hxs
  unfold Httpc.rxData httpcRecvCb
  rw [h.rxContentLen, u32_of_lt (by lia)]
  generalize hw' : ({ w with
    rxContentLen := xs.length - an.header.length + chain.flatten.length
    timeoutTicks := 30 } : Client L) = w'
  have hst : Stored an.body dst mem w' := by
    subst hw'
    exact ⟨h.stored.mem, h.stored.size, h.stored.daddr⟩
  have hsize : w'.size = xs.length - an.header.length := by
    subst hw'
    exact h.size
  rw [<- hsize] at hfront
  have hsame := storeBlocks_same lmbReadCheck info chain w'
  have hsound : (storeBlocks lmbReadCheck info chain w').2.broken = false := by
    have hmarks : info.silent = true ∨ w'.hdrContentLen ≠ 0 := by
      rw [<- hw']
      exact hsafe.marks.imp_right fun hno => by rwa [h.hdrContentLen]
    rw [hsame.broken hmarks, <- hw']
    exact h.broken
  rcases storeBlocks_spec lmbReadCheck info hst hroom hfront with ⟨hst', hsize'⟩
  dsimp only
  split
  · rename_i hok
    have hclosed : (storeBlocks lmbReadCheck info chain w').2.closed = false := by
      rw [hsame.closed, <- hw']
      exact h.closed
    refine Good.of_receiving ⟨hclosed, hsound, ?_, ?_, ?_, ?_, ?_, hst', ?_, ?_⟩
    · rw [hsame.parseState, <- hw']
      exact h.parseState
    · rw [List.length_append]
      lia
    · rw [hsame.rxStatus, <- hw']
      exact h.rxStatus
    · rw [hsame.hdrContentLen, <- hw']
      exact h.hdrContentLen
    · rw [hsame.rxContentLen, <- hw', List.length_append]
      show xs.length - an.header.length + chain.flatten.length = _
      lia
    · rw [hsize' hok, hsize, List.length_append]
      lia
    · rw [hsame.savedDaddr, <- hw']
      exact h.savedDaddr
  · rename_i hrefused
    exact httpcClose_good hsound (.inr (by decide)) (hwhy fun hfits => hrefused
      (storeBlocks_ok lmbReadCheck info hfits hst hroom hfront))

theorem Gathering.not_rxData (h : Gathering an dst mem xs w) : w.parseState ≠ .rxData := by
  rw [h.parseState]
  split <;> decide

theorem Gathering.firstLine {chain : List Bytes} (h : Gathering an dst mem xs w)
    (hchain : xs ++ chain.flatten <+: an.stream) :
    Gathering an dst mem (xs ++ chain.flatten)
      (firstLine { w with rxHdrs := w.rxHdrs ++ chain }) := by
  have hhdrs : (w.rxHdrs ++ chain).flatten = xs ++ chain.flatten := by
    rw [List.flatten_append, h.rxHdrs]
  have hstate := h.parseState
  unfold Httpc.firstLine
  dsimp only
  by_cases hknown : an.line + 2 ≤ xs.length
  · have hline : an.line + 2 ≤ (xs ++ chain.flatten).length := by
      rw [List.length_append]
      lia
    rw [if_pos hknown] at hstate
    rw [hstate]
    refine ⟨h.closed, h.broken, ?_, hhdrs, fun _ => h.rxStatus hknown, h.rxContentLen, h.mem,
      h.size, h.daddr, h.savedDaddr⟩
    rw [if_pos hline]
  · rw [if_neg hknown] at hstate
    rw [hstate]
    dsimp only
    rw [hhdrs, Answer.parse_status hchain]
    by_cases hline : an.line + 2 ≤ (xs ++ chain.flatten).length
    · rw [if_pos hline]
      refine ⟨h.closed, h.broken, ?_, hhdrs, fun _ => rfl, h.rxContentLen, h.mem, h.size,
        h.daddr, h.savedDaddr⟩
      rw [if_pos hline]
    · rw [if_neg hline]
      refine ⟨h.closed, h.broken, ?_, hhdrs, fun hno => absurd hno hline, h.rxContentLen,
        h.mem, h.size, h.daddr, h.savedDaddr⟩
      rw [if_neg hline]

theorem Gathering.otherLines (h : Gathering an dst mem xs w)
    (hsafe : Safe info dst an) (hxs : xs <+: an.stream)
    (hwhy : ¬ Fits lmbReadCheck info an -> why) :
    Good an dst mem why xs (otherLines lmbReadCheck envSetHex info w) := by
  have hstate := h.parseState
  have hends := pbufMemfind_fits an.lineEnd (by decide)
  have hcrlf : crlf.length = 2 := rfl
  rw [hcrlf] at hends
  unfold Httpc.otherLines
  by_cases hline : an.line + 2 ≤ xs.length
  · rw [if_pos hline] at hstate
    rw [hstate]
    dsimp only
    rw [h.rxHdrs, Answer.wait_headers hxs]
    by_cases hreached : an.header.length ≤ xs.length
    · rw [if_pos hreached]
      dsimp only
      have hsplit : an.header ++ (pbufFreeHeader an.header.length w.rxHdrs).flatten = xs := by
        have hfront : an.header <+: xs :=
          List.prefix_of_prefix_length_le an.header_prefix hxs hreached
        rw [pbufFreeHeader_flatten, h.rxHdrs, List.prefix_iff_eq_append.mp hfront]
      have hstart : Receiving an dst mem an.header
          { w with hdrContentLen := an.contentLen, rxHdrs := [], parseState := .rxData } := by
        refine ⟨h.closed, h.broken, rfl, Nat.le_refl _, h.rxStatus hline, rfl, ?_,
          ⟨?_, ?_, ?_⟩, ?_, h.savedDaddr⟩
        · rw [Nat.sub_self]
          exact h.rxContentLen
        · show w.mem = overwrite mem dst (an.body.take w.size)
          rw [h.size, h.mem, List.take_zero, overwrite_nil]
        · show w.size ≤ an.body.length
          rw [h.size]
          exact Nat.zero_le _
        · show w.daddr = dst + w.size
          rw [h.size, h.daddr]
          rfl
        · rw [Nat.sub_self]
          exact h.size
      split
      · split
        · rename_i hnil
          rw [hnil, List.flatten_nil, List.append_nil] at hsplit
          rw [<- hsplit]
          exact Good.of_receiving hstart
        · have hgood : Good an dst mem why _ (Httpc.rxData lmbReadCheck envSetHex info _ _) :=
            hstart.rxData hsafe (hsplit ▸ hxs) hwhy
          rwa [hsplit] at hgood
      · rename_i hlarge
        refine httpcClose_good h.broken (.inl rfl) (hwhy fun hfits => hlarge ?_)
        unfold headersDone
        by_cases hcheck : info.checkBufferSize = true
        · simpa [hcheck] using hfits.announced hcheck
        · simp [hcheck]
    · rw [if_neg hreached]
      exact Good.of_gathering h (by lia)
  · rw [if_neg hline] at hstate
    rw [hstate]
    exact Good.of_gathering h (by lia)

theorem Good.recv {chain : List Bytes} (h : Good an dst mem why xs w) (hclosed : w.closed = false)
    (hsafe : Safe info dst an) (hchain : xs ++ chain.flatten <+: an.stream)
    (hwhy : ¬ Fits lmbReadCheck info an -> why) :
    Good an dst mem why (xs ++ chain.flatten)
      (httpcTcpRecv lmbReadCheck envSetHex info chain w) := by
  unfold httpcTcpRecv
  rcases h.opened hclosed with ⟨hgather, _⟩ | hdata
  · have hnext : Good an dst mem why (xs ++ chain.flatten)
        (Httpc.otherLines lmbReadCheck envSetHex info _) :=
      (hgather.firstLine hchain).otherLines hsafe hchain hwhy
    have hstate := hgather.not_rxData
    split
    · rename_i hrx
      exact absurd hrx hstate
    · exact hnext
  · rw [hdata.parseState]
    exact hdata.rxData hsafe hchain hwhy

/-!
## Runs
-/

def received : List Event -> Bytes
  | [] => []
  | .recv p :: es => p.chain.flatten ++ received es
  | _ :: es => received es

theorem Good.step {e : Event} (h : Good an dst mem why xs w)
    (hsafe : Safe info dst an) (hclosed : e ≠ .closed)
    (he : xs ++ received [e] <+: an.stream) (hwhy : ¬ Fits lmbReadCheck info an -> why)
    (hother : (forall p, e ≠ .recv p) -> why) :
    Good an dst mem why (xs ++ received [e]) (step lmbReadCheck envSetHex info w e) := by
  unfold Httpc.step
  by_cases hskip : w.closed = true ∨ w.broken = true
  · rw [if_pos hskip]
    have hbroken := h.broken
    have hcl : w.closed = true := hskip.resolve_right (by simp [hbroken])
    exact ⟨hbroken, h.failed, fun hopen => absurd hopen (by simp [hcl])⟩
  · rw [if_neg hskip]
    have hcl : w.closed = false := by simpa using fun hno => hskip (.inl hno)
    cases e with
    | recv p =>
        rw [received, received, List.append_nil] at he ⊢
        exact h.recv hcl hsafe he hwhy
    | closed => exact absurd rfl hclosed
    | err => exact httpcClose_good h.broken (.inr (by decide)) (hother nofun)
    | poll =>
        have hnone : received [Event.poll] = [] := rfl
        rw [hnone, List.append_nil]
        unfold httpcTcpPoll
        dsimp only
        split
        · exact httpcClose_good h.broken (.inr (by decide)) (hother nofun)
        · refine ⟨h.broken, h.failed, fun hopen => ?_⟩
          rcases h.opened hopen with ⟨hg, hshort⟩ | hr
          · exact .inl ⟨⟨hg.closed, hg.broken, hg.parseState, hg.rxHdrs, hg.rxStatus,
              hg.rxContentLen, hg.mem, hg.size, hg.daddr, hg.savedDaddr⟩, hshort⟩
          · exact .inr ⟨hr.closed, hr.broken, hr.parseState, hr.reached, hr.rxStatus,
              hr.hdrContentLen, hr.rxContentLen,
              ⟨hr.stored.mem, hr.stored.size, hr.stored.daddr⟩, hr.size, hr.savedDaddr⟩

theorem Good.run {es : List Event} (h : Good an dst mem why xs w)
    (hsafe : Safe info dst an) (hclosed : .closed ∉ es)
    (hes : xs ++ received es <+: an.stream) (hwhy : ¬ Fits lmbReadCheck info an -> why)
    (hother : (exists e, e ∈ es ∧ forall p, e ≠ .recv p) -> why) :
    Good an dst mem why (xs ++ received es)
      (es.foldl (Httpc.step lmbReadCheck envSetHex info) w) := by
  induction es generalizing xs w with
  | nil =>
      rw [received, List.append_nil]
      exact h
  | cons e es ih =>
      have hsplit : received (e :: es) = received [e] ++ received es := by
        cases e <;> simp [received]
      rw [hsplit, <- List.append_assoc] at hes ⊢
      have hnext : Good an dst mem why (xs ++ received [e])
          (Httpc.step lmbReadCheck envSetHex info w e) :=
        h.step hsafe (fun heq => hclosed (heq ▸ List.mem_cons_self))
          ((List.prefix_append _ _).trans hes) hwhy
          (fun hno => hother ⟨e, List.mem_cons_self, hno⟩)
      refine ih hnext (fun hmem => hclosed (List.mem_cons_of_mem _ hmem)) hes fun hno => ?_
      rcases hno with ⟨e', he', hno⟩
      exact hother ⟨e', List.mem_cons_of_mem _ he', hno⟩

theorem Good.start {board : L} : Good an dst mem why [] (start dst mem board) := by
  have hends := pbufMemfind_fits an.ends (by decide)
  have hlen : (crlf ++ crlf).length = 4 := rfl
  refine Good.of_gathering ⟨rfl, rfl, ?_, rfl, ?_, rfl, rfl, rfl, rfl, rfl⟩ ?_
  · rw [if_neg (by simp)]
    rfl
  · intro hno
    simp at hno
  · rw [List.length_nil]
    lia

variable (envSetHex) in
theorem httpcResultCb_stored (result : Result) (status : Nat) (bufErr : Bool) (w : Client L) :
    let w' := httpcResultCb envSetHex result status bufErr w
    w'.mem = w.mem ∧ w'.size = w.size ∧ w'.broken = w.broken := by
  unfold httpcResultCb
  dsimp only
  split
  · exact ⟨rfl, rfl, rfl⟩
  · split
    · exact ⟨rfl, rfl, rfl⟩
    · split <;> exact ⟨rfl, rfl, rfl⟩

variable (envSetHex) in
theorem httpcResultCb_ok (w : Client L) :
    let w' := httpcResultCb envSetHex .ok 200 false w
    w'.fileSize = some w.rxContentLen ∧
      (w'.done = .success <-> Recorded envSetHex w.rxContentLen w.savedDaddr w.board) := by
  unfold httpcResultCb Recorded
  rw [if_neg (by simp)]
  dsimp only
  split
  · rename_i hsize
    exact ⟨rfl, by simp [hsize]⟩
  · rename_i hsize
    push Not at hsize
    split
    · rename_i haddr
      exact ⟨rfl, by simp [hsize, haddr]⟩
    · rename_i haddr
      push Not at haddr
      exact ⟨rfl, by simp [hsize, haddr]⟩

variable (lmbReadCheck) (envSetHex) (info) in
theorem closed_stored (w : Client L) :
    (step lmbReadCheck envSetHex info w .closed).mem = w.mem ∧
      (step lmbReadCheck envSetHex info w .closed).size = w.size := by
  have hresult : forall result, (httpcClose envSetHex result w.rxStatus false w).mem = w.mem ∧
      (httpcClose envSetHex result w.rxStatus false w).size = w.size := by
    intro result
    rcases httpcResultCb_stored envSetHex result w.rxStatus false w with
      ⟨hmem, hsize, _⟩
    exact ⟨hmem, hsize⟩
  unfold Httpc.step httpcTcpClosed
  split
  · exact ⟨rfl, rfl⟩
  · dsimp only
    split
    · exact hresult _
    · split <;> exact hresult _

variable (lmbReadCheck) (envSetHex) (info) in
/-- When the server closes the connection, the request has succeeded exactly if the client
was content with all of it, the header is complete and its status is 200, the body is as long
as announced, if it was, and the environment takes its length. -/
theorem Good.close (h : Good an dst mem why xs w) :
    let w' := Httpc.step lmbReadCheck envSetHex info w .closed
    let n := xs.length - an.header.length
    w'.broken = false ∧
      (w'.done = .success <->
        w.closed = false ∧ an.header.length ≤ xs.length ∧ an.status = 200 ∧
          (an.announced = none ∨ an.announced = some n) ∧ Recorded envSetHex n dst w.board) ∧
      (w'.done = .success ->
        w'.size = n ∧ w'.fileSize = some n ∧ w'.mem = overwrite mem dst (an.body.take n)) := by
  intro w' n
  have hbroken := h.broken
  by_cases hcl : w.closed = true
  · have hw' : w' = w := if_pos (.inl hcl)
    have hfail := (h.failed hcl).left
    rw [hw', hfail, hcl]
    exact ⟨hbroken, by simp, nofun⟩
  · have hopen : w.closed = false := by simpa using hcl
    have hw' : w' = httpcTcpClosed envSetHex w := if_neg (by simp [hopen, hbroken])
    rw [hw', hopen]
    unfold httpcTcpClosed
    rcases h.opened hopen with ⟨hg, hshort⟩ | hr
    · rw [if_pos hg.not_rxData]
      have hfail : (httpcClose envSetHex .errClosed w.rxStatus false w).done = .failure := rfl
      rw [hfail]
      exact ⟨hbroken, ⟨nofun, fun hno => absurd hno.right.left (by lia)⟩, nofun⟩
    · rw [if_neg (by simp [hr.parseState]), hr.hdrContentLen, hr.rxContentLen]
      by_cases hwrong : an.contentLen ≠ HTTPC_CONTENT_LEN_INVALID ∧ an.contentLen ≠ n
      · rw [if_pos hwrong]
        have hfail : (httpcClose envSetHex .errContentLen w.rxStatus false w).done = .failure :=
          rfl
        rw [hfail]
        exact ⟨hbroken, ⟨nofun, fun hno => absurd hno.right.right.right.left
          (Answer.wrong_length.mp hwrong)⟩, nofun⟩
      · rw [if_neg hwrong]
        have hright := Classical.not_not.mp (mt Answer.wrong_length.mpr hwrong)
        by_cases hstatus : an.status = 200
        · have hstored := hr.stored.mem
          rw [hr.size] at hstored
          rcases httpcResultCb_stored envSetHex .ok 200 false w with
            ⟨hmem, hsize, hsound⟩
          rcases httpcResultCb_ok envSetHex w with ⟨hfile, hdone⟩
          rw [hr.rxContentLen, hr.savedDaddr] at hdone
          rw [hr.rxContentLen] at hfile
          rw [hr.rxStatus, hstatus]
          refine ⟨hsound.trans hbroken, ?_,
            fun _ => ⟨hsize.trans hr.size, hfile, hmem.trans hstored⟩⟩
          refine hdone.trans ⟨fun hrec => ⟨rfl, hr.reached, rfl, hright, hrec⟩, ?_⟩
          exact fun hall => hall.right.right.right.right
        · have hfail : httpcClose envSetHex .ok w.rxStatus false w =
              { w with statusCode := an.status, done := .failure, closed := true } := by
            unfold httpcClose httpcResultCb
            rw [hr.rxStatus]
            dsimp only
            rw [if_pos (.inr (.inr hstatus))]
          rw [hfail]
          exact ⟨hbroken, ⟨nofun, fun hno => absurd hno.right.right.left hstatus⟩, nofun⟩

section Transfers

variable (lmbReadCheck) (envSetHex) (info) (dst) (mem)

/-- The first part of an answer in any chains, among polls and errors, and then the end of
the connection. -/
theorem success_iff (an : Answer) (board : L) (es : List Event)
    (hsafe : Safe info dst an) (hclosed : .closed ∉ es)
    (hes : received es <+: an.stream) :
    let w := es.foldl (step lmbReadCheck envSetHex info) (start dst mem board)
    let w' := step lmbReadCheck envSetHex info w .closed
    let n := (received es).length - an.header.length
    w'.broken = false ∧
      (w'.done = .success <->
        w.closed = false ∧ an.header.length ≤ (received es).length ∧ an.status = 200 ∧
          (an.announced = none ∨ an.announced = some n) ∧ Recorded envSetHex n dst w.board) ∧
      (w'.done = .success ->
        w'.size = n ∧ w'.fileSize = some n ∧ w'.mem = overwrite mem dst (an.body.take n)) := by
  have hgood : Good an dst mem True ([] ++ received es)
      (es.foldl (step lmbReadCheck envSetHex info) (start dst mem board)) :=
    Good.start.run hsafe hclosed hes (fun _ => trivial) fun _ => trivial
  exact hgood.close lmbReadCheck envSetHex info

def shortAnswer : Answer where
  header := str "HTTP/1.1 200 OK\r\nContent-Length: 3\r\n\r\n"
  body := str "abc"
  status := 200
  field := some 3
  line := 15
  space1 := 8
  space2 := 12
  small := by decide
  protocol := by decide
  lineEnd := by decide +kernel
  number := by decide +kernel
  phrase := by decide +kernel
  hstatus := by decide +kernel
  ends := by decide +kernel
  hfield := ⟨17, 34, by decide +kernel⟩

def shortInfo : WgetInfo where
  bufferSize := 3
  checkBufferSize := true
  setBootdev := true
  silent := false

def grantAll (_ _ : Nat) (board : Unit) : Int × Unit := (0, board)

def takeAll (_ : Bytes) (_ : Nat) (board : Unit) : Int × Unit := (0, board)

def brokenOff : List Event :=
  [.recv ⟨[str "HTTP/1.1 2", str "00 OK\r"], by decide⟩, .poll,
    .recv ⟨[str "\nContent-Length: 3\r\n\r\na"], by decide⟩]

theorem success_iff_broken_off :
    (step grantAll takeAll shortInfo
      (brokenOff.foldl (step grantAll takeAll shortInfo) (start 64 (fun _ => 0) ()))
      .closed).done ≠ .success := by
  have h := success_iff grantAll takeAll shortInfo 64 (fun _ => 0) shortAnswer () brokenOff
    ⟨by decide, .inr (by decide)⟩ (by simp [brokenOff]) (by decide +kernel)
  intro hdone
  exact absurd (h.right.left.mp hdone).right.right.right.left (by decide +kernel)

/-- However an answer is cut into chains, a body that fits is stored as a whole, and the
request succeeds exactly if the status is 200, the announced length, if any, is right, and
the environment takes it. -/
theorem body_stored (an : Answer) (board : L) (ps : List Segment)
    (hfits : Fits lmbReadCheck info an) (hsafe : Safe info dst an)
    (hps : (ps.map fun p => p.chain.flatten).flatten = an.stream) :
    let w := (ps.map Event.recv).foldl (step lmbReadCheck envSetHex info) (start dst mem board)
    let w' := step lmbReadCheck envSetHex info w .closed
    w'.mem = overwrite mem dst an.body ∧ w'.size = an.body.length ∧
      (w'.done = .success <->
        an.status = 200 ∧ (an.announced = none ∨ an.announced = some an.body.length) ∧
          Recorded envSetHex an.body.length dst w.board) := by
  have hreceived : received (ps.map Event.recv) = an.stream := by
    rw [<- hps]
    clear hps
    induction ps with
    | nil => rfl
    | cons p ps ih => rw [List.map_cons, received, ih, List.map_cons, List.flatten_cons]
  have hgood : Good an dst mem False ([] ++ received (ps.map Event.recv))
      ((ps.map Event.recv).foldl (step lmbReadCheck envSetHex info) (start dst mem board)) := by
    refine Good.start.run hsafe (by simp) ?_ (fun hno => hno hfits) ?_
    · rw [hreceived, List.nil_append]
    · rintro ⟨e, he, hno⟩
      rcases List.mem_map.mp he with ⟨p, _, rfl⟩
      exact hno p rfl
  rw [hreceived, List.nil_append] at hgood
  intro w w'
  have hlen : an.stream.length - an.header.length = an.body.length := by
    rw [Answer.stream, List.length_append, Nat.add_sub_cancel_left]
  have hreached : an.header.length ≤ an.stream.length := by
    rw [Answer.stream, List.length_append]
    exact Nat.le_add_right _ _
  have hopen : w.closed = false := by simpa using fun hcl => (hgood.failed hcl).right
  have hdata : Receiving an dst mem an.stream w := by
    rcases hgood.opened hopen with ⟨_, hshort⟩ | hr
    · lia
    · exact hr
  rcases closed_stored lmbReadCheck envSetHex info w with ⟨hmem, hsize⟩
  have hiff := (hgood.close lmbReadCheck envSetHex info).right.left
  rw [hlen] at hiff
  refine ⟨?_, hsize.trans (hdata.size.trans hlen), hiff.trans ?_⟩
  · rw [hmem, hdata.stored.mem, hdata.size, hlen, List.take_length]
  · simp [w, hopen, hreached]

theorem body_stored_short :
    let ps : List Segment :=
      [⟨[str "HTTP/1.1 2", str "00 OK\r"], by decide⟩,
        ⟨[str "\nContent-Length: 3\r\n\r\na", str "b"], by decide⟩, ⟨[str "c"], by decide⟩]
    let w := step grantAll takeAll shortInfo
      ((ps.map Event.recv).foldl (step grantAll takeAll shortInfo) (start 64 (fun _ => 0) ()))
      .closed
    w.mem = overwrite (fun _ => 0) 64 (str "abc") ∧ w.done = .success := by
  intro ps
  have hfits : Fits grantAll shortInfo shortAnswer :=
    ⟨fun _ => by decide, .inr (by decide), fun _ _ _ _ => rfl⟩
  have h := body_stored grantAll takeAll shortInfo 64 (fun _ => 0) shortAnswer () ps hfits
    ⟨by decide, .inr (by decide)⟩ (by decide +kernel)
  exact ⟨h.left, h.right.right.mpr ⟨rfl, .inr (by decide), rfl, rfl⟩⟩

end Transfers

end Httpc
end Lwip
end Hlk7621
