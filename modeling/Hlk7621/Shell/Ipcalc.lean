import Hlk7621.Shell.Ipv4

/-!
# The address range of `ipcalc.sh`

The script prints what belongs to an address and its netmask and, for a start and a limit,
the range of addresses that a DHCP server may give away.
-/

namespace Hlk7621
namespace Shell

/-!
## The arguments
-/

inductive Format where
  | dotted
  | decimal
  | hexadecimal
  deriving DecidableEq

/-- `_ip2str`, which ends the script for a number outside of 32 bits. -/
def ip2StrAs (format : Format) (n : Int) : Option (List Char) :=
  if n < 0 ∨ (uintMax : Int) < n then none
  else
    match format with
    | .dotted => some (ip2Str n.toNat)
    | .decimal => some (Nat.toDigits 10 n.toNat)
    | .hexadecimal => some (Nat.toDigits 16 n.toNat)

structure Network where
  ipaddr : Nat
  netmask : Nat
  bits : Nat
  deriving DecidableEq

/-- `${1%/*}` -/
def beforeSlash (arg : List Char) : List Char :=
  ((arg.reverse.dropWhile fun c => c != '/').drop 1).reverse

/-- `${1#*/}` -/
def afterSlash (arg : List Char) : List Char := (arg.dropWhile fun c => c != '/').drop 1

/-- The `case "$1"`: the network and the arguments left. -/
def readNetwork : List (List Char) -> Option (Network × List (List Char))
  | [] => none
  | arg :: rest =>
      if '/' ∈ arg then
        if '.' ∈ afterSlash arg then do
          let ipaddr <- str2Ip (beforeSlash arg)
          let netmask <- str2Ip (afterSlash arg)
          let bits <- netmask2Prefix netmask
          some (⟨ipaddr, netmask, bits⟩, rest)
        else do
          let ipaddr <- str2Ip (beforeSlash arg)
          let bits <- assertUint32 (afterSlash arg)
          let netmask <- prefix2Netmask bits
          some (⟨ipaddr, netmask, bits⟩, rest)
      else do
        let ipaddr <- str2Ip arg
        let netmask <- str2Ip (rest.headD [])
        let bits <- netmask2Prefix netmask
        some (⟨ipaddr, netmask, bits⟩, rest.drop 1)

def readFormat : List (List Char) -> Format × List (List Char)
  | ['-', 'd'] :: rest => (.decimal, rest)
  | ['-', 'x'] :: rest => (.hexadecimal, rest)
  | args => (.dotted, args)

/-!
## The network and the range
-/

namespace Network

variable (net : Network)

def hostmask : Nat := net.netmask ^^^ 0xffffffff

def network : Nat := net.ipaddr &&& net.netmask

def broadcast : Nat := net.network ||| net.hostmask

def count : Nat := net.hostmask + 1

def lower : Nat := if net.bits ≤ 30 then net.network + 1 else net.network

def upper : Nat :=
  if net.bits ≤ 30 then (net.network ||| net.hostmask) - 1
  else if net.bits = 31 then net.network ||| net.hostmask
  else net.network

def clampedStart (start : Nat) : Nat :=
  let start := net.network ||| (start &&& net.hostmask)
  if start < net.lower then net.lower else start

def rangeStart (start : Nat) : Nat :=
  let start := net.clampedStart start
  if start = net.ipaddr then start + 1 else start

def rangeEnd (start range : Nat) : Int :=
  let stop : Int := start + range - 1
  let stop := if (net.upper : Int) < stop then (net.upper : Int) else stop
  if stop = net.ipaddr then stop - 1 else stop

def lines (format : Format) : Option (List (List Char)) := do
  let ip <- ip2StrAs format net.ipaddr
  let netmask <- ip2StrAs format net.netmask
  let network <- ip2StrAs format net.network
  let broadcast <-
    (if net.bits ≤ 30 then
      (ip2StrAs format net.broadcast).map fun text => ["BROADCAST=".toList ++ text]
    else some [])
  some (["IP=".toList ++ ip, "NETMASK=".toList ++ netmask] ++ broadcast ++
    ["NETWORK=".toList ++ network, "PREFIX=".toList ++ Nat.toDigits 10 net.bits,
      "COUNT=".toList ++ Nat.toDigits 10 net.count])

end Network

/-- How the script ends: with its usage, an argument refused, the network alone, a
network that is too small, a range with the address of the interface in it, or a range. -/
inductive Outcome where
  | usage
  | refused
  | done
  | tooSmall
  | ownInside
  | range (start stop : Int)
  deriving DecidableEq

structure Run where
  lines : List (List Char)
  outcome : Outcome
  deriving DecidableEq

def printRange (format : Format) (net : Network) (lines : List (List Char)) :
    List (List Char) -> Run
  | [start, range] =>
      if start ++ range = [] then { lines := lines, outcome := .done }
      else
        match assertUint32 start, assertUint32 range with
        | some start, some range =>
            let start := net.rangeStart start
            let stop := net.rangeEnd start range
            if stop < start then { lines := lines, outcome := .tooSmall }
            else
              match ip2StrAs format start, ip2StrAs format stop with
              | some first, some last =>
                  if (start : Int) ≤ net.ipaddr ∧ (net.ipaddr : Int) ≤ stop then
                    { lines := lines, outcome := .ownInside }
                  else
                    { lines := lines ++ ["START=".toList ++ first, "END=".toList ++ last]
                      outcome := .range start stop }
              | _, _ => { lines := lines, outcome := .refused }
        | _, _ => { lines := lines, outcome := .refused }
  | _ => { lines := lines, outcome := .done }

def ipcalc (args : List (List Char)) : Run :=
  match readFormat args with
  | (_, []) => { lines := [], outcome := .usage }
  | (format, args) =>
      match readNetwork args with
      | none => { lines := [], outcome := .refused }
      | some (net, rest) =>
          if rest.length ≠ 0 ∧ rest.length ≠ 2 then { lines := [], outcome := .usage }
          else
            match net.lines format with
            | none => { lines := [], outcome := .refused }
            | some lines => printRange format net lines rest

/-!
## Ranges that can be used
-/

structure Usable (ip bits limit start stop : Nat) : Prop where
  ordered : start ≤ stop
  inside : forall a, start ≤ a -> a ≤ stop -> a / 2 ^ (32 - bits) = ip / 2 ^ (32 - bits)
  host : bits ≤ 30 -> forall a, start ≤ a -> a ≤ stop ->
    a % 2 ^ (32 - bits) ≠ 0 ∧ a % 2 ^ (32 - bits) ≠ 2 ^ (32 - bits) - 1
  other : forall a, start ≤ a -> a ≤ stop -> a ≠ ip
  count : stop - start + 1 ≤ limit

structure Network.Valid (net : Network) : Prop where
  ipaddr_lt : net.ipaddr < 2 ^ 32
  bits_le : net.bits ≤ 32
  netmask : net.netmask = 2 ^ 32 - 2 ^ (32 - net.bits)

namespace Network

def size (net : Network) : Nat := 2 ^ (32 - net.bits)

def first (net : Network) : Nat := net.size * (net.ipaddr / net.size)

variable {net : Network}

theorem size_pos : 0 < net.size := Nat.two_pow_pos _

theorem size_cases (h : net.bits ≤ 32) :
    (net.bits ≤ 30 ∧ 4 ≤ net.size) ∨ (net.bits = 31 ∧ net.size = 2) ∨
      (net.bits = 32 ∧ net.size = 1) := by
  by_cases hle : net.bits ≤ 30
  · have hpow : 2 ^ 2 ≤ 2 ^ (32 - net.bits) := Nat.pow_le_pow_right (by decide) (by lia)
    exact Or.inl ⟨hle, hpow⟩
  · unfold size
    rcases (by lia : net.bits = 31 ∨ net.bits = 32) with heq | heq
    · rw [heq]
      exact Or.inr (Or.inl ⟨rfl, by decide⟩)
    · rw [heq]
      exact Or.inr (Or.inr ⟨rfl, by decide⟩)

theorem first_add_size_le (h : net.Valid) : net.first + net.size ≤ 2 ^ 32 := by
  have hsplit : 2 ^ 32 = net.size * 2 ^ net.bits := by
    unfold size
    rw [<- Nat.pow_add, Nat.sub_add_cancel h.bits_le]
  have hlt : net.ipaddr / net.size < 2 ^ net.bits := by
    rw [Nat.div_lt_iff_lt_mul size_pos, Nat.mul_comm, <- hsplit]
    exact h.ipaddr_lt
  have hmul := Nat.mul_le_mul_left net.size (Nat.succ_le_of_lt hlt)
  rw [<- hsplit, Nat.mul_succ] at hmul
  exact hmul

theorem hostmask_eq (h : net.Valid) : net.hostmask = net.size - 1 := by
  rw [hostmask, h.netmask]
  exact Masks.high_xor (Nat.sub_le 32 net.bits)

theorem network_eq (h : net.Valid) : net.network = net.first := by
  rw [network, h.netmask]
  exact Masks.and_high (Nat.sub_le 32 net.bits) h.ipaddr_lt

theorem or_first {r : Nat} (hr : r < net.size) : net.first ||| r = net.first + r :=
  Masks.or_low (net.ipaddr / net.size) hr

theorem broadcast_eq (h : net.Valid) :
    net.network ||| net.hostmask = net.first + (net.size - 1) := by
  have hpos : 0 < net.size := size_pos
  rw [network_eq h, hostmask_eq h]
  exact or_first (by lia)

theorem start_eq (h : net.Valid) (start : Nat) :
    net.network ||| (start &&& net.hostmask) = net.first + start % net.size := by
  rw [network_eq h, hostmask_eq h, size, Masks.and_low]
  exact or_first (Nat.mod_lt start size_pos)

theorem mod_size {a : Nat} (hlo : net.first ≤ a) (hhi : a < net.first + net.size) :
    a % net.size = a - net.first := by
  have hsplit : a = net.size * (net.ipaddr / net.size) + (a - net.first) := by
    unfold first at hlo ⊢
    lia
  rw [hsplit, Nat.mul_add_mod, Nat.mod_eq_of_lt (by lia)]
  unfold first
  lia

theorem div_size_iff {a : Nat} :
    a / net.size = net.ipaddr / net.size <->
      net.first ≤ a ∧ a < net.first + net.size := by
  constructor
  · intro hdiv
    have hsplit := Nat.div_add_mod a net.size
    have hmod : a % net.size < net.size := Nat.mod_lt a size_pos
    rw [hdiv] at hsplit
    unfold first
    lia
  · rintro ⟨hlo, hhi⟩
    refine Nat.div_eq_of_lt_le ?_ ?_
    · rw [Nat.mul_comm]
      exact hlo
    · rw [Nat.succ_mul, Nat.mul_comm]
      exact hhi

end Network

/-!
## The range
-/

section

variable {net : Network}

theorem usable_iff {limit start stop : Nat} :
    Usable net.ipaddr net.bits limit start stop <->
      start ≤ stop ∧ net.first ≤ start ∧ stop < net.first + net.size ∧
        (net.bits ≤ 30 -> net.first < start ∧ stop + 1 < net.first + net.size) ∧
        (net.ipaddr < start ∨ stop < net.ipaddr) ∧ stop - start + 1 ≤ limit := by
  constructor
  · intro h
    have hordered := h.ordered
    have hfirst := Network.div_size_iff.mp (h.inside start (Nat.le_refl _) hordered)
    have hlast := Network.div_size_iff.mp (h.inside stop hordered (Nat.le_refl _))
    refine ⟨hordered, hfirst.left, hlast.right, ?_, ?_, h.count⟩
    · intro hhost
      have hlo := (h.host hhost start (Nat.le_refl _) hordered).left
      have hhi := (h.host hhost stop hordered (Nat.le_refl _)).right
      have hmodLo := Network.mod_size hfirst.left hfirst.right
      have hmodHi := Network.mod_size hlast.left hlast.right
      unfold Network.size at hmodLo hmodHi hlast ⊢
      lia
    · rcases Nat.lt_or_ge net.ipaddr start with hlt | hge
      · exact Or.inl hlt
      · rcases Nat.lt_or_ge stop net.ipaddr with hlt | hge'
        · exact Or.inr hlt
        · exact absurd rfl (h.other net.ipaddr hge hge')
  · rintro ⟨hordered, hfirst, hlast, hhost, hother, hcount⟩
    refine ⟨hordered, ?_, ?_, ?_, hcount⟩
    · intro a hlo hhi
      exact Network.div_size_iff.mpr ⟨by lia, by lia⟩
    · intro hle a hlo hhi
      have hends := hhost hle
      have hmod : a % net.size = a - net.first := Network.mod_size (by lia) (by lia)
      unfold Network.size at hmod hends
      rw [hmod]
      constructor
      · lia
      · lia
    · intro a hlo hhi
      lia

theorem clampedStart_eq (h : net.Valid) (start : Nat) :
    net.clampedStart start =
      max (net.first + start % net.size)
        (if net.bits ≤ 30 then net.first + 1 else net.first) := by
  rw [Network.clampedStart, Network.start_eq h, Network.lower, Network.network_eq h]
  generalize (if net.bits ≤ 30 then net.first + 1 else net.first) = low
  by_cases hlt : net.first + start % net.size < low
  · exact (if_pos hlt).trans (max_eq_right hlt.le).symm
  · exact (if_neg hlt).trans (max_eq_left (Nat.le_of_not_lt hlt)).symm

theorem upper_eq (h : net.Valid) :
    net.upper + (if net.bits ≤ 30 then 2 else 1) = net.first + net.size := by
  have hsize := Network.size_cases h.bits_le
  rw [Network.upper, Network.broadcast_eq h, Network.network_eq h]
  split
  · lia
  · split
    · lia
    · lia

theorem rangeStart_ge (h : net.Valid) (start : Nat) :
    net.first + (if net.bits ≤ 30 then 1 else 0) ≤ net.rangeStart start := by
  have hclamped := clampedStart_eq h start
  unfold Network.rangeStart
  split
  · lia
  · lia

/-- The end as the script computes it, in one case for each of its two corrections. -/
theorem rangeEnd_cases (net : Network) (start limit : Nat) :
    exists stop : Int, stop ≤ start + limit - 1 ∧ stop ≤ net.upper ∧
      (stop = start + limit - 1 ∨ stop = net.upper) ∧
      ((stop = net.ipaddr ∧ net.rangeEnd start limit = stop - 1) ∨
        (stop ≠ net.ipaddr ∧ net.rangeEnd start limit = stop)) := by
  have hlast : forall stop : Int, (stop = net.ipaddr ∧
      (if stop = net.ipaddr then stop - 1 else stop) = stop - 1) ∨
      (stop ≠ net.ipaddr ∧ (if stop = net.ipaddr then stop - 1 else stop) = stop) := by
    intro stop
    by_cases heq : stop = net.ipaddr
    · exact Or.inl ⟨heq, if_pos heq⟩
    · exact Or.inr ⟨heq, if_neg heq⟩
  by_cases hupper : (net.upper : Int) < start + limit - 1
  · refine ⟨net.upper, hupper.le, Int.le_refl _, Or.inr rfl, ?_⟩
    rw [Network.rangeEnd, if_pos hupper]
    exact hlast _
  · refine ⟨start + limit - 1, Int.le_refl _, by lia, Or.inl rfl, ?_⟩
    rw [Network.rangeEnd, if_neg hupper]
    exact hlast _

/-- The end is below the start only if no address is left from the start on. -/
theorem not_usable_of_lt (h : net.Valid) {start limit : Nat}
    (hlt : net.rangeEnd start limit < start) (stop : Nat) :
    ¬ Usable net.ipaddr net.bits limit start stop := by
  have hupper := upper_eq h
  rcases rangeEnd_cases net start limit with ⟨last, _, _, hlast, hend⟩
  rw [usable_iff]
  rintro ⟨hordered, hfirst, hinside, hhost, hother, hcount⟩
  by_cases hbits : net.bits ≤ 30
  · rw [if_pos hbits] at hupper
    have hends := hhost hbits
    lia
  · rw [if_neg hbits] at hupper
    lia

/-- The own address apart, what is printed can be used. -/
theorem usable_of_le (h : net.Valid) {start limit stop : Nat}
    (hstop : net.rangeEnd (net.rangeStart start) limit = stop)
    (hle : net.rangeStart start ≤ stop)
    (hown : ¬ (net.rangeStart start ≤ net.ipaddr ∧ net.ipaddr ≤ stop)) :
    Usable net.ipaddr net.bits limit (net.rangeStart start) stop := by
  have hlow := rangeStart_ge h start
  have hupper := upper_eq h
  have hpos : 0 < net.size := Network.size_pos
  rcases rangeEnd_cases net (net.rangeStart start) limit with ⟨last, hcount, hlast, _, hend⟩
  rw [usable_iff]
  by_cases hbits : net.bits ≤ 30
  · rw [if_pos hbits] at hupper hlow
    exact ⟨hle, by lia, by lia, fun _ => by lia, by lia, by lia⟩
  · rw [if_neg hbits] at hupper hlow
    exact ⟨hle, by lia, by lia, fun hbits' => absurd hbits' hbits, by lia, by lia⟩

theorem not_usable_clamped {start limit stop : Nat}
    (h : forall stop, ¬ Usable net.ipaddr net.bits limit (net.rangeStart start) stop) :
    ¬ Usable net.ipaddr net.bits limit (net.clampedStart start) stop := by
  intro husable
  have hne : net.clampedStart start ≠ net.ipaddr :=
    husable.other _ (Nat.le_refl _) husable.ordered
  have heq : net.rangeStart start = net.clampedStart start := if_neg hne
  rw [<- heq] at husable
  exact h stop husable

end

/-!
## The whole script
-/

inductive Form where
  | slashPrefix
  | slashNetmask
  | separate

def networkOf (ip bits : Nat) : Network := ⟨ip, 2 ^ 32 - 2 ^ (32 - bits), bits⟩

def networkArgs (form : Form) (net : Network) : List (List Char) :=
  match form with
  | .slashPrefix => [ip2Str net.ipaddr ++ '/' :: Nat.toDigits 10 net.bits]
  | .slashNetmask => [ip2Str net.ipaddr ++ '/' :: ip2Str net.netmask]
  | .separate => [ip2Str net.ipaddr, ip2Str net.netmask]

def formatArgs : Format -> List (List Char)
  | .dotted => []
  | .decimal => [['-', 'd']]
  | .hexadecimal => [['-', 'x']]

theorem mem_ip2Str {n : Nat} {c : Char} (h : c ∈ ip2Str n) : c.isDigit = true ∨ c = '.' := by
  have hdigit : forall m, c ∈ Nat.toDigits 10 m -> c.isDigit = true :=
    fun _ hc => Nat.isDigit_of_mem_toDigits (by decide) (by decide) hc
  rw [ip2Str] at h
  simp only [List.mem_append, List.mem_cons] at h
  rcases h with h | rfl | h | rfl | h | rfl | h
  · exact Or.inl (hdigit _ h)
  · exact Or.inr rfl
  · exact Or.inl (hdigit _ h)
  · exact Or.inr rfl
  · exact Or.inl (hdigit _ h)
  · exact Or.inr rfl
  · exact Or.inl (hdigit _ h)

theorem slash_not_mem_ip2Str (n : Nat) : '/' ∉ ip2Str n := by
  intro h
  rcases mem_ip2Str h with hdigit | hdot
  · cases hdigit
  · cases hdot

theorem not_mem_toDigits {c : Char} (hc : c.isDigit = false) (n : Nat) :
    c ∉ Nat.toDigits 10 n := by
  intro h
  rw [Nat.isDigit_of_mem_toDigits (by decide) (by decide) h] at hc
  cases hc

theorem afterSlash_append {a : List Char} (ha : '/' ∉ a) (b : List Char) :
    afterSlash (a ++ '/' :: b) = b := by
  have hkeep : forall c, c ∈ a -> (c != '/') = true := by
    intro c hc
    exact bne_iff_ne.mpr (fun heq => ha (heq ▸ hc))
  rw [afterSlash, List.dropWhile_append_of_pos hkeep]
  rfl

theorem beforeSlash_append {b : List Char} (hb : '/' ∉ b) (a : List Char) :
    beforeSlash (a ++ '/' :: b) = a := by
  have hkeep : forall c, c ∈ b.reverse -> (c != '/') = true := by
    intro c hc
    exact bne_iff_ne.mpr (fun heq => hb (heq ▸ List.mem_reverse.mp hc))
  have hsplit : (a ++ '/' :: b).reverse = b.reverse ++ '/' :: a.reverse := by simp
  rw [beforeSlash, hsplit, List.dropWhile_append_of_pos hkeep]
  exact List.reverse_reverse a

theorem readNetwork_args (form : Form) {net : Network} (h : net.Valid)
    (rest : List (List Char)) :
    readNetwork (networkArgs form net ++ rest) = some (net, rest) := by
  have hip := str2Ip_ip2Str h.ipaddr_lt
  have hmask : net.netmask < 2 ^ 32 := by
    have hpos := Nat.two_pow_pos (32 - net.bits)
    rw [h.netmask]
    lia
  have hbits : netmask2Prefix net.netmask = some net.bits := by
    rw [h.netmask]
    exact netmask2Prefix_eq h.bits_le
  have hnoSlash := slash_not_mem_ip2Str
  cases form with
  | slashPrefix =>
      have hdigits : '/' ∉ Nat.toDigits 10 net.bits := not_mem_toDigits rfl _
      have hdot : '.' ∉ Nat.toDigits 10 net.bits := not_mem_toDigits rfl _
      have hlt : net.bits < 2 ^ 32 := by
        have hle := h.bits_le
        lia
      rw [networkArgs, List.singleton_append, readNetwork, if_pos (by simp),
        afterSlash_append (hnoSlash _), beforeSlash_append hdigits, if_neg hdot, hip,
        assertUint32_toDigits hlt]
      dsimp only [Option.bind_eq_bind, Option.bind_some]
      rw [prefix2Netmask_eq h.bits_le, <- h.netmask]
      rfl
  | slashNetmask =>
      have hdot : '.' ∈ ip2Str net.netmask := by simp [ip2Str]
      rw [networkArgs, List.singleton_append, readNetwork, if_pos (by simp),
        afterSlash_append (hnoSlash _), beforeSlash_append (hnoSlash _), if_pos hdot, hip,
        str2Ip_ip2Str hmask]
      dsimp only [Option.bind_eq_bind, Option.bind_some]
      rw [hbits]
      rfl
  | separate =>
      rw [networkArgs, List.cons_append, readNetwork, if_neg (hnoSlash _), hip]
      dsimp only [Option.bind_eq_bind, Option.bind_some, List.singleton_append, List.headD]
      rw [str2Ip_ip2Str hmask]
      dsimp only [Option.bind_some]
      rw [hbits]
      rfl

theorem networkArgs_cons (form : Form) (net : Network) (rest : List (List Char)) :
    exists arg tail, networkArgs form net ++ rest = arg :: tail ∧ '.' ∈ arg := by
  have hdot : '.' ∈ ip2Str net.ipaddr := by simp [ip2Str]
  cases form with
  | slashPrefix => exact ⟨_, _, rfl, List.mem_append_left _ hdot⟩
  | slashNetmask => exact ⟨_, _, rfl, List.mem_append_left _ hdot⟩
  | separate => exact ⟨_, _, rfl, hdot⟩

theorem readFormat_args (format : Format) {arg : List Char} (harg : '.' ∈ arg)
    (tail : List (List Char)) :
    readFormat (formatArgs format ++ arg :: tail) = (format, arg :: tail) := by
  cases format with
  | decimal => rfl
  | hexadecimal => rfl
  | dotted =>
      rw [formatArgs, List.nil_append, readFormat.eq_3]
      · rintro rest heq
        cases heq
        simp at harg
      · rintro rest heq
        cases heq
        simp at harg

theorem ip2StrAs_some (format : Format) {n : Nat} (hn : n < 2 ^ 32) :
    exists text, ip2StrAs format n = some text := by
  have hsmall : ¬ ((n : Int) < 0 ∨ (uintMax : Int) < n) := by
    unfold uintMax
    lia
  unfold ip2StrAs
  rw [if_neg hsmall]
  cases format with
  | dotted => exact ⟨_, rfl⟩
  | decimal => exact ⟨_, rfl⟩
  | hexadecimal => exact ⟨_, rfl⟩

theorem lines_some (format : Format) {net : Network} (h : net.Valid) :
    exists lines, net.lines format = some lines := by
  have hle := Network.first_add_size_le h
  have hpos : 0 < net.size := Network.size_pos
  have hmask : net.netmask < 2 ^ 32 := by
    have hpow := Nat.two_pow_pos (32 - net.bits)
    rw [h.netmask]
    lia
  have hnetwork : net.network < 2 ^ 32 := by
    rw [Network.network_eq h]
    lia
  have hbroadcast : net.broadcast < 2 ^ 32 := by
    rw [Network.broadcast, Network.broadcast_eq h]
    lia
  rcases ip2StrAs_some format h.ipaddr_lt with ⟨ip, hip⟩
  rcases ip2StrAs_some format hmask with ⟨netmask, hnetmask⟩
  rcases ip2StrAs_some format hnetwork with ⟨network, hnet⟩
  rcases ip2StrAs_some format hbroadcast with ⟨broadcast, hbroad⟩
  rw [Network.lines, hip, hnetmask, hnet, hbroad]
  split
  · exact ⟨_, rfl⟩
  · exact ⟨_, rfl⟩

theorem printRange_cases (format : Format) {net : Network} (h : net.Valid)
    (lines : List (List Char)) {start limit : Nat} (hstart : start < 2 ^ 32)
    (hlimit : limit < 2 ^ 32) :
    (exists first last : Nat, exists firstText lastText,
      ip2StrAs format first = some firstText ∧ ip2StrAs format last = some lastText ∧
      printRange format net lines [Nat.toDigits 10 start, Nat.toDigits 10 limit] =
        { lines := lines ++ ["START=".toList ++ firstText, "END=".toList ++ lastText]
          outcome := .range first last } ∧
      Usable net.ipaddr net.bits limit first last) ∨
    (printRange format net lines [Nat.toDigits 10 start, Nat.toDigits 10 limit] =
        { lines := lines, outcome := .tooSmall } ∧
      forall stop, ¬ Usable net.ipaddr net.bits limit (net.clampedStart start) stop ∧
        ¬ Usable net.ipaddr net.bits limit (net.rangeStart start) stop) ∨
    printRange format net lines [Nat.toDigits 10 start, Nat.toDigits 10 limit] =
      { lines := lines, outcome := .ownInside } := by
  have hargs : Nat.toDigits 10 start ++ Nat.toDigits 10 limit ≠ [] := by
    intro hnil
    exact Nat.toDigits_ne_nil (List.append_eq_nil_iff.mp hnil).left
  rw [printRange, if_neg hargs, assertUint32_toDigits hstart, assertUint32_toDigits hlimit]
  dsimp only
  by_cases hsmall : net.rangeEnd (net.rangeStart start) limit < net.rangeStart start
  · have hnone := not_usable_of_lt h hsmall
    rw [if_pos hsmall]
    exact Or.inr (Or.inl ⟨rfl, fun stop => ⟨not_usable_clamped hnone, hnone stop⟩⟩)
  · rw [if_neg hsmall]
    rcases Int.eq_ofNat_of_zero_le (a := net.rangeEnd (net.rangeStart start) limit) (by lia)
      with ⟨stop, hstop⟩
    have hsize := Network.first_add_size_le h
    have hupper := upper_eq h
    have hlast : stop < 2 ^ 32 := by
      rcases rangeEnd_cases net (net.rangeStart start) limit with ⟨last, _, hle, _, hend⟩
      lia
    rcases ip2StrAs_some format (by lia : net.rangeStart start < 2 ^ 32) with
      ⟨firstText, hfirst⟩
    rcases ip2StrAs_some format hlast with ⟨lastText, hlastText⟩
    rw [hstop] at hsmall ⊢
    rw [hfirst, hlastText]
    dsimp only
    by_cases hown : (net.rangeStart start : Int) ≤ net.ipaddr ∧ (net.ipaddr : Int) ≤ stop
    · exact Or.inr (Or.inr (if_pos hown))
    · refine Or.inl ⟨net.rangeStart start, stop, firstText, lastText, hfirst, hlastText,
        if_neg hown, ?_⟩
      exact usable_of_le h hstop (by lia) (by lia)

theorem networkOf_valid {ip bits : Nat} (hip : ip < 2 ^ 32) (hbits : bits ≤ 32) :
    (networkOf ip bits).Valid :=
  ⟨hip, hbits, rfl⟩

/-- A range that the script prints can be used; a network that it calls too small has no
range from the clamped start on that could be. -/
theorem ipcalc_usable (format : Format) (form : Form) {ip bits start limit : Nat}
    (hip : ip < 2 ^ 32) (hbits : bits ≤ 32) (hstart : start < 2 ^ 32) (hlimit : limit < 2 ^ 32) :
    exists lines run, (networkOf ip bits).lines format = some lines ∧
      ipcalc (formatArgs format ++ (networkArgs form (networkOf ip bits) ++
        [Nat.toDigits 10 start, Nat.toDigits 10 limit])) = run ∧
      ((exists first last : Nat, exists firstText lastText,
        ip2StrAs format first = some firstText ∧ ip2StrAs format last = some lastText ∧
        run = { lines := lines ++ ["START=".toList ++ firstText, "END=".toList ++ lastText]
                outcome := .range first last } ∧
        Usable ip bits limit first last) ∨
      (run = { lines := lines, outcome := .tooSmall } ∧
        forall stop, ¬ Usable ip bits limit ((networkOf ip bits).clampedStart start) stop ∧
          ¬ Usable ip bits limit ((networkOf ip bits).rangeStart start) stop) ∨
      run = { lines := lines, outcome := .ownInside }) := by
  have h := networkOf_valid hip hbits
  rcases lines_some format h with ⟨lines, hlines⟩
  have hrun : ipcalc (formatArgs format ++ (networkArgs form (networkOf ip bits) ++
      [Nat.toDigits 10 start, Nat.toDigits 10 limit])) =
      printRange format (networkOf ip bits) lines
        [Nat.toDigits 10 start, Nat.toDigits 10 limit] := by
    have hread := readNetwork_args form h [Nat.toDigits 10 start, Nat.toDigits 10 limit]
    rcases networkArgs_cons form (networkOf ip bits)
      [Nat.toDigits 10 start, Nat.toDigits 10 limit] with ⟨arg, tail, hargs, hdot⟩
    rw [hargs] at hread ⊢
    rw [ipcalc, readFormat_args format hdot]
    dsimp only
    rw [hread]
    dsimp only
    rw [hlines, if_neg (by simp)]
  exact ⟨lines, _, hlines, hrun, printRange_cases format h lines hstart hlimit⟩

/-- `ipcalc.sh 192.168.1.1/24 100 150` prints 192.168.1.100 and 192.168.1.249. -/
theorem home_network_usable :
    (ipcalc ["192.168.1.1/24".toList, "100".toList, "150".toList]).outcome =
        .range 3232235876 3232236025 ∧
      Usable 3232235777 24 150 3232235876 3232236025 := by
  have heval : (ipcalc ["192.168.1.1/24".toList, "100".toList, "150".toList]).outcome =
      .range 3232235876 3232236025 := by decide +kernel
  have hargs : formatArgs .dotted ++ (networkArgs .slashPrefix (networkOf 3232235777 24) ++
      [Nat.toDigits 10 100, Nat.toDigits 10 150]) =
      ["192.168.1.1/24".toList, "100".toList, "150".toList] := by decide +kernel
  refine ⟨heval, ?_⟩
  rcases ipcalc_usable .dotted .slashPrefix (by decide : 3232235777 < 2 ^ 32)
    (by decide : 24 ≤ 32) (by decide : 100 < 2 ^ 32) (by decide : 150 < 2 ^ 32) with
    ⟨lines, run, _, hrun, ⟨first, last, _, _, _, _, rfl, husable⟩ | ⟨rfl, _⟩ | rfl⟩
  · rw [hargs] at hrun
    rw [hrun] at heval
    cases heval
    exact husable
  · rw [hargs] at hrun
    rw [hrun] at heval
    cases heval
  · rw [hargs] at hrun
    rw [hrun] at heval
    cases heval

end Shell
end Hlk7621
