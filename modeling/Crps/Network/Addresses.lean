import Mathlib.Data.List.TakeWhile
import Crps.Foundation.Decimal
import Crps.Foundation.Memo
import Crps.System.State

/-!
# Socket addresses and their strings

The two conversions of `LinuxNetwork` and their caches. A client is known to the
broker by the string of its address, which leads back to the socket address it
was made from. `inet_ntop` and `inet_pton` belong to the platform; what is used
of them is that dotted addresses hold digits and dots only and are read back.
-/

namespace Crps

inductive AddressFamily where
  | inet
  | unspec
  deriving DecidableEq, Repr

/-- `sockaddr_in`, its address and port in network byte order. A failed `recvfrom` leaves a
zeroed one, whose family is unspecified. -/
structure SockaddrIn where
  family : AddressFamily
  addr : UInt32
  port : UInt16
  deriving DecidableEq, Repr

/-- The platform's conversion of IPv4 addresses; none stands for failure. -/
structure Inet where
  ntop : AddressFamily → UInt32 → Option String
  pton : String → Option UInt32
  ntop_unspec : ∀ addr, ntop .unspec addr = none
  ntop_inet : ∀ addr, ∃ host, ntop .inet addr = some host ∧
    (∀ c ∈ host.toList, c.isDigit = true ∨ c = '.') ∧ pton host = some addr

/-- `ntohs` and `htons` on a little-endian host. -/
def swapBytes (w : UInt16) : UInt16 := UInt16.ofNat (w.toNat % 256 * 256 + w.toNat / 256)

theorem toNat_swapBytes (w : UInt16) :
    (swapBytes w).toNat = w.toNat % 256 * 256 + w.toNat / 256 := by
  have hw := w.toNat_lt
  rw [swapBytes, UInt16.toNat_ofNat']
  omega

theorem swapBytes_swapBytes (w : UInt16) : swapBytes (swapBytes w) = w := by
  have hw := w.toNat_lt
  rw [← UInt16.toNat_inj, toNat_swapBytes, toNat_swapBytes]
  omega

inductive ConversionError where
  | failed
  | invalidArgument
  | outOfRange
  deriving DecidableEq, Repr

def isSpace (c : Char) : Bool := c = ' ' || (9 ≤ c.toNat && c.toNat ≤ 13)

/-- The sign `strtol` takes, and the text behind it. -/
def splitSign : List Char → Bool × List Char
  | '-' :: rest => (true, rest)
  | '+' :: rest => (false, rest)
  | rest => (false, rest)

/-- `std::stoi`; both errors are exceptions. -/
def stoi (cs : List Char) : Except ConversionError ℤ :=
  let signed := splitSign (cs.dropWhile isSpace)
  match Decimal.scanChars signed.2 with
  | none => .error .invalidArgument
  | some (n, _) =>
    let z : ℤ := if signed.1 then -n else n
    if -2 ^ 31 ≤ z ∧ z < 2 ^ 31 then .ok z else .error .outOfRange

/-- The parts before and behind the first colon. Without one both are the whole string, as
`find` returns `npos` and `npos + 1` is zero. -/
def splitAddress (cs : List Char) : List Char × List Char :=
  (cs.takeWhile (· ≠ ':'), if ':' ∈ cs then (cs.dropWhile (· ≠ ':')).tail else cs)

structure LinuxNetwork where
  addressToSockaddr : String → Option SockaddrIn
  sockaddrToAddress : UInt32 × UInt16 → Option String

namespace LinuxNetwork

def create : LinuxNetwork := ⟨fun _ => none, fun _ => none⟩

variable (inet : Inet)

/-- The conversion of `to_sockaddr` on a cache miss. The host is handed over as a C string. -/
def convertAddress (address : String) : Except ConversionError SockaddrIn := do
  let parts := splitAddress address.toList
  let port : UInt16 := .ofInt (← stoi parts.2)
  match inet.pton (String.ofList (parts.1.takeWhile (· ≠ '\x00'))) with
  | none => .error .failed
  | some addr => .ok ⟨.inet, addr, swapBytes port⟩

/-- The conversion of `to_address` on a cache miss. -/
def convertSockaddr (sockaddr : SockaddrIn) : Except ConversionError String :=
  match inet.ntop sockaddr.family sockaddr.addr with
  | none => .error .failed
  | some host => .ok (host ++ ":" ++ Decimal.text (swapBytes sockaddr.port).toNat)

variable (l : LinuxNetwork)

def toSockaddr (address : String) : Except ConversionError SockaddrIn × LinuxNetwork :=
  let converted := memoize l.addressToSockaddr address (convertAddress inet address)
  (converted.1, { l with addressToSockaddr := converted.2 })

/-- The cache of `to_address` is keyed by address and port, whatever the family. -/
def toAddress (sockaddr : SockaddrIn) : Except ConversionError String × LinuxNetwork :=
  let converted := memoize l.sockaddrToAddress (sockaddr.addr, sockaddr.port)
    (convertSockaddr inet sockaddr)
  (converted.1, { l with sockaddrToAddress := converted.2 })

inductive Call where
  | toSockaddr (address : String)
  | toAddress (sockaddr : SockaddrIn)

/-- One call: whether it returned a value, and the network after it. -/
def call : Call → Bool × LinuxNetwork
  | .toSockaddr address => ((l.toSockaddr inet address).1.isOk, (l.toSockaddr inet address).2)
  | .toAddress sockaddr => ((l.toAddress inet sockaddr).1.isOk, (l.toAddress inet sockaddr).2)

def callAll (l : LinuxNetwork) : List Call → LinuxNetwork
  | [] => l
  | c :: cs => (l.call inet c).2.callAll cs

/-! ## Strings of socket addresses -/

theorem dropWhile_isSpace_of_isDigit {d : Char} (hd : d.isDigit = true) (ds : List Char) :
    (d :: ds).dropWhile isSpace = d :: ds := by
  have hspace : isSpace d = false := by
    have hrange := Char.isDigit_iff_toNat.mp hd
    have hne : d ≠ ' ' := by
      rintro rfl
      exact absurd hd (by decide)
    simp only [isSpace, decide_eq_false hne, Bool.false_or, Bool.and_eq_false_iff,
      decide_eq_false_iff_not]
    right
    have hzero : '0'.toNat = 48 := rfl
    omega
  rw [List.dropWhile_cons_of_neg (by rw [hspace]; decide)]

theorem splitSign_of_isDigit {d : Char} (hd : d.isDigit = true) (ds : List Char) :
    splitSign (d :: ds) = (false, d :: ds) := by
  unfold splitSign
  split
  · rename_i h
    injection h with h
    rw [h] at hd
    exact absurd hd (by decide)
  · rename_i h
    injection h with h
    rw [h] at hd
    exact absurd hd (by decide)
  · rfl

theorem stoi_digits {n : ℕ} (hn : n < 2 ^ 31) : stoi (Decimal.digits n) = .ok n := by
  have hscan := @Decimal.scanChars_digits n [] (by simp)
  rw [List.append_nil] at hscan
  obtain ⟨d, ds, hdigits⟩ := List.exists_cons_of_ne_nil (Decimal.digits_ne_nil n)
  have hd : d.isDigit = true := @Decimal.isDigit_of_mem_digits n d (by simp [hdigits])
  rw [hdigits] at hscan ⊢
  simp only [stoi, dropWhile_isSpace_of_isDigit hd, splitSign_of_isDigit hd, hscan,
    Bool.false_eq_true, if_false]
  rw [if_pos (by omega)]

theorem splitAddress_append {host port : List Char} (hhost : ':' ∉ host) :
    splitAddress (host ++ ':' :: port) = (host, port) := by
  have hkeep : ∀ c ∈ host, decide (c ≠ ':') = true := by
    intro c hc
    rw [decide_eq_true_iff]
    rintro rfl
    exact hhost hc
  simp only [splitAddress, List.mem_append, List.mem_cons, true_or, or_true, if_true]
  rw [List.takeWhile_append_of_pos hkeep, List.dropWhile_append_of_pos hkeep]
  simp

/-- The string of a socket address leads back to it. -/
theorem convertAddress_convertSockaddr (addr : UInt32) (port : UInt16) :
    ∃ address, convertSockaddr inet ⟨.inet, addr, port⟩ = .ok address ∧
      convertAddress inet address = .ok ⟨.inet, addr, port⟩ := by
  obtain ⟨host, hntop, hchars, hpton⟩ := inet.ntop_inet addr
  refine ⟨host ++ ":" ++ Decimal.text (swapBytes port).toNat, ?_, ?_⟩
  · simp only [convertSockaddr, hntop]
  · have hchar : ∀ c ∈ host.toList, c ≠ ':' ∧ c ≠ '\x00' := by
      intro c hc
      rcases hchars c hc with h | rfl
      · constructor <;> rintro rfl <;> exact absurd h (by decide)
      · decide
    have hcolon : ':' ∉ host.toList := fun h => (hchar _ h).1 rfl
    have hcstring : host.toList.takeWhile (· ≠ '\x00') = host.toList := by
      rw [List.takeWhile_eq_self_iff]
      intro c hc
      simpa using (hchar c hc).2
    have hsplit : (host ++ ":" ++ Decimal.text (swapBytes port).toNat).toList =
        host.toList ++ ':' :: Decimal.digits (swapBytes port).toNat := by
      simp [Decimal.text, String.toList_append]
    have hport := (swapBytes port).toNat_lt
    have hback : UInt16.ofInt (swapBytes port).toNat = swapBytes port := by
      have hmod : (((swapBytes port).toNat : ℤ) % 2 ^ 16).toNat = (swapBytes port).toNat := by
        omega
      rw [UInt16.ofInt, hmod, UInt16.ofNat_toNat]
    simp only [convertAddress, hsplit, splitAddress_append hcolon, hcstring,
      stoi_digits (show (swapBytes port).toNat < 2 ^ 31 by omega), bind, Except.bind,
      String.ofList_toList, hpton, hback, swapBytes_swapBytes]

theorem convertSockaddr_inet {sockaddr : SockaddrIn} {address : String}
    (h : convertSockaddr inet sockaddr = .ok address) :
    convertSockaddr inet ⟨.inet, sockaddr.addr, sockaddr.port⟩ = .ok address := by
  cases hfamily : sockaddr.family with
  | inet =>
    rw [← hfamily]
    exact h
  | unspec =>
    simp only [convertSockaddr, hfamily, inet.ntop_unspec] at h
    cases h

theorem convertSockaddr_injective {addr addr' : UInt32} {port port' : UInt16} {address : String}
    (h : convertSockaddr inet ⟨.inet, addr, port⟩ = .ok address)
    (h' : convertSockaddr inet ⟨.inet, addr', port'⟩ = .ok address) :
    (addr, port) = (addr', port') := by
  obtain ⟨first, hfirst, hback⟩ := convertAddress_convertSockaddr inet addr port
  obtain ⟨second, hsecond, hback'⟩ := convertAddress_convertSockaddr inet addr' port'
  rw [h] at hfirst
  rw [h'] at hsecond
  injection hfirst with hfirst
  injection hsecond with hsecond
  rw [← hfirst] at hback
  rw [← hsecond, hback] at hback'
  injection hback' with hsame
  injection hsame with _ haddr hport
  rw [haddr, hport]

/-! ## The caches -/

structure Coherent : Prop where
  sockaddrs : CacheCoherent l.addressToSockaddr (convertAddress inet)
  addresses : CacheCoherent l.sockaddrToAddress fun key =>
    convertSockaddr inet ⟨.inet, key.1, key.2⟩

variable {inet l}

theorem coherent_create : create.Coherent inet :=
  ⟨cacheCoherent_empty _, cacheCoherent_empty _⟩

theorem Coherent.call (h : l.Coherent inet) (c : Call) : (l.call inet c).2.Coherent inet := by
  cases c with
  | toSockaddr address =>
    exact ⟨memoize_coherent h.sockaddrs fun _ hfresh => hfresh, h.addresses⟩
  | toAddress sockaddr =>
    refine ⟨h.sockaddrs, ?_⟩
    exact memoize_coherent h.addresses fun _ hfresh => convertSockaddr_inet inet hfresh

theorem Coherent.callAll (h : l.Coherent inet) (cs : List Call) :
    (l.callAll inet cs).Coherent inet := by
  induction cs generalizing l with
  | nil => exact h
  | cons c cs ih => exact ih (h.call c)

theorem Coherent.toSockaddr (h : l.Coherent inet) (address : String) :
    (l.toSockaddr inet address).1 = convertAddress inet address :=
  memoize_fst h.sockaddrs

theorem Coherent.toAddress (h : l.Coherent inet) (addr : UInt32) (port : UInt16) :
    (l.toAddress inet ⟨.inet, addr, port⟩).1 = convertSockaddr inet ⟨.inet, addr, port⟩ :=
  memoize_fst h.addresses

theorem call_of_failed {c : Call} (h : (l.call inet c).1 = false) : (l.call inet c).2 = l := by
  cases c with
  | toSockaddr address =>
    cases hresult : (l.toSockaddr inet address).1 with
    | ok v => simp [LinuxNetwork.call, hresult, Except.isOk, Except.toBool] at h
    | error e =>
      have hcache := memoize_of_error (e := e) hresult
      simp only [LinuxNetwork.call, LinuxNetwork.toSockaddr, hcache]
  | toAddress sockaddr =>
    cases hresult : (l.toAddress inet sockaddr).1 with
    | ok v => simp [LinuxNetwork.call, hresult, Except.isOk, Except.toBool] at h
    | error e =>
      have hcache := memoize_of_error (e := e) hresult
      simp only [LinuxNetwork.call, LinuxNetwork.toAddress, hcache]

variable (inet)

/-- After any calls the caches hold what a fresh conversion gives, a failed call has left them
as they were, and the strings of socket addresses lead back to them and keep them apart. -/
theorem addresses_identify (calls : List Call) :
    let l := create.callAll inet calls
    l.Coherent inet ∧
    (∀ c, (l.call inet c).1 = false → (l.call inet c).2 = l) ∧
    (∀ addr port, ∃ address, (l.toAddress inet ⟨.inet, addr, port⟩).1 = .ok address ∧
      ∀ later, ((l.callAll inet later).toSockaddr inet address).1 = .ok ⟨.inet, addr, port⟩) ∧
    ∀ addr port addr' port' address address' later,
      (l.toAddress inet ⟨.inet, addr, port⟩).1 = .ok address →
      ((l.callAll inet later).toAddress inet ⟨.inet, addr', port'⟩).1 = .ok address' →
      (addr, port) ≠ (addr', port') → address ≠ address' := by
  intro l
  have hl : l.Coherent inet := coherent_create.callAll calls
  refine ⟨hl, fun c => call_of_failed, ?_, ?_⟩
  · intro addr port
    obtain ⟨address, hstring, hback⟩ := convertAddress_convertSockaddr inet addr port
    refine ⟨address, (hl.toAddress addr port).trans hstring, fun later => ?_⟩
    rw [(hl.callAll later).toSockaddr, hback]
  · intro addr port addr' port' address address' later haddress haddress' hne
    rw [hl.toAddress] at haddress
    rw [(hl.callAll later).toAddress] at haddress'
    rintro rfl
    exact hne (convertSockaddr_injective inet haddress haddress')

end LinuxNetwork

/-! ## Dotted decimal addresses -/

namespace DottedDecimal

def ntop : AddressFamily → UInt32 → Option String
  | .unspec, _ => none
  | .inet, addr => some (String.ofList (
      Decimal.digits (addr.toNat % 256) ++ '.' :: (
        Decimal.digits (addr.toNat / 2 ^ 8 % 256) ++ '.' :: (
          Decimal.digits (addr.toNat / 2 ^ 16 % 256) ++ '.' ::
            Decimal.digits (addr.toNat / 2 ^ 24)))))

/-- A number up to 255 without leading zeros, and the text behind it. -/
def octet (cs : List Char) : Option (ℕ × List Char) :=
  match Decimal.scanChars cs with
  | none => none
  | some (n, rest) =>
    if n ≤ 255 ∧ cs.takeWhile Char.isDigit = Decimal.digits n then some (n, rest) else none

def behindDot : List Char → Option (List Char)
  | '.' :: rest => some rest
  | _ => none

def pton (host : String) : Option UInt32 := do
  let (a, rest) ← octet host.toList
  let (b, rest) ← octet (← behindDot rest)
  let (c, rest) ← octet (← behindDot rest)
  let (d, rest) ← octet (← behindDot rest)
  if rest = [] then some (UInt32.ofNat (a + b * 2 ^ 8 + c * 2 ^ 16 + d * 2 ^ 24)) else none

theorem octet_digits {n : ℕ} (hn : n ≤ 255) {rest : List Char}
    (hrest : ∀ c ∈ rest.head?, c.isDigit = false) :
    octet (Decimal.digits n ++ rest) = some (n, rest) := by
  simp only [octet, Decimal.scanChars_digits n hrest, Decimal.takeWhile_digits n hrest, and_true,
    if_pos hn]

theorem mem_ntop {addr : UInt32} {host : String} (h : ntop .inet addr = some host) :
    ∀ c ∈ host.toList, c.isDigit = true ∨ c = '.' := by
  injection h with h
  subst h
  intro c hc
  simp only [String.toList_ofList, List.mem_append, List.mem_cons] at hc
  rcases hc with hc | hc | hc | hc | hc | hc | hc
  all_goals first
    | exact .inl (Decimal.isDigit_of_mem_digits hc)
    | exact .inr hc

theorem pton_ntop {addr : UInt32} {host : String} (h : ntop .inet addr = some host) :
    pton host = some addr := by
  have hlt := addr.toNat_lt
  have hdot : ∀ cs : List Char, ∀ c ∈ ('.' :: cs).head?, c.isDigit = false := by
    intro cs c hc
    cases hc
    rfl
  have hlast := @octet_digits (addr.toNat / 2 ^ 24) (by omega) [] (by simp)
  rw [List.append_nil] at hlast
  have hsum : addr.toNat % 256 + addr.toNat / 2 ^ 8 % 256 * 2 ^ 8 +
      addr.toNat / 2 ^ 16 % 256 * 2 ^ 16 + addr.toNat / 2 ^ 24 * 2 ^ 24 = addr.toNat := by
    omega
  injection h with h
  subst h
  simp only [pton, String.toList_ofList, bind, Option.bind, behindDot,
    octet_digits (show addr.toNat % 256 ≤ 255 by omega) (hdot _),
    octet_digits (show addr.toNat / 2 ^ 8 % 256 ≤ 255 by omega) (hdot _),
    octet_digits (show addr.toNat / 2 ^ 16 % 256 ≤ 255 by omega) (hdot _), hlast, if_true, hsum,
    UInt32.ofNat_toNat]

end DottedDecimal

/-- Address conversion as the platform does it. -/
def dottedDecimal : Inet where
  ntop := DottedDecimal.ntop
  pton := DottedDecimal.pton
  ntop_unspec _ := rfl
  ntop_inet _ := ⟨_, rfl, DottedDecimal.mem_ntop rfl, DottedDecimal.pton_ntop rfl⟩

/-- Nodes behind distinct socket addresses, known to the broker by their strings. -/
def Deployment.ofEndpoints {ι : Type} (text : JsonText) (inet : Inet)
    (endpoint : ι → UInt32 × UInt16) (distinct : Function.Injective endpoint) : Deployment ι where
  text := text
  address i := ((LinuxNetwork.convertSockaddr inet
    ⟨.inet, (endpoint i).1, (endpoint i).2⟩).toOption).getD ""
  address_injective := by
    intro i j h
    obtain ⟨first, hfirst, _⟩ := LinuxNetwork.convertAddress_convertSockaddr inet
      (endpoint i).1 (endpoint i).2
    obtain ⟨second, hsecond, _⟩ := LinuxNetwork.convertAddress_convertSockaddr inet
      (endpoint j).1 (endpoint j).2
    simp only [hfirst, hsecond, Except.toOption, Option.getD_some] at h
    subst h
    exact distinct (LinuxNetwork.convertSockaddr_injective inet hfirst hsecond)

/-- After a call that failed, the string for port 40001 of host 10.0.0.2 leads back to it. -/
theorem LinuxNetwork.addresses_identify_dotted :
    ∃ address, ((LinuxNetwork.create.callAll dottedDecimal [.toSockaddr "10.0.0.2"]).toAddress
        dottedDecimal ⟨.inet, 0x0200000a, 0x419c⟩).1 = .ok address ∧
      ∀ later, (((LinuxNetwork.create.callAll dottedDecimal
        [.toSockaddr "10.0.0.2"]).callAll dottedDecimal later).toSockaddr dottedDecimal
          address).1 = .ok ⟨.inet, 0x0200000a, 0x419c⟩ :=
  (LinuxNetwork.addresses_identify dottedDecimal [.toSockaddr "10.0.0.2"]).2.2.1 _ _

end Crps
