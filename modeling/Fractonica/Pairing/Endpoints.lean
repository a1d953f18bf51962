import Fractonica.Lib.Result

namespace Fractonica.Pairing

open Lib List

structure Ipv4Addr where
  first : UInt8
  second : UInt8
  third : UInt8
  fourth : UInt8
deriving DecidableEq

structure Ipv6Addr where
  bits : BitVec 128
deriving DecidableEq

inductive IpAddr where
  | v4 (address : Ipv4Addr)
  | v6 (address : Ipv6Addr)
deriving DecidableEq

def Ipv4Addr.isLoopback (address : Ipv4Addr) : Bool := address.first = 127

def Ipv4Addr.isPrivate (address : Ipv4Addr) : Bool :=
  address.first = 10 || (address.first = 172 && 16 ≤ address.second && address.second ≤ 31) ||
    (address.first = 192 && address.second = 168)

def Ipv4Addr.isLinkLocal (address : Ipv4Addr) : Bool := address.first = 169 && address.second = 254

def Ipv6Addr.isLoopback (address : Ipv6Addr) : Bool := address.bits = 1

def Ipv6Addr.isUniqueLocal (address : Ipv6Addr) : Bool :=
  address.bits.extractLsb' 112 16 &&& 0xfe00 = 0xfc00

def Ipv6Addr.isUnicastLinkLocal (address : Ipv6Addr) : Bool :=
  address.bits.extractLsb' 112 16 &&& 0xffc0 = 0xfe80

def IpAddr.isLocal : IpAddr → Bool
  | .v4 address => address.isLoopback || address.isPrivate || address.isLinkLocal
  | .v6 address => address.isLoopback || address.isUniqueLocal || address.isUnicastLinkLocal

def octetText (octet : UInt8) : List Char := Nat.toDigits 10 octet.toNat

def Ipv4Addr.text (address : Ipv4Addr) : List Char :=
  octetText address.first ++ '.' :: (octetText address.second ++ '.' ::
    (octetText address.third ++ '.' :: octetText address.fourth))

-- At most three digits, and no zero in front.
def readOctet (text : List Char) : Option (UInt8 × List Char) :=
  let digits := text.takeWhile Char.isDigit
  let value := digits.foldl (fun value digit => 10 * value + (digit.toNat - 48)) 0
  if digits = [] || 3 < digits.length || (digits.head? = some '0' && 1 < digits.length) ||
      255 < value then none
  else some (UInt8.ofNat value, text.dropWhile Char.isDigit)

def readDot : List Char → Option (List Char)
  | '.' :: rest => some rest
  | _ => none

def parseIpv4 (text : List Char) : Option Ipv4Addr := do
  let (first, text) ← readOctet text
  let (second, text) ← readOctet (← readDot text)
  let (third, text) ← readOctet (← readDot text)
  let (fourth, text) ← readOctet (← readDot text)
  if text = [] then some ⟨first, second, third, fourth⟩ else none

theorem octetText_reads (octet : UInt8) : (∀ digit ∈ octetText octet, digit.isDigit = true) ∧
    readOctet (octetText octet) = some (octet, []) := by
  have hall : (List.range 256).all (fun n => (octetText (.ofNat n)).all Char.isDigit &&
      readOctet (octetText (.ofNat n)) = some (.ofNat n, [])) = true := by decide +kernel
  have hoctet := all_eq_true.mp hall octet.toNat (mem_range.mpr octet.toNat_lt)
  rwa [UInt8.ofNat_toNat, Bool.and_eq_true, all_eq_true, decide_eq_true_eq] at hoctet

theorem readOctet_append (octet : UInt8) (rest : List Char)
    (h : ∀ next ∈ rest.head?, next.isDigit = false) :
    readOctet (octetText octet ++ rest) = some (octet, rest) := by
  obtain ⟨hdigits, hread⟩ := octetText_reads octet
  have hrest : rest.takeWhile Char.isDigit = [] ∧ rest.dropWhile Char.isDigit = rest := by
    cases rest with
    | nil => exact ⟨rfl, rfl⟩
    | cons next rest => simp [h next rfl]
  have htake : ∀ more : List Char, more.takeWhile Char.isDigit = [] →
      (octetText octet ++ more).takeWhile Char.isDigit = octetText octet := by
    intro more hmore
    rw [takeWhile_append_of_pos hdigits, hmore, append_nil]
  have hdrop : (octetText octet ++ rest).dropWhile Char.isDigit = rest := by
    rw [dropWhile_append_of_pos hdigits, hrest.2]
  have hself := htake [] rfl
  rw [append_nil] at hself
  simp only [readOctet, hself, htake rest hrest.1, hdrop, Option.ite_none_left_eq_some, Option.some.injEq,
    Prod.mk.injEq] at hread ⊢
  exact ⟨hread.1, hread.2.1, trivial⟩

theorem parseIpv4_text (address : Ipv4Addr) : parseIpv4 address.text = some address := by
  have hdot : ∀ rest : List Char, ∀ next ∈ ('.' :: rest).head?, next.isDigit = false := by
    intro rest next hnext
    obtain rfl := Option.some.inj hnext
    decide
  have hlast := readOctet_append address.fourth [] nofun
  rw [append_nil] at hlast
  simp [parseIpv4, Ipv4Addr.text, readOctet_append _ _ (hdot _), readDot, hlast]

section Urls

inductive Host where
  | domain (name : List Char)
  | ipv4 (address : Ipv4Addr)
  | ipv6 (address : Ipv6Addr)
deriving DecidableEq

structure Url where
  scheme : String
  username : String
  password : Option String
  host : Option Host
  path : String
  query : Option String
  fragment : Option String
deriving DecidableEq

-- What the `url` crate and the standard library do with the text of an endpoint
-- and of an address. No text of an address that is read has a bracket.
structure UrlLibrary where
  parse : String → Option Url
  ipv6Text : Ipv6Addr → List Char
  parseIpv6 : List Char → Option Ipv6Addr
  parseIpv6_bracket : ∀ text, parseIpv6 ('[' :: text) = none

def isLocalhost (name : List Char) : Bool := name.map Char.toLower = "localhost".toList

def Host.isLocal : Host → Bool
  | .domain name => isLocalhost name
  | .ipv4 address => (IpAddr.v4 address).isLocal
  | .ipv6 address => (IpAddr.v6 address).isLocal

def Host.isIpv6 : Host → Bool
  | .ipv6 _ => true
  | _ => false

def Url.isPlainHttp (url : Url) : Bool :=
  url.scheme = "http" && url.username = "" && url.password.isNone && url.query.isNone &&
    url.fragment.isNone

variable (L : UrlLibrary)

def UrlLibrary.hostText : Host → List Char
  | .domain name => name
  | .ipv4 address => address.text
  | .ipv6 address => '[' :: (L.ipv6Text address ++ [']'])

def UrlLibrary.parseIp (text : List Char) : Option IpAddr :=
  ((parseIpv4 text).map .v4).or ((L.parseIpv6 text).map .v6)

-- The node looks at the host as it was parsed.
def isSafePairingEndpoint (value : String) : Bool :=
  (L.parse value).any fun url =>
    url.isPlainHttp && (url.path = "" || url.path = "/") && url.host.any Host.isLocal

-- The client looks at its text.
def isLocalNetwork (host : List Char) : Bool :=
  isLocalhost host || (L.parseIp host).any IpAddr.isLocal

inductive ClientRuntimeError where
  | nodeContract (text : String)
  | invalidPairingInvitation
deriving DecidableEq

def validatePairedEndpoint (value : String) : Except ClientRuntimeError Url := do
  let url ← okOr (L.parse value) (.nodeContract "invalid endpoint")
  require (url.isPlainHttp && url.host.any fun host => isLocalNetwork L (L.hostText host))
    (.nodeContract "paired endpoint must be a plain HTTP local-network origin")
  .ok url

-- The endpoints that a client tries for an invitation.
def pairingEndpoints (hints : List String) : Except ClientRuntimeError (List Url) := do
  let endpoints := hints.filterMap fun hint => (validatePairedEndpoint L hint).toOption
  require (!endpoints.isEmpty) .invalidPairingInvitation
  .ok endpoints

def isIpv6Endpoint (value : String) : Bool :=
  (L.parse value).any fun url => url.host.any Host.isIpv6

variable {L}

-- An address in brackets is not read as an address.
theorem isLocalNetwork_hostText (host : Host) (h : host.isLocal = true) :
    isLocalNetwork L (L.hostText host) = !host.isIpv6 := by
  cases host with
  | domain name => exact Bool.or_eq_true_iff.mpr (.inl h)
  | ipv4 address =>
    simp only [isLocalNetwork, UrlLibrary.hostText, UrlLibrary.parseIp, parseIpv4_text,
      Option.map_some, Option.some_or, Option.any_some]
    exact Bool.or_eq_true_iff.mpr (.inr h)
  | ipv6 address =>
    have hnone : parseIpv4 ('[' :: (L.ipv6Text address ++ [']'])) = none := rfl
    simp only [isLocalNetwork, UrlLibrary.hostText, UrlLibrary.parseIp, hnone,
      L.parseIpv6_bracket]
    rfl

theorem validatePairedEndpoint_isOk (hsafe : isSafePairingEndpoint L hint = true) :
    (validatePairedEndpoint L hint).isOk = true ↔ isIpv6Endpoint L hint = false := by
  simp only [isSafePairingEndpoint, Option.any_eq_true, Bool.and_eq_true] at hsafe
  obtain ⟨url, hparse, ⟨hplain, -⟩, host, hhost, hlocal⟩ := hsafe
  have hnetwork := isLocalNetwork_hostText (L := L) host hlocal
  simp only [validatePairedEndpoint, isOk_iff, hparse, okOr, ok_bind, require_bind_eq_ok, hplain,
    Bool.true_and, hhost, Option.any_some, hnetwork, isIpv6Endpoint]
  simp

theorem pairingEndpoints_isOk : (pairingEndpoints L hints).isOk = true ↔
    ∃ hint ∈ hints, (validatePairedEndpoint L hint).isOk = true := by
  have hoption : ∀ hint, (∃ url, (validatePairedEndpoint L hint).toOption = some url) ↔
      (validatePairedEndpoint L hint).isOk = true := by
    intro hint
    cases validatePairedEndpoint L hint <;> simp [Except.toOption, Except.isOk, Except.toBool]
  simp only [pairingEndpoints, isOk_iff, require_bind_eq_ok, Except.ok.injEq, exists_and_left,
    exists_eq', and_true, Bool.not_eq_true', isEmpty_eq_false_iff_exists_mem,
    mem_filterMap]
  rw [exists_comm]
  simp [hoption, isOk_iff]

-- The client accepts what the node accepts, except for the addresses in brackets.
-- Where all hints are such, it finds no endpoint.
theorem endpoints_agree_unless_ipv6 (L : UrlLibrary) (hints : List String)
    (hsafe : ∀ hint ∈ hints, isSafePairingEndpoint L hint = true) :
    (∀ hint ∈ hints,
      (validatePairedEndpoint L hint).isOk = true ↔ isIpv6Endpoint L hint = false) ∧
    ((pairingEndpoints L hints).isOk = true ↔ ∃ hint ∈ hints, isIpv6Endpoint L hint = false) := by
  have heach : ∀ hint ∈ hints,
      (validatePairedEndpoint L hint).isOk = true ↔ isIpv6Endpoint L hint = false :=
    fun hint hhint => validatePairedEndpoint_isOk (hsafe hint hhint)
  refine ⟨heach, ?_⟩
  rw [pairingEndpoints_isOk]
  exact exists_congr fun hint => and_congr_right (heach hint)

end Urls

namespace Sample

def origin (host : Host) : Url where
  scheme := "http"
  username := ""
  password := none
  host := some host
  path := "/"
  query := none
  fragment := none

def linkLocal : Ipv6Addr := ⟨0xfe800000000000000000000000000001⟩

def library : UrlLibrary where
  parse value :=
    [("http://192.168.1.7:7412", origin (.ipv4 ⟨192, 168, 1, 7⟩)),
      ("http://LocalHost:7412", origin (.domain "localhost".toList)),
      ("http://[fe80::1]:7412", origin (.ipv6 linkLocal))].lookup value
  ipv6Text address := if address = linkLocal then "fe80::1".toList else []
  parseIpv6 text := if text = "fe80::1".toList then some linkLocal else none
  parseIpv6_bracket text := by simp

def localHints : List String := ["http://192.168.1.7:7412", "http://LocalHost:7412"]

end Sample

open Sample (library localHints)

theorem endpoints_agree_on_local_hosts :
    (∀ hint ∈ localHints, isSafePairingEndpoint library hint = true) ∧
    (pairingEndpoints library localHints).isOk = true := by
  have hsafe : ∀ hint ∈ localHints, isSafePairingEndpoint library hint = true := by decide +kernel
  have hplain : isIpv6Endpoint library "http://192.168.1.7:7412" = false := by decide +kernel
  exact ⟨hsafe, (endpoints_agree_unless_ipv6 library localHints hsafe).2.mpr
    ⟨_, mem_cons_self, hplain⟩⟩

-- The link-local address of a node is a safe hint that no client can use.
theorem ipv6_hint_refused :
    isSafePairingEndpoint library "http://[fe80::1]:7412" = true ∧
    (validatePairedEndpoint library "http://[fe80::1]:7412").isOk = false ∧
    pairingEndpoints library ["http://[fe80::1]:7412"] = .error .invalidPairingInvitation := by
  decide +kernel

end Fractonica.Pairing
