import Omnion.Core.Text

/-!
# Addresses and networks

`std::net::IpAddr` with its text, and the crate `ipnet`, whose networks are an address and the
length of its prefix: what it does is an argument, of which `IpNet` is an instance.
-/

namespace Omnion

inductive IpAddr where
  /-- `Ipv4Addr`. -/
  | v4 (bits : BitVec 32)
  /-- `Ipv6Addr`. -/
  | v6 (bits : BitVec 128)
  deriving DecidableEq

namespace IpAddr

/-- The bytes of a v4 address, in decimal. -/
def dotted (bits : BitVec 32) : String :=
  ".".intercalate ([24, 16, 8, 0].map fun shift => toString ((bits >>> shift).toNat % 256))

/-- The eight segments of a v6 address. -/
def segments (bits : BitVec 128) : List ℕ :=
  [112, 96, 80, 64, 48, 32, 16, 0].map fun shift => (bits >>> shift).toNat % 65536

/-- Segments in hexadecimal. -/
def colons (segments : List ℕ) : String := ":".intercalate (segments.map Text.hex)

/-- Where the longest run of zero segments begins and how long it is; the first one of
several. `place` is the position, `current` the run that ends before it. -/
def longestZeros : ℕ → ℕ × ℕ → ℕ × ℕ → List ℕ → ℕ × ℕ
  | _, _, longest, [] => longest
  | place, current, longest, segment :: rest =>
    if segment = 0 then
      let current := if current.2 = 0 then (place, 1) else (current.1, current.2 + 1)
      longestZeros (place + 1) current (if longest.2 < current.2 then current else longest) rest
    else longestZeros (place + 1) (0, 0) longest rest

/-- `Display`. -/
def text : IpAddr → String
  | .v4 bits => dotted bits
  | .v6 bits =>
    if bits >>> 32 = 0xffff then "::ffff:" ++ dotted (bits.setWidth 32)
    else
      let all := segments bits
      let (start, length) := longestZeros 0 (0, 0) (0, 0) all
      if 1 < length then colons (all.take start) ++ "::" ++ colons (all.drop (start + length)) else colons all

end IpAddr

/-- The crate `ipnet`, over its type of networks. -/
structure Ipnet (Net : Type) where
  /-- `str::parse`. -/
  parse : String → Option Net
  /-- `IpNet::new`. -/
  new : IpAddr → ℕ → Option Net
  /-- `IpNet::trunc`. -/
  trunc : Net → Net
  /-- `Display`. -/
  text : Net → String
  /-- `IpNet::contains`. -/
  contains : Net → IpAddr → Bool

/-- A network: an address, and the length of the prefix. -/
inductive IpNet where
  /-- `Ipv4Net`. -/
  | v4 (address : BitVec 32) (prefixLen : ℕ)
  /-- `Ipv6Net`. -/
  | v6 (address : BitVec 128) (prefixLen : ℕ)
  deriving DecidableEq

/-- Between the first and the last address with the prefix. -/
def withinPrefix {width : ℕ} (address : BitVec width) (prefixLen : ℕ) (other : BitVec width) : Bool :=
  let mask := BitVec.allOnes width <<< (width - prefixLen)
  (address &&& mask) ≤ other && other ≤ (address ||| ~~~mask)

/-- The network contains the address. -/
def IpNet.contains : IpNet → IpAddr → Bool
  | .v4 address prefixLen, .v4 other => withinPrefix address prefixLen other
  | .v6 address prefixLen, .v6 other => withinPrefix address prefixLen other
  | _, _ => false

example : (IpAddr.v6 0x20010db8000000000000000000000001#128).text = "2001:db8::1" := by decide

end Omnion
