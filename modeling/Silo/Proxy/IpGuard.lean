namespace Silo.Proxy

structure Ipv4Addr where
  o0 : UInt8
  o1 : UInt8
  o2 : UInt8
  o3 : UInt8
  deriving DecidableEq, Repr

structure Ipv6Addr where
  s0 : UInt16
  s1 : UInt16
  s2 : UInt16
  s3 : UInt16
  s4 : UInt16
  s5 : UInt16
  s6 : UInt16
  s7 : UInt16
  deriving DecidableEq, Repr

inductive IpAddr
  | v4 (addr : Ipv4Addr)
  | v6 (addr : Ipv6Addr)
  deriving DecidableEq, Repr

inductive BlockReason
  | loopback
  | «private»
  | linkLocal
  | sharedCgnat
  | multicast
  | broadcast
  | unspecified
  | uniqueLocal
  deriving DecidableEq, Repr

def BlockReason.asStr : BlockReason → String
  | loopback => "loopback address"
  | «private» => "private address"
  | linkLocal => "link-local address"
  | sharedCgnat => "carrier-grade NAT address"
  | multicast => "multicast address"
  | broadcast => "broadcast address"
  | unspecified => "unspecified address"
  | uniqueLocal => "unique-local address"

def lastV4 (addr : Ipv6Addr) : Ipv4Addr :=
  ⟨(addr.s6 >>> 8).toUInt8, (addr.s6 &&& 0xff).toUInt8, (addr.s7 >>> 8).toUInt8, (addr.s7 &&& 0xff).toUInt8⟩

def embeddedIpv4 (addr : Ipv6Addr) : Option Ipv4Addr :=
  if [addr.s0, addr.s1, addr.s2, addr.s3, addr.s4] = [0, 0, 0, 0, 0] ∧ addr.s5 = 0xffff then some (lastV4 addr)
  else if addr.s0 = 0x0064 ∧ addr.s1 = 0xff9b ∧ [addr.s2, addr.s3, addr.s4, addr.s5] = [0, 0, 0, 0] then
    some (lastV4 addr)
  else if [addr.s0, addr.s1, addr.s2, addr.s3, addr.s4, addr.s5] = [0, 0, 0, 0, 0, 0] ∧
      ¬ (addr.s6 = 0 ∧ addr.s7 ≤ 1) then
    some (lastV4 addr)
  else none

/-- Loopback is permitted only when `allowLoopback` is set. -/
structure IpGuard where
  allowLoopback : Bool
  deriving DecidableEq, Repr

namespace IpGuard

variable (guard : IpGuard)

def checkV4 (addr : Ipv4Addr) : Option BlockReason :=
  if addr.o0 = 127 then if guard.allowLoopback then none else some .loopback
  else if addr = ⟨0, 0, 0, 0⟩ then some .unspecified
  else if addr = ⟨255, 255, 255, 255⟩ then some .broadcast
  else if addr.o0 = 10 ∨ (addr.o0 = 172 ∧ 16 ≤ addr.o1 ∧ addr.o1 ≤ 31) ∨ (addr.o0 = 192 ∧ addr.o1 = 168) then
    some .private
  else if addr.o0 = 169 ∧ addr.o1 = 254 then some .linkLocal
  else if addr.o0 = 100 ∧ 64 ≤ addr.o1 ∧ addr.o1 ≤ 127 then some .sharedCgnat
  else if 224 ≤ addr.o0 ∧ addr.o0 ≤ 239 then some .multicast
  else none

def checkV6 (addr : Ipv6Addr) : Option BlockReason :=
  match embeddedIpv4 addr with
  | some v4 => guard.checkV4 v4
  | none =>
    if addr = ⟨0, 0, 0, 0, 0, 0, 0, 1⟩ then if guard.allowLoopback then none else some .loopback
    else if addr = ⟨0, 0, 0, 0, 0, 0, 0, 0⟩ then some .unspecified
    else if addr.s0 &&& 0xffc0 = 0xfe80 then some .linkLocal
    else if addr.s0 &&& 0xfe00 = 0xfc00 then some .uniqueLocal
    else if addr.s0 &&& 0xff00 = 0xff00 then some .multicast
    else none

/-- The reason an address is blocked, or `none` if it is permitted. -/
def check : IpAddr → Option BlockReason
  | .v4 addr => guard.checkV4 addr
  | .v6 addr => guard.checkV6 addr

def isBlocked (addr : IpAddr) : Bool := (guard.check addr).isSome

end IpGuard

abbrev Read (α : Type) := List Char → Option (α × List Char)

def digitOf (radix : Nat) (c : Char) : Option Nat :=
  let value :=
    if '0' ≤ c ∧ c ≤ '9' then c.toNat - 48
    else if 'a' ≤ c ∧ c ≤ 'z' then c.toNat - 87
    else if 'A' ≤ c ∧ c ≤ 'Z' then c.toNat - 55
    else radix
  if value < radix then some value else none

def readDigits (radix : Nat) : List Char → List Nat × List Char
  | [] => ([], [])
  | c :: rest =>
    match digitOf radix c with
    | none => ([], c :: rest)
    | some d => (d :: (readDigits radix rest).1, (readDigits radix rest).2)

def readNumber (radix maxDigits limit : Nat) (allowZeroPrefix : Bool) : Read Nat := fun text =>
  let (digits, rest) := readDigits radix text
  let value := digits.foldl (fun acc d => acc * radix + d) 0
  if digits.length = 0 ∨ maxDigits < digits.length ∨ limit ≤ value then none
  else if allowZeroPrefix = false ∧ digits.head? = some 0 ∧ 1 < digits.length then none
  else some (value, rest)

def readChar (c : Char) : Read Unit
  | d :: rest => if d = c then some ((), rest) else none
  | [] => none

def readSeparated {α : Type} (c : Char) (index : Nat) (inner : Read α) : Read α := fun text =>
  if index = 0 then inner text else (readChar c text).bind fun r => inner r.2

def readIpv4 : Read Ipv4Addr := fun text => do
  let (a, text) ← readSeparated '.' 0 (readNumber 10 3 256 false) text
  let (b, text) ← readSeparated '.' 1 (readNumber 10 3 256 false) text
  let (c, text) ← readSeparated '.' 2 (readNumber 10 3 256 false) text
  let (d, text) ← readSeparated '.' 3 (readNumber 10 3 256 false) text
  return (⟨a.toUInt8, b.toUInt8, c.toUInt8, d.toUInt8⟩, text)

/-- Up to `limit` more groups after `index` ones: those read, whether an IPv4
address ended them, and the rest of the text. -/
def readGroups (limit index : Nat) (text : List Char) : List UInt16 × Bool × List Char :=
  match limit with
  | 0 => ([], false, text)
  | left + 1 =>
    match if left = 0 then none else readSeparated ':' index readIpv4 text with
    | some (v4, rest) =>
      ([v4.o0.toUInt16 <<< 8 ||| v4.o1.toUInt16, v4.o2.toUInt16 <<< 8 ||| v4.o3.toUInt16], true, rest)
    | none =>
      match readSeparated ':' index (readNumber 16 4 65536 true) text with
      | none => ([], false, text)
      | some (group, rest) =>
        let (more, v4, rest) := readGroups left (index + 1) rest
        (group.toUInt16 :: more, v4, rest)

def ipv6OfGroups (groups : List UInt16) : Ipv6Addr :=
  let group (i : Nat) := groups.getD i 0
  ⟨group 0, group 1, group 2, group 3, group 4, group 5, group 6, group 7⟩

def readIpv6 : Read Ipv6Addr := fun text =>
  let (head, v4, rest) := readGroups 8 0 text
  if head.length = 8 then some (ipv6OfGroups head, rest)
  else if v4 then none
  else do
    let ((), rest) ← readChar ':' rest
    let ((), rest) ← readChar ':' rest
    let (tail, _, rest) := readGroups (7 - head.length) 0 rest
    return (ipv6OfGroups (head ++ List.replicate (8 - head.length - tail.length) 0 ++ tail), rest)

/-- `str::parse::<IpAddr>`. -/
def parseIp (host : String) : Option IpAddr :=
  match readIpv4 host.toList with
  | some (addr, []) => some (.v4 addr)
  | _ =>
    match readIpv6 host.toList with
    | some (addr, []) => some (.v6 addr)
    | _ => none

end Silo.Proxy
