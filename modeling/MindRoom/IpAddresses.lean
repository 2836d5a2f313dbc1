import MindRoom.Json

/-! # IP addresses

The classification of Python's `ipaddress`: which networks an address is in, and which IPv4 address an IPv6 address
carries. An IPv4-mapped address is classified as the address it maps.
-/

namespace MindRoom.IpAddresses

/-! ## Addresses -/

structure IPv4Address where
  ip : Nat
  lt : ip < 2 ^ 32
deriving DecidableEq

structure IPv6Address where
  ip : Nat
  lt : ip < 2 ^ 128
deriving DecidableEq

inductive IPAddress
  | v4 (address : IPv4Address)
  | v6 (address : IPv6Address)
deriving DecidableEq

structure Network where
  ip : Nat
  prefixlen : Nat

/-- `address in network`, for addresses of this width. -/
def inNetwork (width ip : Nat) (network : Network) : Bool :=
  ip >>> (width - network.prefixlen) = network.ip >>> (width - network.prefixlen)

/-- `a.b.c.d/n`. -/
def v4Network (a b c d prefixlen : Nat) : Network := ⟨((a * 256 + b) * 256 + c) * 256 + d, prefixlen⟩

/-- The network whose address begins with these groups and goes on with zeros. -/
def v6Network (groups : List Nat) (prefixlen : Nat) : Network :=
  ⟨(groups.foldl (fun ip group => ip * 65536 + group) 0) <<< (16 * (8 - groups.length)), prefixlen⟩

/-- `IPv4Address(ip & 0xFFFFFFFF)`. -/
def lowAddress (ip : Nat) : IPv4Address := ⟨ip % 2 ^ 32, Nat.mod_lt _ (by decide)⟩

/-! ## IPv4 -/

namespace IPv4Address

/-- The networks that are not globally reachable. -/
def privateNetworks : List Network :=
  [v4Network 0 0 0 0 8, v4Network 10 0 0 0 8, v4Network 127 0 0 0 8, v4Network 169 254 0 0 16, v4Network 172 16 0 0 12,
    v4Network 192 0 0 0 24, v4Network 192 0 0 170 31, v4Network 192 0 2 0 24, v4Network 192 168 0 0 16,
    v4Network 198 18 0 0 15, v4Network 198 51 100 0 24, v4Network 203 0 113 0 24, v4Network 240 0 0 0 4,
    v4Network 255 255 255 255 32]

def privateNetworksExceptions : List Network := [v4Network 192 0 0 9 32, v4Network 192 0 0 10 32]

def isPrivate (a : IPv4Address) : Bool :=
  privateNetworks.any (inNetwork 32 a.ip) && !privateNetworksExceptions.any (inNetwork 32 a.ip)

def isGlobal (a : IPv4Address) : Bool := !inNetwork 32 a.ip (v4Network 100 64 0 0 10) && !a.isPrivate

def isLoopback (a : IPv4Address) : Bool := inNetwork 32 a.ip (v4Network 127 0 0 0 8)

def isLinkLocal (a : IPv4Address) : Bool := inNetwork 32 a.ip (v4Network 169 254 0 0 16)

def isMulticast (a : IPv4Address) : Bool := inNetwork 32 a.ip (v4Network 224 0 0 0 4)

def isReserved (a : IPv4Address) : Bool := inNetwork 32 a.ip (v4Network 240 0 0 0 4)

def isUnspecified (a : IPv4Address) : Bool := a.ip = 0

end IPv4Address

/-! ## IPv6 -/

namespace IPv6Address

/-- `::ffff:a.b.c.d`. -/
def ipv4Mapped (a : IPv6Address) : Option IPv4Address :=
  if a.ip >>> 32 = 0xffff then some (lowAddress a.ip) else none

/-- `2002::/16`. -/
def sixtofour (a : IPv6Address) : Option IPv4Address :=
  if a.ip >>> 112 = 0x2002 then some (lowAddress (a.ip >>> 80)) else none

/-- `2001::/32`: the server, and the client with its bits inverted. -/
def teredo (a : IPv6Address) : Option (IPv4Address × IPv4Address) :=
  if a.ip >>> 96 = 0x20010000 then
    some (lowAddress (a.ip >>> 64), ⟨2 ^ 32 - 1 - a.ip % 2 ^ 32, by omega⟩)
  else none

def privateNetworks : List Network :=
  [v6Network [0, 0, 0, 0, 0, 0, 0, 1] 128, v6Network [] 128, v6Network [0, 0, 0, 0, 0, 0xffff] 96,
    v6Network [0x64, 0xff9b, 1] 48, v6Network [0x100] 64, v6Network [0x2001] 23, v6Network [0x2001, 0xdb8] 32,
    v6Network [0x2002] 16, v6Network [0x3fff] 20, v6Network [0xfc00] 7, v6Network [0xfe80] 10]

def privateNetworksExceptions : List Network :=
  [v6Network [0x2001, 1, 0, 0, 0, 0, 0, 1] 128, v6Network [0x2001, 1, 0, 0, 0, 0, 0, 2] 128, v6Network [0x2001, 3] 32,
    v6Network [0x2001, 4, 0x112] 48, v6Network [0x2001, 0x20] 28, v6Network [0x2001, 0x30] 28]

def reservedNetworks : List Network :=
  [v6Network [] 8, v6Network [0x100] 8, v6Network [0x200] 7, v6Network [0x400] 6, v6Network [0x800] 5,
    v6Network [0x1000] 4, v6Network [0x4000] 3, v6Network [0x6000] 3, v6Network [0x8000] 3, v6Network [0xa000] 3,
    v6Network [0xc000] 3, v6Network [0xe000] 4, v6Network [0xf000] 5, v6Network [0xf800] 6, v6Network [0xfe00] 9]

/-- A mapped address is classified as the address it maps. -/
def classified (onMapped : IPv4Address → Bool) (onOther : Nat → Bool) (a : IPv6Address) : Bool :=
  match a.ipv4Mapped with
  | some mapped => onMapped mapped
  | none => onOther a.ip

def isPrivate : IPv6Address → Bool :=
  classified IPv4Address.isPrivate fun ip =>
    privateNetworks.any (inNetwork 128 ip) && !privateNetworksExceptions.any (inNetwork 128 ip)

def isGlobal (a : IPv6Address) : Bool := classified IPv4Address.isGlobal (fun _ => !a.isPrivate) a

def isLoopback : IPv6Address → Bool := classified IPv4Address.isLoopback fun ip => ip = 1

def isLinkLocal : IPv6Address → Bool := classified IPv4Address.isLinkLocal fun ip => inNetwork 128 ip (v6Network [0xfe80] 10)

def isMulticast : IPv6Address → Bool := classified IPv4Address.isMulticast fun ip => inNetwork 128 ip (v6Network [0xff00] 8)

def isReserved : IPv6Address → Bool := classified IPv4Address.isReserved fun ip => reservedNetworks.any (inNetwork 128 ip)

def isUnspecified : IPv6Address → Bool := classified IPv4Address.isUnspecified fun ip => ip = 0

end IPv6Address

namespace IPAddress

def isGlobal : IPAddress → Bool
  | .v4 a => a.isGlobal
  | .v6 a => a.isGlobal

def isLoopback : IPAddress → Bool
  | .v4 a => a.isLoopback
  | .v6 a => a.isLoopback

def isLinkLocal : IPAddress → Bool
  | .v4 a => a.isLinkLocal
  | .v6 a => a.isLinkLocal

def isMulticast : IPAddress → Bool
  | .v4 a => a.isMulticast
  | .v6 a => a.isMulticast

def isReserved : IPAddress → Bool
  | .v4 a => a.isReserved
  | .v6 a => a.isReserved

def isUnspecified : IPAddress → Bool
  | .v4 a => a.isUnspecified
  | .v6 a => a.isUnspecified

end IPAddress

/-! ## Carried addresses -/

/-- The well-known prefix of NAT64: `64:ff9b::/96`. -/
def nat64 (a : IPv6Address) : Option IPv4Address :=
  if a.ip >>> 32 = 0x64ff9b0000000000000000 then some (lowAddress a.ip) else none

/-- The IPv6 address leads to an IPv4 address, in one of the forms of a transition. -/
inductive Carries (a : IPv6Address) : IPv4Address → Prop
  | mapped (carried : IPv4Address) : a.ipv4Mapped = some carried → Carries a carried
  | sixtofour (carried : IPv4Address) : a.sixtofour = some carried → Carries a carried
  | teredoServer (server client : IPv4Address) : a.teredo = some (server, client) → Carries a server
  | teredoClient (server client : IPv4Address) : a.teredo = some (server, client) → Carries a client
  | nat64 (carried : IPv4Address) : nat64 a = some carried → Carries a carried

variable {a : IPv6Address} {carried : IPv4Address}

theorem shiftRight_of_shiftRight {ip high : Nat} (few more : Nat) (h : ip >>> few = high) :
    ip >>> (few + more) = high >>> more := by
  rw [Nat.shiftRight_add, h]

/-- An address with this prefix is in every network around it. -/
theorem inNetwork_of_shiftRight {width ip high few : Nat} {network : Network} (h : ip >>> few = high)
    (hfew : few ≤ width - network.prefixlen) : inNetwork width ip network =
      decide (high >>> (width - network.prefixlen - few) = network.ip >>> (width - network.prefixlen)) := by
  have hshift := shiftRight_of_shiftRight few (width - network.prefixlen - few) h
  rw [Nat.add_sub_cancel' hfew] at hshift
  rw [inNetwork, hshift]

/-- An address with another prefix is in no network within it. -/
theorem not_inNetwork_of_shiftRight {width ip high few : Nat} {network : Network} (h : ip >>> few = high)
    (hfew : width - network.prefixlen ≤ few)
    (hother : network.ip >>> few ≠ high) : inNetwork width ip network = false := by
  rw [inNetwork, decide_eq_false_iff_not]
  intro heq
  refine hother ?_
  have hip := shiftRight_of_shiftRight _ (few - (width - network.prefixlen)) heq
  rw [← Nat.shiftRight_add, Nat.add_sub_cancel' hfew, h] at hip
  exact hip.symm

theorem shiftRight_of_sixtofour (h : a.sixtofour = some carried) : a.ip >>> 112 = 0x2002 := by
  unfold IPv6Address.sixtofour at h
  split at h
  · assumption
  · cases h

theorem shiftRight_of_teredo {pair : IPv4Address × IPv4Address} (h : a.teredo = some pair) :
    a.ip >>> 96 = 0x20010000 := by
  unfold IPv6Address.teredo at h
  split at h
  · assumption
  · cases h

theorem shiftRight_of_nat64 (h : nat64 a = some carried) : a.ip >>> 32 = 0x64ff9b0000000000000000 := by
  unfold nat64 at h
  split at h
  · assumption
  · cases h

/-- Only one prefix belongs to a mapped address. -/
theorem ipv4Mapped_of_shiftRight (few : Nat) {high : Nat} (h : a.ip >>> (32 + few) = high) (hother : 0xffff >>> few ≠ high) :
    a.ipv4Mapped = none := by
  unfold IPv6Address.ipv4Mapped
  rw [if_neg]
  intro hmapped
  exact hother (by rw [← hmapped, ← Nat.shiftRight_add, h])

theorem classified_of_ipv4Mapped_none {onMapped : IPv4Address → Bool} {onOther : Nat → Bool} (h : a.ipv4Mapped = none) :
    IPv6Address.classified onMapped onOther a = onOther a.ip := by
  rw [IPv6Address.classified, h]

theorem not_isGlobal_of_private (hmapped : a.ipv4Mapped = none)
    (hprivate : IPv6Address.privateNetworks.any (inNetwork 128 a.ip) = true)
    (hexception : IPv6Address.privateNetworksExceptions.any (inNetwork 128 a.ip) = false) : a.isGlobal = false := by
  rw [IPv6Address.isGlobal, classified_of_ipv4Mapped_none hmapped, IPv6Address.isPrivate,
    classified_of_ipv4Mapped_none hmapped, hprivate, hexception]
  rfl

/-- A 6to4 address is in `2002::/16`. -/
theorem not_isGlobal_of_sixtofour (h : a.sixtofour = some carried) : a.isGlobal = false := by
  have hip := shiftRight_of_sixtofour h
  have hmapped : a.ipv4Mapped = none := ipv4Mapped_of_shiftRight 80 hip (by decide)
  refine not_isGlobal_of_private hmapped ?_ ?_
  · rw [List.any_eq_true]
    refine ⟨v6Network [0x2002] 16, by simp [IPv6Address.privateNetworks], ?_⟩
    rw [inNetwork_of_shiftRight hip (by decide)]
    decide
  · rw [List.any_eq_false]
    intro network hnetwork
    rw [Bool.not_eq_true]
    simp only [IPv6Address.privateNetworksExceptions, List.mem_cons, List.not_mem_nil, or_false] at hnetwork
    rcases hnetwork with rfl | rfl | rfl | rfl | rfl | rfl <;>
      exact not_inNetwork_of_shiftRight hip (by decide) (by decide)

/-- A Teredo address is in `2001::/23`, and in none of its exceptions. -/
theorem not_isGlobal_of_teredo {pair : IPv4Address × IPv4Address} (h : a.teredo = some pair) : a.isGlobal = false := by
  have hip := shiftRight_of_teredo h
  have hmapped : a.ipv4Mapped = none := ipv4Mapped_of_shiftRight 64 hip (by decide)
  refine not_isGlobal_of_private hmapped ?_ ?_
  · rw [List.any_eq_true]
    refine ⟨v6Network [0x2001] 23, by simp [IPv6Address.privateNetworks], ?_⟩
    rw [inNetwork_of_shiftRight hip (by decide)]
    decide
  · rw [List.any_eq_false]
    intro network hnetwork
    rw [Bool.not_eq_true]
    simp only [IPv6Address.privateNetworksExceptions, List.mem_cons, List.not_mem_nil, or_false] at hnetwork
    rcases hnetwork with rfl | rfl | rfl | rfl | rfl | rfl
    · exact not_inNetwork_of_shiftRight hip (by decide) (by decide)
    · exact not_inNetwork_of_shiftRight hip (by decide) (by decide)
    · exact not_inNetwork_of_shiftRight hip (by decide) (by decide)
    · exact not_inNetwork_of_shiftRight hip (by decide) (by decide)
    · rw [inNetwork_of_shiftRight hip (by decide)]
      decide
    · rw [inNetwork_of_shiftRight hip (by decide)]
      decide

/-- A NAT64 address is in `::/8`, which is reserved. -/
theorem isReserved_of_nat64 (h : nat64 a = some carried) : a.isReserved = true ∧ a.isLoopback = false := by
  have hip := shiftRight_of_nat64 h
  have hmapped : a.ipv4Mapped = none := by
    unfold IPv6Address.ipv4Mapped
    rw [if_neg]
    intro hmapped
    rw [hmapped] at hip
    exact absurd hip (by decide)
  constructor
  · rw [IPv6Address.isReserved, classified_of_ipv4Mapped_none hmapped, List.any_eq_true]
    refine ⟨v6Network [] 8, by simp [IPv6Address.reservedNetworks], ?_⟩
    rw [inNetwork_of_shiftRight hip (by decide)]
    decide
  · rw [IPv6Address.isLoopback, classified_of_ipv4Mapped_none hmapped, decide_eq_false_iff_not]
    intro hone
    rw [hone] at hip
    exact absurd hip (by decide)

end MindRoom.IpAddresses
