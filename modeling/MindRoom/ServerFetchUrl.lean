import MindRoom.IpAddresses

/-! # Server-side fetches

Where a server may connect to. Every address that a name resolves to is checked, and with an IPv6 address the IPv4
addresses that are embedded in it; only checked addresses are dialed.
-/

namespace MindRoom.ServerFetchUrl

open IpAddresses

inductive Reason
  | missingHost
  | invalidHost
  | metadataAddress
  | blockedAddress
  | privateAddress
  | metadataHostname
  | privateHostname
  | dnsResolutionFailed
deriving DecidableEq

/-! ## Addresses -/

def metadataIpAddresses : List IPAddress :=
  [.v4 ⟨0xa9fea9fe, by decide⟩, .v4 ⟨0xa9feaa02, by decide⟩, .v4 ⟨0x646464c8, by decide⟩,
    .v6 ⟨0xfd000ec2000000000000000000000254, by decide⟩]

def embeddedIpv4Addresses : IPAddress → List IPv4Address
  | .v4 _ => []
  | .v6 a => a.ipv4Mapped.toList ++ a.sixtofour.toList ++ (a.teredo.toList.flatMap fun pair => [pair.1, pair.2])

def checkAddress (allowPrivateNetworks : Bool) (address : IPAddress) : Except Reason Unit :=
  if address ∈ metadataIpAddresses then .error .metadataAddress
  else if address.isLoopback && allowPrivateNetworks then .ok ()
  else if address.isLinkLocal || address.isMulticast || address.isReserved || address.isUnspecified then
    .error .blockedAddress
  else .ok ()

/-- Reject addresses that are unsafe for the selected fetch policy. -/
def validateIpAddress (allowPrivateNetworks : Bool) (address : IPAddress) : Except Reason Unit := do
  (address :: (embeddedIpv4Addresses address).map .v4).forM (checkAddress allowPrivateNetworks)
  if allowPrivateNetworks then return
  if !address.isGlobal then throw .privateAddress

/-! ## Hosts -/

/-- What the standard library and the resolver do with texts. -/
structure Network where
  lower : String → String
  idna : String → Option String
  /-- `ipaddress.ip_address`. -/
  ipAddress : String → Option IPAddress
  /-- `socket.getaddrinfo`: the hosts of the socket addresses, where there are any. -/
  getaddrinfo : String → Nat → Option (List (Option String))

def localHostnames : List String := ["localhost", "localhost.localdomain"]

def metadataHostnames : List String :=
  ["metadata", "metadata.google.internal", "metadata.goog", "instance-data", "instance-data.ec2.internal"]

def metadataHostnameSuffixes : List String := [".metadata.google.internal", ".metadata.goog"]

def isLocalHostname (host : String) : Bool :=
  localHostnames.contains host || endswith host ".localhost" || endswith host ".local"

def isMetadataHostname (host : String) : Bool :=
  metadataHostnames.contains host || metadataHostnameSuffixes.any fun suffix => endswith host suffix

def normalizeHostname (network : Network) (hostname : String) : Except Reason String :=
  let host := network.lower (String.ofList (hostname.toList.reverse.dropWhile (· = '.')).reverse)
  if host = "" then .error .missingHost
  else if '%' ∈ host.toList then .error .invalidHost
  else .ok host

/-- Resolve a hostname to IP addresses. A scope behind `%` is left out. -/
def resolveHostAddresses (network : Network) (host : String) (port : Nat) : Except Reason (List IPAddress) :=
  match network.getaddrinfo host port with
  | none => .error .dnsResolutionFailed
  | some results =>
    let addresses := results.filterMap fun sockaddr =>
      sockaddr.bind fun raw => network.ipAddress (String.ofList (raw.toList.takeWhile (· ≠ '%')))
    if addresses = [] then .error .dnsResolutionFailed else .ok addresses

/-- The port of a lookup: the default of the scheme where there is none. -/
def servicePort (port : Option Nat) (scheme : String) : Nat :=
  match port with
  | some port => if port = 0 then (if scheme = "https" then 443 else 80) else port
  | none => if scheme = "https" then 443 else 80

def validatedHostAddresses (network : Network) (hostname : String) (port : Option Nat) (scheme : String)
    (allowPrivateNetworks resolveHostnames : Bool) : Except Reason (List IPAddress) := do
  let host ← normalizeHostname network hostname
  match network.ipAddress host with
  | some directAddress =>
    validateIpAddress allowPrivateNetworks directAddress
    return [directAddress]
  | none =>
    let asciiHost ← (network.idna host).elim (throw .invalidHost) pure
    if isMetadataHostname asciiHost then throw .metadataHostname
    if isLocalHostname asciiHost && !allowPrivateNetworks then throw .privateHostname
    if !resolveHostnames then return []
    let addresses ← resolveHostAddresses network asciiHost (servicePort port scheme)
    addresses.forM (validateIpAddress allowPrivateNetworks)
    return addresses

/-! ## Connections -/

/-- What becomes of one attempt to connect. -/
inductive Attempt
  | connected
  /-- A connection error or a timeout, after which the next address is tried. -/
  | failed
  /-- Another exception, which ends the attempts. -/
  | raised
deriving DecidableEq

/-- The addresses that are dialed, in their order. -/
def connectValidated (connect : IPAddress → Attempt) : List IPAddress → List IPAddress
  | [] => []
  | address :: addresses =>
    address :: if connect address = .failed then connectValidated connect addresses else []

def connectTcp (network : Network) (connect : IPAddress → Attempt) (allowPrivateNetworks : Bool) (host : String)
    (port : Nat) : Except Reason (List IPAddress) :=
  (validatedHostAddresses network host (some port) "http" allowPrivateNetworks true).map (connectValidated connect)

/-! ## Embedded addresses -/

variable {allowPrivateNetworks : Bool} {address : IPAddress} {a : IPv6Address} {carried : IPv4Address}

theorem forM_eq_ok {α ε : Type} {f : α → Except ε Unit} {items : List α} :
    items.forM f = .ok () ↔ ∀ item ∈ items, f item = .ok () := by
  induction items with
  | nil => simp [pure, Except.pure]
  | cons item items ih =>
    change (f item >>= fun _ => items.forM f) = _ ↔ _
    rw [List.forall_mem_cons, ← ih]
    cases f item with
    | error err => simp [bind, Except.bind]
    | ok value => simp [bind, Except.bind]

theorem validateIpAddress_eq_ok : validateIpAddress allowPrivateNetworks address = .ok () ↔
    checkAddress allowPrivateNetworks address = .ok () ∧
      (∀ embedded ∈ embeddedIpv4Addresses address, checkAddress allowPrivateNetworks (.v4 embedded) = .ok ()) ∧
      (allowPrivateNetworks = true ∨ address.isGlobal = true) := by
  have hloop := @forM_eq_ok _ _ (checkAddress allowPrivateNetworks)
    (address :: (embeddedIpv4Addresses address).map .v4)
  rw [List.forall_mem_cons, List.forall_mem_map] at hloop
  rw [← and_assoc, ← hloop, validateIpAddress]
  cases (address :: (embeddedIpv4Addresses address).map .v4).forM (checkAddress allowPrivateNetworks) with
  | error err => simp [bind, Except.bind]
  | ok value =>
    cases allowPrivateNetworks <;> cases address.isGlobal <;>
      simp [bind, Except.bind, pure, Except.pure, throw, throwThe, MonadExceptOf.throw]

theorem checkAddress_eq_ok : checkAddress allowPrivateNetworks address = .ok () ↔
    address ∉ metadataIpAddresses ∧ ((address.isLoopback = true ∧ allowPrivateNetworks = true) ∨
      (address.isLinkLocal = false ∧ address.isMulticast = false ∧ address.isReserved = false ∧
        address.isUnspecified = false)) := by
  unfold checkAddress
  by_cases hmetadata : address ∈ metadataIpAddresses
  · simp [hmetadata]
  · by_cases hloopback : address.isLoopback = true ∧ allowPrivateNetworks = true
    · simp [hmetadata, hloopback]
    · have hcontinue : (address.isLoopback && allowPrivateNetworks) = false := by
        rwa [← Bool.not_eq_true, Bool.and_eq_true]
      rw [if_neg hmetadata, hcontinue]
      cases address.isLinkLocal <;> cases address.isMulticast <;> cases address.isReserved <;>
        cases address.isUnspecified <;> simp [hmetadata, hloopback]

/-- A member of the loop is checked like a direct address. -/
theorem validateIpAddress_v4 : validateIpAddress allowPrivateNetworks (.v4 carried) = .ok () ↔
    checkAddress allowPrivateNetworks (.v4 carried) = .ok () ∧ (allowPrivateNetworks = true ∨ carried.isGlobal = true) := by
  rw [validateIpAddress_eq_ok]
  simp [embeddedIpv4Addresses, IPAddress.isGlobal]

theorem mem_embeddedIpv4Addresses : carried ∈ embeddedIpv4Addresses (.v6 a) ↔
    a.ipv4Mapped = some carried ∨ a.sixtofour = some carried ∨
      ∃ pair, a.teredo = some pair ∧ (carried = pair.1 ∨ carried = pair.2) := by
  simp [embeddedIpv4Addresses]

/-- An IPv6 address is accepted only if the policy also accepts every IPv4 address it carries. -/
theorem validateIpAddress_carries (haccepted : validateIpAddress allowPrivateNetworks (.v6 a) = .ok ())
    (hcarries : Carries a carried) : validateIpAddress allowPrivateNetworks (.v4 carried) = .ok () := by
  rcases validateIpAddress_eq_ok.mp haccepted with ⟨houter, hembedded, hglobal⟩
  rw [validateIpAddress_v4]
  cases hcarries with
  | mapped _ hmapped =>
    refine ⟨hembedded carried (mem_embeddedIpv4Addresses.mpr (.inl hmapped)), ?_⟩
    rwa [IPAddress.isGlobal, IPv6Address.isGlobal, IPv6Address.classified, hmapped] at hglobal
  | sixtofour _ hsixtofour =>
    refine ⟨hembedded carried (mem_embeddedIpv4Addresses.mpr (.inr (.inl hsixtofour))), ?_⟩
    rw [IPAddress.isGlobal, not_isGlobal_of_sixtofour hsixtofour] at hglobal
    exact .inl (hglobal.resolve_right Bool.false_ne_true)
  | teredoServer _ client hteredo =>
    refine ⟨hembedded carried (mem_embeddedIpv4Addresses.mpr (.inr (.inr ⟨_, hteredo, .inl rfl⟩))), ?_⟩
    rw [IPAddress.isGlobal, not_isGlobal_of_teredo hteredo] at hglobal
    exact .inl (hglobal.resolve_right Bool.false_ne_true)
  | teredoClient server _ hteredo =>
    refine ⟨hembedded carried (mem_embeddedIpv4Addresses.mpr (.inr (.inr ⟨_, hteredo, .inr rfl⟩))), ?_⟩
    rw [IPAddress.isGlobal, not_isGlobal_of_teredo hteredo] at hglobal
    exact .inl (hglobal.resolve_right Bool.false_ne_true)
  | nat64 _ hnat64 =>
    -- the reserved prefix is refused whatever it carries
    rcases isReserved_of_nat64 hnat64 with ⟨hreserved, hloopback⟩
    rcases (checkAddress_eq_ok.mp houter).2 with ⟨hloop, -⟩ | ⟨-, -, hnot, -⟩
    · rw [IPAddress.isLoopback, hloopback] at hloop
      cases hloop
    · rw [IPAddress.isReserved, hreserved] at hnot
      cases hnot

/-! ## Dialed addresses -/

/-- The address is this IPv4 address, or carries it. -/
inductive LeadsTo : IPAddress → IPv4Address → Prop
  | direct (carried : IPv4Address) : LeadsTo (.v4 carried) carried
  | carried (a : IPv6Address) (carried : IPv4Address) : Carries a carried → LeadsTo (.v6 a) carried

theorem mem_connectValidated {connect : IPAddress → Attempt} {addresses : List IPAddress}
    (h : address ∈ connectValidated connect addresses) : address ∈ addresses := by
  induction addresses with
  | nil => exact h
  | cons first addresses ih =>
    rw [connectValidated, List.mem_cons] at h
    rcases h with rfl | h
    · exact List.mem_cons_self
    · split at h
      · exact List.mem_cons_of_mem _ (ih h)
      · cases h

/-- A connection gets checked addresses only. -/
theorem validatedHostAddresses_accepted {network : Network} {hostname scheme : String} {port : Option Nat}
    {resolveHostnames : Bool} {addresses : List IPAddress}
    (h : validatedHostAddresses network hostname port scheme allowPrivateNetworks resolveHostnames = .ok addresses) :
    ∀ address ∈ addresses, validateIpAddress allowPrivateNetworks address = .ok () := by
  unfold validatedHostAddresses at h
  cases hhost : normalizeHostname network hostname with
  | error err =>
    rw [hhost] at h
    cases h
  | ok host =>
    rw [hhost] at h
    simp only [bind, Except.bind] at h
    cases hdirect : network.ipAddress host with
    | some directAddress =>
      simp only [hdirect] at h
      cases hvalid : validateIpAddress allowPrivateNetworks directAddress with
      | error err =>
        rw [hvalid] at h
        cases h
      | ok value =>
        rw [hvalid] at h
        cases h
        intro address hmem
        rw [List.mem_singleton] at hmem
        rw [hmem, hvalid]
    | none =>
      simp only [hdirect] at h
      cases hascii : network.idna host with
      | none =>
        rw [hascii] at h
        cases h
      | some asciiHost =>
        simp only [hascii, Option.elim_some, pure, Except.pure] at h
        split at h
        · cases h
        · split at h
          · cases h
          · split at h
            · cases h
              intro address hmem
              cases hmem
            · cases hresolve : resolveHostAddresses network asciiHost (servicePort port scheme) with
              | error err =>
                rw [hresolve] at h
                cases h
              | ok resolved =>
                simp only [hresolve] at h
                cases hloop : resolved.forM (validateIpAddress allowPrivateNetworks) with
                | error err =>
                  rw [hloop] at h
                  cases h
                | ok value =>
                  rw [hloop] at h
                  cases h
                  exact forM_eq_ok.mp hloop

/-- Embedded addresses are checked like direct ones, and nothing else is dialed. -/
theorem embedded_addresses_checked (allowPrivateNetworks : Bool) :
    (∀ a carried, Carries a carried → validateIpAddress allowPrivateNetworks (.v6 a) = .ok () →
      validateIpAddress allowPrivateNetworks (.v4 carried) = .ok ()) ∧
    ∀ network connect host port dialed, connectTcp network connect allowPrivateNetworks host port = .ok dialed →
      ∀ address ∈ dialed, ∀ carried, LeadsTo address carried →
        validateIpAddress allowPrivateNetworks (.v4 carried) = .ok () := by
  constructor
  · intro a carried hcarries haccepted
    exact validateIpAddress_carries haccepted hcarries
  · intro network connect host port dialed hdialed address haddress carried hleads
    unfold connectTcp at hdialed
    cases hvalidated : validatedHostAddresses network host (some port) "http" allowPrivateNetworks true with
    | error err =>
      rw [hvalidated] at hdialed
      cases hdialed
    | ok addresses =>
      rw [hvalidated] at hdialed
      cases hdialed
      have haccepted := validatedHostAddresses_accepted hvalidated address (mem_connectValidated haddress)
      cases hleads with
      | direct => exact haccepted
      | carried a _ hcarries => exact validateIpAddress_carries haccepted hcarries

/-- `::ffff:8.8.8.8` is accepted, and `8.8.8.8` with it. -/
theorem embedded_addresses_checked_mapped : validateIpAddress false (.v6 ⟨0xffff08080808, by decide⟩) = .ok () ∧
      validateIpAddress false (.v4 ⟨0x08080808, by decide⟩) = .ok () :=
  ⟨by decide, (embedded_addresses_checked false).1 ⟨0xffff08080808, by decide⟩ ⟨0x08080808, by decide⟩
    (.mapped _ (by decide)) (by decide)⟩

end MindRoom.ServerFetchUrl
