import MindRoom.GatewayAccounts

/-! # The gateway's authorization provider

`mcp_gateway/oauth.py` and `mcp_gateway/lifecycle.py`: consent, codes, token pairs and their
rotation. A transaction reads the clock up to three times: for its pruning, for its checks and for
what it issues. Secrets come from the host and are arguments, and so is whether a budget is
exceeded when an operation asks for capacity.
-/

namespace MindRoom

open GatewayStore GatewayAccounts

/-- The configuration of the provider, and the digest of its secrets. -/
structure GatewayConfig where
  resourceUrl : String
  accountsRequired : Bool
  idleTtl : Int
  grantTtl : Int
  digest : String → String

structure ClockReadings where
  pruned : Int
  checked : Int
  issued : Int
deriving DecidableEq

structure PresentedCapability where
  raw : String
  claims : CapabilityPayload
deriving DecidableEq

/-- The callback of a consent: the redirect URI with a code, or with an error. -/
structure ConsentCallback where
  redirectUri : String
  code : Option String
  error : Option String
  state : Option String
deriving DecidableEq

/-- What the browser is shown. -/
structure GatewayConsent where
  clientName : String
  redirectUri : String
  csrfToken : String
deriving DecidableEq

structure OAuthToken where
  accessToken : String
  refreshToken : String
  expiresIn : Int
  scope : String
deriving DecidableEq

namespace GatewayOAuth

def scopes : List String := ["mcp:tools"]

def consentTtl : Int := 600 * second

def codeTtl : Int := 300 * second

def accessTtl : Int := 900 * second

def registrationTtl : Int := 86400 * second

/-- `int(time)`. -/
def wholeSeconds (time : Int) : Int := time.tdiv second * second

/-- Advance validated activity monotonically, bounded by the original absolute deadline. -/
def touchGrant (grantId : String) (now idleTtl : Int) (used : Bool) (db : GatewayDB) : GatewayDB :=
  { db with
    grants := db.grants.update (fun g => g.grantId = grantId) (fun g => { g with
      lastActivityAt := some (max (g.lastActivityAt.getD now) now)
      idleExpiresAt := min g.expiresAt (max g.idleExpiresAt (now + idleTtl))
      lastUsedAt := if used then some (max (g.lastUsedAt.getD now) now) else g.lastUsedAt }) }

variable (cfg : GatewayConfig)

def accountAllowed (db : GatewayDB) (accountId : Option String) : Bool :=
  match accountId with
  | none => !cfg.accountsRequired
  | some accountId => cfg.accountsRequired && accountIsActive db accountId

/-- `owned_grants` without a page: the grants of an owner in one resource. -/
def OwnedGrant (requesterId authenticatedUserId : String) (accountId : Option String) (g : OAuthGrantRow) :
    Prop :=
  g.requesterId = requesterId ∧ g.payload.authenticatedUserId = authenticatedUserId ∧
    g.accountId = accountId ∧ g.payload.resource = cfg.resourceUrl

instance (requesterId authenticatedUserId : String) (accountId : Option String) :
    DecidablePred (OwnedGrant cfg requesterId authenticatedUserId accountId) := fun _ => by
  unfold OwnedGrant
  infer_instance

def getClient (t₀ : Int) (clientId : String) (db : GatewayDB) :
    Except GatewayError (Option ClientRow) × GatewayDB :=
  transact t₀ (fun db => .ok (db.clients.get? clientId, db)) db

/-- `register_client`, for metadata that passed its checks. -/
def registerClient (t : ClockReadings) (full : Bool) (clientId : String) (clientName : Option String)
    (redirectUris : List String) (db : GatewayDB) : Except GatewayError Unit × GatewayDB :=
  transact t.pruned (fun db =>
    match db.clients.get? clientId with
    | some existing =>
      if existing.clientName ≠ clientName ∨ existing.redirectUris ≠ redirectUris then
        .error (.registration "invalid_client_metadata" "Client is already registered")
      else .ok ((), db)
    | none => do
        let clients := db.clients.insertOrIgnore
          ⟨clientId, clientName, redirectUris, t.issued + registrationTtl⟩
        requireCapacity full
        .ok ((), { db with clients := clients })) db

/-- The checks of an authorization request against its registration. -/
def checkAuthorization (registered : Option ClientRow) (params : AuthorizationParams) :
    Except GatewayError ClientRow :=
  match registered with
  | none => .error (.authorize "unauthorized_client" "Unknown client")
  | some registered =>
    if params.resource ≠ cfg.resourceUrl then
      .error (.authorize "invalid_request" "Exact MCP resource is required")
    else if params.scopes ≠ scopes then
      .error (.authorize "invalid_scope" "Only mcp:tools is supported")
    else if params.redirectUri ∉ registered.redirectUris then
      .error (.authorize "invalid_request" "Unregistered callback")
    else if params.codeChallenge.length ≠ 43 ∨ (params.state.getD "").length > 2048 then
      .error (.authorize "invalid_request" "Invalid authorization parameters")
    else .ok registered

/-- The second transaction of `authorize`: save the opaque, short-lived consent request of a
registration that was loaded before. -/
def authorize (t : ClockReadings) (full : Bool) (registered : Option ClientRow)
    (params : AuthorizationParams) (state : String) (db : GatewayDB) :
    Except GatewayError Unit × GatewayDB :=
  match checkAuthorization cfg registered params with
  | .error e => (.error e, db)
  | .ok registered => transact t.pruned (fun db =>
    if ¬ db.clients.Any (fun c => c.clientId = registered.clientId) then
      .error (.authorize "unauthorized_client" "Client registration expired")
    else
      match db.pending.insert?
        { stateHash := cfg.digest state
          clientId := registered.clientId
          clientName := registered.clientName.getD "MCP client"
          params := params
          expiresAt := t.checked + consentTtl } with
      | none => .error .integrity
      | some pending => do
          requireCapacity full
          .ok ((), { db with pending := pending })) db

/-- `_pending`. -/
def pendingConsent (db : GatewayDB) (now : Int) (state : String) : Except GatewayError PendingConsentRow :=
  match db.pending.get? (cfg.digest state) with
  | none => .error (.authorize "invalid_request" "Consent is invalid or expired")
  | some row =>
    if row.expiresAt ≤ now then .error (.authorize "invalid_request" "Consent is invalid or expired")
    else if row.params.resource ≠ cfg.resourceUrl then
      .error (.authorize "invalid_request" "Consent resource changed")
    else .ok row

/-- Bind the first authenticated visitor and issue a fresh browser nonce. -/
def beginConsent (t : ClockReadings) (full : Bool) (csrf state requesterId authenticatedUserId : String)
    (accountId : Option String) (db : GatewayDB) : Except GatewayError GatewayConsent × GatewayDB :=
  transact t.pruned (fun db => do
    let row ← pendingConsent cfg db t.checked state
    if ¬ accountAllowed cfg db accountId ∨ requesterId = "" ∨ authenticatedUserId = "" ∨
        (row.requesterId ≠ none ∧ (row.accountId ≠ accountId ∨ row.requesterId ≠ some requesterId ∨
          row.authenticatedUserId ≠ some authenticatedUserId)) then
      .error (.authorize "access_denied" "Consent belongs to another principal")
    else
      let pending := db.pending.update (fun p => p.stateHash = cfg.digest state) (fun p => { p with
        requesterId := some requesterId
        authenticatedUserId := some authenticatedUserId
        csrfHash := some (cfg.digest csrf)
        accountId := accountId })
      requireCapacity full
      .ok (⟨row.clientName, row.params.redirectUri, csrf⟩, { db with pending := pending })) db

def consentedGrant (now : Int) (row : PendingConsentRow) (grantId requesterId authenticatedUserId : String)
    (accountId : Option String) : OAuthGrantRow where
  grantId := grantId
  payload := ⟨row.clientId, requesterId, authenticatedUserId, grantId, accountId, cfg.resourceUrl,
    scopes, row.params.redirectUri⟩
  expiresAt := now + cfg.grantTtl
  requesterId := requesterId
  createdAt := some now
  lastActivityAt := some now
  idleExpiresAt := now + cfg.idleTtl
  accountId := accountId

def claimsOf (payload : GrantPayload) (expiresAt : Int) : CapabilityPayload where
  clientId := payload.clientId
  scopes := payload.scopes
  expiresAt := expiresAt
  resource := payload.resource
  requesterId := payload.requesterId
  authenticatedUserId := payload.authenticatedUserId
  grantId := payload.grantId
  accountId := payload.accountId

def consentedCode (now : Int) (row : PendingConsentRow) (grant : GrantPayload) (code : String) :
    CapabilityRow where
  tokenHash := cfg.digest code
  kind := .code
  grantId := grant.grantId
  payload := some { claimsOf grant (now + codeTtl) with
    binding := some ⟨row.params.codeChallenge, row.params.redirectUri, row.params.redirectUriProvidedExplicitly⟩ }
  expiresAt := now + codeTtl
  issuedAt := none

def saveCapability (capability : CapabilityRow) (db : GatewayDB) : Except GatewayError GatewayDB :=
  match db.capabilities.insert? capability with
  | none => .error .integrity
  | some capabilities => .ok { db with capabilities := capabilities }

/-- Consume browser consent once and return its authoritative callback. -/
def finishConsent (t : ClockReadings) (full : Bool) (grantId code state requesterId
    authenticatedUserId csrfToken : String) (allow : Bool) (accountId : Option String)
    (db : GatewayDB) : Except GatewayError ConsentCallback × GatewayDB :=
  transact t.pruned (fun db => do
    let row ← pendingConsent cfg db t.checked state
    if ¬ accountAllowed cfg db accountId ∨ row.accountId ≠ accountId ∨
        row.requesterId ≠ some requesterId ∨ row.authenticatedUserId ≠ some authenticatedUserId ∨
        row.csrfHash ≠ some (cfg.digest csrfToken) then
      .error (.authorize "access_denied" "Invalid consent principal or nonce")
    else
      let db := { db with pending := db.pending.delete (fun p => p.stateHash = cfg.digest state) }
      if ¬ allow then
        .ok (⟨row.params.redirectUri, none, some "access_denied", row.params.state⟩, db)
      else
        let grant := consentedGrant cfg t.issued row grantId requesterId authenticatedUserId accountId
        match db.grants.insert? grant with
        | none => .error .integrity
        | some grants => do
            let db ← saveCapability (consentedCode cfg t.issued row grant.payload code)
              { db with grants := grants }
            requireCapacity full
            .ok (⟨row.params.redirectUri, some code, none, row.params.state⟩, db)) db

def load (db : GatewayDB) (now : Int) (kind : CapabilityKind) (raw : String) (includeConsumed : Bool) :
    Option (CapabilityRow × OAuthGrantRow) :=
  match db.capabilities.find? (fun c => c.tokenHash = cfg.digest raw ∧ c.kind = kind) with
  | none => none
  | some c =>
    match db.grants.get? c.grantId with
    | none => none
    | some g =>
      if g.revoked ∨ (c.consumed ∧ ¬ includeConsumed) then none
      else if min (min c.expiresAt g.expiresAt) g.idleExpiresAt ≤ now then none
      else if ¬ accountAllowed cfg db g.accountId then none
      else if g.payload.resource ≠ cfg.resourceUrl then none
      else some (c, g)

def capabilityPayload (c : CapabilityRow) (g : OAuthGrantRow) : Option CapabilityPayload :=
  if c.kind = .refresh ∧ c.payload = none then some (claimsOf g.payload c.expiresAt) else c.payload

/-- `load_authorization_code`, `load_access_token` and `load_refresh_token`: the capability as its
presenter holds it. -/
def loadCapability (db : GatewayDB) (now : Int) (kind : CapabilityKind) (clientId : Option String)
    (raw : String) : Option PresentedCapability :=
  match load cfg db now kind raw (kind = .refresh) with
  | none => none
  | some (c, g) =>
    match capabilityPayload c g with
    | none => none
    | some claims =>
      if clientId.all (· = claims.clientId) then some ⟨raw, claims⟩ else none

/-- The access tokens a grant got in the last 60 seconds. -/
def recentIssues (db : GatewayDB) (grantId : String) (now : Int) : Nat :=
  (db.capabilities.select fun c =>
    c.kind = .access ∧ c.grantId = grantId ∧ ∃ issuedAt ∈ c.issuedAt, now - 60 * second < issuedAt).length

def accessRow (now : Int) (g : OAuthGrantRow) (access : String) : CapabilityRow :=
  let expiresAt := min (wholeSeconds now + accessTtl) (wholeSeconds g.expiresAt)
  { tokenHash := cfg.digest access
    kind := .access
    grantId := g.payload.grantId
    payload := some (claimsOf g.payload expiresAt)
    expiresAt := expiresAt
    issuedAt := some now }

def refreshRow (g : OAuthGrantRow) (refresh : String) : CapabilityRow where
  tokenHash := cfg.digest refresh
  kind := .refresh
  grantId := g.payload.grantId
  payload := some (claimsOf g.payload (wholeSeconds g.expiresAt))
  expiresAt := wholeSeconds g.expiresAt
  issuedAt := none

def issueTokens (now : Int) (full : Bool) (access refresh : String) (c : CapabilityRow) (g : OAuthGrantRow)
    (db : GatewayDB) : Except GatewayError (OAuthToken × GatewayDB) :=
  if recentIssues db c.grantId now ≥ 6 then .error .capacity
  else do
    let db ← saveCapability (accessRow cfg now g access) db
    let db ← saveCapability (refreshRow cfg g refresh) db
    requireCapacity full
    .ok (⟨access, refresh, (accessRow cfg now g access).expiresAt - wholeSeconds now, "mcp:tools"⟩,
      touchGrant c.grantId now cfg.idleTtl false db)

/-- Consume a validated authorization code and issue its first token pair. -/
def exchangeAuthorizationCode (t : ClockReadings) (full : Bool) (access refresh clientId : String)
    (code : PresentedCapability) (db : GatewayDB) : Except GatewayError OAuthToken × GatewayDB :=
  transact t.pruned (fun db =>
    match load cfg db t.checked .code code.raw false with
    | none => .error (.token "invalid_grant" "Invalid authorization code")
    | some (c, g) =>
      if code.claims.clientId ≠ clientId ∨ capabilityPayload c g ≠ some code.claims then
        .error (.token "invalid_grant" "Invalid authorization code")
      else
        let capabilities := db.capabilities.update (fun r => r.tokenHash = cfg.digest code.raw)
          (fun r => { r with consumed := true })
        issueTokens cfg t.issued full access refresh c g { db with capabilities := capabilities }) db

def LiveToken (grantId : String) (c : CapabilityRow) : Prop :=
  c.grantId = grantId ∧ c.consumed = false ∧ (c.kind = .access ∨ c.kind = .refresh)

instance (grantId : String) : DecidablePred (LiveToken grantId) := fun _ => by
  unfold LiveToken
  infer_instance

/-- Consume the live tokens of a grant and compact its refresh tokens. -/
def consumeTokens (grantId : String) (db : GatewayDB) : GatewayDB :=
  { db with
    capabilities := db.capabilities.update (LiveToken grantId) (fun c => { c with
      consumed := true
      payload := if c.kind = .refresh then none else c.payload }) }

/-- Rotate once; concurrent reuse revokes the whole grant, including the winner. -/
def exchangeRefreshToken (t : ClockReadings) (full : Bool) (access refresh clientId : String)
    (token : PresentedCapability) (requested : List String) (db : GatewayDB) :
    Except GatewayError OAuthToken × GatewayDB :=
  if requested ≠ scopes then (.error (.token "invalid_scope" "Only mcp:tools is supported"), db)
  else
    let result := transact t.pruned (fun db =>
      match load cfg db t.checked .refresh token.raw true with
      | none => .error (.token "invalid_grant" "Invalid refresh token")
      | some (c, g) =>
        if token.claims.clientId ≠ clientId ∨ capabilityPayload c g ≠ some token.claims then
          .error (.token "invalid_grant" "Invalid refresh token")
        else if c.consumed then .ok (none, deleteFamily db c.grantId)
        else do
          let (pair, db) ← issueTokens cfg t.issued full access refresh c g (consumeTokens c.grantId db)
          .ok (some pair, db)) db
    match result.1 with
    | .error e => (.error e, result.2)
    | .ok none => (.error (.token "invalid_grant" "Refresh token was already used"), result.2)
    | .ok (some pair) => (.ok pair, result.2)

/-- Revoke the entire family using the stored capability's authoritative grant. -/
def revokeToken (t : ClockReadings) (token : PresentedCapability) (db : GatewayDB) :
    Except GatewayError Unit × GatewayDB :=
  transact t.pruned (fun db =>
    match db.capabilities.find? (fun c => c.tokenHash = cfg.digest token.raw ∧
        (c.kind = .access ∨ c.kind = .refresh)) with
    | none => .ok ((), db)
    | some c =>
      match db.grants.get? c.grantId with
      | none => .ok ((), db)
      | some g =>
        if capabilityPayload c g = some token.claims then .ok ((), deleteFamily db c.grantId)
        else .ok ((), db)) db

/-- Revalidate the exact bearer under the writer lock before recording successful use. -/
def recordUse (t : ClockReadings) (token : PresentedCapability) (db : GatewayDB) :
    Except GatewayError Bool × GatewayDB :=
  transact t.pruned (fun db =>
    match load cfg db t.checked .access token.raw false with
    | none => .ok (false, db)
    | some (c, g) =>
      if capabilityPayload c g ≠ some token.claims then .ok (false, db)
      else .ok (true, touchGrant c.grantId t.issued cfg.idleTtl true db)) db

/-- Atomically remove owned grants and, for revoke-all, bound pending approvals. -/
def revokeGrants (t : ClockReadings) (requesterId authenticatedUserId : String)
    (accountId grantId : Option String) (db : GatewayDB) : Except GatewayError Bool × GatewayDB :=
  transact t.pruned (fun db =>
    let rows := db.grants.select (OwnedGrant cfg requesterId authenticatedUserId accountId)
    let selected := rows.filter (fun g => grantId.all (g.grantId = ·))
    let db := deleteFamilies (selected.map (·.grantId)) db
    if grantId = none then
      .ok (true, { db with pending := db.pending.delete (fun p =>
        p.requesterId = some requesterId ∧ p.authenticatedUserId = some authenticatedUserId ∧
          p.accountId = accountId ∧ p.params.resource = cfg.resourceUrl) })
    else .ok (!selected.isEmpty, db)) db

end GatewayOAuth

end MindRoom
