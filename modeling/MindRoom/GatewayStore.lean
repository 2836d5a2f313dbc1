import MindRoom.Table

/-! # The store of the MCP gateway

`mcp_gateway/store.py`: the rows of the inbound OAuth state and of the provisioned accounts, the
pruning every write transaction starts with, and the savepoint that a capacity error rolls back
to. Payload columns are the values they encode; the payload of a compacted refresh capability is
none. Times count units of which a second has `second`.
-/

namespace MindRoom

def second : Int := 1000000

structure AuthorizationParams where
  state : Option String
  scopes : List String
  codeChallenge : String
  redirectUri : String
  redirectUriProvidedExplicitly : Bool
  resource : String
deriving DecidableEq

/-- `clients`. -/
structure ClientRow where
  clientId : String
  clientName : Option String
  redirectUris : List String
  expiresAt : Int
deriving DecidableEq

instance : Keyed ClientRow String := ⟨ClientRow.clientId⟩

/-- `pending`: a consent that waits for its browser. -/
structure PendingConsentRow where
  stateHash : String
  clientId : String
  clientName : String
  params : AuthorizationParams
  expiresAt : Int
  requesterId : Option String := none
  authenticatedUserId : Option String := none
  accountId : Option String := none
  csrfHash : Option String := none
deriving DecidableEq

instance : Keyed PendingConsentRow String := ⟨PendingConsentRow.stateHash⟩

structure GrantPayload where
  clientId : String
  requesterId : String
  authenticatedUserId : String
  grantId : String
  accountId : Option String
  resource : String
  scopes : List String
  redirectUri : String
deriving DecidableEq

/-- `grants`. -/
structure OAuthGrantRow where
  grantId : String
  payload : GrantPayload
  expiresAt : Int
  revoked : Bool := false
  requesterId : String
  createdAt : Option Int
  lastUsedAt : Option Int := none
  lastActivityAt : Option Int
  idleExpiresAt : Int
  accountId : Option String
deriving DecidableEq

instance : Keyed OAuthGrantRow String := ⟨OAuthGrantRow.grantId⟩

inductive CapabilityKind where
  | code
  | access
  | refresh
deriving DecidableEq

/-- What an authorization code is bound to besides its grant. -/
structure CodeBinding where
  codeChallenge : String
  redirectUri : String
  redirectUriProvidedExplicitly : Bool
deriving DecidableEq

/-- The claims of a code, an access token or a refresh token, without its secret. -/
structure CapabilityPayload where
  clientId : String
  scopes : List String
  expiresAt : Int
  resource : String
  requesterId : String
  authenticatedUserId : String
  grantId : String
  accountId : Option String
  binding : Option CodeBinding := none
deriving DecidableEq

/-- `capabilities`. -/
structure CapabilityRow where
  tokenHash : String
  kind : CapabilityKind
  grantId : String
  payload : Option CapabilityPayload
  expiresAt : Int
  consumed : Bool := false
  issuedAt : Option Int
deriving DecidableEq

instance : Keyed CapabilityRow String := ⟨CapabilityRow.tokenHash⟩

structure AccountFields where
  userName : String
  active : Bool
  displayName : Option String := none
  externalId : Option String := none
  name : Option (Option String × Option String × Option String) := none
  emails : Option (List (String × Option String × Option Bool)) := none
deriving DecidableEq

/-- `gateway_accounts`. -/
structure AccountRow where
  accountId : String
  userName : String
  active : Bool
  createdAt : Int
  updatedAt : Int
  profile : AccountFields
  tokenValidAfter : Int
deriving DecidableEq

instance : Keyed AccountRow String := ⟨AccountRow.accountId⟩

/-- What a statement made of an account: its user name and whether it is active, or that it is
gone. -/
structure AccountEvent where
  accountId : String
  changedAt : Int
  state : Option (String × Bool)
deriving DecidableEq

/-- The tables. The history of the accounts, the latest first, is read by no operation. -/
structure GatewayDB where
  clients : Table ClientRow
  pending : Table PendingConsentRow
  grants : Table OAuthGrantRow
  capabilities : Table CapabilityRow
  accounts : Table AccountRow
  history : List AccountEvent

inductive GatewayError where
  | registration (error description : String)
  | authorize (error description : String)
  | token (error description : String)
  | capacity
  | integrity
  | accountConflict
  | accountNotFound
  | accountValidation
deriving DecidableEq

namespace GatewayStore

def deleteFamily (db : GatewayDB) (grantId : String) : GatewayDB :=
  { db with
    capabilities := db.capabilities.delete (fun c => c.grantId = grantId)
    grants := db.grants.delete (fun g => g.grantId = grantId) }

/-- `delete_family` of each grant. -/
def deleteFamilies (grantIds : List String) (db : GatewayDB) : GatewayDB :=
  grantIds.foldl deleteFamily db

/-- A grant past its deadline, idle for too long, or revoked. -/
def Due (now : Int) (g : OAuthGrantRow) : Prop := g.expiresAt ≤ now ∨ g.idleExpiresAt ≤ now ∨ g.revoked

instance (now : Int) : DecidablePred (Due now) := fun _ => by
  unfold Due
  infer_instance

/-- A code that is past its deadline or consumed. -/
def SpentCode (now : Int) (c : CapabilityRow) : Prop :=
  c.kind = .code ∧ (c.expiresAt ≤ now ∨ c.consumed)

instance (now : Int) : DecidablePred (SpentCode now) := fun _ => by
  unfold SpentCode
  infer_instance

/-- Remove spent codes, and their grants where nothing else is left of them. -/
def pruneCodes (now : Int) (db : GatewayDB) : GatewayDB :=
  let affected := (db.capabilities.select (SpentCode now)).map (·.grantId)
  let capabilities := db.capabilities.delete (SpentCode now)
  { db with
    capabilities := capabilities
    grants := db.grants.delete fun g =>
      g.grantId ∈ affected ∧ ¬ capabilities.Any (fun c => c.grantId = g.grantId) }

/-- Remove abandoned registrations. -/
def pruneClients (now : Int) (db : GatewayDB) : GatewayDB :=
  { db with
    clients := db.clients.delete fun c =>
      c.expiresAt ≤ now ∧ ¬ db.grants.Any (fun g => g.payload.clientId = c.clientId) ∧
        ¬ db.pending.Any (fun p => p.clientId = c.clientId) }

def prune (now : Int) (db : GatewayDB) : GatewayDB :=
  let db := { db with
    pending := db.pending.delete (fun p => p.expiresAt ≤ now)
    capabilities := db.capabilities.delete (fun c => c.kind = .access ∧ c.expiresAt ≤ now) }
  let due := (db.grants.select (Due now)).map (·.grantId)
  pruneClients now (pruneCodes now (deleteFamilies due db))

/-- `_transaction`: pruning, and the operation under a savepoint. A capacity error keeps the
pruning, any other error keeps nothing. -/
def transact {α : Type} (now : Int) (operation : GatewayDB → Except GatewayError (α × GatewayDB))
    (db : GatewayDB) : Except GatewayError α × GatewayDB :=
  let pruned := prune now db
  match operation pruned with
  | .ok (a, db') => (.ok a, db')
  | .error .capacity => (.error .capacity, pruned)
  | .error e => (.error e, db)

/-- `require_capacity`, where `full` says that a budget is exceeded. -/
def requireCapacity (full : Bool) : Except GatewayError Unit :=
  if full then .error .capacity else .ok ()

end GatewayStore

end MindRoom
