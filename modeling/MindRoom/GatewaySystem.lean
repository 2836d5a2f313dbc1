import MindRoom.Systems
import MindRoom.GatewayOAuth

/-! # Runs of the gateway

Every operation of the provider and of the account directory, in any order and with any arguments.
Capacity may be refused anywhere, the clock never goes back, and the host never repeats a secret.
-/

namespace MindRoom

open GatewayStore GatewayOAuth

structure ConsentRecord where
  state : String
  grantId : String
  /-- The absolute deadline the grant got. -/
  deadline : Int
  accountId : Option String
  /-- The user name of the account at that time. -/
  userName : Option String
  /-- The history of the accounts at that time. -/
  since : List AccountEvent

structure IssuedAccess where
  grantId : String
  raw : String
  issuedAt : Int

/-- The store, the clock, the secrets that were generated, and what the operations did. -/
structure GatewayWorld where
  db : GatewayDB
  clock : Int
  secrets : List String
  granted : List ConsentRecord
  /-- The codes and the refresh tokens that were exchanged successfully. -/
  exchanged : List String
  issued : List IssuedAccess

inductive GatewayLabel where
  | getClient (t₀ : Int) (clientId : String)
  | registerClient (t : ClockReadings) (full : Bool) (clientId : String) (clientName : Option String)
      (redirectUris : List String)
  | authorize (t : ClockReadings) (full : Bool) (registered : Option ClientRow)
      (params : AuthorizationParams) (state : String)
  | beginConsent (t : ClockReadings) (full : Bool) (csrf state requesterId authenticatedUserId : String)
      (accountId : Option String)
  | finishConsent (t : ClockReadings) (full : Bool) (grantId code state requesterId
      authenticatedUserId csrfToken : String) (allow : Bool) (accountId : Option String)
  | exchangeCode (t : ClockReadings) (full : Bool) (access refresh clientId : String)
      (code : PresentedCapability)
  | exchangeRefresh (t : ClockReadings) (full : Bool) (access refresh clientId : String)
      (token : PresentedCapability) (requested : List String)
  | revokeToken (t : ClockReadings) (token : PresentedCapability)
  | recordUse (t : ClockReadings) (token : PresentedCapability)
  | revokeGrants (t : ClockReadings) (requesterId authenticatedUserId : String)
      (accountId grantId : Option String)
  | createAccount (t₀ now : Int) (accountId : String) (value : Option AccountFields)
  | updateAccount (t₀ : Int) (accountId : String)
      (transforms : List ((AccountFields → Option AccountFields) × Int))
  | deleteAccount (t₀ : Int) (accountId : String)

def ClockReadings.times (t : ClockReadings) : List Int := [t.pruned, t.checked, t.issued]

/-- The readings of the clock in an operation, in order. -/
def GatewayLabel.times : GatewayLabel → List Int
  | .getClient t₀ _ => [t₀]
  | .registerClient t _ _ _ _ => t.times
  | .authorize t _ _ _ _ => t.times
  | .beginConsent t _ _ _ _ _ _ => t.times
  | .finishConsent t _ _ _ _ _ _ _ _ _ => t.times
  | .exchangeCode t _ _ _ _ _ => t.times
  | .exchangeRefresh t _ _ _ _ _ _ => t.times
  | .revokeToken t _ => t.times
  | .recordUse t _ => t.times
  | .revokeGrants t _ _ _ _ => t.times
  | .createAccount t₀ now _ _ => [t₀, now]
  | .updateAccount t₀ _ transforms => t₀ :: transforms.map (·.2)
  | .deleteAccount t₀ _ => [t₀]

def GatewayLabel.secrets : GatewayLabel → List String
  | .authorize _ _ _ _ state => [state]
  | .beginConsent _ _ csrf _ _ _ _ => [csrf]
  | .finishConsent _ _ grantId code _ _ _ _ _ _ => [grantId, code]
  | .exchangeCode _ _ access refresh _ _ => [access, refresh]
  | .exchangeRefresh _ _ access refresh _ _ _ => [access, refresh]
  | _ => []

variable (cfg : GatewayConfig)

def GatewayLabel.db (label : GatewayLabel) (db : GatewayDB) : GatewayDB :=
  match label with
  | .getClient t₀ clientId => (GatewayOAuth.getClient t₀ clientId db).2
  | .registerClient t full clientId clientName redirectUris =>
    (GatewayOAuth.registerClient t full clientId clientName redirectUris db).2
  | .authorize t full registered params state => (GatewayOAuth.authorize cfg t full registered params state db).2
  | .beginConsent t full csrf state requesterId authenticatedUserId accountId =>
    (GatewayOAuth.beginConsent cfg t full csrf state requesterId authenticatedUserId accountId db).2
  | .finishConsent t full grantId code state requesterId authenticatedUserId csrfToken allow accountId =>
    (GatewayOAuth.finishConsent cfg t full grantId code state requesterId authenticatedUserId csrfToken allow
      accountId db).2
  | .exchangeCode t full access refresh clientId code =>
    (GatewayOAuth.exchangeAuthorizationCode cfg t full access refresh clientId code db).2
  | .exchangeRefresh t full access refresh clientId token requested =>
    (GatewayOAuth.exchangeRefreshToken cfg t full access refresh clientId token requested db).2
  | .revokeToken t token => (GatewayOAuth.revokeToken cfg t token db).2
  | .recordUse t token => (GatewayOAuth.recordUse cfg t token db).2
  | .revokeGrants t requesterId authenticatedUserId accountId grantId =>
    (GatewayOAuth.revokeGrants cfg t requesterId authenticatedUserId accountId grantId db).2
  | .createAccount t₀ now accountId value => (GatewayAccounts.create t₀ now accountId value db).2
  | .updateAccount t₀ accountId transforms => (GatewayAccounts.update t₀ accountId transforms db).2
  | .deleteAccount t₀ accountId => (GatewayAccounts.delete t₀ accountId db).2

def GatewayLabel.granted (label : GatewayLabel) (db : GatewayDB) : List ConsentRecord :=
  match label with
  | .finishConsent t full grantId code state requesterId authenticatedUserId csrfToken allow accountId =>
    match (GatewayOAuth.finishConsent cfg t full grantId code state requesterId authenticatedUserId csrfToken allow
      accountId db).1 with
    | .ok ⟨_, some _, _, _⟩ =>
      [⟨state, grantId, t.issued + cfg.grantTtl, accountId,
        accountId.bind fun a => (db.accounts.get? a).map (·.userName), db.history⟩]
    | _ => []
  | _ => []

/-- A successful exchange: the code or refresh token, its grant, the access token and its time. -/
structure Exchanged where
  raw : String
  grantId : String
  access : String
  issuedAt : Int

/-- The exchange of a code or refresh token the store knows. -/
def exchangedOf (db : GatewayDB) (raw access : String) (t : ClockReadings) : Option Exchanged :=
  (db.capabilities.get? (cfg.digest raw)).map fun c => ⟨raw, c.grantId, access, t.issued⟩

def GatewayLabel.exchanged (label : GatewayLabel) (db : GatewayDB) : Option Exchanged :=
  match label with
  | .exchangeCode t full access refresh clientId code =>
    match (GatewayOAuth.exchangeAuthorizationCode cfg t full access refresh clientId code db).1 with
    | .ok _ => exchangedOf cfg db code.raw access t
    | .error _ => none
  | .exchangeRefresh t full access refresh clientId token requested =>
    match (GatewayOAuth.exchangeRefreshToken cfg t full access refresh clientId token requested db).1 with
    | .ok _ => exchangedOf cfg db token.raw access t
    | .error _ => none
  | _ => none

/-- One operation. The clock does not go back, and its secrets are new. -/
def gatewayStep (label : GatewayLabel) (w w' : GatewayWorld) : Prop :=
  (w.clock :: label.times).Pairwise (· ≤ ·) ∧ (label.secrets ++ w.secrets).Nodup ∧
    w' =
      { db := label.db cfg w.db
        clock := label.times.getLastD w.clock
        secrets := label.secrets ++ w.secrets
        granted := label.granted cfg w.db ++ w.granted
        exchanged := ((label.exchanged cfg w.db).map (·.raw)).toList ++ w.exchanged
        issued := ((label.exchanged cfg w.db).map fun e =>
          ⟨e.grantId, e.access, e.issuedAt⟩).toList ++ w.issued }

def gatewaySystem : System GatewayWorld GatewayLabel where
  start w := w.db = ⟨∅, ∅, ∅, ∅, ∅, []⟩ ∧ w.secrets = [] ∧ w.granted = [] ∧ w.exchanged = [] ∧ w.issued = []
  step := gatewayStep cfg

end MindRoom
