import MindRoom.GatewayStore

/-! # Provisioned accounts

`mcp_gateway/accounts.py`. A submitted value is its validated fields, or nothing where validation
rejects it; a transform of an update is followed by the validation of what it returns.
-/

namespace MindRoom

open GatewayStore

namespace GatewayAccounts

/-- `_EXTERNAL_CLOCK_SKEW_SECONDS`. -/
def externalClockSkew : Int := 60 * second

/-- Require a currently active immutable account, with no status cache. -/
def accountIsActive (db : GatewayDB) (accountId : String) : Bool :=
  match db.accounts.get? accountId with
  | none => false
  | some row => row.active

def resource (row : AccountRow) : AccountFields :=
  { row.profile with userName := row.userName, active := row.active }

/-- Write an account row and its place in the history. -/
def record (accountId : String) (now : Int) (state : Option (String × Bool)) (db : GatewayDB) :
    GatewayDB :=
  { db with history := ⟨accountId, now, state⟩ :: db.history }

/-- Create a fresh immutable identity; recreated users get new identifiers. -/
def create (t₀ now : Int) (accountId : String) (value : Option AccountFields) (db : GatewayDB) :
    Except GatewayError AccountRow × GatewayDB :=
  match value with
  | none => (.error .accountValidation, db)
  | some clean => transact t₀ (fun db =>
    if db.accounts.Any (fun r => r.userName = clean.userName) then .error .accountConflict
    else
      let row : AccountRow := ⟨accountId, clean.userName, clean.active, now, now, clean, now⟩
      match db.accounts.insert? row with
      | none => .error .accountConflict
      | some accounts =>
        .ok (row, record accountId now (some (clean.userName, clean.active))
          { db with accounts := accounts })) db

def invalidate (accountId : String) (db : GatewayDB) : GatewayDB :=
  let grantIds := (db.grants.select (fun g => g.accountId = some accountId)).map (·.grantId)
  let db := deleteFamilies grantIds db
  { db with pending := db.pending.delete (fun p => p.accountId = some accountId) }

def updatedRow (now : Int) (old clean : AccountFields) (row : AccountRow) : AccountRow :=
  { row with
    userName := clean.userName
    active := clean.active
    profile := clean
    updatedAt := max row.updatedAt now
    tokenValidAfter :=
      if old.userName ≠ clean.userName ∨ old.active ≠ clean.active then max row.tokenValidAfter now
      else row.tokenValidAfter }

def applyTransform (accountId : String) (old : AccountFields)
    (transform : (AccountFields → Option AccountFields) × Int) (db : GatewayDB) :
    Except GatewayError (AccountFields × GatewayDB) :=
  match transform.1 old with
  | none => .error .accountValidation
  | some clean =>
    if clean = old then .ok (old, db)
    else if db.accounts.Any (fun r => r.userName = clean.userName ∧ r.accountId ≠ accountId) then
      .error .accountConflict
    else
      let written := record accountId transform.2 (some (clean.userName, clean.active))
        { db with
          accounts := db.accounts.update (fun r => r.accountId = accountId)
            (updatedRow transform.2 old clean) }
      if old.userName ≠ clean.userName ∨ ¬ clean.active then .ok (clean, invalidate accountId written)
      else .ok (clean, written)

def applyTransforms (accountId : String) (old : AccountFields) :
    List ((AccountFields → Option AccountFields) × Int) → GatewayDB → Except GatewayError GatewayDB
  | [], db => .ok db
  | transform :: rest, db => do
      let (clean, db) ← applyTransform accountId old transform db
      applyTransforms accountId clean rest db

/-- Validate and apply all PATCH operations inside one atomic transaction. -/
def update (t₀ : Int) (accountId : String)
    (transforms : List ((AccountFields → Option AccountFields) × Int)) (db : GatewayDB) :
    Except GatewayError AccountRow × GatewayDB :=
  transact t₀ (fun db =>
    match db.accounts.get? accountId with
    | none => .error .accountNotFound
    | some row => do
        let db ← applyTransforms accountId (resource row) transforms db
        match db.accounts.get? accountId with
        | none => .error .accountNotFound
        | some row => .ok (row, db)) db

/-- Replace mutable attributes and invalidate access on rename or disable. -/
def replace (t₀ now : Int) (accountId : String) (value : Option AccountFields) (db : GatewayDB) :
    Except GatewayError AccountRow × GatewayDB :=
  update t₀ accountId [(fun _ => value, now)] db

def delete (t₀ : Int) (accountId : String) (db : GatewayDB) : Except GatewayError Unit × GatewayDB :=
  transact t₀ (fun db =>
    match db.accounts.get? accountId with
    | none => .error .accountNotFound
    | some _ =>
      let db := invalidate accountId db
      .ok ((), record accountId t₀ none
        { db with accounts := db.accounts.delete (fun r => r.accountId = accountId) })) db

/-- Require exact active email and issue time beyond the cutoff plus bounded issuer skew. -/
def resolveExternal (userName : String) (issuedAt : Int) (db : GatewayDB) : Option String :=
  (db.accounts.find? fun r =>
    r.userName = userName ∧ r.active ∧ r.tokenValidAfter < issuedAt - externalClockSkew).map (·.accountId)

end GatewayAccounts

end MindRoom
