import Mathlib
import MindRoom.GatewaySystem
import MindRoom.Transaction

/-! # What the gateway's operations do to its rows

Most operations only take rows away: they prune, delete the families of grants, consume a consent,
or note activity. A consent request, a finished consent and an exchange add rows. Each operation is
one of these, whatever its arguments are and however it ends.
-/

namespace MindRoom

open GatewayStore GatewayOAuth

variable {t t' : Int} {db db' db'' : GatewayDB} {cfg : GatewayConfig}

def SameGrant (g g' : OAuthGrantRow) : Prop :=
  g'.grantId = g.grantId ∧ g'.payload = g.payload ∧ g'.expiresAt = g.expiresAt ∧
    g'.accountId = g.accountId ∧ g'.revoked = g.revoked

theorem SameGrant.refl (g : OAuthGrantRow) : SameGrant g g := ⟨rfl, rfl, rfl, rfl, rfl⟩

theorem SameGrant.trans {g g' g'' : OAuthGrantRow} (h : SameGrant g g') (h' : SameGrant g' g'') :
    SameGrant g g'' :=
  ⟨h'.1.trans h.1, h'.2.1.trans h.2.1, h'.2.2.1.trans h.2.2.1, h'.2.2.2.1.trans h.2.2.2.1, h'.2.2.2.2.trans h.2.2.2.2⟩

def Owned (db : GatewayDB) : Prop := ∀ c ∈ db.capabilities, ∃ g ∈ db.grants, g.grantId = c.grantId

/-- Rows are taken away; of a grant that stays, no access token that is valid at `t`. -/
structure Shrinks (t : Int) (db db' : GatewayDB) : Prop where
  pending : ∀ p' ∈ db'.pending, ∃ p ∈ db.pending, p'.stateHash = p.stateHash
  grants : ∀ g' ∈ db'.grants, ∃ g ∈ db.grants, SameGrant g g'
  capabilities : ∀ c ∈ db'.capabilities, c ∈ db.capabilities
  kept : ∀ c ∈ db.capabilities, c.kind = .access → t < c.expiresAt →
    (∃ g ∈ db'.grants, g.grantId = c.grantId) → c ∈ db'.capabilities
  owned : Owned db → Owned db'

theorem Shrinks.refl : Shrinks t db db :=
  ⟨fun p hp => ⟨p, hp, rfl⟩, fun g hg => ⟨g, hg, SameGrant.refl g⟩, fun _ hc => hc, fun _ hc _ _ _ => hc, id⟩

theorem Shrinks.trans (h : Shrinks t db db') (h' : Shrinks t db' db'') : Shrinks t db db'' where
  pending p'' hp'' := by
    rcases h'.pending p'' hp'' with ⟨p', hp', hhash'⟩
    rcases h.pending p' hp' with ⟨p, hp, hhash⟩
    exact ⟨p, hp, hhash'.trans hhash⟩
  grants g'' hg'' := by
    rcases h'.grants g'' hg'' with ⟨g', hg', hsame'⟩
    rcases h.grants g' hg' with ⟨g, hg, hsame⟩
    exact ⟨g, hg, hsame.trans hsame'⟩
  capabilities c hc := h.capabilities c (h'.capabilities c hc)
  kept c hc haccess hvalid hgrant := by
    refine h'.kept c (h.kept c hc haccess hvalid ?_) haccess hvalid hgrant
    rcases hgrant with ⟨g'', hg'', hid⟩
    rcases h'.grants g'' hg'' with ⟨g', hg', hsame⟩
    exact ⟨g', hg', hsame.1.symm.trans hid⟩
  owned howned := h'.owned (h.owned howned)

/-! ## Taking rows away -/

theorem shrinks_deleteFamily (grantId : String) : Shrinks t db (deleteFamily db grantId) where
  pending p hp := ⟨p, hp, rfl⟩
  grants g hg := ⟨g, (Table.mem_delete.mp hg).1, SameGrant.refl g⟩
  capabilities c hc := (Table.mem_delete.mp hc).1
  kept c hc _ _ hgrant := by
    rcases hgrant with ⟨g, hg, hid⟩
    refine Table.mem_delete.mpr ⟨hc, ?_⟩
    intro hown
    exact (Table.mem_delete.mp hg).2 (hid.trans hown)
  owned howned c hc := by
    rcases Table.mem_delete.mp hc with ⟨hold, hother⟩
    rcases howned c hold with ⟨g, hg, hid⟩
    exact ⟨g, Table.mem_delete.mpr ⟨hg, fun hown => hother (hid.symm.trans hown)⟩, hid⟩

theorem shrinks_deleteFamilies (grantIds : List String) : Shrinks t db (deleteFamilies grantIds db) := by
  induction grantIds generalizing db with
  | nil => exact .refl
  | cons grantId rest ih => exact (shrinks_deleteFamily grantId).trans ih

/-- Deleting consent requests. -/
theorem shrinks_pending (p : PendingConsentRow → Prop) [DecidablePred p] :
    Shrinks t db { db with pending := db.pending.delete p } :=
  ⟨fun r hr => ⟨r, (Table.mem_delete.mp hr).1, rfl⟩, fun g hg => ⟨g, hg, SameGrant.refl g⟩,
    fun _ hc => hc, fun _ hc _ _ _ => hc, id⟩

theorem shrinks_touchGrant (grantId : String) (now idleTtl : Int) (used : Bool) :
    Shrinks t db (touchGrant grantId now idleTtl used db) where
  pending p hp := ⟨p, hp, rfl⟩
  grants g' hg' := by
    rcases Table.of_mem_update (by intro _; rfl) hg' with ⟨g, hg, -, rfl⟩ | ⟨hg, -⟩
    · exact ⟨g, hg, rfl, rfl, rfl, rfl, rfl⟩
    · exact ⟨g', hg, SameGrant.refl g'⟩
  capabilities _ hc := hc
  kept _ hc _ _ _ := hc
  owned howned c hc := by
    rcases howned c hc with ⟨g, hg, hid⟩
    by_cases htouched : g.grantId = grantId
    · exact ⟨_, Table.mem_update_of (by intro _; rfl) hg htouched, hid⟩
    · exact ⟨g, Table.mem_update_of_not (by intro _; rfl) hg htouched, hid⟩

theorem shrinks_pruneCodes : Shrinks t db (pruneCodes t db) where
  pending p hp := ⟨p, hp, rfl⟩
  grants g hg := ⟨g, (Table.mem_delete.mp hg).1, SameGrant.refl g⟩
  capabilities c hc := (Table.mem_delete.mp hc).1
  kept c hc haccess _ _ := by
    refine Table.mem_delete.mpr ⟨hc, ?_⟩
    rintro ⟨hcode, -⟩
    rw [haccess] at hcode
    cases hcode
  owned howned c hc := by
    rcases howned c (Table.mem_delete.mp hc).1 with ⟨g, hg, hid⟩
    refine ⟨g, Table.mem_delete.mpr ⟨hg, ?_⟩, hid⟩
    rintro ⟨-, hempty⟩
    exact hempty ⟨c, hc, hid.symm⟩

theorem shrinks_pruneClients : Shrinks t db (pruneClients t db) :=
  ⟨fun p hp => ⟨p, hp, rfl⟩, fun g hg => ⟨g, hg, SameGrant.refl g⟩, fun _ hc => hc, fun _ hc _ _ _ => hc, id⟩

/-- Deleting the expired access tokens. -/
theorem shrinks_expired : Shrinks t db { db with
    pending := db.pending.delete (fun p => p.expiresAt ≤ t)
    capabilities := db.capabilities.delete (fun c => c.kind = .access ∧ c.expiresAt ≤ t) } where
  pending p hp := ⟨p, (Table.mem_delete.mp hp).1, rfl⟩
  grants g hg := ⟨g, hg, SameGrant.refl g⟩
  capabilities c hc := (Table.mem_delete.mp hc).1
  kept c hc _ hvalid _ := by
    refine Table.mem_delete.mpr ⟨hc, ?_⟩
    rintro ⟨-, hexpired⟩
    omega
  owned howned c hc := howned c (Table.mem_delete.mp hc).1

theorem shrinks_prune : Shrinks t db (prune t db) :=
  ((shrinks_expired.trans (shrinks_deleteFamilies _)).trans shrinks_pruneCodes).trans
    shrinks_pruneClients

/-! ## Transactions -/

/-- A transaction commits its operation, keeps its pruning, or keeps nothing. -/
theorem transact_cases {α : Type} {operation : GatewayDB → Except GatewayError (α × GatewayDB)} :
    (∃ a db', operation (prune t db) = .ok (a, db') ∧ transact t operation db = (.ok a, db')) ∨
    (operation (prune t db) = .error .capacity ∧ transact t operation db = (.error .capacity, prune t db)) ∨
    (∃ e, e ≠ .capacity ∧ operation (prune t db) = .error e ∧ transact t operation db = (.error e, db)) := by
  unfold transact
  dsimp only
  cases hresult : operation (prune t db) with
  | ok result => exact .inl ⟨result.1, result.2, rfl, rfl⟩
  | error e =>
    by_cases hcapacity : e = .capacity
    · subst hcapacity
      exact .inr (.inl ⟨rfl, rfl⟩)
    · refine .inr (.inr ⟨e, hcapacity, rfl, ?_⟩)
      cases e with
      | capacity => exact absurd rfl hcapacity
      | _ => rfl

/-- A transaction whose operation only takes rows away only takes rows away. -/
theorem shrinks_transact {α : Type} {operation : GatewayDB → Except GatewayError (α × GatewayDB)}
    (h : ∀ a db', operation (prune t db) = .ok (a, db') → Shrinks t (prune t db) db') :
    Shrinks t db (transact t operation db).2 := by
  rcases @transact_cases t db α operation with ⟨a, db', hop, heq⟩ | ⟨-, heq⟩ | ⟨e, -, -, heq⟩
  · rw [heq]
    exact shrinks_prune.trans (h a db' hop)
  · rw [heq]
    exact shrinks_prune
  · rw [heq]
    exact .refl

/-! ## The operations that only take rows away -/

theorem shrinks_getClient {clientId : String} : Shrinks t db (GatewayOAuth.getClient t clientId db).2 := by
  apply shrinks_transact
  intro a db' h
  cases h
  exact .refl

variable {times : ClockReadings} {accountId : String} {full : Bool}

/-- Registering touches no row of a grant. -/
theorem shrinks_registerClient {clientId : String} {clientName : Option String} {redirectUris : List String} :
    Shrinks times.pruned db (registerClient times full clientId clientName redirectUris db).2 := by
  apply shrinks_transact
  intro a db' h
  cases hclient : (prune times.pruned db).clients.get? clientId with
  | some existing =>
    rw [hclient] at h
    dsimp only at h
    split at h
    · cases h
    · cases h
      exact .refl
  | none =>
    rw [hclient] at h
    dsimp only at h
    rcases Transaction.except_bind_eq_ok.mp h with ⟨_, -, h⟩
    cases h
    exact ⟨fun p hp => ⟨p, hp, rfl⟩, fun g hg => ⟨g, hg, SameGrant.refl g⟩, fun _ hc => hc, fun _ hc _ _ _ => hc, id⟩

/-- Binding a visitor keeps the consent request under its state. -/
theorem shrinks_beginConsent
    {csrf state requesterId authenticatedUserId : String} {accountId : Option String} : Shrinks times.pruned db
      (beginConsent cfg times full csrf state requesterId authenticatedUserId accountId db).2 := by
  apply shrinks_transact
  intro a db' h
  rcases Transaction.except_bind_eq_ok.mp h with ⟨row, -, h⟩
  split at h
  · cases h
  · rcases Transaction.except_bind_eq_ok.mp h with ⟨_, -, h⟩
    cases h
    refine ⟨?_, fun g hg => ⟨g, hg, SameGrant.refl g⟩, fun _ hc => hc, fun _ hc _ _ _ => hc, id⟩
    intro p' hp'
    rcases Table.of_mem_update (by intro _; rfl) hp' with ⟨p, hp, -, rfl⟩ | ⟨hp, -⟩
    · exact ⟨p, hp, rfl⟩
    · exact ⟨p', hp, rfl⟩

theorem shrinks_revokeToken {token : PresentedCapability} :
    Shrinks times.pruned db (revokeToken cfg times token db).2 := by
  apply shrinks_transact
  intro a db' h
  split at h
  · cases h
    exact .refl
  · split at h
    · cases h
      exact .refl
    · split at h
      · cases h
        exact shrinks_deleteFamily _
      · cases h
        exact .refl

theorem shrinks_recordUse {token : PresentedCapability} : Shrinks times.pruned db (recordUse cfg times token db).2 := by
  apply shrinks_transact
  intro a db' h
  split at h
  · cases h
    exact .refl
  · split at h
    · cases h
      exact .refl
    · cases h
      exact shrinks_touchGrant _ _ _ _

theorem shrinks_revokeGrants {requesterId authenticatedUserId : String} {accountId grantId : Option String} :
    Shrinks times.pruned db
      (revokeGrants cfg times requesterId authenticatedUserId accountId grantId db).2 := by
  apply shrinks_transact
  intro a db' h
  dsimp only at h
  split at h
  · cases h
    exact (shrinks_deleteFamilies _).trans (shrinks_pending _)
  · cases h
    exact shrinks_deleteFamilies _

/-! ## The directory -/

/-- Writing the directory touches no row of a grant. -/
theorem shrinks_accounts {accounts : Table AccountRow} {history : List AccountEvent} :
    Shrinks t db { db with accounts := accounts, history := history } :=
  ⟨fun p hp => ⟨p, hp, rfl⟩, fun g hg => ⟨g, hg, SameGrant.refl g⟩, fun _ hc => hc, fun _ hc _ _ _ => hc, id⟩

theorem shrinks_invalidate (accountId : String) : Shrinks t db (GatewayAccounts.invalidate accountId db) :=
  (shrinks_deleteFamilies _).trans (shrinks_pending _)

theorem shrinks_createAccount {now : Int} {value : Option AccountFields} :
    Shrinks t db (GatewayAccounts.create t now accountId value db).2 := by
  unfold GatewayAccounts.create
  cases value with
  | none => exact .refl
  | some clean =>
    apply shrinks_transact
    intro a db' h
    dsimp only at h
    split at h
    · cases h
    · split at h
      · cases h
      · cases h
        exact shrinks_accounts

theorem shrinks_applyTransform {old clean : AccountFields} {transform : (AccountFields → Option AccountFields) × Int}
    (h : GatewayAccounts.applyTransform accountId old transform db = .ok (clean, db')) :
    Shrinks t db db' := by
  unfold GatewayAccounts.applyTransform at h
  split at h
  · cases h
  · split at h
    · cases h
      exact .refl
    · split at h
      · cases h
      · dsimp only at h
        split at h
        · cases h
          exact shrinks_accounts.trans (shrinks_invalidate accountId)
        · cases h
          exact shrinks_accounts

theorem shrinks_applyTransforms {old : AccountFields} {transforms : List ((AccountFields → Option AccountFields) × Int)}
    (h : GatewayAccounts.applyTransforms accountId old transforms db = .ok db') : Shrinks t db db' := by
  induction transforms generalizing old db with
  | nil =>
    cases h
    exact .refl
  | cons transform rest ih =>
    rcases Transaction.except_bind_eq_ok.mp h with ⟨⟨clean, mid⟩, hfirst, hrest⟩
    exact (shrinks_applyTransform hfirst).trans (ih hrest)

theorem shrinks_updateAccount
    {transforms : List ((AccountFields → Option AccountFields) × Int)} :
    Shrinks t db (GatewayAccounts.update t accountId transforms db).2 := by
  apply shrinks_transact
  intro a db' h
  split at h
  · cases h
  · rcases Transaction.except_bind_eq_ok.mp h with ⟨after, htransforms, h⟩
    split at h
    · cases h
    · cases h
      exact shrinks_applyTransforms htransforms

theorem shrinks_deleteAccount : Shrinks t db (GatewayAccounts.delete t accountId db).2 := by
  apply shrinks_transact
  intro a db' h
  split at h
  · cases h
  · cases h
    exact (shrinks_invalidate accountId).trans shrinks_accounts

/-! ## The operations that add rows -/

/-- What `_load` found. -/
structure Loads (cfg : GatewayConfig) (db : GatewayDB) (now : Int) (kind : CapabilityKind) (raw : String)
    (includeConsumed : Bool) (c : CapabilityRow) (g : OAuthGrantRow) : Prop where
  capability : c ∈ db.capabilities
  hash : c.tokenHash = cfg.digest raw
  kind : c.kind = kind
  grant : g ∈ db.grants
  owner : g.grantId = c.grantId
  live : g.revoked = false
  unconsumed : c.consumed = true → includeConsumed = true
  valid : now < c.expiresAt
  deadline : now < g.expiresAt
  idle : now < g.idleExpiresAt
  account : accountAllowed cfg db g.accountId = true
  resource : g.payload.resource = cfg.resourceUrl

theorem load_eq_some {now : Int} {kind : CapabilityKind} {raw : String} {includeConsumed : Bool}
    {c : CapabilityRow} {g : OAuthGrantRow} (h : load cfg db now kind raw includeConsumed = some (c, g)) :
    Loads cfg db now kind raw includeConsumed c g := by
  unfold load at h
  cases hcapability : db.capabilities.find? (fun c => c.tokenHash = cfg.digest raw ∧ c.kind = kind) with
  | none =>
    rw [hcapability] at h
    cases h
  | some found =>
    rw [hcapability] at h
    dsimp only at h
    rcases Table.mem_of_find? hcapability with ⟨hmem, hhash, hkind⟩
    cases hgrant : db.grants.get? found.grantId with
    | none =>
      rw [hgrant] at h
      cases h
    | some owner =>
      rw [hgrant] at h
      rcases Table.get?_eq_some.mp hgrant with ⟨hgmem, hgid⟩
      dsimp only at h
      split at h
      · cases h
      · next hrevoked =>
        split at h
        · cases h
        · next hvalid =>
          split at h
          · cases h
          · next hallowed =>
            split at h
            · cases h
            · next hresource =>
              cases h
              refine ⟨hmem, hhash, hkind, hgmem, hgid, ?_, ?_, by omega, by omega, by omega,
                not_not.mp hallowed, not_not.mp hresource⟩
              · exact Bool.eq_false_iff.mpr fun hr => hrevoked (.inl hr)
              · intro hconsumed
                by_contra hinclude
                exact hrevoked (.inr ⟨hconsumed, hinclude⟩)

/-- A consent request is saved under its state, or rows are taken away. -/
theorem authorize_effect {registered : Option ClientRow} {params : AuthorizationParams} {state : String} :
    ∃ mid, Shrinks times.pruned db mid ∧ (authorize cfg times full registered params state db).2.grants = mid.grants ∧
      (authorize cfg times full registered params state db).2.capabilities = mid.capabilities ∧
      ∀ p ∈ (authorize cfg times full registered params state db).2.pending,
        p ∈ mid.pending ∨ p.stateHash = cfg.digest state := by
  unfold authorize
  split
  · exact ⟨db, .refl, rfl, rfl, fun p hp => .inl hp⟩
  · rcases @transact_cases times.pruned db Unit _ with ⟨a, db', hop, heq⟩ | ⟨-, heq⟩ | ⟨e, -, -, heq⟩
    · rw [heq]
      split at hop
      · cases hop
      · split at hop
        · cases hop
        · next pending hinsert =>
          rcases Transaction.except_bind_eq_ok.mp hop with ⟨_, -, hop⟩
          cases hop
          refine ⟨prune times.pruned db, shrinks_prune, rfl, rfl, ?_⟩
          intro p hp
          rcases (Table.mem_insert? hinsert).mp hp with hold | rfl
          · exact .inl hold
          · exact .inr rfl
    · rw [heq]
      exact ⟨_, shrinks_prune, rfl, rfl, fun p hp => .inl hp⟩
    · rw [heq]
      exact ⟨db, .refl, rfl, rfl, fun p hp => .inl hp⟩

/-- A consent is pending under its state. -/
theorem pendingConsent_ok {now : Int} {state : String} {row : PendingConsentRow}
    (h : pendingConsent cfg db now state = .ok row) : row ∈ db.pending ∧ row.stateHash = cfg.digest state := by
  unfold pendingConsent at h
  cases hget : db.pending.get? (cfg.digest state) with
  | none =>
    rw [hget] at h
    cases h
  | some found =>
    rw [hget] at h
    dsimp only at h
    split at h
    · cases h
    · split at h
      · cases h
      · cases h
        exact Table.get?_eq_some.mp hget

structure Approved (cfg : GatewayConfig) (times : ClockReadings) (grantId code state requesterId
    authenticatedUserId : String) (accountId : Option String) (row : PendingConsentRow)
    (db db' : GatewayDB) : Prop where
  found : row ∈ db.pending ∧ row.stateHash = cfg.digest state
  allowed : accountAllowed cfg db accountId = true
  pending : db'.pending = db.pending.delete (fun p => p.stateHash = cfg.digest state)
  grants : db.grants.insert?
    (consentedGrant cfg times.issued row grantId requesterId authenticatedUserId accountId) =
      some db'.grants
  capabilities : db.capabilities.insert? (consentedCode cfg times.issued row
    (consentedGrant cfg times.issued row grantId requesterId authenticatedUserId accountId).payload
      code) = some db'.capabilities
  accounts : db'.accounts = db.accounts ∧ db'.history = db.history

/-- A consent is approved, or rows are taken away. -/
theorem finishConsent_effect {full allow : Bool} {grantId code state requesterId
    authenticatedUserId csrfToken : String} {accountId : Option String} :
    let after := finishConsent cfg times full grantId code state requesterId authenticatedUserId csrfToken
      allow accountId db
    (Shrinks times.pruned db after.2 ∧ ∀ callback, after.1 = .ok callback → callback.code = none) ∨
      (∃ callback row, after.1 = .ok callback ∧ callback.code = some code ∧
        Approved cfg times grantId code state requesterId authenticatedUserId accountId row
          (prune times.pruned db) after.2) := by
  intro after
  rcases hafter : after with ⟨result, db'⟩
  have h : finishConsent cfg times full grantId code state requesterId authenticatedUserId csrfToken
    allow accountId db = (result, db') := hafter
  unfold finishConsent at h
  rcases @transact_cases times.pruned db ConsentCallback _ with ⟨a, after, hop, heq⟩ | ⟨-, heq⟩ | ⟨e, -, -, heq⟩
  · rw [heq] at h
    cases h
    rcases Transaction.except_bind_eq_ok.mp hop with ⟨row, hrow, hop⟩
    split at hop
    · cases hop
    · next hchecked =>
      dsimp only at hop
      split at hop
      · cases hop
        refine .inl ⟨shrinks_prune.trans (shrinks_pending _), ?_⟩
        rintro callback hcallback
        cases hcallback
        rfl
      · split at hop
        · cases hop
        · next grants hgrants =>
          rcases Transaction.except_bind_eq_ok.mp hop with ⟨saved, hsaved, hop⟩
          rcases Transaction.except_bind_eq_ok.mp hop with ⟨_, -, hop⟩
          cases hop
          unfold saveCapability at hsaved
          split at hsaved
          · cases hsaved
          · next capabilities hcapabilities =>
            cases hsaved
            have hallowed : accountAllowed cfg (prune times.pruned db) accountId = true := by
              by_contra hrefused
              exact hchecked (.inl hrefused)
            exact .inr ⟨_, row, rfl, rfl, pendingConsent_ok hrow, hallowed, rfl, hgrants, hcapabilities, rfl, rfl⟩
  · rw [heq] at h
    cases h
    exact .inl ⟨shrinks_prune, fun _ hok => by cases hok⟩
  · rw [heq] at h
    cases h
    exact .inl ⟨.refl, fun _ hok => by cases hok⟩

structure PairIssued (cfg : GatewayConfig) (now : Int) (access refresh : String) (c : CapabilityRow)
    (g : OAuthGrantRow) (db db' : GatewayDB) : Prop where
  recent : recentIssues db c.grantId now < 6
  rows : ∃ capabilities capabilities', db.capabilities.insert? (accessRow cfg now g access) = some capabilities ∧
    capabilities.insert? (refreshRow cfg g refresh) = some capabilities' ∧
    db' = touchGrant c.grantId now cfg.idleTtl false { db with capabilities := capabilities' }

theorem issueTokens_ok {now : Int} {access refresh : String} {c : CapabilityRow}
    {g : OAuthGrantRow} {pair : OAuthToken} (h : issueTokens cfg now full access refresh c g db = .ok (pair, db')) :
    PairIssued cfg now access refresh c g db db' := by
  unfold issueTokens at h
  split at h
  · cases h
  · next hrecent =>
    rcases Transaction.except_bind_eq_ok.mp h with ⟨first, hfirst, h⟩
    rcases Transaction.except_bind_eq_ok.mp h with ⟨second, hsecond, h⟩
    rcases Transaction.except_bind_eq_ok.mp h with ⟨_, -, h⟩
    cases h
    unfold saveCapability at hfirst hsecond
    split at hfirst
    · cases hfirst
    · next capabilities haccess =>
      cases hfirst
      split at hsecond
      · cases hsecond
      · next capabilities' hrefresh =>
        cases hsecond
        exact ⟨by omega, capabilities, capabilities', haccess, hrefresh, rfl⟩

/-- A code is exchanged, or rows are taken away. -/
theorem exchangeCode_effect {access refresh clientId : String} {code : PresentedCapability} :
    let after := exchangeAuthorizationCode cfg times full access refresh clientId code db
    (Shrinks times.pruned db after.2 ∧ ∀ pair, after.1 ≠ .ok pair) ∨
      (∃ pair c g, after.1 = .ok pair ∧
        Loads cfg (prune times.pruned db) times.checked .code code.raw false c g ∧
        PairIssued cfg times.issued access refresh c g
          { prune times.pruned db with
            capabilities := (prune times.pruned db).capabilities.update
              (fun r => r.tokenHash = cfg.digest code.raw) (fun r => { r with consumed := true }) }
          after.2) := by
  intro after
  rcases hafter : after with ⟨result, db'⟩
  have h : exchangeAuthorizationCode cfg times full access refresh clientId code db = (result, db') := hafter
  unfold exchangeAuthorizationCode at h
  rcases @transact_cases times.pruned db OAuthToken _ with ⟨a, after, hop, heq⟩ | ⟨-, heq⟩ | ⟨e, -, -, heq⟩
  · rw [heq] at h
    cases h
    dsimp only at hop
    split at hop
    · cases hop
    · next c g hload =>
      split at hop
      · cases hop
      · exact .inr ⟨a, c, g, rfl, load_eq_some hload, issueTokens_ok hop⟩
  · rw [heq] at h
    cases h
    exact .inl ⟨shrinks_prune, fun _ hok => by cases hok⟩
  · rw [heq] at h
    cases h
    exact .inl ⟨.refl, fun _ hok => by cases hok⟩

/-- A refresh token is rotated, or rows are taken away. -/
theorem exchangeRefresh_effect {access refresh clientId : String}
    {token : PresentedCapability} {requested : List String} :
    let after := exchangeRefreshToken cfg times full access refresh clientId token requested db
    (Shrinks times.pruned db after.2 ∧ ∀ pair, after.1 ≠ .ok pair) ∨
      (∃ pair c g, after.1 = .ok pair ∧ c.consumed = false ∧
        Loads cfg (prune times.pruned db) times.checked .refresh token.raw true c g ∧
        PairIssued cfg times.issued access refresh c g
          (consumeTokens c.grantId (prune times.pruned db)) after.2) := by
  intro after
  rcases hafter : after with ⟨result, db'⟩
  have h : exchangeRefreshToken cfg times full access refresh clientId token requested db =
    (result, db') := hafter
  unfold exchangeRefreshToken at h
  split at h
  · cases h
    exact .inl ⟨.refl, fun _ hok => by cases hok⟩
  · dsimp only at h
    rcases @transact_cases times.pruned db (Option OAuthToken) _ with
      ⟨a, after, hop, heq⟩ | ⟨-, heq⟩ | ⟨e, -, -, heq⟩
    · rw [heq] at h
      split at hop
      · cases hop
      · next c g hload =>
        split at hop
        · cases hop
        · split at hop
          · cases hop
            cases h
            exact .inl ⟨shrinks_prune.trans (shrinks_deleteFamily _), nofun⟩
          · next hlive =>
            rcases Transaction.except_bind_eq_ok.mp hop with ⟨⟨pair, issued⟩, hissue, hop⟩
            cases hop
            cases h
            exact .inr ⟨pair, c, g, rfl, Bool.eq_false_iff.mpr hlive, load_eq_some hload, issueTokens_ok hissue⟩
    · rw [heq] at h
      cases h
      exact .inl ⟨shrinks_prune, fun _ hok => by cases hok⟩
    · rw [heq] at h
      cases h
      exact .inl ⟨.refl, fun _ hok => by cases hok⟩

end MindRoom
