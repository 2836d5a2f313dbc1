import MindRoom.GatewayFamilies

/-! # What a grant is good for

The results about the families of grants: one grant for a consent, one exchange for a code or a
refresh token, replay that costs the whole family, and nothing that loads without its grant or past
its deadline.
-/

namespace MindRoom

open GatewayStore GatewayOAuth

variable {cfg : GatewayConfig} {w w' w'' : GatewayWorld} {db db' : GatewayDB} {t : Int}

/-! ## What pruning keeps -/

theorem mem_deleteFamilies_grants {grantIds : List String} {g : OAuthGrantRow} :
    g ∈ (deleteFamilies grantIds db).grants ↔ g ∈ db.grants ∧ g.grantId ∉ grantIds := by
  induction grantIds generalizing db with
  | nil => simp [deleteFamilies]
  | cons grantId rest ih =>
    show g ∈ (deleteFamilies rest (deleteFamily db grantId)).grants ↔ _
    rw [ih]
    simp only [deleteFamily, Table.mem_delete, List.mem_cons, not_or, and_assoc]

theorem mem_deleteFamilies_capabilities {grantIds : List String} {c : CapabilityRow} :
    c ∈ (deleteFamilies grantIds db).capabilities ↔ c ∈ db.capabilities ∧ c.grantId ∉ grantIds := by
  induction grantIds generalizing db with
  | nil => simp [deleteFamilies]
  | cons grantId rest ih =>
    show c ∈ (deleteFamilies rest (deleteFamily db grantId)).capabilities ↔ _
    rw [ih]
    simp only [deleteFamily, Table.mem_delete, List.mem_cons, not_or, and_assoc]

theorem deleteFamilies_accounts (grantIds : List String) :
    (deleteFamilies grantIds db).accounts = db.accounts ∧ (deleteFamilies grantIds db).history = db.history := by
  induction grantIds generalizing db with
  | nil => exact ⟨rfl, rfl⟩
  | cons grantId rest ih => exact @ih (deleteFamily db grantId)

theorem prune_accounts : (prune t db).accounts = db.accounts ∧ (prune t db).history = db.history :=
  deleteFamilies_accounts _

variable {access refresh clientId : String} {times : ClockReadings} {token : PresentedCapability} {now : Int}
variable {kind : CapabilityKind} {raw : String} {includeConsumed : Bool}

/-- What loads survives an earlier pruning. -/
theorem Loads.prune
    {c : CapabilityRow} {g : OAuthGrantRow} (h : Loads cfg db now kind raw includeConsumed c g) (hle : t ≤ now)
    (hcode : c.kind = .code → c.consumed = false) : Loads cfg (prune t db) now kind raw includeConsumed c g := by
  have hvalid := h.valid
  have hdeadline := h.deadline
  have hidle := h.idle
  have hdue : c.grantId ∉ ((db.grants.select (Due t)).map (·.grantId)) := by
    intro hmem
    rcases List.mem_map.mp hmem with ⟨g', hg', hid⟩
    rcases Table.mem_select.mp hg' with ⟨hmem', hdue⟩
    obtain rfl : g' = g := Table.eq_of_key_eq hmem' h.grant (hid.trans h.owner.symm)
    rcases hdue with hdue | hdue | hdue
    · omega
    · omega
    · rw [h.live] at hdue
      cases hdue
  have hspent : ¬ SpentCode t c := by
    rintro ⟨hkind, hexpired | hconsumed⟩
    · omega
    · rw [hcode hkind] at hconsumed
      cases hconsumed
  have hcapability : c ∈ (GatewayStore.prune t db).capabilities := by
    refine Table.mem_delete.mpr ⟨mem_deleteFamilies_capabilities.mpr ⟨Table.mem_delete.mpr ⟨h.capability, ?_⟩, hdue⟩,
      hspent⟩
    rintro ⟨-, hexpired⟩
    omega
  have hgrant : g ∈ (GatewayStore.prune t db).grants := by
    refine Table.mem_delete.mpr ⟨mem_deleteFamilies_grants.mpr ⟨h.grant, by rw [h.owner]; exact hdue⟩, ?_⟩
    -- the capability that loads is left of its grant
    rintro ⟨-, hempty⟩
    exact hempty ⟨c, hcapability, h.owner.symm⟩
  have haccounts : accountAllowed cfg (GatewayStore.prune t db) g.accountId = accountAllowed cfg db g.accountId := by
    unfold accountAllowed GatewayAccounts.accountIsActive
    rw [prune_accounts.1]
  exact ⟨hcapability, h.hash, h.kind, hgrant, h.owner, h.live, h.unconsumed, hvalid, hdeadline, hidle,
    haccounts.trans h.account, h.resource⟩

/-- Loading finds what loads. -/
theorem Loads.load_eq
    {c : CapabilityRow} {g : OAuthGrantRow} (h : Loads cfg db now kind raw includeConsumed c g) :
    load cfg db now kind raw includeConsumed = some (c, g) := by
  have hfind : db.capabilities.find? (fun c => c.tokenHash = cfg.digest raw ∧ c.kind = kind) = some c :=
    (Table.find?_eq_some_of_key (fun r hr => hr.1.trans h.hash.symm) ⟨h.hash, h.kind⟩).mpr h.capability
  have hget : db.grants.get? c.grantId = some g := Table.get?_eq_some.mpr ⟨h.grant, h.owner⟩
  have hvalid := h.valid
  have hdeadline := h.deadline
  have hidle := h.idle
  unfold load
  rw [hfind]
  dsimp only
  rw [hget]
  dsimp only
  have hlive : ¬ (g.revoked = true ∨ c.consumed = true ∧ ¬ includeConsumed = true) := by
    rintro (hrevoked | ⟨hconsumed, hexcluded⟩)
    · rw [h.live] at hrevoked
      cases hrevoked
    · exact hexcluded (h.unconsumed hconsumed)
  have hnow : ¬ min (min c.expiresAt g.expiresAt) g.idleExpiresAt ≤ now := by omega
  rw [if_neg hlive, if_neg hnow, if_neg (not_not.mpr h.account), if_neg (not_not.mpr h.resource)]

/-- A capability that loads for its presenter. -/
theorem loadCapability_eq_some {clientId raw : String}
    (h : loadCapability cfg db now kind (some clientId) raw = some token) :
    ∃ c g, load cfg db now kind raw (kind = .refresh) = some (c, g) ∧
      capabilityPayload c g = some token.claims ∧ token.claims.clientId = clientId ∧ token.raw = raw := by
  unfold loadCapability at h
  cases hload : load cfg db now kind raw (kind = .refresh) with
  | none =>
    rw [hload] at h
    cases h
  | some found =>
    rcases found with ⟨c, g⟩
    rw [hload] at h
    dsimp only at h
    cases hpayload : capabilityPayload c g with
    | none =>
      rw [hpayload] at h
      cases h
    | some claims =>
      rw [hpayload] at h
      dsimp only at h
      split at h
      · next hclient =>
        cases h
        refine ⟨c, g, rfl, hpayload, ?_, rfl⟩
        exact (of_decide_eq_true hclient).symm
      · cases h

/-! ## Replay -/

def NothingLeft (db : GatewayDB) (grantId : String) : Prop :=
  (∀ g ∈ db.grants, g.grantId ≠ grantId) ∧ ∀ c ∈ db.capabilities, c.grantId ≠ grantId

theorem nothingLeft_deleteFamily (grantId : String) : NothingLeft (deleteFamily db grantId) grantId :=
  ⟨fun _ hg => (Table.mem_delete.mp hg).2, fun _ hc => (Table.mem_delete.mp hc).2⟩

/-- A consumed refresh token that still loads for its client costs the whole grant. -/
theorem exchangeRefresh_replay {full : Bool} {c : CapabilityRow} (hle : times.pruned ≤ times.checked)
    (hload : loadCapability cfg db times.checked .refresh (some clientId) token.raw = some token)
    (hc : c ∈ db.capabilities) (hhash : c.tokenHash = cfg.digest token.raw) (hconsumed : c.consumed = true) :
    NothingLeft (exchangeRefreshToken cfg times full access refresh clientId token scopes db).2 c.grantId := by
  rcases loadCapability_eq_some hload with ⟨found, g, hfound, hclaims, hclient, -⟩
  have hfound : load cfg db times.checked .refresh token.raw true = some (found, g) := hfound
  have hloads := load_eq_some hfound
  obtain rfl : found = c := Table.eq_of_key_eq hloads.capability hc (hloads.hash.trans hhash.symm)
  have hpruned : load cfg (prune times.pruned db) times.checked .refresh token.raw true = some (found, g) := by
    refine (hloads.prune hle ?_).load_eq
    intro hkind
    rw [hloads.kind] at hkind
    cases hkind
  have hmatch : ¬ (token.claims.clientId ≠ clientId ∨ capabilityPayload found g ≠ some token.claims) := by
    rintro (hother | hother)
    · exact hother hclient
    · exact hother hclaims
  have hop : exchangeRefreshToken cfg times full access refresh clientId token scopes db =
      (.error (.token "invalid_grant" "Refresh token was already used"),
        deleteFamily (prune times.pruned db) found.grantId) := by
    unfold exchangeRefreshToken transact
    rw [if_neg (not_not.mpr rfl)]
    dsimp only
    rw [hpruned]
    dsimp only
    rw [if_neg hmatch, if_pos hconsumed]
  rw [hop]
  exact nothingLeft_deleteFamily found.grantId

/-! ## Capacity -/

/-- A code or a refresh token that its client may still exchange. -/
def Exchangeable (cfg : GatewayConfig) (db : GatewayDB) (now : Int) (kind : CapabilityKind) (clientId : String)
    (token : PresentedCapability) : Prop :=
  ∃ c g, load cfg db now kind token.raw false = some (c, g) ∧ capabilityPayload c g = some token.claims ∧
    token.claims.clientId = clientId

/-- A code whose exchange is refused for capacity is still exchangeable. -/
theorem exchangeCode_capacity {full : Bool} {code : PresentedCapability}
    (h : (exchangeAuthorizationCode cfg times full access refresh clientId code db).1 = .error .capacity) :
    Exchangeable cfg (exchangeAuthorizationCode cfg times full access refresh clientId code db).2
      times.checked .code clientId code := by
  unfold exchangeAuthorizationCode at h ⊢
  rcases @transact_cases times.pruned db OAuthToken _ with ⟨a, after, -, heq⟩ | ⟨hop, heq⟩ | ⟨e, hne, -, heq⟩
  · rw [heq] at h
    cases h
  · rw [heq]
    dsimp only at hop
    split at hop
    · cases hop
    · next c g hload =>
      split at hop
      · cases hop
      · next hmatch =>
        rcases not_or.mp hmatch with ⟨hclient, hclaims⟩
        exact ⟨c, g, hload, not_not.mp hclaims, not_not.mp hclient⟩
  · rw [heq] at h
    cases h
    exact absurd rfl hne

/-- A refresh token whose exchange is refused for capacity is still exchangeable. -/
theorem exchangeRefresh_capacity {full : Bool} {requested : List String}
    (h : (exchangeRefreshToken cfg times full access refresh clientId token requested db).1 = .error .capacity) :
    Exchangeable cfg (exchangeRefreshToken cfg times full access refresh clientId token requested db).2
      times.checked .refresh clientId token := by
  unfold exchangeRefreshToken at h ⊢
  split at h
  · cases h
  · next hscopes =>
    rw [if_neg hscopes]
    dsimp only at h ⊢
    rcases @transact_cases times.pruned db (Option OAuthToken) _ with
      ⟨a, after, -, heq⟩ | ⟨hop, heq⟩ | ⟨e, hne, -, heq⟩
    · rw [heq] at h
      cases a
      · cases h
      · cases h
    · rw [heq]
      split at hop
      · cases hop
      · next c g hload =>
        split at hop
        · cases hop
        · next hmatch =>
          split at hop
          · cases hop
          · next hlive =>
            rcases not_or.mp hmatch with ⟨hclient, hclaims⟩
            have hloads := load_eq_some hload
            have hunconsumed : Loads cfg (prune times.pruned db) times.checked .refresh token.raw false c g :=
              { hloads with unconsumed := fun hconsumed => absurd hconsumed hlive }
            exact ⟨c, g, hunconsumed.load_eq, not_not.mp hclaims, not_not.mp hclient⟩
    · rw [heq] at h
      cases h
      exact absurd rfl hne

/-- A result that is refused for capacity at most. -/
def DoneOrFull {α : Type} (result : Except GatewayError α) : Prop :=
  (∃ a, result = .ok a) ∨ result = .error .capacity

/-- Under new hashes a pair is issued, unless capacity is refused. -/
theorem issueTokens_doneOrFull {full : Bool} {access refresh : String} {c : CapabilityRow} {g : OAuthGrantRow}
    (haccess : ∀ r ∈ db.capabilities, r.tokenHash ≠ cfg.digest access)
    (hrefresh : ∀ r ∈ db.capabilities, r.tokenHash ≠ cfg.digest refresh)
    (hne : cfg.digest access ≠ cfg.digest refresh) : DoneOrFull (issueTokens cfg now full access refresh c g db) := by
  rcases @Table.exists_insert? _ _ _ db.capabilities _ (accessRow cfg now g access) haccess with
    ⟨capabilities, hfirst⟩
  have hother : ∀ r ∈ capabilities, key r ≠ key (refreshRow cfg g refresh) := by
    intro r hr
    rcases (Table.mem_insert? hfirst).mp hr with hold | rfl
    · exact hrefresh r hold
    · exact hne
  rcases Table.exists_insert? hother with ⟨capabilities', hsecond⟩
  unfold issueTokens saveCapability
  split
  · exact .inr rfl
  · rw [hfirst]
    dsimp only [Bind.bind, Except.bind]
    rw [hsecond]
    cases full with
    | false => exact .inl ⟨_, rfl⟩
    | true => exact .inr rfl

/-- New secrets get a pair, whatever pruning and consuming came before. -/
theorem FamilyInv.issue_doneOrFull {full : Bool} {access refresh : String} {c : CapabilityRow}
    {g : OAuthGrantRow} (h : FamilyInv cfg w) (hdigest : Function.Injective cfg.digest)
    (hsecrets : (access :: refresh :: w.secrets).Nodup) (hspent : Consumes (prune t w.db) db) :
    DoneOrFull (issueTokens cfg now full access refresh c g db) := by
  rcases List.nodup_cons.mp hsecrets with ⟨haccess, hrest⟩
  have hrefresh := (List.nodup_cons.mp hrest).1
  have hnew : ∀ s, s ∉ w.secrets → ∀ r ∈ db.capabilities, r.tokenHash ≠ cfg.digest s := by
    intro s hs r hr heq
    rcases hspent.old r hr with ⟨r', hr', hsame⟩
    rcases h.hashes r' ((@shrinks_prune t w.db).capabilities r' hr') with ⟨s', hs', hhash⟩
    have hsecret : s = s' := hdigest (heq.symm.trans (hsame.1.trans hhash))
    exact hs (hsecret ▸ hs')
  refine issueTokens_doneOrFull (hnew access ?_) (hnew refresh hrefresh) ?_
  · exact fun hold => haccess (List.mem_cons_of_mem _ hold)
  · intro heq
    exact haccess (hdigest heq ▸ List.mem_cons_self)

/-- Exchanging an exchangeable code is refused for capacity at most. -/
theorem exchangeCode_doneOrFull {full : Bool}
    {code : PresentedCapability} (h : FamilyInv cfg w) (hdigest : Function.Injective cfg.digest)
    (hle : times.pruned ≤ times.checked) (hsecrets : (access :: refresh :: w.secrets).Nodup)
    (hopen : Exchangeable cfg w.db times.checked .code clientId code) :
    DoneOrFull (exchangeAuthorizationCode cfg times full access refresh clientId code w.db).1 := by
  rcases hopen with ⟨c, g, hload, hclaims, hclient⟩
  have hloads := load_eq_some hload
  have hpruned : load cfg (prune times.pruned w.db) times.checked .code code.raw false = some (c, g) := by
    refine (hloads.prune hle fun _ => ?_).load_eq
    exact Bool.eq_false_iff.mpr fun hconsumed => by cases hloads.unconsumed hconsumed
  have hmatch : ¬ (code.claims.clientId ≠ clientId ∨ capabilityPayload c g ≠ some code.claims) := by
    rintro (hother | hother)
    · exact hother hclient
    · exact hother hclaims
  have hspent := @consumes_update (prune times.pruned w.db) (fun r => r.tokenHash = cfg.digest code.raw) _
    (fun r => { r with consumed := true }) (by intro _; rfl) (fun _ => ⟨rfl, rfl, rfl, rfl, rfl, fun _ => rfl⟩)
  unfold exchangeAuthorizationCode transact
  dsimp only
  rw [hpruned]
  dsimp only
  rw [if_neg hmatch]
  rcases @FamilyInv.issue_doneOrFull cfg w _ _ times.issued full access refresh c g h hdigest hsecrets hspent with
    ⟨issued, heq⟩ | heq
  · rw [heq]
    exact .inl ⟨_, rfl⟩
  · rw [heq]
    exact .inr rfl

/-- Exchanging an exchangeable refresh token is refused for capacity at most. -/
theorem exchangeRefresh_doneOrFull {full : Bool} (h : FamilyInv cfg w) (hdigest : Function.Injective cfg.digest)
    (hle : times.pruned ≤ times.checked) (hsecrets : (access :: refresh :: w.secrets).Nodup)
    (hopen : Exchangeable cfg w.db times.checked .refresh clientId token) :
    DoneOrFull (exchangeRefreshToken cfg times full access refresh clientId token scopes w.db).1 := by
  rcases hopen with ⟨c, g, hload, hclaims, hclient⟩
  have hloads := load_eq_some hload
  have hlive : ¬ c.consumed = true := fun hconsumed => by cases hloads.unconsumed hconsumed
  have hpruned : load cfg (prune times.pruned w.db) times.checked .refresh token.raw true = some (c, g) := by
    have hkept := hloads.prune hle fun _ => Bool.eq_false_iff.mpr hlive
    have hall : Loads cfg (prune times.pruned w.db) times.checked .refresh token.raw true c g :=
      { hkept with unconsumed := fun _ => rfl }
    exact hall.load_eq
  have hmatch : ¬ (token.claims.clientId ≠ clientId ∨ capabilityPayload c g ≠ some token.claims) := by
    rintro (hother | hother)
    · exact hother hclient
    · exact hother hclaims
  unfold exchangeRefreshToken transact
  rw [if_neg (not_not.mpr rfl)]
  dsimp only
  rw [hpruned]
  dsimp only
  rw [if_neg hmatch, if_neg hlive]
  rcases @FamilyInv.issue_doneOrFull cfg w _ _ times.issued full access refresh c g h hdigest hsecrets
    (consumes_consumeTokens c.grantId) with ⟨issued, heq⟩ | heq
  · rw [heq]
    exact .inl ⟨_, rfl⟩
  · rw [heq]
    exact .inr rfl

/-! ## What later steps do not bring back -/

/-- Grants and capabilities are the older ones, or come with a secret that is new. -/
structure Continues (cfg : GatewayConfig) (w w' : GatewayWorld) : Prop where
  secrets : ∀ s ∈ w.secrets, s ∈ w'.secrets
  grants : ∀ g' ∈ w'.db.grants, (∃ g ∈ w.db.grants, g.grantId = g'.grantId) ∨ g'.grantId ∉ w.secrets
  capabilities : ∀ c' ∈ w'.db.capabilities,
    (∃ c ∈ w.db.capabilities, c.tokenHash = c'.tokenHash ∧ c.grantId = c'.grantId) ∨
      ∃ s, s ∉ w.secrets ∧ c'.tokenHash = cfg.digest s

theorem Continues.refl : Continues cfg w w :=
  ⟨fun _ hs => hs, fun g hg => .inl ⟨g, hg, rfl⟩, fun c hc => .inl ⟨c, hc, rfl, rfl⟩⟩

theorem Continues.trans (h : Continues cfg w w') (h' : Continues cfg w' w'') : Continues cfg w w'' where
  secrets s hs := h'.secrets s (h.secrets s hs)
  grants g'' hg'' := by
    rcases h'.grants g'' hg'' with ⟨g', hg', hid⟩ | hnew
    · rw [← hid]
      exact h.grants g' hg'
    · exact .inr fun hold => hnew (h.secrets _ hold)
  capabilities c'' hc'' := by
    rcases h'.capabilities c'' hc'' with ⟨c', hc', hhash, hid⟩ | ⟨s, hnew, hhash⟩
    · rw [← hhash, ← hid]
      exact h.capabilities c' hc'
    · exact .inr ⟨s, fun hold => hnew (h.secrets s hold), hhash⟩

/-- The step of an operation that only takes rows away. -/
theorem continues_of_shrinks {label : GatewayLabel} (hstep : gatewayStep cfg label w w')
    (hdb : Shrinks t w.db (label.db cfg w.db)) : Continues cfg w w' := by
  rcases hstep with ⟨-, -, rfl⟩
  refine ⟨fun s hs => List.mem_append_right _ hs, ?_, fun c hc => .inl ⟨c, hdb.capabilities c hc, rfl, rfl⟩⟩
  intro g' hg'
  rcases hdb.grants g' hg' with ⟨g, hg, hsame⟩
  exact .inl ⟨g, hg, hsame.1.symm⟩

/-- The rows after a pair of tokens. -/
theorem PairIssued.capability {access refresh : String} {c r : CapabilityRow} {g : OAuthGrantRow}
    (h : PairIssued cfg now access refresh c g db db') (hr : r ∈ db'.capabilities) :
    r ∈ db.capabilities ∨ r.tokenHash = cfg.digest access ∨ r.tokenHash = cfg.digest refresh := by
  rcases h.rows with ⟨capabilities, capabilities', hfirst, hsecond, rfl⟩
  rcases (Table.mem_insert? hsecond).mp hr with hr | rfl
  · rcases (Table.mem_insert? hfirst).mp hr with hr | rfl
    · exact .inl hr
    · exact .inr (.inl rfl)
  · exact .inr (.inr rfl)

theorem PairIssued.grant {access refresh : String} {c : CapabilityRow} {g g' : OAuthGrantRow}
    (h : PairIssued cfg now access refresh c g db db') (hg' : g' ∈ db'.grants) : ∃ g₀ ∈ db.grants, SameGrant g₀ g' := by
  rcases h.rows with ⟨capabilities, capabilities', -, -, rfl⟩
  exact (shrinks_touchGrant (t := now) c.grantId now cfg.idleTtl false).grants g' hg'

/-- The grants after an exchange are those before it. -/
theorem PairIssued.pruned_grant {access refresh : String} {c : CapabilityRow} {g g' : OAuthGrantRow}
    {spent : GatewayDB} (h : PairIssued cfg now access refresh c g spent db') (hspent : Consumes (prune t db) spent)
    (hg' : g' ∈ db'.grants) : ∃ g₀ ∈ db.grants, SameGrant g₀ g' := by
  rcases h.grant hg' with ⟨g₀, hg₀, hsame⟩
  rw [hspent.grants] at hg₀
  rcases (@shrinks_prune t db).grants g₀ hg₀ with ⟨g₁, hg₁, hsame₁⟩
  exact ⟨g₁, hg₁, hsame₁.trans hsame⟩

/-- The step of an exchange that issues a pair. -/
theorem continues_of_pair {label : GatewayLabel} {access refresh : String} {c : CapabilityRow}
    {g : OAuthGrantRow} {spent : GatewayDB} (hstep : gatewayStep cfg label w w')
    (hlabel : label.secrets = [access, refresh]) (hspent : Consumes (prune t w.db) spent)
    (hpair : PairIssued cfg now access refresh c g spent (label.db cfg w.db)) : Continues cfg w w' := by
  rcases hstep with ⟨-, hsecrets, rfl⟩
  rw [hlabel] at hsecrets
  rcases List.nodup_cons.mp hsecrets with ⟨haccess, hrest⟩
  refine ⟨fun s hs => List.mem_append_right _ hs, ?_, ?_⟩
  · intro g' hg'
    rcases hpair.pruned_grant hspent hg' with ⟨g₀, hg₀, hsame⟩
    exact .inl ⟨g₀, hg₀, hsame.1.symm⟩
  · intro r hr
    rcases hpair.capability hr with hr | hhash | hhash
    · rcases hspent.old r hr with ⟨r₀, hr₀, hsame⟩
      exact .inl ⟨r₀, (@shrinks_prune t w.db).capabilities r₀ hr₀, hsame.1.symm, hsame.2.2.1.symm⟩
    · exact .inr ⟨access, fun hold => haccess (List.mem_cons_of_mem _ hold), hhash⟩
    · exact .inr ⟨refresh, (List.nodup_cons.mp hrest).1, hhash⟩

theorem continues_authorize {full : Bool} {registered : Option ClientRow}
    {params : AuthorizationParams} {state : String}
    (hstep : gatewayStep cfg (.authorize times full registered params state) w w') : Continues cfg w w' := by
  rcases @authorize_effect w.db cfg times full registered params state with ⟨mid, hmid, hg, hc, -⟩
  rcases hstep with ⟨-, -, rfl⟩
  refine ⟨fun s hs => List.mem_append_right _ hs, ?_, ?_⟩
  · intro g' hg'
    have hg' : g' ∈ mid.grants := hg ▸ hg'
    rcases hmid.grants g' hg' with ⟨g, hg, hsame⟩
    exact .inl ⟨g, hg, hsame.1.symm⟩
  · intro c hc'
    have hc' : c ∈ mid.capabilities := hc ▸ hc'
    exact .inl ⟨c, hmid.capabilities c hc', rfl, rfl⟩

theorem continues_finishConsent {full allow : Bool} {grantId code state requesterId
    authenticatedUserId csrfToken : String} {accountId : Option String}
    (hstep : gatewayStep cfg (.finishConsent times full grantId code state requesterId
      authenticatedUserId csrfToken allow accountId) w w') : Continues cfg w w' := by
  rcases @finishConsent_effect w.db cfg times full allow grantId code state requesterId
      authenticatedUserId csrfToken accountId with ⟨hshrinks, -⟩ | ⟨callback, row, -, -, happroved⟩
  · exact continues_of_shrinks hstep hshrinks
  · rcases hstep with ⟨-, hsecrets, rfl⟩
    rcases List.nodup_cons.mp hsecrets with ⟨hid, hrest⟩
    refine ⟨fun s hs => List.mem_append_right _ hs, ?_, ?_⟩
    · intro g' hg'
      rcases (Table.mem_insert? happroved.grants).mp hg' with hold | rfl
      · rcases (@shrinks_prune times.pruned w.db).grants g' hold with ⟨g, hg, hsame⟩
        exact .inl ⟨g, hg, hsame.1.symm⟩
      · exact .inr fun hold => hid (List.mem_cons_of_mem _ hold)
    · intro c hc
      rcases (Table.mem_insert? happroved.capabilities).mp hc with hold | rfl
      · exact .inl ⟨c, (@shrinks_prune times.pruned w.db).capabilities c hold, rfl, rfl⟩
      · exact .inr ⟨code, (List.nodup_cons.mp hrest).1, rfl⟩

theorem continues_step {label : GatewayLabel} (hstep : gatewayStep cfg label w w') : Continues cfg w w' := by
  cases label with
  | getClient => exact continues_of_shrinks hstep shrinks_getClient
  | registerClient => exact continues_of_shrinks hstep shrinks_registerClient
  | authorize => exact continues_authorize hstep
  | beginConsent => exact continues_of_shrinks hstep shrinks_beginConsent
  | finishConsent => exact continues_finishConsent hstep
  | exchangeCode times full access refresh clientId code =>
    rcases @exchangeCode_effect w.db cfg times full access refresh clientId code with
      ⟨hshrinks, -⟩ | ⟨pair, c, g, -, -, hpair⟩
    · exact continues_of_shrinks hstep hshrinks
    · refine continues_of_pair hstep rfl (consumes_update (by intro _; rfl) ?_) hpair
      exact fun _ => ⟨rfl, rfl, rfl, rfl, rfl, fun _ => rfl⟩
  | exchangeRefresh times full access refresh clientId token requested =>
    rcases @exchangeRefresh_effect w.db cfg times full access refresh clientId token requested with
      ⟨hshrinks, -⟩ | ⟨pair, c, g, -, -, -, hpair⟩
    · exact continues_of_shrinks hstep hshrinks
    · exact continues_of_pair hstep rfl (consumes_consumeTokens c.grantId) hpair
  | revokeToken => exact continues_of_shrinks hstep shrinks_revokeToken
  | recordUse => exact continues_of_shrinks hstep shrinks_recordUse
  | revokeGrants => exact continues_of_shrinks hstep shrinks_revokeGrants
  | createAccount => exact continues_of_shrinks hstep shrinks_createAccount
  | updateAccount => exact continues_of_shrinks hstep shrinks_updateAccount
  | deleteAccount => exact continues_of_shrinks hstep shrinks_deleteAccount

theorem continues_run (h : (gatewaySystem cfg).Run w w') : Continues cfg w w' :=
  h.preserves (P := Continues cfg w) (fun _ _ _ ht hstep => ht.trans (continues_step hstep)) .refl

/-- A secret of a capability is known. -/
theorem FamilyInv.secret_of_load (h : FamilyInv cfg w) (hdigest : Function.Injective cfg.digest)
    {c : CapabilityRow} {g : OAuthGrantRow}
    (hload : Loads cfg w.db now kind raw includeConsumed c g) : raw ∈ w.secrets := by
  rcases h.hashes c hload.capability with ⟨s, hs, hhash⟩
  have hsame : s = raw := hdigest (hhash.symm.trans hload.hash)
  exact hsame ▸ hs

/-- The rows of a known secret are the older ones. -/
theorem Continues.row_of_secret (h : Continues cfg w w') (hdigest : Function.Injective cfg.digest)
    {c' : CapabilityRow} (hraw : raw ∈ w.secrets) (hc' : c' ∈ w'.db.capabilities)
    (hhash : c'.tokenHash = cfg.digest raw) :
    ∃ c ∈ w.db.capabilities, c.tokenHash = cfg.digest raw ∧ c.grantId = c'.grantId := by
  rcases h.capabilities c' hc' with ⟨c, hc, hsame, hid⟩ | ⟨s, hnew, hs⟩
  · exact ⟨c, hc, hsame.trans hhash, hid⟩
  · have hsame : s = raw := hdigest (hs.symm.trans hhash)
    exact absurd (hsame ▸ hraw) hnew

/-- A capability whose grant is gone never loads again. -/
theorem load_none_of_gone (hdigest : Function.Injective cfg.digest) (hreach : (gatewaySystem cfg).Reachable w)
    (hrun : (gatewaySystem cfg).Run w w') (hrun' : (gatewaySystem cfg).Run w' w'') {now now' : Int}
    {kind kind' : CapabilityKind} {includeConsumed includeConsumed' : Bool} {c : CapabilityRow}
    {g : OAuthGrantRow} (hload : load cfg w.db now kind raw includeConsumed = some (c, g))
    (hgone : ∀ g' ∈ w'.db.grants, g'.grantId ≠ c.grantId) : load cfg w''.db now' kind' raw includeConsumed' = none := by
  have hinv := (familyInv_invariant hdigest).reachable hreach
  have hinv' := (familyInv_invariant hdigest).reachable (hreach.run hrun)
  have hloads := load_eq_some hload
  have hraw := hinv.secret_of_load hdigest hloads
  cases hlate : load cfg w''.db now' kind' raw includeConsumed' with
  | none => rfl
  | some found =>
    rcases found with ⟨c'', g''⟩
    exfalso
    have hlate := load_eq_some hlate
    rcases (continues_run hrun').row_of_secret hdigest ((continues_run hrun).secrets raw hraw) hlate.capability
      hlate.hash with ⟨c', hc', hhash', -⟩
    rcases (continues_run hrun).row_of_secret hdigest hraw hc' hhash' with ⟨c₀, hc₀, hhash₀, hid₀⟩
    obtain rfl : c₀ = c := Table.eq_of_key_eq hc₀ hloads.capability (hhash₀.trans hloads.hash.symm)
    rcases hinv'.owned c' hc' with ⟨g', hg', hid'⟩
    exact hgone g' hg' (hid'.trans hid₀.symm)

/-! ## Grant families -/

/-- What holds of the families of grants in every reachable state. -/
structure GrantFamilies (cfg : GatewayConfig) (w : GatewayWorld) : Prop where
  /-- Each consent state yields at most one grant. -/
  consents : (w.granted.map (·.state)).Nodup
  /-- A code that is exchanged was not exchanged before, and is from then on. -/
  codes : ∀ t full access refresh clientId code pair,
    (exchangeAuthorizationCode cfg t full access refresh clientId code w.db).1 = .ok pair →
    code.raw ∉ w.exchanged ∧ ∀ w', gatewayStep cfg (.exchangeCode t full access refresh clientId code) w w' →
      code.raw ∈ w'.exchanged
  refreshes : ∀ t full access refresh clientId token requested pair,
    (exchangeRefreshToken cfg t full access refresh clientId token requested w.db).1 = .ok pair →
    token.raw ∉ w.exchanged ∧
      ∀ w', gatewayStep cfg (.exchangeRefresh t full access refresh clientId token requested) w w' →
        token.raw ∈ w'.exchanged
  exchanged : w.exchanged.Nodup ∧ ∀ w', (gatewaySystem cfg).Run w w' → ∀ raw ∈ w.exchanged, raw ∈ w'.exchanged
  /-- Presenting a consumed refresh token, with the scope it was issued for, removes the grant. -/
  replay : ∀ t full access refresh clientId token, t.pruned ≤ t.checked →
    loadCapability cfg w.db t.checked .refresh (some clientId) token.raw = some token →
    ∀ c ∈ w.db.capabilities, c.tokenHash = cfg.digest token.raw → c.consumed = true →
    NothingLeft (exchangeRefreshToken cfg t full access refresh clientId token scopes w.db).2 c.grantId
  /-- A grant has at most one live access token and one live refresh token. -/
  single : ∀ c ∈ w.db.capabilities, ∀ c' ∈ w.db.capabilities, c'.grantId = c.grantId → c'.kind = c.kind →
    Live c → Live c' → c' = c
  /-- What loads has its grant, before the deadline the grant got. -/
  deadline : ∀ now kind raw includeConsumed c g, load cfg w.db now kind raw includeConsumed = some (c, g) →
    g ∈ w.db.grants ∧ g.grantId = c.grantId ∧ ∃ r ∈ w.granted, r.grantId = c.grantId ∧ now < r.deadline
  /-- What loaded does not load after its grant is gone. -/
  gone : ∀ now kind raw includeConsumed c g, load cfg w.db now kind raw includeConsumed = some (c, g) →
    ∀ w', (gatewaySystem cfg).Run w w' → (∀ g' ∈ w'.db.grants, g'.grantId ≠ c.grantId) →
    ∀ w'', (gatewaySystem cfg).Run w' w'' → ∀ now' kind' includeConsumed',
      load cfg w''.db now' kind' raw includeConsumed' = none
  limited : ∀ grantId start, (w.issued.filter fun e => e.grantId = grantId ∧ start ≤ e.issuedAt ∧
    e.issuedAt < start + 60 * second).length ≤ 6
  /-- A refusal for capacity leaves what was presented exchangeable. -/
  codeCapacity : ∀ t full access refresh clientId code,
    (exchangeAuthorizationCode cfg t full access refresh clientId code w.db).1 = .error .capacity →
    Exchangeable cfg (exchangeAuthorizationCode cfg t full access refresh clientId code w.db).2 t.checked .code
      clientId code
  refreshCapacity : ∀ t full access refresh clientId token requested,
    (exchangeRefreshToken cfg t full access refresh clientId token requested w.db).1 = .error .capacity →
    Exchangeable cfg (exchangeRefreshToken cfg t full access refresh clientId token requested w.db).2 t.checked
      .refresh clientId token
  /-- Exchanging what is exchangeable succeeds, or is refused for capacity. -/
  retry : ∀ t full access refresh clientId token, t.pruned ≤ t.checked → (access :: refresh :: w.secrets).Nodup →
    (Exchangeable cfg w.db t.checked .code clientId token →
      DoneOrFull (exchangeAuthorizationCode cfg t full access refresh clientId token w.db).1) ∧
    (Exchangeable cfg w.db t.checked .refresh clientId token →
      DoneOrFull (exchangeRefreshToken cfg t full access refresh clientId token scopes w.db).1)

/-- Something that was exchanged stays so. -/
theorem exchanged_run (h : (gatewaySystem cfg).Run w w') : ∀ raw ∈ w.exchanged, raw ∈ w'.exchanged := by
  refine h.preserves (P := fun t => ∀ raw ∈ w.exchanged, raw ∈ t.exchanged) ?_ fun _ hraw => hraw
  rintro label t t' ht ⟨-, -, rfl⟩ raw hraw
  exact List.mem_append_right _ (ht raw hraw)

/-- What a step exchanged is in the history. -/
theorem exchanged_step {label : GatewayLabel} {e : Exchanged} (h : label.exchanged cfg w.db = some e)
    (hstep : gatewayStep cfg label w w') : e.raw ∈ w'.exchanged := by
  rcases hstep with ⟨-, -, rfl⟩
  rw [h]
  exact List.mem_cons_self

/-- What a capability that was found unconsumed has not been exchanged. -/
theorem FamilyInv.not_exchanged (h : FamilyInv cfg w) {c : CapabilityRow} {g : OAuthGrantRow}
    (hload : Loads cfg (prune t w.db) now kind raw includeConsumed c g) (hlive : c.consumed = false) :
    raw ∉ w.exchanged := by
  intro hold
  have hconsumed := (h.exchanged.2 raw hold).2 c ((@shrinks_prune t w.db).capabilities c hload.capability) hload.hash
  rw [hlive] at hconsumed
  cases hconsumed

theorem FamilyInv.code_once (h : FamilyInv cfg w) {full : Bool} {code : PresentedCapability} {pair : OAuthToken}
    (hok : (exchangeAuthorizationCode cfg times full access refresh clientId code w.db).1 = .ok pair) :
    code.raw ∉ w.exchanged ∧ ∀ w', gatewayStep cfg (.exchangeCode times full access refresh clientId code) w w' →
      code.raw ∈ w'.exchanged := by
  rcases @exchangeCode_effect w.db cfg times full access refresh clientId code with
    ⟨-, hrefused⟩ | ⟨pair', c, g, hok', hload, -⟩
  · exact absurd hok (hrefused pair)
  · refine ⟨h.not_exchanged hload (Bool.eq_false_iff.mpr fun hc => by cases hload.unconsumed hc), ?_⟩
    intro w' hstep
    refine @exchanged_step cfg w w' _ ⟨code.raw, c.grantId, access, times.issued⟩ ?_ hstep
    unfold GatewayLabel.exchanged
    dsimp only
    rw [hok']
    exact exchangedOf_eq hload

theorem FamilyInv.refresh_once (h : FamilyInv cfg w) {full : Bool} {requested : List String} {pair : OAuthToken}
    (hok : (exchangeRefreshToken cfg times full access refresh clientId token requested w.db).1 = .ok pair) :
    token.raw ∉ w.exchanged ∧
      ∀ w', gatewayStep cfg (.exchangeRefresh times full access refresh clientId token requested) w w' →
        token.raw ∈ w'.exchanged := by
  rcases @exchangeRefresh_effect w.db cfg times full access refresh clientId token requested with
    ⟨-, hrefused⟩ | ⟨pair', c, g, hok', hlive, hload, -⟩
  · exact absurd hok (hrefused pair)
  · refine ⟨h.not_exchanged hload hlive, ?_⟩
    intro w' hstep
    refine @exchanged_step cfg w w' _ ⟨token.raw, c.grantId, access, times.issued⟩ ?_ hstep
    unfold GatewayLabel.exchanged
    dsimp only
    rw [hok']
    exact exchangedOf_eq hload

theorem Limited.window {issued : List IssuedAccess} (h : Limited issued) (grantId : String) (start : Int) :
    (issued.filter fun e => e.grantId = grantId ∧ start ≤ e.issuedAt ∧
      e.issuedAt < start + 60 * second).length ≤ 6 := by
  have hin : ∀ e ∈ issued.filter (fun e => e.grantId = grantId ∧ start ≤ e.issuedAt ∧
      e.issuedAt < start + 60 * second), e.grantId = grantId ∧ start ≤ e.issuedAt ∧
        e.issuedAt < start + 60 * second := by
    intro e he
    exact of_decide_eq_true (List.mem_filter.mp he).2
  refine h grantId _ List.filter_sublist (fun e he => (hin e he).1) ?_
  intro e he e' he'
  have hfirst := hin e he
  have hsecond := hin e' he'
  omega

/-- In every run of the gateway, with an injective digest, the families of grants are as they
should be. -/
theorem grant_families (hdigest : Function.Injective cfg.digest) (hreach : (gatewaySystem cfg).Reachable w) :
    GrantFamilies cfg w := by
  have h := (familyInv_invariant hdigest).reachable hreach
  exact
    { consents := h.states
      codes := fun _ _ _ _ _ _ _ hok => h.code_once hok
      refreshes := fun _ _ _ _ _ _ _ _ hok => h.refresh_once hok
      exchanged := ⟨h.exchanged.1, fun _ hrun => exchanged_run hrun⟩
      replay := fun _ _ _ _ _ _ hle hload _ hc hhash hconsumed =>
        exchangeRefresh_replay hle hload hc hhash hconsumed
      single := h.single
      deadline := by
        intro now kind raw includeConsumed c g hload
        have hloads := load_eq_some hload
        rcases (h.grantIds g hloads.grant).2.2 with ⟨r, hr, hid, hdeadline⟩
        refine ⟨hloads.grant, hloads.owner, r, hr, hid.trans hloads.owner, ?_⟩
        rw [hdeadline]
        exact hloads.deadline
      gone := fun _ _ _ _ _ _ hload _ hrun hgone _ hrun' _ _ _ =>
        load_none_of_gone hdigest hreach hrun hrun' hload hgone
      limited := h.limited.window
      codeCapacity := fun _ _ _ _ _ _ hfull => exchangeCode_capacity hfull
      refreshCapacity := fun _ _ _ _ _ _ _ hfull => exchangeRefresh_capacity hfull
      retry := fun _ _ _ _ _ _ hle hsecrets =>
        ⟨fun hopen => exchangeCode_doneOrFull h hdigest hle hsecrets hopen,
          fun hopen => exchangeRefresh_doneOrFull h hdigest hle hsecrets hopen⟩ }

namespace TokenRotation

def config : GatewayConfig where
  resourceUrl := "https://host/mcp"
  accountsRequired := false
  idleTtl := 1000 * second
  grantTtl := 5000 * second
  digest := id

def moment (seconds : Int) : ClockReadings := ⟨seconds * second, seconds * second, seconds * second⟩

def client : ClientRow := ⟨"client", none, ["https://app/callback"], 86401 * second⟩

def request : AuthorizationParams where
  state := none
  scopes := ["mcp:tools"]
  codeChallenge := "0123456789012345678901234567890123456789012"
  redirectUri := "https://app/callback"
  redirectUriProvidedExplicitly := true
  resource := "https://host/mcp"

def next (cfg : GatewayConfig) (label : GatewayLabel) (w : GatewayWorld) : GatewayWorld where
  db := label.db cfg w.db
  clock := label.times.getLastD w.clock
  secrets := label.secrets ++ w.secrets
  granted := label.granted cfg w.db ++ w.granted
  exchanged := ((label.exchanged cfg w.db).map (·.raw)).toList ++ w.exchanged
  issued := ((label.exchanged cfg w.db).map fun e => ⟨e.grantId, e.access, e.issuedAt⟩).toList ++ w.issued

def claims (expiresAt : Int) : CapabilityPayload where
  clientId := "client"
  scopes := ["mcp:tools"]
  expiresAt := expiresAt
  resource := "https://host/mcp"
  requesterId := "@u:h"
  authenticatedUserId := "u"
  grantId := "grant"
  accountId := none

def code : PresentedCapability where
  raw := "code"
  claims := { claims (304 * second) with
    binding := some ⟨"0123456789012345678901234567890123456789012", "https://app/callback", true⟩ }

def refreshToken : PresentedCapability := ⟨"refresh", claims (5004 * second)⟩

def empty : GatewayWorld := ⟨⟨∅, ∅, ∅, ∅, ∅, []⟩, 0, [], [], [], []⟩

def registered : GatewayWorld := next config (.registerClient (moment 1) false "client" none ["https://app/callback"]) empty

def requested : GatewayWorld := next config (.authorize (moment 2) false (some client) request "state") registered

def shown : GatewayWorld := next config (.beginConsent (moment 3) false "csrf" "state" "@u:h" "u" none) requested

def consented : GatewayWorld :=
  next config (.finishConsent (moment 4) false "grant" "code" "state" "@u:h" "u" "csrf" true none) shown

def started : GatewayWorld := next config (.exchangeCode (moment 5) false "access" "refresh" "client" code) consented

/-- The first refresh token is consumed. -/
def rotated : GatewayWorld :=
  next config (.exchangeRefresh (moment 6) false "access₂" "refresh₂" "client" refreshToken ["mcp:tools"]) started

theorem rotated_reachable : (gatewaySystem config).Reachable rotated := by
  have hempty : (gatewaySystem config).Reachable empty := .start ⟨rfl, rfl, rfl, rfl, rfl⟩
  have hregistered : (gatewaySystem config).Reachable registered :=
    hempty.next (.registerClient (moment 1) false "client" none ["https://app/callback"])
      ⟨by decide +kernel, by decide +kernel, rfl⟩
  have hrequested : (gatewaySystem config).Reachable requested :=
    hregistered.next (.authorize (moment 2) false (some client) request "state")
      ⟨by decide +kernel, by decide +kernel, rfl⟩
  have hshown : (gatewaySystem config).Reachable shown :=
    hrequested.next (.beginConsent (moment 3) false "csrf" "state" "@u:h" "u" none)
      ⟨by decide +kernel, by decide +kernel, rfl⟩
  have hconsented : (gatewaySystem config).Reachable consented :=
    hshown.next (.finishConsent (moment 4) false "grant" "code" "state" "@u:h" "u" "csrf" true none)
      ⟨by decide +kernel, by decide +kernel, rfl⟩
  have hstarted : (gatewaySystem config).Reachable started :=
    hconsented.next (.exchangeCode (moment 5) false "access" "refresh" "client" code)
      ⟨by decide +kernel, by decide +kernel, rfl⟩
  exact hstarted.next (.exchangeRefresh (moment 6) false "access₂" "refresh₂" "client" refreshToken ["mcp:tools"])
    ⟨by decide +kernel, by decide +kernel, rfl⟩

/-- The first refresh token and the grant, after the rotation. -/
theorem rotated_consumed :
    (loadCapability config rotated.db (moment 7).checked .refresh (some "client") "refresh" = some refreshToken ∧
      ∃ c ∈ rotated.db.capabilities.rows, c.tokenHash = "refresh" ∧ c.consumed = true ∧ c.grantId = "grant") ∧
    ∃ g ∈ rotated.db.grants.rows, g.grantId = "grant" := by
  decide +kernel

theorem rotated_families : GrantFamilies config rotated :=
  grant_families Function.injective_id rotated_reachable

/-- The replay goes unnoticed where the scope is spelled in another way. -/
theorem replay_keeps_grant : ¬ ∀ w, (gatewaySystem config).Reachable w →
    ∀ t full access refresh clientId token requested, t.pruned ≤ t.checked →
    loadCapability config w.db t.checked .refresh (some clientId) token.raw = some token →
    ∀ c ∈ w.db.capabilities, c.tokenHash = config.digest token.raw → c.consumed = true →
    NothingLeft (exchangeRefreshToken config t full access refresh clientId token requested w.db).2 c.grantId := by
  intro hall
  rcases rotated_consumed with ⟨⟨hload, c, hc, hhash, hconsumed, hid⟩, g, hg, hgid⟩
  have hnothing := hall rotated rotated_reachable (moment 7) false "access₃" "refresh₃" "client" refreshToken
    ["mcp:tools", "mcp:tools"] (Int.le_refl _) hload c hc hhash hconsumed
  exact hnothing.1 g hg (hgid.trans hid.symm)

end TokenRotation

end MindRoom
