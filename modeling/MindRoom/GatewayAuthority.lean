import MindRoom.GatewayGrants

/-! # Accounts and the authority they give

The history of the accounts says what every statement made of an account. The row of an account,
the grants bound to it and the cutoff of its external tokens are kept in line with that history,
statement by statement.
-/

namespace MindRoom

open GatewayStore GatewayOAuth GatewayAccounts

variable {cfg : GatewayConfig} {w w' : GatewayWorld} {db db' db'' : GatewayDB} {t clock clock' : Int}
  {history since : List AccountEvent} {accountId : String} {granted : List ConsentRecord}

/-! ## Histories -/

def latest (history : List AccountEvent) (accountId : String) : Option (String × Bool) :=
  (history.find? fun e => e.accountId = accountId).bind (·.state)

def stateAt (history : List AccountEvent) (accountId : String) (moment : Int) : Option (String × Bool) :=
  (history.find? fun e => e.accountId = accountId ∧ e.changedAt ≤ moment).bind (·.state)

/-- From a moment on an account has been active under a user name, between statements too. -/
def ActiveFrom (history : List AccountEvent) (accountId userName : String) (moment : Int) : Prop :=
  (∀ now, moment ≤ now → stateAt history accountId now = some (userName, true)) ∧
    ∀ e ∈ history, e.accountId = accountId → moment ≤ e.changedAt → e.state = some (userName, true)

/-- Since an older history an account has been active under a user name. -/
def ActiveSince (history since : List AccountEvent) (accountId userName : String) : Prop :=
  ∃ newer, history = newer ++ since ∧ latest since accountId = some (userName, true) ∧
    ∀ e ∈ newer, e.accountId = accountId → e.state = some (userName, true)

/-- A statement that came no later than the cutoff gave an account its state, and no later one
changed it. -/
def HeldSince (history : List AccountEvent) (accountId : String) (state : String × Bool) (cutoff : Int) : Prop :=
  ∃ newer e older, history = newer ++ e :: older ∧ e.accountId = accountId ∧ e.state = some state ∧
    e.changedAt ≤ cutoff ∧ ∀ x ∈ newer, x.accountId = accountId → x.state = some state

variable {state : String × Bool} {cutoff : Int} {e : AccountEvent}

theorem HeldSince.here (hid : e.accountId = accountId) (hstate : e.state = some state) (hle : e.changedAt ≤ cutoff) :
    HeldSince (e :: history) accountId state cutoff :=
  ⟨[], e, history, rfl, hid, hstate, hle, fun _ hx => absurd hx List.not_mem_nil⟩

theorem HeldSince.cons (h : HeldSince history accountId state cutoff)
    (he : e.accountId = accountId → e.state = some state) : HeldSince (e :: history) accountId state cutoff := by
  rcases h with ⟨newer, x, older, rfl, hid, hstate, hle, hnewer⟩
  refine ⟨e :: newer, x, older, rfl, hid, hstate, hle, ?_⟩
  intro y hy hyid
  rcases List.mem_cons.mp hy with rfl | hy
  · exact he hyid
  · exact hnewer y hy hyid

/-- The first event with a property that the holding one has is of the same state. -/
theorem HeldSince.find {p : AccountEvent → Prop} [DecidablePred p] (h : HeldSince history accountId state cutoff)
    (hp : ∀ x, p x → x.accountId = accountId) (hall : ∀ x, x.accountId = accountId → x.changedAt ≤ cutoff → p x) :
    (history.find? fun x => p x).bind (·.state) = some state := by
  rcases h with ⟨newer, x, older, rfl, hid, hstate, hle, hnewer⟩
  rw [List.find?_append]
  cases hfind : newer.find? (fun x => p x) with
  | none =>
    rw [Option.none_or, List.find?_cons_of_pos (p := fun x => p x) (decide_eq_true (hall x hid hle))]
    exact hstate
  | some y =>
    have hy : p y := of_decide_eq_true (List.find?_some (p := fun x => p x) hfind)
    exact hnewer y (List.mem_of_find?_eq_some hfind) (hp y hy)

theorem HeldSince.latest (h : HeldSince history accountId state cutoff) : latest history accountId = some state :=
  h.find (fun _ hx => hx) (fun _ hid _ => hid)

/-- After the cutoff an account has been what it is. -/
theorem HeldSince.activeFrom {userName : String} {moment : Int}
    (h : HeldSince history accountId (userName, true) cutoff)
    (hsorted : history.Pairwise fun x y => y.changedAt ≤ x.changedAt) (hlt : cutoff < moment) :
    ActiveFrom history accountId userName moment := by
  refine ⟨?_, ?_⟩
  · intro now hnow
    refine h.find (fun x hx => hx.1) ?_
    intro x hid hle
    exact ⟨hid, by omega⟩
  · intro x hx hid hmoment
    rcases h with ⟨newer, e, older, rfl, -, hstate, hle, hnewer⟩
    rcases List.mem_append.mp hx with hx | hx
    · exact hnewer x hx hid
    · rcases List.mem_cons.mp hx with rfl | hx
      · exact hstate
      · -- what came before the holding statement came before the cutoff
        have holder := (List.pairwise_cons.mp (List.pairwise_append.mp hsorted).2.1).1 x hx
        omega

theorem ActiveSince.refl {userName : String} (h : latest history accountId = some (userName, true)) :
    ActiveSince history history accountId userName :=
  ⟨[], rfl, h, fun _ hx => absurd hx List.not_mem_nil⟩

theorem ActiveSince.cons {userName : String} (h : ActiveSince history since accountId userName)
    (he : e.accountId = accountId → e.state = some (userName, true)) :
    ActiveSince (e :: history) since accountId userName := by
  rcases h with ⟨newer, rfl, hlatest, hnewer⟩
  refine ⟨e :: newer, rfl, hlatest, ?_⟩
  intro x hx hid
  rcases List.mem_cons.mp hx with rfl | hx
  · exact he hid
  · exact hnewer x hx hid

theorem latest_cons_of_ne (h : e.accountId ≠ accountId) : latest (e :: history) accountId = latest history accountId := by
  unfold latest
  rw [List.find?_cons_of_neg (by simpa using h)]

theorem latest_cons_self : latest (e :: history) e.accountId = e.state := by
  unfold latest
  rw [List.find?_cons_of_pos (by simp)]
  rfl

/-! ## The directory and the history -/

/-- A grant bound to an account comes from a consent since which the account is active under the
user name it has. -/
def Bound (granted : List ConsentRecord) (db : GatewayDB) (g : OAuthGrantRow) (accountId : String) : Prop :=
  ∃ consent ∈ granted, consent.grantId = g.grantId ∧ consent.accountId = some accountId ∧
    ∃ r ∈ db.accounts, r.accountId = accountId ∧ r.active = true ∧ consent.userName = some r.userName ∧
      ActiveSince db.history consent.since accountId r.userName

/-- Rows, grants and history of the accounts agree. -/
structure Directory (clock : Int) (granted : List ConsentRecord) (db : GatewayDB) : Prop where
  sorted : db.history.Pairwise fun x y => y.changedAt ≤ x.changedAt
  past : ∀ e ∈ db.history, e.changedAt ≤ clock
  held : ∀ r ∈ db.accounts, HeldSince db.history r.accountId (r.userName, r.active) r.tokenValidAfter
  absent : ∀ accountId, (∀ r ∈ db.accounts, r.accountId ≠ accountId) → latest db.history accountId = none
  bound : ∀ g ∈ db.grants, ∀ accountId, g.accountId = some accountId → Bound granted db g accountId

def KeepsAccounts (db db' : GatewayDB) : Prop := db'.accounts = db.accounts ∧ db'.history = db.history

theorem KeepsAccounts.refl : KeepsAccounts db db := ⟨rfl, rfl⟩

theorem KeepsAccounts.trans (h : KeepsAccounts db db') (h' : KeepsAccounts db' db'') : KeepsAccounts db db'' :=
  ⟨h'.1.trans h.1, h'.2.trans h.2⟩

theorem Bound.keeps {g g' : OAuthGrantRow} (h : Bound granted db g accountId) (hkeeps : KeepsAccounts db db')
    (hid : g'.grantId = g.grantId) : Bound granted db' g' accountId := by
  rcases h with ⟨consent, hconsent, hgrant, haccount, r, hr, hrid, hactive, hname, hsince⟩
  rw [← hkeeps.1] at hr
  rw [← hkeeps.2] at hsince
  exact ⟨consent, hconsent, hgrant.trans hid.symm, haccount, r, hr, hrid, hactive, hname, hsince⟩

/-- Taking grants away keeps the agreement. -/
theorem Directory.keeps (h : Directory clock granted db) (hkeeps : KeepsAccounts db db')
    (hgrants : ∀ g' ∈ db'.grants, ∃ g ∈ db.grants, SameGrant g g') (hclock : clock ≤ clock') :
    Directory clock' granted db' where
  sorted := by
    rw [hkeeps.2]
    exact h.sorted
  past := by
    rw [hkeeps.2]
    exact fun e he => Int.le_trans (h.past e he) hclock
  held := by
    rw [hkeeps.1, hkeeps.2]
    exact h.held
  absent := by
    rw [hkeeps.1, hkeeps.2]
    exact h.absent
  bound g' hg' accountId haccount := by
    rcases hgrants g' hg' with ⟨g, hg, hsame⟩
    exact (h.bound g hg accountId (hsame.2.2.2.1.symm.trans haccount)).keeps hkeeps hsame.1

theorem Directory.le (h : Directory clock granted db) (hclock : clock ≤ clock') : Directory clock' granted db :=
  h.keeps .refl (fun g hg => ⟨g, hg, SameGrant.refl g⟩) hclock

/-- An active account allows what is bound to it. -/
theorem active_of_allowed (h : accountAllowed cfg db (some accountId) = true) :
    ∃ r ∈ db.accounts, r.accountId = accountId ∧ r.active = true := by
  unfold accountAllowed accountIsActive at h
  dsimp only at h
  rcases (Bool.and_eq_true _ _).mp h with ⟨-, h⟩
  cases hget : db.accounts.get? accountId with
  | none =>
    rw [hget] at h
    cases h
  | some row =>
    rw [hget] at h
    rcases Table.get?_eq_some.mp hget with ⟨hrow, hid⟩
    exact ⟨row, hrow, hid, h⟩

/-- A new grant comes with its consent. -/
theorem Directory.consent {grant : OAuthGrantRow} {consent : ConsentRecord} (h : Directory clock granted db)
    (hkeeps : KeepsAccounts db db') (hgrants : ∀ g ∈ db'.grants, g ∈ db.grants ∨ g = grant)
    (hallowed : accountAllowed cfg db grant.accountId = true)
    (hconsent : consent.grantId = grant.grantId ∧ consent.accountId = grant.accountId ∧ consent.since = db.history ∧
      consent.userName = grant.accountId.bind fun a => (db.accounts.get? a).map (·.userName)) :
    Directory clock (consent :: granted) db' := by
  rcases hconsent with ⟨hid, haccount, hsince, hname⟩
  have hold : Directory clock granted { db' with grants := db.grants } :=
    h.keeps hkeeps (fun g hg => ⟨g, hg, SameGrant.refl g⟩) (Int.le_refl clock)
  refine ⟨hold.sorted, hold.past, hold.held, hold.absent, ?_⟩
  intro g hg accountId hg'
  rcases hgrants g hg with hg | rfl
  · rcases hold.bound g hg accountId hg' with ⟨record, hrecord, hrest⟩
    exact ⟨record, List.mem_cons_of_mem _ hrecord, hrest⟩
  · rw [hg'] at hallowed hname haccount
    rcases active_of_allowed hallowed with ⟨r, hr, hrid, hactive⟩
    have hget : db.accounts.get? accountId = some r := Table.get?_eq_some.mpr ⟨hr, hrid⟩
    rw [Option.bind_some, hget] at hname
    have hlatest := (h.held r hr).latest
    rw [hrid, hactive] at hlatest
    refine ⟨consent, List.mem_cons_self, hid, haccount, r, by rw [hkeeps.1]; exact hr, hrid, hactive, hname, ?_⟩
    rw [hkeeps.2, hsince]
    exact .refl hlatest

/-! ## The statements about accounts -/

/-- A statement that leaves the authority of an account alone, or gives it to another. -/
theorem Bound.cons {g : OAuthGrantRow} {accounts : Table AccountRow} (h : Bound granted db g accountId)
    (he : ∀ r ∈ db.accounts, r.accountId = accountId → r.active = true →
      (∃ r' ∈ accounts, r'.accountId = accountId ∧ r'.active = true ∧ r'.userName = r.userName) ∧
        (e.accountId = accountId → e.state = some (r.userName, true))) :
    Bound granted { db with accounts := accounts, history := e :: db.history } g accountId := by
  rcases h with ⟨consent, hconsent, hgrant, haccount, r, hr, hrid, hactive, hname, hsince⟩
  rcases he r hr hrid hactive with ⟨⟨r', hr', hrid', hactive', hname'⟩, hevent⟩
  refine ⟨consent, hconsent, hgrant, haccount, r', hr', hrid', hactive', hname' ▸ hname, ?_⟩
  rw [hname']
  exact hsince.cons hevent

/-- Events in order stay in order. -/
theorem Directory.sorted_cons (h : Directory clock granted db) (hclock : clock ≤ e.changedAt) :
    (e :: db.history).Pairwise fun x y => y.changedAt ≤ x.changedAt :=
  List.pairwise_cons.mpr ⟨fun x hx => Int.le_trans (h.past x hx) hclock, h.sorted⟩

theorem Directory.past_cons (h : Directory clock granted db) (hclock : clock ≤ e.changedAt) :
    ∀ x ∈ e :: db.history, x.changedAt ≤ e.changedAt := by
  intro x hx
  rcases List.mem_cons.mp hx with rfl | hx
  · exact Int.le_refl _
  · exact Int.le_trans (h.past x hx) hclock

/-- A new account. -/
theorem Directory.create {row : AccountRow} {accounts : Table AccountRow} {now : Int}
    (h : Directory clock granted db) (hclock : clock ≤ now) (hinsert : db.accounts.insert? row = some accounts)
    (hcutoff : now ≤ row.tokenValidAfter) : Directory now granted
      (record row.accountId now (some (row.userName, row.active)) { db with accounts := accounts }) := by
  have hother : ∀ r ∈ db.accounts, r.accountId ≠ row.accountId := Table.key_ne_of_insert? hinsert
  refine ⟨h.sorted_cons hclock, h.past_cons hclock, ?_, ?_, ?_⟩
  · intro r hr
    rcases (Table.mem_insert? hinsert).mp hr with hr | rfl
    · exact (h.held r hr).cons fun hid => absurd hid.symm (hother r hr)
    · exact .here rfl rfl hcutoff
  · intro accountId hnone
    have hne : row.accountId ≠ accountId := hnone row ((Table.mem_insert? hinsert).mpr (.inr rfl))
    refine (latest_cons_of_ne hne).trans (h.absent accountId ?_)
    exact fun r hr => hnone r ((Table.mem_insert? hinsert).mpr (.inl hr))
  · intro g hg accountId haccount
    refine (h.bound g hg accountId haccount).cons ?_
    intro r hr hrid hactive
    refine ⟨⟨r, (Table.mem_insert? hinsert).mpr (.inl hr), hrid, hactive, rfl⟩, ?_⟩
    intro hid
    exact absurd (hrid.trans hid.symm) (hother r hr)

/-- Invalidating an account leaves no grant bound to it. -/
theorem mem_invalidate_grants {g : OAuthGrantRow} (hg : g ∈ (invalidate accountId db).grants) :
    g ∈ db.grants ∧ g.accountId ≠ some accountId := by
  rcases mem_deleteFamilies_grants.mp hg with ⟨hmem, hother⟩
  refine ⟨hmem, ?_⟩
  intro hbound
  exact hother (List.mem_map.mpr ⟨g, Table.mem_select.mpr ⟨hmem, hbound⟩, rfl⟩)

theorem invalidate_keepsAccounts : KeepsAccounts db (invalidate accountId db) := deleteFamilies_accounts _

/-- An account that is deleted with what is bound to it. -/
theorem Directory.delete {now : Int} (h : Directory clock granted db) (hclock : clock ≤ now) :
    Directory now granted (record accountId now none
      { invalidate accountId db with
        accounts := (invalidate accountId db).accounts.delete (fun r => r.accountId = accountId) }) := by
  have hinvalid : Directory clock granted (invalidate accountId db) :=
    h.keeps invalidate_keepsAccounts (shrinks_invalidate (t := now) accountId).grants (Int.le_refl clock)
  refine ⟨hinvalid.sorted_cons hclock, hinvalid.past_cons hclock, ?_, ?_, ?_⟩
  · intro r hr
    rcases Table.mem_delete.mp hr with ⟨hr, hother⟩
    exact (hinvalid.held r hr).cons fun hid => absurd hid.symm hother
  · intro deleted hnone
    by_cases hsame : accountId = deleted
    · subst hsame
      exact latest_cons_self
    · refine (latest_cons_of_ne hsame).trans (hinvalid.absent deleted ?_)
      intro r hr hid
      exact hnone r (Table.mem_delete.mpr ⟨hr, fun hgone => hsame (hgone.symm.trans hid)⟩) hid
  · intro g hg boundTo hbound
    have hother : boundTo ≠ accountId := by
      intro heq
      exact (mem_invalidate_grants hg).2 (heq ▸ hbound)
    refine (hinvalid.bound g hg boundTo hbound).cons ?_
    intro r hr hrid hactive
    refine ⟨⟨r, Table.mem_delete.mpr ⟨hr, fun hid => hother (hrid.symm.trans hid)⟩, hrid, hactive, rfl⟩, ?_⟩
    exact fun hid => absurd hid.symm hother

/-- The fields an update works from are those of the row. -/
def Current (db : GatewayDB) (accountId : String) (old : AccountFields) : Prop :=
  ∃ r ∈ db.accounts, r.accountId = accountId ∧ r.userName = old.userName ∧ r.active = old.active

variable {times : ClockReadings} {transforms : List ((AccountFields → Option AccountFields) × Int)}
variable {full : Bool} {access refresh clientId : String} {token : PresentedCapability}
variable {old clean : AccountFields}

/-- The accounts after one statement of an update. -/
theorem mem_updated {accounts : Table AccountRow} {now : Int} {r' : AccountRow}
    (h : r' ∈ accounts.update (fun r => r.accountId = accountId) (updatedRow now old clean)) :
    (∃ r ∈ accounts, r.accountId = accountId ∧ updatedRow now old clean r = r') ∨
      (r' ∈ accounts ∧ r'.accountId ≠ accountId) :=
  Table.of_mem_update (by intro _; rfl) h

/-- The row one statement of an update leaves. -/
theorem updated_held {now : Int} {r : AccountRow} (hid : r.accountId = accountId)
    (hr : HeldSince history r.accountId (r.userName, r.active) r.tokenValidAfter)
    (hold : r.userName = old.userName ∧ r.active = old.active) :
    HeldSince (⟨accountId, now, some (clean.userName, clean.active)⟩ :: history) accountId
      (clean.userName, clean.active) (updatedRow now old clean r).tokenValidAfter := by
  unfold updatedRow
  dsimp only
  split
  · -- the cutoff is moved up to this statement
    refine .here rfl rfl ?_
    show now ≤ max r.tokenValidAfter now
    omega
  · next hsame =>
    rcases not_or.mp hsame with ⟨hname, hactive⟩
    rw [hid, hold.1, hold.2, not_not.mp hname, not_not.mp hactive] at hr
    exact hr.cons fun _ => rfl

/-- One statement of an update, with the grants that stay after it. -/
theorem Directory.updated {now : Int} (h : Directory clock granted db)
    (hclock : clock ≤ now) (hold : Current db accountId old)
    (hkeeps : KeepsAccounts (record accountId now (some (clean.userName, clean.active))
      { db with accounts := db.accounts.update (fun r => r.accountId = accountId) (updatedRow now old clean) }) db')
    (hgrants : ∀ g ∈ db'.grants, g ∈ db.grants ∧
      (g.accountId = some accountId → old.userName = clean.userName ∧ clean.active = true)) :
    Directory now granted db' ∧ Current db' accountId clean := by
  rcases hold with ⟨row, hrow, hrowid, hrowold⟩
  have hmem : updatedRow now old clean row ∈
      db.accounts.update (fun r => r.accountId = accountId) (updatedRow now old clean) :=
    Table.mem_update_of (by intro _; rfl) hrow hrowid
  have hcurrent : Current db' accountId clean := by
    refine ⟨updatedRow now old clean row, ?_, hrowid, rfl, rfl⟩
    rw [hkeeps.1]
    exact hmem
  refine ⟨⟨?_, ?_, ?_, ?_, ?_⟩, hcurrent⟩
  · rw [hkeeps.2]
    exact h.sorted_cons hclock
  · rw [hkeeps.2]
    exact h.past_cons hclock
  · rw [hkeeps.1, hkeeps.2]
    intro r' hr'
    rcases mem_updated hr' with ⟨r, hr, hrid, rfl⟩ | ⟨hr, hother⟩
    · obtain rfl : r = row := Table.eq_of_key_eq hr hrow (hrid.trans hrowid.symm)
      show HeldSince _ r.accountId (clean.userName, clean.active) _
      rw [hrid]
      exact updated_held hrid (h.held r hr) hrowold
    · exact (h.held r' hr).cons fun hid => absurd hid.symm hother
  · rw [hkeeps.1, hkeeps.2]
    intro other hnone
    have hne : accountId ≠ other := fun heq => hnone _ hmem (hrowid.trans heq)
    refine (latest_cons_of_ne hne).trans (h.absent other ?_)
    intro r hr hid
    exact hnone r (Table.mem_update_of_not (by intro _; rfl) hr fun hrid => hne (hrid.symm.trans hid)) hid
  · intro g hg boundTo hbound
    rcases hgrants g hg with ⟨hgold, hsame⟩
    have hbefore := h.bound g hgold boundTo hbound
    refine (hbefore.cons ?_).keeps hkeeps rfl
    intro r hr hrid hactive
    by_cases heq : boundTo = accountId
    · -- the grants that stay with the account have its name and activity
      subst heq
      obtain rfl : r = row := Table.eq_of_key_eq hr hrow (hrid.trans hrowid.symm)
      rcases hsame hbound with ⟨hname, hcleanActive⟩
      refine ⟨⟨_, hmem, hrowid, hcleanActive, hname.symm.trans hrowold.1.symm⟩, ?_⟩
      intro _
      rw [hrowold.1, hname, hcleanActive]
    · refine ⟨⟨r, Table.mem_update_of_not (by intro _; rfl) hr fun hid => heq (hrid.symm.trans hid), hrid, hactive,
        rfl⟩, ?_⟩
      exact fun hid => absurd hid.symm heq

/-- One transform of an update. -/
theorem Directory.applyTransform
    {transform : (AccountFields → Option AccountFields) × Int} (h : Directory clock granted db)
    (hclock : clock ≤ transform.2) (hold : Current db accountId old)
    (hok : GatewayAccounts.applyTransform accountId old transform db = .ok (clean, db')) :
    Directory transform.2 granted db' ∧ Current db' accountId clean := by
  unfold GatewayAccounts.applyTransform at hok
  split at hok
  · cases hok
  · split at hok
    · cases hok
      exact ⟨h.le hclock, hold⟩
    · split at hok
      · cases hok
      · dsimp only at hok
        split at hok
        · cases hok
          refine h.updated hclock hold invalidate_keepsAccounts ?_
          intro g hg
          rcases mem_invalidate_grants hg with ⟨hmem, hother⟩
          exact ⟨hmem, fun hbound => absurd hbound hother⟩
        · next hsame =>
          cases hok
          rcases not_or.mp hsame with ⟨hname, hactive⟩
          exact h.updated hclock hold .refl fun g hg => ⟨hg, fun _ => ⟨not_not.mp hname, not_not.mp hactive⟩⟩

/-- All transforms of an update. -/
theorem Directory.applyTransforms {old : AccountFields} (h : Directory clock granted db)
    (hclock : (clock :: transforms.map (·.2)).Pairwise (· ≤ ·)) (hold : Current db accountId old)
    (hok : GatewayAccounts.applyTransforms accountId old transforms db = .ok db') :
    Directory ((transforms.map (·.2)).getLastD clock) granted db' := by
  induction transforms generalizing clock old db with
  | nil =>
    cases hok
    exact h
  | cons transform rest ih =>
    rcases Transaction.except_bind_eq_ok.mp hok with ⟨⟨clean, mid⟩, hfirst, hrest⟩
    rcases List.pairwise_cons.mp hclock with ⟨hle, hclock⟩
    rcases h.applyTransform (hle _ List.mem_cons_self) hold hfirst with ⟨hmid, hcurrent⟩
    rw [List.map_cons, List.getLastD_cons]
    exact ih hmid hclock hcurrent hrest

/-! ## The operations that leave the accounts alone -/

theorem keepsAccounts_transact {α : Type} {operation : GatewayDB → Except GatewayError (α × GatewayDB)}
    (h : ∀ a db', operation (prune t db) = .ok (a, db') → KeepsAccounts (prune t db) db') :
    KeepsAccounts db (transact t operation db).2 := by
  rcases @transact_cases t db α operation with ⟨a, db', hop, heq⟩ | ⟨-, heq⟩ | ⟨e, -, -, heq⟩
  · rw [heq]
    exact KeepsAccounts.trans prune_accounts (h a db' hop)
  · rw [heq]
    exact prune_accounts
  · rw [heq]
    exact .refl

theorem keepsAccounts_deleteFamily (grantId : String) : KeepsAccounts db (deleteFamily db grantId) := ⟨rfl, rfl⟩

theorem keepsAccounts_getClient {clientId : String} : KeepsAccounts db (GatewayOAuth.getClient t clientId db).2 := by
  apply keepsAccounts_transact
  intro a db' h
  cases h
  exact .refl

theorem keepsAccounts_registerClient {clientId : String} {clientName : Option String} {redirectUris : List String} :
    KeepsAccounts db (registerClient times full clientId clientName redirectUris db).2 := by
  apply keepsAccounts_transact
  intro a db' h
  dsimp only at h
  split at h
  · split at h
    · cases h
    · cases h
      exact .refl
  · rcases Transaction.except_bind_eq_ok.mp h with ⟨_, -, h⟩
    cases h
    exact ⟨rfl, rfl⟩

theorem keepsAccounts_authorize {registered : Option ClientRow} {params : AuthorizationParams} {state : String} :
    KeepsAccounts db (authorize cfg times full registered params state db).2 := by
  unfold authorize
  split
  · exact .refl
  · apply keepsAccounts_transact
    intro a db' h
    split at h
    · cases h
    · split at h
      · cases h
      · rcases Transaction.except_bind_eq_ok.mp h with ⟨_, -, h⟩
        cases h
        exact ⟨rfl, rfl⟩

theorem keepsAccounts_beginConsent
    {csrf state requesterId authenticatedUserId : String} {accountId : Option String} :
    KeepsAccounts db (beginConsent cfg times full csrf state requesterId authenticatedUserId accountId db).2 := by
  apply keepsAccounts_transact
  intro a db' h
  rcases Transaction.except_bind_eq_ok.mp h with ⟨row, -, h⟩
  split at h
  · cases h
  · rcases Transaction.except_bind_eq_ok.mp h with ⟨_, -, h⟩
    cases h
    exact ⟨rfl, rfl⟩

theorem keepsAccounts_saveCapability {c : CapabilityRow} (h : saveCapability c db = .ok db') :
    KeepsAccounts db db' := by
  unfold saveCapability at h
  split at h
  · cases h
  · cases h
    exact ⟨rfl, rfl⟩

theorem keepsAccounts_finishConsent {full allow : Bool} {grantId code state requesterId
    authenticatedUserId csrfToken : String} {accountId : Option String} :
    KeepsAccounts db (finishConsent cfg times full grantId code state requesterId authenticatedUserId csrfToken
      allow accountId db).2 := by
  apply keepsAccounts_transact
  intro a db' h
  rcases Transaction.except_bind_eq_ok.mp h with ⟨row, -, h⟩
  split at h
  · cases h
  · dsimp only at h
    split at h
    · cases h
      exact ⟨rfl, rfl⟩
    · split at h
      · cases h
      · rcases Transaction.except_bind_eq_ok.mp h with ⟨saved, hsaved, h⟩
        rcases Transaction.except_bind_eq_ok.mp h with ⟨_, -, h⟩
        cases h
        have hkeeps := keepsAccounts_saveCapability hsaved
        exact ⟨hkeeps.1, hkeeps.2⟩

theorem keepsAccounts_issueTokens {now : Int} {access refresh : String} {c : CapabilityRow}
    {g : OAuthGrantRow} {pair : OAuthToken} (h : issueTokens cfg now full access refresh c g db = .ok (pair, db')) :
    KeepsAccounts db db' := by
  rcases (issueTokens_ok h).rows with ⟨capabilities, capabilities', -, -, rfl⟩
  exact ⟨rfl, rfl⟩

theorem keepsAccounts_exchangeCode
    {code : PresentedCapability} :
    KeepsAccounts db (exchangeAuthorizationCode cfg times full access refresh clientId code db).2 := by
  apply keepsAccounts_transact
  intro a db' h
  split at h
  · cases h
  · split at h
    · cases h
    · have hkeeps := keepsAccounts_issueTokens h
      exact ⟨hkeeps.1, hkeeps.2⟩

theorem keepsAccounts_exchangeRefresh {requested : List String} :
    KeepsAccounts db (exchangeRefreshToken cfg times full access refresh clientId token requested db).2 := by
  unfold exchangeRefreshToken
  split
  · exact .refl
  · dsimp only
    split
    all_goals
      apply keepsAccounts_transact
      intro a db' h
      split at h
      · cases h
      · split at h
        · cases h
        · split at h
          · cases h
            exact keepsAccounts_deleteFamily _
          · rcases Transaction.except_bind_eq_ok.mp h with ⟨⟨pair, issued⟩, hissue, h⟩
            cases h
            have hkeeps := keepsAccounts_issueTokens hissue
            exact ⟨hkeeps.1, hkeeps.2⟩

theorem keepsAccounts_revokeToken : KeepsAccounts db (revokeToken cfg times token db).2 := by
  apply keepsAccounts_transact
  intro a db' h
  split at h
  · cases h
    exact .refl
  · split at h
    · cases h
      exact .refl
    · split at h
      · cases h
        exact keepsAccounts_deleteFamily _
      · cases h
        exact .refl

theorem keepsAccounts_recordUse : KeepsAccounts db (recordUse cfg times token db).2 := by
  apply keepsAccounts_transact
  intro a db' h
  split at h
  · cases h
    exact .refl
  · split at h
    · cases h
      exact .refl
    · cases h
      exact ⟨rfl, rfl⟩

theorem keepsAccounts_revokeGrants {requesterId authenticatedUserId : String} {accountId grantId : Option String} :
    KeepsAccounts db (revokeGrants cfg times requesterId authenticatedUserId accountId grantId db).2 := by
  apply keepsAccounts_transact
  intro a db' h
  dsimp only at h
  split at h
  · cases h
    exact deleteFamilies_accounts _
  · cases h
    exact deleteFamilies_accounts _

/-! ## The runs -/

/-- What the history, the rows and the consents of a gateway agree on. -/
structure AuthorityInv (w : GatewayWorld) : Prop where
  directory : Directory w.clock w.granted w.db
  consents : (w.granted.map (·.grantId)).Nodup ∧ ∀ consent ∈ w.granted, consent.grantId ∈ w.secrets

/-- An operation that leaves the accounts alone and adds no grant. -/
theorem AuthorityInv.keeps {label : GatewayLabel} (h : AuthorityInv w) (hstep : gatewayStep cfg label w w')
    (hkeeps : KeepsAccounts w.db (label.db cfg w.db))
    (hgrants : ∀ g' ∈ (label.db cfg w.db).grants, ∃ g ∈ w.db.grants, SameGrant g g')
    (hgranted : label.granted cfg w.db = []) : AuthorityInv w' := by
  rcases hstep with ⟨hclock, -, rfl⟩
  have hle : w.clock ≤ label.times.getLastD w.clock := by
    cases htimes : label.times with
    | nil => exact Int.le_refl _
    | cons t rest =>
      rw [htimes] at hclock
      rcases le_getLastD hclock with ⟨hfirst, hlast⟩
      exact Int.le_trans hfirst hlast
  rw [hgranted]
  exact ⟨h.directory.keeps hkeeps hgrants hle, h.consents.1,
    fun consent hc => List.mem_append_right _ (h.consents.2 consent hc)⟩

theorem exchangeCode_grants
    {code : PresentedCapability} :
    ∀ g' ∈ (exchangeAuthorizationCode cfg times full access refresh clientId code db).2.grants,
      ∃ g ∈ db.grants, SameGrant g g' := by
  rcases @exchangeCode_effect db cfg times full access refresh clientId code with
    ⟨hshrinks, -⟩ | ⟨pair, c, g, -, -, hpair⟩
  · exact hshrinks.grants
  · intro g' hg'
    refine hpair.pruned_grant (consumes_update (by intro _; rfl) ?_) hg'
    exact fun _ => ⟨rfl, rfl, rfl, rfl, rfl, fun _ => rfl⟩

theorem exchangeRefresh_grants {requested : List String} :
    ∀ g' ∈ (exchangeRefreshToken cfg times full access refresh clientId token requested db).2.grants,
      ∃ g ∈ db.grants, SameGrant g g' := by
  rcases @exchangeRefresh_effect db cfg times full access refresh clientId token requested with
    ⟨hshrinks, -⟩ | ⟨pair, c, g, -, -, -, hpair⟩
  · exact hshrinks.grants
  · exact fun g' hg' => hpair.pruned_grant (consumes_consumeTokens c.grantId) hg'

theorem authorize_grants {registered : Option ClientRow} {params : AuthorizationParams} {state : String} :
    ∀ g' ∈ (authorize cfg times full registered params state db).2.grants, ∃ g ∈ db.grants, SameGrant g g' := by
  rcases @authorize_effect db cfg times full registered params state with ⟨mid, hmid, hgrants, -⟩
  rw [hgrants]
  exact hmid.grants

theorem AuthorityInv.finishConsent {full allow : Bool} {grantId code state requesterId
    authenticatedUserId csrfToken : String} {accountId : Option String} (h : AuthorityInv w)
    (hstep : gatewayStep cfg (.finishConsent times full grantId code state requesterId
      authenticatedUserId csrfToken allow accountId) w w') : AuthorityInv w' := by
  rcases @finishConsent_effect w.db cfg times full allow grantId code state requesterId
      authenticatedUserId csrfToken accountId with ⟨hshrinks, hdenied⟩ | ⟨callback, row, hok, hcode, happroved⟩
  · exact h.keeps hstep keepsAccounts_finishConsent hshrinks.grants (granted_refused hdenied)
  · rcases hstep with ⟨hclock, hsecrets, rfl⟩
    rcases le_times hclock with ⟨hpruned, hchecked, hissued⟩
    have hle : w.clock ≤ times.issued := Int.le_trans hpruned (Int.le_trans hchecked hissued)
    rw [granted_approved hok hcode]
    have hfresh : grantId ∉ w.secrets := fun hold =>
      (List.nodup_cons.mp hsecrets).1 (List.mem_cons_of_mem _ hold)
    refine ⟨?_, ?_, ?_⟩
    · have hstart : Directory times.issued w.granted (prune times.pruned w.db) :=
        h.directory.keeps prune_accounts (@shrinks_prune times.pruned w.db).grants hle
      have hinserted := fun (g : OAuthGrantRow) (hg : g ∈ _) => (Table.mem_insert? happroved.grants).mp hg
      refine hstart.consent happroved.accounts hinserted happroved.allowed ?_
      refine ⟨rfl, rfl, prune_accounts.2.symm, ?_⟩
      rw [prune_accounts.1]
      rfl
    · refine List.nodup_cons.mpr ⟨?_, h.consents.1⟩
      intro hmem
      rcases List.mem_map.mp hmem with ⟨consent, hconsent, hid⟩
      have hid : consent.grantId = grantId := hid
      exact hfresh (hid ▸ h.consents.2 consent hconsent)
    · intro consent hconsent
      rcases List.mem_cons.mp hconsent with rfl | hconsent
      · exact List.mem_cons_self
      · exact List.mem_append_right _ (h.consents.2 consent hconsent)

/-- A step about an account. -/
theorem AuthorityInv.account {label : GatewayLabel} (h : AuthorityInv w) (hstep : gatewayStep cfg label w w')
    (hgranted : label.granted cfg w.db = [])
    (hdirectory : Directory (label.times.getLastD w.clock) w.granted (label.db cfg w.db)) : AuthorityInv w' := by
  rcases hstep with ⟨-, -, rfl⟩
  rw [hgranted]
  exact ⟨hdirectory, h.consents.1, fun consent hc => List.mem_append_right _ (h.consents.2 consent hc)⟩

theorem AuthorityInv.createAccount {t₀ now : Int} {accountId : String} {value : Option AccountFields}
    (h : AuthorityInv w) (hstep : gatewayStep cfg (.createAccount t₀ now accountId value) w w') :
    AuthorityInv w' := by
  rcases le_getLastD hstep.1 with ⟨hfirst, hlast⟩
  have hlast : t₀ ≤ now := hlast
  have hle : w.clock ≤ now := Int.le_trans hfirst hlast
  refine h.account hstep rfl ?_
  show Directory now w.granted (GatewayAccounts.create t₀ now accountId value w.db).2
  unfold GatewayAccounts.create
  cases value with
  | none => exact h.directory.le hle
  | some clean =>
    dsimp only
    rcases @transact_cases t₀ w.db AccountRow _ with ⟨a, db', hop, heq⟩ | ⟨-, heq⟩ | ⟨e, -, -, heq⟩
    · rw [heq]
      split at hop
      · cases hop
      · split at hop
        · cases hop
        · next accounts hinsert =>
          cases hop
          have hstart : Directory t₀ w.granted (prune t₀ w.db) :=
            h.directory.keeps prune_accounts (@shrinks_prune t₀ w.db).grants hfirst
          exact hstart.create hlast hinsert (Int.le_refl now)
    · rw [heq]
      exact h.directory.keeps prune_accounts (@shrinks_prune t₀ w.db).grants hle
    · rw [heq]
      exact h.directory.le hle

theorem AuthorityInv.updateAccount {t₀ : Int} {accountId : String} (h : AuthorityInv w)
    (hstep : gatewayStep cfg (.updateAccount t₀ accountId transforms) w w') : AuthorityInv w' := by
  have hclock : (w.clock :: t₀ :: transforms.map (·.2)).Pairwise (· ≤ ·) := hstep.1
  rcases le_getLastD hclock with ⟨hfirst, hlast⟩
  have hle := Int.le_trans hfirst hlast
  refine h.account hstep rfl ?_
  show Directory ((t₀ :: transforms.map (·.2)).getLastD w.clock) w.granted
    (GatewayAccounts.update t₀ accountId transforms w.db).2
  unfold GatewayAccounts.update
  rcases @transact_cases t₀ w.db AccountRow _ with ⟨a, db', hop, heq⟩ | ⟨-, heq⟩ | ⟨e, -, -, heq⟩
  · rw [heq]
    split at hop
    · cases hop
    · next row hrow =>
      rcases Transaction.except_bind_eq_ok.mp hop with ⟨after, htransforms, hop⟩
      split at hop
      · cases hop
      · cases hop
        rcases Table.get?_eq_some.mp hrow with ⟨hmem, hid⟩
        have hstart : Directory t₀ w.granted (prune t₀ w.db) :=
          h.directory.keeps prune_accounts (@shrinks_prune t₀ w.db).grants hfirst
        rw [List.getLastD_cons]
        exact hstart.applyTransforms (List.pairwise_cons.mp hclock).2 ⟨row, hmem, hid, rfl, rfl⟩ htransforms
  · rw [heq]
    exact h.directory.keeps prune_accounts (@shrinks_prune t₀ w.db).grants hle
  · rw [heq]
    exact h.directory.le hle

theorem AuthorityInv.deleteAccount {t₀ : Int} {accountId : String} (h : AuthorityInv w)
    (hstep : gatewayStep cfg (.deleteAccount t₀ accountId) w w') : AuthorityInv w' := by
  rcases le_getLastD hstep.1 with ⟨hle, -⟩
  refine h.account hstep rfl ?_
  show Directory t₀ w.granted (GatewayAccounts.delete t₀ accountId w.db).2
  unfold GatewayAccounts.delete
  rcases @transact_cases t₀ w.db Unit _ with ⟨a, db', hop, heq⟩ | ⟨-, heq⟩ | ⟨e, -, -, heq⟩
  · rw [heq]
    split at hop
    · cases hop
    · cases hop
      have hstart : Directory t₀ w.granted (prune t₀ w.db) :=
        h.directory.keeps prune_accounts (@shrinks_prune t₀ w.db).grants hle
      exact hstart.delete (Int.le_refl t₀)
  · rw [heq]
    exact h.directory.keeps prune_accounts (@shrinks_prune t₀ w.db).grants hle
  · rw [heq]
    exact h.directory.le hle

theorem authorityInv_step {label : GatewayLabel} (h : AuthorityInv w) (hstep : gatewayStep cfg label w w') :
    AuthorityInv w' := by
  cases label with
  | getClient => exact h.keeps hstep keepsAccounts_getClient (@shrinks_getClient _ w.db _).grants rfl
  | registerClient => exact h.keeps hstep keepsAccounts_registerClient shrinks_registerClient.grants rfl
  | authorize => exact h.keeps hstep keepsAccounts_authorize authorize_grants rfl
  | beginConsent => exact h.keeps hstep keepsAccounts_beginConsent shrinks_beginConsent.grants rfl
  | finishConsent => exact h.finishConsent hstep
  | exchangeCode => exact h.keeps hstep keepsAccounts_exchangeCode exchangeCode_grants rfl
  | exchangeRefresh => exact h.keeps hstep keepsAccounts_exchangeRefresh exchangeRefresh_grants rfl
  | revokeToken => exact h.keeps hstep keepsAccounts_revokeToken shrinks_revokeToken.grants rfl
  | recordUse => exact h.keeps hstep keepsAccounts_recordUse shrinks_recordUse.grants rfl
  | revokeGrants => exact h.keeps hstep keepsAccounts_revokeGrants shrinks_revokeGrants.grants rfl
  | createAccount => exact h.createAccount hstep
  | updateAccount => exact h.updateAccount hstep
  | deleteAccount => exact h.deleteAccount hstep

theorem authorityInv_invariant : (gatewaySystem cfg).Invariant AuthorityInv where
  start := by
    rintro w ⟨hdb, hsecrets, hgranted, -, -⟩
    refine ⟨⟨?_, ?_, ?_, ?_, ?_⟩, ?_, ?_⟩
    all_goals simp [hdb, hgranted, latest]
  step label w w' h hstep := authorityInv_step h hstep

/-! ## Authority -/

/-- What holds of the accounts and of what they allow in every reachable state. -/
structure AuthorityCut (cfg : GatewayConfig) (w : GatewayWorld) : Prop where
  /-- The history says what the rows say. -/
  rows : ∀ accountId, latest w.db.history accountId =
    (w.db.accounts.get? accountId).map fun r => (r.userName, r.active)
  consents : (w.granted.map (·.grantId)).Nodup
  /-- The account of a grant that loads has been active under one name since the consent. -/
  grants : ∀ now kind raw includeConsumed c g accountId,
    load cfg w.db now kind raw includeConsumed = some (c, g) → g.accountId = some accountId →
    ∃ consent ∈ w.granted, consent.grantId = g.grantId ∧ consent.accountId = some accountId ∧
      ∃ userName, consent.userName = some userName ∧ ActiveSince w.db.history consent.since accountId userName
  /-- An external token is accepted for an account that has been active under that name since before
  it was issued. -/
  external : ∀ userName issuedAt accountId, resolveExternal userName issuedAt w.db = some accountId →
    ActiveFrom w.db.history accountId userName (issuedAt - externalClockSkew)
  /-- An update that raises leaves what was there, or what pruning leaves of it. -/
  updates : ∀ t₀ accountId transforms error db',
    GatewayAccounts.update t₀ accountId transforms w.db = (.error error, db') → db' = w.db ∨ db' = prune t₀ w.db

theorem update_error {t₀ : Int}
    {error : GatewayError} (h : GatewayAccounts.update t₀ accountId transforms db = (.error error, db')) :
    db' = db ∨ db' = prune t₀ db := by
  unfold GatewayAccounts.update at h
  rcases @transact_cases t₀ db AccountRow _ with ⟨a, after, -, heq⟩ | ⟨-, heq⟩ | ⟨e, -, -, heq⟩
  · rw [heq] at h
    cases h
  · rw [heq] at h
    cases h
    exact .inr rfl
  · rw [heq] at h
    cases h
    exact .inl rfl

/-- In every run of the gateway, changes of an account cut off the authority it gave. -/
theorem authority_cut (hreach : (gatewaySystem cfg).Reachable w) : AuthorityCut cfg w := by
  have h := authorityInv_invariant.reachable hreach
  refine ⟨?_, h.consents.1, ?_, ?_, fun _ _ _ _ _ hraise => update_error hraise⟩
  · intro accountId
    cases hget : w.db.accounts.get? accountId with
    | none => exact h.directory.absent accountId (Table.get?_eq_none.mp hget)
    | some r =>
      rcases Table.get?_eq_some.mp hget with ⟨hr, hid⟩
      have hid : r.accountId = accountId := hid
      exact hid ▸ (h.directory.held r hr).latest
  · intro now kind raw includeConsumed c g accountId hload haccount
    rcases h.directory.bound g (load_eq_some hload).grant accountId haccount with
      ⟨consent, hconsent, hid, hbound, r, -, -, -, hname, hsince⟩
    exact ⟨consent, hconsent, hid, hbound, r.userName, hname, hsince⟩
  · intro userName issuedAt accountId hresolve
    rcases Option.map_eq_some_iff.mp hresolve with ⟨r, hfind, hid⟩
    rcases Table.mem_of_find? hfind with ⟨hr, hname, hactive, hcutoff⟩
    have hheld := h.directory.held r hr
    rw [hname, hactive, hid] at hheld
    exact hheld.activeFrom h.directory.sorted hcutoff

namespace AccountRename

open TokenRotation

def accounts : GatewayConfig := { config with accountsRequired := true }

def fields : AccountFields := { userName := "user@host", active := true }

def created : GatewayWorld := next accounts (.createAccount 0 second "account" (some fields)) empty

def registered : GatewayWorld :=
  next accounts (.registerClient (moment 2) false "client" none ["https://app/callback"]) created

def requested : GatewayWorld := next accounts (.authorize (moment 3) false (some client) request "state") registered

def shown : GatewayWorld :=
  next accounts (.beginConsent (moment 4) false "csrf" "state" "@u:h" "u" (some "account")) requested

def consented : GatewayWorld :=
  next accounts (.finishConsent (moment 5) false "grant" "code" "state" "@u:h" "u" "csrf" true (some "account")) shown

/-- One update gives the account a name for display, another name, and its name back. -/
def updated : GatewayWorld :=
  next accounts (.updateAccount (6 * second) "account"
    [(fun old => some { old with displayName := some "User" }, 7 * second),
      (fun old => some { old with userName := "other@host" }, 8 * second),
      (fun old => some { old with userName := "user@host" }, 9 * second)]) consented

theorem updated_reachable : (gatewaySystem accounts).Reachable updated := by
  have hempty : (gatewaySystem accounts).Reachable empty := .start ⟨rfl, rfl, rfl, rfl, rfl⟩
  have hcreated : (gatewaySystem accounts).Reachable created :=
    hempty.next (.createAccount 0 second "account" (some fields)) ⟨by decide +kernel, by decide +kernel, rfl⟩
  have hregistered : (gatewaySystem accounts).Reachable registered :=
    hcreated.next (.registerClient (moment 2) false "client" none ["https://app/callback"])
      ⟨by decide +kernel, by decide +kernel, rfl⟩
  have hrequested : (gatewaySystem accounts).Reachable requested :=
    hregistered.next (.authorize (moment 3) false (some client) request "state")
      ⟨by decide +kernel, by decide +kernel, rfl⟩
  have hshown : (gatewaySystem accounts).Reachable shown :=
    hrequested.next (.beginConsent (moment 4) false "csrf" "state" "@u:h" "u" (some "account"))
      ⟨by decide +kernel, by decide +kernel, rfl⟩
  have hconsented : (gatewaySystem accounts).Reachable consented :=
    hshown.next (.finishConsent (moment 5) false "grant" "code" "state" "@u:h" "u" "csrf" true (some "account"))
      ⟨by decide +kernel, by decide +kernel, rfl⟩
  exact hconsented.next (.updateAccount (6 * second) "account"
    [(fun old => some { old with displayName := some "User" }, 7 * second),
      (fun old => some { old with userName := "other@host" }, 8 * second),
      (fun old => some { old with userName := "user@host" }, 9 * second)])
    ⟨by decide +kernel, by decide +kernel, rfl⟩

theorem updated_cut : AuthorityCut accounts updated := authority_cut updated_reachable

/-- The grant is gone although the account has its name back. -/
example : consented.db.grants.rows.length = 1 ∧ updated.db.grants.rows = [] ∧
    (updated.db.accounts.get? "account").map (·.userName) = some "user@host" := by
  decide +kernel

end AccountRename

end MindRoom
