import MindRoom.GatewaySteps

/-! # Grant families

The rows of a grant: its code, its access tokens and its refresh tokens. Secrets are found by
their digest and are never generated twice, so a row that was consumed or pruned does not come
back; a grant has at most one live token of each kind; and the access tokens of the last minute
are still in the table when the next one is issued.
-/

namespace MindRoom

open GatewayStore GatewayOAuth

variable {cfg : GatewayConfig} {w w' : GatewayWorld} {db db' : GatewayDB} {t clock : Int}

def Live (c : CapabilityRow) : Prop := c.consumed = false ∧ (c.kind = .access ∨ c.kind = .refresh)

def IssuedRow (cfg : GatewayConfig) (g : OAuthGrantRow) (e : IssuedAccess) (c : CapabilityRow) : Prop :=
  c.tokenHash = cfg.digest e.raw ∧ c.kind = .access ∧ c.grantId = e.grantId ∧
    c.issuedAt = some e.issuedAt ∧ c.expiresAt = min (wholeSeconds e.issuedAt + accessTtl) (wholeSeconds g.expiresAt)

/-- The access tokens of one grant that were issued less than 60 seconds apart are at most six. -/
def Limited (issued : List IssuedAccess) : Prop :=
  ∀ (grantId : String) (burst : List IssuedAccess), burst.Sublist issued → (∀ e ∈ burst, e.grantId = grantId) →
    (∀ e ∈ burst, ∀ e' ∈ burst, e'.issuedAt - e.issuedAt < 60 * second) → burst.length ≤ 6

/-- What the rows, the secrets and the history of a gateway agree on. -/
structure FamilyInv (cfg : GatewayConfig) (w : GatewayWorld) : Prop where
  secrets : w.secrets.Nodup
  owned : Owned w.db
  grantIds : ∀ g ∈ w.db.grants, g.payload.grantId = g.grantId ∧ g.grantId ∈ w.secrets ∧
    ∃ r ∈ w.granted, r.grantId = g.grantId ∧ r.deadline = g.expiresAt
  records : ∀ r ∈ w.granted, r.grantId ∈ w.secrets ∧ r.state ∈ w.secrets ∧
    ∀ p ∈ w.db.pending, p.stateHash ≠ cfg.digest r.state
  states : (w.granted.map (·.state)).Nodup
  recordIds : (w.granted.map (·.grantId)).Nodup
  pendingHashes : ∀ p ∈ w.db.pending, ∃ s ∈ w.secrets, p.stateHash = cfg.digest s
  hashes : ∀ c ∈ w.db.capabilities, ∃ s ∈ w.secrets, c.tokenHash = cfg.digest s
  codes : ∀ c ∈ w.db.capabilities, c.kind = .code → c.consumed = false →
    (∀ c' ∈ w.db.capabilities, c'.grantId = c.grantId → c' = c) ∧ ∀ e ∈ w.issued, e.grantId ≠ c.grantId
  single : ∀ c ∈ w.db.capabilities, ∀ c' ∈ w.db.capabilities, c'.grantId = c.grantId →
    c'.kind = c.kind → Live c → Live c' → c' = c
  exchanged : w.exchanged.Nodup ∧ ∀ raw ∈ w.exchanged, raw ∈ w.secrets ∧
    ∀ c ∈ w.db.capabilities, c.tokenHash = cfg.digest raw → c.consumed = true
  refresh : ∀ c ∈ w.db.capabilities, c.kind = .refresh → ∀ g ∈ w.db.grants, g.grantId = c.grantId →
    c.expiresAt = wholeSeconds g.expiresAt
  issued : (w.issued.map (·.raw)).Nodup ∧ ∀ e ∈ w.issued, e.raw ∈ w.secrets ∧ e.grantId ∈ w.secrets ∧
    e.issuedAt ≤ w.clock
  issuedRows : ∀ e ∈ w.issued, ∀ g ∈ w.db.grants, g.grantId = e.grantId →
    (∃ c ∈ w.db.capabilities, IssuedRow cfg g e c) ∨
      min (wholeSeconds e.issuedAt + accessTtl) (wholeSeconds g.expiresAt) ≤ w.clock
  limited : Limited w.issued

/-! ## Steps that take rows away -/

/-- Taking rows away and generating secrets keep what the gateway agrees on. -/
theorem FamilyInv.shrinks {secrets : List String} (h : FamilyInv cfg w) (hdb : Shrinks t w.db db')
    (ht : t ≤ clock) (hclock : w.clock ≤ clock) (hsecrets : secrets.Nodup) (hsub : ∀ s ∈ w.secrets, s ∈ secrets) :
    FamilyInv cfg { w with db := db', clock := clock, secrets := secrets } where
  secrets := hsecrets
  owned := hdb.owned h.owned
  grantIds g' hg' := by
    rcases hdb.grants g' hg' with ⟨g, hg, hid, hpayload, hexpires, -⟩
    rcases h.grantIds g hg with ⟨hpid, hsecret, r, hr, hrid, hdeadline⟩
    rw [hid, hpayload]
    exact ⟨hpid, hsub _ hsecret, r, hr, hrid, hdeadline.trans hexpires.symm⟩
  records r hr := by
    rcases h.records r hr with ⟨hid, hstate, hpending⟩
    refine ⟨hsub _ hid, hsub _ hstate, ?_⟩
    intro p' hp'
    rcases hdb.pending p' hp' with ⟨p, hp, hhash⟩
    rw [hhash]
    exact hpending p hp
  states := h.states
  recordIds := h.recordIds
  pendingHashes p' hp' := by
    rcases hdb.pending p' hp' with ⟨p, hp, hhash⟩
    rcases h.pendingHashes p hp with ⟨s, hs, hdigest⟩
    exact ⟨s, hsub s hs, hhash.trans hdigest⟩
  hashes c hc := by
    rcases h.hashes c (hdb.capabilities c hc) with ⟨s, hs, hdigest⟩
    exact ⟨s, hsub s hs, hdigest⟩
  codes c hc hcode hlive := by
    rcases h.codes c (hdb.capabilities c hc) hcode hlive with ⟨honly, hissued⟩
    exact ⟨fun c' hc' => honly c' (hdb.capabilities c' hc'), hissued⟩
  single c hc c' hc' := h.single c (hdb.capabilities c hc) c' (hdb.capabilities c' hc')
  exchanged := by
    refine ⟨h.exchanged.1, fun raw hraw => ?_⟩
    rcases h.exchanged.2 raw hraw with ⟨hsecret, hconsumed⟩
    exact ⟨hsub _ hsecret, fun c hc => hconsumed c (hdb.capabilities c hc)⟩
  refresh c hc hkind g' hg' hid' := by
    rcases hdb.grants g' hg' with ⟨g, hg, hid, -, hexpires, -⟩
    rw [hexpires]
    exact h.refresh c (hdb.capabilities c hc) hkind g hg (hid.symm.trans hid')
  issued := by
    refine ⟨h.issued.1, fun e he => ?_⟩
    rcases h.issued.2 e he with ⟨hraw, hid, hat⟩
    exact ⟨hsub _ hraw, hsub _ hid, Int.le_trans hat hclock⟩
  issuedRows e he g' hg' hid' := by
    rcases hdb.grants g' hg' with ⟨g, hg, hid, -, hexpires, -⟩
    unfold IssuedRow
    rw [hexpires]
    rcases h.issuedRows e he g hg (hid.symm.trans hid') with ⟨c, hc, hrow⟩ | hexpired
    · by_cases hvalid : t < c.expiresAt
      · -- a row that has not expired stays with its grant
        left
        exact ⟨c, hdb.kept c hc hrow.2.1 hvalid ⟨g', hg', hid'.trans hrow.2.2.1.symm⟩, hrow⟩
      · right
        have hexpires' := hrow.2.2.2.2
        show min _ _ ≤ clock
        rw [← hexpires']
        omega
    · right
      exact Int.le_trans hexpired hclock
  limited := h.limited

/-! ## A consent request -/

/-- Saving a consent request under a new state. -/
theorem FamilyInv.pend {state : String} (h : FamilyInv cfg w) (hdigest : Function.Injective cfg.digest)
    (hnew : (state :: w.secrets).Nodup) (hgrants : db'.grants = w.db.grants)
    (hcapabilities : db'.capabilities = w.db.capabilities)
    (hpending : ∀ p ∈ db'.pending, p ∈ w.db.pending ∨ p.stateHash = cfg.digest state) :
    FamilyInv cfg { w with db := db', secrets := state :: w.secrets } := by
  have hfresh : state ∉ w.secrets := (List.nodup_cons.mp hnew).1
  have hold := h.shrinks (Shrinks.refl) (Int.le_refl w.clock) (Int.le_refl w.clock) hnew
    (fun s hs => List.mem_cons_of_mem _ hs)
  refine ⟨hnew, ?_, ?_, ?_, h.states, h.recordIds, ?_, ?_, ?_, ?_, ?_, ?_, hold.issued, ?_, h.limited⟩
  · unfold Owned
    rw [hgrants, hcapabilities]
    exact h.owned
  · rw [hgrants]
    exact hold.grantIds
  · intro r hr
    rcases hold.records r hr with ⟨hid, hstate, hpend⟩
    refine ⟨hid, hstate, ?_⟩
    intro p hp heq
    rcases hpending p hp with hp | hnewhash
    · exact hpend p hp heq
    · -- the state of a finished consent is an older secret
      have hsame : state = r.state := hdigest (hnewhash.symm.trans heq)
      exact hfresh (hsame ▸ (h.records r hr).2.1)
  · intro p hp
    rcases hpending p hp with hp | hnewhash
    · exact hold.pendingHashes p hp
    · exact ⟨state, List.mem_cons_self, hnewhash⟩
  · rw [hcapabilities]
    exact hold.hashes
  · rw [hcapabilities]
    exact hold.codes
  · rw [hcapabilities]
    exact hold.single
  · rw [hcapabilities]
    exact hold.exchanged
  · rw [hcapabilities, hgrants]
    exact hold.refresh
  · rw [hcapabilities, hgrants]
    exact hold.issuedRows

/-! ## A finished consent -/

/-- A finished consent takes its request away and adds a grant with its code. -/
theorem FamilyInv.consent {state code : String} {grant : OAuthGrantRow} {codeRow : CapabilityRow}
    {record : ConsentRecord} {grants : Table OAuthGrantRow} {capabilities : Table CapabilityRow}
    (h : FamilyInv cfg w) (hdigest : Function.Injective cfg.digest) (hnew : (grant.grantId :: code :: w.secrets).Nodup)
    (hrow : ∃ p ∈ w.db.pending, p.stateHash = cfg.digest state) (hgrants : w.db.grants.insert? grant = some grants)
    (hcapabilities : w.db.capabilities.insert? codeRow = some capabilities)
    (hpayload : grant.payload.grantId = grant.grantId)
    (hcode : codeRow.tokenHash = cfg.digest code ∧ codeRow.kind = .code ∧ codeRow.grantId = grant.grantId)
    (hrecord : record.state = state ∧ record.grantId = grant.grantId ∧ record.deadline = grant.expiresAt)
    (hdb : db'.grants = grants ∧ db'.capabilities = capabilities ∧
      db'.pending = w.db.pending.delete (fun p => p.stateHash = cfg.digest state)) :
    FamilyInv cfg { w with
      db := db'
      secrets := grant.grantId :: code :: w.secrets
      granted := record :: w.granted } := by
  rcases hdb with ⟨hg, hc, hp⟩
  rcases hcode with ⟨hhash, hkind, howner⟩
  rcases hrecord with ⟨hstate, hid, hdeadline⟩
  have hsecret : ∀ s ∈ w.secrets, s ∈ grant.grantId :: code :: w.secrets := fun s hs =>
    List.mem_cons_of_mem _ (List.mem_cons_of_mem _ hs)
  have hfreshId : grant.grantId ∉ w.secrets := fun hold =>
    (List.nodup_cons.mp hnew).1 (List.mem_cons_of_mem _ hold)
  have hfreshCode : code ∉ w.secrets := (List.nodup_cons.mp (List.nodup_cons.mp hnew).2).1
  have hold := h.shrinks (Shrinks.refl) (Int.le_refl w.clock) (Int.le_refl w.clock) hnew hsecret
  have hgmem : ∀ g, g ∈ db'.grants ↔ g ∈ w.db.grants ∨ g = grant := by
    intro g
    rw [hg]
    exact Table.mem_insert? hgrants
  have hcmem : ∀ c, c ∈ db'.capabilities ↔ c ∈ w.db.capabilities ∨ c = codeRow := by
    intro c
    rw [hc]
    exact Table.mem_insert? hcapabilities
  have hpmem : ∀ p ∈ db'.pending, p ∈ w.db.pending ∧ p.stateHash ≠ cfg.digest state := by
    intro p hp'
    rw [hp] at hp'
    exact Table.mem_delete.mp hp'
  -- no older row is of the new grant
  have hother : ∀ c ∈ w.db.capabilities, c.grantId ≠ grant.grantId := by
    intro c hc heq
    rcases h.owned c hc with ⟨g, hg, hgid⟩
    exact hfreshId (heq ▸ hgid ▸ (h.grantIds g hg).2.1)
  have hstateOld : ∀ r ∈ w.granted, r.state ≠ state := by
    intro r hr heq
    rcases hrow with ⟨p, hp, hphash⟩
    exact (h.records r hr).2.2 p hp (heq ▸ hphash)
  have hstateSecret : state ∈ w.secrets := by
    rcases hrow with ⟨p, hp, hphash⟩
    rcases h.pendingHashes p hp with ⟨s, hs, hs'⟩
    exact hdigest (hphash.symm.trans hs') ▸ hs
  have hcodeLive : ∀ c ∈ w.db.capabilities, c.grantId ≠ codeRow.grantId := by
    intro c hc
    rw [howner]
    exact hother c hc
  refine ⟨hnew, ?_, ?_, ?_, ?_, ?_, ?_, ?_, ?_, ?_, ?_, ?_, hold.issued, ?_, h.limited⟩
  · intro c hc
    rcases (hcmem c).mp hc with hc | rfl
    · rcases h.owned c hc with ⟨g, hg, hgid⟩
      exact ⟨g, (hgmem g).mpr (.inl hg), hgid⟩
    · exact ⟨grant, (hgmem grant).mpr (.inr rfl), howner.symm⟩
  · intro g hg
    rcases (hgmem g).mp hg with hg | rfl
    · rcases hold.grantIds g hg with ⟨hpid, hs, r, hr, hrest⟩
      exact ⟨hpid, hs, r, List.mem_cons_of_mem _ hr, hrest⟩
    · exact ⟨hpayload, List.mem_cons_self, record, List.mem_cons_self, hid, hdeadline⟩
  · intro r hr
    rcases List.mem_cons.mp hr with rfl | hr
    · refine ⟨hid ▸ List.mem_cons_self, hstate ▸ hsecret _ hstateSecret, ?_⟩
      intro p hp
      rw [hstate]
      exact (hpmem p hp).2
    · rcases hold.records r hr with ⟨hrid, hrstate, hpend⟩
      exact ⟨hrid, hrstate, fun p hp => hpend p (hpmem p hp).1⟩
  · refine List.nodup_cons.mpr ⟨?_, h.states⟩
    intro hmem
    rcases List.mem_map.mp hmem with ⟨r, hr, heq⟩
    exact hstateOld r hr (heq.trans hstate)
  · refine List.nodup_cons.mpr ⟨?_, h.recordIds⟩
    intro hmem
    rcases List.mem_map.mp hmem with ⟨r, hr, heq⟩
    exact hfreshId ((heq.trans hid) ▸ (h.records r hr).1)
  · exact fun p hp => hold.pendingHashes p (hpmem p hp).1
  · intro c hc
    rcases (hcmem c).mp hc with hc | rfl
    · exact hold.hashes c hc
    · exact ⟨code, List.mem_cons_of_mem _ List.mem_cons_self, hhash⟩
  · intro c hc hckind hlive
    rcases (hcmem c).mp hc with hc | rfl
    · rcases h.codes c hc hckind hlive with ⟨honly, hissued⟩
      refine ⟨?_, hissued⟩
      intro c' hc' hsame
      rcases (hcmem c').mp hc' with hc' | rfl
      · exact honly c' hc' hsame
      · exact absurd hsame.symm (hcodeLive c hc)
    · refine ⟨?_, ?_⟩
      · intro c' hc' hsame
        rcases (hcmem c').mp hc' with hc' | rfl
        · exact absurd hsame (hcodeLive c' hc')
        · rfl
      · intro e he heq
        rw [howner] at heq
        exact hfreshId (heq ▸ (h.issued.2 e he).2.1)
  · intro c hc c' hc' hsame hsameKind hlive hlive'
    have hnot : ¬ Live codeRow := by
      rintro ⟨-, hk | hk⟩
      all_goals
        rw [hkind] at hk
        cases hk
    rcases (hcmem c).mp hc with hc | rfl
    · rcases (hcmem c').mp hc' with hc' | rfl
      · exact h.single c hc c' hc' hsame hsameKind hlive hlive'
      · exact absurd hlive' hnot
    · exact absurd hlive hnot
  · refine ⟨h.exchanged.1, fun raw hraw => ⟨hsecret _ (h.exchanged.2 raw hraw).1, ?_⟩⟩
    intro c hc hchash
    rcases (hcmem c).mp hc with hc | rfl
    · exact (h.exchanged.2 raw hraw).2 c hc hchash
    · have hsame : code = raw := hdigest (hhash.symm.trans hchash)
      exact absurd (h.exchanged.2 raw hraw).1 (hsame ▸ hfreshCode)
  · intro c hc hckind g hg hgid
    rcases (hcmem c).mp hc with hcold | rfl
    · rcases (hgmem g).mp hg with hgold | rfl
      · exact h.refresh c hcold hckind g hgold hgid
      · exact absurd hgid.symm (hother c hcold)
    · rw [hkind] at hckind
      cases hckind
  · intro e he g hg hgid
    rcases (hgmem g).mp hg with hg | rfl
    · rcases h.issuedRows e he g hg hgid with ⟨c, hc, hrow⟩ | hexpired
      · exact .inl ⟨c, (hcmem c).mpr (.inl hc), hrow⟩
      · exact .inr hexpired
    · exact absurd (hgid ▸ (h.issued.2 e he).2.1) hfreshId

/-! ## An exchange -/

def SameCapability (c c' : CapabilityRow) : Prop :=
  c'.tokenHash = c.tokenHash ∧ c'.kind = c.kind ∧ c'.grantId = c.grantId ∧ c'.expiresAt = c.expiresAt ∧
    c'.issuedAt = c.issuedAt ∧ (c.consumed = true → c'.consumed = true)

theorem SameCapability.refl (c : CapabilityRow) : SameCapability c c := ⟨rfl, rfl, rfl, rfl, rfl, id⟩

structure Consumes (db db' : GatewayDB) : Prop where
  pending : db'.pending = db.pending
  grants : db'.grants = db.grants
  old : ∀ c' ∈ db'.capabilities, ∃ c ∈ db.capabilities, SameCapability c c'
  kept : ∀ c ∈ db.capabilities, ∃ c' ∈ db'.capabilities, SameCapability c c'

/-- Updating capabilities so that each stays the same consumes them. -/
theorem consumes_update {p : CapabilityRow → Prop} [DecidablePred p] {f : CapabilityRow → CapabilityRow}
    (hf : ∀ c, key (f c) = key c) (hsame : ∀ c, SameCapability c (f c)) :
    Consumes db { db with capabilities := db.capabilities.update p f hf } where
  pending := rfl
  grants := rfl
  old c' hc' := by
    rcases Table.of_mem_update hf hc' with ⟨c, hc, -, rfl⟩ | ⟨hc, -⟩
    · exact ⟨c, hc, hsame c⟩
    · exact ⟨c', hc, SameCapability.refl c'⟩
  kept c hc := by
    by_cases hp : p c
    · exact ⟨f c, Table.mem_update_of hf hc hp, hsame c⟩
    · exact ⟨c, Table.mem_update_of_not hf hc hp, SameCapability.refl c⟩

theorem consumes_consumeTokens (grantId : String) : Consumes db (consumeTokens grantId db) :=
  consumes_update (by intro _; rfl) fun _ => ⟨rfl, rfl, rfl, rfl, rfl, fun _ => rfl⟩

/-- Consuming capabilities keeps what the gateway agrees on. -/
theorem FamilyInv.consumes (h : FamilyInv cfg w) (hdb : Consumes w.db db') : FamilyInv cfg { w with db := db' } := by
  have hlive : ∀ {c c' : CapabilityRow}, SameCapability c c' → c'.consumed = false → c.consumed = false := by
    intro c c' hsame hlive
    cases hconsumed : c.consumed with
    | false => rfl
    | true => exact absurd (hsame.2.2.2.2.2 hconsumed) (by rw [hlive]; decide)
  refine ⟨h.secrets, ?_, ?_, ?_, h.states, h.recordIds, ?_, ?_, ?_, ?_, ?_, ?_, h.issued, ?_, h.limited⟩
  · intro c' hc'
    rcases hdb.old c' hc' with ⟨c, hc, -, -, hid, -⟩
    rw [hid]
    show ∃ g ∈ db'.grants, _
    rw [hdb.grants]
    exact h.owned c hc
  · rw [hdb.grants]
    exact h.grantIds
  · rw [hdb.pending]
    exact h.records
  · rw [hdb.pending]
    exact h.pendingHashes
  · intro c' hc'
    rcases hdb.old c' hc' with ⟨c, hc, hhash, -⟩
    rw [hhash]
    exact h.hashes c hc
  · intro c' hc' hcode hunconsumed
    rcases hdb.old c' hc' with ⟨c, hc, hsame⟩
    rcases h.codes c hc (hsame.2.1.symm.trans hcode) (hlive hsame hunconsumed) with ⟨honly, hissued⟩
    refine ⟨?_, fun e he => hsame.2.2.1 ▸ hissued e he⟩
    intro d' hd' hid
    rcases hdb.old d' hd' with ⟨d, hd, hsame'⟩
    have hdc : d = c := honly d hd (hsame'.2.2.1.symm.trans (hid.trans hsame.2.2.1))
    subst hdc
    exact Table.eq_of_key_eq hd' hc' (hsame'.1.trans hsame.1.symm)
  · intro c' hc' d' hd' hid hkind hc'live hd'live
    rcases hdb.old c' hc' with ⟨c, hc, hsame⟩
    rcases hdb.old d' hd' with ⟨d, hd, hsame'⟩
    have hdc : d = c := h.single c hc d hd (hsame'.2.2.1.symm.trans (hid.trans hsame.2.2.1))
      (hsame'.2.1.symm.trans (hkind.trans hsame.2.1))
      ⟨hlive hsame hc'live.1, hsame.2.1 ▸ hc'live.2⟩ ⟨hlive hsame' hd'live.1, hsame'.2.1 ▸ hd'live.2⟩
    subst hdc
    exact Table.eq_of_key_eq hd' hc' (hsame'.1.trans hsame.1.symm)
  · refine ⟨h.exchanged.1, fun raw hraw => ⟨(h.exchanged.2 raw hraw).1, ?_⟩⟩
    intro c' hc' hhash
    rcases hdb.old c' hc' with ⟨c, hc, hsame⟩
    exact hsame.2.2.2.2.2 ((h.exchanged.2 raw hraw).2 c hc (hsame.1.symm.trans hhash))
  · intro c' hc' hkind g hg hid
    rcases hdb.old c' hc' with ⟨c, hc, hsame⟩
    have hg : g ∈ db'.grants := hg
    rw [hdb.grants] at hg
    rw [hsame.2.2.2.1]
    exact h.refresh c hc (hsame.2.1.symm.trans hkind) g hg (hid.trans hsame.2.2.1)
  · intro e he g hg hid
    have hg : g ∈ db'.grants := hg
    rw [hdb.grants] at hg
    rcases h.issuedRows e he g hg hid with ⟨c, hc, hhash, hkind, hgrant, hissued, hexpires⟩ | hexpired
    · rcases hdb.kept c hc with ⟨c', hc', hsame⟩
      exact .inl ⟨c', hc', hsame.1.trans hhash, hsame.2.1.trans hkind, hsame.2.2.1.trans hgrant,
        hsame.2.2.2.2.1.trans hissued, hsame.2.2.2.1.trans hexpires⟩
    · exact .inr hexpired

/-- Truncating to whole seconds loses less than a second. -/
theorem lt_wholeSeconds (time : Int) : time - second < wholeSeconds time := by
  have hsplit := Int.mul_tdiv_add_tmod time second
  have hrest : time.tmod second < second := Int.tmod_lt_of_pos time (by decide)
  unfold wholeSeconds
  rw [Int.mul_comm] at hsplit
  omega

/-- One more token is within the limit if fewer than six of its grant are less than 60 seconds
older. -/
theorem Limited.cons {e : IssuedAccess} {issued : List IssuedAccess} (h : Limited issued)
    (hrecent : ∀ burst : List IssuedAccess, burst.Sublist issued →
      (∀ x ∈ burst, x.grantId = e.grantId ∧ e.issuedAt - x.issuedAt < 60 * second) → burst.length < 6) :
    Limited (e :: issued) := by
  intro grantId burst hsub hgrant hclose
  cases hsub with
  | cons _ hold => exact h grantId burst hold hgrant hclose
  | cons_cons _ hrest =>
    have hlt := hrecent _ hrest fun x hx =>
      ⟨(hgrant x (List.mem_cons_of_mem _ hx)).trans (hgrant e List.mem_cons_self).symm,
        hclose x (List.mem_cons_of_mem _ hx) e List.mem_cons_self⟩
    rw [List.length_cons]
    omega

/-- Issued tokens whose rows are in the table are counted. -/
theorem length_le_recentIssues {burst : List IssuedAccess} {grantId : String} {now : Int}
    (hdigest : Function.Injective cfg.digest) (hnodup : (burst.map (·.raw)).Nodup)
    (hrows : ∀ x ∈ burst, now - 60 * second < x.issuedAt ∧ ∃ c ∈ db.capabilities,
      c.tokenHash = cfg.digest x.raw ∧ c.kind = .access ∧ c.grantId = grantId ∧ c.issuedAt = some x.issuedAt) :
    burst.length ≤ recentIssues db grantId now := by
  have hhashes : (burst.map fun x => cfg.digest x.raw).Nodup := by
    have hmapped := hnodup.map hdigest
    rw [List.map_map] at hmapped
    exact hmapped
  have hsub : (burst.map fun x => cfg.digest x.raw) ⊆
      (db.capabilities.select fun c => c.kind = .access ∧ c.grantId = grantId ∧
        ∃ issuedAt ∈ c.issuedAt, now - 60 * second < issuedAt).map (·.tokenHash) := by
    intro hash hmem
    rcases List.mem_map.mp hmem with ⟨x, hx, rfl⟩
    rcases hrows x hx with ⟨hrecent, c, hc, hhash, hkind, hid, hissued⟩
    exact List.mem_map.mpr ⟨c, Table.mem_select.mpr ⟨hc, hkind, hid, x.issuedAt, hissued, hrecent⟩, hhash⟩
  have hle := (List.subperm_of_subset hhashes hsub).length_le
  rw [List.length_map, List.length_map] at hle
  exact hle

/-- The tokens of a grant that are less than 60 seconds older than a new one are in the table. -/
theorem FamilyInv.recent {g : OAuthGrantRow} {now : Int} {burst : List IssuedAccess} (h : FamilyInv cfg w)
    (hdigest : Function.Injective cfg.digest) (hg : g ∈ w.db.grants)
    (halive : (∀ e ∈ w.issued, e.grantId ≠ g.grantId) ∨ w.clock < wholeSeconds g.expiresAt)
    (hnow : w.clock ≤ now) (hsub : burst.Sublist w.issued)
    (hburst : ∀ x ∈ burst, x.grantId = g.grantId ∧ now - x.issuedAt < 60 * second) :
    burst.length ≤ recentIssues w.db g.grantId now := by
  refine length_le_recentIssues hdigest (h.issued.1.sublist (hsub.map _)) ?_
  intro x hx
  rcases hburst x hx with ⟨hid, hclose⟩
  refine ⟨by omega, ?_⟩
  rcases h.issuedRows x (hsub.subset hx) g hg hid.symm with ⟨c, hc, hrow⟩ | hexpired
  · exact ⟨c, hc, hrow.1, hrow.2.1, hrow.2.2.1.trans hid, hrow.2.2.2.1⟩
  · -- an expired token is older, and a grant at its deadline issues nothing
    rcases halive with hnone | halive
    · exact absurd hid (hnone x (hsub.subset hx))
    · have hwhole := lt_wholeSeconds x.issuedAt
      unfold accessTtl at hexpired
      unfold second at *
      omega

/-- An exchange adds a pair of tokens to a grant whose capabilities are all consumed. -/
theorem FamilyInv.issue {g : OAuthGrantRow} {access refresh raw : String} {now : Int}
    {capabilities capabilities' : Table CapabilityRow} (h : FamilyInv cfg w)
    (hdigest : Function.Injective cfg.digest) (hg : g ∈ w.db.grants)
    (hdead : ∀ c ∈ w.db.capabilities, c.grantId = g.grantId → c.consumed = true)
    (hraw : ∃ c ∈ w.db.capabilities, c.tokenHash = cfg.digest raw ∧ c.grantId = g.grantId) (hnew : raw ∉ w.exchanged)
    (halive : (∀ e ∈ w.issued, e.grantId ≠ g.grantId) ∨ w.clock < wholeSeconds g.expiresAt)
    (hrecent : recentIssues w.db g.grantId now < 6) (hnow : w.clock ≤ now)
    (hsecrets : (access :: refresh :: w.secrets).Nodup)
    (haccess : w.db.capabilities.insert? (accessRow cfg now g access) = some capabilities)
    (hrefresh : capabilities.insert? (refreshRow cfg g refresh) = some capabilities') : FamilyInv cfg { w with
      db := { w.db with capabilities := capabilities' }
      clock := now
      secrets := access :: refresh :: w.secrets
      exchanged := raw :: w.exchanged
      issued := ⟨g.grantId, access, now⟩ :: w.issued } := by
  rcases h.grantIds g hg with ⟨hpid, hgsecret, -⟩
  have hsecret : ∀ s ∈ w.secrets, s ∈ access :: refresh :: w.secrets := fun s hs =>
    List.mem_cons_of_mem _ (List.mem_cons_of_mem _ hs)
  have hfreshAccess : access ∉ w.secrets := fun hold =>
    (List.nodup_cons.mp hsecrets).1 (List.mem_cons_of_mem _ hold)
  have hfreshRefresh : refresh ∉ w.secrets := (List.nodup_cons.mp (List.nodup_cons.mp hsecrets).2).1
  have hold := h.shrinks (Shrinks.refl) hnow hnow hsecrets hsecret
  have hmem : ∀ c, c ∈ capabilities' ↔
      c ∈ w.db.capabilities ∨ c = accessRow cfg now g access ∨ c = refreshRow cfg g refresh := by
    intro c
    rw [Table.mem_insert? hrefresh, Table.mem_insert? haccess, or_assoc]
  have hown : (accessRow cfg now g access).grantId = g.grantId ∧ (refreshRow cfg g refresh).grantId = g.grantId :=
    ⟨hpid, hpid⟩
  have hrawSecret : raw ∈ w.secrets := by
    rcases hraw with ⟨c, hc, hhash, -⟩
    rcases h.hashes c hc with ⟨s, hs, hs'⟩
    exact hdigest (hhash.symm.trans hs') ▸ hs
  refine ⟨hsecrets, ?_, hold.grantIds, hold.records, h.states, h.recordIds, hold.pendingHashes, ?_, ?_, ?_,
    ⟨List.nodup_cons.mpr ⟨hnew, h.exchanged.1⟩, ?_⟩, ?_, ⟨?_, ?_⟩, ?_, ?_⟩
  · intro c hc
    rcases (hmem c).mp hc with hc | rfl | rfl
    · exact h.owned c hc
    · exact ⟨g, hg, hown.1.symm⟩
    · exact ⟨g, hg, hown.2.symm⟩
  · intro c hc
    rcases (hmem c).mp hc with hc | rfl | rfl
    · exact hold.hashes c hc
    · exact ⟨access, List.mem_cons_self, rfl⟩
    · exact ⟨refresh, List.mem_cons_of_mem _ List.mem_cons_self, rfl⟩
  · -- a live code is of another grant
    intro c hc hcode hlive
    have hcold : c ∈ w.db.capabilities := by
      rcases (hmem c).mp hc with hc | rfl | rfl
      · exact hc
      · cases hcode
      · cases hcode
    have hother : g.grantId ≠ c.grantId := by
      intro heq
      have hconsumed := hdead c hcold heq.symm
      rw [hlive] at hconsumed
      cases hconsumed
    rcases h.codes c hcold hcode hlive with ⟨honly, hissued⟩
    refine ⟨?_, ?_⟩
    · intro c' hc' hsame
      rcases (hmem c').mp hc' with hc' | rfl | rfl
      · exact honly c' hc' hsame
      · exact absurd (hown.1.symm.trans hsame) hother
      · exact absurd (hown.2.symm.trans hsame) hother
    · intro e he
      rcases List.mem_cons.mp he with rfl | he
      · exact hother
      · exact hissued e he
  · intro c hc c' hc' hsame hkind hlive hlive'
    have hdeadOld : ∀ {d : CapabilityRow}, d ∈ w.db.capabilities → d.grantId = g.grantId → ¬ Live d := by
      rintro d hd hid ⟨hunconsumed, -⟩
      have hconsumed := hdead d hd hid
      rw [hunconsumed] at hconsumed
      cases hconsumed
    rcases (hmem c).mp hc with hcold | rfl | rfl
    · rcases (hmem c').mp hc' with hcold' | rfl | rfl
      · exact h.single c hcold c' hcold' hsame hkind hlive hlive'
      · exact absurd hlive (hdeadOld hcold (hsame.symm.trans hown.1))
      · exact absurd hlive (hdeadOld hcold (hsame.symm.trans hown.2))
    · rcases (hmem c').mp hc' with hcold' | rfl | rfl
      · exact absurd hlive' (hdeadOld hcold' (hsame.trans hown.1))
      · rfl
      · cases hkind
    · rcases (hmem c').mp hc' with hcold' | rfl | rfl
      · exact absurd hlive' (hdeadOld hcold' (hsame.trans hown.2))
      · cases hkind
      · rfl
  · intro r hr
    refine ⟨?_, ?_⟩
    · rcases List.mem_cons.mp hr with rfl | hr
      · exact hsecret _ hrawSecret
      · exact hsecret _ (h.exchanged.2 r hr).1
    · have hrsecret : r ∈ w.secrets := by
        rcases List.mem_cons.mp hr with rfl | hr
        · exact hrawSecret
        · exact (h.exchanged.2 r hr).1
      intro c hc hhash
      rcases (hmem c).mp hc with hcold | rfl | rfl
      · rcases List.mem_cons.mp hr with rfl | hr
        · rcases hraw with ⟨d, hd, hdhash, hdid⟩
          have heq : c = d := Table.eq_of_key_eq hcold hd (hhash.trans hdhash.symm)
          exact hdead c hcold (heq ▸ hdid)
        · exact (h.exchanged.2 r hr).2 c hcold hhash
      · have hsame : access = r := hdigest hhash
        exact absurd hrsecret (hsame ▸ hfreshAccess)
      · have hsame : refresh = r := hdigest hhash
        exact absurd hrsecret (hsame ▸ hfreshRefresh)
  · intro c hc hkind g' hg' hid
    rcases (hmem c).mp hc with hc | rfl | rfl
    · exact h.refresh c hc hkind g' hg' hid
    · cases hkind
    · obtain rfl : g' = g := Table.eq_of_key_eq hg' hg (hid.trans hown.2)
      rfl
  · refine List.nodup_cons.mpr ⟨?_, h.issued.1⟩
    intro hmem
    rcases List.mem_map.mp hmem with ⟨e, he, heq⟩
    have heq : e.raw = access := heq
    exact hfreshAccess (heq ▸ (h.issued.2 e he).1)
  · intro e he
    rcases List.mem_cons.mp he with rfl | he
    · exact ⟨List.mem_cons_self, hsecret _ hgsecret, Int.le_refl now⟩
    · exact hold.issued.2 e he
  · intro e he g' hg' hid
    rcases List.mem_cons.mp he with rfl | he
    · obtain rfl : g' = g := Table.eq_of_key_eq hg' hg hid
      exact .inl ⟨_, (hmem _).mpr (.inr (.inl rfl)), rfl, rfl, hpid, rfl, rfl⟩
    · rcases hold.issuedRows e he g' hg' hid with ⟨c, hc, hrow⟩ | hexpired
      · exact .inl ⟨c, (hmem c).mpr (.inl hc), hrow⟩
      · exact .inr hexpired
  · refine h.limited.cons ?_
    intro burst hsub hburst
    exact Nat.lt_of_le_of_lt (h.recent hdigest hg halive hnow hsub hburst) hrecent

variable {times : ClockReadings} {grantId code state requesterId authenticatedUserId csrfToken : String}

/-- A successful exchange, from the pruned rows on. -/
theorem FamilyInv.exchange {kind : CapabilityKind} {includeConsumed : Bool}
    {c : CapabilityRow} {g : OAuthGrantRow} {raw access refresh : String} {spent : GatewayDB}
    (h : FamilyInv cfg w) (hdigest : Function.Injective cfg.digest)
    (hload : Loads cfg w.db times.checked kind raw includeConsumed c g) (hlive : c.consumed = false)
    (hspent : Consumes w.db spent) (hdead : ∀ c' ∈ spent.capabilities, c'.grantId = c.grantId → c'.consumed = true)
    (halive : (∀ e ∈ w.issued, e.grantId ≠ c.grantId) ∨ w.clock < wholeSeconds g.expiresAt)
    (hnow : w.clock ≤ times.issued) (hsecrets : (access :: refresh :: w.secrets).Nodup)
    (hpair : PairIssued cfg times.issued access refresh c g spent db') : FamilyInv cfg { w with
      db := db'
      clock := times.issued
      secrets := access :: refresh :: w.secrets
      exchanged := raw :: w.exchanged
      issued := ⟨c.grantId, access, times.issued⟩ :: w.issued } := by
  rcases hpair with ⟨hrecent, capabilities, capabilities', haccess, hrefresh, rfl⟩
  have hnew : raw ∉ w.exchanged := by
    intro hold
    have hconsumed := (h.exchanged.2 raw hold).2 c hload.capability hload.hash
    rw [hlive] at hconsumed
    cases hconsumed
  have hraw : ∃ c' ∈ spent.capabilities, c'.tokenHash = cfg.digest raw ∧ c'.grantId = g.grantId := by
    rcases hspent.kept c hload.capability with ⟨c', hc', hsame⟩
    exact ⟨c', hc', hsame.1.trans hload.hash, hsame.2.2.1.trans hload.owner.symm⟩
  have hg : g ∈ spent.grants := by
    rw [hspent.grants]
    exact hload.grant
  have hissued := (h.consumes hspent).issue hdigest hg
    (fun c' hc' hid => hdead c' hc' (hid.trans hload.owner)) hraw hnew
    (by rw [hload.owner]; exact halive) (by rw [hload.owner]; exact hrecent) hnow hsecrets haccess hrefresh
  rw [hload.owner] at hissued
  exact hissued.shrinks (shrinks_touchGrant _ _ _ _) (Int.le_refl _) (Int.le_refl _) hsecrets (fun _ hs => hs)

/-! ## The runs -/

theorem le_getLastD {clock t : Int} {rest : List Int} (h : (clock :: t :: rest).Pairwise (· ≤ ·)) :
    clock ≤ t ∧ t ≤ (t :: rest).getLastD clock := by
  rcases List.pairwise_cons.mp h with ⟨hfirst, hrest⟩
  refine ⟨hfirst t List.mem_cons_self, ?_⟩
  cases rest with
  | nil => exact Int.le_refl t
  | cons t' rest =>
    rw [List.getLastD_cons, List.getLastD_cons]
    have hlast : (t' :: rest).getLastD t' ∈ t' :: rest := by
      rw [List.getLastD_eq_getLast?, List.getLast?_eq_some_getLast (List.cons_ne_nil t' rest)]
      exact List.getLast_mem _
    have hle := (List.pairwise_cons.mp hrest).1 _ hlast
    rw [List.getLastD_cons] at hle
    exact hle

/-- An operation that only takes rows away. -/
theorem FamilyInv.taken {label : GatewayLabel} {rest : List Int} (h : FamilyInv cfg w)
    (hstep : gatewayStep cfg label w w') (hdb : Shrinks t w.db (label.db cfg w.db))
    (htimes : label.times = t :: rest) (hgranted : label.granted cfg w.db = [])
    (hexchanged : label.exchanged cfg w.db = none) : FamilyInv cfg w' := by
  rcases hstep with ⟨hclock, hsecrets, rfl⟩
  rw [hgranted, hexchanged]
  rw [htimes] at hclock
  rcases le_getLastD hclock with ⟨hle, hlast⟩
  rw [htimes]
  exact h.shrinks hdb hlast (Int.le_trans hle hlast) hsecrets fun s hs => List.mem_append_right _ hs

/-- The readings of one transaction. -/
theorem le_times (h : (clock :: times.times).Pairwise (· ≤ ·)) :
    clock ≤ times.pruned ∧ times.pruned ≤ times.checked ∧ times.checked ≤ times.issued := by
  unfold ClockReadings.times at h
  rcases List.pairwise_cons.mp h with ⟨hclock, h⟩
  rcases List.pairwise_cons.mp h with ⟨hpruned, h⟩
  rcases List.pairwise_cons.mp h with ⟨hchecked, -⟩
  exact ⟨hclock _ List.mem_cons_self, hpruned _ List.mem_cons_self, hchecked _ List.mem_cons_self⟩

/-- The pruned rows at the pruning's time. -/
theorem FamilyInv.pruned (h : FamilyInv cfg w) (hclock : w.clock ≤ t) :
    FamilyInv cfg { w with db := prune t w.db, clock := t } :=
  h.shrinks shrinks_prune (Int.le_refl t) hclock h.secrets fun _ hs => hs

theorem step_authorize {full : Bool} {registered : Option ClientRow}
    {params : AuthorizationParams} {state : String} (h : FamilyInv cfg w) (hdigest : Function.Injective cfg.digest)
    (hstep : gatewayStep cfg (.authorize times full registered params state) w w') : FamilyInv cfg w' := by
  rcases hstep with ⟨hclock, hsecrets, rfl⟩
  rcases le_times hclock with ⟨hpruned, hchecked, hissued⟩
  rcases @authorize_effect w.db cfg times full registered params state with ⟨mid, hmid, hg, hc, hp⟩
  have hle : times.pruned ≤ times.issued := Int.le_trans hchecked hissued
  exact (h.shrinks hmid hle (Int.le_trans hpruned hle) h.secrets fun _ hs => hs).pend hdigest hsecrets hg hc hp

/-- A refused consent leads to no grant. -/
theorem granted_refused {full allow : Bool} {accountId : Option String}
    (h : ∀ callback, (finishConsent cfg times full grantId code state requesterId authenticatedUserId csrfToken
      allow accountId db).1 = .ok callback → callback.code = none) :
    GatewayLabel.granted cfg (.finishConsent times full grantId code state requesterId authenticatedUserId csrfToken
      allow accountId) db = [] := by
  unfold GatewayLabel.granted
  dsimp only
  split
  · next hgranted =>
    have hnone := h _ hgranted
    cases hnone
  · rfl

/-- An approved consent is the one that is recorded. -/
theorem granted_approved {full allow : Bool} {accountId : Option String} {callback : ConsentCallback}
    (hok : (finishConsent cfg times full grantId code state requesterId authenticatedUserId csrfToken
      allow accountId db).1 = .ok callback) (hcode : callback.code = some code) :
    GatewayLabel.granted cfg (.finishConsent times full grantId code state requesterId authenticatedUserId csrfToken
      allow accountId) db =
      [⟨state, grantId, times.issued + cfg.grantTtl, accountId,
        accountId.bind fun a => (db.accounts.get? a).map (·.userName), db.history⟩] := by
  unfold GatewayLabel.granted
  dsimp only
  rw [hok]
  cases callback
  cases hcode
  rfl

theorem step_finishConsent {full allow : Bool} {accountId : Option String} (h : FamilyInv cfg w)
    (hdigest : Function.Injective cfg.digest)
    (hstep : gatewayStep cfg (.finishConsent times full grantId code state requesterId
      authenticatedUserId csrfToken allow accountId) w w') : FamilyInv cfg w' := by
  have hclock := hstep.1
  rcases le_times hclock with ⟨hpruned, hchecked, hissued⟩
  have hle : times.pruned ≤ times.issued := Int.le_trans hchecked hissued
  rcases @finishConsent_effect w.db cfg times full allow grantId code state requesterId
      authenticatedUserId csrfToken accountId with ⟨hshrinks, hdenied⟩ | ⟨callback, row, hok, hcode, happroved⟩
  · exact h.taken hstep hshrinks rfl (granted_refused hdenied) rfl
  · rcases hstep with ⟨-, hsecrets, rfl⟩
    rw [granted_approved hok hcode]
    have hstart := (h.pruned hpruned).shrinks Shrinks.refl hle hle h.secrets fun _ hs => hs
    have hnew : (grantId :: code :: w.secrets).Nodup := hsecrets
    exact @FamilyInv.consent cfg _ _ state code
      (consentedGrant cfg times.issued row grantId requesterId authenticatedUserId accountId) _
      ⟨state, grantId, times.issued + cfg.grantTtl, accountId,
        accountId.bind fun a => (w.db.accounts.get? a).map (·.userName), w.db.history⟩ _ _
      hstart hdigest hnew ⟨row, happroved.found⟩ happroved.grants happroved.capabilities rfl
      ⟨rfl, rfl, rfl⟩ ⟨rfl, rfl, rfl⟩ ⟨rfl, rfl, happroved.pending⟩

/-- The capability an exchange found is the one it logs. -/
theorem exchangedOf_eq {kind : CapabilityKind} {includeConsumed : Bool}
    {c : CapabilityRow} {g : OAuthGrantRow} {raw access : String}
    (hload : Loads cfg (prune times.pruned db) times.checked kind raw includeConsumed c g) :
    exchangedOf cfg db raw access times = some ⟨raw, c.grantId, access, times.issued⟩ := by
  have hmem : c ∈ db.capabilities := (@shrinks_prune times.pruned db).capabilities c hload.capability
  have hget : db.capabilities.get? (cfg.digest raw) = some c := Table.get?_eq_some.mpr ⟨hmem, hload.hash⟩
  unfold exchangedOf
  rw [hget]
  rfl

theorem step_exchangeCode {full : Bool} {access refresh clientId : String}
    {code : PresentedCapability} (h : FamilyInv cfg w) (hdigest : Function.Injective cfg.digest)
    (hstep : gatewayStep cfg (.exchangeCode times full access refresh clientId code) w w') :
    FamilyInv cfg w' := by
  have hclock := hstep.1
  rcases le_times hclock with ⟨hpruned, hchecked, hissued⟩
  rcases @exchangeCode_effect w.db cfg times full access refresh clientId code with
    ⟨hshrinks, hrefused⟩ | ⟨pair, c, g, hok, hload, hpair⟩
  · refine h.taken hstep hshrinks rfl rfl ?_
    unfold GatewayLabel.exchanged
    dsimp only
    split
    · next hgiven => exact absurd hgiven (hrefused _)
    · rfl
  · rcases hstep with ⟨-, hsecrets, rfl⟩
    have hlogged : GatewayLabel.exchanged cfg (.exchangeCode times full access refresh clientId code) w.db =
        some ⟨code.raw, c.grantId, access, times.issued⟩ := by
      unfold GatewayLabel.exchanged
      dsimp only
      rw [hok]
      exact exchangedOf_eq hload
    rw [hlogged]
    have hstart := h.pruned hpruned
    have hlive : c.consumed = false := Bool.eq_false_iff.mpr fun hc => by cases hload.unconsumed hc
    have hspent := @consumes_update (prune times.pruned w.db) (fun r => r.tokenHash = cfg.digest code.raw) _
      (fun r => { r with consumed := true }) (by intro _; rfl)
      (fun _ => ⟨rfl, rfl, rfl, rfl, rfl, fun _ => rfl⟩)
    have hcodes := hstart.codes c hload.capability hload.kind hlive
    refine hstart.exchange hdigest hload hlive hspent ?_ (.inl hcodes.2)
      (Int.le_trans hchecked hissued) hsecrets hpair
    -- the live code was the only capability of its grant
    intro c' hc' hid
    rcases Table.of_mem_update (by intro _; rfl) hc' with ⟨d, hd, hown, rfl⟩ | ⟨hd, hother⟩
    · rfl
    · have heq := hcodes.1 c' hd hid
      exact absurd (heq ▸ hload.hash) hother

theorem step_exchangeRefresh {full : Bool} {access refresh clientId : String}
    {token : PresentedCapability} {requested : List String} (h : FamilyInv cfg w)
    (hdigest : Function.Injective cfg.digest)
    (hstep : gatewayStep cfg (.exchangeRefresh times full access refresh clientId token requested) w w') :
    FamilyInv cfg w' := by
  have hclock := hstep.1
  rcases le_times hclock with ⟨hpruned, hchecked, hissued⟩
  rcases @exchangeRefresh_effect w.db cfg times full access refresh clientId token requested with
    ⟨hshrinks, hrefused⟩ | ⟨pair, c, g, hok, hlive, hload, hpair⟩
  · refine h.taken hstep hshrinks rfl rfl ?_
    unfold GatewayLabel.exchanged
    dsimp only
    split
    · next hgiven => exact absurd hgiven (hrefused _)
    · rfl
  · rcases hstep with ⟨-, hsecrets, rfl⟩
    have hlogged : GatewayLabel.exchanged cfg
        (.exchangeRefresh times full access refresh clientId token requested) w.db =
        some ⟨token.raw, c.grantId, access, times.issued⟩ := by
      unfold GatewayLabel.exchanged
      dsimp only
      rw [hok]
      exact exchangedOf_eq hload
    rw [hlogged]
    have hstart := h.pruned hpruned
    have hdeadline := hstart.refresh c hload.capability hload.kind g hload.grant hload.owner
    refine hstart.exchange hdigest hload hlive (consumes_consumeTokens c.grantId) ?_ (.inr ?_)
      (Int.le_trans hchecked hissued) hsecrets hpair
    · -- a live code would be the only capability of the grant
      intro c' hc' hid
      rcases Table.of_mem_update (by intro _; rfl) hc' with ⟨d, hd, hown, rfl⟩ | ⟨hd, hother⟩
      · rfl
      · cases hconsumed : c'.consumed with
        | true => rfl
        | false =>
          cases hkind : c'.kind with
          | code =>
            have heq := (hstart.codes c' hd hkind hconsumed).1 c hload.capability hid.symm
            rw [← heq, hload.kind] at hkind
            cases hkind
          | access => exact absurd ⟨hid, hconsumed, .inl hkind⟩ hother
          | refresh => exact absurd ⟨hid, hconsumed, .inr hkind⟩ hother
    · show times.pruned < wholeSeconds g.expiresAt
      rw [← hdeadline]
      exact Int.lt_of_le_of_lt hchecked hload.valid

theorem familyInv_step {label : GatewayLabel} (hdigest : Function.Injective cfg.digest)
    (h : FamilyInv cfg w) (hstep : gatewayStep cfg label w w') : FamilyInv cfg w' := by
  cases label with
  | getClient => exact h.taken hstep shrinks_getClient rfl rfl rfl
  | registerClient => exact h.taken hstep shrinks_registerClient rfl rfl rfl
  | authorize => exact step_authorize h hdigest hstep
  | beginConsent => exact h.taken hstep shrinks_beginConsent rfl rfl rfl
  | finishConsent => exact step_finishConsent h hdigest hstep
  | exchangeCode => exact step_exchangeCode h hdigest hstep
  | exchangeRefresh => exact step_exchangeRefresh h hdigest hstep
  | revokeToken => exact h.taken hstep shrinks_revokeToken rfl rfl rfl
  | recordUse => exact h.taken hstep shrinks_recordUse rfl rfl rfl
  | revokeGrants => exact h.taken hstep shrinks_revokeGrants rfl rfl rfl
  | createAccount => exact h.taken hstep shrinks_createAccount rfl rfl rfl
  | updateAccount => exact h.taken hstep shrinks_updateAccount rfl rfl rfl
  | deleteAccount => exact h.taken hstep shrinks_deleteAccount rfl rfl rfl

theorem familyInv_invariant (hdigest : Function.Injective cfg.digest) :
    (gatewaySystem cfg).Invariant (FamilyInv cfg) where
  start := by
    rintro w ⟨hdb, hsecrets, hgranted, hexchanged, hissued⟩
    constructor
    all_goals simp only [hdb, hsecrets, hgranted, hexchanged, hissued]
    all_goals simp [Owned, Limited]
  step label w w' h hstep := familyInv_step hdigest h hstep

end MindRoom
