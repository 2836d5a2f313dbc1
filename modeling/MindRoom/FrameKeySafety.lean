import MindRoom.FrameKeys

/-! # Call frame keys are confined to the roster

A key leaves the roster it was exposed to only by being replaced. An update is known by which of
three things it did: it drew a key, it shared the key it has, or it found nothing to do.
-/

namespace MindRoom

open CallWorld FrameKeyManager

variable {κ : Type}

def remoteShares (m : FrameKeyManager κ) (members : List CallMember) : List SharedWith :=
  (m.remote members).map CallMember.share

structure KeysConfined (w : CallWorld κ) : Prop where
  /-- The current key is exposed to memberships of the last roster only. -/
  exposed : ∀ key share, w.manager.key = some key → (key, share) ∈ w.exposures →
    share ∈ remoteShares w.manager w.roster
  /-- A member becomes a target within the grace period of the key. -/
  targets : ∀ t ∈ w.targetings, ∃ since, (t.key, since) ∈ w.created ∧ t.time - since < keyRotationGracePeriodMs
  /-- When there is nothing to do, every remote member has the current key. -/
  delivered : w.settled = true → ∃ key, w.manager.key = some key ∧
    ∀ share ∈ remoteShares w.manager w.roster, (key, share) ∈ w.deliveries
  /-- Our own media gets the current key, once it is active. -/
  installed : ∀ i ∈ w.installations,
    i.manager.IsCurrentOutboundKey i.key i.keyIndex ∧ i.manager.keyActivationMs ≤ i.time

/-! ## One update -/

section

variable {m : FrameKeyManager κ} {members : List CallMember} {share : SharedWith} {shares : List SharedWith}
  {fresh : κ} {nowMs : Int}

theorem mem_addShares : share ∈ addShares shares members ↔ share ∈ shares ∨ ∃ member ∈ members, member.share = share := by
  induction members generalizing shares with
  | nil => simp [addShares]
  | cons member members ih =>
    have hstep : addShares shares (member :: members) =
        addShares (if member.share ∈ shares then shares else shares ++ [member.share]) members := rfl
    rw [hstep, ih]
    by_cases hmem : member.share ∈ shares
    · rw [if_pos hmem]
      constructor
      · rintro (h | ⟨other, hother, h⟩)
        · exact .inl h
        · exact .inr ⟨other, List.mem_cons_of_mem _ hother, h⟩
      · rintro (h | ⟨other, hother, rfl⟩)
        · exact .inl h
        · rcases List.mem_cons.mp hother with rfl | hother
          · exact .inl hmem
          · exact .inr ⟨other, hother, rfl⟩
    · rw [if_neg hmem, List.mem_append, List.mem_singleton]
      constructor
      · rintro ((h | rfl) | ⟨other, hother, rfl⟩)
        · exact .inl h
        · exact .inr ⟨member, List.mem_cons_self, rfl⟩
        · exact .inr ⟨other, List.mem_cons_of_mem _ hother, rfl⟩
      · rintro (h | ⟨other, hother, rfl⟩)
        · exact .inl (.inl h)
        · rcases List.mem_cons.mp hother with rfl | hother
          · exact .inl (.inr rfl)
          · exact .inr ⟨other, hother, rfl⟩

/-- A member found by its identity is one of the members, under that identity. -/
theorem membersByIdentity_spec {member : CallMember} (h : (membersByIdentity members).value? share = some member) :
    member ∈ members ∧ member.share = share := by
  have hfold : ∀ (members : List CallMember) (before : Mapping SharedWith CallMember),
      (members.foldl (fun byIdentity member => byIdentity.set member.share member) before).value? share =
        some member → (member ∈ members ∧ member.share = share) ∨ before.value? share = some member := by
    intro members
    induction members with
    | nil => exact fun _ h => .inr h
    | cons first members ih =>
      intro before h
      rcases ih _ h with ⟨hmem, hshare⟩ | hbefore
      · exact .inl ⟨List.mem_cons_of_mem _ hmem, hshare⟩
      · rw [Mapping.value?_set] at hbefore
        split at hbefore
        · next hshare =>
          cases hbefore
          exact .inl ⟨List.mem_cons_self, hshare⟩
        · exact .inr hbefore
  rcases hfold members ∅ h with hmember | hempty
  · exact hmember
  · cases hempty

theorem share_of_value {member : CallMember} (h : member ∈ (membersByIdentity (m.remote members)).values) :
    member.share ∈ remoteShares m members := by
  rcases Mapping.mem_values.mp h with ⟨share, hvalue⟩
  exact List.mem_map_of_mem (membersByIdentity_spec hvalue).1

/-- The update drew a key and starts over with it. -/
structure Draws (m m' : FrameKeyManager κ) (fresh : κ) (members : List CallMember) (nowMs : Int)
    (d : KeyDistribution κ) : Prop where
  key : d.key = fresh
  current : m'.key = some fresh
  keyIndex : m'.keyIndex = d.keyIndex
  created : m'.keyCreatedMs = nowMs
  active : m'.keyActivationMs ≤ nowMs + d.applyAfterMs
  targets : ∀ target ∈ d.targets, target.share ∈ remoteShares m members
  restart : m.key = none ∧ m'.exposedTo = m.exposedTo ∧ m'.sharedWith = m.sharedWith ∨
    m'.exposedTo = [] ∧ m'.sharedWith = []

/-- The update shares the key it has with those who joined. -/
structure Shares (m : FrameKeyManager κ) (members : List CallMember) (nowMs : Int) (d : KeyDistribution κ) :
    Prop where
  current : m.key = some d.key
  keyIndex : m.keyIndex = d.keyIndex
  young : nowMs - m.keyCreatedMs < keyRotationGracePeriodMs
  active : m.keyActivationMs ≤ nowMs + d.applyAfterMs
  targets : ∀ target ∈ d.targets, target.share ∈ remoteShares m members
  stayed : ∀ share ∈ m.exposedTo, share ∈ remoteShares m members

/-- The update has nothing to do. -/
structure Settles (m : FrameKeyManager κ) (members : List CallMember) : Prop where
  current : m.key ≠ none
  stayed : ∀ share ∈ m.exposedTo, share ∈ remoteShares m members
  shared : ∀ share ∈ remoteShares m members, share ∈ m.sharedWith

theorem draws_rotate : Draws m (m.rotate fresh members nowMs).2 fresh members nowMs (m.rotate fresh members nowMs).1 :=
  ⟨rfl, rfl, rfl, rfl, le_refl _, fun _ h => share_of_value h, .inr ⟨rfl, rfl⟩⟩

theorem updateMemberships_cases (m : FrameKeyManager κ) (fresh : κ) (members : List CallMember) (nowMs : Int) :
    (∃ d m', m.updateMemberships fresh members nowMs = (some d, m') ∧ Draws m m' fresh members nowMs d ∧
        m'.ownUserId = m.ownUserId ∧ m'.ownDeviceId = m.ownDeviceId) ∨
      (∃ d, m.updateMemberships fresh members nowMs = (some d, m) ∧ Shares m members nowMs d) ∨
      (m.updateMemberships fresh members nowMs = (none, m) ∧ Settles m members) := by
  unfold updateMemberships
  cases hkey : m.key with
  | none =>
    refine .inl ⟨_, _, rfl, ⟨rfl, rfl, rfl, rfl, ?_, fun _ h => share_of_value h, .inl ⟨hkey, rfl, rfl⟩⟩, rfl, rfl⟩
    exact le_of_eq (add_zero nowMs).symm
  | some key =>
    dsimp only
    split
    · exact .inl ⟨_, _, rfl, draws_rotate, rfl, rfl⟩
    next hstayed =>
    have hstayed : ∀ share ∈ m.exposedTo, share ∈ remoteShares m members := by
      intro share hshare
      by_contra hleft
      refine hstayed (List.length_filter_lt_length_iff_exists.mpr ⟨share, hshare, ?_⟩)
      simpa [remoteShares] using hleft
    split
    · split
      · next hyoung =>
        refine .inr (.inl ⟨_, rfl, hkey, rfl, hyoung, ?_, ?_, hstayed⟩)
        · show m.keyActivationMs ≤ nowMs + max 0 (m.keyActivationMs - nowMs)
          omega
        · intro target htarget
          rcases List.mem_filterMap.mp htarget with ⟨share, hshare, hvalue⟩
          rw [(membersByIdentity_spec hvalue).2]
          exact (List.mem_filter.mp hshare).1
      · exact .inl ⟨_, _, rfl, draws_rotate, rfl, rfl⟩
    · next hjoined =>
      refine .inr (.inr ⟨rfl, by simp [hkey], hstayed, ?_⟩)
      intro share hshare
      by_contra hnew
      have hmem : share ∈ ((m.remote members).map CallMember.share).filter
          (· ∉ m.sharedWith.filter (· ∈ (m.remote members).map CallMember.share)) := by
        refine List.mem_filter.mpr ⟨hshare, ?_⟩
        simp [hnew]
      exact hjoined (List.ne_nil_of_mem hmem)

end

/-! ## What holds in every state -/

/-- A distribution of the current key, which may be used once it waited. -/
structure Sendable (m : FrameKeyManager κ) (clock : Int) (roster : List CallMember) (d : KeyDistribution κ) :
    Prop where
  current : m.IsCurrentOutboundKey d.key d.keyIndex
  active : m.keyActivationMs ≤ clock + d.applyAfterMs
  targets : ∀ target ∈ d.targets, target.share ∈ remoteShares m roster

structure KeySafe (w : CallWorld κ) : Prop where
  created : ∀ key, w.manager.key = some key → (key, w.manager.keyCreatedMs) ∈ w.created
  past : ∀ p ∈ w.exposures, p.1 ∈ w.created.map (·.1)
  exposed : ∀ key share, w.manager.key = some key → (key, share) ∈ w.exposures → share ∈ w.manager.exposedTo
  stayed : ∀ share ∈ w.manager.exposedTo, share ∈ remoteShares w.manager w.roster
  shared : ∀ share ∈ w.manager.sharedWith, ∃ key, w.manager.key = some key ∧ (key, share) ∈ w.deliveries
  unkeyed : w.manager.key = none → w.manager.exposedTo = []
  settled : w.settled = true → w.manager.key ≠ none ∧
    ∀ share ∈ remoteShares w.manager w.roster, share ∈ w.manager.sharedWith
  sending : ∀ d, w.sending = some d → Sendable w.manager w.clock w.roster d
  asleep : ∀ a ∈ w.activations, a.key ∈ w.created.map (·.1) ∧
    (w.manager.key = some a.key → w.manager.keyActivationMs ≤ a.due)
  targets : ∀ t ∈ w.targetings, ∃ since, (t.key, since) ∈ w.created ∧ t.time - since < keyRotationGracePeriodMs
  installed : ∀ i ∈ w.installations,
    i.manager.IsCurrentOutboundKey i.key i.keyIndex ∧ i.manager.keyActivationMs ≤ i.time

variable [DecidableEq κ] {w w' : CallWorld κ} {label : CallLabel κ} {d : KeyDistribution κ} {fresh : κ}

omit [DecidableEq κ] in
theorem KeySafe.confined (h : KeySafe w) : KeysConfined w where
  exposed key share hkey hshare := h.stayed share (h.exposed key share hkey hshare)
  targets := h.targets
  delivered hsettled := by
    rcases h.settled hsettled with ⟨hkey, hall⟩
    rcases Option.ne_none_iff_exists'.mp hkey with ⟨key, hkey⟩
    refine ⟨key, hkey, fun share hshare => ?_⟩
    rcases h.shared share (hall share hshare) with ⟨key', hkey', hdelivered⟩
    rw [hkey] at hkey'
    rwa [Option.some.inj hkey']
  installed := h.installed

/-! ### The update -/

/-- The world after an update that came to this distribution and this manager. -/
def updated (distribution : Option (KeyDistribution κ)) (manager : FrameKeyManager κ) (fresh : κ)
    (w : CallWorld κ) : CallWorld κ :=
  { w with
    manager := manager
    created := if manager.key = some fresh then (fresh, w.clock) :: w.created else w.created
    roster := w.members
    settled := distribution = none
    targetings :=
      (distribution.elim [] fun d => d.targets.map fun member => ⟨d.key, member.share, w.clock⟩) ++ w.targetings }

/-- A key that is drawn has reached nobody. -/
theorem KeySafe.draws (h : KeySafe w) (hsending : w.sending = none) (hfresh : fresh ∉ w.created.map (·.1))
    {m' : FrameKeyManager κ} (hdraws : Draws w.manager m' fresh w.members w.clock d)
    (hremote : remoteShares m' w.members = remoteShares w.manager w.members) :
    KeySafe (updated (some d) m' fresh w) ∧ Sendable m' w.clock w.members d := by
  have hcreated : (updated (some d) m' fresh w).created = (fresh, w.clock) :: w.created :=
    if_pos hdraws.current
  have hexposed : m'.exposedTo = [] := by
    rcases hdraws.restart with ⟨hnone, hexposed, -⟩ | ⟨hexposed, -⟩
    · rw [hexposed, h.unkeyed hnone]
    · exact hexposed
  have hshared : m'.sharedWith = [] := by
    rcases hdraws.restart with ⟨hnone, -, hshared⟩ | ⟨-, hshared⟩
    · rw [hshared, List.eq_nil_iff_forall_not_mem]
      intro share hshare
      rcases h.shared share hshare with ⟨key, hkey, -⟩
      rw [hnone] at hkey
      cases hkey
    · exact hshared
  have hnew : ∀ key, m'.key = some key → key ∉ w.created.map (·.1) := by
    intro key hkey
    rw [hdraws.current] at hkey
    rwa [← Option.some.inj hkey]
  constructor
  · constructor
    · intro key hkey
      obtain rfl : fresh = key := Option.mem_unique hdraws.current hkey
      rw [hcreated, show (updated (some d) m' fresh w).manager.keyCreatedMs = w.clock from hdraws.created]
      exact List.mem_cons_self
    · intro p hp
      rw [hcreated]
      exact List.mem_cons_of_mem _ (h.past p hp)
    · intro key share hkey hshare
      exact absurd (h.past _ hshare) (hnew key hkey)
    · intro share hshare
      rw [show (updated (some d) m' fresh w).manager.exposedTo = [] from hexposed] at hshare
      exact absurd hshare List.not_mem_nil
    · intro share hshare
      rw [show (updated (some d) m' fresh w).manager.sharedWith = [] from hshared] at hshare
      exact absurd hshare List.not_mem_nil
    · intro hnone
      exact hexposed
    · intro hsettled
      simp [updated] at hsettled
    · intro d' hd'
      rw [show (updated (some d) m' fresh w).sending = none from hsending] at hd'
      cases hd'
    · intro a ha
      rw [hcreated]
      refine ⟨List.mem_cons_of_mem _ (h.asleep a ha).1, fun hkey => ?_⟩
      exact absurd (h.asleep a ha).1 (hnew a.key hkey)
    · intro t ht
      rw [hcreated]
      rcases List.mem_append.mp ht with ht | ht
      · -- the key was drawn at this very moment
        rcases List.mem_map.mp ht with ⟨target, -, rfl⟩
        refine ⟨w.clock, ?_, ?_⟩
        · rw [hdraws.key]
          exact List.mem_cons_self
        · show w.clock - w.clock < keyRotationGracePeriodMs
          rw [sub_self]
          decide
      · rcases h.targets t ht with ⟨since, hsince, hyoung⟩
        exact ⟨since, List.mem_cons_of_mem _ hsince, hyoung⟩
    · exact h.installed
  · refine ⟨⟨?_, hdraws.keyIndex⟩, hdraws.active, ?_⟩
    · rw [hdraws.key]
      exact hdraws.current
    · intro target htarget
      show target.share ∈ remoteShares m' w.members
      rw [hremote]
      exact hdraws.targets target htarget

/-- What holds whatever an update without a new key came to. -/
theorem KeySafe.keeps (h : KeySafe w) (hsending : w.sending = none) (hfresh : fresh ∉ w.created.map (·.1))
    {distribution : Option (KeyDistribution κ)}
    (hstayed : ∀ share ∈ w.manager.exposedTo, share ∈ remoteShares w.manager w.members)
    (hsettled : distribution = none → w.manager.key ≠ none ∧
      ∀ share ∈ remoteShares w.manager w.members, share ∈ w.manager.sharedWith)
    (hyoung : ∀ d, distribution = some d → w.manager.key = some d.key ∧
      w.clock - w.manager.keyCreatedMs < keyRotationGracePeriodMs) :
    KeySafe (updated distribution w.manager fresh w) := by
  have hcreated : (updated distribution w.manager fresh w).created = w.created := by
    refine if_neg fun hkey => hfresh ?_
    exact List.mem_map_of_mem (h.created fresh hkey)
  constructor
  · intro key hkey
    rw [hcreated]
    exact h.created key hkey
  · intro p hp
    rw [hcreated]
    exact h.past p hp
  · exact h.exposed
  · exact hstayed
  · exact h.shared
  · exact h.unkeyed
  · intro hnone
    exact hsettled (of_decide_eq_true hnone)
  · intro d' hd'
    rw [show (updated distribution w.manager fresh w).sending = none from hsending] at hd'
    cases hd'
  · intro a ha
    rw [hcreated]
    exact h.asleep a ha
  · intro t ht
    rw [hcreated]
    rcases List.mem_append.mp ht with ht | ht
    · cases distribution with
      | none => exact absurd ht List.not_mem_nil
      | some d =>
        rcases List.mem_map.mp ht with ⟨target, -, rfl⟩
        exact ⟨w.manager.keyCreatedMs, h.created d.key (hyoung d rfl).1, (hyoung d rfl).2⟩
    · exact h.targets t ht
  · exact h.installed

theorem KeySafe.update (h : KeySafe w) (hsending : w.sending = none) (hfresh : fresh ∉ w.created.map (·.1)) :
    KeySafe (w.update fresh).2 ∧ ∀ d, (w.update fresh).1 = some d →
      Sendable (w.update fresh).2.manager w.clock w.members d := by
  have hupdated : w.update fresh = ((w.manager.updateMemberships fresh w.members w.clock).1,
      updated (w.manager.updateMemberships fresh w.members w.clock).1
        (w.manager.updateMemberships fresh w.members w.clock).2 fresh w) := rfl
  rw [hupdated]
  rcases updateMemberships_cases w.manager fresh w.members w.clock with
    ⟨d, m', hupdate, hdraws, huser, hdevice⟩ | ⟨d, hupdate, hshares⟩ | ⟨hupdate, hsettles⟩
  · rw [hupdate]
    have hremote : remoteShares m' w.members = remoteShares w.manager w.members := by
      simp only [remoteShares, remote, huser, hdevice]
    have hboth := h.draws hsending hfresh hdraws hremote
    refine ⟨hboth.1, ?_⟩
    rintro d' ⟨⟩
    exact hboth.2
  · rw [hupdate]
    refine ⟨h.keeps hsending hfresh hshares.stayed (fun hnone => by cases hnone) ?_, ?_⟩
    · rintro d' ⟨⟩
      exact ⟨hshares.current, hshares.young⟩
    · rintro d' ⟨⟩
      exact ⟨⟨hshares.current, hshares.keyIndex⟩, hshares.active, hshares.targets⟩
  · rw [hupdate]
    refine ⟨h.keeps hsending hfresh hsettles.stayed (fun _ => ⟨hsettles.current, hsettles.shared⟩) ?_, ?_⟩
    · rintro d' ⟨⟩
    · rintro d' ⟨⟩

/-! ### The send -/

omit [DecidableEq κ] in
theorem KeySafe.install (h : KeySafe w) {key : κ} {keyIndex : Nat} (hcurrent : w.manager.IsCurrentOutboundKey key keyIndex)
    (hactive : w.manager.keyActivationMs ≤ w.clock) : KeySafe (install key keyIndex w) := by
  refine ⟨h.created, h.past, h.exposed, h.stayed, h.shared, h.unkeyed, h.settled, h.sending, h.asleep, h.targets, ?_⟩
  intro i hi
  rcases List.mem_cons.mp hi with rfl | hi
  · exact ⟨hcurrent, hactive⟩
  · exact h.installed i hi

omit [DecidableEq κ] in
/-- The targets are marked as exposed before they may have received the key. -/
theorem KeySafe.send (h : KeySafe w) (hd : Sendable w.manager w.clock w.roster d) : KeySafe (send d w) := by
  have hmem : ∀ share, share ∈ (w.manager.markExposed d).exposedTo ↔
      share ∈ w.manager.exposedTo ∨ ∃ target ∈ d.targets, target.share = share := fun share => mem_addShares
  refine ⟨h.created, ?_, ?_, ?_, h.shared, ?_, h.settled, ?_, h.asleep, h.targets, h.installed⟩
  · intro p hp
    rcases List.mem_append.mp hp with hp | hp
    · rcases List.mem_map.mp hp with ⟨target, -, rfl⟩
      exact List.mem_map_of_mem (h.created d.key hd.current.1)
    · exact h.past p hp
  · intro key share hkey hshare
    apply (hmem share).mpr
    rcases List.mem_append.mp hshare with hshare | hshare
    · rcases List.mem_map.mp hshare with ⟨target, htarget, heq⟩
      exact .inr ⟨target, htarget, congrArg Prod.snd heq⟩
    · exact .inl (h.exposed key share hkey hshare)
  · intro share hshare
    rcases (hmem share).mp hshare with hshare | ⟨target, htarget, rfl⟩
    · exact h.stayed share hshare
    · exact hd.targets target htarget
  · intro hnone
    have hkey : w.manager.key = none := hnone
    rw [hd.current.1] at hkey
    cases hkey
  · rintro d' ⟨⟩
    exact ⟨hd.current, hd.active, hd.targets⟩

omit [DecidableEq κ] in
theorem KeySafe.mark (h : KeySafe w) (hd : Sendable w.manager w.clock w.roster d) (delivered : List CallMember) :
    KeySafe { w with
      manager := w.manager.markDistributed d delivered
      sending := none
      deliveries := delivered.map (fun member => (d.key, member.share)) ++ w.deliveries } := by
  have hexposed : ∀ share, share ∈ (w.manager.markDistributed d delivered).exposedTo ↔
      share ∈ w.manager.exposedTo ∨ ∃ target ∈ d.targets, target.share = share := fun share => mem_addShares
  have hshared : ∀ share, share ∈ (w.manager.markDistributed d delivered).sharedWith ↔
      share ∈ w.manager.sharedWith ∨ ∃ member ∈ delivered, member.share = share := fun share => mem_addShares
  refine ⟨h.created, h.past, ?_, ?_, ?_, ?_, ?_, ?_, h.asleep, h.targets, h.installed⟩
  · intro key share hkey hshare
    exact (hexposed share).mpr (.inl (h.exposed key share hkey hshare))
  · intro share hshare
    rcases (hexposed share).mp hshare with hshare | ⟨target, htarget, rfl⟩
    · exact h.stayed share hshare
    · exact hd.targets target htarget
  · intro share hshare
    rcases (hshared share).mp hshare with hshare | ⟨member, hmember, rfl⟩
    · rcases h.shared share hshare with ⟨key, hkey, hdelivered⟩
      exact ⟨key, hkey, List.mem_append_right _ hdelivered⟩
    · exact ⟨d.key, hd.current.1, List.mem_append_left _ (List.mem_map_of_mem hmember)⟩
  · intro hnone
    have hkey : w.manager.key = none := hnone
    rw [hd.current.1] at hkey
    cases hkey
  · intro hsettled
    rcases h.settled hsettled with ⟨hkey, hall⟩
    exact ⟨hkey, fun share hshare => (hshared share).mpr (.inl (hall share hshare))⟩
  · rintro d' ⟨⟩

omit [DecidableEq κ] in
/-- The key is used at once if it is active, and else when its sleep ends. -/
theorem KeySafe.finish (h : KeySafe w) (hd : Sendable w.manager w.clock w.roster d) (delivered : List CallMember) :
    KeySafe (finish d delivered w) := by
  have hmarked := h.mark hd delivered
  unfold CallWorld.finish
  dsimp only
  split
  · next hnow =>
    refine hmarked.install hd.current ?_
    have hactive := hd.active
    show w.manager.keyActivationMs ≤ w.clock
    omega
  · refine ⟨hmarked.created, hmarked.past, hmarked.exposed, hmarked.stayed, hmarked.shared, hmarked.unkeyed,
      hmarked.settled, hmarked.sending, ?_, hmarked.targets, hmarked.installed⟩
    intro a ha
    rcases List.mem_cons.mp ha with rfl | ha
    · exact ⟨List.mem_map_of_mem (h.created d.key hd.current.1), fun _ => hd.active⟩
    · exact hmarked.asleep a ha

theorem KeySafe.distribute (h : KeySafe w) (hsending : w.sending = none) (hfresh : fresh ∉ w.created.map (·.1)) :
    KeySafe (w.distribute fresh) := by
  rcases h.update hsending hfresh with ⟨hupdated, hsendable⟩
  have hclock : (w.update fresh).2.clock = w.clock := rfl
  have hroster : (w.update fresh).2.roster = w.members := rfl
  unfold CallWorld.distribute
  rcases hresult : w.update fresh with ⟨distribution, w₁⟩
  rw [hresult] at hupdated hsendable hclock hroster
  cases distribution with
  | none => exact hupdated
  | some d =>
    have hd : Sendable w₁.manager w₁.clock w₁.roster d := by
      rw [hclock, hroster]
      exact hsendable d rfl
    dsimp only
    split
    · exact hupdated.finish hd []
    · exact hupdated.send hd

/-! ### The other steps -/

/-- A key that is still the newest when its sleep ends is active by then. -/
theorem KeySafe.wake (h : KeySafe w) {a : KeyActivation κ} (ha : a ∈ w.activations) (hdue : a.due ≤ w.clock) :
    KeySafe (wake a w) := by
  have herased : KeySafe { w with activations := w.activations.erase a } :=
    ⟨h.created, h.past, h.exposed, h.stayed, h.shared, h.unkeyed, h.settled, h.sending,
      fun b hb => h.asleep b (List.mem_of_mem_erase hb), h.targets, h.installed⟩
  unfold CallWorld.wake
  dsimp only
  split
  · next hcurrent =>
    exact herased.install hcurrent.2 (((h.asleep a ha).2 hcurrent.2.1).trans hdue)
  · exact herased

omit [DecidableEq κ] in
theorem KeySafe.tick (h : KeySafe w) (ms : Nat) : KeySafe { w with clock := w.clock + ms } := by
  refine ⟨h.created, h.past, h.exposed, h.stayed, h.shared, h.unkeyed, h.settled, ?_, h.asleep, h.targets, h.installed⟩
  intro d hd
  rcases h.sending d hd with ⟨hcurrent, hactive, htargets⟩
  refine ⟨hcurrent, ?_, htargets⟩
  show w.manager.keyActivationMs ≤ w.clock + ms + d.applyAfterMs
  omega

theorem keySafe_step (h : KeySafe w) (hstep : callStep label w = some w') : KeySafe w' := by
  cases label with
  | tick ms =>
    cases hstep
    exact h.tick ms
  | rosterChanged members =>
    cases hstep
    exact ⟨h.created, h.past, h.exposed, h.stayed, h.shared, h.unkeyed, h.settled, h.sending, h.asleep,
      h.targets, h.installed⟩
  | distribute fresh =>
    simp only [callStep, Option.ite_none_right_eq_some] at hstep
    rcases hstep with ⟨⟨hsending, -, hfresh⟩, hstep⟩
    cases hstep
    exact h.distribute hsending hfresh
  | sent delivered =>
    cases hsending : w.sending with
    | none => simp [callStep, hsending] at hstep
    | some d =>
      simp only [callStep, hsending, Option.ite_none_right_eq_some] at hstep
      obtain rfl := Option.some.inj hstep.2
      exact h.finish (h.sending d hsending) delivered
  | sendRaised =>
    cases hstep
    exact ⟨h.created, h.past, h.exposed, h.stayed, h.shared, h.unkeyed, h.settled, (fun d hd => by cases hd),
      h.asleep, h.targets, h.installed⟩
  | wake a =>
    simp only [callStep, Option.ite_none_right_eq_some] at hstep
    rcases hstep with ⟨⟨ha, hdue⟩, hstep⟩
    cases hstep
    exact h.wake ha hdue
  | stop =>
    cases hstep
    exact ⟨h.created, h.past, h.exposed, h.stayed, h.shared, h.unkeyed, h.settled, h.sending, h.asleep,
      h.targets, h.installed⟩

theorem keySafe_invariant : (callSystem κ).Invariant KeySafe where
  start := by
    rintro w ⟨userId, deviceId, clock, rfl⟩
    constructor
    · rintro key ⟨⟩
    · exact fun p hp => absurd hp List.not_mem_nil
    · rintro key share ⟨⟩
    · exact fun share hshare => absurd hshare List.not_mem_nil
    · exact fun share hshare => absurd hshare List.not_mem_nil
    · exact fun _ => rfl
    · rintro ⟨⟩
    · rintro d ⟨⟩
    · exact fun a ha => absurd ha List.not_mem_nil
    · exact fun t ht => absurd ht List.not_mem_nil
    · exact fun i hi => absurd hi List.not_mem_nil
  step label w w' h hstep := keySafe_step h hstep

/-- In every run of a call its keys are confined to the roster. -/
theorem keys_confined (h : (callSystem κ).Reachable w) : KeysConfined w := (keySafe_invariant.reachable h).confined

namespace LeaverRotation

def alice : CallMember := ⟨"@alice:h", "A", 1, 1000, none⟩

def bob : CallMember := ⟨"@bob:h", "B", 2, 1000, none⟩

/-- Alice gets the first key, Bob joins and gets it, Alice leaves while a send raises, and the key that
replaces it reaches Bob and is used. -/
def leaving : List (CallLabel Nat) :=
  [.rosterChanged [alice], .distribute 1, .sent [alice], .tick 500, .rosterChanged [alice, bob], .distribute 2,
    .sent [bob], .rosterChanged [bob], .distribute 3, .sendRaised, .tick 100, .distribute 4, .sent [bob],
    .distribute 5, .tick 900, .wake ⟨3, 1, 1500⟩]

def call : CallWorld Nat := { manager := ⟨"@bot:h", "C", none, 0, 0, 0, [], []⟩ }

theorem leaving_confined : ∃ w, w.manager.key = some 3 ∧ w.settled = true ∧
    w.installations.map (·.key) = [3, 1, 1] ∧ KeysConfined w := by
  have hrun : (System.follow (fun _ _ => True) callStep leaving call).any fun w =>
      w.manager.key = some 3 ∧ w.settled = true ∧ w.installations.map (·.key) = [3, 1, 1] := by decide +kernel
  rw [Option.any_eq_true] at hrun
  rcases hrun with ⟨w, hw, hboth⟩
  rcases of_decide_eq_true hboth with ⟨hkey, hsettled, hinstalled⟩
  have hstart : ((callSystem Nat).given fun _ _ => True).Reachable call := .start ⟨"@bot:h", "C", 0, rfl⟩
  refine ⟨w, hkey, hsettled, hinstalled, ?_⟩
  exact keys_confined (hstart.run (System.Run.of_follow (fun _ _ _ h => h) hw)).of_given

end LeaverRotation

end MindRoom
