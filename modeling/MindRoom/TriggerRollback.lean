import MindRoom.ReplayClaims
import MindRoom.TriggerDelivery

/-! # A failed trigger gives its claims back

A delivery that posted nothing, and whose releases went through, must leave neither its event id
in progress nor its thread key reserved, so that the trigger can be retried. Two exits keep the
event id: the one taken when the claim of the thread key raises, and the one taken when the send
is cancelled.
-/

namespace MindRoom

open ReplayStore

variable {o : DeliveryOutcomes} {snapshot : TriggerDeliverySnapshot} {disk : ReplayStore}
  {s : DeliveryState} {eventId : String} {E : String → String → Prop}
  {T : String → String → String → Prop}

/-- What a finished delivery owes: no message posted and every release done means no claim left. -/
def DeliveryState.Undone (s : DeliveryState) (disk : ReplayStore) : Prop :=
  s.posted = false → s.released = true → LeavesNoClaim disk s.store

/-- The reservation a delivery holds, if it holds one. -/
def HeldThread (scope : String) (threadKey threadReservation : Option String) (s k t : String) :
    Prop :=
  s = scope ∧ threadKey = some k ∧ threadReservation = some t

theorem posted_runReplayStoreCall {α : Type} {c : CallOutcome} {call : ReplayStore → α × ReplayStore} :
    (runReplayStoreCall c call s).2.posted = s.posted := by
  unfold runReplayStoreCall
  dsimp only
  split <;> rfl

/-- A call that is done answers what the store answers. -/
theorem runReplayStoreCall_done {α : Type} {call : ReplayStore → α × ReplayStore} :
    runReplayStoreCall .done call s = (.ok (call s.store).1, { s with store := (call s.store).2 }) :=
  rfl

/-- A call that raises ends the delivery. -/
theorem runReplayStoreCall_raised {α : Type} {written : Bool} {error : CallError}
    {call : ReplayStore → α × ReplayStore} : ∃ e, runReplayStoreCall (.raised written error) call s =
      (.error e, { s with store := if written then (call s.store).2 else s.store }) := by
  cases error with
  | declared => exact ⟨_, rfl⟩
  | other => exact ⟨_, rfl⟩
  | cancelled => exact ⟨_, rfl⟩

theorem consumeSingleUseTrigger_state : (consumeSingleUseTrigger o snapshot s).2 = s := by
  unfold consumeSingleUseTrigger
  split
  · rfl
  · cases o.consumeSingleUse with
    | done => rfl
    | raised written error => cases error <;> rfl

/-! ## The rollback -/

/-- A release that went through is done, and every release before it was. -/
theorem releaseBestEffort_state {c : CallOutcome} {release : ReplayStore → ReplayStore} :
    (releaseBestEffort c release s).2.posted = s.posted ∧ ((releaseBestEffort c release s).2.released = true →
        s.released = true ∧ (releaseBestEffort c release s).1 = .ok () ∧
          (releaseBestEffort c release s).2.store = release s.store) := by
  unfold releaseBestEffort
  cases c with
  | done =>
    refine ⟨rfl, ?_⟩
    intro hreleased
    have hs : s.released = true := by simpa using hreleased
    exact ⟨hs, rfl, rfl⟩
  | raised written error =>
    cases error <;> exact ⟨rfl, fun h => by simp at h⟩

/-- A rollback whose releases went through leaves no claim. -/
theorem rollback_state {threadKey threadReservation : Option String}
    (h : LeavesOnly disk s.store (fun s i => False ∨ (s = snapshot.replayScope ∧ i = eventId))
      (HeldThread snapshot.replayScope threadKey threadReservation)) :
    let r := rollbackFailedDelivery o snapshot eventId threadKey threadReservation s
    r.2.posted = s.posted ∧ (r.2.released = true → r.1 = .ok () ∧ LeavesNoClaim disk r.2.store) := by
  intro r
  have hreleaseEvent := @releaseBestEffort_state s o.releaseEventId
    (·.releaseEventId snapshot.replayScope eventId)
  cases hfirst : releaseBestEffort o.releaseEventId
      (·.releaseEventId snapshot.replayScope eventId) s with
  | mk result s₁ =>
  rw [hfirst] at hreleaseEvent
  rcases hreleaseEvent with ⟨hposted, hdone⟩
  cases result with
  | error e =>
    have hr : r = (.error e, s₁) := Delivery.bind_of_error hfirst
    rw [hr]
    refine ⟨hposted, ?_⟩
    intro hreleased
    cases (hdone hreleased).2.1
  | ok _ =>
    have hr : r = _ := Delivery.bind_of_ok hfirst
    have hevents : s₁.released = true → LeavesOnly disk s₁.store (fun _ _ => False)
        (HeldThread snapshot.replayScope threadKey threadReservation) := by
      intro hreleased
      have hstore : s₁.store = s.store.releaseEventId snapshot.replayScope eventId :=
        (hdone hreleased).2.2
      rw [hstore]
      exact h.releaseEventId
    rw [hr]
    cases threadKey with
    | none =>
      refine ⟨hposted, fun hreleased => ⟨rfl, (hevents hreleased).mono (fun _ _ hE => hE) ?_⟩⟩
      rintro s' k t ⟨-, hkey, -⟩
      cases hkey
    | some threadKey =>
      cases threadReservation with
      | none =>
        refine ⟨hposted, fun hreleased => ⟨rfl, (hevents hreleased).mono (fun _ _ hE => hE) ?_⟩⟩
        rintro s' k t ⟨-, -, hheld⟩
        cases hheld
      | some reservation =>
        have hreleaseThread := @releaseBestEffort_state s₁ o.releaseThreadKey
          (·.releaseThreadKey snapshot.replayScope threadKey reservation)
        refine ⟨hreleaseThread.1.trans hposted, fun hreleased => ?_⟩
        rcases hreleaseThread.2 hreleased with ⟨hreleased₁, hok, hstore⟩
        refine ⟨hok, ?_⟩
        dsimp only
        rw [hstore]
        refine LeavesOnly.releaseThreadKey ((hevents hreleased₁).mono (fun _ _ hE => hE) ?_)
        rintro s' k t ⟨rfl, hkey, hheld⟩
        cases hkey
        cases hheld
        exact .inr ⟨rfl, rfl, rfl⟩

/-! ## The send and what follows -/

/-- A posted message stays posted. -/
theorem posted_recordDelivery {matrixEventId : String}
    {threadKey continueThreadEventId threadReservation : Option String} (h : s.posted = true) :
    (recordDelivery o snapshot eventId matrixEventId threadKey continueThreadEventId
      threadReservation s).2.posted = true := by
  have hcall : ∀ {α β : Type} (c : CallOutcome) (call : ReplayStore → α × ReplayStore)
      (f : α → Delivery β) (t : DeliveryState), t.posted = true →
      (∀ a t', t'.posted = true → (f a t').2.posted = true) →
      ((runReplayStoreCall c call >>= f) t).2.posted = true := by
    intro α β c call f t ht hf
    have hposted := @posted_runReplayStoreCall t α c call
    rw [Delivery.bind_apply]
    cases hrun : runReplayStoreCall c call t with
    | mk result t' =>
      rw [hrun] at hposted
      cases result with
      | ok a => exact hf a t' (hposted.trans ht)
      | error e => exact hposted.trans ht
  have hconsume : ∀ {β : Type} (f : Unit → Delivery β) (t : DeliveryState), t.posted = true →
      (∀ a t', t'.posted = true → (f a t').2.posted = true) →
      ((consumeSingleUseTrigger o snapshot >>= f) t).2.posted = true := by
    intro β f t ht hf
    have hstate := @consumeSingleUseTrigger_state o snapshot t
    rw [Delivery.bind_apply]
    cases hrun : consumeSingleUseTrigger o snapshot t with
    | mk result t' =>
      rw [hrun] at hstate
      have hstate : t' = t := hstate
      subst hstate
      cases result with
      | ok a => exact hf a t' ht
      | error e => exact ht
  have htail : ∀ (a : Unit) (t : DeliveryState), t.posted = true →
      ((runReplayStoreCall o.markEventDelivered (fun store => ((), store.markEventDelivered
          snapshot.replayScope eventId o.deliveredAt deliveredEventIdTtlSeconds)) >>= fun _ =>
        consumeSingleUseTrigger o snapshot >>= fun _ =>
          (pure ⟨true, false, snapshot.triggerId, eventId, some matrixEventId⟩ :
            Delivery ExternalTriggerAcceptedResponse)) t).2.posted = true := by
    intro _ t ht
    exact hcall _ _ _ t ht fun _ t' ht' => hconsume _ t' ht' fun _ _ ht'' => ht''
  unfold recordDelivery
  cases threadKey with
  | none => exact htail () s h
  | some threadKey => exact hcall _ _ _ s h fun _ t' ht' => htail () t' ht'

/-- A delivery posts, or is cancelled in the send, or undoes its claims. -/
theorem deliverTrigger_state {threadKey continueThreadEventId threadReservation : Option String}
    (h : LeavesOnly disk s.store (fun s i => False ∨ (s = snapshot.replayScope ∧ i = eventId))
      (HeldThread snapshot.replayScope threadKey threadReservation)) :
    let r := deliverTrigger o snapshot eventId threadKey continueThreadEventId threadReservation s
    (o.send = .raised .cancelled ∧ r.2 = s) ∨
      (o.send ≠ .raised .cancelled ∧ r.2.Undone disk) := by
  intro r
  have hundo : ∀ e : DeliveryError, ((rollbackFailedDelivery o snapshot eventId threadKey threadReservation >>= fun _ =>
        (Delivery.raise e : Delivery String)) s).2.Undone disk ∧
      ∃ e', ((rollbackFailedDelivery o snapshot eventId threadKey threadReservation >>= fun _ =>
        (Delivery.raise e : Delivery String)) s).1 = .error e' := by
    intro e
    have hrollback := rollback_state (o := o) h
    rw [Delivery.bind_apply]
    cases hrun : rollbackFailedDelivery o snapshot eventId threadKey threadReservation s with
    | mk result s' =>
      rw [hrun] at hrollback
      cases result with
      | ok a => exact ⟨fun _ hreleased => (hrollback.2 hreleased).2, e, rfl⟩
      | error e' => exact ⟨fun _ hreleased => (hrollback.2 hreleased).2, e', rfl⟩
  have hfails : ∀ t e, sendTrigger o snapshot eventId threadKey threadReservation s = (.error e, t) →
      r.2 = t := by
    intro t e hsend
    have hr : r = (.error e, t) := Delivery.bind_of_error hsend
    rw [hr]
  have hraises : ∀ e : DeliveryError, sendTrigger o snapshot eventId threadKey threadReservation =
      (rollbackFailedDelivery o snapshot eventId threadKey threadReservation >>= fun _ =>
        (Delivery.raise e : Delivery String)) → r.2.Undone disk := by
    intro e hsend
    rcases hundo e with ⟨hundone, e', herror⟩
    rw [hfails _ e' (Prod.ext (by rw [hsend]; exact herror) (by rw [hsend]))]
    exact hundone
  cases hsend : o.send with
  | posted matrixEventId =>
    right
    refine ⟨nofun, ?_⟩
    have hr : r = recordDelivery o snapshot eventId matrixEventId threadKey continueThreadEventId
        threadReservation { s with posted := true } := by
      refine Delivery.bind_of_ok ?_
      unfold sendTrigger
      rw [hsend]
    intro hposted
    rw [hr, posted_recordDelivery rfl] at hposted
    cases hposted
  | nothing =>
    right
    refine ⟨nofun, hraises (.http 502 "External trigger delivery failed") ?_⟩
    unfold sendTrigger
    rw [hsend]
  | raised error =>
    cases error with
    | cancelled =>
      left
      refine ⟨rfl, hfails s (.call .cancelled) ?_⟩
      unfold sendTrigger
      rw [hsend]
      rfl
    | declared =>
      right
      refine ⟨nofun, hraises (.call .declared) ?_⟩
      unfold sendTrigger
      rw [hsend]
    | other =>
      right
      refine ⟨nofun, hraises (.call .other) ?_⟩
      unfold sendTrigger
      rw [hsend]

/-! ## The whole delivery -/

/-- The delivery reaches its event claim with the event id free. -/
structure TakesEventId (o : DeliveryOutcomes) (snapshot : TriggerDeliverySnapshot)
    (payload : ExternalTriggerPayload) (signatureHeaders : Option TriggerSignatureHeaders)
    (disk : ReplayStore) (eventId : String) : Prop where
  named : deliveryEventId snapshot payload signatureHeaders = .ok eventId
  controlStateRoot : o.controlStateRoot = true
  nonce : ∀ headers, signatureHeaders = some headers →
    o.claimNonce = .done ∧ disk.NonceFree snapshot.replayScope headers.nonce o.now
  free : disk.EventFree snapshot.replayScope eventId o.now

/-- With the event id claimed, the claim of the thread key raises or the send is cancelled. -/
def LeavesBetweenHandlers (o : DeliveryOutcomes) (snapshot : TriggerDeliverySnapshot)
    (payload : ExternalTriggerPayload) (disk : ReplayStore) : Prop :=
  match deliveryThreadKey snapshot payload with
  | none => o.send = .raised .cancelled
  | some threadKey =>
    (∃ written error, o.claimThreadKey = .raised written error) ∨
      (o.claimThreadKey = .done ∧
        ¬ disk.ThreadPending snapshot.replayScope threadKey snapshot.resolvedRoomId o.now ∧
        o.send = .raised .cancelled)

/-- The delivery takes its event id and ends where nothing gives it back. -/
def KeepsEventId (o : DeliveryOutcomes) (snapshot : TriggerDeliverySnapshot)
    (payload : ExternalTriggerPayload) (signatureHeaders : Option TriggerSignatureHeaders)
    (disk : ReplayStore) : Prop :=
  ∃ eventId, TakesEventId o snapshot payload signatureHeaders disk eventId ∧
    ((∃ error, o.claimEventId = .raised true error) ∨
      (o.claimEventId = .done ∧ LeavesBetweenHandlers o snapshot payload disk))

/-- An event id newly in progress is a claim left behind. -/
theorem not_undone {e : Int} (hposted : s.posted = false) (hreleased : s.released = true)
    (hin : s.store.InProgress snapshot.replayScope eventId e)
    (hnew : ¬ disk.InProgress snapshot.replayScope eventId e) : ¬ s.Undone disk := by
  intro hundone
  rcases (hundone hposted hreleased).events _ _ _ hin with hold | hfalse
  · exact hnew hold
  · exact hfalse

/-- From a claimed event id on. -/
theorem claimThreadAndDeliver_state {payload : ExternalTriggerPayload} {e : Int}
    (hposted : s.posted = false) (hreleased : s.released = true) (honly : LeavesOnly disk s.store
      (fun s i => False ∨ (s = snapshot.replayScope ∧ i = eventId)) fun _ _ _ => False)
    (hin : s.store.InProgress snapshot.replayScope eventId e) (he : o.now ≤ e)
    (hnew : ¬ disk.InProgress snapshot.replayScope eventId e) (hpending : ∀ threadKey,
      s.store.ThreadPending snapshot.replayScope threadKey snapshot.resolvedRoomId o.now ↔
        disk.ThreadPending snapshot.replayScope threadKey snapshot.resolvedRoomId o.now) :
    (claimThreadAndDeliver o snapshot payload eventId s).2.Undone disk ↔
      ¬ LeavesBetweenHandlers o snapshot payload disk := by
  unfold claimThreadAndDeliver LeavesBetweenHandlers
  cases hkey : deliveryThreadKey snapshot payload with
  | none =>
    dsimp only
    have hdeliver := @deliverTrigger_state o snapshot disk s eventId none none none
      (honly.mono (fun _ _ hE => hE) fun _ _ _ hfalse => hfalse.elim)
    rcases hdeliver with ⟨hcancelled, hsame⟩ | ⟨hnot, hundone⟩
    · rw [hsame]
      exact iff_of_false (not_undone hposted hreleased hin hnew) (not_not.mpr hcancelled)
    · exact iff_of_true hundone hnot
  | some threadKey =>
    dsimp only
    have hclaim := @LeavesOnly.claimThreadKey _ _ snapshot.replayScope threadKey o.token _ _
      o.now pendingThreadKeyTtlSeconds snapshot.resolvedRoomId honly
    have hkept := @inProgress_claimThreadKey s.store snapshot.replayScope eventId threadKey o.token
      snapshot.resolvedRoomId o.now pendingThreadKeyTtlSeconds _ hin he
    cases hcall : o.claimThreadKey with
    | raised written error =>
      rcases @runReplayStoreCall_raised s _ written error (·.claimThreadKey snapshot.replayScope
        threadKey snapshot.resolvedRoomId o.token o.now pendingThreadKeyTtlSeconds)
        with ⟨e', hrun⟩
      rw [Delivery.bind_of_error hrun]
      refine iff_of_false (not_undone hposted hreleased ?_ hnew)
        (not_not.mpr (.inl ⟨written, error, rfl⟩))
      cases written with
      | true => exact hkept
      | false => exact hin
    | done =>
      rw [Delivery.bind_of_ok runReplayStoreCall_done]
      have hpend := @claimThreadKey_eq_pending s.store snapshot.replayScope threadKey o.token
        o.now pendingThreadKeyTtlSeconds snapshot.resolvedRoomId
      have hunheld := @claimThreadKey_of_ne_fresh s.store snapshot.replayScope threadKey o.token
        o.now pendingThreadKeyTtlSeconds snapshot.resolvedRoomId
      have hrefused := @claimThreadKey_of_pending s.store snapshot.replayScope threadKey o.token
        o.now pendingThreadKeyTtlSeconds snapshot.resolvedRoomId
      have hheld := @claimThreadKey_reservation s.store snapshot.replayScope threadKey o.token
        o.now pendingThreadKeyTtlSeconds snapshot.resolvedRoomId
      generalize s.store.claimThreadKey snapshot.replayScope threadKey
        snapshot.resolvedRoomId o.token o.now pendingThreadKeyTtlSeconds = result at *
      rcases result with ⟨⟨claim, root, reservation⟩, store⟩
      dsimp only at *
      by_cases hpending' : claim = .pending
      · -- the key is being opened by another delivery: only the event id was taken
        rw [if_pos hpending']
        refine iff_of_true ?_ ?_
        · have hrelease := @releaseBestEffort_state { s with store := store } o.releaseEventId
            (·.releaseEventId snapshot.replayScope eventId)
          rw [Delivery.bind_apply]
          cases hrun : releaseBestEffort o.releaseEventId
              (·.releaseEventId snapshot.replayScope eventId) { s with store := store } with
          | mk outcome s' =>
            rw [hrun] at hrelease
            have hundone : s'.Undone disk := by
              intro _ hreleased'
              have hstore : s'.store = store.releaseEventId snapshot.replayScope eventId :=
                (hrelease.2 hreleased').2.2
              rw [hstore, hunheld (hrefused hpending')]
              exact honly.releaseEventId
            cases outcome with
            | ok _ => exact hundone
            | error _ => exact hundone
        · rintro (⟨written, error, hraised⟩ | ⟨-, hnot, -⟩)
          · cases hraised
          · exact hnot ((hpending threadKey).mp (hpend.mp hpending'))
      · rw [if_neg hpending']
        have hholds : LeavesOnly disk store
            (fun s i => False ∨ (s = snapshot.replayScope ∧ i = eventId))
            (HeldThread snapshot.replayScope (some threadKey) reservation) := by
          rcases hheld with hnone | htoken
          · rw [hunheld hnone]
            exact honly.mono (fun _ _ hE => hE) fun _ _ _ hfalse => hfalse.elim
          · refine hclaim.mono (fun _ _ hE => hE) ?_
            rintro s' k t (hfalse | ⟨rfl, rfl, rfl⟩)
            · exact hfalse.elim
            · exact ⟨rfl, rfl, htoken⟩
        rcases @deliverTrigger_state o _ _ { s with store := store } _ _ root _ hholds with ⟨hcancelled, hsame⟩ | ⟨hnot, hundone⟩
        · rw [hsame]
          refine iff_of_false (not_undone hposted hreleased hkept hnew) (not_not.mpr ?_)
          refine .inr ⟨rfl, ?_, hcancelled⟩
          intro hthread
          exact hpending' (hpend.mpr ((hpending threadKey).mpr hthread))
        · refine iff_of_true hundone ?_
          rintro (⟨written, error, hraised⟩ | ⟨-, -, hcancelled⟩)
          · cases hraised
          · exact hnot hcancelled

/-- The nonce stage claims nothing else, and goes on when the nonce is claimed. -/
theorem claimRequestNonce_state {signatureHeaders : Option TriggerSignatureHeaders} :
    let r := claimRequestNonce o snapshot signatureHeaders ⟨disk, false, true⟩
    r.2.posted = false ∧ r.2.released = true ∧
      LeavesOnly disk r.2.store (fun _ _ => False) (fun _ _ _ => False) ∧
      (∀ s i, (r.2.store.pruneExpired o.now).events.record? s i =
        (disk.pruneExpired o.now).events.record? s i) ∧
      (∀ s k, (r.2.store.pruneExpired o.now).threads.record? s k =
        (disk.pruneExpired o.now).threads.record? s k) ∧
      (r.1 = .ok () ↔ ∀ headers, signatureHeaders = some headers →
        o.claimNonce = .done ∧ disk.NonceFree snapshot.replayScope headers.nonce o.now) := by
  cases signatureHeaders with
  | none =>
    refine ⟨rfl, rfl, .refl, fun _ _ => rfl, fun _ _ => rfl, fun _ _ h => ?_, fun _ => rfl⟩
    cases h
  | some headers =>
    intro r
    have hr : r = (runReplayStoreCall o.claimNonce (·.claimNonce snapshot.replayScope headers.nonce
        o.now snapshot.replayWindowSeconds) >>= fun claimed => if claimed then pure () else
          (Delivery.raise (.http 409 "External trigger nonce has already been used") :
            Delivery Unit)) ⟨disk, false, true⟩ := rfl
    cases hcall : o.claimNonce with
    | raised written error =>
      rcases @runReplayStoreCall_raised ⟨disk, false, true⟩ _ written error
        (·.claimNonce snapshot.replayScope headers.nonce o.now snapshot.replayWindowSeconds)
        with ⟨e, hrun⟩
      rw [hcall, Delivery.bind_of_error hrun] at hr
      rw [hr]
      refine ⟨rfl, rfl, ?_, ?_, ?_, ?_⟩
      · cases written with
        | true => exact LeavesOnly.refl.claimNonce
        | false => exact .refl
      · cases written with
        | true => exact fun s i => events_claimNonce s i
        | false => exact fun _ _ => rfl
      · cases written with
        | true => exact fun s k => threads_claimNonce s k
        | false => exact fun _ _ => rfl
      · refine iff_of_false nofun ?_
        intro h
        cases (h headers rfl).1
    | done =>
      rw [hcall, Delivery.bind_of_ok runReplayStoreCall_done] at hr
      have hstate : r.2 = ⟨(disk.claimNonce snapshot.replayScope headers.nonce o.now
          snapshot.replayWindowSeconds).2, false, true⟩ := by
        rw [hr]
        split <;> rfl
      have hok : r.1 = .ok () ↔ (disk.claimNonce snapshot.replayScope headers.nonce o.now
          snapshot.replayWindowSeconds).1 = true := by
        rw [hr]
        split
        · next htrue => exact iff_of_true rfl htrue
        · next hfalse => exact iff_of_false nofun hfalse
      rw [hstate]
      refine ⟨rfl, rfl, LeavesOnly.refl.claimNonce, fun s i => events_claimNonce s i,
        fun s k => threads_claimNonce s k, ?_⟩
      rw [hok, claimNonce_eq_true]
      constructor
      · intro hfree headers' hheaders
        cases hheaders
        exact ⟨rfl, hfree⟩
      · intro h
        exact (h headers rfl).2

/-- A delivery that posted nothing and released what it could leaves no claim, unless it keeps
its event id. -/
theorem failed_trigger_leaves_no_claim (o : DeliveryOutcomes) (snapshot : TriggerDeliverySnapshot)
    (payload : ExternalTriggerPayload) (signatureHeaders : Option TriggerSignatureHeaders) (disk : ReplayStore) :
    (claimAndExecuteTrigger o snapshot payload signatureHeaders ⟨disk, false, true⟩).2.Undone disk ↔
      ¬ KeepsEventId o snapshot payload signatureHeaders disk := by
  unfold claimAndExecuteTrigger
  cases hname : deliveryEventId snapshot payload signatureHeaders with
  | error e =>
    refine iff_of_true (fun _ _ => .refl) ?_
    rintro ⟨eventId, htakes, -⟩
    have hnamed := htakes.named
    rw [hname] at hnamed
    cases hnamed
  | ok eventId =>
    have hid : ∀ {id}, TakesEventId o snapshot payload signatureHeaders disk id → id = eventId := by
      intro id htakes
      have := htakes.named
      rw [hname] at this
      cases this
      rfl
    dsimp only
    by_cases hroot : o.controlStateRoot = false
    · rw [if_pos hroot]
      refine iff_of_true (fun _ _ => .refl) ?_
      rintro ⟨_, htakes, -⟩
      have htrue := htakes.controlStateRoot
      rw [hroot] at htrue
      cases htrue
    · rw [if_neg hroot]
      have hnonce := @claimRequestNonce_state o snapshot disk signatureHeaders
      cases hrun : claimRequestNonce o snapshot signatureHeaders ⟨disk, false, true⟩ with
      | mk result s =>
      rw [hrun] at hnonce
      rcases hnonce with ⟨hposted, hreleased, honly, hevents, hthreads, hgoes⟩
      dsimp only at hposted hreleased honly hevents hthreads hgoes
      cases result with
      | error e =>
        rw [Delivery.bind_of_error hrun]
        refine iff_of_true (fun _ _ => honly) ?_
        rintro ⟨_, htakes, -⟩
        cases hgoes.mpr htakes.nonce
      | ok _ =>
        rw [Delivery.bind_of_ok hrun]
        have hfree : s.store.EventFree snapshot.replayScope eventId o.now ↔
            disk.EventFree snapshot.replayScope eventId o.now := by
          unfold EventFree
          rw [hevents]
        have htakes : s.store.EventFree snapshot.replayScope eventId o.now →
            TakesEventId o snapshot payload signatureHeaders disk eventId := fun h =>
          ⟨hname, by simpa using hroot, hgoes.mp rfl, hfree.mp h⟩
        have hnew : s.store.EventFree snapshot.replayScope eventId o.now →
            ¬ disk.InProgress snapshot.replayScope eventId
              (o.now + inProgressEventIdTtlSeconds) := fun h =>
          (hfree.mp h).not_inProgress (by unfold inProgressEventIdTtlSeconds; omega)
        have hclaimed : s.store.EventFree snapshot.replayScope eventId o.now →
            (s.store.claimEventId snapshot.replayScope eventId o.now
              inProgressEventIdTtlSeconds).2.InProgress snapshot.replayScope eventId
              (o.now + inProgressEventIdTtlSeconds) := inProgress_claimEventId
        cases hcall : o.claimEventId with
        | raised written error =>
          rcases @runReplayStoreCall_raised s _ written error (·.claimEventId
            snapshot.replayScope eventId o.now inProgressEventIdTtlSeconds) with ⟨e, hfail⟩
          rw [Delivery.bind_of_error hfail]
          by_cases hleft : written = true ∧ s.store.EventFree snapshot.replayScope eventId o.now
          · rcases hleft with ⟨rfl, hleft⟩
            exact iff_of_false (not_undone hposted hreleased (hclaimed hleft) (hnew hleft))
              (not_not.mpr ⟨eventId, htakes hleft, .inl ⟨error, hcall⟩⟩)
          · refine iff_of_true (fun _ _ => ?_) ?_
            · cases written with
              | false => exact honly
              | true =>
                have hsame := @claimEventId_of_not_free _ _ _ _ inProgressEventIdTtlSeconds
                  (fun h => hleft ⟨rfl, h⟩)
                dsimp only
                rw [if_pos rfl, hsame]
                exact honly
            · rintro ⟨id, htaken, ⟨error', hraised⟩ | ⟨hdone, -⟩⟩
              · cases hid htaken
                rw [hcall] at hraised
                cases hraised
                exact hleft ⟨rfl, hfree.mpr htaken.free⟩
              · rw [hcall] at hdone
                cases hdone
        | done =>
          rw [Delivery.bind_of_ok runReplayStoreCall_done]
          by_cases hleft : s.store.EventFree snapshot.replayScope eventId o.now
          · have hfresh := (@claimEventId_eq_fresh _ _ _ _ inProgressEventIdTtlSeconds).mpr hleft
            rw [hfresh]
            have hrest := @claimThreadAndDeliver_state o snapshot disk
              { s with store := (s.store.claimEventId snapshot.replayScope eventId o.now
                inProgressEventIdTtlSeconds).2 } eventId payload _ hposted hreleased honly.claimEventId
              (hclaimed hleft) (by unfold inProgressEventIdTtlSeconds; omega) (hnew hleft) (by
                intro threadKey
                unfold ThreadPending
                rw [threads_claimEventId, hthreads])
            refine hrest.trans (not_congr ⟨fun h => ⟨eventId, htakes hleft, .inr ⟨hcall, h⟩⟩, ?_⟩)
            rintro ⟨_, -, ⟨error, hraised⟩ | ⟨-, h⟩⟩
            · rw [hcall] at hraised
              cases hraised
            · exact h
          · have hsame := @claimEventId_of_not_free _ _ _ _ inProgressEventIdTtlSeconds hleft
            have hnot : ¬ KeepsEventId o snapshot payload signatureHeaders disk := by
              rintro ⟨id, htaken, -⟩
              cases hid htaken
              exact hleft (hfree.mpr htaken.free)
            have hstale := mt (@claimEventId_eq_fresh _ _ _ _ inProgressEventIdTtlSeconds).mp hleft
            rw [hsame]
            refine iff_of_true ?_ hnot
            cases hclaim : (s.store.claimEventId snapshot.replayScope eventId o.now
                inProgressEventIdTtlSeconds).1 with
            | fresh => exact absurd hclaim hstale
            | inProgress => exact fun _ _ => honly
            | delivered =>
              dsimp only
              have hstate := @consumeSingleUseTrigger_state o snapshot s
              rw [Delivery.bind_apply]
              cases hconsume : consumeSingleUseTrigger o snapshot s with
              | mk outcome s' =>
                rw [hconsume] at hstate
                have hstate : s' = s := hstate
                subst hstate
                cases outcome with
                | ok _ => exact fun _ _ => honly
                | error _ => exact fun _ _ => honly

namespace ThreadClaimFails

/-- A reusable trigger that opens a thread for each key. -/
def campground : TriggerDeliverySnapshot :=
  ⟨"campground", "uid-1", .reusable, true, "!room:example.org", "campground:1", 300⟩

def opening : ExternalTriggerPayload := ⟨some "availability-123", some "site-7"⟩

/-- The replay store cannot be read when the thread key is claimed, and everything else works. -/
def outcomes : DeliveryOutcomes where
  controlStateRoot := true
  now := 1710000000
  claimNonce := .done
  claimEventId := .done
  claimThreadKey := .raised false .declared
  token := "0123456789abcdef0123456789abcdef"
  send := .posted "$event"
  boundAt := 1710000001
  bindThreadRoot := .done
  deliveredAt := 1710000001
  markEventDelivered := .done
  consumeSingleUse := .done
  releaseEventId := .done
  releaseThreadKey := .done

def failed : DeliveryState :=
  (claimAndExecuteTrigger outcomes campground opening none ⟨∅, false, true⟩).2

/-- The event id stays claimed for a day, and no release was tried. -/
theorem failed_keeps : failed.posted = false ∧ failed.released = true ∧
    failed.store.InProgress "campground:1" "availability-123" 1710086400 := by
  unfold InProgress
  decide +kernel

theorem not_failed_trigger_leaves_no_claim : ¬ ∀ (o : DeliveryOutcomes) (snapshot : TriggerDeliverySnapshot)
      (payload : ExternalTriggerPayload) (signatureHeaders : Option TriggerSignatureHeaders)
      (disk : ReplayStore),
      (claimAndExecuteTrigger o snapshot payload signatureHeaders
        ⟨disk, false, true⟩).2.Undone disk := by
  intro h
  rcases failed_keeps with ⟨hposted, hreleased, hin⟩
  have hundone := h outcomes campground opening none ∅ hposted hreleased
  rcases hundone.events _ _ _ hin with hbefore | hfalse
  · cases hbefore
  · exact hfalse

end ThreadClaimFails

end MindRoom
