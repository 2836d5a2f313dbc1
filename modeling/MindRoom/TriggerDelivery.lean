import MindRoom.ReplayStore
import MindRoom.TriggerAuth

/-! # Delivering a trigger

`_claim_and_execute_trigger` of `api/external_triggers.py`: it claims the nonce, the event id and
the thread key of a trigger one after another, posts the message, and records the delivery. Every
outside call may raise, and a raising call of the replay store may or may not have replaced the
file. A trigger that ends without a message in the room must take its event id and its thread
reservation back.
-/

namespace MindRoom

/-- What a failing call raises: the error its own store declares, some other exception, or a
cancellation, which `except Exception` does not catch. -/
inductive CallError where
  | declared
  | other
  | cancelled
deriving DecidableEq

/-- How one call of a store ends. A call that raises may have written before. -/
inductive CallOutcome where
  | done
  | raised (written : Bool) (error : CallError)
deriving DecidableEq

/-- How `execute_external_trigger` ends. -/
inductive SendOutcome where
  | posted (matrixEventId : String)
  | nothing
  | raised (error : CallError)
deriving DecidableEq

/-- What the outside world answers to one delivery. -/
structure DeliveryOutcomes where
  controlStateRoot : Bool
  now : Int
  claimNonce : CallOutcome
  claimEventId : CallOutcome
  claimThreadKey : CallOutcome
  token : String
  send : SendOutcome
  boundAt : Int
  bindThreadRoot : CallOutcome
  deliveredAt : Int
  markEventDelivered : CallOutcome
  consumeSingleUse : CallOutcome
  releaseEventId : CallOutcome
  releaseThreadKey : CallOutcome

inductive DeliveryMode where
  | reusable
  | singleUse
deriving DecidableEq

structure TriggerDeliverySnapshot where
  triggerId : String
  uid : String
  deliveryMode : DeliveryMode
  newThread : Bool
  resolvedRoomId : String
  replayScope : String
  replayWindowSeconds : Int
deriving DecidableEq

/-- The parts of a trigger's body the claims read. -/
structure ExternalTriggerPayload where
  eventId : Option String
  threadKey : Option String
deriving DecidableEq

structure ExternalTriggerAcceptedResponse where
  accepted : Bool
  duplicate : Bool
  triggerId : String
  eventId : String
  matrixEventId : Option String
deriving DecidableEq

/-- What a delivery raises: an answer to the client, or what a call raised. -/
inductive DeliveryError where
  | http (statusCode : Nat) (detail : String)
  | call (error : CallError)
deriving DecidableEq

/-- The replay store's file, whether a message was posted, and whether every release so far
went through. -/
structure DeliveryState where
  store : ReplayStore
  posted : Bool
  released : Bool

/-- A delivery's effects last also when it raises. -/
def Delivery (α : Type) : Type := DeliveryState → Except DeliveryError α × DeliveryState

namespace Delivery

variable {α β : Type}

instance : Monad Delivery where
  pure a s := (.ok a, s)
  bind m f s :=
    match m s with
    | (.ok a, s') => f a s'
    | (.error e, s') => (.error e, s')

def raise (e : DeliveryError) : Delivery α := fun s => (.error e, s)

@[simp] theorem pure_apply {a : α} {s : DeliveryState} : (pure a : Delivery α) s = (.ok a, s) := rfl

@[simp] theorem raise_apply {e : DeliveryError} {s : DeliveryState} : (raise e : Delivery α) s = (.error e, s) := rfl

theorem bind_apply {m : Delivery α} {f : α → Delivery β} {s : DeliveryState} : (m >>= f) s = match m s with
      | (.ok a, s') => f a s'
      | (.error e, s') => (.error e, s') := rfl

theorem bind_of_ok {m : Delivery α} {f : α → Delivery β} {s s' : DeliveryState} {a : α}
    (h : m s = (.ok a, s')) : (m >>= f) s = f a s' := by
  rw [bind_apply, h]

theorem bind_of_error {m : Delivery α} {f : α → Delivery β} {s s' : DeliveryState}
    {e : DeliveryError} (h : m s = (.error e, s')) : (m >>= f) s = (.error e, s') := by
  rw [bind_apply, h]

end Delivery

open Delivery

/-! ## The calls -/

def inProgressEventIdTtlSeconds : Int := 86400

def deliveredEventIdTtlSeconds : Int := 86400

def threadKeyTtlSeconds : Int := 7 * 86400

def pendingThreadKeyTtlSeconds : Int := 300

/-- The file after a call that ends this way. -/
def CallOutcome.leaves (o : CallOutcome) (before after : ReplayStore) : ReplayStore :=
  match o with
  | .done => after
  | .raised written _ => if written then after else before

def runReplayStoreCall {α : Type} (o : CallOutcome) (call : ReplayStore → α × ReplayStore) :
    Delivery α := fun s =>
  let result := call s.store
  let s' := { s with store := o.leaves s.store result.2 }
  match o with
  | .done => (.ok result.1, s')
  | .raised _ .declared =>
    (.error (.http 503 "External trigger replay store is not available"), s')
  | .raised _ error => (.error (.call error), s')

/-- A release that logs every exception it catches. -/
def releaseBestEffort (o : CallOutcome) (release : ReplayStore → ReplayStore) : Delivery Unit :=
  fun s =>
    let s' := { s with
      store := o.leaves s.store (release s.store)
      released := s.released && o = .done }
    match o with
    | .raised _ .cancelled => (.error (.call .cancelled), s')
    | _ => (.ok (), s')

/-- Undo replay claims after a failed send without masking the failure. -/
def rollbackFailedDelivery (o : DeliveryOutcomes) (snapshot : TriggerDeliverySnapshot)
    (eventId : String) (threadKey threadReservation : Option String) : Delivery Unit := do
  releaseBestEffort o.releaseEventId (·.releaseEventId snapshot.replayScope eventId)
  match threadKey, threadReservation with
  | some threadKey, some reservation =>
    releaseBestEffort o.releaseThreadKey
      (·.releaseThreadKey snapshot.replayScope threadKey reservation)
  | _, _ => pure ()

def consumeSingleUseTrigger (o : DeliveryOutcomes) (snapshot : TriggerDeliverySnapshot) :
    Delivery Unit :=
  if snapshot.deliveryMode ≠ .singleUse then pure ()
  else match o.consumeSingleUse with
    | .done => pure ()
    | .raised _ .declared => raise (.http 503 "Single-use trigger could not be consumed")
    | .raised _ error => raise (.call error)

def reusableEventId (payload : ExternalTriggerPayload)
    (signatureHeaders : Option TriggerSignatureHeaders) : Except DeliveryError String :=
  match payload.eventId, signatureHeaders with
  | some eventId, _ => .ok eventId
  | none, none => .error (.http 422 "Reusable triggers require an event id")
  | none, some headers => .ok headers.nonce

def deliveryEventId (snapshot : TriggerDeliverySnapshot) (payload : ExternalTriggerPayload)
    (signatureHeaders : Option TriggerSignatureHeaders) : Except DeliveryError String :=
  if snapshot.deliveryMode = .singleUse then .ok snapshot.uid
  else reusableEventId payload signatureHeaders

/-! ## The delivery -/

def claimRequestNonce (o : DeliveryOutcomes) (snapshot : TriggerDeliverySnapshot)
    (signatureHeaders : Option TriggerSignatureHeaders) : Delivery Unit :=
  match signatureHeaders with
  | none => pure ()
  | some headers => do
      let claimed ← runReplayStoreCall o.claimNonce
        (·.claimNonce snapshot.replayScope headers.nonce o.now snapshot.replayWindowSeconds)
      if claimed then pure ()
      else raise (.http 409 "External trigger nonce has already been used")

/-- Send the message; every exception it raises, and a message that was not sent, undo the claims. -/
def sendTrigger (o : DeliveryOutcomes) (snapshot : TriggerDeliverySnapshot) (eventId : String)
    (threadKey threadReservation : Option String) : Delivery String :=
  match o.send with
  | .posted matrixEventId => fun s => (.ok matrixEventId, { s with posted := true })
  | .nothing => do
      rollbackFailedDelivery o snapshot eventId threadKey threadReservation
      raise (.http 502 "External trigger delivery failed")
  | .raised .cancelled => raise (.call .cancelled)
  | .raised error => do
      rollbackFailedDelivery o snapshot eventId threadKey threadReservation
      raise (.call error)

/-- Record a posted message: its thread root, its event id, the trigger's single use. -/
def recordDelivery (o : DeliveryOutcomes) (snapshot : TriggerDeliverySnapshot)
    (eventId matrixEventId : String)
    (threadKey continueThreadEventId threadReservation : Option String) :
    Delivery ExternalTriggerAcceptedResponse := do
  match threadKey with
  | none => pure ()
  | some threadKey =>
    let intendedRoot := continueThreadEventId.getD matrixEventId
    let _boundRoot ← runReplayStoreCall o.bindThreadRoot
      (·.bindThreadRoot snapshot.replayScope threadKey intendedRoot snapshot.resolvedRoomId
        threadReservation o.boundAt threadKeyTtlSeconds)
  runReplayStoreCall o.markEventDelivered fun store =>
    ((), store.markEventDelivered snapshot.replayScope eventId o.deliveredAt
      deliveredEventIdTtlSeconds)
  consumeSingleUseTrigger o snapshot
  return ⟨true, false, snapshot.triggerId, eventId, some matrixEventId⟩

/-- The delivery of a freshly claimed event id. -/
def deliverTrigger (o : DeliveryOutcomes) (snapshot : TriggerDeliverySnapshot) (eventId : String)
    (threadKey continueThreadEventId threadReservation : Option String) :
    Delivery ExternalTriggerAcceptedResponse := do
  let matrixEventId ← sendTrigger o snapshot eventId threadKey threadReservation
  recordDelivery o snapshot eventId matrixEventId threadKey continueThreadEventId threadReservation

/-- Only per-fire targets group by thread key. -/
def deliveryThreadKey (snapshot : TriggerDeliverySnapshot) (payload : ExternalTriggerPayload) :
    Option String :=
  if snapshot.newThread then payload.threadKey else none

/-- Claim the thread key of a freshly claimed event id, and deliver it. -/
def claimThreadAndDeliver (o : DeliveryOutcomes) (snapshot : TriggerDeliverySnapshot)
    (payload : ExternalTriggerPayload) (eventId : String) :
    Delivery ExternalTriggerAcceptedResponse :=
  match deliveryThreadKey snapshot payload with
  | none => deliverTrigger o snapshot eventId none none none
  | some threadKey => do
      let claim ← runReplayStoreCall o.claimThreadKey
        (·.claimThreadKey snapshot.replayScope threadKey snapshot.resolvedRoomId o.token o.now
          pendingThreadKeyTtlSeconds)
      if claim.1 = .pending then do
        releaseBestEffort o.releaseEventId (·.releaseEventId snapshot.replayScope eventId)
        raise (.http 409 "External trigger thread is being opened by another delivery")
      else
        deliverTrigger o snapshot eventId (some threadKey) claim.2.1 claim.2.2

def claimAndExecuteTrigger (o : DeliveryOutcomes) (snapshot : TriggerDeliverySnapshot)
    (payload : ExternalTriggerPayload) (signatureHeaders : Option TriggerSignatureHeaders) :
    Delivery ExternalTriggerAcceptedResponse :=
  match deliveryEventId snapshot payload signatureHeaders with
  | .error e => raise e
  | .ok eventId =>
    if o.controlStateRoot = false then
      raise (.http 503 "External trigger replay store is not available")
    else do
      claimRequestNonce o snapshot signatureHeaders
      let eventClaim ← runReplayStoreCall o.claimEventId
        (·.claimEventId snapshot.replayScope eventId o.now inProgressEventIdTtlSeconds)
      match eventClaim with
      | .delivered =>
        consumeSingleUseTrigger o snapshot
        return ⟨true, true, snapshot.triggerId, eventId, none⟩
      | .inProgress => raise (.http 409 "External trigger event is already in progress")
      | .fresh => claimThreadAndDeliver o snapshot payload eventId

end MindRoom
