import Mathlib
import MindRoom.Mapping
import MindRoom.Systems

/-! # Call frame keys

`matrix_rtc/frame_keys.py` and the key distribution of `matrix_rtc/call_session.py`: the outbound
key of one call, the devices it may have reached, and the distributions, which hold a lock while
they send. A key is drawn by the caller of each update, who promises it was never drawn before.
-/

namespace MindRoom

structure CallMember where
  userId : String
  deviceId : String
  createdTs : Int
  expiresMs : Int
  livekitServiceUrl : Option String := none
deriving DecidableEq

/-- `_SharedWith`: one membership of one device. -/
structure SharedWith where
  userId : String
  deviceId : String
  membershipTs : Int
deriving DecidableEq

def CallMember.share (member : CallMember) : SharedWith :=
  ⟨member.userId, member.deviceId, member.createdTs⟩

def useKeyDelayMs : Int := 1000

def keyRotationGracePeriodMs : Int := 10000

def keyIndexModulus : Nat := 256

/-- A planned key send: give `targets` the key, then start using it. -/
structure KeyDistribution (κ : Type) where
  key : κ
  keyIndex : Nat
  targets : List CallMember
  applyAfterMs : Int
deriving DecidableEq

structure FrameKeyManager (κ : Type) where
  ownUserId : String
  ownDeviceId : String
  key : Option κ := none
  keyIndex : Nat := 0
  keyCreatedMs : Int := 0
  keyActivationMs : Int := 0
  sharedWith : List SharedWith := []
  exposedTo : List SharedWith := []
deriving DecidableEq

/-- The shares of a list with those of more members, each once. -/
def addShares (shares : List SharedWith) (members : List CallMember) : List SharedWith :=
  members.foldl (fun shares member => if member.share ∈ shares then shares else shares ++ [member.share]) shares

/-- The members by identity; a later member of one identity counts. -/
def membersByIdentity (members : List CallMember) : Mapping SharedWith CallMember :=
  members.foldl (fun byIdentity member => byIdentity.set member.share member) ∅

namespace FrameKeyManager

variable {κ : Type} (m : FrameKeyManager κ)

/-- The members of a roster that are not our own device. -/
def remote (members : List CallMember) : List CallMember :=
  members.filter fun member => ¬ (member.userId = m.ownUserId ∧ member.deviceId = m.ownDeviceId)

def rotate (fresh : κ) (members : List CallMember) (nowMs : Int) : KeyDistribution κ × FrameKeyManager κ :=
  let keyIndex := (m.keyIndex + 1) % keyIndexModulus
  (⟨fresh, keyIndex, (membersByIdentity (m.remote members)).values, useKeyDelayMs⟩, { m with
      key := some fresh
      keyIndex := keyIndex
      keyCreatedMs := nowMs
      keyActivationMs := nowMs + useKeyDelayMs
      sharedWith := []
      exposedTo := [] })

def updateMemberships (fresh : κ) (members : List CallMember) (nowMs : Int) :
    Option (KeyDistribution κ) × FrameKeyManager κ :=
  let remote := (m.remote members).map CallMember.share
  let byIdentity := membersByIdentity (m.remote members)
  match m.key with
  | none =>
    -- first key: usable immediately, shared with everyone present
    (some ⟨fresh, 0, byIdentity.values, 0⟩,
      { m with key := some fresh, keyIndex := 0, keyCreatedMs := nowMs, keyActivationMs := nowMs })
  | some key =>
    let stillExposed := m.exposedTo.filter (· ∈ remote)
    let stillValidShares := m.sharedWith.filter (· ∈ remote)
    let joined := remote.filter (· ∉ stillValidShares)
    if stillExposed.length < m.exposedTo.length then
      let (distribution, m') := m.rotate fresh members nowMs
      (some distribution, m')
    else if joined ≠ [] then
      if nowMs - m.keyCreatedMs < keyRotationGracePeriodMs then
        (some ⟨key, m.keyIndex, joined.filterMap byIdentity.value?, max 0 (m.keyActivationMs - nowMs)⟩, m)
      else
        let (distribution, m') := m.rotate fresh members nowMs
        (some distribution, m')
    else (none, m)

def IsCurrentOutboundKey (key : κ) (keyIndex : Nat) : Prop := m.key = some key ∧ m.keyIndex = keyIndex

instance [DecidableEq κ] (key : κ) (keyIndex : Nat) : Decidable (m.IsCurrentOutboundKey key keyIndex) := by
  unfold IsCurrentOutboundKey
  infer_instance

def markExposed (distribution : KeyDistribution κ) : FrameKeyManager κ :=
  { m with exposedTo := addShares m.exposedTo distribution.targets }

def markDistributed (distribution : KeyDistribution κ) (delivered : List CallMember) : FrameKeyManager κ :=
  let m := m.markExposed distribution
  { m with sharedWith := addShares m.sharedWith delivered }

end FrameKeyManager

/-! ## The session -/

/-- `_apply_own_key_later`, asleep. -/
structure KeyActivation (κ : Type) where
  key : κ
  keyIndex : Nat
  /-- When its sleep ends. -/
  due : Int
deriving DecidableEq

/-- A key that was given to the media plane for our own media. -/
structure KeyInstallation (κ : Type) where
  key : κ
  keyIndex : Nat
  time : Int
  /-- The manager at that moment. -/
  manager : FrameKeyManager κ
deriving DecidableEq

structure KeyTargeting (κ : Type) where
  key : κ
  share : SharedWith
  time : Int
deriving DecidableEq

structure CallWorld (κ : Type) where
  manager : FrameKeyManager κ
  clock : Int := 0
  /-- The roster of the session. -/
  members : List CallMember := []
  /-- The distribution that holds the lock and sends. -/
  sending : Option (KeyDistribution κ) := none
  activations : List (KeyActivation κ) := []
  stopped : Bool := false
  /-- Every key drawn so far, and when. -/
  created : List (κ × Int) := []
  /-- The roster of the last update. -/
  roster : List CallMember := []
  /-- The last update had nothing to do. -/
  settled : Bool := false
  /-- Who may have received which key. -/
  exposures : List (κ × SharedWith) := []
  /-- Who has received which key. -/
  deliveries : List (κ × SharedWith) := []
  targetings : List (KeyTargeting κ) := []
  installations : List (KeyInstallation κ) := []
deriving DecidableEq

inductive CallLabel (κ : Type) where
  | tick (ms : Nat)
  /-- The roster of the session changes. -/
  | rosterChanged (members : List CallMember)
  /-- A distribution gets the lock; a key is drawn for it. -/
  | distribute (fresh : κ)
  /-- The send returns the members that received the key. -/
  | sent (delivered : List CallMember)
  /-- The send raises, or is cancelled. -/
  | sendRaised
  /-- A sleep ends. -/
  | wake (activation : KeyActivation κ)
  | stop
deriving DecidableEq

namespace CallWorld

variable {κ : Type} [DecidableEq κ]

/-- `_apply_own_key`. -/
def install (key : κ) (keyIndex : Nat) (w : CallWorld κ) : CallWorld κ :=
  { w with installations := ⟨key, keyIndex, w.clock, w.manager⟩ :: w.installations }

/-- A distribution after its send: what was delivered is marked, and the key is used at once or
later. -/
def finish (distribution : KeyDistribution κ) (delivered : List CallMember) (w : CallWorld κ) : CallWorld κ :=
  let w :=
    { w with
      manager := w.manager.markDistributed distribution delivered
      sending := none
      deliveries := delivered.map (fun member => (distribution.key, member.share)) ++ w.deliveries }
  if distribution.applyAfterMs ≤ 0 then install distribution.key distribution.keyIndex w
  else
    { w with activations :=
        ⟨distribution.key, distribution.keyIndex, w.clock + distribution.applyAfterMs⟩ :: w.activations }

/-- A distribution up to its send, which may expose the key to every target. -/
def send (distribution : KeyDistribution κ) (w : CallWorld κ) : CallWorld κ :=
  { w with
    manager := w.manager.markExposed distribution
    sending := some distribution
    exposures := distribution.targets.map (fun member => (distribution.key, member.share)) ++ w.exposures }

/-- `update_memberships`, for the roster of the session. -/
def update (fresh : κ) (w : CallWorld κ) : Option (KeyDistribution κ) × CallWorld κ :=
  let (distribution, manager) := w.manager.updateMemberships fresh w.members w.clock
  (distribution, { w with
      manager := manager
      created := if manager.key = some fresh then (fresh, w.clock) :: w.created else w.created
      roster := w.members
      settled := distribution = none
      targetings :=
        (distribution.elim [] fun d => d.targets.map fun member => ⟨d.key, member.share, w.clock⟩) ++
          w.targetings })

/-- `_distribute_keys` up to its send. -/
def distribute (fresh : κ) (w : CallWorld κ) : CallWorld κ :=
  match w.update fresh with
  | (none, w) => w
  | (some distribution, w) => if distribution.targets = [] then finish distribution [] w else send distribution w

/-- `_apply_own_key_later`, awake. -/
def wake (activation : KeyActivation κ) (w : CallWorld κ) : CallWorld κ :=
  let w := { w with activations := w.activations.erase activation }
  if w.stopped = false ∧ w.manager.IsCurrentOutboundKey activation.key activation.keyIndex then
    install activation.key activation.keyIndex w
  else w

end CallWorld

open CallWorld

variable {κ : Type} [DecidableEq κ]

def callStep : CallLabel κ → CallWorld κ → Option (CallWorld κ)
  | .tick ms, w => some { w with clock := w.clock + ms }
  | .rosterChanged members, w => some { w with members := members }
  | .distribute fresh, w =>
    if w.sending = none ∧ w.stopped = false ∧ fresh ∉ w.created.map (·.1) then some (w.distribute fresh)
    else none
  | .sent delivered, w =>
    match w.sending with
    | some distribution =>
      if ∀ member ∈ delivered, member ∈ distribution.targets then some (w.finish distribution delivered)
      else none
    | none => none
  | .sendRaised, w => some { w with sending := none }
  | .wake activation, w =>
    if activation ∈ w.activations ∧ activation.due ≤ w.clock then some (w.wake activation) else none
  | .stop, w => some { w with stopped := true }

/-- One call, from the moment our device joins it. -/
def callSystem (κ : Type) [DecidableEq κ] : System (CallWorld κ) (CallLabel κ) where
  start w := ∃ userId deviceId clock, w = { manager := ⟨userId, deviceId, none, 0, 0, 0, [], []⟩, clock := clock }
  step label w w' := callStep label w = some w'

end MindRoom
