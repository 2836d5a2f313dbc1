import Mathlib

/-! # The reply membership index

`agent_reply_membership.py`: the process-local snapshot of who is joined to the rooms that grant
replies. Live member events, invalidations and authoritative refreshes change it; a refresh builds
its candidate over several queries, and publishes it only when the index saw nothing meanwhile.

A config is held as its policy signature, which is all the index reads of it. A set of users is a
list, read by membership.
-/

namespace MindRoom

/-- `_ResponderMembershipPolicySignature`. -/
structure ResponderMembershipPolicy where
  entityName : String
  currentRoomMembers : Bool
  roomKeys : List String
deriving DecidableEq

/-- `_AgentReplyMembershipPolicySignature`. -/
abbrev MembershipPolicy := List ResponderMembershipPolicy

def referencedRoomKeys (policy : MembershipPolicy) : List String :=
  (policy.flatMap (·.roomKeys)).dedup.insertionSort (· ≤ ·)

def requiresCurrentRoomMemberships (policy : MembershipPolicy) : Bool :=
  policy.any (·.currentRoomMembers)

structure GrantRoomMembership where
  roomKey : Option String
  roomId : Option String
  ready : Bool
  rawJoinedUserIds : List String := []
deriving DecidableEq

structure AgentReplyMembershipSnapshot where
  policySignature : Option MembershipPolicy := none
  rooms : List GrantRoomMembership := []
  refreshRequired : Bool := true
  possibleJoinedRoomIds : Option (List String) := none
deriving DecidableEq

/-- `AgentReplyMembershipIndex`, without its lock. -/
structure AgentReplyMembershipIndex where
  snapshot : AgentReplyMembershipSnapshot := {}
  desiredSignature : Option MembershipPolicy := none
  epoch : Nat := 0
deriving DecidableEq

/-- The persisted ids of the managed rooms, by room key. -/
abbrev ManagedRooms := List (String × String)

/-- One live transition of a room's membership. -/
structure RoomMemberEvent where
  roomId : String
  stateKey : String
  membership : String
deriving DecidableEq

def RoomMemberEvent.isJoin (event : RoomMemberEvent) : Bool := event.membership = "join"

/-- `set.add`. -/
def addUser (users : List String) (user : String) : List String :=
  if user ∈ users then users else users ++ [user]

/-- `set.discard`. -/
def discardUser (users : List String) (user : String) : List String := users.filter (· ≠ user)

/-- `raw_joined_user_ids` after one event. -/
def RoomMemberEvent.applied (event : RoomMemberEvent) (users : List String) : List String :=
  if event.isJoin then addUser users event.stateKey else discardUser users event.stateKey

def unreadyRoom (roomKey roomId : Option String) : GrantRoomMembership := ⟨roomKey, roomId, false, []⟩

/-- `replace(room, ready=False, raw_joined_user_ids=frozenset())`. -/
def GrantRoomMembership.revoked (room : GrantRoomMembership) : GrantRoomMembership :=
  { room with ready := false, rawJoinedUserIds := [] }

/-- `frozenset | {room_id}`. -/
def withRoomId (roomId : String) (roomIds : Option (List String)) : Option (List String) :=
  roomIds.map (addUser · roomId)

namespace AgentReplyMembershipIndex

def invalidate (index : AgentReplyMembershipIndex) (policy : MembershipPolicy) :
    AgentReplyMembershipIndex :=
  let roomKeys := referencedRoomKeys policy
  let previous := fun key => (index.snapshot.rooms.filter (·.roomKey = some key)).getLast?
  let grantRooms := roomKeys.map fun key => unreadyRoom (some key) ((previous key).bind (·.roomId))
  let currentRooms :=
    if requiresCurrentRoomMemberships policy then
      (index.snapshot.rooms.filter fun room =>
        room.roomKey = none ∧ room.roomId ∉ grantRooms.map (·.roomId)).map (·.revoked)
    else []
  { snapshot :=
      { policySignature := some policy
        rooms := grantRooms ++ currentRooms
        refreshRequired := roomKeys ≠ [] ∨ requiresCurrentRoomMemberships policy }
    desiredSignature := some policy
    epoch := index.epoch + 1 }

/-- The index is on the policy: `_desired_signature` and the signature of the snapshot are its. -/
def OnPolicy (index : AgentReplyMembershipIndex) (policy : MembershipPolicy) : Prop :=
  index.desiredSignature = some policy ∧ index.snapshot.policySignature = some policy

instance (index : AgentReplyMembershipIndex) (policy : MembershipPolicy) :
    Decidable (index.OnPolicy policy) := inferInstanceAs (Decidable (_ ∧ _))

def Persisted (managed : ManagedRooms) (roomId : String) (room : GrantRoomMembership) : Prop :=
  ∃ key ∈ room.roomKey, managed.lookup key = some roomId

instance (managed : ManagedRooms) (roomId : String) : DecidablePred (Persisted managed roomId) :=
  fun _ => inferInstanceAs (Decidable (∃ _ ∈ _, _))

def markRoomUnready (index : AgentReplyMembershipIndex) (policy : MembershipPolicy)
    (managed : ManagedRooms) (roomId : String) : AgentReplyMembershipIndex :=
  if ¬ index.OnPolicy policy then index
  else
    let matching := fun room : GrantRoomMembership =>
      room.roomId = some roomId ∨
        ∃ key ∈ room.roomKey, key ∈ referencedRoomKeys policy ∧ managed.lookup key = some roomId
    if (∀ room ∈ index.snapshot.rooms, ¬ matching room) ∧ ¬ requiresCurrentRoomMemberships policy then index
    else
      let updated := index.snapshot.rooms.map fun room =>
        if matching room then { room.revoked with roomId := some roomId } else room
      let appended :=
        if ∀ room ∈ index.snapshot.rooms, ¬ matching room then [unreadyRoom none (some roomId)] else []
      { index with
        epoch := index.epoch + 1
        snapshot :=
          { index.snapshot with
            rooms := updated ++ appended
            refreshRequired := true
            possibleJoinedRoomIds := withRoomId roomId index.snapshot.possibleJoinedRoomIds } }

def applyTransitionToRoom (event : RoomMemberEvent) (controlUserId : String)
    (room : GrantRoomMembership) : GrantRoomMembership :=
  if room.roomId ≠ some event.roomId then room
  else if event.stateKey = controlUserId ∧ ¬ event.isJoin then room.revoked
  else if ¬ room.ready then room
  else { room with rawJoinedUserIds := event.applied room.rawJoinedUserIds }

/-- The rows an event matches: those of its room id, or else those whose persisted id it is. -/
def Matches (index : AgentReplyMembershipIndex) (managed : ManagedRooms) (roomId : String)
    (room : GrantRoomMembership) : Prop :=
  room.roomId = some roomId ∨
    ((∀ other ∈ index.snapshot.rooms, other.roomId ≠ some roomId) ∧ Persisted managed roomId room)

instance (index : AgentReplyMembershipIndex) (managed : ManagedRooms) (roomId : String) :
    DecidablePred (index.Matches managed roomId) := fun _ => inferInstanceAs (Decidable (_ ∨ _))

/-- The event gets as far as the epoch. -/
def Reaches (index : AgentReplyMembershipIndex) (policy : MembershipPolicy) (managed : ManagedRooms)
    (roomId : String) : Prop :=
  index.OnPolicy policy ∧
    ((∃ room ∈ index.snapshot.rooms, index.Matches managed roomId room) ∨
      requiresCurrentRoomMemberships policy)

instance (index : AgentReplyMembershipIndex) (policy : MembershipPolicy) (managed : ManagedRooms)
    (roomId : String) : Decidable (index.Reaches policy managed roomId) :=
  inferInstanceAs (Decidable (_ ∧ _))

/-- The rows after an event that got as far as the epoch. -/
def updatedRooms (index : AgentReplyMembershipIndex) (managed : ManagedRooms) (event : RoomMemberEvent)
    (controlUserId : String) : List GrantRoomMembership :=
  (index.snapshot.rooms.map fun room =>
    applyTransitionToRoom event controlUserId
      (if index.Matches managed event.roomId room then { room with roomId := some event.roomId } else room)) ++
  if ∀ room ∈ index.snapshot.rooms, ¬ index.Matches managed event.roomId room then
    [unreadyRoom none (some event.roomId)]
  else []

def applyMemberEvent (index : AgentReplyMembershipIndex) (policy : MembershipPolicy)
    (managed : ManagedRooms) (event : RoomMemberEvent) (controlUserId : String) :
    AgentReplyMembershipIndex :=
  if ¬ index.Reaches policy managed event.roomId then index
  else
    let rooms := index.updatedRooms managed event controlUserId
    let possible := withRoomId event.roomId index.snapshot.possibleJoinedRoomIds
    if rooms = index.snapshot.rooms ∧ possible = index.snapshot.possibleJoinedRoomIds then
      { index with epoch := index.epoch + 1 }
    else
      { index with
        epoch := index.epoch + 1
        snapshot :=
          { index.snapshot with
            rooms := rooms
            refreshRequired := rooms.any (! ·.ready)
            possibleJoinedRoomIds := possible } }

/-- The rows a refresh may take over, when it gets the lock. -/
def previousRooms (index : AgentReplyMembershipIndex) (policy : MembershipPolicy) :
    List GrantRoomMembership :=
  if index.snapshot.policySignature = some policy ∧ index.snapshot.refreshRequired ∧
      index.snapshot.rooms.any (! ·.ready) then index.snapshot.rooms
  else []

end AgentReplyMembershipIndex

/-! ## Building a snapshot -/

structure MembersQuery where
  roomId : String
  /-- How many events were processed when it was asked. -/
  askedAt : Nat
  /-- The members the homeserver read for its answer. -/
  answer : Option (List String) := none
deriving DecidableEq

structure MembersAnswer where
  roomId : String
  askedAt : Nat
  members : List String
deriving DecidableEq

/-- Where a refresh is suspended. -/
inductive BuildPhase where
  | joinedRooms
  /-- At the query for a room key, with the keys that remain. -/
  | grantRoom (roomKey : String) (rest : List String)
  /-- At the query for a current room, with the room ids that remain. -/
  | currentRoom (rest : List String)
deriving DecidableEq

/-- `_build_authoritative_snapshot` under way. -/
structure SnapshotBuild where
  policy : MembershipPolicy
  expectedEpoch : Nat
  previousRooms : List GrantRoomMembership
  managed : ManagedRooms
  joinedRoomIds : Option (List String) := none
  /-- `memberships_by_room_id`. -/
  memberships : List (String × Option (List String)) := []
  rooms : List GrantRoomMembership := []
  phase : BuildPhase := .joinedRooms
  query : Option MembersQuery := none
  answers : List MembersAnswer := []
deriving DecidableEq

/-- A build is suspended at its next query, or its rows are complete. -/
inductive BuildProgress where
  | asks (build : SnapshotBuild)
  | complete (build : SnapshotBuild)
deriving DecidableEq

namespace SnapshotBuild

/-- One more row. -/
def push (build : SnapshotBuild) (room : GrantRoomMembership) : SnapshotBuild :=
  { build with rooms := build.rooms ++ [room] }

def ask (build : SnapshotBuild) (phase : BuildPhase) (roomId : String) (now : Nat) : BuildProgress :=
  .asks { build with phase := phase, query := some { roomId, askedAt := now } }

/-- The row a query came to: `None` is a failed one. -/
def settled (roomKey : Option String) (roomId : String) (members : Option (List String)) :
    GrantRoomMembership :=
  match members with
  | some members => ⟨roomKey, some roomId, true, members⟩
  | none => unreadyRoom roomKey (some roomId)

/-- `_build_current_room_memberships`, from the room ids that remain. -/
def currentRooms (now : Nat) : List String → SnapshotBuild → BuildProgress
  | [], build => .complete build
  | roomId :: rest, build =>
    match (build.previousRooms.filter fun room =>
        room.roomKey = none ∧ room.roomId = some roomId ∧ room.ready).getLast? with
    | some previous => currentRooms now rest (build.push previous)
    | none => build.ask (.currentRoom rest) roomId now

/-- The ready row of an earlier snapshot that a grant room keeps. -/
def reusable (build : SnapshotBuild) (roomKey : String) : Option GrantRoomMembership :=
  match (build.previousRooms.filter (·.roomKey = some roomKey)).getLast? with
  | none => none
  | some previous =>
    let roomId := build.managed.lookup roomKey
    if previous.ready ∧ previous.roomId = roomId ∧
        ∃ joined ∈ build.joinedRoomIds, ∃ id ∈ roomId, id ∈ joined then some previous
    else none

/-- The loop over the room keys that remain, and what follows it. -/
def grantRooms (now : Nat) : List String → SnapshotBuild → BuildProgress
  | [], build =>
    match build.joinedRoomIds with
    | some joined =>
      if requiresCurrentRoomMemberships build.policy then
        let grantRoomIds := build.rooms.filterMap (·.roomId)
        currentRooms now ((joined.dedup.filter (· ∉ grantRoomIds)).insertionSort (· ≤ ·)) build
      else .complete build
    | none => .complete build
  | roomKey :: rest, build =>
    match build.reusable roomKey with
    | some previous => grantRooms now rest (build.push previous)
    | none =>
      -- `_build_grant_room_membership`
      match build.managed.lookup roomKey, build.joinedRoomIds with
      | none, _ => grantRooms now rest (build.push (unreadyRoom (some roomKey) none))
      | some roomId, none => grantRooms now rest (build.push (unreadyRoom (some roomKey) (some roomId)))
      | some roomId, some joined =>
        if roomId ∉ joined then
          grantRooms now rest (build.push (unreadyRoom (some roomKey) (some roomId)))
        else
          match build.memberships.lookup roomId with
          | some members => grantRooms now rest (build.push (settled (some roomKey) roomId members))
          | none => build.ask (.grantRoom roomKey rest) roomId now

/-- The build goes on with the control client's joined rooms, or without them. -/
def withJoinedRooms (build : SnapshotBuild) (now : Nat) (joined : Option (List String)) : BuildProgress :=
  grantRooms now (referencedRoomKeys build.policy) { build with joinedRoomIds := joined }

def received (build : SnapshotBuild) (query : MembersQuery) (members : Option (List String)) :
    SnapshotBuild :=
  { build with
    query := none
    answers := build.answers ++ (members.map (MembersAnswer.mk query.roomId query.askedAt)).toList }

/-- The build with one more room in `memberships_by_room_id`. -/
def remember (build : SnapshotBuild) (roomId : String) (members : Option (List String)) : SnapshotBuild :=
  { build with memberships := (roomId, members) :: build.memberships }

/-- The build goes on with the members of the room it asked for, or without them. -/
def withMembers (build : SnapshotBuild) (now : Nat) (query : MembersQuery)
    (members : Option (List String)) : BuildProgress :=
  match build.phase with
  | .joinedRooms => .asks build
  | .grantRoom roomKey rest =>
    grantRooms now rest
      (((build.received query members).remember query.roomId members).push
        (settled (some roomKey) query.roomId members))
  | .currentRoom rest =>
    currentRooms now rest ((build.received query members).push (settled none query.roomId members))

def candidate (build : SnapshotBuild) : AgentReplyMembershipSnapshot where
  policySignature := some build.policy
  rooms := build.rooms
  refreshRequired := build.joinedRoomIds = none ∨ build.rooms.any (! ·.ready)
  possibleJoinedRoomIds := build.joinedRoomIds

/-- Nothing happened to the index since the build began. -/
def Fresh (build : SnapshotBuild) (index : AgentReplyMembershipIndex) : Prop :=
  index.desiredSignature = some build.policy ∧ index.epoch = build.expectedEpoch

instance (build : SnapshotBuild) (index : AgentReplyMembershipIndex) : Decidable (build.Fresh index) :=
  inferInstanceAs (Decidable (_ ∧ _))

end SnapshotBuild

end MindRoom
