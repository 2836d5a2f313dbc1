import MindRoom.ReplyMembership
import MindRoom.Systems

/-! # Refreshing the reply membership index

`refresh` runs beside live events: it is suspended at the refresh lock and at every query, and
publishes its candidate when the index is as it was when it got the lock. The homeserver changes
the membership of its rooms and reads an answer at some moment between the query and its delivery;
the events of one room are processed in the order of its changes.
-/

namespace MindRoom

/-- A published answer to a query of one room's members. -/
structure MembersPublication where
  roomId : String
  members : List String
  /-- How many events were processed when it was asked for, and when it was published. -/
  askedAt : Nat
  publishedAt : Nat
deriving DecidableEq

/-- The index, the homeserver, the refreshes under way, and what happened so far. -/
structure MembershipWorld where
  index : AgentReplyMembershipIndex := {}
  managed : ManagedRooms := []
  /-- Who is joined to which room, at the homeserver. -/
  joined : List (String × String) := []
  /-- The transitions that are not processed yet. -/
  transitions : List RoomMemberEvent := []
  /-- The refreshes that wait for the lock, and the one that holds it. -/
  waiting : List MembershipPolicy := []
  build : Option SnapshotBuild := none
  processed : List RoomMemberEvent := []
  published : List MembersPublication := []
  /-- The policies given to `refresh` and `invalidate`, the latest first. -/
  given : List MembershipPolicy := []
deriving DecidableEq

namespace MembershipWorld

def now (w : MembershipWorld) : Nat := w.processed.length

def membersOf (w : MembershipWorld) (roomId : String) : List String :=
  (w.joined.filter (·.1 = roomId)).map (·.2)

def change (w : MembershipWorld) (event : RoomMemberEvent) : MembershipWorld :=
  let others := w.joined.filter (· ≠ (event.roomId, event.stateKey))
  { w with
    joined := if event.isJoin then others ++ [(event.roomId, event.stateKey)] else others
    transitions := w.transitions ++ [event] }

def invalidate (w : MembershipWorld) (policy : MembershipPolicy) : MembershipWorld :=
  { w with index := w.index.invalidate policy, given := policy :: w.given }

/-- `refresh` up to its wait for the lock. -/
def startRefresh (w : MembershipWorld) (policy : MembershipPolicy) : MembershipWorld :=
  let w := { w with waiting := w.waiting ++ [policy] }
  if w.index.desiredSignature = none then
    { w with index := { w.index with desiredSignature := some policy }, given := policy :: w.given }
  else if w.index.desiredSignature ≠ some policy then w.invalidate policy
  else w

/-- The end of `refresh`: the candidate is published, or dropped. -/
def publish (w : MembershipWorld) (build : SnapshotBuild) (candidate : AgentReplyMembershipSnapshot) :
    MembershipWorld :=
  if build.Fresh w.index then
    { w with
      build := none
      index := { w.index with snapshot := candidate }
      published := w.published ++
        build.answers.map fun answer => ⟨answer.roomId, answer.members, answer.askedAt, w.now⟩ }
  else { w with build := none }

def resume (w : MembershipWorld) (progress : BuildProgress) : MembershipWorld :=
  match progress with
  | .asks build => { w with build := some build }
  | .complete build => w.publish build build.candidate

/-- `refresh` from the lock to its first query. -/
def acquire (w : MembershipWorld) (policy : MembershipPolicy) : MembershipWorld :=
  let build : SnapshotBuild :=
    { policy, expectedEpoch := w.index.epoch, previousRooms := w.index.previousRooms policy
      managed := w.managed }
  let w := { w with waiting := w.waiting.erase policy }
  if referencedRoomKeys policy = [] ∧ ¬ requiresCurrentRoomMemberships policy then
    w.publish build { policySignature := some policy, refreshRequired := false }
  else { w with build := some build }

end MembershipWorld

inductive MembershipLabel where
  /-- The homeserver changes a room. -/
  | change (event : RoomMemberEvent)
  /-- The next transition of a room is processed. -/
  | memberEvent (policy : MembershipPolicy) (roomId controlUserId : String)
  | refresh (policy : MembershipPolicy)
  | acquire (policy : MembershipPolicy)
  /-- The answer to `joined_rooms`, or its failure. -/
  | joinedRooms (joined : Option (List String))
  /-- The homeserver reads the members that it will answer with. -/
  | serve
  /-- The answer to `joined_members`, or its failure. -/
  | members (delivered : Bool)
  /-- The refresh under way, or a waiting one, is cancelled. -/
  | cancel
  | cancelWaiting (policy : MembershipPolicy)
  | markRoomUnready (policy : MembershipPolicy) (roomId : String)
  | invalidate (policy : MembershipPolicy)
  /-- The persisted ids of the managed rooms change. -/
  | remap (managed : ManagedRooms)
deriving DecidableEq

open MembershipWorld

def membershipStep : MembershipLabel → MembershipWorld → Option MembershipWorld
  | .change event, w => some (w.change event)
  | .memberEvent policy roomId controlUserId, w =>
    match w.transitions.find? (·.roomId = roomId) with
    | none => none
    | some event => some
        { w with
          index := w.index.applyMemberEvent policy w.managed event controlUserId
          transitions := w.transitions.erase event
          processed := w.processed ++ [event] }
  | .refresh policy, w => some (w.startRefresh policy)
  | .acquire policy, w =>
    if policy ∈ w.waiting ∧ w.build = none then some (w.acquire policy) else none
  | .joinedRooms joined, w =>
    match w.build with
    | none => none
    | some build =>
      if build.phase = .joinedRooms then some (w.resume (build.withJoinedRooms w.now joined)) else none
  | .serve, w =>
    match w.build with
    | none => none
    | some build => build.query.map fun query =>
      { w with build := some { build with query := some { query with
        answer := some (w.membersOf query.roomId) } } }
  | .members delivered, w =>
    match w.build with
    | none => none
    | some build =>
      match build.query with
      | none => none
      | some query =>
        if delivered then
          query.answer.map fun members => w.resume (build.withMembers w.now query (some members))
        else some (w.resume (build.withMembers w.now query none))
  | .cancel, w => w.build.map fun _ => { w with build := none }
  | .cancelWaiting policy, w =>
    if policy ∈ w.waiting then some { w with waiting := w.waiting.erase policy } else none
  | .markRoomUnready policy roomId, w =>
    some { w with index := w.index.markRoomUnready policy w.managed roomId }
  | .invalidate policy, w => some (w.invalidate policy)
  | .remap managed, w => some { w with managed := managed }

/-- The index over the life of a process. -/
def membershipSystem : System MembershipWorld MembershipLabel where
  start w := ∃ managed joined, w = { managed, joined }
  step label w w' := membershipStep label w = some w'

end MindRoom
