import MindRoom.ReplyRefresh

/-! # Grants by room membership are backed

A ready row is the answer of a query of its own room, changed by the events processed since. Two
slips break it: an event that matches no row by its room id is given to the rows whose persisted id
it is, ready ones too, which keep the members of another room; and an event that the index drops
does not fence the refresh under way, which then publishes what it asked before. Without them every
ready row is backed.
-/

namespace MindRoom

open MembershipWorld

def changedBy (roomId : String) (events : List RoomMemberEvent) (users : List String) : List String :=
  (events.filter (·.roomId = roomId)).foldl (fun users event => event.applied users) users

/-- The row is a published answer of its own room, changed by the events processed since. -/
def BackedBy (published : List MembersPublication) (processed : List RoomMemberEvent)
    (room : GrantRoomMembership) : Prop :=
  ∃ p ∈ published, room.roomId = some p.roomId ∧
    room.rawJoinedUserIds = changedBy p.roomId (processed.drop p.publishedAt) p.members

/-- What the published snapshot owes. -/
structure AnswersBacked (w : MembershipWorld) : Prop where
  answers : ∀ room ∈ w.index.snapshot.rooms, room.ready → BackedBy w.published w.processed room
  /-- Who left is in no ready row, until a later join or the publication of a later query. -/
  left : ∀ room ∈ w.index.snapshot.rooms, room.ready → ∀ i event, w.processed[i]? = some event →
    room.roomId = some event.roomId → ¬ event.isJoin → event.stateKey ∈ room.rawJoinedUserIds →
      (∃ j later, i < j ∧ w.processed[j]? = some later ∧ later.roomId = event.roomId ∧
        later.stateKey = event.stateKey ∧ later.isJoin) ∨
      ∃ p ∈ w.published, p.roomId = event.roomId ∧ i < p.askedAt
  /-- The snapshot is of the latest policy that was given. -/
  policy : ∀ policy ∈ w.index.snapshot.policySignature, w.given.head? = some policy

def SnapshotBuild.Asked (build : SnapshotBuild) (roomId : String) : Prop :=
  (∃ answer ∈ build.answers, answer.roomId = roomId) ∨ ∃ query ∈ build.query, query.roomId = roomId

instance (build : SnapshotBuild) (roomId : String) : Decidable (build.Asked roomId) :=
  inferInstanceAs (Decidable (_ ∨ _))

/-- No event is given to a ready row of another room; and none is dropped while a ready row is of
its room, or while a refresh that may still publish has asked for its room. -/
def NoStrayEvent : MembershipLabel → MembershipWorld → Prop
  | .memberEvent policy roomId _, w =>
    if w.index.Reaches policy w.managed roomId then
      ∀ room ∈ w.index.snapshot.rooms, room.ready → w.index.Matches w.managed roomId room →
        room.roomId = some roomId
    else
      (∀ room ∈ w.index.snapshot.rooms, room.ready → room.roomId ≠ some roomId) ∧
        ∀ build ∈ w.build, build.Fresh w.index → ¬ build.Asked roomId
  | _, _ => True

instance (label : MembershipLabel) (w : MembershipWorld) : Decidable (NoStrayEvent label w) := by
  cases label <;> unfold NoStrayEvent <;> infer_instance

/-! ## The events of one room -/

section

variable {roomId : String} {events : List RoomMemberEvent} {event : RoomMemberEvent} {users : List String}

theorem changedBy_append (events' : List RoomMemberEvent) :
    changedBy roomId (events ++ events') users = changedBy roomId events' (changedBy roomId events users) := by
  unfold changedBy
  rw [List.filter_append, List.foldl_append]

theorem changedBy_cons_self (h : event.roomId = roomId) :
    changedBy roomId (event :: events) users = changedBy roomId events (event.applied users) := by
  unfold changedBy
  rw [List.filter_cons_of_pos (by simpa using h), List.foldl_cons]

theorem changedBy_cons_of_ne (h : event.roomId ≠ roomId) :
    changedBy roomId (event :: events) users = changedBy roomId events users := by
  unfold changedBy
  rw [List.filter_cons_of_neg (by simpa using h)]

theorem mem_applied {user : String} (h : user ∈ event.applied users) :
    (event.isJoin ∧ event.stateKey = user) ∨ (user ∈ users ∧ (event.isJoin ∨ event.stateKey ≠ user)) := by
  unfold RoomMemberEvent.applied at h
  split at h
  · next hjoin =>
    unfold addUser at h
    split at h
    · exact .inr ⟨h, .inl hjoin⟩
    · rcases List.mem_append.mp h with h | h
      · exact .inr ⟨h, .inl hjoin⟩
      · exact .inl ⟨hjoin, (List.mem_singleton.mp h).symm⟩
  · unfold discardUser at h
    rw [List.mem_filter] at h
    exact .inr ⟨h.1, .inr (fun heq => by simp [heq] at h)⟩

/-- A user who is there after the events joined in one of them, or was there and did not leave since. -/
theorem mem_changedBy {user : String} (h : user ∈ changedBy roomId events users) :
    (∃ (j : Nat) (later : RoomMemberEvent), events[j]? = some later ∧ later.roomId = roomId ∧
      later.stateKey = user ∧ later.isJoin) ∨
      user ∈ users := by
  induction events generalizing users with
  | nil => exact .inr h
  | cons first rest ih =>
    by_cases hroom : first.roomId = roomId
    · rw [changedBy_cons_self hroom] at h
      rcases ih h with ⟨j, later, hj, hlater⟩ | hmem
      · exact .inl ⟨j + 1, later, hj, hlater⟩
      · rcases mem_applied hmem with ⟨hjoin, huser⟩ | ⟨hmem, -⟩
        · exact .inl ⟨0, first, rfl, hroom, huser, hjoin⟩
        · exact .inr hmem
    · rw [changedBy_cons_of_ne hroom] at h
      rcases ih h with ⟨j, later, hj, hlater⟩ | hmem
      · exact .inl ⟨j + 1, later, hj, hlater⟩
      · exact .inr hmem

/-- A user who left and is there after the events joined later. -/
theorem mem_changedBy_of_left {i : Nat} (hi : events[i]? = some event) (hroom : event.roomId = roomId)
    (hleave : ¬ event.isJoin) (h : event.stateKey ∈ changedBy roomId events users) :
    ∃ j later, i < j ∧ events[j]? = some later ∧ later.roomId = roomId ∧ later.stateKey = event.stateKey ∧
      later.isJoin := by
  induction events generalizing users i with
  | nil => cases hi
  | cons first rest ih =>
    cases i with
    | zero =>
      obtain rfl : first = event := Option.some.inj hi
      rw [changedBy_cons_self hroom] at h
      rcases mem_changedBy h with ⟨j, later, hj, hlater⟩ | hmem
      · exact ⟨j + 1, later, Nat.succ_pos j, hj, hlater⟩
      · rcases mem_applied hmem with ⟨hjoin, -⟩ | ⟨-, hjoin | hne⟩
        · exact absurd hjoin hleave
        · exact absurd hjoin hleave
        · exact absurd rfl hne
    | succ i =>
      have hrest : ∃ users', event.stateKey ∈ changedBy roomId rest users' := by
        by_cases hfirst : first.roomId = roomId
        · rw [changedBy_cons_self hfirst] at h
          exact ⟨_, h⟩
        · rw [changedBy_cons_of_ne hfirst] at h
          exact ⟨_, h⟩
      rcases hrest with ⟨users', hrest⟩
      rcases ih hi hrest with ⟨j, later, hij, hj, hlater⟩
      exact ⟨j + 1, later, Nat.succ_lt_succ hij, hj, hlater⟩

end

/-! ## Building a snapshot -/

/-- Every row of a build is taken over, or an answer it received for the room of the row. -/
structure Filled (build : SnapshotBuild) : Prop where
  rooms : ∀ room ∈ build.rooms, room.ready → room ∈ build.previousRooms ∨
    ∃ answer ∈ build.answers, room.roomId = some answer.roomId ∧ room.rawJoinedUserIds = answer.members
  memberships : ∀ roomId members, build.memberships.lookup roomId = some (some members) →
    ∃ answer ∈ build.answers, answer.roomId = roomId ∧ answer.members = members

/-- A build went on from another one, up to its next query. -/
structure Resumes (now : Nat) (build next : SnapshotBuild) : Prop where
  policy : next.policy = build.policy
  expectedEpoch : next.expectedEpoch = build.expectedEpoch
  previousRooms : next.previousRooms = build.previousRooms
  answers : next.answers = build.answers
  query : ∀ query ∈ next.query, query ∈ build.query ∨ query.askedAt = now
  filled : Filled build → Filled next

def BuildProgress.build : BuildProgress → SnapshotBuild
  | .asks build => build
  | .complete build => build

section

variable {now : Nat} {build next last : SnapshotBuild} {room : GrantRoomMembership}

theorem Resumes.refl : Resumes now build build := ⟨rfl, rfl, rfl, rfl, fun _ h => .inl h, id⟩

theorem Resumes.trans (h : Resumes now build next) (h' : Resumes now next last) : Resumes now build last where
  policy := h'.policy.trans h.policy
  expectedEpoch := h'.expectedEpoch.trans h.expectedEpoch
  previousRooms := h'.previousRooms.trans h.previousRooms
  answers := h'.answers.trans h.answers
  query query hquery := by
    rcases h'.query query hquery with hquery | hnow
    · exact h.query query hquery
    · exact .inr hnow
  filled hfilled := h'.filled (h.filled hfilled)

/-- One more row, that is not ready, or taken over, or answered. -/
theorem Resumes.push (hroom : Filled build → room.ready → room ∈ build.previousRooms ∨
    ∃ answer ∈ build.answers, room.roomId = some answer.roomId ∧ room.rawJoinedUserIds = answer.members) :
    Resumes now build (build.push room) := by
  refine ⟨rfl, rfl, rfl, rfl, fun _ h => .inl h, fun hfilled => ⟨?_, hfilled.memberships⟩⟩
  intro room' hroom' hready
  rcases List.mem_append.mp hroom' with hold | hnew
  · exact hfilled.rooms room' hold hready
  · obtain rfl := List.mem_singleton.mp hnew
    exact hroom hfilled hready

theorem Resumes.pushUnready {roomKey roomId : Option String} :
    Resumes now build (build.push (unreadyRoom roomKey roomId)) :=
  .push fun _ hready => absurd hready (by simp [unreadyRoom])

theorem Resumes.ask {phase : BuildPhase} {roomId : String} : Resumes now build (build.ask phase roomId now).build := by
  refine ⟨rfl, rfl, rfl, rfl, ?_, fun hfilled => ⟨hfilled.rooms, hfilled.memberships⟩⟩
  rintro query ⟨⟩
  exact .inr rfl

theorem continues_currentRooms (todo : List String) : Resumes now build (build.currentRooms now todo).build := by
  induction todo generalizing build with
  | nil => exact .refl
  | cons roomId rest ih =>
    unfold SnapshotBuild.currentRooms
    split
    · next previous hprevious =>
      have hmem := List.mem_of_getLast? hprevious
      rw [List.mem_filter] at hmem
      exact (Resumes.push fun _ _ => .inl hmem.1).trans ih
    · exact .ask

theorem settled_ready {roomKey : Option String} {roomId : String} {members : Option (List String)}
    (h : (SnapshotBuild.settled roomKey roomId members).ready) : ∃ users, members = some users ∧
      SnapshotBuild.settled roomKey roomId members = ⟨roomKey, some roomId, true, users⟩ := by
  cases members with
  | none => cases h
  | some users => exact ⟨users, rfl, rfl⟩

theorem mem_of_reusable {roomKey : String} (h : build.reusable roomKey = some room) : room ∈ build.previousRooms := by
  unfold SnapshotBuild.reusable at h
  split at h
  · cases h
  · next previous hprevious =>
    dsimp only at h
    split at h
    · cases h
      exact (List.mem_filter.mp (List.mem_of_getLast? hprevious)).1
    · cases h

theorem continues_grantRooms (todo : List String) : Resumes now build (build.grantRooms now todo).build := by
  induction todo generalizing build with
  | nil =>
    unfold SnapshotBuild.grantRooms
    split
    · split
      · exact continues_currentRooms _
      · exact .refl
    · exact .refl
  | cons roomKey rest ih =>
    unfold SnapshotBuild.grantRooms
    split
    · next previous hprevious =>
      exact (Resumes.push fun _ _ => .inl (mem_of_reusable hprevious)).trans ih
    split
    · exact Resumes.pushUnready.trans ih
    · exact Resumes.pushUnready.trans ih
    · next roomId joined _ _ =>
      split
      · exact Resumes.pushUnready.trans ih
      split
      · next members hmembers =>
        refine (Resumes.push fun hfilled hready => .inr ?_).trans ih
        rcases settled_ready hready with ⟨users, rfl, hrow⟩
        rcases hfilled.memberships roomId users hmembers with ⟨answer, hanswer, hid, husers⟩
        exact ⟨answer, hanswer, by rw [hrow, hid], by rw [hrow, husers]⟩
      · exact .ask

theorem Filled.received (h : Filled build) (query : MembersQuery) (members : Option (List String)) :
    Filled (build.received query members) := by
  constructor
  · intro room hroom hready
    rcases h.rooms room hroom hready with hprevious | ⟨answer, hanswer, hrow⟩
    · exact .inl hprevious
    · exact .inr ⟨answer, List.mem_append_left _ hanswer, hrow⟩
  · intro roomId users hmembers
    rcases h.memberships roomId users hmembers with ⟨answer, hanswer, hrow⟩
    exact ⟨answer, List.mem_append_left _ hanswer, hrow⟩

theorem mem_received {query : MembersQuery} {users : List String} :
    (⟨query.roomId, query.askedAt, users⟩ : MembersAnswer) ∈ (build.received query (some users)).answers :=
  List.mem_append_right _ (List.mem_singleton_self _)

theorem Filled.remember {roomId : String} {members : Option (List String)} (h : Filled build)
    (hmembers : ∀ users, members = some users →
      ∃ answer ∈ build.answers, answer.roomId = roomId ∧ answer.members = users) :
    Filled (build.remember roomId members) := by
  refine ⟨h.rooms, fun roomId' users hlookup => ?_⟩
  unfold SnapshotBuild.remember at hlookup
  rw [List.lookup_cons] at hlookup
  split at hlookup
  · next heq =>
    obtain rfl : roomId' = roomId := by simpa using heq
    exact hmembers users (Option.some.inj hlookup)
  · exact h.memberships roomId' users hlookup

/-- A build that received the answer of its query continues with it. -/
theorem continues_withMembers {query : MembersQuery} {members : Option (List String)}
    (hphase : build.phase ≠ .joinedRooms) :
    let next := (build.withMembers now query members).build
    (Filled build → Filled next) ∧ next.policy = build.policy ∧ next.expectedEpoch = build.expectedEpoch ∧
      next.previousRooms = build.previousRooms ∧ next.answers = (build.received query members).answers ∧
      ∀ query' ∈ next.query, query'.askedAt = now := by
  have hanswered : ∀ users, members = some users →
      ∃ answer ∈ (build.received query members).answers, answer.roomId = query.roomId ∧ answer.members = users := by
    rintro users rfl
    exact ⟨_, mem_received, rfl, rfl⟩
  intro next
  cases hcase : build.phase with
  | joinedRooms => exact absurd hcase hphase
  | grantRoom roomKey rest =>
    have hremembered := fun hfilled : Filled build => (hfilled.received query members).remember hanswered
    have hnext : Resumes now ((build.received query members).remember query.roomId members) next := by
      have hgrants : next = ((((build.received query members).remember query.roomId members).push
          (SnapshotBuild.settled (some roomKey) query.roomId members)).grantRooms now rest).build := by
        show (build.withMembers now query members).build = _
        unfold SnapshotBuild.withMembers
        rw [hcase]
      rw [hgrants]
      refine (Resumes.push fun _ hready => .inr ?_).trans (continues_grantRooms rest)
      rcases settled_ready hready with ⟨users, rfl, hrow⟩
      exact ⟨_, mem_received, by rw [hrow], by rw [hrow]⟩
    refine ⟨fun hfilled => hnext.filled (hremembered hfilled), hnext.policy, hnext.expectedEpoch, hnext.previousRooms, hnext.answers, ?_⟩
    intro query' hquery'
    rcases hnext.query query' hquery' with hold | hnow
    · cases hold
    · exact hnow
  | currentRoom rest =>
    have hnext : Resumes now (build.received query members) next := by
      have hcurrent : next = (((build.received query members).push
          (SnapshotBuild.settled none query.roomId members)).currentRooms now rest).build := by
        show (build.withMembers now query members).build = _
        unfold SnapshotBuild.withMembers
        rw [hcase]
      rw [hcurrent]
      refine (Resumes.push fun _ hready => .inr ?_).trans (continues_currentRooms rest)
      rcases settled_ready hready with ⟨users, rfl, hrow⟩
      exact ⟨_, mem_received, by rw [hrow], by rw [hrow]⟩
    refine ⟨fun hfilled => hnext.filled (hfilled.received query members), hnext.policy, hnext.expectedEpoch, hnext.previousRooms, hnext.answers, ?_⟩
    intro query' hquery'
    rcases hnext.query query' hquery' with hold | hnow
    · cases hold
    · exact hnow

end

/-! ## What was published and what is under way -/

def QuietSince (processed : List RoomMemberEvent) (roomId : String) (n : Nat) : Prop :=
  n ≤ processed.length ∧ ∀ (i : Nat) event, n ≤ i → processed[i]? = some event → event.roomId ≠ roomId

/-- No event of the room was processed between the query and its publication. -/
def Settled (processed : List RoomMemberEvent) (p : MembersPublication) : Prop :=
  p.publishedAt ≤ processed.length ∧
    ∀ (i : Nat) event, p.askedAt ≤ i → i < p.publishedAt → processed[i]? = some event → event.roomId ≠ p.roomId

/-- What is so of a build that may still publish. -/
structure BuildSound (w : MembershipWorld) (build : SnapshotBuild) : Prop where
  previousRooms : ∀ room ∈ build.previousRooms, room ∈ w.index.snapshot.rooms
  filled : Filled build
  answers : ∀ answer ∈ build.answers, QuietSince w.processed answer.roomId answer.askedAt
  query : ∀ query ∈ build.query, QuietSince w.processed query.roomId query.askedAt

/-- What every step keeps. -/
structure MembershipSafe (w : MembershipWorld) : Prop where
  given : w.index.desiredSignature = w.given.head?
  signature : ∀ policy ∈ w.index.snapshot.policySignature, w.index.desiredSignature = some policy
  rows : ∀ room ∈ w.index.snapshot.rooms, room.ready → BackedBy w.published w.processed room
  settled : ∀ p ∈ w.published, Settled w.processed p
  /-- No refresh waits or builds before a policy was given. -/
  idle : w.index.desiredSignature = none → w.build = none ∧ w.waiting = []
  epoch : ∀ build ∈ w.build, build.expectedEpoch ≤ w.index.epoch
  build : ∀ build ∈ w.build, build.Fresh w.index → BuildSound w build

section

variable {w w' : MembershipWorld} {processed : List RoomMemberEvent} {published : List MembersPublication}
  {event : RoomMemberEvent} {room : GrantRoomMembership} {build : SnapshotBuild} {roomId : String} {n : Nat}

theorem quietSince_now : QuietSince processed roomId processed.length := by
  refine ⟨Nat.le_refl _, fun i event hi hevent => ?_⟩
  rw [List.getElem?_eq_none hi] at hevent
  cases hevent

theorem QuietSince.append (h : QuietSince processed roomId n) (hne : event.roomId ≠ roomId) :
    QuietSince (processed ++ [event]) roomId n := by
  refine ⟨by rw [List.length_append]; exact Nat.le_add_right_of_le h.1, fun i later hi hlater => ?_⟩
  by_cases hold : i < processed.length
  · rw [List.getElem?_append_left hold] at hlater
    exact h.2 i later hi hlater
  · rw [List.getElem?_append_right (Nat.le_of_not_lt hold)] at hlater
    obtain rfl := List.mem_singleton.mp (List.mem_of_getElem? hlater)
    exact hne

theorem Settled.append {p : MembersPublication} (h : Settled processed p) : Settled (processed ++ [event]) p := by
  refine ⟨by rw [List.length_append]; exact Nat.le_add_right_of_le h.1, fun i later hi hlt hlater => ?_⟩
  rw [List.getElem?_append_left (Nat.lt_of_lt_of_le hlt h.1)] at hlater
  exact h.2 i later hi hlt hlater

theorem BackedBy.mono {published' : List MembersPublication} (h : BackedBy published processed room)
    (hsub : ∀ p ∈ published, p ∈ published') : BackedBy published' processed room := by
  rcases h with ⟨p, hp, hrow⟩
  exact ⟨p, hsub p hp, hrow⟩

/-- A row of another room is backed as before an event. -/
theorem BackedBy.append_of_ne (h : BackedBy published processed room)
    (hsettled : ∀ p ∈ published, Settled processed p) (hne : room.roomId ≠ some event.roomId) :
    BackedBy published (processed ++ [event]) room := by
  rcases h with ⟨p, hp, hid, husers⟩
  refine ⟨p, hp, hid, ?_⟩
  have hother : event.roomId ≠ p.roomId := by
    rintro heq
    exact hne (by rw [hid, heq])
  rw [List.drop_append_of_le_length (hsettled p hp).1, changedBy_append, changedBy_cons_of_ne hother]
  exact husers

/-- The row of the room is backed with the event applied. -/
theorem BackedBy.append_self (h : BackedBy published processed room)
    (hsettled : ∀ p ∈ published, Settled processed p) (hroom : room.roomId = some event.roomId) :
    BackedBy published (processed ++ [event])
      { room with rawJoinedUserIds := event.applied room.rawJoinedUserIds } := by
  rcases h with ⟨p, hp, hid, husers⟩
  refine ⟨p, hp, hid, ?_⟩
  have hsame : event.roomId = p.roomId := Option.mem_unique hroom hid
  rw [List.drop_append_of_le_length (hsettled p hp).1, changedBy_append, changedBy_cons_self hsame]
  show event.applied room.rawJoinedUserIds = event.applied _
  rw [husers]

/-- After a step that raised the epoch, no build may publish. -/
theorem MembershipSafe.raised (h : MembershipSafe w) (hbuild : w'.build = w.build)
    (hepoch : w'.index.epoch = w.index.epoch + 1) : (∀ build ∈ w'.build, build.expectedEpoch ≤ w'.index.epoch) ∧
      ∀ build ∈ w'.build, build.Fresh w'.index → BuildSound w' build := by
  rw [hbuild]
  constructor
  · intro build hmem
    have hle := h.epoch build hmem
    omega
  · intro build hmem hfresh
    have hle := h.epoch build hmem
    have heq := hfresh.2
    omega

variable {policy : MembershipPolicy} {index : AgentReplyMembershipIndex}

theorem MembershipSafe.invalidate (h : MembershipSafe w) : MembershipSafe (w.invalidate policy) := by
  have hraised := @MembershipSafe.raised w (w.invalidate policy) h rfl rfl
  refine ⟨rfl, fun policy' hpolicy => hpolicy, ?_, h.settled, fun hnone => (by cases hnone), hraised.1, hraised.2⟩
  intro room hroom hready
  -- every row of the new snapshot is unready
  rcases List.mem_append.mp hroom with hgrant | hcurrent
  · rcases List.mem_map.mp hgrant with ⟨key, -, rfl⟩
    cases hready
  · split at hcurrent
    · rcases List.mem_map.mp hcurrent with ⟨old, -, rfl⟩
      cases hready
    · cases hcurrent

/-- A step that raised the epoch and left no ready row that is not backed. -/
theorem MembershipSafe.raise (h : MembershipSafe w)
    (hepoch : index.epoch = w.index.epoch + 1) (hdesired : index.desiredSignature = w.index.desiredSignature)
    (hsignature : index.snapshot.policySignature = w.index.snapshot.policySignature)
    (hw : w' = { w with index := index, processed := processed, transitions := w'.transitions })
    (hsettled : ∀ p ∈ w.published, Settled processed p)
    (hrows : ∀ room ∈ index.snapshot.rooms, room.ready → BackedBy w.published processed room) :
    MembershipSafe w' := by
  have hraised := @MembershipSafe.raised w w' h (by rw [hw]) (by rw [hw]; exact hepoch)
  refine ⟨?_, ?_, ?_, ?_, ?_, hraised.1, hraised.2⟩
  · rw [hw]
    exact hdesired.trans h.given
  · rw [hw]
    intro policy hpolicy
    exact hdesired.trans (h.signature policy (hsignature ▸ hpolicy))
  · rw [hw]
    exact hrows
  · rw [hw]
    exact hsettled
  · rw [hw]
    intro hnone
    exact h.idle (hdesired.symm.trans hnone)

/-- Marking a room unready does nothing, or raises the epoch and leaves fewer ready rows. -/
theorem markRoomUnready_cases (index : AgentReplyMembershipIndex) (policy : MembershipPolicy)
    (managed : ManagedRooms) (roomId : String) :
    let next := index.markRoomUnready policy managed roomId
    next = index ∨ (next.epoch = index.epoch + 1 ∧ next.desiredSignature = index.desiredSignature ∧
      next.snapshot.policySignature = index.snapshot.policySignature ∧
      ∀ room ∈ next.snapshot.rooms, room.ready → room ∈ index.snapshot.rooms) := by
  unfold AgentReplyMembershipIndex.markRoomUnready
  split
  · exact .inl rfl
  dsimp only
  split
  · exact .inl rfl
  · refine .inr ⟨rfl, rfl, rfl, fun room hroom hready => ?_⟩
    rcases List.mem_append.mp hroom with hupdated | happended
    · rcases List.mem_map.mp hupdated with ⟨old, hold, rfl⟩
      split at hready
      · cases hready
      · next hother =>
        rw [if_neg hother]
        exact hold
    · split at happended
      · obtain rfl := List.mem_singleton.mp happended
        cases hready
      · cases happended

theorem MembershipSafe.markRoomUnready (h : MembershipSafe w) :
    MembershipSafe { w with index := w.index.markRoomUnready policy w.managed roomId } := by
  rcases markRoomUnready_cases w.index policy w.managed roomId with hsame | ⟨hepoch, hdesired, hsignature, hrows⟩
  · rw [hsame]
    exact h
  · exact h.raise hepoch hdesired hsignature rfl h.settled fun room hroom hready =>
      h.rows room (hrows room hroom hready) hready

/-- An event is dropped, or raises the epoch and gives the index the updated rows. -/
theorem applyMemberEvent_cases (index : AgentReplyMembershipIndex) (policy : MembershipPolicy)
    (managed : ManagedRooms) (event : RoomMemberEvent) (controlUserId : String) :
    let next := index.applyMemberEvent policy managed event controlUserId
    (¬ index.Reaches policy managed event.roomId ∧ next = index) ∨
      (index.Reaches policy managed event.roomId ∧ next.epoch = index.epoch + 1 ∧
        next.desiredSignature = index.desiredSignature ∧
        next.snapshot.policySignature = index.snapshot.policySignature ∧
        next.snapshot.rooms = index.updatedRooms managed event controlUserId) := by
  unfold AgentReplyMembershipIndex.applyMemberEvent
  split
  · next hdropped => exact .inl ⟨hdropped, rfl⟩
  next hreaches =>
  dsimp only
  split
  · next hsame => exact .inr ⟨not_not.mp hreaches, rfl, rfl, rfl, hsame.1.symm⟩
  · exact .inr ⟨not_not.mp hreaches, rfl, rfl, rfl, rfl⟩

/-- A ready row after an event is an old row of another room, or a matching one with the event applied. -/
theorem ready_of_updatedRooms {managed : ManagedRooms}
    {controlUserId : String} (hroom : room ∈ index.updatedRooms managed event controlUserId)
    (hready : room.ready) : ∃ old ∈ index.snapshot.rooms, old.ready ∧ ((room = old ∧ old.roomId ≠ some event.roomId) ∨
        (index.Matches managed event.roomId old ∧ room = { old with
            roomId := some event.roomId, rawJoinedUserIds := event.applied old.rawJoinedUserIds })) := by
  rcases List.mem_append.mp hroom with hupdated | happended
  · rcases List.mem_map.mp hupdated with ⟨old, hold, rfl⟩
    refine ⟨old, hold, ?_⟩
    by_cases hmatches : index.Matches managed event.roomId old
    · rw [if_pos hmatches] at hready ⊢
      unfold AgentReplyMembershipIndex.applyTransitionToRoom at hready ⊢
      rw [if_neg (by simp)] at hready ⊢
      split at hready
      · cases hready
      next hcontrol =>
      rw [if_neg hcontrol]
      by_cases hold : old.ready = true
      · rw [if_neg (not_not.mpr hold)]
        exact ⟨hold, .inr ⟨hmatches, rfl⟩⟩
      · rw [if_pos hold] at hready
        exact absurd hready hold
    · have hother : old.roomId ≠ some event.roomId := fun heq => hmatches (.inl heq)
      rw [if_neg hmatches] at hready ⊢
      unfold AgentReplyMembershipIndex.applyTransitionToRoom at hready ⊢
      rw [if_pos hother] at hready ⊢
      exact ⟨hready, .inl ⟨rfl, hother⟩⟩
  · split at happended
    · obtain rfl := List.mem_singleton.mp happended
      cases hready
    · cases happended

/-- An event that is given to no ready row of another room, and is not dropped where it counts. -/
theorem MembershipSafe.memberEvent {controlUserId : String}
    (h : MembershipSafe w) (hstray : NoStrayEvent (.memberEvent policy event.roomId controlUserId) w)
    (hw : w' = { w with
      index := w.index.applyMemberEvent policy w.managed event controlUserId
      transitions := w'.transitions
      processed := w.processed ++ [event] }) : MembershipSafe w' := by
  have hsettled : ∀ p ∈ w.published, Settled (w.processed ++ [event]) p :=
    fun p hp => (h.settled p hp).append
  rcases applyMemberEvent_cases w.index policy w.managed event controlUserId with
    ⟨hdropped, hsame⟩ | ⟨hreaches, hepoch, hdesired, hsignature, hrooms⟩
  · rw [hsame] at hw
    rw [NoStrayEvent, if_neg hdropped] at hstray
    have hindex : w'.index = w.index := by rw [hw]
    have hbuild : w'.build = w.build := by rw [hw]
    refine ⟨?_, ?_, ?_, ?_, ?_, ?_, ?_⟩
    · rw [hw]
      exact h.given
    · rw [hw]
      exact h.signature
    · rw [hw]
      intro room hroom hready
      exact (h.rows room hroom hready).append_of_ne h.settled (hstray.1 room hroom hready)
    · rw [hw]
      exact hsettled
    · rw [hw]
      exact h.idle
    · rw [hbuild, hindex]
      exact h.epoch
    · intro build hmem hfresh
      rw [hbuild] at hmem
      rw [hindex] at hfresh
      have hsound := h.build build hmem hfresh
      have hunasked := hstray.2 build hmem hfresh
      refine ⟨by rw [hindex]; exact hsound.previousRooms, hsound.filled, ?_, ?_⟩
      · intro answer hanswer
        rw [hw]
        exact (hsound.answers answer hanswer).append fun heq => hunasked (.inl ⟨answer, hanswer, heq.symm⟩)
      · intro query hquery
        rw [hw]
        exact (hsound.query query hquery).append fun heq => hunasked (.inr ⟨query, hquery, heq.symm⟩)
  · rw [NoStrayEvent, if_pos hreaches] at hstray
    refine h.raise hepoch hdesired hsignature hw hsettled ?_
    intro room hroom hready
    rw [hrooms] at hroom
    rcases ready_of_updatedRooms hroom hready with ⟨old, hold, holdReady, ⟨rfl, hother⟩ | ⟨hmatches, rfl⟩⟩
    · exact (h.rows room hold holdReady).append_of_ne h.settled hother
    · have hid := hstray old hold holdReady hmatches
      have hbacked := (h.rows old hold holdReady).append_self h.settled hid
      rw [hid] at hbacked
      exact hbacked

/-- A complete build publishes its rows, or is dropped. -/
theorem MembershipSafe.publish {candidate : AgentReplyMembershipSnapshot} (h : MembershipSafe w)
    (hbuild : build.Fresh w.index → BuildSound w build)
    (hsignature : candidate.policySignature = some build.policy) (hrows : candidate.rooms = build.rooms) :
    MembershipSafe (w.publish build candidate) := by
  unfold MembershipWorld.publish
  split
  · next hfresh =>
    have hsound := hbuild hfresh
    refine ⟨h.given, ?_, ?_, ?_, fun hnone => ⟨rfl, (h.idle hnone).2⟩, fun _ hmem => (by cases hmem),
      fun _ hmem => (by cases hmem)⟩
    · intro policy hpolicy
      rw [hsignature] at hpolicy
      cases hpolicy
      exact hfresh.1
    · intro room hroom hready
      rw [hrows] at hroom
      rcases hsound.filled.rooms room hroom hready with hprevious | ⟨answer, hanswer, hid, husers⟩
      · exact (h.rows room (hsound.previousRooms room hprevious) hready).mono
          fun p hp => List.mem_append_left _ hp
      · refine ⟨_, List.mem_append_right _ (List.mem_map.mpr ⟨answer, hanswer, rfl⟩), hid, ?_⟩
        -- nothing was processed since the publication
        rw [husers, MembershipWorld.now, List.drop_length]
        rfl
    · intro p hp
      rcases List.mem_append.mp hp with hp | hp
      · exact h.settled p hp
      · rcases List.mem_map.mp hp with ⟨answer, hanswer, rfl⟩
        exact ⟨Nat.le_refl _, fun i event hi _ hevent => (hsound.answers answer hanswer).2 i event hi hevent⟩
  · exact ⟨h.given, h.signature, h.rows, h.settled, fun hnone => ⟨rfl, (h.idle hnone).2⟩,
      fun _ hmem => (by cases hmem), fun _ hmem => (by cases hmem)⟩

/-- A build of the world that goes on soundly. -/
theorem MembershipSafe.resume {progress : BuildProgress} (h : MembershipSafe w)
    (hstarted : w.index.desiredSignature ≠ none) (hepoch : progress.build.expectedEpoch ≤ w.index.epoch)
    (hbuild : progress.build.Fresh w.index → BuildSound w progress.build) : MembershipSafe (w.resume progress) := by
  cases progress with
  | asks build =>
    refine ⟨h.given, h.signature, h.rows, h.settled, fun hnone => absurd hnone hstarted, ?_, ?_⟩
    · rintro _ ⟨⟩
      exact hepoch
    · rintro _ ⟨⟩ hfresh
      have hsound := hbuild hfresh
      exact ⟨hsound.previousRooms, hsound.filled, hsound.answers, hsound.query⟩
  | complete build => exact h.publish hbuild rfl rfl

theorem MembershipSafe.started (h : MembershipSafe w) (hbuild : w.build = some build) :
    w.index.desiredSignature ≠ none := by
  intro hnone
  have hidle := (h.idle hnone).1
  rw [hbuild] at hidle
  cases hidle

/-- The build goes on after `joined_rooms`. -/
theorem MembershipSafe.joinedRooms {joined : Option (List String)} (h : MembershipSafe w)
    (hbuild : w.build = some build) : MembershipSafe (w.resume (build.withJoinedRooms w.now joined)) := by
  have hcontinues : Resumes w.now { build with joinedRoomIds := joined }
      (build.withJoinedRooms w.now joined).build := continues_grantRooms _
  refine h.resume (h.started hbuild) ?_ ?_
  · rw [hcontinues.expectedEpoch]
    exact h.epoch build hbuild
  · intro hfresh
    have hfresh' : build.Fresh w.index := by
      unfold SnapshotBuild.Fresh at hfresh ⊢
      rw [hcontinues.policy, hcontinues.expectedEpoch] at hfresh
      exact hfresh
    have hsound := h.build build hbuild hfresh'
    refine ⟨?_, hcontinues.filled ⟨hsound.filled.rooms, hsound.filled.memberships⟩, ?_, ?_⟩
    · rw [hcontinues.previousRooms]
      exact hsound.previousRooms
    · rw [hcontinues.answers]
      exact hsound.answers
    · intro query hquery
      rcases hcontinues.query query hquery with hold | hnow
      · exact hsound.query query hold
      · rw [hnow]
        exact quietSince_now

/-- The build goes on after `joined_members`. -/
theorem MembershipSafe.members {query : MembersQuery} {members : Option (List String)} (h : MembershipSafe w)
    (hbuild : w.build = some build) (hquery : build.query = some query) :
    MembershipSafe (w.resume (build.withMembers w.now query members)) := by
  by_cases hphase : build.phase = .joinedRooms
  · have hsame : build.withMembers w.now query members = .asks build := by
      unfold SnapshotBuild.withMembers
      rw [hphase]
    rw [hsame]
    exact h.resume (h.started hbuild) (h.epoch build hbuild) (h.build build hbuild)
  · refine h.resume (h.started hbuild) ?_ ?_
    · rw [(continues_withMembers hphase).2.2.1]
      exact h.epoch build hbuild
    · intro hfresh
      have hfresh' : build.Fresh w.index := by
        unfold SnapshotBuild.Fresh at hfresh ⊢
        rw [(continues_withMembers hphase).2.1, (continues_withMembers hphase).2.2.1] at hfresh
        exact hfresh
      have hsound := h.build build hbuild hfresh'
      rcases @continues_withMembers w.now build query members hphase with
        ⟨hfilled, -, -, hprevious, hanswers, hasked⟩
      refine ⟨?_, hfilled hsound.filled, ?_, ?_⟩
      · rw [hprevious]
        exact hsound.previousRooms
      · rw [hanswers]
        intro answer hanswer
        rcases List.mem_append.mp hanswer with hold | hnew
        · exact hsound.answers answer hold
        · rcases Option.map_eq_some_iff.mp (Option.mem_toList.mp hnew) with ⟨users, -, rfl⟩
          exact hsound.query query hquery
      · intro query' hquery'
        rw [hasked query' hquery']
        exact quietSince_now

theorem MembershipSafe.serve {query : MembersQuery} {answer : Option (List String)} (h : MembershipSafe w)
    (hbuild : w.build = some build) (hquery : build.query = some query) :
    MembershipSafe { w with build := some { build with query := some { query with answer := answer } } } := by
  refine ⟨h.given, h.signature, h.rows, h.settled, fun hnone => absurd hnone (h.started hbuild), ?_, ?_⟩
  · rintro _ ⟨⟩
    exact h.epoch build hbuild
  · rintro _ ⟨⟩ hfresh
    have hsound := h.build build hbuild hfresh
    refine ⟨hsound.previousRooms, ⟨hsound.filled.rooms, hsound.filled.memberships⟩, hsound.answers, ?_⟩
    rintro _ ⟨⟩
    exact hsound.query query hquery

theorem mem_previousRooms
    (h : room ∈ index.previousRooms policy) : room ∈ index.snapshot.rooms := by
  unfold AgentReplyMembershipIndex.previousRooms at h
  split at h
  · exact h
  · cases h

theorem MembershipSafe.acquire (h : MembershipSafe w)
    (hwaiting : policy ∈ w.waiting) : MembershipSafe (w.acquire policy) := by
  have hstarted : w.index.desiredSignature ≠ none := by
    intro hnone
    rw [(h.idle hnone).2] at hwaiting
    cases hwaiting
  have hempty : Filled { policy, expectedEpoch := w.index.epoch, previousRooms := w.index.previousRooms policy, managed := w.managed } := ⟨fun _ hroom => (by cases hroom), fun _ _ hlookup => (by cases hlookup)⟩
  have hwithout : MembershipSafe { w with waiting := w.waiting.erase policy } :=
    ⟨h.given, h.signature, h.rows, h.settled, fun hnone => absurd hnone hstarted, h.epoch, fun build hmem hfresh =>
      ⟨(h.build build hmem hfresh).previousRooms, (h.build build hmem hfresh).filled,
        (h.build build hmem hfresh).answers, (h.build build hmem hfresh).query⟩⟩
  unfold MembershipWorld.acquire
  dsimp only
  split
  · refine hwithout.publish ?_ rfl rfl
    intro _
    exact ⟨fun _ hroom => mem_previousRooms hroom, hempty, fun _ hanswer => (by cases hanswer),
      fun _ hquery => (by cases hquery)⟩
  · refine ⟨h.given, h.signature, h.rows, h.settled, fun hnone => absurd hnone hstarted, ?_, ?_⟩
    · rintro _ ⟨⟩
      exact Nat.le_refl _
    · rintro _ ⟨⟩ -
      exact ⟨fun _ hroom => mem_previousRooms hroom, hempty, fun _ hanswer => (by cases hanswer),
        fun _ hquery => (by cases hquery)⟩

theorem MembershipSafe.withWaiting {waiting : List MembershipPolicy} (h : MembershipSafe w)
    (hidle : w.index.desiredSignature = none → waiting = []) : MembershipSafe { w with waiting := waiting } :=
  ⟨h.given, h.signature, h.rows, h.settled, fun hnone => ⟨(h.idle hnone).1, hidle hnone⟩, h.epoch,
    fun build hmem hfresh =>
      ⟨(h.build build hmem hfresh).previousRooms, (h.build build hmem hfresh).filled,
        (h.build build hmem hfresh).answers, (h.build build hmem hfresh).query⟩⟩

theorem MembershipSafe.startRefresh (h : MembershipSafe w) : MembershipSafe (w.startRefresh policy) := by
  unfold MembershipWorld.startRefresh
  dsimp only
  split
  · next hnone =>
    -- the first policy: nothing was published, and no refresh is under way
    have hbuild := (h.idle hnone).1
    refine ⟨rfl, ?_, h.rows, h.settled, fun hnone' => (by cases hnone'), ?_, ?_⟩
    · intro policy' hpolicy
      have hold := h.signature policy' hpolicy
      rw [hnone] at hold
      cases hold
    · intro build hmem
      rw [hbuild] at hmem
      cases hmem
    · intro build hmem
      rw [hbuild] at hmem
      cases hmem
  · next hsome =>
    have hwaiting : MembershipSafe { w with waiting := w.waiting ++ [policy] } :=
      h.withWaiting fun hnone => absurd hnone hsome
    split
    · exact hwaiting.invalidate
    · exact hwaiting

end

/-! ## The runs -/

theorem membershipSafe_step {label : MembershipLabel} {w w' : MembershipWorld} (h : MembershipSafe w)
    (hstray : NoStrayEvent label w) (hstep : membershipStep label w = some w') : MembershipSafe w' := by
  have hlost : MembershipSafe { w with build := none } :=
    ⟨h.given, h.signature, h.rows, h.settled, fun hnone => ⟨rfl, (h.idle hnone).2⟩, fun _ hmem => (by cases hmem),
      fun _ hmem => (by cases hmem)⟩
  cases label with
  | change event =>
    cases hstep
    exact ⟨h.given, h.signature, h.rows, h.settled, h.idle, h.epoch, fun build hmem hfresh =>
      ⟨(h.build build hmem hfresh).previousRooms, (h.build build hmem hfresh).filled,
        (h.build build hmem hfresh).answers, (h.build build hmem hfresh).query⟩⟩
  | memberEvent policy roomId controlUserId =>
    simp only [membershipStep] at hstep
    split at hstep
    · cases hstep
    · next event hevent =>
      cases hstep
      have hroom : event.roomId = roomId := by simpa using List.find?_some hevent
      rw [← hroom] at hstray
      exact h.memberEvent hstray rfl
  | refresh policy =>
    cases hstep
    exact h.startRefresh
  | acquire policy =>
    simp only [membershipStep, Option.ite_none_right_eq_some] at hstep
    obtain rfl := Option.some.inj hstep.2
    exact h.acquire hstep.1.1
  | joinedRooms joined =>
    simp only [membershipStep] at hstep
    split at hstep
    · cases hstep
    · next build hbuild =>
      rw [Option.ite_none_right_eq_some] at hstep
      obtain rfl := Option.some.inj hstep.2
      exact h.joinedRooms hbuild
  | serve =>
    simp only [membershipStep] at hstep
    split at hstep
    · cases hstep
    · next build hbuild =>
      rcases Option.map_eq_some_iff.mp hstep with ⟨query, hquery, rfl⟩
      exact h.serve hbuild hquery
  | members delivered =>
    simp only [membershipStep] at hstep
    split at hstep
    · cases hstep
    next build hbuild =>
    split at hstep
    · cases hstep
    next query hquery =>
    split at hstep
    · rcases Option.map_eq_some_iff.mp hstep with ⟨members, -, rfl⟩
      exact h.members hbuild hquery
    · cases hstep
      exact h.members hbuild hquery
  | cancel =>
    rcases Option.map_eq_some_iff.mp hstep with ⟨build, -, rfl⟩
    exact hlost
  | cancelWaiting policy =>
    simp only [membershipStep, Option.ite_none_right_eq_some] at hstep
    obtain rfl := Option.some.inj hstep.2
    refine h.withWaiting fun hnone => ?_
    rw [(h.idle hnone).2]
    rfl
  | markRoomUnready policy roomId =>
    cases hstep
    exact h.markRoomUnready
  | invalidate policy =>
    cases hstep
    exact h.invalidate
  | remap managed =>
    cases hstep
    exact ⟨h.given, h.signature, h.rows, h.settled, h.idle, h.epoch, fun build hmem hfresh =>
      ⟨(h.build build hmem hfresh).previousRooms, (h.build build hmem hfresh).filled,
        (h.build build hmem hfresh).answers, (h.build build hmem hfresh).query⟩⟩

theorem membershipSafe_start {w : MembershipWorld} (h : membershipSystem.start w) : MembershipSafe w := by
  rcases h with ⟨managed, joined, rfl⟩
  exact ⟨rfl, fun _ hpolicy => (by cases hpolicy), fun _ hroom => (by cases hroom), fun _ hp => (by cases hp),
    fun _ => ⟨rfl, rfl⟩, fun _ hmem => (by cases hmem), fun _ hmem => (by cases hmem)⟩

/-- Who left before the publication left before the query, and who left after it joined again. -/
theorem MembershipSafe.backed {w : MembershipWorld} (h : MembershipSafe w) : AnswersBacked w where
  answers := h.rows
  left room hroom hready i event hevent hid hleave huser := by
    rcases h.rows room hroom hready with ⟨p, hp, hidp, husers⟩
    have hroomId : p.roomId = event.roomId := Option.mem_unique hidp hid
    by_cases hasked : i < p.askedAt
    · exact .inr ⟨p, hp, hroomId, hasked⟩
    by_cases hbefore : i < p.publishedAt
    · exact absurd hroomId.symm ((h.settled p hp).2 i event (Nat.le_of_not_lt hasked) hbefore hevent)
    · left
      have hsince : (w.processed.drop p.publishedAt)[i - p.publishedAt]? = some event := by
        rw [List.getElem?_drop, Nat.add_sub_cancel' (Nat.le_of_not_lt hbefore)]
        exact hevent
      rw [husers] at huser
      rcases mem_changedBy_of_left hsince hroomId.symm hleave huser with ⟨j, later, hij, hj, hlater⟩
      rw [List.getElem?_drop] at hj
      exact ⟨p.publishedAt + j, later, by omega, hj, hroomId ▸ hlater⟩
  policy policy hpolicy := h.given ▸ h.signature policy hpolicy

/-- In every run without stray events the ready rows of the published snapshot are backed. -/
theorem grants_backed {w : MembershipWorld} (h : (membershipSystem.given NoStrayEvent).Reachable w) :
    AnswersBacked w := by
  refine MembershipSafe.backed (h.induct ?_ ?_)
  · exact fun w hw => membershipSafe_start hw
  · exact fun label t t' _ ht hstep => membershipSafe_step ht hstep.1 hstep.2

namespace EarlyLeave

/-- One agent answers the members of the room with the key `lobby`. -/
def policy : MembershipPolicy := [⟨"agent", false, ["lobby"]⟩]

def world : MembershipWorld where
  managed := [("lobby", "!lobby")]
  joined := [("!lobby", "@bot"), ("!lobby", "@user")]

def leave : RoomMemberEvent := ⟨"!lobby", "@user", "leave"⟩

/-- The first refresh, up to the moment at which the homeserver reads the members of the room. -/
def asking : List MembershipLabel :=
  [.refresh policy, .acquire policy, .joinedRooms (some ["!lobby"]), .serve]

/-- The user leaves, and the transition is processed before the answer is delivered. -/
def early : List MembershipLabel :=
  asking ++ [.change leave, .memberEvent policy "!lobby" "@bot", .members true]

/-- The transition is processed after the answer was published. -/
def late : List MembershipLabel :=
  asking ++ [.members true, .change leave, .memberEvent policy "!lobby" "@bot"]

/-- The published snapshot has a ready row of the lobby with these users. -/
def Shows (users : List String) (w : MembershipWorld) : Prop :=
  ⟨some "lobby", some "!lobby", true, users⟩ ∈ w.index.snapshot.rooms

instance (users : List String) : DecidablePred (Shows users) :=
  fun _ => inferInstanceAs (Decidable (_ ∈ _))

theorem world_reachable {C : MembershipLabel → MembershipWorld → Prop} :
    (membershipSystem.given C).Reachable world := .start ⟨_, _, rfl⟩

/-- The transition is dropped, and the answer from before it is published: who left is granted. -/
theorem not_answersBacked : ∃ w, membershipSystem.Reachable w ∧ ¬ AnswersBacked w := by
  have hends : (System.follow (fun _ _ => True) membershipStep early world).any (fun w =>
      decide (Shows ["@bot", "@user"] w ∧ w.processed = [leave] ∧ ∀ p ∈ w.published, p.askedAt = 0)) = true := by
    decide +kernel
  rcases Option.any_eq_true _ _ |>.mp hends with ⟨w, hw, hshows⟩
  rcases of_decide_eq_true hshows with ⟨hrow, hprocessed, hasked⟩
  have hrun : (membershipSystem.given fun _ _ => True).Run world w :=
    System.Run.of_follow (fun _ _ _ h => h) hw
  refine ⟨w, (world_reachable.run hrun).of_given, ?_⟩
  intro hbacked
  rcases hbacked.left _ hrow rfl 0 leave (by rw [hprocessed]; rfl) rfl (by decide) (by decide) with
    ⟨j, later, hj, hlater, -⟩ | ⟨p, hp, -, hlt⟩
  · rw [hprocessed, List.getElem?_eq_none (by simp; omega)] at hlater
    cases hlater
  · rw [hasked p hp] at hlt
    omega

/-- After the publication it takes the user out of the row. -/
theorem late_backed : ∃ w, AnswersBacked w ∧ Shows ["@bot"] w := by
  have hends : (System.follow NoStrayEvent membershipStep late world).any (fun w =>
      decide (Shows ["@bot"] w)) = true := by decide +kernel
  rcases Option.any_eq_true _ _ |>.mp hends with ⟨w, hw, hshows⟩
  have hrun : (membershipSystem.given NoStrayEvent).Run world w :=
    System.Run.of_follow (fun _ _ _ h => h) hw
  exact ⟨w, grants_backed (world_reachable.run hrun), of_decide_eq_true hshows⟩

end EarlyLeave

end MindRoom
