import MindRoom.Questions

/-! # Thread membership of the events of one page

An event belongs to a thread when it carries a thread relation, or when its other relations lead to
an event that does or to a proven thread root. A page is resolved by walking from every event, round
after round, until a round places no event. A walk takes a bounded number of hops and stops early at
events that are placed already, so a round reads what it is writing.
-/

namespace MindRoom.ThreadMembership

/-! ## The program -/

/-- The relations of one event, as far as membership reads them. -/
structure EventInfo where
  threadId : Option String := none
  canBeThreadRoot : Bool := false
  isEdit : Bool := false
  originalEventId : Option String := none
  isReaction : Bool := false
  reactionTargetEventId : Option String := none
  relationType : Option String := none
  relatesToEventId : Option String := none
  replyToEventId : Option String := none
  eventType : Option String := none
deriving DecidableEq

/-- Whether this Matrix event family can affect conversation thread state. -/
def eventTypeSupportsThreadRelations (eventType : Option String) : Bool :=
  eventType = some "m.room.encrypted" || eventType = some "m.room.message"

namespace EventInfo

/-- The relation targets of an event in the order they are inspected, stripped and not empty. -/
def targets (info : EventInfo) : List String :=
  [if info.isEdit then info.originalEventId else none, if info.isReaction then info.reactionTargetEventId else none,
    if info.relationType = some "m.reference" then info.relatesToEventId else none,
    info.replyToEventId].filterMap fun target =>
      (target.map fun eventId => String.ofList (strip eventId)).filter (· ≠ "")

def nextRelatedEventId (info : EventInfo) (currentEventId : String) : Option String :=
  info.targets.find? (· ≠ currentEventId)

end EventInfo

/-- Outcome of proving whether one candidate event is a real thread root. -/
inductive ThreadRootProof where
  | proven
  | notAThreadRoot
  | proofUnavailable (error : String)
deriving DecidableEq

inductive ThreadResolution where
  | threaded (threadId : String)
  | roomLevel
  | indeterminate (error : String) (candidateThreadRootId : String)
deriving DecidableEq

/-- Accessors used to resolve one event's thread membership. The room is the same for all. -/
structure ThreadMembershipAccess where
  lookupThreadId : String → Except String (Option String)
  fetchEventInfo : String → Except String (Option EventInfo)
  proveThreadRoot : String → ThreadRootProof

/-- An event of a conversation relation walk: an event of another family cannot be one. -/
def conversationEventInfo (access : ThreadMembershipAccess) (eventId : String) : Except String (Option EventInfo) := do
  match ← access.fetchEventInfo eventId with
  | none => pure none
  | some info =>
    if eventTypeSupportsThreadRelations info.eventType then pure (some info)
    else throw s!"Related event {eventId} cannot carry conversation thread membership"

def conversationThreadId (access : ThreadMembershipAccess) (eventId : String) : Except String (Option String) := do
  match ← access.lookupThreadId eventId with
  | none => pure none
  | some threadId =>
    match ← conversationEventInfo access eventId with
    | none => throw s!"Indexed event {eventId} is unavailable for conversation thread validation"
    | some _ => pure (some threadId)

/-- Reject non-message ancestors and stale indexes from conversation relation walks. -/
def conversationRelationThreadMembershipAccess (access : ThreadMembershipAccess) : ThreadMembershipAccess where
  lookupThreadId := conversationThreadId access
  fetchEventInfo := conversationEventInfo access
  proveThreadRoot := access.proveThreadRoot

def pageEventInfoCountsAsThreadChildProof (threadRootId eventId : String) (info : EventInfo) : Bool :=
  if eventId = threadRootId || !eventTypeSupportsThreadRelations info.eventType then false
  else info.threadId = some threadRootId

def mapBackedThreadMembershipAccess (eventInfos : Mapping String EventInfo)
    (resolvedThreadIds : Mapping String String) : ThreadMembershipAccess :=
  conversationRelationThreadMembershipAccess {
    lookupThreadId := fun eventId => .ok (resolvedThreadIds.value? eventId)
    fetchEventInfo := fun eventId => .ok (eventInfos.value? eventId)
    proveThreadRoot := fun threadRootId =>
      if eventInfos.rows.any fun item => pageEventInfoCountsAsThreadChildProof threadRootId item.key item.value then
        .proven
      else .notAThreadRoot }

/-- One root proof result as canonical thread membership. -/
def resolutionFromRootProof (threadRootId : String) : ThreadRootProof → ThreadResolution
  | .proven => .threaded threadRootId
  | .notAThreadRoot => .roomLevel
  | .proofUnavailable error => .indeterminate error threadRootId

def maxThreadMembershipHops : Nat := 512

/-- The hops of the walk. A failure to look a thread up is not caught here, a failure to fetch an
event is. -/
def resolveHops (access : ThreadMembershipAccess) : Nat → List String → String → Except String ThreadResolution
  | 0, _, _ => .ok .roomLevel
  | hops + 1, visitedEventIds, currentEventId =>
    if currentEventId ∈ visitedEventIds then .ok .roomLevel
    else
      match access.lookupThreadId currentEventId with
      | .error error => .error error
      | .ok (some threadId) => .ok (.threaded threadId)
      | .ok none =>
        match access.fetchEventInfo currentEventId with
        | .error error => .ok (.indeterminate error currentEventId)
        | .ok none =>
          .ok (.indeterminate s!"Related event {currentEventId} is unavailable" currentEventId)
        | .ok (some info) =>
          match info.threadId with
          | some threadId => .ok (.threaded threadId)
          | none =>
            match info.nextRelatedEventId currentEventId with
            | some nextTarget => resolveHops access hops (currentEventId :: visitedEventIds) nextTarget
            | none =>
              if info.canBeThreadRoot then
                .ok (resolutionFromRootProof currentEventId (access.proveThreadRoot currentEventId))
              else .ok .roomLevel

def resolveRelatedEventThreadMembership (access : ThreadMembershipAccess) (relatedEventId : String) :
    Except String ThreadResolution :=
  resolveHops access maxThreadMembershipHops [] relatedEventId

/-- Canonical thread membership for one event that is not considered as a root itself. -/
def resolveEventThreadMembership (access : ThreadMembershipAccess) (info : EventInfo) :
    Except String ThreadResolution :=
  match info.threadId with
  | some threadId => .ok (.threaded threadId)
  | none =>
    match info.nextRelatedEventId "" with
    | some relatedEventId => resolveRelatedEventThreadMembership access relatedEventId
    | none => .ok .roomLevel

section

variable (eventInfos : Mapping String EventInfo)

/-- One event of a round: what is resolved, and whether the round made progress. -/
def resolveOne (state : Mapping String String × Bool) (eventId : String) :
    Except String (Mapping String String × Bool) :=
  if (state.1.value? eventId).isSome then .ok state
  else
    match eventInfos.value? eventId with
    | none => .ok state
    | some info =>
      match resolveEventThreadMembership (mapBackedThreadMembershipAccess eventInfos state.1) info with
      | .error error => .error error
      | .ok (.threaded threadId) => .ok (state.1.set eventId threadId, true)
      | .ok _ => .ok state

def resolveRound (orderedEventIds : List String) (state : Mapping String String × Bool) :
    Except String (Mapping String String × Bool) :=
  match orderedEventIds with
  | [] => .ok state
  | eventId :: rest =>
    match resolveOne eventInfos state eventId with
    | .error error => .error error
    | .ok state => resolveRound rest state

/-- Rounds until one makes no progress. Nothing is returned where more rounds are needed. -/
def resolveThreadIdsForEventInfos (orderedEventIds : List String) :
    Nat → Mapping String String → Option (Except String (Mapping String String))
  | 0, _ => none
  | rounds + 1, resolved =>
    match resolveRound eventInfos orderedEventIds (resolved, false) with
    | .error error => some (.error error)
    | .ok (resolved, true) => resolveThreadIdsForEventInfos orderedEventIds rounds resolved
    | .ok (resolved, false) => some (.ok resolved)

end

/-! ## Chains of relations -/

section

variable (eventInfos : Mapping String EventInfo)

/-- An event of the conversation that the page holds. -/
def Message (e : String) (info : EventInfo) : Prop :=
  eventInfos.value? e = some info ∧ eventTypeSupportsThreadRelations info.eventType = true

/-- A hop: the event carries no thread relation, and another one. -/
def Hop (e r : String) : Prop :=
  ∃ info, Message eventInfos e info ∧ info.threadId = none ∧ info.nextRelatedEventId e = some r

/-- Some event of the page is a thread child of the candidate. -/
def ProvenRoot (root : String) : Prop :=
  (eventInfos.rows.any fun item => pageEventInfoCountsAsThreadChildProof root item.key item.value) = true

/-- Where a walk ends in a thread: at a native relation, or at a proven root. -/
def Ending (e t : String) : Prop :=
  ∃ info, Message eventInfos e info ∧ (info.threadId = some t ∨
    (info.threadId = none ∧ info.nextRelatedEventId e = none ∧ info.canBeThreadRoot = true ∧
      ProvenRoot eventInfos e ∧ t = e))

/-- An event of another family, at which a walk is stopped. -/
def Barrier (e : String) : Prop :=
  ∃ info, eventInfos.value? e = some info ∧ eventTypeSupportsThreadRelations info.eventType = false

/-- A number of hops from one event to another. -/
inductive Chain : Nat → String → String → Prop where
  | refl (e : String) : Chain 0 e e
  | hop {k : Nat} {e r x : String} : Hop eventInfos e r → Chain k r x → Chain (k + 1) e x

variable {eventInfos}

theorem Message.unique {e : String} {info info' : EventInfo} (h : Message eventInfos e info)
    (h' : Message eventInfos e info') : info = info' :=
  Option.mem_unique h.1 h'.1

theorem Hop.unique {e r r' : String} (h : Hop eventInfos e r) (h' : Hop eventInfos e r') : r = r' := by
  rcases h with ⟨info, hmessage, _, hnext⟩
  rcases h' with ⟨info', hmessage', _, hnext'⟩
  obtain rfl := hmessage.unique hmessage'
  exact Option.mem_unique hnext hnext'

theorem Ending.not_hop {e t r : String} (h : Ending eventInfos e t) : ¬ Hop eventInfos e r := by
  rintro ⟨info, hmessage, hthread, hnext⟩
  rcases h with ⟨info', hmessage', hnative | ⟨_, hnone, _⟩⟩
  · obtain rfl := hmessage.unique hmessage'
    rw [hthread] at hnative
    cases hnative
  · obtain rfl := hmessage.unique hmessage'
    rw [hnext] at hnone
    cases hnone

theorem Ending.unique {e t t' : String} (h : Ending eventInfos e t) (h' : Ending eventInfos e t') : t = t' := by
  rcases h with ⟨info, hmessage, hcase⟩
  rcases h' with ⟨info', hmessage', hcase'⟩
  obtain rfl := hmessage.unique hmessage'
  rcases hcase with hnative | ⟨hnone, _, _, _, rfl⟩
  · rcases hcase' with hnative' | ⟨hnone', _⟩
    · exact Option.mem_unique hnative hnative'
    · rw [hnative] at hnone'
      cases hnone'
  · rcases hcase' with hnative' | ⟨_, _, _, _, rfl⟩
    · rw [hnone] at hnative'
      cases hnative'
    · rfl

theorem Barrier.not_message {e : String} {info : EventInfo} (h : Barrier eventInfos e) : ¬ Message eventInfos e info := by
  rintro ⟨hinfo, hsupports⟩
  rcases h with ⟨info', hinfo', hnot⟩
  obtain rfl := Option.mem_unique hinfo hinfo'
  rw [hsupports] at hnot
  cases hnot

theorem Barrier.not_hop {e r : String} (h : Barrier eventInfos e) : ¬ Hop eventInfos e r := by
  rintro ⟨info, hmessage, _⟩
  exact h.not_message hmessage

/-- Two chains from one event that cannot go on are the same. -/
theorem Chain.unique {k k' : Nat} {e x x' : String} (h : Chain eventInfos k e x) (h' : Chain eventInfos k' e x')
    (hx : ∀ r, ¬ Hop eventInfos x r) (hx' : ∀ r, ¬ Hop eventInfos x' r) : k = k' ∧ x = x' := by
  induction h generalizing k' with
  | refl e =>
    cases h' with
    | refl => exact ⟨rfl, rfl⟩
    | hop hhop _ => exact absurd hhop (hx _)
  | hop hhop _ ih =>
    cases h' with
    | refl => exact absurd hhop (hx' _)
    | hop hhop' hchain' =>
      obtain rfl := hhop.unique hhop'
      rcases ih hchain' hx with ⟨rfl, rfl⟩
      exact ⟨rfl, rfl⟩

/-- The first target of an event is itself or the next one it hops to. -/
theorem nextRelatedEventId_empty {info : EventInfo} {e r : String} (h : info.nextRelatedEventId "" = some r) :
    r = e ∨ info.nextRelatedEventId e = some r := by
  have hne : ∀ target ∈ info.targets, target ≠ "" := by
    intro target htarget
    rcases List.mem_filterMap.mp htarget with ⟨_, _, hfilter⟩
    simpa using (Option.filter_eq_some_iff.mp hfilter).2
  unfold EventInfo.nextRelatedEventId at h ⊢
  cases htargets : info.targets with
  | nil =>
    rw [htargets] at h
    cases h
  | cons target targets =>
    rw [htargets] at h hne
    rw [List.find?_cons_of_pos (by simpa using hne target List.mem_cons_self)] at h
    obtain rfl := Option.some.inj h
    by_cases he : target = e
    · exact .inl he
    · right
      exact List.find?_cons_of_pos (by simpa using he)

end

/-! ## Who belongs to which thread -/

section

variable (eventInfos : Mapping String EventInfo) (eventIds : List String)

/-- A walk of at most so many hops from one event arrives in a thread: at an ending, or at an event
among those to resolve from which a walk of its own arrives. -/
inductive Arrives : Nat → String → String → Prop where
  | ending {n : Nat} {e t : String} : Ending eventInfos e t → Arrives (n + 1) e t
  | hop {n : Nat} {e r t : String} : Hop eventInfos e r → Arrives n r t → Arrives (n + 1) e t
  | placed {n : Nat} {e r t : String} {info : EventInfo} : e ∈ eventIds → Message eventInfos e info →
      info.threadId = none → info.nextRelatedEventId "" = some r → Arrives maxThreadMembershipHops r t →
        Arrives (n + 1) e t

/-- An event to resolve that carries a thread relation, or from whose target a walk arrives. -/
def Belongs (e t : String) : Prop :=
  e ∈ eventIds ∧ ∃ info, eventInfos.value? e = some info ∧ (info.threadId = some t ∨
    (info.threadId = none ∧ ∃ r, info.nextRelatedEventId "" = some r ∧
      Arrives eventInfos eventIds maxThreadMembershipHops r t))

variable {eventInfos eventIds}

/-- Whatever stops a walk on its way, the chain of the event ends in the thread. -/
theorem Arrives.chain {n : Nat} {e t : String} (h : Arrives eventInfos eventIds n e t) :
    ∃ k x, Chain eventInfos k e x ∧ Ending eventInfos x t := by
  induction h with
  | ending h => exact ⟨0, _, Chain.refl _, h⟩
  | hop hhop _ ih =>
    rcases ih with ⟨k, x, hchain, hending⟩
    exact ⟨k + 1, x, Chain.hop hhop hchain, hending⟩
  | @placed n e r t info hmem hmessage hthread hnext _ ih =>
    rcases ih with ⟨k, x, hchain, hending⟩
    rcases @nextRelatedEventId_empty info e r hnext with rfl | hhop
    · exact ⟨k, x, hchain, hending⟩
    · exact ⟨k + 1, x, Chain.hop ⟨info, hmessage, hthread, hhop⟩ hchain, hending⟩

/-- An event of the conversation that belongs to a thread is on a chain that ends in it. -/
theorem Belongs.chain {e t : String} {info : EventInfo} (h : Belongs eventInfos eventIds e t)
    (hmessage : Message eventInfos e info) : ∃ k x, Chain eventInfos k e x ∧ Ending eventInfos x t := by
  rcases h with ⟨hmem, info', hinfo, hcase⟩
  obtain rfl := Option.mem_unique hmessage.1 hinfo
  rcases hcase with hnative | ⟨hthread, r, hnext, harrives⟩
  · exact ⟨0, e, Chain.refl e, info, hmessage, .inl hnative⟩
  · exact (Arrives.placed hmem hmessage hthread hnext harrives : Arrives eventInfos eventIds 1 e t).chain

/-- An event belongs to at most one thread. -/
theorem Belongs.unique {e t t' : String} (h : Belongs eventInfos eventIds e t)
    (h' : Belongs eventInfos eventIds e t') : t = t' := by
  rcases h with ⟨_, info, hinfo, hcase⟩
  rcases h' with ⟨_, info', hinfo', hcase'⟩
  obtain rfl := Option.mem_unique hinfo hinfo'
  rcases hcase with hnative | ⟨hthread, r, hnext, harrives⟩
  · rcases hcase' with hnative' | ⟨hthread', _⟩
    · exact Option.mem_unique hnative hnative'
    · rw [hnative] at hthread'
      cases hthread'
  · rcases hcase' with hnative' | ⟨_, r', hnext', harrives'⟩
    · rw [hthread] at hnative'
      cases hnative'
    · obtain rfl := Option.mem_unique hnext hnext'
      rcases harrives.chain with ⟨k, x, hchain, hending⟩
      rcases harrives'.chain with ⟨k', x', hchain', hending'⟩
      rcases hchain.unique hchain' (fun _ => hending.not_hop) (fun _ => hending'.not_hop) with ⟨_, rfl⟩
      exact hending.unique hending'

end

/-! ## One walk -/

section

variable {eventInfos : Mapping String EventInfo} {eventIds : List String} {resolved : Mapping String String}

/-- What was resolved so far is right. -/
def Sound (eventInfos : Mapping String EventInfo) (eventIds : List String) (resolved : Mapping String String) : Prop :=
  ∀ e t, resolved.value? e = some t → Belongs eventInfos eventIds e t

/-- An event the page does not hold, one of the conversation, or one of another family. -/
theorem event_cases (e : String) :
    eventInfos.value? e = none ∨ (∃ info, Message eventInfos e info) ∨ Barrier eventInfos e := by
  cases hinfo : eventInfos.value? e with
  | none => exact .inl rfl
  | some info =>
    right
    cases hsupports : eventTypeSupportsThreadRelations info.eventType with
    | true => exact .inl ⟨info, hinfo, hsupports⟩
    | false => exact .inr ⟨info, hinfo, hsupports⟩

theorem fetchEventInfo_message {e : String} {info : EventInfo} (h : Message eventInfos e info) :
    (mapBackedThreadMembershipAccess eventInfos resolved).fetchEventInfo e = .ok (some info) := by
  change conversationEventInfo _ e = _
  unfold conversationEventInfo
  simp [h.1, h.2, bind, Except.bind, pure, Except.pure]

theorem fetchEventInfo_missing {e : String} (h : eventInfos.value? e = none) :
    (mapBackedThreadMembershipAccess eventInfos resolved).fetchEventInfo e = .ok none := by
  change conversationEventInfo _ e = _
  unfold conversationEventInfo
  simp [h, bind, Except.bind, pure, Except.pure]

theorem fetchEventInfo_barrier {e : String} (h : Barrier eventInfos e) :
    (mapBackedThreadMembershipAccess eventInfos resolved).fetchEventInfo e =
      .error s!"Related event {e} cannot carry conversation thread membership" := by
  rcases h with ⟨info, hinfo, hsupports⟩
  change conversationEventInfo _ e = _
  unfold conversationEventInfo
  simp [hinfo, hsupports, bind, Except.bind, throw, throwThe, MonadExceptOf.throw]

theorem lookupThreadId_none {e : String} (h : resolved.value? e = none) :
    (mapBackedThreadMembershipAccess eventInfos resolved).lookupThreadId e = .ok none := by
  change conversationThreadId _ e = _
  unfold conversationThreadId
  simp [h, bind, Except.bind, pure, Except.pure]

/-- An indexed thread is believed where its event can be fetched. -/
theorem lookupThreadId_some {e t : String} (h : resolved.value? e = some t) :
    (mapBackedThreadMembershipAccess eventInfos resolved).lookupThreadId e =
      (match (mapBackedThreadMembershipAccess eventInfos resolved).fetchEventInfo e with
      | .error error => .error error
      | .ok none => .error s!"Indexed event {e} is unavailable for conversation thread validation"
      | .ok (some _) => .ok (some t)) := by
  change conversationThreadId _ e = (match conversationEventInfo _ e with
    | .error error => .error error
    | .ok none => .error s!"Indexed event {e} is unavailable for conversation thread validation"
    | .ok (some _) => .ok (some t))
  unfold conversationThreadId
  simp only [h, bind, Except.bind]
  cases conversationEventInfo _ e with
  | error error => rfl
  | ok info => cases info <;> rfl

theorem proveThreadRoot_eq (root : String) : resolutionFromRootProof root
      ((mapBackedThreadMembershipAccess eventInfos resolved).proveThreadRoot root) = .threaded root ↔
        ProvenRoot eventInfos root := by
  unfold ProvenRoot
  change resolutionFromRootProof root (if _ then _ else _) = _ ↔ _
  split
  · next h => simp [resolutionFromRootProof, h]
  · next h => simp [resolutionFromRootProof, h]

variable {visited : List String}

/-- The step of a walk at an event of the conversation that is not placed yet. -/
theorem resolveHops_message {n : Nat} {e : String} {info : EventInfo}
    (hvisited : e ∉ visited) (hresolved : resolved.value? e = none) (hmessage : Message eventInfos e info) :
    resolveHops (mapBackedThreadMembershipAccess eventInfos resolved) (n + 1) visited e =
      match info.threadId with
      | some threadId => .ok (.threaded threadId)
      | none =>
        match info.nextRelatedEventId e with
        | some nextTarget =>
          resolveHops (mapBackedThreadMembershipAccess eventInfos resolved) n (e :: visited) nextTarget
        | none =>
          if info.canBeThreadRoot then
            .ok (resolutionFromRootProof e
              ((mapBackedThreadMembershipAccess eventInfos resolved).proveThreadRoot e))
          else .ok .roomLevel := by
  rw [resolveHops, if_neg hvisited, lookupThreadId_none hresolved, fetchEventInfo_message hmessage]

/-- A walk that finds a thread arrives in it. -/
theorem arrives_of_threaded (hsound : Sound eventInfos eventIds resolved) {n : Nat}
    {e t : String} (h : resolveHops (mapBackedThreadMembershipAccess eventInfos resolved) n visited e =
      .ok (.threaded t)) : Arrives eventInfos eventIds n e t := by
  induction n generalizing visited e with
  | zero => cases h
  | succ n ih =>
    by_cases hvisited : e ∈ visited
    · rw [resolveHops, if_pos hvisited] at h
      cases h
    · cases hresolved : resolved.value? e with
      | some t' =>
        rw [resolveHops, if_neg hvisited, lookupThreadId_some hresolved] at h
        rcases @event_cases eventInfos e with hnone | ⟨info, hmessage⟩ | hbarrier
        · rw [fetchEventInfo_missing hnone] at h
          cases h
        · rw [fetchEventInfo_message hmessage] at h
          cases h
          rcases hsound e t hresolved with ⟨hmem, info', hinfo, hnative | ⟨hthread, r, hnext, harrives⟩⟩
          · obtain rfl := Option.mem_unique hmessage.1 hinfo
            exact Arrives.ending ⟨info, hmessage, .inl hnative⟩
          · obtain rfl := Option.mem_unique hmessage.1 hinfo
            exact Arrives.placed hmem hmessage hthread hnext harrives
        · rw [fetchEventInfo_barrier hbarrier] at h
          cases h
      | none =>
        rcases @event_cases eventInfos e with hnone | ⟨info, hmessage⟩ | hbarrier
        · rw [resolveHops, if_neg hvisited, lookupThreadId_none hresolved, fetchEventInfo_missing hnone] at h
          cases h
        · rw [resolveHops_message hvisited hresolved hmessage] at h
          cases hthread : info.threadId with
          | some t' =>
            rw [hthread] at h
            cases h
            exact Arrives.ending ⟨info, hmessage, .inl hthread⟩
          | none =>
            rw [hthread] at h
            cases hnext : info.nextRelatedEventId e with
            | some r =>
              rw [hnext] at h
              exact Arrives.hop ⟨info, hmessage, hthread, hnext⟩ (ih h)
            | none =>
              rw [hnext] at h
              dsimp only at h
              split at h
              · next hroot =>
                have hproof := Except.ok.inj h
                have hte : t = e := by
                  cases hp : (mapBackedThreadMembershipAccess eventInfos resolved).proveThreadRoot e with
                  | proven =>
                    rw [hp] at hproof
                    cases hproof
                    rfl
                  | notAThreadRoot =>
                    rw [hp] at hproof
                    cases hproof
                  | proofUnavailable error =>
                    rw [hp] at hproof
                    cases hproof
                subst hte
                exact Arrives.ending ⟨info, hmessage,
                  .inr ⟨hthread, hnext, hroot, (proveThreadRoot_eq t).mp hproof, rfl⟩⟩
              · cases h
        · rw [resolveHops, if_neg hvisited, lookupThreadId_none hresolved, fetchEventInfo_barrier hbarrier] at h
          cases h

/-- A walk that fails does so at an event of another family that was placed. -/
theorem barrier_of_error (hsound : Sound eventInfos eventIds resolved) {n : Nat}
    {e error : String} (h : resolveHops (mapBackedThreadMembershipAccess eventInfos resolved) n visited e =
      .error error) : ∃ k a t, k < n ∧ Chain eventInfos k e a ∧ Barrier eventInfos a ∧ resolved.value? a = some t := by
  induction n generalizing visited e with
  | zero => cases h
  | succ n ih =>
    by_cases hvisited : e ∈ visited
    · rw [resolveHops, if_pos hvisited] at h
      cases h
    · cases hresolved : resolved.value? e with
      | some t =>
        rw [resolveHops, if_neg hvisited, lookupThreadId_some hresolved] at h
        rcases @event_cases eventInfos e with hnone | ⟨info, hmessage⟩ | hbarrier
        · -- what was placed is on the page
          rcases hsound e t hresolved with ⟨_, info, hinfo, _⟩
          rw [hnone] at hinfo
          cases hinfo
        · rw [fetchEventInfo_message hmessage] at h
          cases h
        · exact ⟨0, e, t, Nat.succ_pos n, Chain.refl e, hbarrier, hresolved⟩
      | none =>
        rcases @event_cases eventInfos e with hnone | ⟨info, hmessage⟩ | hbarrier
        · rw [resolveHops, if_neg hvisited, lookupThreadId_none hresolved, fetchEventInfo_missing hnone] at h
          cases h
        · rw [resolveHops_message hvisited hresolved hmessage] at h
          cases hthread : info.threadId with
          | some t =>
            rw [hthread] at h
            cases h
          | none =>
            rw [hthread] at h
            cases hnext : info.nextRelatedEventId e with
            | some r =>
              rw [hnext] at h
              rcases ih h with ⟨k, a, t, hk, hchain, hbarrier, hplaced⟩
              exact ⟨k + 1, a, t, by omega, Chain.hop ⟨info, hmessage, hthread, hnext⟩ hchain, hbarrier, hplaced⟩
            | none =>
              rw [hnext] at h
              dsimp only at h
              split at h <;> cases h
        · rw [resolveHops, if_neg hvisited, lookupThreadId_none hresolved, fetchEventInfo_barrier hbarrier] at h
          cases h

/-- A round passes over the event: it is placed, missing, or the walk from it places it nowhere. -/
def Quiet (eventInfos : Mapping String EventInfo) (resolved : Mapping String String) (e : String) : Prop :=
  resolved.value? e = none → ∀ info, eventInfos.value? e = some info →
    ∃ resolution, resolveEventThreadMembership (mapBackedThreadMembershipAccess eventInfos resolved) info =
      .ok resolution ∧ ∀ t, resolution ≠ .threaded t

/-- Every visited event is further from where the chain of `e` ends than `e` is. -/
def Behind (eventInfos : Mapping String EventInfo) (visited : List String) (e : String) : Prop :=
  ∀ k x, Chain eventInfos k e x → (∀ r, ¬ Hop eventInfos x r) → ∀ v ∈ visited, ∃ k', k < k' ∧ Chain eventInfos k' v x

theorem Behind.not_mem {e x : String} {k : Nat} (h : Behind eventInfos visited e)
    (hchain : Chain eventInfos k e x) (hx : ∀ r, ¬ Hop eventInfos x r) : e ∉ visited := by
  intro hmem
  rcases h k x hchain hx e hmem with ⟨k', hlt, hchain'⟩
  rcases hchain.unique hchain' hx hx with ⟨rfl, _⟩
  omega

theorem Behind.hop {e r : String} (h : Behind eventInfos visited e)
    (hhop : Hop eventInfos e r) : Behind eventInfos (e :: visited) r := by
  intro k x hchain hx v hv
  rcases List.mem_cons.mp hv with rfl | hv
  · exact ⟨k + 1, by omega, Chain.hop hhop hchain⟩
  · rcases h (k + 1) x (Chain.hop hhop hchain) hx v hv with ⟨k', hlt, hchain'⟩
    exact ⟨k', by omega, hchain'⟩

theorem behind_nil (e : String) : Behind eventInfos [] e := by
  intro k x _ _ v hv
  cases hv

/-- A walk stops at an event of the conversation that is placed. -/
theorem resolveHops_placed {n : Nat} {e t : String} {info : EventInfo}
    (hvisited : e ∉ visited) (hresolved : resolved.value? e = some t) (hmessage : Message eventInfos e info) :
    resolveHops (mapBackedThreadMembershipAccess eventInfos resolved) (n + 1) visited e = .ok (.threaded t) := by
  rw [resolveHops, if_neg hvisited, lookupThreadId_some hresolved, fetchEventInfo_message hmessage]

/-- What is placed is placed in the thread that a walk arrives in. -/
theorem placed_unique (hsound : Sound eventInfos eventIds resolved) {n : Nat} {e t t' : String} {info : EventInfo}
    (hresolved : resolved.value? e = some t') (hmessage : Message eventInfos e info)
    (harrives : Arrives eventInfos eventIds n e t) : t' = t := by
  rcases (hsound e t' hresolved).chain hmessage with ⟨k, x, hchain, hending⟩
  rcases harrives.chain with ⟨k', x', hchain', hending'⟩
  rcases hchain.unique hchain' (fun _ => hending.not_hop) (fun _ => hending'.not_hop) with ⟨_, rfl⟩
  exact hending.unique hending'

/-- Where a round would pass over every event, a walk that arrives finds the thread. -/
theorem threaded_of_arrives (hsound : Sound eventInfos eventIds resolved)
    (hquiet : ∀ e ∈ eventIds, Quiet eventInfos resolved e) {n : Nat} {e t : String}
    (h : Arrives eventInfos eventIds n e t) (hbehind : Behind eventInfos visited e) :
    resolveHops (mapBackedThreadMembershipAccess eventInfos resolved) n visited e = .ok (.threaded t) := by
  have hvisited : e ∉ visited := by
    rcases h.chain with ⟨k, x, hchain, hending⟩
    exact hbehind.not_mem hchain fun _ => hending.not_hop
  induction h generalizing visited with
  | @ending n e t hending =>
    rcases hending with ⟨info, hmessage, hcase⟩
    cases hresolved : resolved.value? e with
    | some t' =>
      have ht : t' = t := placed_unique hsound hresolved hmessage
        (Arrives.ending ⟨info, hmessage, hcase⟩ : Arrives eventInfos eventIds 1 e t)
      rw [resolveHops_placed hvisited hresolved hmessage, ht]
    | none =>
      rw [resolveHops_message hvisited hresolved hmessage]
      rcases hcase with hnative | ⟨hthread, hnext, hroot, hproven, rfl⟩
      · rw [hnative]
      · rw [hthread, hnext]
        dsimp only
        rw [if_pos hroot, (proveThreadRoot_eq t).mpr hproven]
  | @hop n e r t hhop harrives ih =>
    rcases hhop with ⟨info, hmessage, hthread, hnext⟩
    have hhop : Hop eventInfos e r := ⟨info, hmessage, hthread, hnext⟩
    cases hresolved : resolved.value? e with
    | some t' =>
      have ht : t' = t := placed_unique hsound hresolved hmessage (Arrives.hop hhop harrives)
      rw [resolveHops_placed hvisited hresolved hmessage, ht]
    | none =>
      rw [resolveHops_message hvisited hresolved hmessage, hthread, hnext]
      dsimp only
      apply ih (hbehind.hop hhop)
      rcases harrives.chain with ⟨k, x, hchain, hending⟩
      exact (hbehind.hop hhop).not_mem hchain fun _ => hending.not_hop
  | @placed n e r t info hmem hmessage hthread hnext harrives ih =>
    cases hresolved : resolved.value? e with
    | some t' =>
      have ht : t' = t := placed_unique hsound hresolved hmessage
        (Arrives.placed hmem hmessage hthread hnext harrives : Arrives eventInfos eventIds 1 e t)
      rw [resolveHops_placed hvisited hresolved hmessage, ht]
    | none =>
      -- the round would have placed the event
      rcases hquiet e hmem hresolved info hmessage.1 with ⟨resolution, hresolution, hnot⟩
      unfold resolveEventThreadMembership resolveRelatedEventThreadMembership at hresolution
      rw [hthread, hnext] at hresolution
      dsimp only at hresolution
      rw [ih (behind_nil r) List.not_mem_nil] at hresolution
      cases hresolution
      exact absurd rfl (hnot t)

/-- Where a round would pass over every event, whoever belongs to a thread is placed. -/
theorem placed_of_belongs (hsound : Sound eventInfos eventIds resolved)
    (hquiet : ∀ e ∈ eventIds, Quiet eventInfos resolved e) {e t : String} (h : Belongs eventInfos eventIds e t) :
    resolved.value? e = some t := by
  cases hresolved : resolved.value? e with
  | some t' => rw [(hsound e t' hresolved).unique h]
  | none =>
    rcases h with ⟨hmem, info, hinfo, hcase⟩
    rcases hquiet e hmem hresolved info hinfo with ⟨resolution, hresolution, hnot⟩
    unfold resolveEventThreadMembership resolveRelatedEventThreadMembership at hresolution
    rcases hcase with hnative | ⟨hthread, r, hnext, harrives⟩
    · rw [hnative] at hresolution
      cases hresolution
      exact absurd rfl (hnot t)
    · rw [hthread, hnext] at hresolution
      dsimp only at hresolution
      rw [threaded_of_arrives hsound hquiet harrives (behind_nil r)] at hresolution
      cases hresolution
      exact absurd rfl (hnot t)

/-- A walk that gets to a placed event of another family fails. -/
theorem error_of_barrier (hsound : Sound eventInfos eventIds resolved) {k n : Nat} {e a t : String} (hk : k < n)
    (hchain : Chain eventInfos k e a) (hbarrier : Barrier eventInfos a) (hplaced : resolved.value? a = some t)
    (hbehind : Behind eventInfos visited e) :
    ∃ error, resolveHops (mapBackedThreadMembershipAccess eventInfos resolved) n visited e = .error error := by
  have hvisited : e ∉ visited := hbehind.not_mem hchain fun _ => hbarrier.not_hop
  induction hchain generalizing n visited with
  | refl a =>
    cases n with
    | zero => omega
    | succ n =>
      rw [resolveHops, if_neg hvisited, lookupThreadId_some hplaced, fetchEventInfo_barrier hbarrier]
      exact ⟨_, rfl⟩
  | @hop k e r a hhop hchain ih =>
    cases n with
    | zero => omega
    | succ n =>
      rcases hhop with ⟨info, hmessage, hthread, hnext⟩
      have hhop : Hop eventInfos e r := ⟨info, hmessage, hthread, hnext⟩
      have hresolved : resolved.value? e = none := by
        cases hresolved : resolved.value? e with
        | none => rfl
        | some t' =>
          -- its chain would end in a thread
          rcases (hsound e t' hresolved).chain hmessage with ⟨k', x, hchain', hending⟩
          rcases (Chain.hop hhop hchain).unique hchain' (fun _ => hbarrier.not_hop)
            (fun _ => hending.not_hop) with ⟨_, rfl⟩
          rcases hending with ⟨info', hmessage', _⟩
          exact absurd hmessage' hbarrier.not_message
      rw [resolveHops_message hvisited hresolved hmessage, hthread, hnext]
      exact ih (by omega) hbarrier hplaced (hbehind.hop hhop)
        ((hbehind.hop hhop).not_mem hchain fun _ => hbarrier.not_hop)

end

/-! ## Rounds -/

section

variable {eventInfos : Mapping String EventInfo} {eventIds : List String}

variable {resolved : Mapping String String}

/-- An event whose walk places it belongs to the thread. -/
theorem belongs_of_threaded (hsound : Sound eventInfos eventIds resolved)
    {e t : String} {info : EventInfo} (hmem : e ∈ eventIds) (hinfo : eventInfos.value? e = some info)
    (h : resolveEventThreadMembership (mapBackedThreadMembershipAccess eventInfos resolved) info =
      .ok (.threaded t)) : Belongs eventInfos eventIds e t := by
  refine ⟨hmem, info, hinfo, ?_⟩
  unfold resolveEventThreadMembership at h
  cases hthread : info.threadId with
  | some t' =>
    rw [hthread] at h
    cases h
    exact .inl rfl
  | none =>
    rw [hthread] at h
    cases hnext : info.nextRelatedEventId "" with
    | none =>
      rw [hnext] at h
      cases h
    | some r =>
      rw [hnext] at h
      exact .inr ⟨rfl, r, rfl, arrives_of_threaded hsound h⟩

/-- What one event of a round does: nothing, or it is placed. -/
theorem resolveOne_eq_ok {resolved resolved' : Mapping String String} {progress progress' : Bool} {e : String}
    (h : resolveOne eventInfos (resolved, progress) e = .ok (resolved', progress')) :
    (resolved' = resolved ∧ progress' = progress ∧ Quiet eventInfos resolved e) ∨
      (resolved.value? e = none ∧ progress' = true ∧ ∃ info t, eventInfos.value? e = some info ∧
        resolveEventThreadMembership (mapBackedThreadMembershipAccess eventInfos resolved) info = .ok (.threaded t) ∧
          resolved' = resolved.set e t) := by
  unfold resolveOne at h
  split at h
  · next hsome =>
    cases h
    refine .inl ⟨rfl, rfl, fun hnone => ?_⟩
    rw [hnone] at hsome
    cases hsome
  · next hsome =>
    have hnone : resolved.value? e = none := by simpa using hsome
    cases hinfo : eventInfos.value? e with
    | none =>
      rw [hinfo] at h
      cases h
      refine .inl ⟨rfl, rfl, fun _ info hinfo' => ?_⟩
      rw [hinfo] at hinfo'
      cases hinfo'
    | some info =>
      rw [hinfo] at h
      dsimp only at h
      cases hresolution : resolveEventThreadMembership
          (mapBackedThreadMembershipAccess eventInfos resolved) info with
      | error error =>
        rw [hresolution] at h
        cases h
      | ok resolution =>
        rw [hresolution] at h
        have hquiet (hnot : ∀ t, resolution ≠ .threaded t) : Quiet eventInfos resolved e := by
          intro _ info' hinfo'
          obtain rfl := Option.mem_unique hinfo hinfo'
          exact ⟨resolution, hresolution, hnot⟩
        cases resolution with
        | threaded t =>
          cases h
          exact .inr ⟨hnone, rfl, info, t, rfl, hresolution, rfl⟩
        | roomLevel =>
          cases h
          exact .inl ⟨rfl, rfl, hquiet fun t => by simp⟩
        | indeterminate error candidate =>
          cases h
          exact .inl ⟨rfl, rfl, hquiet fun t => by simp⟩

theorem resolveOne_eq_error {progress : Bool} {e error : String}
    (h : resolveOne eventInfos (resolved, progress) e = .error error) : ∃ info, eventInfos.value? e = some info ∧
      resolveEventThreadMembership (mapBackedThreadMembershipAccess eventInfos resolved) info = .error error := by
  unfold resolveOne at h
  split at h
  · cases h
  · cases hinfo : eventInfos.value? e with
    | none =>
      rw [hinfo] at h
      cases h
    | some info =>
      rw [hinfo] at h
      dsimp only at h
      cases hresolution : resolveEventThreadMembership
          (mapBackedThreadMembershipAccess eventInfos resolved) info with
      | error error' =>
        rw [hresolution] at h
        cases h
        exact ⟨info, rfl, hresolution⟩
      | ok resolution =>
        rw [hresolution] at h
        cases resolution <;> cases h

/-- Placing one event soundly. -/
theorem Sound.set (h : Sound eventInfos eventIds resolved) {e t : String}
    (hbelongs : Belongs eventInfos eventIds e t) : Sound eventInfos eventIds (resolved.set e t) := by
  intro e' t' hresolved
  rw [Mapping.value?_set] at hresolved
  split at hresolved
  · next heq =>
    cases hresolved
    rw [← heq]
    exact hbelongs
  · exact h e' t' hresolved

/-- What a round that returns did: it placed events soundly, took none back, and made progress
exactly where it placed one. -/
structure RoundFacts (eventInfos : Mapping String EventInfo) (eventIds l : List String)
    (before after : Mapping String String × Bool) : Prop where
  sound : Sound eventInfos eventIds after.1
  kept : ∀ e, before.1.value? e ≠ none → after.1.value? e ≠ none
  quiet : after.2 = false → before.2 = false ∧ after.1 = before.1 ∧ ∀ e ∈ l, Quiet eventInfos before.1 e
  progress : after.2 = true → before.2 = true ∨ ∃ e ∈ l, before.1.value? e = none ∧ after.1.value? e ≠ none

theorem resolveRound_facts {l : List String} (hl : l ⊆ eventIds) {before after : Mapping String String × Bool}
    (hsound : Sound eventInfos eventIds before.1) (h : resolveRound eventInfos l before = .ok after) :
    RoundFacts eventInfos eventIds l before after := by
  induction l generalizing before with
  | nil =>
    cases h
    exact ⟨hsound, fun _ => id, fun hfalse => ⟨hfalse, rfl, fun e he => by cases he⟩, fun htrue => .inl htrue⟩
  | cons e l ih =>
    rw [resolveRound] at h
    cases hone : resolveOne eventInfos before e with
    | error error =>
      rw [hone] at h
      cases h
    | ok middle =>
      rw [hone] at h
      have hmem : e ∈ eventIds := hl List.mem_cons_self
      have hrest : l ⊆ eventIds := fun e' he' => hl (List.mem_cons_of_mem _ he')
      rcases resolveOne_eq_ok hone with ⟨hsame, hprogress, hquiet⟩ | ⟨hnone, htrue, info, t, hinfo, hthreaded, hset⟩
      · have hmiddle : middle = before := Prod.ext hsame hprogress
        subst hmiddle
        rcases ih hrest hsound h with ⟨hsound', hkept, hquiet', hprogress'⟩
        refine ⟨hsound', hkept, fun hfalse => ?_, fun htrue => ?_⟩
        · rcases hquiet' hfalse with ⟨hb, heq, hall⟩
          refine ⟨hb, heq, fun e' he' => ?_⟩
          rcases List.mem_cons.mp he' with rfl | he'
          · exact hquiet
          · exact hall e' he'
        · rcases hprogress' htrue with hb | ⟨e', he', hplaced⟩
          · exact .inl hb
          · exact .inr ⟨e', List.mem_cons_of_mem _ he', hplaced⟩
      · have hmiddle : Sound eventInfos eventIds middle.1 := by
          rw [hset]
          exact hsound.set (belongs_of_threaded hsound hmem hinfo hthreaded)
        rcases ih hrest hmiddle h with ⟨hsound', hkept, hquiet', _⟩
        have hplaced : middle.1.value? e ≠ none := by
          rw [hset, Mapping.value?_set, if_pos rfl]
          simp
        refine ⟨hsound', fun e' he' => ?_, fun hfalse => ?_, fun _ => ?_⟩
        · apply hkept
          rw [hset, Mapping.value?_set]
          split
          · simp
          · exact he'
        · rcases hquiet' hfalse with ⟨hb, _⟩
          rw [htrue] at hb
          cases hb
        · exact .inr ⟨e, List.mem_cons_self, hnone, hkept e hplaced⟩

/-- An event from whose target a walk, before it runs out of hops, comes to an event of another
family that is to be resolved and belongs to a thread. -/
def Trapped (eventInfos : Mapping String EventInfo) (eventIds : List String) : Prop :=
  ∃ e ∈ eventIds, ∃ info r k a t, eventInfos.value? e = some info ∧ info.threadId = none ∧
    info.nextRelatedEventId "" = some r ∧ k < maxThreadMembershipHops ∧ Chain eventInfos k r a ∧
      Barrier eventInfos a ∧ Belongs eventInfos eventIds a t

/-- A round fails only at a trapped event. -/
theorem trapped_of_error {l : List String} (hl : l ⊆ eventIds) {before : Mapping String String × Bool}
    {error : String} (hsound : Sound eventInfos eventIds before.1) (h : resolveRound eventInfos l before = .error error) :
    Trapped eventInfos eventIds := by
  induction l generalizing before with
  | nil => cases h
  | cons e l ih =>
    have hmem : e ∈ eventIds := hl List.mem_cons_self
    rw [resolveRound] at h
    cases hone : resolveOne eventInfos before e with
    | error error' =>
      rcases resolveOne_eq_error hone with ⟨info, hinfo, herror⟩
      unfold resolveEventThreadMembership at herror
      cases hthread : info.threadId with
      | some t =>
        rw [hthread] at herror
        cases herror
      | none =>
        rw [hthread] at herror
        cases hnext : info.nextRelatedEventId "" with
        | none =>
          rw [hnext] at herror
          cases herror
        | some r =>
          rw [hnext] at herror
          rcases barrier_of_error hsound herror with ⟨k, a, t, hk, hchain, hbarrier, hplaced⟩
          exact ⟨e, hmem, info, r, k, a, t, hinfo, hthread, hnext, hk, hchain, hbarrier, hsound a t hplaced⟩
    | ok middle =>
      rw [hone] at h
      have hrest : l ⊆ eventIds := fun e' he' => hl (List.mem_cons_of_mem _ he')
      apply ih hrest _ h
      rcases resolveOne_eq_ok hone with ⟨hsame, _⟩ | ⟨_, _, info, t, hinfo, hthreaded, hset⟩
      · rw [hsame]
        exact hsound
      · rw [hset]
        exact hsound.set (belongs_of_threaded hsound hmem hinfo hthreaded)

/-! ## Runs -/

/-- The run returns this map, however many rounds it takes. -/
def Returns (eventInfos : Mapping String EventInfo) (order : List String) (resolved : Mapping String String) : Prop :=
  ∃ rounds, resolveThreadIdsForEventInfos eventInfos order rounds ∅ = some (.ok resolved)

/-- What a run that returns leaves: a sound map with which a round passes over every event. -/
theorem resolveThreadIds_settled {order : List String} (horder : ∀ e, e ∈ order ↔ e ∈ eventIds) {rounds : Nat}
    {resolved resolved' : Mapping String String} (hsound : Sound eventInfos eventIds resolved)
    (h : resolveThreadIdsForEventInfos eventInfos order rounds resolved = some (.ok resolved')) :
    Sound eventInfos eventIds resolved' ∧ ∀ e ∈ eventIds, Quiet eventInfos resolved' e := by
  have hsub : order ⊆ eventIds := fun e he => (horder e).mp he
  induction rounds generalizing resolved with
  | zero => cases h
  | succ rounds ih =>
    rw [resolveThreadIdsForEventInfos] at h
    cases hround : resolveRound eventInfos order (resolved, false) with
    | error error =>
      rw [hround] at h
      cases h
    | ok after =>
      have hfacts := resolveRound_facts hsub hsound hround
      rw [hround] at h
      rcases after with ⟨next, _ | _⟩
      · cases h
        rcases hfacts.quiet rfl with ⟨_, heq, hquiet⟩
        dsimp only at heq
        subst heq
        exact ⟨hfacts.sound, fun e he => hquiet e ((horder e).mpr he)⟩
      · exact ih hfacts.sound h

/-- Without a trapped event a run returns: every round but the last places an event. -/
theorem resolveThreadIds_returns {order : List String} (horder : ∀ e, e ∈ order ↔ e ∈ eventIds)
    (htrapped : ¬ Trapped eventInfos eventIds) {rounds : Nat} (hsound : Sound eventInfos eventIds resolved)
    (hrounds : (order.filter fun e => decide (resolved.value? e = none)).length < rounds) :
    ∃ resolved', resolveThreadIdsForEventInfos eventInfos order rounds resolved = some (.ok resolved') := by
  have hsub : order ⊆ eventIds := fun e he => (horder e).mp he
  induction rounds generalizing resolved with
  | zero => omega
  | succ rounds ih =>
    rw [resolveThreadIdsForEventInfos]
    cases hround : resolveRound eventInfos order (resolved, false) with
    | error error => exact absurd (trapped_of_error hsub hsound hround) htrapped
    | ok after =>
      have hfacts := resolveRound_facts hsub hsound hround
      rcases after with ⟨next, _ | _⟩
      · exact ⟨next, rfl⟩
      · apply ih hfacts.sound
        rcases hfacts.progress rfl with hfalse | ⟨e, he, hnone, hplaced⟩
        · cases hfalse
        · -- the events that are still open are fewer
          have hopen : (order.filter fun e => decide (next.value? e = none)) =
              (order.filter fun e => decide (resolved.value? e = none)).filter
                fun e => decide (next.value? e = none) := by
            rw [List.filter_filter]
            apply List.filter_congr
            intro e' _
            by_cases hnext : next.value? e' = none
            · have hbefore : resolved.value? e' = none := by
                by_contra hne
                exact hfacts.kept e' hne hnext
              simp [hnext, hbefore]
            · simp [hnext]
          have hlt : (order.filter fun e => decide (next.value? e = none)).length <
              (order.filter fun e => decide (resolved.value? e = none)).length := by
            rw [hopen]
            apply List.length_filter_lt_length_iff_exists.mpr
            refine ⟨e, List.mem_filter.mpr ⟨he, decide_eq_true hnone⟩, ?_⟩
            simpa using hplaced
          exact lt_of_lt_of_le hlt (by omega)

/-- Batch resolution is total and order independent. -/
structure Resolves (eventInfos : Mapping String EventInfo) (eventIds : List String) : Prop where
  total : ∀ order : List String, order.Perm eventIds → ∃ resolved, Returns eventInfos order resolved
  orderFree : ∀ order order' resolved resolved', order.Perm eventIds → order'.Perm eventIds →
    Returns eventInfos order resolved → Returns eventInfos order' resolved' →
      ∀ e, resolved.value? e = resolved'.value? e

theorem sound_empty : Sound eventInfos eventIds ∅ := by
  intro e t h
  cases h

/-- A run that returns placed exactly the events that belong to a thread. -/
theorem Returns.value? {order : List String} (horder : ∀ e, e ∈ order ↔ e ∈ eventIds)
    (h : Returns eventInfos order resolved) {e t : String} :
    resolved.value? e = some t ↔ Belongs eventInfos eventIds e t := by
  rcases h with ⟨rounds, hrounds⟩
  rcases resolveThreadIds_settled horder sound_empty hrounds with ⟨hsound, hquiet⟩
  constructor
  · exact hsound e t
  · exact placed_of_belongs hsound hquiet

/-- A run over a trapped event does not return. -/
theorem Trapped.not_returns (h : Trapped eventInfos eventIds) {order : List String}
    (horder : ∀ e, e ∈ order ↔ e ∈ eventIds) : ¬ Returns eventInfos order resolved := by
  rintro ⟨rounds, hrounds⟩
  rcases resolveThreadIds_settled horder sound_empty hrounds with ⟨hsound, hquiet⟩
  rcases h with ⟨e, hmem, info, r, k, a, t, hinfo, hthread, hnext, hk, hchain, hbarrier, hbelongs⟩
  have hplaced := placed_of_belongs hsound hquiet hbelongs
  have hnone : resolved.value? e = none := by
    cases hresolved : resolved.value? e with
    | none => rfl
    | some t' =>
      -- the walk from its target would end in a thread and not at the other family
      rcases hsound e t' hresolved with ⟨_, info', hinfo', hcase⟩
      obtain rfl := Option.mem_unique hinfo hinfo'
      rcases hcase with hnative | ⟨_, r', hnext', harrives⟩
      · rw [hthread] at hnative
        cases hnative
      · obtain rfl := Option.mem_unique hnext hnext'
        rcases harrives.chain with ⟨k', x, hchain', hending⟩
        rcases hchain.unique hchain' (fun _ => hbarrier.not_hop) (fun _ => hending.not_hop) with ⟨_, rfl⟩
        rcases hending with ⟨info', hmessage, _⟩
        exact absurd hmessage hbarrier.not_message
  rcases hquiet e hmem hnone info hinfo with ⟨resolution, hresolution, _⟩
  unfold resolveEventThreadMembership resolveRelatedEventThreadMembership at hresolution
  rw [hthread, hnext] at hresolution
  dsimp only at hresolution
  rcases error_of_barrier hsound hk hchain hbarrier hplaced (behind_nil r) with ⟨error, herror⟩
  rw [herror] at hresolution
  cases hresolution

/-- Batch resolution is total and order independent exactly where no event is trapped. -/
theorem resolves_iff_not_trapped (eventInfos : Mapping String EventInfo) (eventIds : List String) :
    Resolves eventInfos eventIds ↔ ¬ Trapped eventInfos eventIds := by
  constructor
  · intro h htrapped
    rcases h.total eventIds (List.Perm.refl _) with ⟨resolved, hreturns⟩
    exact htrapped.not_returns (fun _ => Iff.rfl) hreturns
  · intro htrapped
    constructor
    · intro order hperm
      rcases resolveThreadIds_returns (fun e => hperm.mem_iff) htrapped sound_empty (Nat.lt_succ_self _)
        with ⟨resolved, hresolved⟩
      exact ⟨resolved, _, hresolved⟩
    · intro order order' resolved resolved' hperm hperm' h h' e
      apply Option.ext
      intro t
      rw [h.value? fun e => hperm.mem_iff, h'.value? fun e => hperm'.mem_iff]

end

/-! ### A reply to a reaction -/

/-- A threaded message, a reaction to it, and a reply to the reaction. -/
def reactionPage : Mapping String EventInfo :=
  ((Mapping.set ∅ "$m" { threadId := some "$root", eventType := some "m.room.message" }).set
    "$r" { isReaction := true, reactionTargetEventId := some "$m", relationType := some "m.annotation",
           relatesToEventId := some "$m", eventType := some "m.reaction" }).set
    "$c" { replyToEventId := some "$r", eventType := some "m.room.message" }

/-- The reaction is placed in the thread, and then the reply to it cannot be resolved. -/
theorem not_resolves_reaction : ¬ Resolves reactionPage ["$m", "$r", "$c"] := by
  intro h
  rcases h.total ["$m", "$r", "$c"] (List.Perm.refl _) with ⟨resolved, rounds, hrounds⟩
  cases rounds with
  | zero => cases hrounds
  | succ rounds =>
    have hround : resolveRound reactionPage ["$m", "$r", "$c"] (∅, false) =
        .error "Related event $r cannot carry conversation thread membership" := by
      rfl
    rw [resolveThreadIdsForEventInfos, hround] at hrounds
    cases hrounds

end MindRoom.ThreadMembership
