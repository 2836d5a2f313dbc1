import MindRoom.HistoryWalks

/-! # Bounded, honest walks

A walk goes through pages that follow each other by their tokens, and reads and projects what it goes
through. So a walk that reports completeness has read the whole history, and its ceilings bound it whatever
the server answers.
-/

namespace MindRoom.HistoryWalks

open WhileLoop

/-! ## What the server has given -/

/-- The pages so far, each asked for under the token of the one before. -/
inductive Followed (server : Nat → MessagesResponse) :
    List (Option String) → List (List FetchedEvent) → Option String → Prop
  | start : Followed server [] [] none
  | next {starts : List (Option String)} {pages : List (List FetchedEvent)} {start : Option String}
      {chunk : List FetchedEvent} {next : Option String} {token : String} (before : Followed server starts pages start)
      (answered : server starts.length = .messages chunk next) (goesOn : nextToken next = some token) :
      Followed server (starts ++ [start]) (pages ++ [chunk]) (some token)

/-- All pages, from the start of the walk to a page without a next token. -/
def PagesToEnd (server : Nat → MessagesResponse) (starts : List (Option String))
    (pages : List (List FetchedEvent)) : Prop :=
  ∃ before start chunk next chunks, Followed server before chunks start ∧
    server before.length = .messages chunk next ∧ nextToken next = none ∧
    starts = before ++ [start] ∧ pages = chunks ++ [chunk]

/-- What nio promises of its generator: event after event of pages it asks for one after another, and no end
before a page without a next token. -/
structure RelationStream.Paginates (stream : RelationStream) (server : Nat → MessagesResponse) : Prop where
  ended : ∀ taken : List FetchedEvent, (∀ i event, taken[i]? = some event → stream.pull i = some (.event event)) →
    stream.pull taken.length = some .ended →
    ∃ pages, PagesToEnd server ((stream.requests taken.length).map PageRequest.start) pages ∧ taken = pages.flatten

section

variable (client : Client) (hydrator : ConversationHydrator) (roomId : String)

/-- What one event that is read projects to. -/
def projection (event : FetchedEvent) : Option ProjectedEvent :=
  match readableEvent client event with
  | none => none
  | some readable => ((projectedFromEvent roomId hydrator.selfSender readable).toOption).join

/-- The event was read and projected, if only to nothing. -/
def IsProjected (event : FetchedEvent) : Prop :=
  ∃ readable result, readableEvent client event = some readable ∧
    projectedFromEvent roomId hydrator.selfSender readable = .ok result

def WholeHistory (server : Nat → MessagesResponse) (requests : List PageRequest) (taken : List FetchedEvent)
    (projected : List ProjectedEvent) : Prop :=
  ∃ pages, PagesToEnd server (requests.map PageRequest.start) pages ∧ taken = pages.flatten ∧
    (∀ event ∈ pages.flatten, IsProjected client hydrator roomId event) ∧
    projected = pages.flatten.filterMap (projection client hydrator roomId)

/-! ## Reading -/

/-- What a walk has seen is what it went through. -/
structure Reads (taken : List FetchedEvent) (seen : RoomPage) : Prop where
  events : seen.events = taken.filterMap (projection client hydrator roomId)
  readable : seen.unreadable = false → ∀ event ∈ taken, IsProjected client hydrator roomId event

variable {client hydrator roomId} {taken page : List FetchedEvent} {seen seen' : RoomPage}

theorem reads_nil : Reads client hydrator roomId [] {} := ⟨rfl, by simp⟩

/-- Reading an event keeps what was seen the reading of what was taken. -/
theorem reads_add {event : FetchedEvent} (h : Reads client hydrator roomId taken seen)
    (hadd : RoomPage.add client hydrator roomId seen event = .ok seen') :
    Reads client hydrator roomId (taken ++ [event]) seen' ∧
      seen'.unreadable = (seen.unreadable || (readableEvent client event).isNone) := by
  cases hreadable : readableEvent client event with
  | none =>
    simp only [RoomPage.add, hreadable, Except.ok.injEq] at hadd
    subst hadd
    refine ⟨⟨?_, ?_⟩, ?_⟩
    · simp [h.events, projection, hreadable]
    · intro hunreadable
      cases hunreadable
    · simp
  | some readable =>
    cases hprojected : projectedFromEvent roomId hydrator.selfSender readable with
    | error error => simp [RoomPage.add, hreadable, hprojected, bind, Except.bind] at hadd
    | ok result =>
      have hevent : IsProjected client hydrator roomId event := ⟨readable, result, hreadable, hprojected⟩
      have hprojection : projection client hydrator roomId event = result := by
        simp [projection, hreadable, hprojected, Except.toOption]
      have hseen' : seen'.unreadable = seen.unreadable ∧ seen'.events = seen.events ++ result.toList := by
        cases result with
        | none =>
          simp only [RoomPage.add, hreadable, hprojected, bind, Except.bind, pure, Except.pure, Except.ok.injEq] at hadd
          subst hadd
          simp
        | some projected =>
          simp only [RoomPage.add, hreadable, hprojected, bind, Except.bind, pure, Except.pure, Except.ok.injEq] at hadd
          subst hadd
          simp
      refine ⟨⟨?_, ?_⟩, ?_⟩
      · rw [hseen'.2, h.events, List.filterMap_append]
        cases result <;> simp [hprojection]
      · intro hunreadable other hother
        rw [hseen'.1] at hunreadable
        rcases List.mem_append.1 hother with hother | hother
        · exact h.readable hunreadable other hother
        · rw [List.mem_singleton.1 hother]
          exact hevent
      · simp [hseen'.1]

/-- Reading a page, event by event. -/
theorem reads_foldlM (h : Reads client hydrator roomId taken seen)
    (hpage : page.foldlM (RoomPage.add client hydrator roomId) seen = .ok seen') :
    Reads client hydrator roomId (taken ++ page) seen' := by
  induction page generalizing taken seen with
  | nil =>
    cases hpage
    simpa using h
  | cons event page ih =>
    rw [List.foldlM_cons] at hpage
    cases hadd : RoomPage.add client hydrator roomId seen event with
    | error error => simp [hadd, bind, Except.bind] at hpage
    | ok read =>
      rw [hadd] at hpage
      have hrest := ih (reads_add h hadd).1 hpage
      rwa [List.append_assoc] at hrest

theorem reads_append {next : RoomPage} (h : Reads client hydrator roomId taken seen)
    (hnext : Reads client hydrator roomId page next) :
    Reads client hydrator roomId (taken ++ page) (seen.append next) := by
  refine ⟨?_, ?_⟩
  · simp [RoomPage.append, h.events, hnext.events]
  · intro hunreadable event hevent
    simp only [RoomPage.append, Bool.or_eq_false_iff] at hunreadable
    rcases List.mem_append.1 hevent with hevent | hevent
    · exact h.readable hunreadable.1 event hevent
    · exact hnext.readable hunreadable.2 event hevent

/-! ## Room walks -/

variable {server : Nat → MessagesResponse} {s : WalkState} {cut : Bool} {next : Option String}

variable (client hydrator roomId server) in
/-- Between two requests of a room walk. -/
structure WalkInv (s : WalkState) : Prop where
  followed : ∃ pages, Followed server (s.requests.map PageRequest.start) pages s.start ∧ s.taken = pages.flatten
  reads : Reads client hydrator roomId s.taken s.seen
  fetched : s.fetched = s.taken.length
  within : s.taken.length ≤ hydrator.maxFetchedEvents
  pages : s.pages = s.requests.length
  spends : s.pages = 0 ∨ s.pages < hydrator.maxRequests

variable (client hydrator roomId server) in
/-- After a page was read, with the page before it followed by this one unless it was cut. -/
structure PageRead (s : WalkState) (cut : Bool) (next : Option String) : Prop where
  answered : cut = false → ∃ before pages chunk, Followed server before pages s.start ∧
    server before.length = .messages chunk next ∧ s.requests.map PageRequest.start = before ++ [s.start] ∧
    s.taken = pages.flatten ++ chunk
  reads : Reads client hydrator roomId s.taken s.seen
  fetched : s.fetched = s.taken.length
  within : s.taken.length ≤ hydrator.maxFetchedEvents
  pages : s.pages = s.requests.length
  spends : s.requests.length ≤ max hydrator.maxRequests 1

variable (hydrator) in
/-- The requests and the events of a room walk stay under the ceilings. -/
def WithinCeilings {α : Type} (out : Outcome α) : Prop :=
  out.requests.length ≤ max hydrator.maxRequests 1 ∧ out.taken.length ≤ hydrator.maxFetchedEvents

theorem walkInv_start : WalkInv client hydrator roomId server {} where
  followed := ⟨[], .start, rfl⟩
  reads := reads_nil
  fetched := rfl
  within := Nat.zero_le _
  pages := rfl
  spends := .inl rfl

/-- One more request stays under the ceiling. -/
theorem WalkInv.spends_request (h : WalkInv client hydrator roomId server s) :
    s.requests.length + 1 ≤ max hydrator.maxRequests 1 := by
  have hpages := h.pages
  rcases h.spends with hnone | hsome
  · omega
  · omega

/-- A page that is taken from the answer is read. -/
theorem WalkInv.advance {chunk : List FetchedEvent} {kept : Nat}
    (h : WalkInv client hydrator roomId server s) (limit : Nat) (hanswer : server s.requests.length = .messages chunk next)
    (hkept : kept ≤ hydrator.maxFetchedEvents - s.fetched)
    (hseen : Reads client hydrator roomId (s.taken ++ chunk.take kept) seen) :
    PageRead client hydrator roomId server (s.advance limit (chunk.take kept) seen)
      ((chunk.take kept).length < chunk.length) next where
  answered := by
    intro hcut
    obtain ⟨pages, hfollowed, htaken⟩ := h.followed
    have hwhole : chunk.take kept = chunk := by
      have hlength : ¬ (chunk.take kept).length < chunk.length := of_decide_eq_false hcut
      rw [List.length_take] at hlength
      exact List.take_of_length_le (by omega)
    refine ⟨s.requests.map PageRequest.start, pages, chunk, hfollowed, ?_, ?_, ?_⟩
    · rwa [List.length_map]
    · simp [WalkState.advance]
    · simp only [WalkState.advance, hwhole, htaken]
  reads := hseen
  fetched := by simp [WalkState.advance, h.fetched]
  within := by
    have hwithin := h.within
    have hfetched := h.fetched
    simp only [WalkState.advance, List.length_append, List.length_take]
    omega
  pages := by simp [WalkState.advance, h.pages]
  spends := by simpa [WalkState.advance] using h.spends_request

theorem PageRead.withinCeilings {α : Type} (h : PageRead client hydrator roomId server s cut next)
    (walk : Except WalkError α) (projected : List ProjectedEvent) :
    WithinCeilings hydrator ⟨walk, s.requests, s.taken, projected⟩ := ⟨h.spends, h.within⟩

/-- After a page with a next token the walk may go on. -/
theorem PageRead.goesOn {token : String} (h : PageRead client hydrator roomId server s false next)
    (hnext : nextToken next = some token)
    (hleft : ¬ (hydrator.maxFetchedEvents ≤ s.fetched ∨ hydrator.maxRequests ≤ s.pages)) :
    WalkInv client hydrator roomId server { s with start := some token } where
  followed := by
    obtain ⟨before, pages, chunk, hfollowed, hanswer, hrequests, htaken⟩ := h.answered rfl
    refine ⟨pages ++ [chunk], ?_, ?_⟩
    · rw [hrequests]
      exact hfollowed.next hanswer hnext
    · simp [htaken]
  reads := h.reads
  fetched := h.fetched
  within := h.within
  pages := h.pages
  spends := .inr (by dsimp only; omega)

/-- After a page without a next token, every page was read. -/
theorem PageRead.whole (h : PageRead client hydrator roomId server s false next) (hnext : nextToken next = none)
    (hreadable : s.seen.unreadable = false) :
    WholeHistory client hydrator roomId server s.requests s.taken s.seen.events := by
  obtain ⟨before, pages, chunk, hfollowed, hanswer, hrequests, htaken⟩ := h.answered rfl
  have hflatten : s.taken = (pages ++ [chunk]).flatten := by simp [htaken]
  refine ⟨pages ++ [chunk], ⟨before, s.start, chunk, next, pages, hfollowed, hanswer, hnext, hrequests, rfl⟩,
    hflatten, ?_, ?_⟩
  · rw [← hflatten]
    exact h.reads.readable hreadable
  · rw [← hflatten]
    exact h.reads.events

theorem advancedRoomCursor_ok {start : Option String} {token nextStart : String}
    (h : advancedRoomCursor roomId start token = .ok nextStart) : nextStart = token := by
  unfold advancedRoomCursor at h
  split at h
  · cases h
  · cases h
    rfl

theorem messagesOf_ok {response : MessagesResponse} {chunk : List FetchedEvent}
    (h : messagesOf roomId response = .ok (chunk, next)) : response = .messages chunk next := by
  cases response with
  | messages chunk' next' =>
    cases h
    rfl
  | error => cases h
  | raised => cases h

/-- A failing request leaves the walk under its ceilings. -/
theorem WalkInv.withinCeilings_fail {α : Type} (h : WalkInv client hydrator roomId server s) (limit : Nat)
    (error : WalkError) :
    WithinCeilings (α := α) hydrator ⟨.error error, s.requests ++ [⟨s.start, some limit⟩], s.taken, s.seen.events⟩ := by
  refine ⟨?_, h.within⟩
  simpa using h.spends_request

/-- A token that advances lets the walk go on unless an allowance is spent. -/
theorem cursor_exits {α : Type} {token : String} {spent : Prop} [Decidable spent]
    {incomplete round : Round WalkState (Outcome α)} (h : (do
      let nextStart ← advancedRoomCursor roomId s.start token
      if spent then return incomplete else return .again { s with start := some nextStart } :
        Except WalkError (Round WalkState (Outcome α))) = .ok round) :
    round = incomplete ∨ (round = .again { s with start := some token } ∧ ¬ spent) := by
  cases hcursor : advancedRoomCursor roomId s.start token with
  | error error =>
    rw [hcursor] at h
    cases h
  | ok nextStart =>
    rw [hcursor, advancedRoomCursor_ok hcursor] at h
    by_cases hspent : spent
    · simp only [hspent, if_true, bind, Except.bind, pure, Except.pure, Except.ok.injEq] at h
      exact .inl h.symm
    · simp only [hspent, if_false, bind, Except.bind, pure, Except.pure, Except.ok.injEq] at h
      exact .inr ⟨h.symm, hspent⟩

/-! ### The walk that fills a prompt -/

variable (client hydrator roomId server) in
/-- A room walk stays under its ceilings, and what it reports complete is the whole history. -/
def RoomOutcome (out : Outcome Walk) : Prop :=
  WithinCeilings hydrator out ∧ ∀ walk, out.result = .ok walk → walk.complete = true →
    WholeHistory client hydrator roomId server out.requests out.taken walk.events

/-- A walk that does not report completeness has only its ceilings to keep. -/
theorem PageRead.roomOutcome_incomplete (h : PageRead client hydrator roomId server s cut next) :
    ∃ out, s.walk false = .leave out ∧ RoomOutcome client hydrator roomId server out := by
  refine ⟨_, rfl, h.withinCeilings _ _, ?_⟩
  intro walk hwalk hcomplete
  cases hwalk
  cases hcomplete

theorem fetchRoomExits_spec {round : Round WalkState (Outcome Walk)}
    (h : PageRead client hydrator roomId server s cut next)
    (hexits : fetchRoomExits hydrator roomId s cut next = .ok round) :
    (∃ out, round = .leave out ∧ RoomOutcome client hydrator roomId server out) ∨
      ∃ s', round = .again s' ∧ WalkInv client hydrator roomId server s' ∧
        s'.pages = s.pages ∧ s.pages < hydrator.maxRequests := by
  unfold fetchRoomExits at hexits
  by_cases hcut : cut = true
  · rw [if_pos hcut] at hexits
    cases hexits
    exact .inl h.roomOutcome_incomplete
  rw [if_neg hcut] at hexits
  rw [Bool.not_eq_true] at hcut
  subst hcut
  by_cases hwindow : hydrator.promptWindowMessages ≤ s.seen.logicalMessages
  · rw [if_pos hwindow] at hexits
    cases hexits
    exact .inl h.roomOutcome_incomplete
  rw [if_neg hwindow] at hexits
  cases hnext : nextToken next with
  | none =>
    rw [hnext] at hexits
    cases hexits
    refine .inl ⟨_, rfl, h.withinCeilings _ _, ?_⟩
    intro walk hwalk hcomplete
    cases hwalk
    exact h.whole hnext (by simpa using hcomplete)
  | some token =>
    rw [hnext] at hexits
    rcases cursor_exits hexits with rfl | ⟨rfl, hleft⟩
    · exact .inl h.roomOutcome_incomplete
    · exact .inr ⟨_, rfl, h.goesOn hnext hleft, rfl, by omega⟩

/-- One request of the room walk. -/
theorem fetchRoomRound_spec (h : WalkInv client hydrator roomId server s) :
    (∃ out, fetchRoomRound client hydrator roomId server s = some (.leave out) ∧
        RoomOutcome client hydrator roomId server out) ∨
      ∃ s', fetchRoomRound client hydrator roomId server s = some (.again s') ∧
        WalkInv client hydrator roomId server s' ∧
        hydrator.maxRequests - s'.pages < hydrator.maxRequests - s.pages := by
  unfold fetchRoomRound
  cases hstep : fetchRoomStep client hydrator roomId server s with
  | error error =>
    refine .inl ⟨_, rfl, h.withinCeilings_fail _ _, ?_⟩
    intro walk hwalk
    cases hwalk
  | ok round =>
    unfold fetchRoomStep at hstep
    cases hanswer : messagesOf roomId (server s.requests.length) with
    | error error => simp [hanswer, bind, Except.bind] at hstep
    | ok answer =>
      obtain ⟨chunk, next⟩ := answer
      simp only [hanswer, bind, Except.bind] at hstep
      cases hseen : (chunk.take (hydrator.maxFetchedEvents - s.fetched)).foldlM
          (RoomPage.add client hydrator roomId) s.seen with
      | error error => simp [hseen] at hstep
      | ok seen =>
        simp only [hseen] at hstep
        have hread := h.advance messagesPageLimit (messagesOf_ok hanswer) le_rfl
          (reads_foldlM h.reads hseen)
        rcases fetchRoomExits_spec hread hstep with ⟨out, rfl, hout⟩ | ⟨s', rfl, hs', hpages, hspends⟩
        · exact .inl ⟨out, rfl, hout⟩
        · refine .inr ⟨s', rfl, hs', ?_⟩
          simp only [WalkState.advance] at hpages hspends
          omega

variable (client hydrator roomId server) in
theorem fetchRoom_outcome {fuel : Nat} (hfuel : hydrator.maxRequests < fuel) :
    ∃ out, fetchRoom client hydrator roomId server fuel = some out ∧
      RoomOutcome client hydrator roomId server out :=
  WhileLoop.run_total (WalkInv client hydrator roomId server) _ (fun s => hydrator.maxRequests - s.pages)
    (fun _ hs => fetchRoomRound_spec hs) walkInv_start (by dsimp only; omega)

/-! ### The walk that repairs a gap -/

variable (client hydrator roomId server) in
/-- A recovery walk stays under its ceilings, and with the server exhausted and nothing unreadable it has
installed the whole history. -/
def RecoveryOutcome (out : Outcome RecoveryWalk) : Prop :=
  WithinCeilings hydrator out ∧ ∀ walk, out.result = .ok walk → walk.exhaustedServer = true →
    walk.unreadable = false →
    WholeHistory client hydrator roomId server out.requests out.taken out.projected

theorem PageRead.recoveryOutcome_incomplete (h : PageRead client hydrator roomId server s cut next) :
    ∃ out, s.recoveryWalk false = .leave out ∧ RecoveryOutcome client hydrator roomId server out := by
  refine ⟨_, rfl, h.withinCeilings _ _, ?_⟩
  intro walk hwalk hexhausted
  cases hwalk
  cases hexhausted

theorem recoveryExits_spec {round : Round WalkState (Outcome RecoveryWalk)}
    (h : PageRead client hydrator roomId server s cut next)
    (hexits : recoveryExits hydrator roomId s cut next = .ok round) :
    (∃ out, round = .leave out ∧ RecoveryOutcome client hydrator roomId server out) ∨
      ∃ s', round = .again s' ∧ WalkInv client hydrator roomId server s' ∧
        s'.pages = s.pages ∧ s.pages < hydrator.maxRequests := by
  unfold recoveryExits at hexits
  by_cases hcut : cut = true
  · rw [if_pos hcut] at hexits
    cases hexits
    exact .inl h.recoveryOutcome_incomplete
  rw [if_neg hcut] at hexits
  rw [Bool.not_eq_true] at hcut
  subst hcut
  cases hnext : nextToken next with
  | none =>
    rw [hnext] at hexits
    cases hexits
    refine .inl ⟨_, rfl, h.withinCeilings _ _, ?_⟩
    intro walk hwalk _ hreadable
    cases hwalk
    exact h.whole hnext hreadable
  | some token =>
    rw [hnext] at hexits
    rcases cursor_exits hexits with rfl | ⟨rfl, hleft⟩
    · exact .inl h.recoveryOutcome_incomplete
    · exact .inr ⟨_, rfl, h.goesOn hnext hleft, rfl, by omega⟩

/-- One request of the recovery walk, if its allowance of events is not spent before. -/
theorem recoveryRound_spec {store : Nat → ChunkInstall} (h : WalkInv client hydrator roomId server s) :
    (∃ out, recoveryRound client hydrator roomId server store s = some (.leave out) ∧
        RecoveryOutcome client hydrator roomId server out) ∨
      ∃ s', recoveryRound client hydrator roomId server store s = some (.again s') ∧
        WalkInv client hydrator roomId server s' ∧
        hydrator.maxRequests - s'.pages < hydrator.maxRequests - s.pages := by
  unfold recoveryRound
  by_cases hlimit : requestLimit hydrator s = 0
  · rw [if_pos hlimit]
    refine .inl ⟨_, rfl, ⟨?_, h.within⟩, ?_⟩
    · have hspends := h.spends_request
      dsimp only
      omega
    · intro walk hwalk hexhausted
      cases hwalk
      cases hexhausted
  rw [if_neg hlimit]
  cases hstep : recoveryStep client hydrator roomId server store s with
  | error error =>
    refine .inl ⟨_, rfl, h.withinCeilings_fail _ _, ?_⟩
    intro walk hwalk
    cases hwalk
  | ok round =>
    unfold recoveryStep at hstep
    cases hanswer : messagesOf roomId (server s.requests.length) with
    | error error => simp [hanswer, bind, Except.bind] at hstep
    | ok answer =>
      obtain ⟨chunk, next⟩ := answer
      simp only [hanswer, bind, Except.bind] at hstep
      cases hpage : projectRoomPage client hydrator roomId (chunk.take (requestLimit hydrator s)) with
      | error error => simp [hpage] at hstep
      | ok page =>
        simp only [hpage] at hstep
        have hkept : requestLimit hydrator s ≤ hydrator.maxFetchedEvents - s.fetched := min_le_right _ _
        have hread := h.advance (requestLimit hydrator s) (messagesOf_ok hanswer) hkept
          (reads_append h.reads (reads_foldlM reads_nil hpage))
        cases hstore : store s.pages with
        | raised =>
          rw [hstore] at hstep
          cases hstep
        | refused =>
          rw [hstore] at hstep
          cases hstep
          refine .inl ⟨_, rfl, ⟨hread.spends, hread.within⟩, ?_⟩
          intro walk hwalk hexhausted
          cases hwalk
          cases hexhausted
        | installed =>
          rw [hstore] at hstep
          rcases recoveryExits_spec hread hstep with ⟨out, rfl, hout⟩ | ⟨s', rfl, hs', hpages, hspends⟩
          · exact .inl ⟨out, rfl, hout⟩
          · refine .inr ⟨s', rfl, hs', ?_⟩
            simp only [WalkState.advance] at hpages hspends
            omega

variable (client hydrator roomId server) in
theorem fetchRoomHistoryRecovery_outcome (store : Nat → ChunkInstall) {fuel : Nat}
    (hfuel : hydrator.maxRequests < fuel) :
    ∃ out, fetchRoomHistoryRecovery client hydrator roomId server store fuel = some out ∧
      RecoveryOutcome client hydrator roomId server out :=
  WhileLoop.run_total (WalkInv client hydrator roomId server) _ (fun s => hydrator.maxRequests - s.pages)
    (fun _ hs => recoveryRound_spec hs) walkInv_start (by dsimp only; omega)

/-! ## The walk of the related events -/

variable {stream : RelationStream} {relations : RelationState} {windowMessages : Option Nat}

variable (client hydrator roomId stream) in
/-- Between two pulls of the generator. -/
structure RelationInv (s : RelationState) : Prop where
  pulled : ∀ i event, s.taken[i]? = some event → stream.pull i = some (.event event)
  reads : Reads client hydrator roomId s.taken s.seen
  fetched : s.fetched = s.taken.length
  complete : s.complete = true → s.seen.unreadable = false
  within : s.fetched = 0 ∨ s.fetched < hydrator.maxFetchedEvents

variable (client hydrator roomId server) in
/-- The walk of the related events pulls no more than its ceiling, and what it reports complete is the whole
history. -/
def RelationsOutcome (out : Outcome Walk) : Prop :=
  out.taken.length ≤ max hydrator.maxFetchedEvents 1 ∧ ∀ walk, out.result = .ok walk → walk.complete = true →
    WholeHistory client hydrator roomId server out.requests out.taken walk.events

theorem relationInv_start : RelationInv client hydrator roomId stream {} where
  pulled := by simp
  reads := reads_nil
  fetched := rfl
  complete := fun _ => rfl
  within := .inl rfl

/-- A walk that ends with its generator has read every page. -/
theorem RelationInv.ended (hstream : stream.Paginates server) (h : RelationInv client hydrator roomId stream relations)
    (hended : stream.pull relations.fetched = some .ended) (hcomplete : relations.complete = true) :
    WholeHistory client hydrator roomId server (stream.requests relations.fetched) relations.taken
      relations.seen.events := by
  rw [h.fetched] at hended ⊢
  obtain ⟨pages, hpages, htaken⟩ := hstream.ended relations.taken h.pulled hended
  refine ⟨pages, hpages, htaken, ?_, ?_⟩
  · rw [← htaken]
    exact h.reads.readable (h.complete hcomplete)
  · rw [← htaken]
    exact h.reads.events

/-- The event just pulled is the next one of the generator. -/
theorem RelationInv.pulled_snoc {event : FetchedEvent} (h : RelationInv client hydrator roomId stream relations)
    (hpull : stream.pull relations.fetched = some (.event event)) :
    ∀ i other, (relations.taken ++ [event])[i]? = some other → stream.pull i = some (.event other) := by
  intro i other hother
  rw [List.getElem?_append] at hother
  by_cases hi : i < relations.taken.length
  · rw [if_pos hi] at hother
    exact h.pulled i other hother
  · rw [if_neg hi] at hother
    rw [List.getElem?_singleton] at hother
    split at hother
    · next hlast =>
      cases hother
      have hfetched := h.fetched
      have hindex : i = relations.fetched := by omega
      rw [hindex]
      exact hpull
    · cases hother

theorem RelationInv.taken_le (h : RelationInv client hydrator roomId stream relations) :
    relations.taken.length + 1 ≤ max hydrator.maxFetchedEvents 1 := by
  have hfetched := h.fetched
  rcases h.within with hnone | hsome
  · omega
  · omega

/-- One pull of the generator, if it answers. -/
theorem fetchRelationsRound_spec (hstream : stream.Paginates server)
    (hanswers : ∀ n < max hydrator.maxFetchedEvents 1, stream.pull n ≠ none)
    (h : RelationInv client hydrator roomId stream relations) :
    (∃ out, fetchRelationsRound client hydrator roomId stream windowMessages relations = some (.leave out) ∧
        RelationsOutcome client hydrator roomId server out) ∨
      ∃ s', fetchRelationsRound client hydrator roomId stream windowMessages relations = some (.again s') ∧
        RelationInv client hydrator roomId stream s' ∧
        hydrator.maxFetchedEvents - s'.fetched < hydrator.maxFetchedEvents - relations.fetched := by
  have htaken := h.taken_le
  have hfails : ∀ requests error, RelationsOutcome client hydrator roomId server
        ⟨.error error, requests, relations.taken, relations.seen.events⟩ := by
    intro requests error
    refine ⟨by dsimp only; omega, ?_⟩
    intro walk hwalk
    cases hwalk
  unfold fetchRelationsRound
  cases hpull : stream.pull relations.fetched with
  | none =>
    have hfetched := h.fetched
    exact absurd hpull (hanswers _ (by omega))
  | some pulled =>
    cases pulled with
    | ended =>
      refine .inl ⟨_, rfl, by dsimp only; omega, ?_⟩
      intro walk hwalk hcomplete
      cases hwalk
      exact h.ended hstream hpull hcomplete
    | insufficientRecursionDepth reported => exact .inl ⟨_, rfl, hfails _ _⟩
    | raised => exact .inl ⟨_, rfl, hfails _ _⟩
    | event event =>
      dsimp only
      cases hadd : RoomPage.add client hydrator roomId relations.seen event with
      | error error => exact .inl ⟨_, rfl, hfails _ _⟩
      | ok seen =>
        have hread := reads_add h.reads hadd
        have hstops : RelationsOutcome client hydrator roomId server
            ⟨.ok ⟨seen.events, false, seen.unreadable⟩, stream.requests relations.fetched,
              relations.taken ++ [event], seen.events⟩ := by
          refine ⟨by simpa using htaken, ?_⟩
          intro walk hwalk hcomplete
          cases hwalk
          cases hcomplete
        dsimp only
        unfold relationsExits
        split
        · exact .inl ⟨_, rfl, hstops⟩
        · split
          · exact .inl ⟨_, rfl, hstops⟩
          · next hleft =>
            refine .inr ⟨_, rfl, ⟨?_, hread.1, ?_, ?_, ?_⟩, ?_⟩
            · exact h.pulled_snoc hpull
            · simp [h.fetched]
            · intro hcomplete
              simp only [Bool.and_eq_true] at hcomplete
              have hsome := hcomplete.2
              rw [hread.2, h.complete hcomplete.1]
              cases hreadable : readableEvent client event with
              | none => simp [hreadable] at hsome
              | some readable => rfl
            · exact .inr (Nat.lt_of_not_le hleft)
            · dsimp only at hleft ⊢
              omega

theorem fetchRelations_outcome (hstream : stream.Paginates server)
    (hanswers : ∀ n < max hydrator.maxFetchedEvents 1, stream.pull n ≠ none) {fuel : Nat}
    (hfuel : hydrator.maxFetchedEvents < fuel) :
    ∃ out, fetchRelations client hydrator roomId stream windowMessages fuel = some out ∧
      RelationsOutcome client hydrator roomId server out :=
  WhileLoop.run_total (RelationInv client hydrator roomId stream) _ (fun s => hydrator.maxFetchedEvents - s.fetched)
    (fun _ hs => fetchRelationsRound_spec hstream hanswers hs) relationInv_start (by dsimp only; omega)

/-! ## Bounded, honest walks -/

variable (client hydrator roomId server stream windowMessages) in
/-- The room walks stop under their ceilings of requests and events whatever the server answers, and the walk
of the related events under its ceiling of events if its generator answers; each that reports completeness
went through every page. -/
theorem walks_bounded_honest (store : Nat → ChunkInstall) {relationServer : Nat → MessagesResponse}
    (hstream : stream.Paginates relationServer) {fuel : Nat}
    (hfuel : max hydrator.maxRequests hydrator.maxFetchedEvents < fuel) :
    (∃ out, fetchRoom client hydrator roomId server fuel = some out ∧
        out.requests.length ≤ max hydrator.maxRequests 1 ∧ out.taken.length ≤ hydrator.maxFetchedEvents ∧
        ∀ walk, out.result = .ok walk → walk.complete = true →
          WholeHistory client hydrator roomId server out.requests out.taken walk.events) ∧
      (∃ out, fetchRoomHistoryRecovery client hydrator roomId server store fuel = some out ∧
        out.requests.length ≤ max hydrator.maxRequests 1 ∧ out.taken.length ≤ hydrator.maxFetchedEvents ∧
        ∀ walk, out.result = .ok walk → walk.exhaustedServer = true → walk.unreadable = false →
          WholeHistory client hydrator roomId server out.requests out.taken out.projected) ∧
      ((∃ n < max hydrator.maxFetchedEvents 1, stream.pull n = none) ∨
        ∃ out, fetchRelations client hydrator roomId stream windowMessages fuel = some out ∧
          out.taken.length ≤ max hydrator.maxFetchedEvents 1 ∧
          ∀ walk, out.result = .ok walk → walk.complete = true →
            WholeHistory client hydrator roomId relationServer out.requests out.taken walk.events) := by
  refine ⟨?_, ?_, ?_⟩
  · obtain ⟨out, hrun, hbounds, hhonest⟩ := fetchRoom_outcome client hydrator roomId server
      (lt_of_le_of_lt (le_max_left _ _) hfuel)
    exact ⟨out, hrun, hbounds.1, hbounds.2, hhonest⟩
  · obtain ⟨out, hrun, hbounds, hhonest⟩ := fetchRoomHistoryRecovery_outcome client hydrator roomId
      server store (lt_of_le_of_lt (le_max_left _ _) hfuel)
    exact ⟨out, hrun, hbounds.1, hbounds.2, hhonest⟩
  · by_cases hsilent : ∃ n < max hydrator.maxFetchedEvents 1, stream.pull n = none
    · exact .inl hsilent
    · refine .inr (fetchRelations_outcome hstream ?_ (lt_of_le_of_lt (le_max_right _ _) hfuel))
      intro n hn hnone
      exact hsilent ⟨n, hn, hnone⟩

end

/-! ### Related events on two pages -/

def clearClient : Client where
  olm := false
  decryptEvent := fun _ => none
  parseEvent := fun _ => none

def reply (eventId : String) : FetchedEvent where
  form := .event
  eventId := eventId
  sender := "@user:server"
  serverTimestamp := 1
  source := [("type", .str "m.room.message"), ("content", .obj [("body", .str "hi")])]

def twoPages : Nat → MessagesResponse
  | 0 => .messages [reply "$second"] (some "token")
  | 1 => .messages [reply "$first"] none
  | _ => .error

/-- What the generator gives of the two pages, and what it has asked for by then. -/
def twoPageStream : RelationStream where
  pull
    | 0 => some (.event (reply "$second"))
    | 1 => some (.event (reply "$first"))
    | _ => some .ended
  requests
    | 0 => [⟨none, none⟩]
    | _ => [⟨none, none⟩, ⟨some "token", none⟩]

theorem twoPageStream_paginates : twoPageStream.Paginates twoPages where
  ended := by
    intro taken hpulled hended
    have htaken : taken = [reply "$second", reply "$first"] := by
      rcases taken with _ | ⟨second, _ | ⟨first, _ | ⟨third, rest⟩⟩⟩
      · cases hended
      · cases hended
      · have hsecond := hpulled 0 second rfl
        have hfirst := hpulled 1 first rfl
        cases hsecond
        cases hfirst
        rfl
      · cases hpulled 2 third rfl
    subst htaken
    refine ⟨[[reply "$second"], [reply "$first"]], ?_, rfl⟩
    exact ⟨[none], some "token", _, none, [[reply "$second"]], .next .start rfl (by decide), rfl, by decide, rfl, rfl⟩

/-- One request is allowed, and the walk of the related events costs two. -/
theorem fetchRelations_past_requests : twoPageStream.Paginates twoPages ∧ ∃ out,
      fetchRelations clearClient { selfSender := "@bot:server", maxRequests := 1 } "!room" twoPageStream none 4 =
        some out ∧ 1 < out.requests.length :=
  ⟨twoPageStream_paginates, _, rfl, by decide⟩

theorem walks_bounded_honest_twoPages :
    ∃ out, fetchRoom clearClient { selfSender := "@bot:server" } "!room" twoPages 20001 = some out ∧
      out.requests.length ≤ 400 ∧ out.taken.length ≤ 20000 := by
  obtain ⟨⟨out, hrun, hrequests, htaken, _⟩, _⟩ := walks_bounded_honest clearClient
    { selfSender := "@bot:server" } "!room" twoPages twoPageStream none (fun _ => .installed)
    twoPageStream_paginates (show max 400 20000 < 20001 by decide)
  exact ⟨out, hrun, hrequests, htaken⟩

end MindRoom.HistoryWalks
