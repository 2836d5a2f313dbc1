import MindRoom.WhileLoop
import MindRoom.Projection

/-! # Walks of a room's history

Two walks page a room backwards, one to fill a prompt and one to repair a gap; a third takes the related
events of one message from a generator that pages by itself. The server answers as it likes. Each walk says
whether it ran out of history or out of allowance.
-/

namespace MindRoom.HistoryWalks

open WhileLoop

def messagesPageLimit : Nat := 100

/-! ## Fetched events -/

/-- What the client makes of an event off the wire. The last two are no `nio.Event`. -/
inductive EventForm
  | redaction (redacts : String)
  | megolm
  | roomMessageFile
  | roomEncryptedFile
  | event
  | badEvent
  | unknownBadEvent
deriving DecidableEq

structure FetchedEvent where
  form : EventForm
  eventId : String
  sender : String
  serverTimestamp : Int
  transactionId : Option String := none
  source : Dict
deriving DecidableEq

/-- What the walks use of the client. A decryption may fail, and may give something malformed. -/
structure Client where
  olm : Bool
  decryptEvent : FetchedEvent → Option FetchedEvent
  parseEvent : Dict → Option FetchedEvent

/-- `isinstance(event, nio.Event)`. -/
def FetchedEvent.isEvent (event : FetchedEvent) : Bool :=
  event.form ≠ .badEvent && event.form ≠ .unknownBadEvent

def FetchedEvent.isFile (event : FetchedEvent) : Bool :=
  event.form = .roomMessageFile || event.form = .roomEncryptedFile

/-- The content and the replacement of a file edit whose fallback omits its media descriptor. -/
def legacyFileEdit (event : FetchedEvent) : Option (Dict × Dict) := do
  guard (event.form = .badEvent)
  guard (Dict.str? event.source "type" = some "m.room.message")
  let content ← Dict.obj? event.source "content"
  guard (Dict.str? content "msgtype" = some "m.file")
  guard (Dict.get? content "url" = none ∧ Dict.get? content "file" = none)
  let relation ← Dict.obj? content "m.relates_to"
  let replacement ← Dict.obj? content "m.new_content"
  guard (Dict.str? relation "rel_type" = some "m.replace")
  guard (Dict.nonempty? relation "event_id" ≠ none)
  guard (Dict.str? replacement "msgtype" = some "m.file")
  return (content, replacement)

/-- Restore only a valid file replacement, never an arbitrary malformed event. -/
def readableLegacyFileEdit (client : Client) (event : FetchedEvent) : Option FetchedEvent := do
  let (content, replacement) ← legacyFileEdit event
  let parsedReplacement ← client.parseEvent (Dict.set event.source "content" (.obj replacement))
  guard parsedReplacement.isFile
  let mediaKey := if parsedReplacement.form = .roomEncryptedFile then "file" else "url"
  -- a replacement that parsed as a file has its descriptor
  let media ← Dict.get? replacement mediaKey
  let parsed ← client.parseEvent (Dict.set event.source "content" (.obj (Dict.set content mediaKey media)))
  guard parsed.isFile
  return { parsed with source := event.source }

/-- One fetched event in the clear, or nothing if it stayed unreadable. -/
def readableEvent (client : Client) (event : FetchedEvent) : Option FetchedEvent :=
  if !event.isEvent then readableLegacyFileEdit client event
  else if event.form ≠ .megolm then some event
  else if !client.olm then none
  else
    match client.decryptEvent event with
    | none => none
    | some decrypted => if decrypted.isEvent then some decrypted else readableLegacyFileEdit client decrypted

/-! ## Projection -/

inductive WalkError
  | couldNotFetchHistory (roomId : String)
  | repeatedToken (roomId : String) (start : Option String)
  | insufficientRecursionDepth (reported : Option Int)
  /-- A status that is looked up in a set although it is a list or an object. -/
  | unhashableStatus
  /-- What the client or the store raises. -/
  | raised
deriving DecidableEq

def isRedacted (source : Dict) : Bool :=
  match Dict.obj? source "unsigned" with
  | none => false
  | some unsigned => (Dict.get? unsigned "redacted_because").isSome

/-- The event one fetched event deletes, if it deletes one. -/
def redactionTarget (event : FetchedEvent) : Option String :=
  match event.form with
  | .redaction redacts => some redacts
  | _ =>
    if Dict.str? event.source "type" ≠ some "m.room.message" then none
    else if isRedacted event.source then some event.eventId else none

/-- The thread this content belongs to, if any. -/
def threadRoot (content : Dict) : Option ThreadId :=
  if Dict.str? (relation content) "rel_type" = some "m.thread" then
    decodeThreadId ((Dict.str? (relation content) "event_id").getD "")
  else none

/-- Whether one event is this bot's own still-running streaming edit. -/
def isTransportProgressRevision (event : ProjectedEvent) (selfSender : String) : Except WalkError Bool :=
  if event.sender ≠ selfSender then .ok false
  else if replacementTarget event.content = none then .ok false
  else
    match Dict.get? (visibleContent event.content) "io.mindroom.stream_status" with
    | some (.str status) => .ok (status = "pending" || status = "streaming")
    | some (.arr _) | some (.obj _) => .error .unhashableStatus
    | _ => .ok false

def projectedFromEvent (roomId selfSender : String) (event : FetchedEvent) :
    Except WalkError (Option ProjectedEvent) :=
  let content := (Dict.obj? event.source "content").getD []
  let view (replaces redacts : Option String) : ProjectedEvent := {
    eventId := event.eventId
    roomId := roomId
    threadId := threadRoot content
    sender := event.sender
    originServerTs := event.serverTimestamp
    content := content
    replacesEventId := replaces
    redactsEventId := redacts
    transactionId := event.transactionId }
  match redactionTarget event with
  | some redacts => .ok (some (view none (some redacts)))
  | none =>
    if content = [] ∨ Dict.str? event.source "type" ≠ some "m.room.message" then .ok none
    else do
      let projected := view (replacementTarget content) none
      if ← isTransportProgressRevision projected selfSender then return none
      return some projected

/-- Whether one projection adds a message to a walk's window. -/
def isLogicalMessage (projected : ProjectedEvent) : Bool :=
  projected.replacesEventId = none && projected.redactsEventId = none

/-! ## Walks -/

structure Walk where
  events : List ProjectedEvent
  complete : Bool
  unreadable : Bool := false

/-- What pages come to after projection. -/
structure RoomPage where
  events : List ProjectedEvent := []
  logicalMessages : Nat := 0
  unreadable : Bool := false

structure RecoveryWalk where
  exhaustedServer : Bool
  unreadable : Bool
  superseded : Bool := false

/-- The ceilings a walk spends, and whose own edits it skips. -/
structure ConversationHydrator where
  selfSender : String
  promptWindowMessages : Nat := 2000
  maxFetchedEvents : Nat := 20000
  maxRequests : Nat := 400

structure PageRequest where
  start : Option String
  limit : Option Nat

/-- What the server answers to a request. -/
inductive MessagesResponse
  | messages (chunk : List FetchedEvent) (next : Option String)
  | error
  | raised

/-- What a walk comes to, with the requests it cost and the events it went through and projected. -/
structure Outcome (α : Type) where
  result : Except WalkError α
  requests : List PageRequest
  taken : List FetchedEvent
  projected : List ProjectedEvent

section

variable (client : Client) (hydrator : ConversationHydrator) (roomId : String)

def RoomPage.add (page : RoomPage) (event : FetchedEvent) : Except WalkError RoomPage :=
  match readableEvent client event with
  | none => .ok { page with unreadable := true }
  | some readable => do
      match ← projectedFromEvent roomId hydrator.selfSender readable with
      | none => return page
      | some projected =>
        return { page with
          events := page.events ++ [projected]
          logicalMessages := page.logicalMessages + if isLogicalMessage projected then 1 else 0 }

def projectRoomPage (events : List FetchedEvent) : Except WalkError RoomPage :=
  events.foldlM (RoomPage.add client hydrator roomId) {}

/-- An advancing room pagination cursor, or the failure of the stalled walk. -/
def advancedRoomCursor (start : Option String) (next : String) : Except WalkError String :=
  if some next = start then .error (.repeatedToken roomId start) else .ok next

/-- The token of a page that has one: an empty token is none. -/
def nextToken (next : Option String) : Option String := next.filter (· ≠ "")

def messagesOf : MessagesResponse → Except WalkError (List FetchedEvent × Option String)
  | .messages chunk next => .ok (chunk, next)
  | .error => .error (.couldNotFetchHistory roomId)
  | .raised => .error .raised

/-- What a room walk keeps between its requests. -/
structure WalkState where
  seen : RoomPage := {}
  fetched : Nat := 0
  pages : Nat := 0
  start : Option String := none
  requests : List PageRequest := []
  taken : List FetchedEvent := []

def WalkState.advance (s : WalkState) (limit : Nat) (page : List FetchedEvent) (seen : RoomPage) : WalkState where
  seen := seen
  fetched := s.fetched + page.length
  pages := s.pages + 1
  start := s.start
  requests := s.requests ++ [⟨s.start, some limit⟩]
  taken := s.taken ++ page

def WalkState.finish {α : Type} (s : WalkState) (walk : α) : Round WalkState (Outcome α) :=
  .leave ⟨.ok walk, s.requests, s.taken, s.seen.events⟩

/-- A walk that fails has sent the request it fails on. -/
def WalkState.fail {α : Type} (s : WalkState) (limit : Nat) (error : WalkError) : Round WalkState (Outcome α) :=
  .leave ⟨.error error, s.requests ++ [⟨s.start, some limit⟩], s.taken, s.seen.events⟩

def WalkState.walk (s : WalkState) (complete : Bool) : Round WalkState (Outcome Walk) :=
  s.finish ⟨s.seen.events, complete, s.seen.unreadable⟩

/-! ### The walk that fills a prompt -/

/-- What follows a page that the room walk has projected. -/
def fetchRoomExits (s : WalkState) (cut : Bool) (next : Option String) :
    Except WalkError (Round WalkState (Outcome Walk)) :=
  -- a partial page cannot safely advance: that would skip the suffix that was not kept
  if cut then .ok (s.walk false)
  else if hydrator.promptWindowMessages ≤ s.seen.logicalMessages then .ok (s.walk false)
  else
    match nextToken next with
    | none => .ok (s.walk (!s.seen.unreadable))
    | some next => do
        let nextStart ← advancedRoomCursor roomId s.start next
        if hydrator.maxFetchedEvents ≤ s.fetched ∨ hydrator.maxRequests ≤ s.pages then return s.walk false
        else return .again { s with start := some nextStart }

def fetchRoomStep (server : Nat → MessagesResponse) (s : WalkState) :
    Except WalkError (Round WalkState (Outcome Walk)) := do
  let (chunk, next) ← messagesOf roomId (server s.requests.length)
  let page := chunk.take (hydrator.maxFetchedEvents - s.fetched)
  let seen ← page.foldlM (RoomPage.add client hydrator roomId) s.seen
  fetchRoomExits hydrator roomId (s.advance messagesPageLimit page seen) (page.length < chunk.length) next

def fetchRoomRound (server : Nat → MessagesResponse) (s : WalkState) : Option (Round WalkState (Outcome Walk)) :=
  match fetchRoomStep client hydrator roomId server s with
  | .ok round => some round
  | .error error => some (s.fail messagesPageLimit error)

def fetchRoom (server : Nat → MessagesResponse) (fuel : Nat) : Option (Outcome Walk) :=
  WhileLoop.run (fetchRoomRound client hydrator roomId server) fuel {}

/-! ### The walk that repairs a gap -/

/-- What the store answers to a chunk: it is installed, refused or the write raises. -/
inductive ChunkInstall
  | installed
  | refused
  | raised

def RoomPage.append (page next : RoomPage) : RoomPage where
  events := page.events ++ next.events
  logicalMessages := page.logicalMessages + next.logicalMessages
  unreadable := page.unreadable || next.unreadable

def WalkState.recoveryWalk (s : WalkState) (exhaustedServer : Bool) : Round WalkState (Outcome RecoveryWalk) :=
  s.finish { exhaustedServer := exhaustedServer, unreadable := s.seen.unreadable }

/-- What follows a chunk that is installed. -/
def recoveryExits (s : WalkState) (cut : Bool) (next : Option String) :
    Except WalkError (Round WalkState (Outcome RecoveryWalk)) :=
  if cut then .ok (s.recoveryWalk false)
  else
    match nextToken next with
    | none => .ok (s.recoveryWalk true)
    | some next => do
        let nextStart ← advancedRoomCursor roomId s.start next
        if hydrator.maxFetchedEvents ≤ s.fetched ∨ hydrator.maxRequests ≤ s.pages then return s.recoveryWalk false
        else return .again { s with start := some nextStart }

def requestLimit (s : WalkState) : Nat := min messagesPageLimit (hydrator.maxFetchedEvents - s.fetched)

def recoveryStep (server : Nat → MessagesResponse) (store : Nat → ChunkInstall) (s : WalkState) :
    Except WalkError (Round WalkState (Outcome RecoveryWalk)) := do
  let limit := requestLimit hydrator s
  let (chunk, next) ← messagesOf roomId (server s.requests.length)
  let page := chunk.take limit
  let projectedPage ← projectRoomPage client hydrator roomId page
  let seen := s.seen.append projectedPage
  match store s.pages with
  | .raised => .error .raised
  | .refused =>
    return .leave ⟨.ok { exhaustedServer := false, unreadable := seen.unreadable, superseded := true },
      s.requests ++ [⟨s.start, some limit⟩], s.taken ++ page, s.seen.events⟩
  | .installed => recoveryExits hydrator roomId (s.advance limit page seen) (page.length < chunk.length) next

def recoveryRound (server : Nat → MessagesResponse) (store : Nat → ChunkInstall) (s : WalkState) :
    Option (Round WalkState (Outcome RecoveryWalk)) :=
  if requestLimit hydrator s = 0 then some (s.recoveryWalk false)
  else
    match recoveryStep client hydrator roomId server store s with
    | .ok round => some round
    | .error error => some (s.fail (requestLimit hydrator s) error)

def fetchRoomHistoryRecovery (server : Nat → MessagesResponse) (store : Nat → ChunkInstall) (fuel : Nat) :
    Option (Outcome RecoveryWalk) :=
  WhileLoop.run (recoveryRound client hydrator roomId server store) fuel {}

/-! ### The walk of the related events -/

/-- What the generator of related events gives when it is asked for the next one. -/
inductive Pulled
  | event (event : FetchedEvent)
  | ended
  | insufficientRecursionDepth (reported : Option Int)
  | raised

/-- The generator: the answer to each pull, which may never come, and the requests it has sent by then. -/
structure RelationStream where
  pull : Nat → Option Pulled
  requests : Nat → List PageRequest

structure RelationState where
  seen : RoomPage := {}
  fetched : Nat := 0
  complete : Bool := true
  taken : List FetchedEvent := []

def RelationState.finish (s : RelationState) (requests : List PageRequest) (complete : Bool) :
    Round RelationState (Outcome Walk) :=
  .leave ⟨.ok ⟨s.seen.events, complete, s.seen.unreadable⟩, requests, s.taken, s.seen.events⟩

def RelationState.fail (s : RelationState) (requests : List PageRequest) (error : WalkError) :
    Round RelationState (Outcome Walk) :=
  .leave ⟨.error error, requests, s.taken, s.seen.events⟩

/-- Whether the event just read was the message that fills the window. -/
def windowFilled (windowMessages : Option Nat) (before after : RoomPage) : Bool :=
  match windowMessages with
  | none => false
  | some window => before.logicalMessages < after.logicalMessages && window ≤ after.logicalMessages

def relationsExits (windowMessages : Option Nat) (requests : List PageRequest) (before : RoomPage)
    (s : RelationState) : Round RelationState (Outcome Walk) :=
  if windowFilled windowMessages before s.seen then s.finish requests false
  else if hydrator.maxFetchedEvents ≤ s.fetched then s.finish requests false
  else .again s

def fetchRelationsRound (stream : RelationStream) (windowMessages : Option Nat) (s : RelationState) :
    Option (Round RelationState (Outcome Walk)) :=
  let requests := stream.requests s.fetched
  match stream.pull s.fetched with
  | none => none
  | some .ended => some (s.finish requests s.complete)
  | some (.insufficientRecursionDepth reported) => some (s.fail requests (.insufficientRecursionDepth reported))
  | some .raised => some (s.fail requests .raised)
  | some (.event event) =>
    match RoomPage.add client hydrator roomId s.seen event with
    | .error error => some (s.fail requests error)
    | .ok seen =>
      some (relationsExits hydrator windowMessages requests s.seen {
        seen := seen
        fetched := s.fetched + 1
        complete := s.complete && (readableEvent client event).isSome
        taken := s.taken ++ [event] })

def fetchRelations (stream : RelationStream) (windowMessages : Option Nat) (fuel : Nat) : Option (Outcome Walk) :=
  WhileLoop.run (fetchRelationsRound client hydrator roomId stream windowMessages) fuel {}

end

end MindRoom.HistoryWalks
