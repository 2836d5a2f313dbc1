import MindRoom.Membership

/-! # Interactive questions

`event_journal/interactive_questions.py` with the prompt values of `interactive_models.py`:
immutable prompt revisions recorded by the projection, the snapshot each answering source
takes of the prompt it saw, and the claim that consumes one revision once.
-/

namespace MindRoom

/-! ## Prompts -/

def interactivePromptKey : String := "io.mindroom.interactive"

/-- One prompt revision carried by its Matrix event content. -/
structure InteractivePrompt where
  creatorAgent : String
  questionText : String
  options : List (String × String)
  optionLabels : List (String × String)
  sourceEventId : String
deriving DecidableEq

/-- The item of a string mapping, or nothing for malformed Matrix metadata. -/
def stringItem : String × Json → Option (String × String)
  | (k, .str s) => some (k, s)
  | _ => none

/-- A copied string mapping, or nothing for malformed Matrix metadata. -/
def stringMapping (value : Option Json) : Option (List (String × String)) :=
  match value with
  | some (.obj fields) => if fields = [] then none else fields.mapM stringItem
  | _ => none

def interactivePromptFromContent (content : Dict) : Option InteractivePrompt := do
  let payload ← content.obj? interactivePromptKey
  let creatorAgent ← payload.nonempty? "creator_agent"
  let questionText ← payload.nonempty? "question_text"
  let options ← stringMapping (payload.get? "options")
  let optionLabels ← stringMapping (payload.get? "option_labels")
  let sourceEventId ← payload.nonempty? "source_event_id"
  return { creatorAgent, questionText, options, optionLabels, sourceEventId }

/-- One projected prompt payload, serialized deterministically. -/
def promptJson (prompt : InteractivePrompt) : PromptJson where
  questionText := prompt.questionText
  options := Dict.sortKeys prompt.options
  optionLabels := Dict.sortKeys prompt.optionLabels

def journalAt (db : DB) (principalId eventId : String) : Option JournalRow :=
  db.journalEvents.get? (principalId, eventId)

def pendingAt (db : DB) (principalId eventId : String) : Option JournalRow :=
  match journalAt db principalId eventId with
  | some row => if row.state = .pending then some row else none
  | none => none

def visibleAt (db : DB) (principalId roomId logicalEventId : String) : Option VisibleMessageRow :=
  db.visibleMessages.get? (principalId, roomId, logicalEventId)

/-- The membership that admitted one prompt's required source. -/
def promptMembershipEpoch (db : DB) (principalId roomId sourceEventId : String) : Option Int :=
  match journalAt db principalId sourceEventId with
  | some source => if source.roomId = roomId then some source.membershipEpoch else none
  | none => none

/-- Claim membership and match the prompt currently exposed by projection. -/
def promptIsCurrent (principalId roomId questionEventId : String) (expected : InteractivePrompt)
    (db : DB) : Bool × DB :=
  match promptMembershipEpoch db principalId roomId expected.sourceEventId with
  | none => (false, db)
  | some membershipEpoch =>
    let (current, db) := claimMembershipEpoch principalId roomId membershipEpoch db
    if current = false then (false, db)
    else
      match visibleAt db principalId roomId questionEventId with
      | none => (false, db)
      | some row =>
        let prompt := db.interactiveQuestions.get?
          (principalId, questionEventId, row.revisionEventId)
        (decide (prompt.map (·.questionJson) = some (promptJson expected)), db)

/-- Record one authorized prompt revision. Its logical message is visible whenever this is
called, so the foreign key holds. -/
def recordProjectedPrompt (principalId roomId questionEventId revisionEventId sender : String)
    (membershipEpoch : Int) (content : Dict) (db : DB) : DB :=
  match interactivePromptFromContent content with
  | none => db
  | some prompt =>
    if principalId ≠ prompt.creatorAgent ++ "@" ++ sender then db
    else
      match promptMembershipEpoch db principalId roomId prompt.sourceEventId with
      | none => db
      | some promptEpoch =>
        if membershipEpoch ≠ promptEpoch then db
        else
          let (current, db) := claimMembershipEpoch principalId roomId promptEpoch db
          if current = false then db
          else
            { db with
              interactiveQuestions := db.interactiveQuestions.insertOrIgnore
                { principalId, questionEventId, revisionEventId, roomId
                  questionJson := promptJson prompt
                  consumedBySourceEventId := none } }

/-! ## Deletion

Questions reference their logical message and selections their question, both `ON DELETE
CASCADE`. -/

/-- `DELETE FROM interactive_questions WHERE p`. -/
def deleteQuestions (p : InteractiveQuestionRow → Prop) [DecidablePred p] (db : DB) : DB :=
  { db with
    interactiveQuestions := db.interactiveQuestions.delete p
    interactiveSelections := db.interactiveSelections.delete fun s =>
      db.interactiveQuestions.Any fun q =>
        p q ∧ key q = (s.principalId, s.questionEventId, s.revisionEventId) }

/-- `DELETE FROM visible_messages WHERE p`. -/
def deleteVisible (p : VisibleMessageRow → Prop) [DecidablePred p] (db : DB) : DB :=
  deleteQuestions
    (fun q => db.visibleMessages.Any fun v =>
      p v ∧ key v = (q.principalId, q.roomId, q.questionEventId))
    { db with visibleMessages := db.visibleMessages.delete p }

/-! ## Selections -/

/-- One durable source's validated answer to an interactive question. -/
structure InteractiveSelection where
  questionEventId : String
  questionText : String
  selectionKey : String
  selectedLabel : String
  selectedValue : String
  threadId : Option ThreadId
deriving DecidableEq

abbrev QuestionJoin := InteractiveQuestionRow × VisibleMessageRow

def selectionFromRow (row : QuestionJoin) (selectionKey : String) :
    Option InteractiveSelection := do
  let selectedValue ← row.1.questionJson.options.lookup selectionKey
  return {
    questionEventId := row.1.questionEventId
    questionText := row.1.questionJson.questionText
    selectionKey := selectionKey
    selectedLabel := (row.1.questionJson.optionLabels.lookup selectionKey).getD selectedValue
    selectedValue := selectedValue
    threadId := decodeThreadId row.2.threadId }

/-- The questions whose revision their logical message currently exposes. -/
def exposedQuestions (db : DB) (principalId : String) : List QuestionJoin :=
  (db.interactiveQuestions.select (·.principalId = principalId)).filterMap fun q =>
    match visibleAt db principalId q.roomId q.questionEventId with
    | some v => if v.revisionEventId = q.revisionEventId then some (q, v) else none
    | none => none

/-- The currently visible unconsumed prompt of one target. -/
def activeQuestionRow (db : DB) (principalId roomId questionEventId : String) :
    Option QuestionJoin :=
  match visibleAt db principalId roomId questionEventId with
  | none => none
  | some _ =>
    (exposedQuestions db principalId).find? fun row =>
      row.1.questionEventId = questionEventId ∧ row.1.consumedBySourceEventId = none

/-- The oldest prompt a conversation still offers. -/
def oldestQuestionRow (db : DB) (principalId : String) (source : JournalRow) :
    Option QuestionJoin :=
  let rows := (exposedQuestions db principalId).filter fun row =>
    row.2.roomId = source.roomId ∧ row.2.threadId = source.threadId ∧
      row.2.membershipEpoch = source.membershipEpoch ∧ row.1.consumedBySourceEventId = none
  (rows.insertionSort fun a b =>
    toLex (a.2.revisionTs, a.1.questionEventId) ≤ toLex (b.2.revisionTs, b.1.questionEventId)).head?

/-- The immutable prompt snapshot stored for one source, with its revision. -/
def storedSelection (db : DB) (principalId sourceEventId : String) :
    Option (InteractiveSelection × String) := do
  let selected ← db.interactiveSelections.get? (principalId, sourceEventId)
  let question ← db.interactiveQuestions.get?
    (principalId, selected.questionEventId, selected.revisionEventId)
  let visible ← visibleAt db principalId question.roomId question.questionEventId
  let selection ← selectionFromRow (question, visible) selected.selectionKey
  return (selection, selected.revisionEventId)

def snapshotSelection (principalId sourceEventId : String) (question : InteractiveQuestionRow)
    (selection : InteractiveSelection) (db : DB) : DB :=
  { db with
    interactiveSelections := db.interactiveSelections.insertOrIgnore
      { principalId, sourceEventId
        questionEventId := selection.questionEventId
        revisionEventId := question.revisionEventId
        selectionKey := selection.selectionKey } }

/-- The question and key a reaction annotates. -/
def reactionTarget (event : InboundEvent) : Option (String × String) := do
  let content ← event.source.obj? "content"
  let relation ← Dict.obj? content "m.relates_to"
  if Dict.str? relation "rel_type" = some "m.annotation" then
    let questionEventId ← Dict.str? relation "event_id"
    let selectionKey ← Dict.str? relation "key"
    return (questionEventId, selectionKey)
  else none

/-- Snapshot one reaction's visible prompt and report whether it could select. -/
def snapshotReactionCandidate (principalId : String) (event : InboundEvent) (db : DB) :
    Bool × DB :=
  if event.eventClass ≠ .actionable then (false, db)
  else
    match reactionTarget event with
    | none => (false, db)
    | some (questionEventId, selectionKey) =>
      match pendingAt db principalId event.eventId with
      | none => (true, db)
      | some source =>
        match activeQuestionRow db principalId event.roomId questionEventId with
        | none => (true, db)
        | some row =>
          if row.2.roomId ≠ event.roomId ∨
              row.2.membershipEpoch ≠ source.membershipEpoch then (true, db)
          else
            match selectionFromRow row selectionKey with
            | none => (true, db)
            | some selection =>
              (true, snapshotSelection principalId event.eventId row.1 selection db)

/-! ### Numeric answers -/

/-- The code points `str.isspace` accepts. -/
def spaceRanges : List (Nat × Nat) :=
  [(9, 13), (28, 32), (133, 133), (160, 160), (5760, 5760), (8192, 8202), (8232, 8233),
   (8239, 8239), (8287, 8287), (12288, 12288)]

/-- The code points `str.isdigit` accepts. -/
def digitRanges : List (Nat × Nat) :=
  [(48, 57), (178, 179), (185, 185), (1632, 1641), (1776, 1785), (1984, 1993), (2406, 2415),
   (2534, 2543), (2662, 2671), (2790, 2799), (2918, 2927), (3046, 3055), (3174, 3183),
   (3302, 3311), (3430, 3439), (3558, 3567), (3664, 3673), (3792, 3801), (3872, 3881),
   (4160, 4169), (4240, 4249), (4969, 4977), (6112, 6121), (6160, 6169), (6470, 6479),
   (6608, 6618), (6784, 6793), (6800, 6809), (6992, 7001), (7088, 7097), (7232, 7241),
   (7248, 7257), (8304, 8304), (8308, 8313), (8320, 8329), (9312, 9320), (9332, 9340),
   (9352, 9360), (9450, 9450), (9461, 9469), (9471, 9471), (10102, 10110), (10112, 10120),
   (10122, 10130), (42528, 42537), (43216, 43225), (43264, 43273), (43472, 43481),
   (43504, 43513), (43600, 43609), (44016, 44025), (65296, 65305), (66720, 66729),
   (68160, 68163), (68912, 68921), (69216, 69224), (69714, 69722), (69734, 69743),
   (69872, 69881), (69942, 69951), (70096, 70105), (70384, 70393), (70736, 70745),
   (70864, 70873), (71248, 71257), (71360, 71369), (71472, 71481), (71904, 71913),
   (72016, 72025), (72784, 72793), (73040, 73049), (73120, 73129), (92768, 92777),
   (92864, 92873), (93008, 93017), (120782, 120831), (123200, 123209), (123632, 123641),
   (125264, 125273), (127232, 127242), (130032, 130041)]

/-- A code point of one of the ranges. -/
def inRanges (ranges : List (Nat × Nat)) (c : Char) : Bool :=
  ranges.any fun r => r.1 ≤ c.toNat && c.toNat ≤ r.2

/-- `body.strip()`, as its code points. -/
def strip (body : String) : List Char :=
  ((body.toList.dropWhile (inRanges spaceRanges)).reverse.dropWhile (inRanges spaceRanges)).reverse

/-- The one-digit answer a message body carries. -/
def numericAnswer (event : InboundEvent) : Option String := do
  let content ← event.source.obj? "content"
  let body := (Dict.str? content "body").getD ""
  match strip body with
  | [c] => if inRanges digitRanges c then some (String.singleton c) else none
  | _ => none

/-- Snapshot one numeric answer's oldest prompt and report whether it could select. -/
def snapshotTextCandidate (principalId : String) (event : InboundEvent) (db : DB) : Bool × DB :=
  if event.eventClass ≠ .actionable then (false, db)
  else
    match numericAnswer event with
    | none => (false, db)
    | some selectionKey =>
      match pendingAt db principalId event.eventId with
      | none => (true, db)
      | some source =>
        match oldestQuestionRow db principalId source with
        | none => (true, db)
        | some row =>
          match selectionFromRow row selectionKey with
          | none => (true, db)
          | some selection =>
            (true, snapshotSelection principalId event.eventId row.1 selection db)

/-- Freeze the visible prompt and report whether the source could select one. -/
def snapshotSourceCandidate (principalId : String) (event : InboundEvent) (db : DB) : Bool × DB :=
  match event.kind with
  | .reaction => snapshotReactionCandidate principalId event db
  | .message => snapshotTextCandidate principalId event db
  | _ => (false, db)

/-! ## Claims -/

theorem InteractiveQuestionRow.key_consumed (source : String) (q : InteractiveQuestionRow) :
    key { q with consumedBySourceEventId := some source } = key q := rfl

/-- Claim one immutable revision and discard competing snapshots of it. -/
def consumeSelectionRevision (principalId sourceEventId : String)
    (stored : InteractiveSelection × String) : Tx Bool := do
  let db ← get
  let revision := (principalId, stored.1.questionEventId, stored.2)
  match db.interactiveQuestions.get? revision with
  | none => return false
  | some question =>
    if question.consumedBySourceEventId.any (· ≠ sourceEventId) then
      return false
    -- `UNIQUE (principal_id, consumed_by_source_event_id)`
    if db.interactiveQuestions.Any fun q => q.principalId = principalId ∧ key q ≠ revision ∧
        q.consumedBySourceEventId = some sourceEventId then
      throw (.constraint "interactive_questions")
    set
      { db with
        interactiveQuestions := db.interactiveQuestions.update (fun q => key q = revision)
          (fun q => { q with consumedBySourceEventId := some sourceEventId })
        interactiveSelections := db.interactiveSelections.delete fun s =>
          (s.principalId, s.questionEventId, s.revisionEventId) = revision ∧
            s.sourceEventId ≠ sourceEventId }
    return true

/-- The source can still take a selection of the expected kind for its consumer. -/
def SourceClaimable (source : JournalRow) (expectedKind : EventKind)
    (claimedConsumer : Option SemanticConsumer) : Prop :=
  source.kind = expectedKind ∧
    (source.semanticConsumer = none ∨ source.semanticConsumer = claimedConsumer)

instance (source : JournalRow) (expectedKind : EventKind)
    (claimedConsumer : Option SemanticConsumer) :
    Decidable (SourceClaimable source expectedKind claimedConsumer) :=
  inferInstanceAs (Decidable (_ ∧ _))

/-- Atomically transfer one frozen selection to its still-current source. -/
def claimSelection (principalId sourceEventId : String) (expectedKind : EventKind)
    (claimedConsumer : Option SemanticConsumer) : Tx (Option InteractiveSelection) := do
  let db ← get
  match pendingAt db principalId sourceEventId with
  | none => return none
  | some source =>
    if ¬ SourceClaimable source expectedKind claimedConsumer then
      return none
    let current ← modifyGet (claimMembershipEpoch principalId source.roomId source.membershipEpoch)
    if current = false then
      return none
    let db ← get
    match storedSelection db principalId sourceEventId with
    | none => return none
    | some stored =>
      let consumed ← consumeSelectionRevision principalId sourceEventId stored
      if consumed = false then
        return none
      if claimedConsumer ≠ none ∧ source.semanticConsumer = none then
        modify fun db =>
          { db with
            journalEvents := db.journalEvents.update
              (fun r => key r = (principalId, sourceEventId))
              (fun r => { r with semanticConsumer := claimedConsumer }) }
      return some stored.1

/-- Atomically transfer one valid question selection to its reaction source. -/
def claimReaction (principalId sourceEventId : String) : Tx (Option InteractiveSelection) :=
  claimSelection principalId sourceEventId .reaction (some .interactiveReaction)

/-- Atomically claim the prompt selection frozen for one text source. -/
def claimText (principalId sourceEventId : String) : Tx (Option InteractiveSelection) :=
  claimSelection principalId sourceEventId .message none

end MindRoom
