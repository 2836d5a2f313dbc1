import MindRoom.WorkflowValue

/-! # Thread tags in room state

Each tag of a thread is a state event of its own. The canonical state key of a tag is the JSON array
of the thread root and the tag, but other clients may write keys that are read as the same pair: with
blanks around the root, with capitals in the tag, or with other JSON text. A snapshot reads all events
of a room: an empty content under any key of a pair hides the tag, and else the last valid record counts.
-/

namespace MindRoom.ThreadTags

open DynamicWorkflow (Value Fields stripped strip_stripped)

/-! ## The program -/

def threadTagsEventType : String := "com.mindroom.thread.tags"

/-- A `datetime`: microseconds of its own clock, and the offset of its zone when it has one. -/
structure Datetime where
  clock : Int
  utcOffset : Option Int
deriving DecidableEq

/-- Reading and writing datetimes: `datetime.fromisoformat` and `datetime.isoformat`, and what the
model library makes of a `datetime` field. -/
structure DatetimeCodec where
  fromisoformat : String → Option Datetime
  isoformat : Datetime → String
  validate : Value → Option Datetime
  serialize : Datetime → Value

/-- `value.replace(tzinfo=UTC)`, where the value has no zone. -/
def inUTC (value : Datetime) : Datetime := { value with utcOffset := some (value.utcOffset.getD 0) }

structure ThreadTagRecord where
  setBy : String
  setAt : Datetime
  note : Option String
  data : Fields

structure ThreadTagsState where
  roomId : String
  threadRootId : String
  tags : Mapping String ThreadTagRecord

/-- Current tags plus thread roots with durable tag-state history. -/
structure RoomThreadTagsSnapshot where
  tagState : Mapping String ThreadTagsState
  observedThreadRootIds : List String

def normalizeNonEmptyString : Value → Option String
  | .str s =>
    let normalizedValue := String.ofList (strip s)
    if normalizedValue = "" then none else some normalizedValue
  | _ => none

/-- One character of `value.lower()`. Capitals that lower to no ASCII letter are left alone: no text
with one of them is compared with anything. -/
def lowerChar (c : Char) : Char :=
  if 'A' ≤ c ∧ c ≤ 'Z' then Char.ofNat (c.toNat + 32)
  else if c = '\u212a' then 'k'
  else c

def lower (s : String) : String := String.ofList (s.toList.map lowerChar)

/-- `[a-z0-9-]{1,50}`. -/
def isTagName (s : String) : Bool :=
  1 ≤ s.toList.length && s.toList.length ≤ 50 &&
    s.toList.all fun c => ('a' ≤ c && c ≤ 'z') || ('0' ≤ c && c ≤ '9') || c = '-'

def normalizeTagName (tag : Value) : Option String :=
  match normalizeNonEmptyString tag with
  | none => none
  | some normalizedTag => if isTagName (lower normalizedTag) then some (lower normalizedTag) else none

mutual

/-- Whether a nested value is JSON-compatible: it holds no infinity and no NaN. -/
def isJsonCompatible : Value → Bool
  | .float repr => repr ≠ "nan" && repr ≠ "inf" && repr ≠ "-inf"
  | .list items => areJsonCompatible items
  | .dict fields => isObjectMapping fields
  | _ => true

def areJsonCompatible : List Value → Bool
  | [] => true
  | item :: items => isJsonCompatible item && areJsonCompatible items

def isObjectMapping : List (String × Value) → Bool
  | [] => true
  | (_, item) :: fields => isJsonCompatible item && isObjectMapping fields

end

/-- Validate one JSON-like object payload. The copy is equal to the payload. -/
def normalizeObjectMapping : Value → Option Fields
  | .dict fields => if isObjectMapping fields then some fields else none
  | _ => none

def normalizeBlockedBy : Value → Option Value
  | .list items => (items.mapM normalizeNonEmptyString).map fun items => .list (items.map .str)
  | _ => none

def normalizeLevel (value : Value) : Option Value :=
  match normalizeNonEmptyString value with
  | none => none
  | some level => if lower level ∈ ["high", "medium", "low"] then some (.str (lower level)) else none

section

variable (codec : DatetimeCodec)

def parseTimestamp : Value → Option Datetime
  | .str s => if s = "" then none else (codec.fromisoformat s).map inUTC
  | _ => none

def normalizeDeadline (value : Value) : Option Value :=
  (parseTimestamp codec value).map fun deadline => .str (codec.isoformat deadline)

def normalizeField (name : String) (normalize : Value → Option Value) (data : Fields) : Option Fields :=
  match Fields.get? data name with
  | none => some data
  | some value => (normalize value).map fun value => Fields.set data name value

def normalizeBlockedTagData : Fields → Option Fields := normalizeField "blocked_by" normalizeBlockedBy

def normalizeWaitingTagData : Fields → Option Fields :=
  normalizeField "waiting_on" fun value => (normalizeNonEmptyString value).map .str

def normalizePriorityTagData : Fields → Option Fields := normalizeField "level" normalizeLevel

def normalizeDueTagData : Fields → Option Fields := normalizeField "deadline" (normalizeDeadline codec)

def normalizeTagData (tag : String) (data : Option Value) : Option Fields :=
  match (match data with
    | none => some []
    | some data => normalizeObjectMapping data) with
  | none => none
  | some normalizedData =>
    if tag = "blocked" then normalizeBlockedTagData normalizedData
    else if tag = "waiting" then normalizeWaitingTagData normalizedData
    else if tag = "priority" then normalizePriorityTagData normalizedData
    else if tag = "due" then normalizeDueTagData codec normalizedData
    else some normalizedData

/-- `_normalize_note`, before the field is validated. -/
def normalizeNote : Option Value → Option (Option String)
  | none | some .none => some none
  | some (.str s) => some (normalizeNonEmptyString (.str s))
  | some _ => none

/-- `_normalize_data`, before the field is validated. -/
def normalizeData : Option Value → Option Fields
  | none | some .none => some []
  | some value => normalizeObjectMapping value

/-- `ThreadTagRecord.model_validate(value)`. -/
def validateRecord (value : Fields) : Option ThreadTagRecord := do
  let setBy ← normalizeNonEmptyString ((Fields.get? value "set_by").getD .none)
  let setAt ← (Fields.get? value "set_at").bind codec.validate
  let note ← normalizeNote (Fields.get? value "note")
  let data ← normalizeData (Fields.get? value "data")
  return { setBy, setAt := inUTC setAt, note, data }

def parseThreadTagRecord (tag : String) (value : Fields) : Option ThreadTagRecord := do
  let normalizedTag ← normalizeTagName (.str tag)
  let record ← validateRecord codec value
  let normalizedData ← normalizeTagData codec normalizedTag (some (.dict record.data))
  return { record with data := normalizedData }

def threadTagStateKey (threadRootId tag : String) : String :=
  String.ofList ('[' :: JsonText.dumpsStr threadRootId ++ ',' :: JsonText.dumpsStr tag ++ [']'])

/-- The decoded value of a part of a state key: only strings matter. -/
def ofJson : Json → Value
  | .str s => .str s
  | _ => .none

def parseThreadTagStateKey : Value → Option (String × String)
  | .str stateKey =>
    match JsonText.loads stateKey.toList with
    | some (.arr [threadRootId, tag]) => do
        let threadRootId ← normalizeNonEmptyString (ofJson threadRootId)
        let tag ← normalizeTagName (ofJson tag)
        return (threadRootId, tag)
    | _ => none
  | _ => none

def threadTagsStateFromTags (roomId threadRootId : String) (tags : Mapping String ThreadTagRecord) :
    Option ThreadTagsState :=
  if tags.rows = [] then none
  else some { roomId, threadRootId, tags := Mapping.collect (tags.keys.insertionSort (· ≤ ·)) tags.value? }

/-- One canonical serialized tag payload: `record.model_dump(mode="json", exclude_none=True)`. -/
def threadTagRecordContent (record : ThreadTagRecord) : Fields :=
  [("set_by", .str record.setBy), ("set_at", codec.serialize record.setAt)] ++
    (record.note.toList.map fun note => ("note", .str note)) ++ [("data", .dict record.data)]

structure StateEvent where
  type : Value
  stateKey : Value
  content : Value

def putThreadTagState (threadRootId tag : String) (record : Option ThreadTagRecord) : StateEvent where
  type := .str threadTagsEventType
  stateKey := .str (threadTagStateKey threadRootId tag)
  content := .dict (record.elim [] (threadTagRecordContent codec))

/-- What the loop over the state has read. -/
structure Reading where
  recordsByThread : Mapping String (Mapping String ThreadTagRecord) := ∅
  tombstonesByThread : Mapping String (List String) := ∅
  observedThreadRootIds : List String := []

def taggedContent (event : StateEvent) : Option (String × String × Fields) :=
  match event.type, event.content with
  | .str eventType, .dict content =>
    if eventType ≠ threadTagsEventType then none
    else (parseThreadTagStateKey event.stateKey).map fun pair => (pair.1, pair.2, content)
  | _, _ => none

/-- One round of the loop. -/
def readEvent (reading : Reading) (event : StateEvent) : Reading :=
  match taggedContent event with
  | none => reading
  | some (threadRootId, tag, content) =>
    let reading := { reading with
      observedThreadRootIds := reading.observedThreadRootIds.insert threadRootId }
    match content with
    | [] =>
      { reading with
        tombstonesByThread := reading.tombstonesByThread.set threadRootId
          (((reading.tombstonesByThread.value? threadRootId).getD []).insert tag) }
    | _ :: _ =>
      match parseThreadTagRecord codec tag content with
      | none => reading
      | some record =>
        { reading with
          recordsByThread := reading.recordsByThread.set threadRootId
            (((reading.recordsByThread.value? threadRootId).getD ∅).set tag record) }

/-- Current thread tags and durable tag-state history of one room. -/
def getRoomThreadTagsSnapshot (roomId : String) (events : List StateEvent) : RoomThreadTagsSnapshot :=
  let reading := events.foldl (readEvent codec) {}
  { tagState := Mapping.collect (reading.recordsByThread.keys.insertionSort (· ≤ ·)) fun threadRootId =>
      threadTagsStateFromTags roomId threadRootId
        (((reading.recordsByThread.value? threadRootId).getD ∅).keep
          (· ∉ (reading.tombstonesByThread.value? threadRootId).getD []))
    observedThreadRootIds := reading.observedThreadRootIds }

def RoomThreadTagsSnapshot.shown? (snapshot : RoomThreadTagsSnapshot) (threadRootId tag : String) :
    Option ThreadTagRecord :=
  (snapshot.tagState.value? threadRootId).bind (·.tags.value? tag)

end

/-! ## What a snapshot shows -/

section

variable {codec : DatetimeCodec} {events : List StateEvent}

/-- An event that removes the tag. -/
def Clears (event : StateEvent) (root tag : String) : Prop := taggedContent event = some (root, tag, [])

def recordFor (codec : DatetimeCodec) (event : StateEvent) (root tag : String) : Option ThreadTagRecord :=
  match taggedContent event with
  | some (root', tag', content) =>
    if root' = root ∧ tag' = tag ∧ content ≠ [] then parseThreadTagRecord codec tag content else none
  | none => none

def lastRecord (codec : DatetimeCodec) (events : List StateEvent) (root tag : String) : Option ThreadTagRecord :=
  (events.filterMap fun event => recordFor codec event root tag).getLast?

theorem lastRecord_append (events events' : List StateEvent) (root tag : String) :
    lastRecord codec (events ++ events') root tag =
      (lastRecord codec events' root tag).or (lastRecord codec events root tag) := by
  unfold lastRecord
  rw [List.filterMap_append, List.getLast?_append]

theorem lastRecord_singleton (event : StateEvent) (root tag : String) :
    lastRecord codec [event] root tag = recordFor codec event root tag := by
  unfold lastRecord
  cases h : recordFor codec event root tag <;> simp [h]

/-- The tombstones that were read. -/
def Reading.Cleared (reading : Reading) (root tag : String) : Prop :=
  tag ∈ (reading.tombstonesByThread.value? root).getD []

def Reading.record? (reading : Reading) (root tag : String) : Option ThreadTagRecord :=
  ((reading.recordsByThread.value? root).getD ∅).value? tag

/-- What one event does to the reading of one tag. -/
theorem readEvent_spec (codec : DatetimeCodec) (reading : Reading) (event : StateEvent) (root tag : String) :
    ((readEvent codec reading event).Cleared root tag ↔ reading.Cleared root tag ∨ Clears event root tag) ∧
      (readEvent codec reading event).record? root tag =
        (recordFor codec event root tag).or (reading.record? root tag) := by
  unfold readEvent Clears recordFor Reading.Cleared Reading.record?
  cases htagged : taggedContent event with
  | none => simp
  | some tagged =>
    obtain ⟨root', tag', content⟩ := tagged
    cases content with
    | nil =>
      dsimp only
      rw [Mapping.value?_set]
      by_cases hroot : root' = root
      · subst hroot
        by_cases htag : tag' = tag
        · subst htag
          simp
        · simp [htag, Ne.symm htag, or_comm]
      · simp [hroot]
    | cons field fields =>
      dsimp only
      cases hparsed : parseThreadTagRecord codec tag' (field :: fields) with
      | none =>
        dsimp only
        by_cases hpair : root' = root ∧ tag' = tag
        · obtain ⟨rfl, rfl⟩ := hpair
          simp [hparsed]
        · have hnot : ¬ (root' = root ∧ tag' = tag ∧ field :: fields ≠ []) :=
            fun h => hpair ⟨h.1, h.2.1⟩
          rw [if_neg hnot]
          simp
      | some record =>
        dsimp only
        rw [Mapping.value?_set]
        by_cases hroot : root' = root
        · subst hroot
          by_cases htag : tag' = tag
          · subst htag
            simp [hparsed]
          · simp [htag]
        · simp [hroot]

/-- What a whole reading knows of one tag. -/
theorem reading_spec (events : List StateEvent) (root tag : String) :
    ((events.foldl (readEvent codec) {}).Cleared root tag ↔ ∃ event ∈ events, Clears event root tag) ∧
      (events.foldl (readEvent codec) {}).record? root tag = lastRecord codec events root tag := by
  induction events using List.reverseRecOn with
  | nil => simp [Reading.Cleared, Reading.record?, lastRecord]
  | append_singleton events event ih =>
    rcases readEvent_spec codec (events.foldl (readEvent codec) {}) event root tag with
      ⟨hcleared, hrecord⟩
    rw [List.foldl_append]
    constructor
    · refine hcleared.trans ?_
      rw [ih.1]
      simp [or_and_right, exists_or]
    · refine hrecord.trans ?_
      rw [ih.2, lastRecord_append, lastRecord_singleton]

/-- The tags of one thread in a parsed state. -/
theorem value?_threadTagsState (roomId root : String) (tags : Mapping String ThreadTagRecord) (tag : String) :
    (threadTagsStateFromTags roomId root tags).bind (·.tags.value? tag) = tags.value? tag := by
  unfold threadTagsStateFromTags
  split
  · next hempty =>
    have hnone : tags.value? tag = none := by
      unfold Mapping.value? Table.get? Table.find?
      rw [hempty]
      rfl
    rw [hnone]
    rfl
  · change (Mapping.collect (tags.keys.insertionSort (· ≤ ·)) tags.value?).value? tag = _
    rw [Mapping.value?_collect]
    split
    · rfl
    · next hnot =>
      cases hvalue : tags.value? tag with
      | none => rfl
      | some record =>
        have hmem : tag ∈ tags.keys := Mapping.mem_keys.mpr ⟨record, hvalue⟩
        exact absurd ((List.mem_insertionSort _).mpr hmem) hnot

/-- The threads of a snapshot are those with a record. -/
theorem shown?_reading (roomId root tag : String) (reading : Reading)
    (hreading : events.foldl (readEvent codec) {} = reading) :
    (getRoomThreadTagsSnapshot codec roomId events).shown? root tag =
      (((reading.recordsByThread.value? root).getD ∅).keep
        (· ∉ (reading.tombstonesByThread.value? root).getD [])).value? tag := by
  subst hreading
  unfold RoomThreadTagsSnapshot.shown? getRoomThreadTagsSnapshot
  dsimp only
  rw [Mapping.value?_collect]
  split
  · rw [value?_threadTagsState]
  · next hnot =>
    cases hvalue : (events.foldl (readEvent codec) {}).recordsByThread.value? root with
    | none =>
      rw [Option.getD_none, Mapping.value?_keep]
      simp
    | some records =>
      have hmem := Mapping.mem_keys.mpr ⟨records, hvalue⟩
      exact absurd ((List.mem_insertionSort _).mpr hmem) hnot

/-- A removed tag is not shown, whatever records there are. -/
theorem shown?_of_clears {roomId root tag : String} (h : ∃ event ∈ events, Clears event root tag) :
    (getRoomThreadTagsSnapshot codec roomId events).shown? root tag = none := by
  rw [shown?_reading roomId root tag _ rfl, Mapping.value?_keep, if_neg]
  exact not_not.mpr ((reading_spec events root tag).1.mpr h)

/-- A tag that no event removes shows its last valid record. -/
theorem shown?_of_not_clears {roomId root tag : String} (h : ¬ ∃ event ∈ events, Clears event root tag) :
    (getRoomThreadTagsSnapshot codec roomId events).shown? root tag = lastRecord codec events root tag := by
  rw [shown?_reading roomId root tag _ rfl, Mapping.value?_keep, if_pos]
  · exact (reading_spec events root tag).2
  · exact fun hcleared => h ((reading_spec events root tag).1.mp hcleared)

end

/-! ## Valid tags and records -/

/-- A thread root and a tag that a caller can name. -/
structure ValidTag (root tag : String) : Prop where
  root : normalizeNonEmptyString (.str root) = some root
  tag : normalizeTagName (.str tag) = some tag

/-- A record that a caller can write for a tag: its fields are normalized. -/
structure ValidRecord (codec : DatetimeCodec) (tag : String) (record : ThreadTagRecord) : Prop where
  setBy : normalizeNonEmptyString (.str record.setBy) = some record.setBy
  setAt : inUTC record.setAt = record.setAt
  note : ∀ note ∈ record.note, normalizeNonEmptyString (.str note) = some note
  data : normalizeTagData codec tag (some (.dict record.data)) = some record.data

variable {codec : DatetimeCodec} {tag : String}

theorem isObjectMapping_of_normalizeTagData {data data' : Fields}
    (h : normalizeTagData codec tag (some (.dict data)) = some data') : isObjectMapping data = true := by
  cases hobject : isObjectMapping data with
  | true => rfl
  | false =>
    have hnone : normalizeObjectMapping (.dict data) = none := if_neg (by simp [hobject])
    unfold normalizeTagData at h
    simp only [hnone] at h
    cases h

/-! ## The canonical event -/

/-- The state key of a tag is read as its root and its tag. -/
theorem loads_threadTagStateKey (root tag : String) :
    JsonText.loads (threadTagStateKey root tag).toList = some (.arr [.str root, .str tag]) := by
  obtain ⟨text', htag, hparsed'⟩ := JsonText.parseStr_dumpsStr tag [']']
  obtain ⟨text, hroot, hparsed⟩ := JsonText.parseStr_dumpsStr root (',' :: (JsonText.dumpsStr tag ++ [']']))
  have hkey : (threadTagStateKey root tag).toList = '[' :: '\x22' :: text := by
    unfold threadTagStateKey
    rw [String.toList_ofList, ← hroot]
    simp
  have hvalue : ∀ n, JsonText.parseValue (n + 1) ('\x22' :: text) =
      some (.str root, ',' :: '\x22' :: text') := by
    intro n
    change (JsonText.parseStr text).map _ = _
    rw [hparsed, htag]
    simp
  have hvalue' : ∀ n, JsonText.parseValue (n + 1) ('\x22' :: text') = some (.str tag, [']']) := by
    intro n
    change (JsonText.parseStr text').map _ = _
    rw [hparsed']
    simp
  have hitems' : ∀ n, JsonText.parseItems (n + 2) [.str root] ('\x22' :: text') =
      some (.arr [.str root, .str tag], []) := by
    intro n
    rw [JsonText.parseItems, hvalue']
    rfl
  have hitems : ∀ n, JsonText.parseItems (n + 3) [] ('\x22' :: text) =
      some (.arr [.str root, .str tag], []) := by
    intro n
    rw [JsonText.parseItems, hvalue]
    exact hitems' n
  have harr : ∀ n, JsonText.parseValue (n + 4) ('[' :: '\x22' :: text) =
      some (.arr [.str root, .str tag], []) := hitems
  have hlong : 3 ≤ text.length + 2 := by
    cases text with
    | nil => cases hparsed
    | cons c text => simp
  obtain ⟨n, hn⟩ := Nat.exists_eq_add_of_le hlong
  have hfuel : ('[' :: '\x22' :: text).length + 1 = n + 4 := by
    simp only [List.length_cons]
    omega
  have hskip : JsonText.skipWhitespace ('[' :: '\x22' :: text) = '[' :: '\x22' :: text := rfl
  unfold JsonText.loads
  rw [hkey, hskip, hfuel, harr]
  rfl

theorem parseThreadTagStateKey_canonical {root tag : String} (h : ValidTag root tag) :
    parseThreadTagStateKey (.str (threadTagStateKey root tag)) = some (root, tag) := by
  unfold parseThreadTagStateKey
  dsimp only
  rw [loads_threadTagStateKey]
  dsimp only [ofJson]
  rw [h.root, h.tag]
  rfl

section

variable {codec : DatetimeCodec} {root tag : String} {record : ThreadTagRecord}

theorem taggedContent_put (codec : DatetimeCodec) (h : ValidTag root tag) (record? : Option ThreadTagRecord) :
    taggedContent (putThreadTagState codec root tag record?) =
      some (root, tag, record?.elim [] (threadTagRecordContent codec)) := by
  have hpair := parseThreadTagStateKey_canonical h
  unfold taggedContent putThreadTagState
  dsimp only
  rw [if_neg (fun hne => hne rfl), hpair]
  rfl

/-- A valid record is read from its content. -/
theorem parseThreadTagRecord_content (h : ValidTag root tag) (hrecord : ValidRecord codec tag record)
    (hvalidate : codec.validate (codec.serialize record.setAt) = some record.setAt) :
    parseThreadTagRecord codec tag (threadTagRecordContent codec record) = some record := by
  have hsetBy : Fields.get? (threadTagRecordContent codec record) "set_by" = some (.str record.setBy) := by
    simp [threadTagRecordContent, Fields.get?_cons]
  have hsetAt : Fields.get? (threadTagRecordContent codec record) "set_at" =
      some (codec.serialize record.setAt) := by
    simp [threadTagRecordContent, Fields.get?_cons]
  have hnote : Fields.get? (threadTagRecordContent codec record) "note" = record.note.map .str := by
    cases hnote : record.note <;> simp [threadTagRecordContent, Fields.get?_cons, hnote]
    rfl
  have hdata : Fields.get? (threadTagRecordContent codec record) "data" = some (.dict record.data) := by
    cases hnote : record.note <;> simp [threadTagRecordContent, Fields.get?_cons, hnote]
  have hnormalNote : normalizeNote (record.note.map .str) = some record.note := by
    cases hsome : record.note with
    | none => rfl
    | some note =>
      change some (normalizeNonEmptyString (.str note)) = _
      rw [hrecord.note note hsome]
  have hmapping : normalizeObjectMapping (.dict record.data) = some record.data :=
    if_pos (isObjectMapping_of_normalizeTagData hrecord.data)
  have hnormalData : normalizeData (some (.dict record.data)) = some record.data := hmapping
  have hvalid : validateRecord codec (threadTagRecordContent codec record) = some record := by
    unfold validateRecord
    rw [hsetBy, hsetAt, hnote, hdata, hnormalNote, hnormalData]
    simp [hrecord.setBy, hvalidate, hrecord.setAt]
  unfold parseThreadTagRecord
  rw [h.tag, hvalid]
  simp [hrecord.data]

/-- A canonical event says nothing of other tags. -/
theorem not_clears_other (codec : DatetimeCodec) {event : StateEvent} (h : ValidTag root tag)
    (hkey : event.stateKey = .str (threadTagStateKey root tag)) {root' tag' : String}
    (hother : (root', tag') ≠ (root, tag)) : ¬ Clears event root' tag' ∧ recordFor codec event root' tag' = none := by
  have htagged : ∀ pair, taggedContent event = some pair → (pair.1, pair.2.1) = (root, tag) := by
    intro pair hpair
    unfold taggedContent at hpair
    rw [hkey, parseThreadTagStateKey_canonical h] at hpair
    split at hpair
    · split at hpair
      · cases hpair
      · cases hpair
        rfl
    · cases hpair
  constructor
  · intro hclears
    exact hother (htagged _ hclears)
  · unfold recordFor
    cases hpair : taggedContent event with
    | none => rfl
    | some pair =>
      have hsame := htagged pair hpair
      obtain ⟨root₀, tag₀, content⟩ := pair
      cases hsame
      exact if_neg fun hpair => hother (Prod.ext hpair.1.symm hpair.2.1.symm)

end

/-! ## Put and get -/

theorem lastRecord_eq_none {codec : DatetimeCodec} {events : List StateEvent} {root tag : String}
    (h : ∀ event ∈ events, recordFor codec event root tag = none) : lastRecord codec events root tag = none := by
  unfold lastRecord
  have hnil : (events.filterMap fun event => recordFor codec event root tag) = [] :=
    List.filterMap_eq_nil_iff.mpr h
  rw [hnil]
  rfl

section

variable {codec : DatetimeCodec} {roomId root tag : String} {record : ThreadTagRecord}
  {pre old post : List StateEvent}

/-- The room state with the canonical event of the tag where `old` was. -/
def putAt (codec : DatetimeCodec) (pre post : List StateEvent) (root tag : String) (record : Option ThreadTagRecord) :
    List StateEvent :=
  pre ++ putThreadTagState codec root tag record :: post

/-- After a put the tag has the record, after a removal it has none, and other tags are shown as before. -/
structure PutGet (codec : DatetimeCodec) (roomId root tag : String) (record : ThreadTagRecord)
    (pre old post : List StateEvent) : Prop where
  put : (getRoomThreadTagsSnapshot codec roomId (putAt codec pre post root tag (some record))).shown? root tag =
    some record
  remove : (getRoomThreadTagsSnapshot codec roomId (putAt codec pre post root tag none)).shown? root tag = none
  frame : ∀ written root' tag', (root', tag') ≠ (root, tag) →
    (getRoomThreadTagsSnapshot codec roomId (putAt codec pre post root tag written)).shown? root' tag' =
      (getRoomThreadTagsSnapshot codec roomId (pre ++ old ++ post)).shown? root' tag'

/-- No other event is read as the removal of the tag, and no later one as another record of it. -/
structure Unaliased (codec : DatetimeCodec) (root tag : String) (record : ThreadTagRecord)
    (pre post : List StateEvent) : Prop where
  cleared : ∀ event ∈ pre ++ post, ¬ Clears event root tag
  later : ∀ record' ∈ lastRecord codec post root tag, record' = record

/-- Other tags are shown as before, whatever is written. -/
theorem shown?_other (h : ValidTag root tag)
    (hold : ∀ event ∈ old, event.stateKey = .str (threadTagStateKey root tag)) (written : Option ThreadTagRecord)
    {root' tag' : String} (hother : (root', tag') ≠ (root, tag)) :
    (getRoomThreadTagsSnapshot codec roomId (putAt codec pre post root tag written)).shown? root' tag' =
      (getRoomThreadTagsSnapshot codec roomId (pre ++ old ++ post)).shown? root' tag' := by
  have hkey : (putThreadTagState codec root tag written).stateKey = .str (threadTagStateKey root tag) := rfl
  have hnew := not_clears_other codec h hkey hother
  have hclears : (∃ event ∈ putAt codec pre post root tag written, Clears event root' tag') ↔
      ∃ event ∈ pre ++ old ++ post, Clears event root' tag' := by
    have hnot : ∀ event ∈ old, ¬ Clears event root' tag' := fun event hmem =>
      (not_clears_other codec h (hold event hmem) hother).1
    unfold putAt
    simp only [List.mem_append, List.mem_cons, or_and_right, exists_or, exists_eq_left]
    constructor
    · rintro (hpre | hput | hpost)
      · exact .inl (.inl hpre)
      · exact absurd hput hnew.1
      · exact .inr hpost
    · rintro ((hpre | ⟨event, hmem, hevent⟩) | hpost)
      · exact .inl hpre
      · exact absurd hevent (hnot event hmem)
      · exact .inr (.inr hpost)
  have hlast : lastRecord codec (putAt codec pre post root tag written) root' tag' =
      lastRecord codec (pre ++ old ++ post) root' tag' := by
    have hold' : lastRecord codec old root' tag' = none :=
      lastRecord_eq_none fun event hmem => (not_clears_other codec h (hold event hmem) hother).2
    have hput : lastRecord codec [putThreadTagState codec root tag written] root' tag' = none := by
      rw [lastRecord_singleton, hnew.2]
    unfold putAt
    rw [← List.singleton_append, lastRecord_append, lastRecord_append, hput, List.append_assoc, lastRecord_append,
      lastRecord_append, hold']
  by_cases hgone : ∃ event ∈ pre ++ old ++ post, Clears event root' tag'
  · rw [shown?_of_clears hgone, shown?_of_clears (hclears.mpr hgone)]
  · rw [shown?_of_not_clears hgone, shown?_of_not_clears (fun h => hgone (hclears.mp h)), hlast]

/-- A written tag shows the record exactly if nothing else is read as the tag. -/
theorem shown?_put (h : ValidTag root tag) (hrecord : ValidRecord codec tag record)
    (hvalidate : codec.validate (codec.serialize record.setAt) = some record.setAt) :
    (getRoomThreadTagsSnapshot codec roomId (putAt codec pre post root tag (some record))).shown? root tag =
      some record ↔ Unaliased codec root tag record pre post := by
  have htagged := taggedContent_put codec h (some record)
  have hnew : ¬ Clears (putThreadTagState codec root tag (some record)) root tag := by
    intro hclears
    have hnil := htagged.symm.trans hclears
    cases hnil
  have hput : recordFor codec (putThreadTagState codec root tag (some record)) root tag = some record := by
    unfold recordFor
    rw [htagged]
    dsimp only [Option.elim]
    rw [if_pos ⟨rfl, rfl, fun hnil => by cases hnil⟩]
    exact parseThreadTagRecord_content h hrecord hvalidate
  have hlast : lastRecord codec (putAt codec pre post root tag (some record)) root tag =
      (lastRecord codec post root tag).or (some record) := by
    unfold putAt
    rw [← List.singleton_append, lastRecord_append, lastRecord_append, lastRecord_singleton, hput]
    cases lastRecord codec post root tag <;> rfl
  have hclears : (∃ event ∈ putAt codec pre post root tag (some record), Clears event root tag) ↔
      ∃ event ∈ pre ++ post, Clears event root tag := by
    unfold putAt
    simp only [List.mem_append, List.mem_cons, or_and_right, exists_or, exists_eq_left, hnew, false_or]
  constructor
  · intro hshown
    have hkept : ¬ ∃ event ∈ pre ++ post, Clears event root tag := by
      intro hgone
      rw [shown?_of_clears (hclears.mpr hgone)] at hshown
      cases hshown
    rw [shown?_of_not_clears (fun hgone => hkept (hclears.mp hgone)), hlast] at hshown
    refine ⟨fun event hmem hevent => hkept ⟨event, hmem, hevent⟩, ?_⟩
    intro record' hlater
    rw [Option.mem_def.mp hlater] at hshown
    exact Option.some.inj hshown
  · rintro ⟨hcleared, hlater⟩
    have hkept : ¬ ∃ event ∈ putAt codec pre post root tag (some record), Clears event root tag := by
      intro hgone
      obtain ⟨event, hmem, hevent⟩ := hclears.mp hgone
      exact hcleared event hmem hevent
    rw [shown?_of_not_clears hkept, hlast]
    cases hpost : lastRecord codec post root tag with
    | none => rfl
    | some record' => rw [hlater record' hpost, Option.some_or]

/-- A removed tag is absent. -/
theorem shown?_remove (h : ValidTag root tag) :
    (getRoomThreadTagsSnapshot codec roomId (putAt codec pre post root tag none)).shown? root tag = none := by
  apply shown?_of_clears
  refine ⟨putThreadTagState codec root tag none, ?_, taggedContent_put codec h none⟩
  unfold putAt
  simp

/-- Thread tags obey put and get exactly where no other state key is read as the tag. -/
theorem putGet_iff_unaliased (h : ValidTag root tag) (hrecord : ValidRecord codec tag record)
    (hvalidate : codec.validate (codec.serialize record.setAt) = some record.setAt)
    (hold : ∀ event ∈ old, event.stateKey = .str (threadTagStateKey root tag)) :
    PutGet codec roomId root tag record pre old post ↔ Unaliased codec root tag record pre post := by
  constructor
  · intro hlaw
    exact (shown?_put h hrecord hvalidate).mp hlaw.put
  · intro hunaliased
    exact ⟨(shown?_put h hrecord hvalidate).mpr hunaliased, shown?_remove h,
      fun written root' tag' hother => shown?_other h hold written hother⟩

/-! ### A key with a blank -/

/-- Midnight of the first day of a year, as a codec of this one time writes it. -/
def newYear : Datetime := { clock := 1767225600000000, utcOffset := some 0 }

def newYearCodec : DatetimeCodec where
  fromisoformat text := if text = "2026-01-01T00:00:00+00:00" then some newYear else none
  isoformat _ := "2026-01-01T00:00:00+00:00"
  validate
    | .str text => if text = "2026-01-01T00:00:00Z" then some newYear else none
    | _ => none
  serialize _ := .str "2026-01-01T00:00:00Z"

def resolvedRecord : ThreadTagRecord where
  setBy := "@user:x"
  setAt := newYear
  note := none
  data := []

/-- The removal of the tag by a client that puts a blank behind the comma. -/
def spacedRemoval : StateEvent where
  type := .str threadTagsEventType
  stateKey := .str "[\"$t\", \"resolved\"]"
  content := .dict []

theorem validTag_resolved : ValidTag "$t" "resolved" := ⟨by decide +kernel, by decide +kernel⟩

theorem validRecord_resolved : ValidRecord newYearCodec "resolved" resolvedRecord where
  setBy := by decide +kernel
  setAt := rfl
  note := fun _ hnote => by cases hnote
  data := rfl

/-- A room without other keys keeps what is put. -/
theorem putGet_resolved : Unaliased newYearCodec "$t" "resolved" resolvedRecord [] [] ∧
    PutGet newYearCodec "!r" "$t" "resolved" resolvedRecord [] [] [] := by
  have hunaliased : Unaliased newYearCodec "$t" "resolved" resolvedRecord [] [] := by
    constructor
    · intro event hmem
      cases hmem
    · intro record' hlater
      cases hlater
  exact ⟨hunaliased, (putGet_iff_unaliased validTag_resolved validRecord_resolved rfl
    (fun event hmem => by cases hmem)).mpr hunaliased⟩

/-- A tag that was once removed under another text of its key stays hidden after it is set. -/
theorem not_putGet_spaced : ValidTag "$t" "resolved" ∧ ValidRecord newYearCodec "resolved" resolvedRecord ∧
    ((putAt newYearCodec [spacedRemoval] [] "$t" "resolved" (some resolvedRecord)).map
      fun event => (event.type, event.stateKey)).Nodup ∧
    ¬ PutGet newYearCodec "!r" "$t" "resolved" resolvedRecord [spacedRemoval] [] [] := by
  have hpair : parseThreadTagStateKey spacedRemoval.stateKey = some ("$t", "resolved") := by decide +kernel
  have hclears : Clears spacedRemoval "$t" "resolved" := by
    unfold Clears taggedContent
    rw [hpair]
    rfl
  have hkey : spacedRemoval.stateKey ≠ .str (threadTagStateKey "$t" "resolved") := by
    intro hsame
    injection hsame with htext
    exact absurd htext (by decide +kernel)
  refine ⟨validTag_resolved, validRecord_resolved, ?_, ?_⟩
  · simpa [putAt, putThreadTagState] using fun _ => hkey
  · intro hlaw
    have hshown := hlaw.put
    rw [shown?_of_clears ⟨spacedRemoval, by simp [putAt], hclears⟩] at hshown
    cases hshown

end

end MindRoom.ThreadTags
