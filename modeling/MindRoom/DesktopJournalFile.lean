import MindRoom.DesktopProtocol

/-! # The file of the desktop command journal

`_persist` writes one JSON document with the members of every object in order, and `load` checks
everything it reads: the document of a payload loads exactly when the payload does, and as the same
journal.
-/

namespace MindRoom

open JsonText

namespace DesktopCommandJournal

/-! ## Writing -/

def entryContent (entry : Mapping.Item String DesktopCommandJournalEntry) : Dict :=
  [("request_id", .str entry.key), ("command_fingerprint", .str entry.value.commandFingerprint),
    ("response", (entry.value.response.map fun response => Json.obj response.toContent).getD .null)]

def sequenceContent (record : Mapping.Item String Int) : Dict :=
  [("session_id", .str record.key), ("sequence", .num record.value)]

def document (payload : DesktopJournalPayload) : Dict :=
  [("v", .num payload.v), ("entries", .arr (payload.entries.map fun entry => .obj (entryContent entry))),
    ("sequence_high_watermarks", .arr (payload.sequenceHighWatermarks.map fun record => .obj (sequenceContent record)))]

/-- What the file holds: `sort_keys=True`. -/
def fileContent (payload : DesktopJournalPayload) : Json := sorted (.obj (document payload))

/-! ## Loading -/

/-- One round of `_load_entries`. -/
def readEntry (entries : Mapping String DesktopCommandJournalEntry) (raw : Json) :
    Except DesktopJournalError (Mapping.Item String DesktopCommandJournalEntry) :=
  match raw with
  | .obj entry =>
    match Dict.str? entry "request_id", Dict.str? entry "command_fingerprint" with
    | some requestId, some fingerprint =>
      if ¬ IsIdentifier requestId ∨ ¬ IsFingerprint fingerprint ∨ (entries.value? requestId).isSome then
        .error .malformed
      else
        match DesktopResponse.present entry "response" with
        | none => .ok ⟨requestId, fingerprint, none⟩
        | some raw =>
          match DesktopResponse.fromContent raw with
          | .error _ => .error .malformed
          | .ok response =>
            if response.requestId ≠ requestId then .error .malformed
            else .ok ⟨requestId, fingerprint, some response⟩
    | _, _ => .error .malformed
  | _ => .error .malformed

/-- `_load_entries`, from the document. -/
def readEntries (entries : Mapping String DesktopCommandJournalEntry) :
    List Json → Except DesktopJournalError (Mapping String DesktopCommandJournalEntry)
  | [] => .ok entries
  | raw :: rest => do
      let entry ← readEntry entries raw
      readEntries (entries.set entry.key entry.value) rest

/-- One round of `_load_sequences`. -/
def readSequence (sequences : Mapping String Int) (raw : Json) :
    Except DesktopJournalError (Mapping.Item String Int) :=
  match raw with
  | .obj record =>
    match Dict.str? record "session_id", Dict.num? record "sequence" with
    | some sessionId, some sequence =>
      if ¬ IsIdentifier sessionId ∨ sequence < 0 ∨ (sequences.value? sessionId).isSome then
        .error .malformed
      else .ok ⟨sessionId, sequence⟩
    | _, _ => .error .malformed
  | _ => .error .malformed

/-- `_load_sequences`, from the document. -/
def readSequences (sequences : Mapping String Int) :
    List Json → Except DesktopJournalError (Mapping String Int)
  | [] => .ok sequences
  | raw :: rest => do
      let record ← readSequence sequences raw
      readSequences (sequences.set record.key record.value) rest

/-- `_load_payload`, from the document. A true version counts as 1. -/
def loadDocument (raw : Json) : Except DesktopJournalError DesktopCommandJournal :=
  match raw with
  | .obj payload =>
    if Dict.get? payload "v" ≠ some (.num 1) ∧ Dict.get? payload "v" ≠ some (.bool true) then
      .error .malformed
    else
      match Dict.get? payload "entries", Dict.get? payload "sequence_high_watermarks" with
      | some (.arr rawEntries), some (.arr rawSequences) =>
        if rawEntries.length > maxReplayResponses ∨ rawSequences.length > maxTrackedSessions then
          .error .malformed
        else do
          let entries ← readEntries ∅ rawEntries
          let sequences ← readSequences ∅ rawSequences
          .ok ⟨entries, sequences⟩
      | _, _ => .error .malformed
  | _ => .error .malformed

/-! ## Loading what was written -/

/-- The entry with the members of its result in order. -/
def canonicalEntry (entry : DesktopCommandJournalEntry) : DesktopCommandJournalEntry :=
  { entry with response := entry.response.map (·.canonical) }

def canonicalEntries (entries : Mapping String DesktopCommandJournalEntry) :
    Mapping String DesktopCommandJournalEntry :=
  entries.mapValues fun _ entry => canonicalEntry entry

/-- The journal with the members of every result in order: the same entries, as mappings compare. -/
def canonical (journal : DesktopCommandJournal) : DesktopCommandJournal :=
  { journal with entries := canonicalEntries journal.entries }

/-- `_load_entries` refuses the entry. -/
def Refused (entries : Mapping String DesktopCommandJournalEntry)
    (entry : Mapping.Item String DesktopCommandJournalEntry) : Prop :=
  ¬ IsIdentifier entry.key ∨ ¬ IsFingerprint entry.value.commandFingerprint ∨
    (entries.value? entry.key).isSome ∨
      ∃ response ∈ entry.value.response, ¬ response.Accepted ∨ response.requestId ≠ entry.key

theorem keys_entryContent (entry : Mapping.Item String DesktopCommandJournalEntry) :
    ((entryContent entry).map (·.1)).Nodup := by
  show ["request_id", "command_fingerprint", "response"].Nodup
  decide

theorem present_response (entry : Mapping.Item String DesktopCommandJournalEntry) :
    DesktopResponse.present (Dict.sortKeys (sortedMembers (entryContent entry))) "response" =
      entry.value.response.map fun response => sorted (.obj response.toContent) := by
  rw [DesktopResponse.present_sorted (keys_entryContent entry)]
  unfold entryContent DesktopResponse.present
  cases entry.value.response <;> rfl

variable {entries : Mapping String DesktopCommandJournalEntry}

theorem isSome_canonicalEntries {k : String} :
    ((canonicalEntries entries).value? k).isSome = (entries.value? k).isSome := by
  rw [canonicalEntries, Mapping.value?_mapValues, Option.isSome_map]

/-- A written entry is read back unless it is refused. -/
theorem readEntry_content
    {entry read : Mapping.Item String DesktopCommandJournalEntry} :
    readEntry (canonicalEntries entries) (sorted (.obj (entryContent entry))) = .ok read ↔
      read = ⟨entry.key, canonicalEntry entry.value⟩ ∧ ¬ Refused entries entry := by
  have hkey : Dict.str? (Dict.sortKeys (sortedMembers (entryContent entry))) "request_id" =
    some entry.key := str?_sorted (keys_entryContent entry) "request_id"
  have hfingerprint : Dict.str? (Dict.sortKeys (sortedMembers (entryContent entry)))
    "command_fingerprint" = some entry.value.commandFingerprint :=
      str?_sorted (keys_entryContent entry) "command_fingerprint"
  unfold readEntry Refused
  rw [sorted]
  simp only [hkey, hfingerprint, present_response, isSome_canonicalEntries]
  split
  · next hbad =>
    constructor
    · rintro ⟨⟩
    · rintro ⟨-, hok⟩
      exact absurd (by tauto) hok
  · next hgood =>
    cases hresponse : entry.value.response with
    | none =>
      simp only [Option.map_none, canonicalEntry, hresponse, Except.ok.injEq]
      constructor
      · rintro rfl
        refine ⟨rfl, ?_⟩
        rintro (h | h | h | ⟨response, hmem, -⟩)
        · exact hgood (.inl h)
        · exact hgood (.inr (.inl h))
        · exact hgood (.inr (.inr h))
        · cases hmem
      · rintro ⟨rfl, -⟩
        rfl
    | some response =>
      simp only [Option.map_some, canonicalEntry, hresponse]
      cases hread : DesktopResponse.fromContent (sorted (.obj response.toContent)) with
      | error text =>
        -- the parser refuses what the journal does not accept, and nothing else
        constructor
        · rintro ⟨⟩
        · rintro ⟨-, hok⟩
          refine absurd (.inr (.inr (.inr ⟨response, rfl, .inl fun haccepted => ?_⟩))) hok
          rw [DesktopResponse.fromContent_sorted.mpr ⟨rfl, haccepted⟩] at hread
          cases hread
      | ok loaded =>
        rcases DesktopResponse.fromContent_sorted.mp hread with ⟨rfl, haccepted⟩
        dsimp only
        split
        · next hother =>
          constructor
          · rintro ⟨⟩
          · rintro ⟨-, hok⟩
            exact absurd (.inr (.inr (.inr ⟨response, rfl, .inr hother⟩))) hok
        · next hsame =>
          rw [Except.ok.injEq]
          constructor
          · rintro rfl
            refine ⟨rfl, ?_⟩
            rintro (h | h | h | ⟨response', hmem, h | h⟩)
            · exact hgood (.inl h)
            · exact hgood (.inr (.inl h))
            · exact hgood (.inr (.inr h))
            · cases hmem
              exact h haccepted
            · cases hmem
              exact hsame h
          · rintro ⟨rfl, -⟩
            rfl

theorem canonicalEntries_set {k : String} {v : DesktopCommandJournalEntry} (h : entries.value? k = none) :
    canonicalEntries (entries.set k v) = (canonicalEntries entries).set k (canonicalEntry v) := by
  have h' : (canonicalEntries entries).value? k = none := by
    rw [canonicalEntries, Mapping.value?_mapValues, h]
    rfl
  refine eq_of_rows ?_
  rw [Mapping.rows_set_of_absent h']
  show (entries.set k v).rows.map _ = entries.rows.map _ ++ _
  rw [Mapping.rows_set_of_absent h, List.map_append]
  rfl

theorem loadEntries_cons {entries loaded : Mapping String DesktopCommandJournalEntry}
    {entry : Mapping.Item String DesktopCommandJournalEntry}
    {rest : List (Mapping.Item String DesktopCommandJournalEntry)} : loadEntries entries (entry :: rest) = .ok loaded ↔
      ¬ Refused entries entry ∧ loadEntries (entries.set entry.key entry.value) rest = .ok loaded := by
  rw [loadEntries]
  split
  · next h =>
    constructor
    · rintro ⟨⟩
    · exact fun hok => absurd h hok.1
  · next h => exact ⟨fun hok => ⟨h, hok⟩, And.right⟩

theorem readEntries_content {rows : List (Mapping.Item String DesktopCommandJournalEntry)}
    {entries read : Mapping String DesktopCommandJournalEntry} :
    readEntries (canonicalEntries entries) (rows.map fun entry => sorted (.obj (entryContent entry))) =
        .ok read ↔ ∃ loaded, loadEntries entries rows = .ok loaded ∧ read = canonicalEntries loaded := by
  induction rows generalizing entries with
  | nil =>
    rw [List.map_nil, readEntries, loadEntries, Except.ok.injEq]
    simp only [Except.ok.injEq, exists_eq_left']
    exact eq_comm
  | cons entry rest ih =>
    rw [List.map_cons, readEntries, Transaction.except_bind_eq_ok]
    simp only [loadEntries_cons]
    constructor
    · rintro ⟨item, hitem, hrest⟩
      rcases readEntry_content.mp hitem with ⟨rfl, hok⟩
      have habsent : entries.value? entry.key = none := by
        by_contra hsome
        exact hok (.inr (.inr (.inl (Option.isSome_iff_ne_none.mpr hsome))))
      dsimp only at hrest
      rw [← canonicalEntries_set habsent, ih] at hrest
      rcases hrest with ⟨loaded, hloaded, hread⟩
      exact ⟨loaded, ⟨hok, hloaded⟩, hread⟩
    · rintro ⟨loaded, ⟨hok, hloaded⟩, hread⟩
      have habsent : entries.value? entry.key = none := by
        by_contra hsome
        exact hok (.inr (.inr (.inl (Option.isSome_iff_ne_none.mpr hsome))))
      refine ⟨_, readEntry_content.mpr ⟨rfl, hok⟩, ?_⟩
      dsimp only
      rw [← canonicalEntries_set habsent, ih]
      exact ⟨loaded, hloaded, hread⟩

theorem readSequences_content {rows : List (Mapping.Item String Int)} {sequences : Mapping String Int} :
    readSequences sequences (rows.map fun record => sorted (.obj (sequenceContent record))) =
      loadSequences sequences rows := by
  induction rows generalizing sequences with
  | nil => rfl
  | cons record rest ih =>
    have hkeys : ((sequenceContent record).map (·.1)).Nodup := by
      show ["session_id", "sequence"].Nodup
      decide
    have hsession : Dict.str? (Dict.sortKeys (sortedMembers (sequenceContent record))) "session_id" =
      some record.key := str?_sorted hkeys "session_id"
    have hsequence : Dict.num? (Dict.sortKeys (sortedMembers (sequenceContent record))) "sequence" =
      some record.value := num?_sorted hkeys "sequence"
    rw [List.map_cons, readSequences, loadSequences, sorted]
    simp only [readSequence, hsession, hsequence]
    split
    · rfl
    · exact ih

/-- The document of a payload loads when the payload does, as the same journal. -/
theorem loadDocument_fileContent {payload : DesktopJournalPayload} {loaded : DesktopCommandJournal} :
    loadDocument (fileContent payload) = .ok loaded ↔
      ∃ journal, load (some payload) = .ok journal ∧ loaded = journal.canonical := by
  have hkeys : ((document payload).map (·.1)).Nodup := by
    show ["v", "entries", "sequence_high_watermarks"].Nodup
    decide
  have hversion : Dict.get? (Dict.sortKeys (sortedMembers (document payload))) "v" =
    some (.num payload.v) := get?_sorted hkeys "v"
  have hentries : Dict.get? (Dict.sortKeys (sortedMembers (document payload))) "entries" =
      some (.arr (payload.entries.map fun entry => sorted (.obj (entryContent entry)))) := by
    refine (get?_sorted hkeys "entries").trans ?_
    show some (Json.arr (sortedItems (payload.entries.map _))) = _
    rw [sortedItems_eq_map, List.map_map]
    rfl
  have hsequences : Dict.get? (Dict.sortKeys (sortedMembers (document payload))) "sequence_high_watermarks" =
      some (.arr (payload.sequenceHighWatermarks.map fun record => sorted (.obj (sequenceContent record)))) := by
    refine (get?_sorted hkeys "sequence_high_watermarks").trans ?_
    show some (Json.arr (sortedItems (payload.sequenceHighWatermarks.map _))) = _
    rw [sortedItems_eq_map, List.map_map]
    rfl
  rw [fileContent, sorted, loadDocument]
  simp only [hversion, hentries, hsequences, List.length_map]
  show _ ↔ ∃ journal, loadPayload payload = .ok journal ∧ _
  unfold loadPayload
  by_cases hv : payload.v = 1
  · rw [if_neg (fun h => h.1 (by rw [hv]))]
    by_cases hbounds : payload.entries.length > maxReplayResponses ∨
        payload.sequenceHighWatermarks.length > maxTrackedSessions
    · rw [if_pos hbounds, if_pos (.inr hbounds)]
      simp
    · rw [if_neg hbounds, if_neg (by tauto)]
      have hread := @readEntries_content payload.entries ∅
      simp only [Transaction.except_bind_eq_ok, readSequences_content]
      constructor
      · rintro ⟨_, hloaded, sequences, hsequences, h⟩
        rcases hread.mp hloaded with ⟨entries, hentries, rfl⟩
        exact ⟨⟨entries, sequences⟩, ⟨entries, hentries, sequences, hsequences, rfl⟩, (Except.ok.inj h).symm⟩
      · rintro ⟨_, ⟨entries, hentries, sequences, hsequences, h⟩, rfl⟩
        cases h
        exact ⟨_, hread.mpr ⟨entries, hentries, rfl⟩, sequences, hsequences, rfl⟩
  · rw [if_pos ⟨by simpa using hv, by simp⟩, if_pos (.inl hv)]
    simp

end DesktopCommandJournal

end MindRoom
