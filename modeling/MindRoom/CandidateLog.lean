import MindRoom.CandidateCheckpoint
import MindRoom.Systems

/-! # The candidate log recovers what was written

Every line of the journal parses to the entry it was written for, and a line that a crash cut
short parses to nothing. So loading applies exactly the entries that were written completely, as
long as no append starts on a line that was cut.
-/

namespace MindRoom

open JsonText

/-! ## What an entry does -/

structure CandidateMaps.Same (m m' : CandidateMaps) : Prop where
  completed : ∀ path, m.completed.value? path = m'.completed.value? path
  failed : ∀ path, m.failed.value? path = m'.failed.value? path

/-- No file is both completed and failed. -/
def CandidateMaps.Disjoint (m : CandidateMaps) : Prop :=
  ∀ path, m.completed.value? path = none ∨ m.failed.value? path = none

def JournalUpdate.completed? : JournalUpdate → Option FileSignature
  | .completed signature => some signature
  | _ => none

def JournalUpdate.failed? : JournalUpdate → Option CandidateFailure
  | .failed failure => some failure
  | _ => none

def JournalEntry.apply (entry : JournalEntry) (maps : CandidateMaps) : CandidateMaps :=
  match entry.update with
  | .completed signature =>
    { completed := maps.completed.set entry.path signature, failed := maps.failed.pop entry.path }
  | .failed failure =>
    { completed := maps.completed.pop entry.path, failed := maps.failed.set entry.path failure }
  | .removed => { completed := maps.completed.pop entry.path, failed := maps.failed.pop entry.path }

def replay (log : List JournalEntry) (maps : CandidateMaps) : CandidateMaps :=
  log.foldl (fun maps entry => entry.apply maps) maps

def lastUpdate (log : List JournalEntry) (path : String) : Option JournalUpdate :=
  log.foldl (fun last entry => if entry.path = path then some entry.update else last) none

section

variable {entry : JournalEntry} {log : List JournalEntry} {maps m m' m'' : CandidateMaps} {path : String}

theorem CandidateMaps.Same.refl (m : CandidateMaps) : m.Same m := ⟨fun _ => rfl, fun _ => rfl⟩

theorem CandidateMaps.Same.symm (h : m.Same m') : m'.Same m :=
  ⟨fun path => (h.completed path).symm, fun path => (h.failed path).symm⟩

theorem CandidateMaps.Same.trans (h : m.Same m') (h' : m'.Same m'') : m.Same m'' :=
  ⟨fun path => (h.completed path).trans (h'.completed path), fun path => (h.failed path).trans (h'.failed path)⟩

theorem CandidateMaps.Disjoint.congr (h : m.Disjoint) (hs : m.Same m') : m'.Disjoint := by
  intro path
  rw [← hs.completed, ← hs.failed]
  exact h path

theorem completed_apply : (entry.apply maps).completed.value? path =
    if entry.path = path then entry.update.completed? else maps.completed.value? path := by
  unfold JournalEntry.apply
  cases entry.update <;> simp [JournalUpdate.completed?, eq_comm]

theorem failed_apply : (entry.apply maps).failed.value? path =
    if entry.path = path then entry.update.failed? else maps.failed.value? path := by
  unfold JournalEntry.apply
  cases entry.update <;> simp [JournalUpdate.failed?, eq_comm]

theorem replay_append (log log' : List JournalEntry) : replay (log ++ log') maps = replay log' (replay log maps) :=
  List.foldl_append

theorem lastUpdate_concat : lastUpdate (log ++ [entry]) path =
    if entry.path = path then some entry.update else lastUpdate log path := by
  simp [lastUpdate, List.foldl_append]

/-- After a log a file is what the log last says of it, or what it was. -/
theorem completed_replay (log : List JournalEntry) : (replay log maps).completed.value? path =
    (lastUpdate log path).elim (maps.completed.value? path) (·.completed?) := by
  induction log using List.reverseRecOn with
  | nil => rfl
  | append_singleton log entry ih =>
    rw [replay_append, lastUpdate_concat]
    show (entry.apply (replay log maps)).completed.value? path = _
    rw [completed_apply, ih]
    split <;> rfl

theorem failed_replay (log : List JournalEntry) : (replay log maps).failed.value? path =
    (lastUpdate log path).elim (maps.failed.value? path) (·.failed?) := by
  induction log using List.reverseRecOn with
  | nil => rfl
  | append_singleton log entry ih =>
    rw [replay_append, lastUpdate_concat]
    show (entry.apply (replay log maps)).failed.value? path = _
    rw [failed_apply, ih]
    split <;> rfl

theorem CandidateMaps.Same.replay (h : m.Same m') (log : List JournalEntry) :
    (replay log m).Same (MindRoom.replay log m') where
  completed path := by rw [completed_replay, completed_replay, h.completed]
  failed path := by rw [failed_replay, failed_replay, h.failed]

/-- No update leaves a file both completed and failed. -/
theorem CandidateMaps.Disjoint.replay (h : maps.Disjoint) (log : List JournalEntry) :
    (MindRoom.replay log maps).Disjoint := by
  intro path
  rw [completed_replay, failed_replay]
  cases lastUpdate log path with
  | none => exact h path
  | some update =>
    cases update with
    | completed signature => exact .inr rfl
    | failed failure => exact .inl rfl
    | removed => exact .inl rfl

end

/-! ## One line -/

section

variable (signature : FileSignature) (failure : CandidateFailure) (entry : JournalEntry)

@[simp] theorem sorted_optionalText (text : Option String) : sorted (optionalText text) = optionalText text := by
  cases text <;> rfl

@[simp] theorem sorted_signature : sorted signature.json = signature.json := by
  simp [FileSignature.json, sorted, sortedItems]

theorem optionalStrOf_optionalText {text : Option String} (h : text ≠ some "") :
    optionalStrOf (some (optionalText text)) = text := by
  cases text with
  | none => rfl
  | some text => exact optionalStr_of_ne h

@[simp] theorem parseSignature_json : parseSignature (some signature.json) = some signature := by
  have hne := signature.digest_ne
  simp [parseSignature, FileSignature.json, hne]

@[simp] theorem parseFailure_json : parseFailure (some (sorted failure.json)) = some failure := by
  have hkeys : ([("attempts", .num failure.attempts), ("last_error", optionalText failure.lastError),
      ("last_attempt_at", optionalText failure.lastAttemptAt)].map
        fun member : String × Json => member.1).Nodup := by simp
  have hattempts := get?_sorted hkeys "attempts"
  have herror := get?_sorted hkeys "last_error"
  have hattempt := get?_sorted hkeys "last_attempt_at"
  rw [CandidateFailure.json, sorted, parseFailure, hattempts]
  refine (if_pos (Int.natCast_nonneg _)).trans (congrArg some (CandidateFailure.ext ?_ ?_ ?_))
  · exact Int.toNat_natCast _
  · refine (congrArg optionalStrOf herror).trans ?_
    show optionalStrOf (some (sorted (optionalText failure.lastError))) = _
    rw [sorted_optionalText, optionalStrOf_optionalText failure.lastError_ne]
  · refine (congrArg optionalStrOf hattempt).trans ?_
    show optionalStrOf (some (sorted (optionalText failure.lastAttemptAt))) = _
    rw [sorted_optionalText, optionalStrOf_optionalText failure.lastAttemptAt_ne]

/-- An entry is applied as what it was written for. -/
theorem applyJournalEntry_payload (maps : CandidateMaps) :
    applyJournalEntry (Dict.sortKeys (sortedMembers entry.payload)) maps = entry.apply maps := by
  have hkeys : (entry.payload.map (·.1)).Nodup := by
    unfold JournalEntry.payload
    cases entry.update <;> simp
  have hget := get?_sorted hkeys
  have hpath : Dict.nonempty? (Dict.sortKeys (sortedMembers entry.payload)) "path" = some entry.path := by
    have hget : Dict.get? entry.payload "path" = some (.str entry.path) := by
      unfold JournalEntry.payload
      cases entry.update <;> rfl
    rw [Dict.nonempty?, Dict.str?, get?_sorted hkeys, hget]
    exact if_neg entry.path_ne
  unfold applyJournalEntry
  rw [hpath]
  dsimp only
  rw [hget "removed", hget "signature", hget "failure"]
  unfold JournalEntry.payload JournalEntry.apply
  cases entry.update with
  | completed signature =>
    show (if none = some (Json.bool true) then _ else _) = _
    have hsignature : parseSignature (some (sorted signature.json)) = some signature := by
      rw [sorted_signature, parseSignature_json]
    rw [if_neg (by simp)]
    erw [hsignature]
  | failed failure =>
    show (if none = some (Json.bool true) then _ else _) = _
    rw [if_neg (by simp)]
    erw [@parseFailure_json failure]
    rfl
  | removed => rfl

theorem proper_optionalText (text : Option String) : Proper (optionalText text) := by
  cases text <;> trivial

theorem proper_payload : Proper (.obj entry.payload) := by
  unfold JournalEntry.payload
  cases entry.update with
  | completed signature => simp [Proper, ProperMembers, ProperItems, FileSignature.json]
  | failed failure =>
    simp [Proper, ProperMembers, CandidateFailure.json, proper_optionalText]
  | removed => simp [Proper, ProperMembers]

theorem loads_line : loads entry.line = some (.obj (Dict.sortKeys (sortedMembers entry.payload))) :=
  loads_dumps (proper_sorted _ (proper_payload entry))

/-- A line that is cut short does not parse. -/
theorem loads_torn {text cut : List Char} (h : text ++ cut = entry.line) (hcut : cut ≠ []) : loads text = none :=
  loads_cut (proper_sorted _ (proper_payload entry)) h hcut

end

/-! ## Lines -/

theorem not_isLineBreak {c : Char} (h : IsPrintable c) : isLineBreak c = false ∧ c ≠ '\r' := by
  rcases h with ⟨hlow, hhigh⟩
  constructor
  · by_contra hbreak
    simp only [isLineBreak, List.contains_eq_mem, List.mem_cons, List.not_mem_nil, or_false,
      Bool.not_eq_false, decide_eq_true_eq] at hbreak
    rcases hbreak with rfl | rfl | rfl | rfl | rfl | rfl | rfl | rfl | rfl | rfl <;>
      revert hlow hhigh <;> decide
  · rintro rfl
    revert hlow
    decide

theorem splitlinesFrom_cons {c : Char} (hc : IsPrintable c) (line rest : List Char) :
    splitlinesFrom line (c :: rest) = splitlinesFrom (line ++ [c]) rest := by
  rcases not_isLineBreak hc with ⟨hbreak, hreturn⟩
  rw [splitlinesFrom]
  · rw [hbreak]
    rfl
  · rintro rest' rfl
    exact absurd rfl hreturn

theorem splitlinesFrom_append {text : List Char} (htext : ∀ c ∈ text, IsPrintable c) (line rest : List Char) :
    splitlinesFrom line (text ++ rest) = splitlinesFrom (line ++ text) rest := by
  induction text generalizing line with
  | nil => simp
  | cons c text ih =>
    rw [List.cons_append, splitlinesFrom_cons (htext c List.mem_cons_self),
      ih (fun d hd => htext d (List.mem_cons_of_mem _ hd)), List.append_assoc]
    rfl

theorem splitlines_newline {line : List Char} (hline : ∀ c ∈ line, IsPrintable c) (rest : List Char) :
    splitlines (line ++ '\n' :: rest) = line :: splitlines rest := by
  rw [splitlines, splitlinesFrom_append hline, List.nil_append, splitlinesFrom]
  · rfl
  · rintro rest' h
    cases h

theorem splitlines_last {line : List Char} (hline : ∀ c ∈ line, IsPrintable c) (hne : line ≠ []) :
    splitlines line = [line] := by
  have happend := splitlinesFrom_append hline [] []
  rw [List.append_nil, List.nil_append] at happend
  rw [splitlines, happend, splitlinesFrom, if_neg hne]

theorem dropWhile_cons_of_neg {p : Char → Bool} {c : Char} {rest : List Char} (hc : p c = false) :
    (c :: rest).dropWhile p = c :: rest := by
  rw [List.dropWhile_cons, hc]
  rfl

/-- Stripping a text that starts with no blank cuts it at its end at most. -/
theorem strip_cons_eq {c : Char} {rest : List Char} (hc : inRanges spaceRanges c = false) :
    ∃ trailing, strip (String.ofList (c :: rest)) ++ trailing = c :: rest := by
  have hstrip : strip (String.ofList (c :: rest)) =
      ((c :: rest).reverse.dropWhile (inRanges spaceRanges)).reverse := by
    rw [strip, String.toList_ofList, dropWhile_cons_of_neg hc]
  have hsplit := List.takeWhile_append_dropWhile (p := inRanges spaceRanges) (l := (c :: rest).reverse)
  refine ⟨((c :: rest).reverse.takeWhile (inRanges spaceRanges)).reverse, ?_⟩
  rw [hstrip, ← List.reverse_append, hsplit, List.reverse_reverse]

theorem strip_of_ends {text init rest : List Char} {c d : Char} (hhead : text = c :: rest)
    (hlast : text = init ++ [d]) (hc : inRanges spaceRanges c = false) (hd : inRanges spaceRanges d = false) :
    strip (String.ofList text) = text := by
  have hreverse : text.reverse = d :: init.reverse := by
    rw [hlast]
    simp
  rw [strip, String.toList_ofList]
  conv_lhs => rw [hhead, dropWhile_cons_of_neg hc, ← hhead, hreverse, dropWhile_cons_of_neg hd, ← hreverse]
  exact List.reverse_reverse text

section

variable (entry : JournalEntry)

theorem line_head : ∃ rest, entry.line = '\x7b' :: rest := dumps_obj_head _

theorem isPrintable_line : ∀ c ∈ entry.line, IsPrintable c := isPrintable_dumps _

/-- What the journal holds of an entry that was written completely. -/
theorem lineEntry_line : lineEntry entry.line = some (Dict.sortKeys (sortedMembers entry.payload)) := by
  rcases line_head entry with ⟨rest, hhead⟩
  rcases dumps_obj_last (Dict.sortKeys (sortedMembers entry.payload)) with ⟨init, hlast⟩
  have hstrip : strip (String.ofList entry.line) = entry.line :=
    strip_of_ends hhead hlast (by decide +kernel) (by decide +kernel)
  unfold lineEntry
  rw [hstrip]
  split
  · next hnil =>
    rw [hhead] at hnil
    cases hnil
  · rw [loads_line]

/-- A line that is cut short holds no entry. -/
theorem lineEntry_torn {text cut : List Char} (h : text ++ cut = entry.line) (hcut : cut ≠ []) :
    lineEntry text = none := by
  cases text with
  | nil => rfl
  | cons c rest =>
    rcases line_head entry with ⟨whole, hhead⟩
    obtain rfl : c = '\x7b' := by
      rw [hhead] at h
      exact (List.cons.inj h).1
    rcases @strip_cons_eq '\x7b' rest (by decide +kernel) with ⟨trailing, hstrip⟩
    have htorn : loads (strip (String.ofList ('\x7b' :: rest))) = none := by
      refine @loads_torn entry _ (trailing ++ cut) ?_ ?_
      · rw [← List.append_assoc, hstrip, h]
      · simp [hcut]
    unfold lineEntry
    split
    · rfl
    · rw [htorn]

end

/-! ## The snapshot -/

section

variable {d d' : List (String × String)}

theorem fromMetadata_perm (hd : (d.map (·.1)).Nodup) (hperm : d.Perm d') :
    IndexingSettings.fromMetadata d' = IndexingSettings.fromMetadata d := by
  have hkeys : ∀ name, name ∈ d'.map (·.1) ↔ name ∈ d.map (·.1) := fun name => (hperm.map _).mem_iff.symm
  have hlookup : ∀ name, d'.lookup name = d.lookup name := fun name => lookup_perm hd hperm
  simp only [IndexingSettings.fromMetadata, hkeys, hlookup]

end

theorem nodup_toMetadata (settings : IndexingSettings) : (settings.toMetadata.map (·.1)).Nodup := by
  have hkeys : settings.toMetadata.map (·.1) =
      ["base_id", "storage_root", "knowledge_path", "mode", "embedder_provider", "embedder_model", "embedder_host",
        "embedder_dimensions", "chunk_size", "chunk_overlap", "repo_identity", "git_branch", "git_lfs",
        "git_skip_hidden", "git_include_patterns", "git_exclude_patterns", "include_patterns", "exclude_patterns",
        "include_extensions", "exclude_extensions", "extra_extensions", "skip_hidden",
        "require_content_before_publish"] := rfl
  rw [hkeys]
  decide +kernel

theorem fromMetadata_toMetadata (settings : IndexingSettings) :
    IndexingSettings.fromMetadata settings.toMetadata = some settings.normalized := by
  have hmode : KnowledgeBaseMode.ofValue settings.mode.value = some settings.mode := by
    cases settings.mode <;> rfl
  unfold IndexingSettings.fromMetadata
  rw [if_pos (by simp [IndexingSettings.toMetadata, IndexingSettings.requiredKeys, IndexingSettings.optionalKeys])]
  show (KnowledgeBaseMode.ofValue settings.mode.value).map _ = _
  rw [hmode]
  rfl

theorem sortedMembers_strings (items : List (String × String)) :
    sortedMembers (items.map fun item => (item.1, .str item.2)) = items.map fun item => (item.1, .str item.2) := by
  rw [sortedMembers_eq_map, List.map_map]
  rfl

theorem stringItems_strings {members : Dict} (h : ∀ member ∈ members, ∃ text, member.2 = .str text) :
    stringItems members = some (members.map fun member => (member.1, strOf (some member.2))) := by
  induction members with
  | nil => rfl
  | cons member members ih =>
    rcases member with ⟨k, v⟩
    rcases h (k, v) List.mem_cons_self with ⟨text, htext⟩
    obtain rfl : v = .str text := htext
    have hrest := ih fun member hmember => h member (List.mem_cons_of_mem _ hmember)
    unfold stringItems at hrest ⊢
    rw [List.mapM_cons, hrest]
    rfl

/-- The settings of a snapshot are read back, with the current spelling of empty filters. -/
theorem parseSettings_toMetadata (settings : IndexingSettings) :
    parseSettings (some (sorted (.obj (settings.toMetadata.map fun item => (item.1, .str item.2))))) =
      some settings.normalized := by
  have hperm := perm_sortKeys (settings.toMetadata.map fun item => (item.1, Json.str item.2))
  rw [sorted, sortedMembers_strings, parseSettings]
  generalize Dict.sortKeys (settings.toMetadata.map fun item => (item.1, Json.str item.2)) = members at hperm
  have hstrings : ∀ member ∈ members, ∃ text, member.2 = .str text := by
    intro member hmember
    rcases List.mem_map.mp (hperm.mem_iff.mp hmember) with ⟨item, -, rfl⟩
    exact ⟨item.2, rfl⟩
  have hback := hperm.map fun member => (member.1, strOf (some member.2))
  rw [List.map_map] at hback
  have hsame : settings.toMetadata.map ((fun member => (member.1, strOf (some member.2))) ∘
      fun item => (item.1, Json.str item.2)) = settings.toMetadata := List.map_id _
  rw [hsame] at hback
  rw [stringItems_strings hstrings, Option.bind_some,
    fromMetadata_perm (nodup_toMetadata settings) hback.symm, fromMetadata_toMetadata]

section

variable {α : Type} {parse : Option Json → Option α} {members : Dict} {k : String}

theorem value?_setParsed {member : String × Json} {m : Mapping String α} : (setParsed parse m member).value? k =
      if member.1 = k then (parse (some member.2)).or (m.value? k) else m.value? k := by
  unfold setParsed
  cases parse (some member.2) with
  | none => simp
  | some a =>
    rw [Mapping.value?_set]
    split <;> rfl

theorem value?_parsed (hmembers : (members.map (·.1)).Nodup) (m : Mapping String α) :
    (members.foldl (setParsed parse) m).value? k =
      ((members.lookup k).bind fun value => parse (some value)).or (m.value? k) := by
  induction members generalizing m with
  | nil => rfl
  | cons member members ih =>
    rw [List.map_cons, List.nodup_cons] at hmembers
    rw [List.foldl_cons, ih hmembers.2, value?_setParsed, List.lookup_cons]
    by_cases hk : member.1 = k
    · subst hk
      rw [lookup_of_not_mem hmembers.1, beq_self_eq_true, if_pos rfl]
      rfl
    · have hne : (k == member.1) = false := by simpa using Ne.symm hk
      rw [hne, if_neg hk]

theorem value?_parseItemsBy (hmembers : (members.map (·.1)).Nodup) :
    (parseItemsBy parse (some (.obj members))).value? k =
      (members.lookup k).bind fun value => parse (some value) := by
  rw [parseItemsBy, value?_parsed hmembers, Mapping.value?_empty, Option.or_none]

/-- A map is read back from its object. -/
theorem value?_parseItemsBy_rows {json : α → Json} (hjson : ∀ a, parse (some (sorted (json a))) = some a)
    (m : Mapping String α) :
    (parseItemsBy parse (some (sorted (.obj (m.rows.map fun item => (item.key, json item.value)))))).value? k =
      m.value? k := by
  have hkeys : ((m.rows.map fun item => (item.key, json item.value)).map (·.1)).Nodup := by
    rw [List.map_map]
    exact m.primaryKey
  have hsorted : ((sortedMembers (m.rows.map fun item => (item.key, json item.value))).map (·.1)).Nodup := by
    rw [keys_sortedMembers]
    exact hkeys
  have hget := get?_sorted hkeys k
  rw [Dict.get?] at hget
  rw [sorted, value?_parseItemsBy (((perm_sortKeys _).map _).nodup_iff.mpr hsorted), hget, Dict.get?]
  cases hvalue : m.value? k with
  | none =>
    have habsent : k ∉ (m.rows.map fun item => (item.key, json item.value)).map (·.1) := by
      rw [List.map_map]
      intro hk
      rcases Mapping.mem_keys.mp hk with ⟨a, ha⟩
      rw [hvalue] at ha
      cases ha
    rw [lookup_of_not_mem habsent]
    rfl
  | some a =>
    have hthere : (m.rows.map fun item => (item.key, json item.value)).lookup k = some (json a) := by
      rw [lookup_eq_some hkeys]
      exact List.mem_map_of_mem (Mapping.value?_eq_some.mp hvalue)
    rw [hthere]
    exact hjson a

end

theorem proper_rows {α : Type} {json : α → Json} (hjson : ∀ a, Proper (json a)) (m : Mapping String α) :
    Proper (.obj (m.rows.map fun item => (item.key, json item.value))) := by
  constructor
  · rw [List.map_map]
    exact m.primaryKey
  · rw [properMembers_iff]
    intro member hmember
    rcases List.mem_map.mp hmember with ⟨item, -, rfl⟩
    exact hjson item.value

theorem nodup_snapshotPayload (checkpoint : CandidateCheckpoint) : ((snapshotPayload checkpoint).map (·.1)).Nodup := by
  have hnames : (snapshotPayload checkpoint).map (·.1) = ["schema_version", "collection", "status", "settings",
      "target_revision", "total_files", "completed", "failed", "created_at", "updated_at"] := rfl
  rw [hnames]
  decide +kernel

theorem proper_snapshotPayload (checkpoint : CandidateCheckpoint) : Proper (.obj (snapshotPayload checkpoint)) := by
  have hsettings : Proper (.obj (checkpoint.settings.toMetadata.map fun item => (item.1, .str item.2))) := by
    constructor
    · rw [List.map_map]
      exact nodup_toMetadata checkpoint.settings
    · rw [properMembers_iff]
      intro member hmember
      rcases List.mem_map.mp hmember with ⟨item, -, rfl⟩
      trivial
  have hcompleted := @proper_rows _ FileSignature.json
    (fun signature => by simp [FileSignature.json, Proper, ProperItems]) checkpoint.maps.completed
  have hfailed := @proper_rows _ CandidateFailure.json
    (fun failure => by simp [CandidateFailure.json, Proper, ProperMembers, proper_optionalText])
    checkpoint.maps.failed
  refine ⟨nodup_snapshotPayload checkpoint, trivial, trivial, trivial, hsettings,
    proper_optionalText _, trivial, hcompleted, hfailed, trivial, trivial, trivial⟩

theorem loads_snapshotText (checkpoint : CandidateCheckpoint) : loads (snapshotText checkpoint) =
    some (.obj (Dict.sortKeys (sortedMembers (snapshotPayload checkpoint)))) := by
  rw [snapshotText, loads_dumps (proper_sorted _ (proper_snapshotPayload checkpoint)), sorted]

/-- A snapshot is read back, up to the spelling of its settings and the order of its maps. -/
theorem parseSnapshot_payload (checkpoint : CandidateCheckpoint) :
    ∃ parsed, parseSnapshot (Dict.sortKeys (sortedMembers (snapshotPayload checkpoint))) = some parsed ∧
      parsed.collection = checkpoint.collection ∧ parsed.settings = checkpoint.settings.normalized ∧
      parsed.maps.Same checkpoint.maps := by
  have hget := get?_sorted (nodup_snapshotPayload checkpoint)
  generalize Dict.sortKeys (sortedMembers (snapshotPayload checkpoint)) = payload at *
  have hversion : Dict.get? payload "schema_version" = some (.num candidateCheckpointSchemaVersion) :=
    (hget "schema_version").trans rfl
  have hcollection : Dict.get? payload "collection" = some (.str checkpoint.collection) :=
    (hget "collection").trans rfl
  have hstatus : Dict.get? payload "status" = some (.str checkpoint.status.value) := (hget "status").trans rfl
  have hsettings := (congrArg parseSettings (hget "settings")).trans (parseSettings_toMetadata checkpoint.settings)
  have hcompleted : ∀ path, (parseItemsBy parseSignature (some (sorted (.obj (checkpoint.maps.completed.rows.map
      fun item => (item.key, item.value.json)))))).value? path = checkpoint.maps.completed.value? path := fun path =>
    value?_parseItemsBy_rows (fun signature => by rw [sorted_signature, parseSignature_json]) _
  have hfailed : ∀ path, (parseItemsBy parseFailure (some (sorted (.obj (checkpoint.maps.failed.rows.map
      fun item => (item.key, item.value.json)))))).value? path = checkpoint.maps.failed.value? path := fun path =>
    value?_parseItemsBy_rows parseFailure_json _
  have hknown : checkpoint.status.value = "building" ∨ checkpoint.status.value = "failed" := by
    cases checkpoint.status
    · exact .inl rfl
    · exact .inr rfl
  unfold parseSnapshot
  rw [if_pos hversion, hcollection, hstatus, hsettings]
  refine ⟨_, (dif_pos checkpoint.collection_ne).trans (if_pos hknown), rfl, rfl, ?_, ?_⟩
  · intro path
    show (parseItemsBy parseSignature (Dict.get? payload "completed")).value? path = _
    rw [hget "completed"]
    exact hcompleted path
  · intro path
    show (parseItemsBy parseFailure (Dict.get? payload "failed")).value? path = _
    rw [hget "failed"]
    exact hfailed path

/-! ## The journal -/

def JournalEntry.members (entry : JournalEntry) : Dict := Dict.sortKeys (sortedMembers entry.payload)

/-- The entries of an append whose line is among the first characters it writes. -/
def writtenEntries : List JournalEntry → Nat → List JournalEntry
  | [], _ => []
  | entry :: entries, n =>
    if entry.line.length ≤ n then entry :: writtenEntries entries (n - (entry.line.length + 1)) else []

/-- The text is that of the entries, but for the end of its last line. -/
def Holds (text : List Char) (log : List JournalEntry) : Prop :=
  ∃ whole tail, text = journalText whole ++ tail ∧
    ((tail = [] ∧ log = whole) ∨
      ∃ entry cut, tail ++ cut = JournalEntry.line entry ∧
        ((cut = [] ∧ log = whole ++ [entry]) ∨ (cut ≠ [] ∧ log = whole)))

def AtLineStart (text : List Char) : Prop := text = [] ∨ text.getLast? = some '\n'

instance (text : List Char) : Decidable (AtLineStart text) := by
  unfold AtLineStart
  infer_instance

section

variable {entry : JournalEntry} {entries log log' : List JournalEntry} {text tail : List Char}

theorem journalText_cons : journalText (entry :: entries) = entry.line ++ '\n' :: journalText entries := by
  simp [journalText]

theorem journalText_append : journalText (log ++ log') = journalText log ++ journalText log' :=
  List.flatMap_append

theorem line_length_pos (entry : JournalEntry) : 0 < entry.line.length := by
  rcases line_head entry with ⟨rest, hhead⟩
  rw [hhead]
  exact Nat.succ_pos _

theorem journalEntries_text (entries : List JournalEntry) (tail : List Char) :
    journalEntries (journalText entries ++ tail) = entries.map JournalEntry.members ++ journalEntries tail := by
  induction entries with
  | nil => rfl
  | cons entry entries ih =>
    rw [journalText_cons, List.append_assoc, List.cons_append, journalEntries,
      splitlines_newline (isPrintable_line entry), List.filterMap_cons, lineEntry_line, List.map_cons,
      List.cons_append, ← ih]
    rfl

theorem journalEntries_last (hne : tail ≠ []) (hprintable : ∀ c ∈ tail, IsPrintable c) :
    journalEntries tail = (lineEntry tail).toList := by
  rw [journalEntries, splitlines_last hprintable hne]
  cases hentry : lineEntry tail with
  | none => rw [List.filterMap_cons_none hentry]; rfl
  | some members => rw [List.filterMap_cons_some hentry]; rfl

/-- The reader finds exactly the entries that were written completely. -/
theorem Holds.read (h : Holds text log) : journalEntries text = log.map JournalEntry.members := by
  rcases h with ⟨whole, tail, rfl, htail⟩
  rw [journalEntries_text]
  rcases htail with ⟨rfl, rfl⟩ | ⟨entry, cut, hline, hlast⟩
  · exact List.append_nil _
  have hprintable : ∀ c ∈ tail, IsPrintable c := by
    intro c hc
    apply isPrintable_line entry
    rw [← hline]
    exact List.mem_append_left _ hc
  rcases hlast with ⟨rfl, rfl⟩ | ⟨hcut, rfl⟩
  · rw [List.append_nil] at hline
    have hne : tail ≠ [] := by
      have hpos := line_length_pos entry
      rw [← hline] at hpos
      exact List.length_pos_iff.mp hpos
    rw [journalEntries_last hne hprintable, hline, lineEntry_line, List.map_append]
    rfl
  · rcases eq_or_ne tail [] with rfl | hne
    · exact List.append_nil _
    · rw [journalEntries_last hne hprintable, lineEntry_torn entry hline hcut]
      exact List.append_nil _

theorem Holds.whole (log : List JournalEntry) : Holds (journalText log) log :=
  ⟨log, [], (List.append_nil _).symm, .inl ⟨rfl, rfl⟩⟩

theorem Holds.after (h : Holds text log') (log : List JournalEntry) :
    Holds (journalText log ++ text) (log ++ log') := by
  rcases h with ⟨whole, tail, rfl, htail⟩
  refine ⟨log ++ whole, tail, by rw [journalText_append, List.append_assoc], ?_⟩
  rcases htail with ⟨rfl, rfl⟩ | ⟨entry, cut, hline, hlast⟩
  · exact .inl ⟨rfl, rfl⟩
  · refine .inr ⟨entry, cut, hline, ?_⟩
    rcases hlast with ⟨hcut, rfl⟩ | ⟨hcut, rfl⟩
    · exact .inl ⟨hcut, (List.append_assoc ..).symm⟩
    · exact .inr ⟨hcut, rfl⟩

/-- What a crash leaves of an append holds the entries whose lines are complete. -/
theorem holds_take (entries : List JournalEntry) (n : Nat) :
    Holds ((journalText entries).take n) (writtenEntries entries n) := by
  induction entries generalizing n with
  | nil => exact ⟨[], [], by simp [journalText], .inl ⟨rfl, rfl⟩⟩
  | cons entry entries ih =>
    rw [journalText_cons, writtenEntries]
    split
    · next hlength =>
      rcases Nat.eq_or_lt_of_le hlength with heq | hlt
      · -- only the newline is missing
        have hzero : n - (entry.line.length + 1) = 0 := by omega
        have hnone : writtenEntries entries 0 = [] := by
          cases entries with
          | nil => rfl
          | cons next entries =>
            have hpos := line_length_pos next
            rw [writtenEntries, if_neg (by omega)]
        rw [hzero, hnone, List.take_append_of_le_length heq.ge, List.take_of_length_le heq.le]
        exact ⟨[], entry.line, rfl, .inr ⟨entry, [], List.append_nil _, .inl ⟨rfl, rfl⟩⟩⟩
      · have hrest := (ih (n - (entry.line.length + 1))).after [entry]
        have hsplit : (entry.line ++ '\n' :: journalText entries).take n =
            journalText [entry] ++ (journalText entries).take (n - (entry.line.length + 1)) := by
          rw [List.take_append, List.take_of_length_le hlength]
          obtain ⟨k, hk⟩ : ∃ k, n - entry.line.length = k + 1 := ⟨n - entry.line.length - 1, by omega⟩
          have hk' : n - (entry.line.length + 1) = k := by omega
          rw [hk, hk', List.take_succ_cons]
          simp [journalText]
        rw [hsplit]
        exact hrest
    · next hlength =>
      have hcut : entry.line.drop n ≠ [] := by
        intro hnil
        have hle := List.drop_eq_nil_iff.mp hnil
        omega
      rw [List.take_append_of_le_length (by omega)]
      exact ⟨[], entry.line.take n, rfl, .inr ⟨entry, entry.line.drop n, List.take_append_drop _ _, .inr ⟨hcut, rfl⟩⟩⟩

/-- A text that ends where a line may start holds whole lines only. -/
theorem Holds.atLineStart (h : Holds text log) (hstart : AtLineStart text) : text = journalText log := by
  rcases h with ⟨whole, tail, rfl, htail⟩
  rcases htail with ⟨rfl, rfl⟩ | ⟨entry, cut, hline, hlast⟩
  · exact List.append_nil _
  rcases List.eq_nil_or_concat tail with rfl | ⟨init, c, rfl⟩
  · rcases hlast with ⟨rfl, rfl⟩ | ⟨-, rfl⟩
    · have hpos := line_length_pos entry
      rw [← hline] at hpos
      exact absurd hpos (lt_irrefl 0)
    · exact List.append_nil _
  · -- the last character is one of a line, and no newline
    have hc : IsPrintable c := by
      apply isPrintable_line entry
      rw [← hline]
      simp
    rcases hstart with hnil | hnewline
    · simp at hnil
    · rw [List.concat_eq_append, ← List.append_assoc, List.getLast?_concat] at hnewline
      cases hnewline
      exact absurd hc (by decide)

end

end MindRoom
