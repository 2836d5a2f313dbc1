import MindRoom.FirstMentions
import MindRoom.WorkflowRunner

/-! # Normalised workflow specs

What a check has accepted and normalised it accepts again and leaves alone. Each check gets one lemma
about what it accepts; that its result is accepted again follows from what it has written and from the
keys it has not touched.
-/

namespace MindRoom.DynamicWorkflow

open Transaction (except_bind_eq_ok)

/-! ## Fields -/

variable {step step' : Fields} {context : String} {permissions permissions' : Fields}
variable {participant participant' : Fields} {stepIds : List String} {names : List String} {data : Fields}
variable {checked : Checked} {index : Nat} {spec : Fields}

theorem requiredText_eq_ok {key context value : String} : requiredText data key context = .ok value ↔
      ∃ raw, Fields.get? data key = some (.str raw) ∧ strip raw ≠ [] ∧ value = stripped raw := by
  unfold requiredText
  split
  · next hnone => simp [hnone]
  · next raw hraw =>
    split
    · next hempty => simp [hraw, hempty]
    · next hne =>
      constructor
      · intro h
        exact ⟨raw, hraw, hne, (Except.ok.inj h).symm⟩
      · rintro ⟨raw', hraw', _, rfl⟩
        rw [hraw] at hraw'
        cases hraw'
        rfl
  · next v hstr hv =>
    constructor
    · intro h
      cases h
    · rintro ⟨raw, hraw, _⟩
      exact absurd (Option.mem_unique hv hraw) (hstr raw)

theorem trimmed_of_requiredText {key context value : String}
    (h : requiredText data key context = .ok value) : Trimmed value := by
  rcases requiredText_eq_ok.mp h with ⟨raw, _, hne, rfl⟩
  exact trimmed_stripped hne

/-- A text that is trimmed is read as it is. -/
theorem requiredText_of_trimmed {key value : String} (context : String)
    (hget : Fields.get? data key = some (.str value)) (hvalue : Trimmed value) :
    requiredText data key context = .ok value :=
  requiredText_eq_ok.mpr ⟨value, hget, hvalue.nonempty, hvalue.fixed.symm⟩

theorem isSome_of_requiredText {key context value : String}
    (h : requiredText data key context = .ok value) : (Fields.get? data key).isSome := by
  rcases requiredText_eq_ok.mp h with ⟨raw, hraw, _⟩
  rw [hraw]
  rfl

theorem rejectUnsupportedFields_eq_ok {allowed : List String} {u : Unit} :
    rejectUnsupportedFields data allowed context = .ok u ↔ ∀ k ∈ data.map (·.1), k ∈ allowed := by
  rw [← Fields.unsupported_eq_nil]
  unfold rejectUnsupportedFields
  split
  · next hnil => exact ⟨fun _ => hnil, fun _ => rfl⟩
  · next field rest hcons =>
    rw [hcons]
    constructor
    · intro h
      cases h
    · intro h
      cases h

/-- A supported field may be written. -/
theorem rejectUnsupportedFields_set {allowed : List String} {context key : String} {value : Value}
    (h : rejectUnsupportedFields data allowed context = .ok ()) (hkey : key ∈ allowed) :
    rejectUnsupportedFields (Fields.set data key value) allowed context = .ok () := by
  rw [rejectUnsupportedFields_eq_ok] at h ⊢
  intro k hk
  rcases Fields.mem_keys_set.mp hk with rfl | hk
  · exact hkey
  · exact h k hk

theorem validateId_eq_ok {value fieldName : String} {u : Unit} :
    validateId value fieldName = .ok u ↔ idMatches value = true := by
  unfold validateId
  split
  · next h => exact ⟨fun _ => h, fun _ => rfl⟩
  · next h =>
    constructor
    · intro hok
      cases hok
    · intro hid
      exact absurd hid h

theorem validateEntryId_eq_ok {entry : Fields} {context label id : String} {ids : List String} :
    validateEntryId entry context label ids = .ok id ↔
      requiredText entry "id" context = .ok id ∧ idMatches id = true ∧ id ∉ ids := by
  unfold validateEntryId
  rw [except_bind_eq_ok]
  constructor
  · rintro ⟨found, hfound, h⟩
    rcases except_bind_eq_ok.mp h with ⟨_, hid, h⟩
    split at h
    · cases h
    next hnew =>
    cases h
    exact ⟨hfound, validateId_eq_ok.mp hid, hnew⟩
  · rintro ⟨htext, hid, hnew⟩
    refine ⟨id, htext, ?_⟩
    rw [except_bind_eq_ok]
    refine ⟨(), validateId_eq_ok.mpr hid, ?_⟩
    rw [if_neg hnew]
    rfl

/-- An entry with an id that was found in one like it has that id found again. -/
theorem validateEntryId_again {entry entry' : Fields} {context label id : String} {ids : List String}
    (h : validateEntryId entry context label ids = .ok id) (hget : Fields.get? entry' "id" = some (.str id)) :
    validateEntryId entry' context label ids = .ok id := by
  rw [validateEntryId_eq_ok] at h ⊢
  exact ⟨requiredText_of_trimmed context hget (trimmed_of_requiredText h.1), h.2⟩

/-! ## Lists of texts -/

theorem textEntries_ok {msg : String} {entries : List Value}
    (h : textEntries msg entries = .ok names) : entries = names.map .str ∧ ∀ name ∈ names, strip name ≠ [] := by
  induction entries generalizing names with
  | nil =>
    cases h
    simp
  | cons entry entries ih =>
    cases entry with
    | str text =>
      rw [textEntries] at h
      split at h
      · cases h
      next htext =>
      rcases except_bind_eq_ok.mp h with ⟨rest, hrest, h⟩
      cases h
      rcases ih hrest with ⟨rfl, hnames⟩
      exact ⟨rfl, List.forall_mem_cons.mpr ⟨htext, hnames⟩⟩
    | _ => cases h

theorem textEntries_map_str {msg : String} (h : ∀ name ∈ names, strip name ≠ []) :
    textEntries msg (names.map .str) = .ok names := by
  induction names with
  | nil => rfl
  | cons name names ih =>
    rw [List.forall_mem_cons] at h
    rw [List.map_cons, textEntries, if_neg h.1, ih h.2]
    rfl

theorem map_stripped_of_trimmed (h : ∀ name ∈ names, Trimmed name) : names.map stripped = names := by
  rw [List.map_congr_left fun name hname => (h name hname).fixed, List.map_id']

/-- The tool names that are found are found again where they are listed. -/
theorem normalizedToolNames_again {raw : Option Value} (h : normalizedToolNames raw context = .ok names) :
    normalizedToolNames (some (textList names)) context = .ok names := by
  have hnames : names.Nodup ∧ ∀ name ∈ names, Trimmed name := by
    unfold normalizedToolNames at h
    split at h
    · cases h
      simp
    · cases h
      simp
    · next tools =>
      rcases except_bind_eq_ok.mp h with ⟨entries, hentries, h⟩
      cases h
      refine ⟨FirstMentions.adds_unless_mem.nodup_foldl List.nodup_nil, ?_⟩
      intro name hmem
      rcases FirstMentions.adds_unless_mem.mem_foldl.mp hmem with hnil | ⟨hmem, -⟩
      · cases hnil
      rcases List.mem_map.mp hmem with ⟨entry, hentry, rfl⟩
      exact trimmed_stripped ((textEntries_ok hentries).2 entry hentry)
    · cases h
  unfold normalizedToolNames textList
  dsimp only
  rw [textEntries_map_str fun name hname => (hnames.2 name hname).nonempty]
  have hkept : firstMentions names = names :=
    FirstMentions.adds_unless_mem.foldl_of_nodup hnames.1 fun _ _ hskip => hskip
  rw [except_bind_eq_ok]
  refine ⟨names, rfl, ?_⟩
  rw [map_stripped_of_trimmed hnames.2, hkept]
  rfl

/-! ## Participants -/

theorem trimmed_ephemeralAgent : Trimmed "ephemeral_agent" where
  nonempty := by decide +kernel
  fixed := by decide +kernel

theorem validateRoomAgentParticipant_again
    (h : validateRoomAgentParticipant participant context = .ok participant') :
    (∀ key, key ≠ "agent" → Fields.get? participant' key = Fields.get? participant key) ∧
      validateRoomAgentParticipant participant' context = .ok participant' := by
  unfold validateRoomAgentParticipant at h
  simp only [except_bind_eq_ok] at h
  rcases h with ⟨_, hreject, agentName, hagent, _, hmodel, _, htools, h⟩
  cases h
  have hget : Fields.get? (Fields.set participant "agent" (.str agentName)) "agent" = some (.str agentName) := by simp
  constructor
  · intro key hkey
    rw [Fields.get?_set, if_neg (Ne.symm hkey)]
  · unfold validateRoomAgentParticipant
    simp only [except_bind_eq_ok]
    refine ⟨(), rejectUnsupportedFields_set hreject (by decide), agentName,
      requiredText_of_trimmed context hget (trimmed_of_requiredText hagent), (), ?_, (), ?_, ?_⟩
    · simpa [rejectRoomAgentModel] using hmodel
    · simpa [rejectRoomAgentTools] using htools
    · rw [Fields.set_self hget]
      rfl

theorem normalizeParticipantModel_again
    (h : normalizeParticipantModel participant context = .ok participant') :
    (∀ key, key ≠ "model" → Fields.get? participant' key = Fields.get? participant key) ∧
      (∀ allowed context', "model" ∈ allowed → rejectUnsupportedFields participant allowed context' = .ok () →
        rejectUnsupportedFields participant' allowed context' = .ok ()) ∧
      normalizeParticipantModel participant' context = .ok participant' := by
  unfold normalizeParticipantModel at h
  split at h
  · next hnone =>
    cases h
    exact ⟨fun _ _ => rfl, fun _ _ _ hreject => hreject, by rw [normalizeParticipantModel, hnone]; rfl⟩
  · next hnone =>
    cases h
    exact ⟨fun _ _ => rfl, fun _ _ _ hreject => hreject, by rw [normalizeParticipantModel, hnone]; rfl⟩
  · rcases except_bind_eq_ok.mp h with ⟨model, hmodel, h⟩
    cases h
    have hget : Fields.get? (Fields.set participant "model" (.str model)) "model" = some (.str model) := by simp
    refine ⟨?_, ?_, ?_⟩
    · intro key hkey
      rw [Fields.get?_set, if_neg (Ne.symm hkey)]
    · intro allowed context' hallowed hreject
      exact rejectUnsupportedFields_set hreject hallowed
    · unfold normalizeParticipantModel
      rw [hget]
      dsimp only
      rw [except_bind_eq_ok]
      refine ⟨model, requiredText_of_trimmed context hget (trimmed_of_requiredText hmodel), ?_⟩
      rw [Fields.set_self hget]
      rfl

theorem validateEphemeralAgentParticipant_again
    (h : validateEphemeralAgentParticipant participant context = .ok participant') :
    (∀ key, key ≠ "tools" → key ≠ "model" → Fields.get? participant' key = Fields.get? participant key) ∧
      validateEphemeralAgentParticipant participant' context = .ok participant' := by
  unfold validateEphemeralAgentParticipant at h
  simp only [except_bind_eq_ok] at h
  rcases h with ⟨_, hreject, toolNames, htools, modelled, hmodel, _, hinstructions, h⟩
  cases h
  rcases normalizeParticipantModel_again hmodel with ⟨hsame, hallowed, hagain⟩
  have hget : Fields.get? participant' "tools" = some (textList toolNames) := by
    rw [hsame "tools" (by decide)]
    simp
  constructor
  · intro key htoolsKey hmodelKey
    rw [hsame key hmodelKey, Fields.get?_set, if_neg (Ne.symm htoolsKey)]
  · unfold validateEphemeralAgentParticipant
    simp only [except_bind_eq_ok]
    refine ⟨(), hallowed _ context (by decide) (rejectUnsupportedFields_set hreject (by decide)), toolNames, ?_,
      participant', ?_, (), hinstructions, rfl⟩
    · rw [hget]
      exact normalizedToolNames_again htools
    · rw [Fields.set_self hget]
      exact hagain

theorem participantKind_eq_ok {participant : Fields} {context kind : String} :
    participantKind participant context = .ok kind ↔
      kind ∈ participantKinds ∧ statedKind participant context = .ok kind := by
  unfold participantKind
  rw [except_bind_eq_ok]
  constructor
  · rintro ⟨found, hfound, h⟩
    split at h
    · next hmem =>
      cases h
      exact ⟨hmem, hfound⟩
    · cases h
  · rintro ⟨hmem, hfound⟩
    refine ⟨kind, hfound, ?_⟩
    rw [if_pos hmem]
    rfl

theorem trimmed_of_participantKind {participant : Fields} {context kind : String}
    (h : participantKind participant context = .ok kind) : Trimmed kind := by
  have hkind := (participantKind_eq_ok.mp h).2
  unfold statedKind at hkind
  split at hkind
  · exact trimmed_of_requiredText hkind
  · cases hkind
    exact trimmed_ephemeralAgent

/-- A kind that is written out is found again. -/
theorem participantKind_again {context kind : String} (h : participantKind participant context = .ok kind)
    (hget : Fields.get? participant' "kind" = some (.str kind)) : participantKind participant' context = .ok kind := by
  rw [participantKind_eq_ok, statedKind, hget]
  exact ⟨(participantKind_eq_ok.mp h).1, requiredText_of_trimmed context hget (trimmed_of_participantKind h)⟩

theorem validateParticipantKind_again
    (h : validateParticipantKind participant context = .ok participant') :
    Fields.get? participant' "id" = Fields.get? participant "id" ∧
      validateParticipantKind participant' context = .ok participant' := by
  unfold validateParticipantKind at h
  rcases except_bind_eq_ok.mp h with ⟨kind, hkind, h⟩
  dsimp only at h
  have hmain : (∀ key ∈ ["id", "kind"], Fields.get? participant' key =
        Fields.get? (Fields.set participant "kind" (.str kind)) key) ∧
      (if kind = "room_agent" then validateRoomAgentParticipant participant' context
        else validateEphemeralAgentParticipant participant' context) = .ok participant' := by
    split at h
    · next hroom =>
      rcases validateRoomAgentParticipant_again h with ⟨hsame, hagain⟩
      rw [if_pos hroom]
      refine ⟨?_, hagain⟩
      intro key hkey
      apply hsame
      rintro rfl
      revert hkey
      decide
    · next hroom =>
      rcases validateEphemeralAgentParticipant_again h with ⟨hsame, hagain⟩
      rw [if_neg hroom]
      refine ⟨?_, hagain⟩
      intro key hkey
      apply hsame
      · rintro rfl
        revert hkey
        decide
      · rintro rfl
        revert hkey
        decide
  have hid := hmain.1 "id" (by decide)
  have hget := hmain.1 "kind" (by decide)
  rw [Fields.get?_set, if_neg (by decide)] at hid
  rw [Fields.get?_set, if_pos rfl] at hget
  refine ⟨hid, ?_⟩
  unfold validateParticipantKind
  rw [except_bind_eq_ok]
  refine ⟨kind, participantKind_again hkind hget, ?_⟩
  dsimp only
  rw [Fields.set_self hget]
  exact hmain.2

/-- What a participant is validated to is valid as it is, under an id that none before it has. -/
theorem validateParticipant_again {ids ids' : List String}
    (h : validateParticipant participant index ids = (.ok participant', ids')) :
    (∃ id, ids' = ids ++ [id] ∧ id ∉ ids ∧ Trimmed id ∧ Fields.get? participant' "id" = some (.str id)) ∧
      validateParticipant participant' index ids = (.ok participant', ids') := by
  unfold validateParticipant at h
  dsimp only at h
  split at h
  · cases h
  next id hid =>
  have hids : ids ++ [id] = ids' := congrArg Prod.snd h
  have hkind : validateParticipantKind (Fields.set participant "id" (.str id)) s!"Participant at index {index}" =
      .ok participant' := congrArg Prod.fst h
  rcases validateParticipantKind_again hkind with ⟨hsame, hagain⟩
  have hget : Fields.get? participant' "id" = some (.str id) := by
    rw [hsame]
    simp
  rw [validateEntryId_eq_ok] at hid
  refine ⟨⟨id, hids.symm, hid.2.2, trimmed_of_requiredText hid.1, hget⟩, ?_⟩
  unfold validateParticipant
  dsimp only
  rw [validateEntryId_again (validateEntryId_eq_ok.mpr hid) hget]
  dsimp only
  rw [Fields.set_self hget, hagain, hids]

/-- The entries that a list of participants is validated to are valid as they are. -/
theorem validateParticipants_again {participants : List Fields} {ids : List String}
    (h : (validateParticipants index ids participants).errors = []) :
    validateParticipants index ids (validateParticipants index ids participants).entries =
      validateParticipants index ids participants := by
  induction participants generalizing index ids with
  | nil => rfl
  | cons participant participants ih =>
    rw [validateParticipants] at h ⊢
    rcases hvalidated : validateParticipant participant index ids with ⟨validated, ids'⟩
    rw [hvalidated] at h
    cases validated with
    | error err => cases h
    | ok participant' =>
      dsimp only at h ⊢
      rw [validateParticipants, (validateParticipant_again hvalidated).2]
      dsimp only
      rw [ih h]

/-! ## Steps -/

theorem trimmed_agentStep : Trimmed "agent_step" where
  nonempty := by decide +kernel
  fixed := by decide +kernel

theorem stepType_ok {step : Fields} {context type : String} (h : stepType step context = .ok type) :
    type ∈ stepTypes ∧ Trimmed type := by
  unfold stepType at h
  split at h
  · cases h
    exact ⟨by decide, trimmed_agentStep⟩
  · next raw hraw =>
    split at h
    · cases h
    next hne =>
    split at h
    · next hmem =>
      cases h
      exact ⟨hmem, trimmed_stripped hne⟩
    · cases h
  · cases h

/-- A type that is written out is found again. -/
theorem stepType_again {context type : String} (h : stepType step context = .ok type)
    (hget : Fields.get? step' "type" = some (.str type)) : stepType step' context = .ok type := by
  rcases stepType_ok h with ⟨hmem, htrimmed⟩
  unfold stepType
  rw [hget]
  dsimp only
  rw [if_neg htrimmed.nonempty, htrimmed.fixed, if_pos hmem]
  rfl

/-- What a template field is validated to: the template is written back trimmed, and every step that has
it there is left as it is. -/
theorem validateTemplateField_ok {fieldName context : String}
    (h : validateTemplateField step fieldName context stepIds = .ok step') :
    ∃ template, step' = Fields.set step fieldName (.str template) ∧ (Fields.get? step fieldName).isSome ∧
      ∀ other, Fields.get? other fieldName = some (.str template) →
        validateTemplateField other fieldName context stepIds = .ok other := by
  unfold validateTemplateField at h
  simp only [except_bind_eq_ok] at h
  rcases h with ⟨template, htemplate, _, hreferences, h⟩
  cases h
  refine ⟨template, rfl, isSome_of_requiredText htemplate, ?_⟩
  intro other hother
  unfold validateTemplateField
  simp only [except_bind_eq_ok]
  refine ⟨template, requiredText_of_trimmed context hother (trimmed_of_requiredText htemplate), (), hreferences, ?_⟩
  rw [Fields.set_self hother]
  rfl

/-- Writing to a field that is there adds none. -/
theorem isSome_get?_set {step : Fields} {fieldName : String} {value : Value}
    (h : (Fields.get? step fieldName).isSome) (other : String) :
    (Fields.get? (Fields.set step fieldName value) other).isSome = (Fields.get? step other).isSome := by
  rw [Fields.get?_set]
  split
  · next heq =>
    rw [← heq, h]
    rfl
  · rfl

theorem validateTemplateField_again {fieldName context : String}
    (h : validateTemplateField step fieldName context stepIds = .ok step') :
    (∀ key, key ≠ fieldName → Fields.get? step' key = Fields.get? step key) ∧
      (∀ key, (Fields.get? step' key).isSome = (Fields.get? step key).isSome) ∧
      (∀ allowed context', fieldName ∈ allowed → rejectUnsupportedFields step allowed context' = .ok () →
        rejectUnsupportedFields step' allowed context' = .ok ()) ∧
      validateTemplateField step' fieldName context stepIds = .ok step' := by
  rcases validateTemplateField_ok h with ⟨template, rfl, hsome, hagain⟩
  refine ⟨?_, isSome_get?_set hsome, ?_, hagain _ (by simp)⟩
  · intro key hkey
    rw [Fields.get?_set, if_neg (Ne.symm hkey)]
  · intro allowed context' hmem hreject
    exact rejectUnsupportedFields_set hreject hmem

theorem validateTemplateChoice_again {fieldNames stepIds : List String}
    (h : validateTemplateChoice step context fieldNames stepIds = .ok step') :
    (∀ key, key ∉ fieldNames → Fields.get? step' key = Fields.get? step key) ∧
      (∀ allowed context', fieldNames ⊆ allowed → rejectUnsupportedFields step allowed context' = .ok () →
        rejectUnsupportedFields step' allowed context' = .ok ()) ∧
      validateTemplateChoice step' context fieldNames stepIds = .ok step' := by
  unfold validateTemplateChoice at h
  split at h
  · cases h
  · next fieldName honly =>
    have hmem : fieldName ∈ fieldNames := by
      have hfound : fieldName ∈ fieldNames.filter fun fieldName => (Fields.get? step fieldName).isSome := by
        rw [honly]
        exact List.mem_singleton_self fieldName
      exact (List.mem_filter.mp hfound).1
    rcases validateTemplateField_again h with ⟨hsame, hsome, hallowed, hagain⟩
    refine ⟨?_, ?_, ?_⟩
    · intro key hkey
      apply hsame
      rintro rfl
      exact hkey hmem
    · intro allowed context' hsub
      exact hallowed allowed context' (hsub hmem)
    · unfold validateTemplateChoice
      simp only [hsome, honly]
      exact hagain
  · cases h

theorem validateAgentStep_again {participantIds stepIds : List String}
    (h : validateAgentStep step context participantIds stepIds = .ok step') :
    (∀ key ∈ ["id", "type"], Fields.get? step' key = Fields.get? step key) ∧
      (∀ context', rejectUnsupportedFields step agentStepKeys context' = .ok () →
        rejectUnsupportedFields step' agentStepKeys context' = .ok ()) ∧
      validateAgentStep step' context participantIds stepIds = .ok step' := by
  unfold validateAgentStep at h
  rcases except_bind_eq_ok.mp h with ⟨participant, hparticipant, h⟩
  split at h
  · cases h
  next hknown =>
  rcases validateTemplateChoice_again h with ⟨hsame, hallowed, hagain⟩
  have hget : Fields.get? step' "participant" = some (.str participant) := by
    rw [hsame "participant" (by decide)]
    simp
  refine ⟨?_, ?_, ?_⟩
  · intro key hkey
    have hne : key ∉ agentStepTemplateFields ∧ "participant" ≠ key := by
      simp only [List.mem_cons, List.not_mem_nil, or_false] at hkey
      rcases hkey with rfl | rfl <;> decide
    rw [hsame key hne.1, Fields.get?_set, if_neg hne.2]
  · intro context' hreject
    exact hallowed agentStepKeys context' (by decide) (rejectUnsupportedFields_set hreject (by decide))
  · unfold validateAgentStep
    rw [except_bind_eq_ok]
    refine ⟨participant, requiredText_of_trimmed context hget (trimmed_of_requiredText hparticipant), ?_⟩
    rw [if_neg hknown, Fields.set_self hget]
    exact hagain

theorem validateReportSource_again
    (h : validateReportSource step context stepIds = .ok step') :
    (∀ key, key ∉ ["body_template", "from_step"] → Fields.get? step' key = Fields.get? step key) ∧
      (∀ context', rejectUnsupportedFields step reportStepKeys context' = .ok () →
        rejectUnsupportedFields step' reportStepKeys context' = .ok ()) ∧
      ∀ other, (∀ key ∈ ["body_template", "from_step"], Fields.get? other key = Fields.get? step' key) →
        validateReportSource other context stepIds = .ok other := by
  unfold validateReportSource at h
  split at h
  · next hbody =>
    split at h
    · cases h
    next hfrom =>
    rcases validateTemplateField_ok h with ⟨template, rfl, _, hagain⟩
    refine ⟨?_, ?_, ?_⟩
    · intro key hkey
      rw [Fields.get?_set, if_neg]
      rintro rfl
      exact hkey (by decide)
    · intro context' hreject
      exact rejectUnsupportedFields_set hreject (by decide)
    · intro other hother
      have hbody' := hother "body_template" (by decide)
      have hfrom' := hother "from_step" (by decide)
      rw [Fields.get?_set, if_pos rfl] at hbody'
      rw [Fields.get?_set, if_neg (by decide)] at hfrom'
      unfold validateReportSource
      rw [hbody', hfrom', Option.isSome_some, if_pos rfl, if_neg hfrom]
      exact hagain other hbody'
  · next hbody =>
    rcases except_bind_eq_ok.mp h with ⟨fromStep, hfrom, h⟩
    split at h
    · next hknown =>
      cases h
      refine ⟨?_, ?_, ?_⟩
      · intro key hkey
        rw [Fields.get?_set, if_neg]
        rintro rfl
        exact hkey (by decide)
      · intro context' hreject
        exact rejectUnsupportedFields_set hreject (by decide)
      · intro other hother
        have hbody' := hother "body_template" (by decide)
        have hfrom' := hother "from_step" (by decide)
        rw [Fields.get?_set, if_neg (by decide)] at hbody'
        rw [Fields.get?_set, if_pos rfl] at hfrom'
        unfold validateReportSource
        rw [hbody', if_neg hbody, except_bind_eq_ok]
        refine ⟨fromStep, requiredText_of_trimmed context hfrom' (trimmed_of_requiredText hfrom), ?_⟩
        rw [if_pos hknown, Fields.set_self hfrom']
        rfl
    · cases h

theorem validateReportTitle_again
    (h : validateReportTitle step context stepIds = .ok step') :
    (∀ key, key ≠ "title" → Fields.get? step' key = Fields.get? step key) ∧
      (∀ context', rejectUnsupportedFields step reportStepKeys context' = .ok () →
        rejectUnsupportedFields step' reportStepKeys context' = .ok ()) ∧
      validateReportTitle step' context stepIds = .ok step' := by
  unfold validateReportTitle at h
  split at h
  · next htitle =>
    rcases validateTemplateField_again h with ⟨hsame, hsome, hallowed, hagain⟩
    refine ⟨hsame, ?_, ?_⟩
    · intro context' hreject
      exact hallowed reportStepKeys context' (by decide) hreject
    · unfold validateReportTitle
      rw [hsome, if_pos htitle]
      exact hagain
  · next htitle =>
    cases h
    refine ⟨fun _ _ => rfl, fun _ hreject => hreject, ?_⟩
    unfold validateReportTitle
    rw [if_neg htitle]
    rfl

theorem validateReportStep_again
    (h : validateReportStep step context stepIds = .ok step') :
    (∀ key ∈ ["id", "type"], Fields.get? step' key = Fields.get? step key) ∧
      (∀ context', rejectUnsupportedFields step reportStepKeys context' = .ok () →
        rejectUnsupportedFields step' reportStepKeys context' = .ok ()) ∧
      validateReportStep step' context stepIds = .ok step' := by
  unfold validateReportStep at h
  rcases except_bind_eq_ok.mp h with ⟨sourced, hsource, htitle⟩
  rcases validateReportSource_again hsource with ⟨hsame, hallowed, hagain⟩
  rcases validateReportTitle_again htitle with ⟨hsame', hallowed', hagain'⟩
  refine ⟨?_, ?_, ?_⟩
  · intro key hkey
    simp only [List.mem_cons, List.not_mem_nil, or_false] at hkey
    rcases hkey with rfl | rfl
    · rw [hsame' _ (by decide), hsame _ (by decide)]
    · rw [hsame' _ (by decide), hsame _ (by decide)]
  · intro context' hreject
    exact hallowed' context' (hallowed context' hreject)
  · unfold validateReportStep
    rw [except_bind_eq_ok]
    refine ⟨step', hagain step' ?_, hagain'⟩
    intro key hkey
    apply hsame'
    rintro rfl
    revert hkey
    decide

theorem validateStepBody_again {type context : String} {participantIds stepIds : List String}
    (h : validateStepBody step type context participantIds stepIds = .ok step') :
    (∀ key ∈ ["id", "type"], Fields.get? step' key = Fields.get? step key) ∧
      validateStepBody step' type context participantIds stepIds = .ok step' := by
  unfold validateStepBody at h ⊢
  split at h
  · next hagent =>
    rcases except_bind_eq_ok.mp h with ⟨_, hreject, h⟩
    rcases validateAgentStep_again h with ⟨hsame, hallowed, hagain⟩
    refine ⟨hsame, ?_⟩
    rw [if_pos hagent, except_bind_eq_ok]
    exact ⟨(), hallowed context hreject, hagain⟩
  next hagent =>
  rw [if_neg hagent]
  split at h
  · next htransform =>
    rcases except_bind_eq_ok.mp h with ⟨_, hreject, h⟩
    rcases validateTemplateChoice_again h with ⟨hsame, hallowed, hagain⟩
    refine ⟨?_, ?_⟩
    · intro key hkey
      apply hsame
      simp only [List.mem_cons, List.not_mem_nil, or_false] at hkey
      rcases hkey with rfl | rfl <;> decide
    · rw [if_pos htransform, except_bind_eq_ok]
      exact ⟨(), hallowed transformStepKeys context (by decide) hreject, hagain⟩
  · next htransform =>
    rcases except_bind_eq_ok.mp h with ⟨_, hreject, h⟩
    rcases validateReportStep_again h with ⟨hsame, hallowed, hagain⟩
    refine ⟨hsame, ?_⟩
    rw [if_neg htransform, except_bind_eq_ok]
    exact ⟨(), hallowed context hreject, hagain⟩

/-- What a step is validated to is valid as it is. -/
theorem validateWorkflowStep_again {participantIds stepIds stepIds' : List String}
    (h : validateWorkflowStep step index participantIds stepIds = (.ok (), step', stepIds')) :
    validateWorkflowStep step' index participantIds stepIds = (.ok (), step', stepIds') := by
  unfold validateWorkflowStep at h
  dsimp only at h
  split at h
  · cases h
  next id hid =>
  split at h
  · cases h
  next type htype =>
  split at h
  · cases h
  next validated hbody =>
  cases h
  rcases validateStepBody_again hbody with ⟨hsame, hagain⟩
  have hgetId : Fields.get? step' "id" = some (.str id) := by
    rw [hsame "id" (by decide)]
    simp
  have hgetType : Fields.get? step' "type" = some (.str type) := by
    rw [hsame "type" (by decide)]
    simp
  unfold validateWorkflowStep
  dsimp only
  rw [validateEntryId_again hid hgetId]
  dsimp only
  rw [Fields.set_self hgetId, stepType_again htype (by rw [hgetType])]
  dsimp only
  rw [Fields.set_self hgetType, hagain]

theorem validateWorkflowSteps_again {participantIds : List String} {steps : List Fields}
    (h : (validateWorkflowSteps participantIds index stepIds steps).errors = []) :
    validateWorkflowSteps participantIds index stepIds
        (validateWorkflowSteps participantIds index stepIds steps).entries =
      validateWorkflowSteps participantIds index stepIds steps := by
  induction steps generalizing index stepIds with
  | nil => rfl
  | cons step steps ih =>
    rw [validateWorkflowSteps] at h ⊢
    rcases hvalidated : validateWorkflowStep step index participantIds stepIds with ⟨result, step', stepIds'⟩
    rw [hvalidated] at h
    cases result with
    | error err => cases h
    | ok _ =>
      dsimp only at h ⊢
      rw [validateWorkflowSteps, validateWorkflowStep_again hvalidated]
      dsimp only
      rw [ih h]

/-! ## Permissions -/

theorem positiveIntPermission_ok {value : Value} {fieldName : String} {maximum n : Int}
    (h : positiveIntPermission value fieldName maximum = .ok n) : value = .int n := by
  unfold positiveIntPermission at h
  split at h
  · split at h
    · cases h
    · cases h
      rfl
  · cases h

theorem validatePermissionCap_ok {fieldName : String} {maximum : Int}
    (h : validatePermissionCap permissions fieldName maximum = .ok permissions') : permissions' = permissions := by
  unfold validatePermissionCap at h
  split at h
  · cases h
    rfl
  · cases h
    rfl
  · next value _ hvalue =>
    rcases except_bind_eq_ok.mp h with ⟨cap, hcap, h⟩
    cases h
    rw [positiveIntPermission_ok hcap] at hvalue
    exact Fields.set_self hvalue

theorem validatePermissionCap_congr {fieldName : String} {maximum : Int}
    (hget : Fields.get? permissions' fieldName = Fields.get? permissions fieldName)
    (h : validatePermissionCap permissions fieldName maximum = .ok permissions) :
    validatePermissionCap permissions' fieldName maximum = .ok permissions' := by
  unfold validatePermissionCap at h ⊢
  rw [hget]
  split at h
  · rfl
  · rfl
  · next value _ hvalue =>
    rcases except_bind_eq_ok.mp h with ⟨cap, hcap, _⟩
    rw [positiveIntPermission_ok hcap] at hvalue
    rw [except_bind_eq_ok]
    refine ⟨cap, hcap, ?_⟩
    rw [Fields.set_self (hget.trans hvalue)]
    rfl

theorem validatePermissionTotal_ok {steps : List Fields}
    (h : validatePermissionTotal permissions steps = .ok permissions') :
    ∃ total : Int, permissions' = Fields.set permissions "max_total_agents" (.int total) ∧
      ∀ other, Fields.get? other "max_total_agents" = some (.int total) →
        validatePermissionTotal other steps = .ok other := by
  unfold validatePermissionTotal at h
  rcases except_bind_eq_ok.mp h with ⟨total, htotal, h⟩
  split at h
  · cases h
  next henough =>
  cases h
  refine ⟨total, rfl, ?_⟩
  intro other hother
  have hpositive : positiveIntPermission (.int total) "max_total_agents" maxWorkflowAgentSteps = .ok total := by
    unfold maxTotalAgents at htotal
    split at htotal
    · have hvalue := positiveIntPermission_ok htotal
      rw [hvalue] at htotal
      exact htotal
    · have hvalue := positiveIntPermission_ok htotal
      rw [hvalue] at htotal
      exact htotal
    · have hvalue := positiveIntPermission_ok htotal
      rw [hvalue] at htotal
      exact htotal
  unfold validatePermissionTotal maxTotalAgents
  rw [hother, except_bind_eq_ok]
  refine ⟨total, hpositive, ?_⟩
  rw [if_neg henough, Fields.set_self hother]
  rfl

theorem validatePermissionModels_ok
    (h : validatePermissionModels permissions = .ok permissions') :
    (permissions' = permissions ∨ ∃ value, permissions' = Fields.set permissions "models" value) ∧
      ∀ other, Fields.get? other "models" = Fields.get? permissions' "models" →
        validatePermissionModels other = .ok other := by
  unfold validatePermissionModels at h
  split at h
  · next hnone =>
    cases h
    refine ⟨.inl rfl, ?_⟩
    intro other hother
    rw [validatePermissionModels, hother, hnone]
    rfl
  · next hnone =>
    cases h
    refine ⟨.inl rfl, ?_⟩
    intro other hother
    rw [validatePermissionModels, hother, hnone]
    rfl
  · next models hmodels =>
    rcases except_bind_eq_ok.mp h with ⟨names, hnames, h⟩
    cases h
    refine ⟨.inr ⟨_, rfl⟩, ?_⟩
    intro other hother
    rw [Fields.get?_set, if_pos rfl] at hother
    have htrimmed : ∀ name ∈ names.map stripped, Trimmed name := by
      intro name hname
      rcases List.mem_map.mp hname with ⟨raw, hraw, rfl⟩
      exact trimmed_stripped ((textEntries_ok hnames).2 raw hraw)
    rw [validatePermissionModels, hother, textList]
    dsimp only
    rw [except_bind_eq_ok]
    refine ⟨names.map stripped, textEntries_map_str fun name hname => (htrimmed name hname).nonempty, ?_⟩
    rw [map_stripped_of_trimmed htrimmed]
    rw [textList] at hother
    rw [textList, Fields.set_self hother]
    rfl
  · cases h

theorem validatePermissionTools_ok
    (h : validatePermissionTools permissions = .ok permissions') :
    ∃ value, permissions' = Fields.set permissions "tools" value ∧
      ∀ other, Fields.get? other "tools" = some value → validatePermissionTools other = .ok other := by
  unfold validatePermissionTools at h
  rcases except_bind_eq_ok.mp h with ⟨toolNames, htools, h⟩
  cases h
  refine ⟨_, rfl, ?_⟩
  intro other hother
  unfold validatePermissionTools
  rw [except_bind_eq_ok]
  refine ⟨toolNames, ?_, ?_⟩
  · rw [hother]
    exact normalizedToolNames_again htools
  · rw [Fields.set_self hother]
    rfl

theorem validatePermissionData_ok
    (h : validatePermissionData permissions = .ok permissions') :
    ∃ value, permissions' = Fields.set permissions "data" value ∧
      ∀ other, Fields.get? other "data" = some value → validatePermissionData other = .ok other := by
  have hempty : validateDataFields [] = .ok () := by decide +kernel
  unfold validatePermissionData at h
  split at h
  · cases h
    refine ⟨_, rfl, ?_⟩
    intro other hother
    rw [validatePermissionData, hother]
    dsimp only
    rw [hempty, Fields.set_self hother]
    rfl
  · cases h
    refine ⟨_, rfl, ?_⟩
    intro other hother
    rw [validatePermissionData, hother]
    dsimp only
    rw [hempty, Fields.set_self hother]
    rfl
  · next data hdata =>
    rcases except_bind_eq_ok.mp h with ⟨_, hfields, h⟩
    cases h
    refine ⟨_, rfl, ?_⟩
    intro other hother
    rw [validatePermissionData, hother]
    dsimp only
    rw [hfields, Fields.set_self hother]
    rfl
  · cases h

theorem permissionsMapping_of_get? {spec permissions : Fields}
    (h : Fields.get? spec "permissions" = some (.dict permissions)) : permissionsMapping spec = .ok permissions := by
  rw [permissionsMapping, h]
  rfl

theorem rejectUnknownPermissions_eq_ok {permissions : Fields} {u : Unit} :
    rejectUnknownPermissions permissions = .ok u ↔ ∀ k ∈ permissions.map (·.1), k ∈ permissionKeys := by
  rw [← Fields.unsupported_eq_nil]
  unfold rejectUnknownPermissions
  split
  · next hnil => exact ⟨fun _ => hnil, fun _ => rfl⟩
  · next hne =>
    constructor
    · intro h
      cases h
    · intro h
      exact absurd h hne

/-- What the permissions are validated to is written to the spec, and a spec that has it there is left as it
is. -/
theorem validateWorkflowPermissions_ok {spec spec' : Fields} {steps : List Fields}
    (h : validateWorkflowPermissions steps spec = .ok spec') :
    ∃ permissions, spec' = Fields.set spec "permissions" (.dict permissions) ∧
      ∀ other, Fields.get? other "permissions" = some (.dict permissions) →
        validateWorkflowPermissions steps other = .ok other := by
  unfold validateWorkflowPermissions at h
  simp only [except_bind_eq_ok] at h
  rcases h with ⟨permissions, hmapping, _, hknown, capped, hcap, capped', hcap', totalled, htotal, modelled, hmodels,
    tooled, htools, permissions', hdata, h⟩
  cases h
  obtain rfl := (validatePermissionCap_ok hcap).symm
  obtain rfl := (validatePermissionCap_ok hcap').symm
  rcases validatePermissionTotal_ok htotal with ⟨total, rfl, htotal'⟩
  rcases validatePermissionModels_ok hmodels with ⟨hmodelled, hmodels'⟩
  rcases validatePermissionTools_ok htools with ⟨tools, rfl, htools'⟩
  rcases validatePermissionData_ok hdata with ⟨data, rfl, hdata'⟩
  have hsame : ∀ key, key ≠ "max_total_agents" → key ≠ "models" →
      Fields.get? modelled key = Fields.get? permissions key := by
    intro key htotalKey hmodelsKey
    rcases hmodelled with rfl | ⟨value, rfl⟩
    · rw [Fields.get?_set, if_neg (Ne.symm htotalKey)]
    · rw [Fields.get?_set, if_neg (Ne.symm hmodelsKey), Fields.get?_set, if_neg (Ne.symm htotalKey)]
  have htotalGet : Fields.get? modelled "max_total_agents" = some (.int total) := by
    rcases hmodelled with rfl | ⟨value, rfl⟩
    · simp
    · simp
  have hkeys : ∀ k ∈ modelled.map (·.1), k ∈ permissionKeys := by
    rw [rejectUnknownPermissions_eq_ok] at hknown
    intro k hk
    have hset : k ∈ (Fields.set permissions "max_total_agents" (.int total)).map (·.1) → k ∈ permissionKeys := by
      intro hk
      rcases Fields.mem_keys_set.mp hk with rfl | hk
      · decide
      · exact hknown k hk
    rcases hmodelled with rfl | ⟨value, rfl⟩
    · exact hset hk
    · rcases Fields.mem_keys_set.mp hk with rfl | hk
      · decide
      · exact hset hk
  refine ⟨Fields.set (Fields.set modelled "tools" tools) "data" data, rfl, ?_⟩
  intro other hother
  unfold validateWorkflowPermissions
  simp only [except_bind_eq_ok]
  refine ⟨_, permissionsMapping_of_get? hother, (), rejectUnknownPermissions_eq_ok.mpr ?_,
    _, validatePermissionCap_congr ?_ hcap, _, validatePermissionCap_congr ?_ hcap', _, htotal' _ ?_,
    _, hmodels' _ ?_, _, htools' _ ?_, _, hdata' _ ?_, ?_⟩
  · intro k hk
    rcases Fields.mem_keys_set.mp hk with rfl | hk
    · decide
    rcases Fields.mem_keys_set.mp hk with rfl | hk
    · decide
    exact hkeys k hk
  · simp [hsame]
  · simp [hsame]
  · simp [htotalGet]
  · simp
  · simp
  · simp
  · rw [Fields.set_self hother]
    rfl

/-! ## Outputs -/

theorem validateOutput_again {output output' : Fields} {context id : String} {outputIds stepIds : List String}
    (h : validateOutput output context outputIds stepIds = .ok (output', id)) :
    validateOutput output' context outputIds stepIds = .ok (output', id) := by
  unfold validateOutput at h
  rcases except_bind_eq_ok.mp h with ⟨outputId, hid, h⟩
  rcases except_bind_eq_ok.mp h with ⟨type, htype, h⟩
  split at h
  · cases h
  next hknownType =>
  rcases except_bind_eq_ok.mp h with ⟨fromStep, hfrom, h⟩
  split at h
  · cases h
  next hknownStep =>
  rcases except_bind_eq_ok.mp h with ⟨_, hreject, h⟩
  cases h
  generalize hresult : Fields.set (Fields.set (Fields.set output "id" (.str id)) "type" (.str type)) "from_step"
    (.str fromStep) = output' at hreject ⊢
  have hgetId : Fields.get? output' "id" = some (.str id) := by simp [← hresult]
  have hgetType : Fields.get? output' "type" = some (.str type) := by simp [← hresult]
  have hgetFrom : Fields.get? output' "from_step" = some (.str fromStep) := by simp [← hresult]
  unfold validateOutput
  rw [except_bind_eq_ok]
  refine ⟨id, validateEntryId_again hid hgetId, ?_⟩
  dsimp only
  rw [Fields.set_self hgetId, except_bind_eq_ok]
  refine ⟨type, requiredText_of_trimmed context hgetType (trimmed_of_requiredText htype), ?_⟩
  rw [if_neg hknownType, Fields.set_self hgetType, except_bind_eq_ok]
  refine ⟨fromStep, requiredText_of_trimmed context hgetFrom (trimmed_of_requiredText hfrom), ?_⟩
  rw [if_neg hknownStep, Fields.set_self hgetFrom, except_bind_eq_ok]
  exact ⟨(), hreject, rfl⟩

theorem validateOutputList_again {rawOutputs : List Value} {stepIds outputIds : List String}
    {outputs : List Fields} (h : validateOutputList stepIds index outputIds rawOutputs = .ok outputs) :
    validateOutputList stepIds index outputIds (outputs.map .dict) = .ok outputs := by
  induction rawOutputs generalizing index outputIds outputs with
  | nil =>
    cases h
    rfl
  | cons rawOutput rawOutputs ih =>
    cases rawOutput with
    | dict output =>
      rw [validateOutputList] at h
      rcases except_bind_eq_ok.mp h with ⟨⟨output', id⟩, hvalidated, h⟩
      rcases except_bind_eq_ok.mp h with ⟨rest, hrest, h⟩
      cases h
      rw [List.map_cons, validateOutputList, except_bind_eq_ok]
      refine ⟨(output', id), validateOutput_again hvalidated, ?_⟩
      rw [except_bind_eq_ok]
      exact ⟨rest, ih hrest, rfl⟩
    | _ => cases h

theorem validateOutputs_ok {spec spec' : Fields} (h : validateOutputs stepIds spec = .ok spec') :
    ∃ outputs : List Fields, spec' = Fields.set spec "outputs" (.list (outputs.map .dict)) ∧
      validateOutputList stepIds 0 [] (outputs.map .dict) = .ok outputs ∧
      ∀ other, Fields.get? other "outputs" = some (.list (outputs.map .dict)) →
        validateOutputs stepIds other = .ok other := by
  have hmain : ∃ outputs : List Fields, spec' = Fields.set spec "outputs" (.list (outputs.map .dict)) ∧
      validateOutputList stepIds 0 [] (outputs.map .dict) = .ok outputs := by
    unfold validateOutputs at h
    split at h
    · cases h
      exact ⟨[], rfl, rfl⟩
    · cases h
      exact ⟨[], rfl, rfl⟩
    · rcases except_bind_eq_ok.mp h with ⟨outputs, houtputs, h⟩
      cases h
      exact ⟨outputs, rfl, validateOutputList_again houtputs⟩
    · cases h
  rcases hmain with ⟨outputs, rfl, houtputs⟩
  refine ⟨outputs, rfl, houtputs, ?_⟩
  intro other hother
  unfold validateOutputs
  rw [hother]
  dsimp only
  rw [except_bind_eq_ok]
  refine ⟨outputs, houtputs, ?_⟩
  rw [Fields.set_self hother]
  rfl

/-! ## The pipeline -/

theorem collectError_eq {check : Fields → Except String Fields} :
    collectError checked check = (spec, []) ↔ checked.2 = [] ∧ check checked.1 = .ok spec := by
  unfold collectError
  split
  · next spec' hspec =>
    rw [hspec, Prod.mk.injEq, Except.ok.injEq]
    exact and_comm
  · next err herr =>
    rw [herr]
    constructor
    · intro h
      cases List.append_ne_nil_of_right_ne_nil checked.2 (List.cons_ne_nil err []) (congrArg Prod.snd h)
    · rintro ⟨_, h⟩
      cases h

/-- Checks that leave no error have all passed, one after the other. -/
theorem foldl_collectError_eq {checks : List (Fields → Except String Fields)} :
    checks.foldl collectError checked = (spec, []) ↔
      checked.2 = [] ∧ checks.foldlM (fun spec check => check spec) checked.1 = .ok spec := by
  induction checks generalizing checked with
  | nil =>
    rcases checked with ⟨spec', errors⟩
    simp [pure, Except.pure, and_comm]
  | cons check checks ih =>
    rw [List.foldl_cons, ih, List.foldlM_cons, except_bind_eq_ok]
    constructor
    · rintro ⟨herrors, hrest⟩
      rcases hcollected : collectError checked check with ⟨spec', errors⟩
      rw [hcollected] at herrors hrest
      obtain rfl : errors = [] := herrors
      rcases collectError_eq.mp hcollected with ⟨hnone, hcheck⟩
      exact ⟨hnone, spec', hcheck, hrest⟩
    · rintro ⟨hnone, spec', hcheck, hrest⟩
      rw [collectError_eq.mpr ⟨hnone, hcheck⟩]
      exact ⟨rfl, hrest⟩

theorem requiredMappings_map_dict {label : String} {items : List Fields} :
    requiredMappings label index (items.map .dict) = .ok items := by
  induction items generalizing index with
  | nil => rfl
  | cons item items ih =>
    rw [List.map_cons, requiredMappings, ih]
    rfl

theorem requiredMappings_length {label : String} {values : List Value} {items : List Fields}
    (h : requiredMappings label index values = .ok items) : items.length = values.length := by
  induction values generalizing index items with
  | nil =>
    cases h
    rfl
  | cons value values ih =>
    cases value with
    | dict item =>
      rcases except_bind_eq_ok.mp h with ⟨rest, hrest, h⟩
      cases h
      rw [List.length_cons, List.length_cons, ih hrest]
    | _ => cases h

theorem requiredMappingList_ne_nil {key label : String} {items : List Fields}
    (h : requiredMappingList data key label = .ok items) : items ≠ [] := by
  unfold requiredMappingList at h
  split at h
  · cases h
  · cases h
  · cases h
  · next value hne _ =>
    have hlength := requiredMappings_length h
    rintro rfl
    exact hne (List.length_eq_zero_iff.mp hlength.symm)
  · cases h

theorem requiredMappingList_map_dict {key : String} (label : String) {items : List Fields}
    (hget : Fields.get? data key = some (.list (items.map .dict))) (hne : items ≠ []) :
    requiredMappingList data key label = .ok items := by
  unfold requiredMappingList
  rw [hget]
  cases items with
  | nil => exact absurd rfl hne
  | cons item items => exact requiredMappings_map_dict

theorem collectEntries_eq {key label : String} {validate : List Fields → Entries} {found : Option Entries} :
    collectEntries checked key label validate = ((spec, []), found) ↔
      checked.2 = [] ∧ ∃ items, requiredMappingList checked.1 key label = .ok items ∧ (validate items).errors = [] ∧
        spec = Fields.set checked.1 key (.list ((validate items).entries.map .dict)) ∧ found = some (validate items) := by
  unfold collectEntries
  split
  · next err herr =>
    rw [herr]
    constructor
    · intro h
      cases List.append_ne_nil_of_right_ne_nil checked.2 (List.cons_ne_nil err [])
        (congrArg (fun result => result.1.2) h)
    · rintro ⟨_, items, h, _⟩
      cases h
  · next items hitems =>
    rw [hitems]
    simp only [Prod.mk.injEq, List.append_eq_nil_iff, Except.ok.injEq, exists_eq_left']
    constructor
    · rintro ⟨⟨rfl, hnone, herrors⟩, rfl⟩
      exact ⟨hnone, herrors, rfl, rfl⟩
    · rintro ⟨hnone, herrors, rfl, rfl⟩
      exact ⟨⟨rfl, hnone, herrors⟩, rfl⟩

theorem validateParticipantToolGrants_ok {participants : List Fields} {spec spec' : Fields}
    (h : validateParticipantToolGrants participants spec = .ok spec') : spec' = spec := by
  unfold validateParticipantToolGrants at h
  rcases except_bind_eq_ok.mp h with ⟨_, _, h⟩
  rcases except_bind_eq_ok.mp h with ⟨_, _, h⟩
  cases h
  rfl

/-- The grants are looked up in the permissions of the spec, and nowhere else. -/
theorem validateParticipantToolGrants_congr {participants : List Fields} {spec other permissions : Fields}
    (hspec : Fields.get? spec "permissions" = some (.dict permissions))
    (hother : Fields.get? other "permissions" = some (.dict permissions))
    (h : validateParticipantToolGrants participants spec = .ok spec) :
    validateParticipantToolGrants participants other = .ok other := by
  unfold validateParticipantToolGrants at h ⊢
  rw [permissionsMapping_of_get? hspec] at h
  rcases except_bind_eq_ok.mp h with ⟨_, hmapping, h⟩
  cases hmapping
  rcases except_bind_eq_ok.mp h with ⟨_, hgrants, _⟩
  rw [permissionsMapping_of_get? hother, except_bind_eq_ok]
  refine ⟨permissions, rfl, ?_⟩
  rw [hgrants]
  rfl

theorem collectPermissions_eq {participants steps : List Fields} :
    collectPermissions checked participants steps = (spec, []) ↔ checked.2 = [] ∧
      validateWorkflowPermissions steps checked.1 = .ok spec ∧
      (participants ≠ [] → validateParticipantToolGrants participants spec = .ok spec) := by
  unfold collectPermissions
  split
  · next err herr =>
    rw [herr]
    constructor
    · intro h
      cases List.append_ne_nil_of_right_ne_nil checked.2 (List.cons_ne_nil err []) (congrArg Prod.snd h)
    · rintro ⟨_, h, _⟩
      cases h
  · next spec' hspec =>
    rw [hspec, Except.ok.injEq]
    split
    · next hnil =>
      rw [Prod.mk.injEq]
      constructor
      · rintro ⟨rfl, hnone⟩
        exact ⟨hnone, rfl, fun hne => absurd hnil hne⟩
      · rintro ⟨hnone, rfl, _⟩
        exact ⟨rfl, hnone⟩
    · next hne =>
      rw [collectError_eq]
      constructor
      · rintro ⟨hnone, hgrants⟩
        obtain rfl := validateParticipantToolGrants_ok hgrants
        exact ⟨hnone, rfl, fun _ => hgrants⟩
      · rintro ⟨hnone, rfl, hgrants⟩
        exact ⟨hnone, hgrants hne⟩

theorem validateWorkflowSizeLimits_ok {participants steps : List Fields} {spec spec' : Fields}
    (h : validateWorkflowSizeLimits participants steps spec = .ok spec') :
    spec' = spec ∧ ∀ other, validateWorkflowSizeLimits participants steps other = .ok other := by
  unfold validateWorkflowSizeLimits at h
  split at h
  · cases h
  next hparticipants =>
  split at h
  · cases h
  next hsteps =>
  cases h
  refine ⟨rfl, ?_⟩
  intro other
  rw [validateWorkflowSizeLimits, if_neg hparticipants, if_neg hsteps]
  rfl

theorem collectLimits_errors {participants workflowSteps : Option Entries}
    (h : collectLimits checked participants workflowSteps = (spec, [])) : checked.2 = [] := by
  have hsized : ∀ {check : Fields → Except String Fields} {participants steps : List Fields} {spec : Fields},
      collectPermissions (collectError checked check) participants steps = (spec, []) → checked.2 = [] := by
    intro check participants steps spec hspec
    exact (collectError_eq.mp (Prod.ext rfl (collectPermissions_eq.mp hspec).1)).1
  cases workflowSteps with
  | none => exact hsized h
  | some steps => exact hsized (Prod.ext rfl (collectError_eq.mp h).1)

theorem collectLimits_eq {participants steps : Entries} :
    collectLimits checked (some participants) (some steps) = (spec, []) ↔ checked.2 = [] ∧
      validateWorkflowSizeLimits participants.entries steps.entries checked.1 = .ok checked.1 ∧
      ∃ permitted, validateWorkflowPermissions steps.entries checked.1 = .ok permitted ∧
        (participants.valid ≠ [] → validateParticipantToolGrants participants.valid permitted = .ok permitted) ∧
        validateOutputs steps.ids permitted = .ok spec := by
  unfold collectLimits
  simp only [Option.elim_some]
  rw [collectError_eq]
  constructor
  · rintro ⟨hnone, houtputs⟩
    rcases hsized : collectError checked (validateWorkflowSizeLimits participants.entries steps.entries) with
      ⟨sized, errors⟩
    rw [hsized] at hnone houtputs
    rcases hpermitted : collectPermissions (sized, errors) participants.valid steps.entries with ⟨permitted, errors'⟩
    rw [hpermitted] at hnone houtputs
    obtain rfl : errors' = [] := hnone
    rcases collectPermissions_eq.mp hpermitted with ⟨hnone, hpermissions, hgrants⟩
    obtain rfl : errors = [] := hnone
    rcases collectError_eq.mp hsized with ⟨hchecked, hsizes⟩
    obtain rfl := (validateWorkflowSizeLimits_ok hsizes).1
    exact ⟨hchecked, hsizes, permitted, hpermissions, hgrants, houtputs⟩
  · rintro ⟨hchecked, hsizes, permitted, hpermissions, hgrants, houtputs⟩
    have hpermitted : collectPermissions (checked.1, []) participants.valid steps.entries = (permitted, []) :=
      collectPermissions_eq.mpr ⟨rfl, hpermissions, hgrants⟩
    rw [collectError_eq.mpr ⟨hchecked, hsizes⟩, hpermitted]
    exact ⟨rfl, houtputs⟩

/-- A spec that passes every check, with what each leaves for the next. -/
structure Acceptance (spec normalized : Fields) where
  fielded : Fields
  rawParticipants : List Fields
  rawSteps : List Fields
  participants : Entries
  steps : Entries
  permitted : Fields
  supported : ∀ k ∈ spec.map (·.1), k ∈ specKeys
  fields : fieldChecks.foldlM (fun spec check => check spec) spec = .ok fielded
  participantList : requiredMappingList fielded "participants" "Participant" = .ok rawParticipants
  participants_eq : validateParticipants 0 [] rawParticipants = participants
  participants_errors : participants.errors = []
  stepList : requiredMappingList (Fields.set fielded "participants" (.list (participants.entries.map .dict))) "workflow"
    "Workflow step" = .ok rawSteps
  steps_eq : validateWorkflowSteps participants.ids 0 [] rawSteps = steps
  steps_errors : steps.errors = []
  sizes : ∀ other, validateWorkflowSizeLimits participants.entries steps.entries other = .ok other
  permissions : validateWorkflowPermissions steps.entries
    (Fields.set (Fields.set fielded "participants" (.list (participants.entries.map .dict))) "workflow"
      (.list (steps.entries.map .dict))) = .ok permitted
  grants : participants.valid ≠ [] → validateParticipantToolGrants participants.valid permitted = .ok permitted
  outputs : validateOutputs steps.ids permitted = .ok normalized

theorem validateWorkflowSpec_eq_ok {spec normalized : Fields} :
    validateWorkflowSpec (.dict spec) = .ok normalized ↔ Nonempty (Acceptance spec normalized) := by
  have hresult : validateWorkflowSpec (.dict spec) = .ok normalized ↔
      validateAndNormalizeWorkflowSpec (.dict spec) = (some normalized, []) := by
    unfold validateWorkflowSpec
    split
    · next err _ herr =>
      rw [herr]
      simp [throw, throwThe, MonadExceptOf.throw]
    · next hnone =>
      rw [hnone]
      simp [throw, throwThe, MonadExceptOf.throw]
    · next found hfound =>
      rw [hfound]
      simp [pure, Except.pure]
  rw [hresult]
  unfold validateAndNormalizeWorkflowSpec
  dsimp only
  rw [Prod.mk.injEq, Option.some.injEq, ← Prod.mk.injEq]
  constructor
  · intro h
    rcases hfielded : fieldChecks.foldl collectError (spec, (Fields.unsupported spec specKeys).map fun fieldName =>
      s!"Workflow spec contains unsupported field '{fieldName}'.") with ⟨fielded, errors⟩
    rw [hfielded] at h
    rcases hstaffed : collectEntries (fielded, errors) "participants" "Participant" (validateParticipants 0 []) with
      ⟨⟨staffed, errors'⟩, foundParticipants⟩
    rw [hstaffed] at h
    rcases hstaged : collectEntries (staffed, errors') "workflow" "Workflow step"
      (validateWorkflowSteps (foundParticipants.elim [] Entries.ids) 0 []) with ⟨⟨staged, errors''⟩, foundSteps⟩
    rw [hstaged] at h
    obtain rfl : errors'' = [] := collectLimits_errors h
    rcases collectEntries_eq.mp hstaged with ⟨hnone, rawSteps, hrawSteps, hsteps, rfl, rfl⟩
    obtain rfl : errors' = [] := hnone
    rcases collectEntries_eq.mp hstaffed with ⟨hnone, rawParticipants, hrawParticipants, hparticipants, rfl, rfl⟩
    obtain rfl : errors = [] := hnone
    rcases foldl_collectError_eq.mp hfielded with ⟨hsupported, hfields⟩
    rcases collectLimits_eq.mp h with ⟨_, hsizes, permitted, hpermissions, hgrants, houtputs⟩
    exact ⟨fielded, rawParticipants, rawSteps, _, _, permitted,
      Fields.unsupported_eq_nil.mp (List.map_eq_nil_iff.mp hsupported), hfields, hrawParticipants, rfl, hparticipants,
      hrawSteps, rfl, hsteps, (validateWorkflowSizeLimits_ok hsizes).2, hpermissions, hgrants, houtputs⟩
  · rintro ⟨fielded, rawParticipants, rawSteps, participants, steps, permitted, hsupported, hfields, hrawParticipants,
      rfl, hparticipants, hrawSteps, rfl, hsteps, hsizes, hpermissions, hgrants, houtputs⟩
    have hfielded : fieldChecks.foldl collectError (spec, (Fields.unsupported spec specKeys).map fun fieldName =>
        s!"Workflow spec contains unsupported field '{fieldName}'.") = (fielded, []) := by
      refine foldl_collectError_eq.mpr ⟨?_, hfields⟩
      rw [Fields.unsupported_eq_nil.mpr hsupported]
      rfl
    have hstaffed : collectEntries (fielded, []) "participants" "Participant" (validateParticipants 0 []) = _ :=
      collectEntries_eq.mpr ⟨rfl, rawParticipants, hrawParticipants, hparticipants, rfl, rfl⟩
    rw [hfielded, hstaffed, Option.elim_some]
    rw [collectEntries_eq.mpr ⟨rfl, rawSteps, hrawSteps, hsteps, rfl, rfl⟩]
    exact collectLimits_eq.mpr ⟨rfl, hsizes _, permitted, hpermissions, hgrants, houtputs⟩

/-! ## A normalised spec is accepted as it is -/

/-- A check that has settled a key of the spec: nothing else has changed, and every spec that has the same
under that key passes the check unchanged. -/
structure Settles (check : Fields → Except String Fields) (key : String) (spec spec' : Fields) : Prop where
  beside : ∀ k, k ≠ key → Fields.get? spec' k = Fields.get? spec k
  keys : ∀ k ∈ spec'.map (·.1), k = key ∨ k ∈ spec.map (·.1)
  again : ∀ other, Fields.get? other key = Fields.get? spec' key → check other = .ok other

section

variable {check : Fields → Except String Fields} {key : String} {spec spec' : Fields}

theorem Settles.of_set {value : Value} (again : ∀ other, Fields.get? other key = some value → check other = .ok other) :
    Settles check key spec (Fields.set spec key value) where
  beside := by
    intro k hk
    rw [Fields.get?_set, if_neg (Ne.symm hk)]
  keys := by
    intro k hk
    exact Fields.mem_keys_set.mp hk
  again := by
    intro other hother
    rw [Fields.get?_set, if_pos rfl] at hother
    exact again other hother

theorem Settles.of_same (again : ∀ other, Fields.get? other key = Fields.get? spec key → check other = .ok other) :
    Settles check key spec spec where
  beside := fun _ _ => rfl
  keys := fun _ hk => .inr hk
  again := again

theorem validateSchemaVersion_settles (h : validateSchemaVersion spec = .ok spec') :
    Settles validateSchemaVersion "schema_version" spec spec' := by
  unfold validateSchemaVersion at h
  split at h
  · next hversion =>
    cases h
    apply Settles.of_same
    intro other hother
    rw [validateSchemaVersion, hother, hversion]
    rfl
  · cases h

theorem validateWorkflowIdField_settles (h : validateWorkflowIdField spec = .ok spec') :
    Settles validateWorkflowIdField "id" spec spec' := by
  unfold validateWorkflowIdField at h
  simp only [except_bind_eq_ok] at h
  rcases h with ⟨workflowId, htext, _, hid, h⟩
  cases h
  apply Settles.of_set
  intro other hother
  unfold validateWorkflowIdField
  simp only [except_bind_eq_ok]
  refine ⟨workflowId, requiredText_of_trimmed _ hother (trimmed_of_requiredText htext), (), hid, ?_⟩
  rw [Fields.set_self hother]
  rfl

theorem validateWorkflowNameField_settles (h : validateWorkflowNameField spec = .ok spec') :
    Settles validateWorkflowNameField "name" spec spec' := by
  unfold validateWorkflowNameField at h
  rcases except_bind_eq_ok.mp h with ⟨name, htext, h⟩
  cases h
  apply Settles.of_set
  intro other hother
  unfold validateWorkflowNameField
  rw [except_bind_eq_ok]
  refine ⟨name, requiredText_of_trimmed _ hother (trimmed_of_requiredText htext), ?_⟩
  rw [Fields.set_self hother]
  rfl

theorem validateWorkflowKindField_settles (h : validateWorkflowKindField spec = .ok spec') :
    Settles validateWorkflowKindField "kind" spec spec' := by
  unfold validateWorkflowKindField at h
  rcases except_bind_eq_ok.mp h with ⟨kind, htext, h⟩
  split at h
  · cases h
  next hkind =>
  cases h
  apply Settles.of_set
  intro other hother
  unfold validateWorkflowKindField
  rw [except_bind_eq_ok]
  refine ⟨kind, requiredText_of_trimmed _ hother (trimmed_of_requiredText htext), ?_⟩
  rw [if_neg hkind, Fields.set_self hother]
  rfl

theorem validateInputSchema_settles (h : validateInputSchema spec = .ok spec') :
    Settles validateInputSchema "inputs" spec spec' := by
  have hschema : ∀ other, Fields.get? other "inputs" = Fields.get? spec "inputs" →
      inputSchema other = inputSchema spec := by
    intro other hother
    rw [inputSchema, inputSchema, hother]
  unfold validateInputSchema at h
  rcases except_bind_eq_ok.mp h with ⟨inputs?, hinputs, h⟩
  cases inputs? with
  | none =>
    cases h
    apply Settles.of_same
    intro other hother
    unfold validateInputSchema
    rw [hschema other hother, hinputs]
    rfl
  | some inputs =>
    rcases except_bind_eq_ok.mp h with ⟨required, hrequired, h⟩
    split at h
    · cases h
    next hunique =>
    simp only [except_bind_eq_ok] at h
    rcases h with ⟨properties, hproperties, _, hforM, h⟩
    cases h
    apply Settles.of_same
    intro other hother
    unfold validateInputSchema
    rw [hschema other hother, hinputs, except_bind_eq_ok]
    refine ⟨some inputs, rfl, ?_⟩
    dsimp only
    rw [except_bind_eq_ok]
    refine ⟨required, hrequired, ?_⟩
    rw [if_neg hunique]
    simp only [except_bind_eq_ok]
    exact ⟨properties, hproperties, (), hforM, rfl⟩

theorem validateWorkflowPermissions_settles {steps : List Fields}
    (h : validateWorkflowPermissions steps spec = .ok spec') :
    Settles (validateWorkflowPermissions steps) "permissions" spec spec' := by
  rcases validateWorkflowPermissions_ok h with ⟨permissions, rfl, hagain⟩
  exact Settles.of_set hagain

theorem validateOutputs_settles {stepIds : List String} (h : validateOutputs stepIds spec = .ok spec') :
    Settles (validateOutputs stepIds) "outputs" spec spec' := by
  rcases validateOutputs_ok h with ⟨outputs, rfl, _, hagain⟩
  exact Settles.of_set hagain

end

theorem length_entries_validateParticipants {participants : List Fields} {index : Nat} {ids : List String} :
    (validateParticipants index ids participants).entries.length = participants.length := by
  induction participants generalizing index ids with
  | nil => rfl
  | cons participant participants ih =>
    rw [validateParticipants]
    split
    · rw [List.length_cons, List.length_cons, ih]
    · rw [List.length_cons, List.length_cons, ih]

theorem length_entries_validateWorkflowSteps {participantIds : List String} {steps : List Fields} {index : Nat}
    {stepIds : List String} :
    (validateWorkflowSteps participantIds index stepIds steps).entries.length = steps.length := by
  induction steps generalizing index stepIds with
  | nil => rfl
  | cons step steps ih =>
    rw [validateWorkflowSteps]
    split
    · rw [List.length_cons, List.length_cons, ih]
    · rw [List.length_cons, List.length_cons, ih]

theorem ne_nil_of_length_eq {α β : Type} {l : List α} {l' : List β} (hne : l ≠ []) (h : l'.length = l.length) :
    l' ≠ [] := by
  rintro rfl
  exact hne (List.length_eq_zero_iff.mp h.symm)

/-- The entries stand in a normalised spec as they were validated. -/
theorem Acceptance.get?_entries {spec normalized : Fields} (accepted : Acceptance spec normalized) :
    Fields.get? normalized "participants" = some (.list (accepted.participants.entries.map .dict)) ∧
      Fields.get? normalized "workflow" = some (.list (accepted.steps.entries.map .dict)) := by
  have hpermissions := validateWorkflowPermissions_settles accepted.permissions
  have houtputs := validateOutputs_settles accepted.outputs
  constructor
  · simp [houtputs.beside, hpermissions.beside]
  · simp [houtputs.beside, hpermissions.beside]

/-- What validation returns is accepted again and comes back unchanged. -/
theorem Acceptance.again {spec normalized : Fields} (accepted : Acceptance spec normalized) :
    Nonempty (Acceptance normalized normalized) := by
  rcases accepted.get?_entries with ⟨hgetParticipants, hgetSteps⟩
  rcases accepted with ⟨fielded, rawParticipants, rawSteps, participants, steps, permitted, hsupported, hfields,
    hrawParticipants, hparticipants_eq, hparticipants, hrawSteps, hsteps_eq, hsteps, hsizes, hpermissions, hgrants,
    houtputs⟩
  simp only [fieldChecks, List.foldlM_cons, List.foldlM_nil, except_bind_eq_ok] at hfields
  rcases hfields with ⟨versioned, hversion, identified, hid, named, hname, kinded, hkind, inputted, hinputs, hsame⟩
  cases hsame
  rcases validateWorkflowPermissions_ok hpermissions with ⟨permissions, hpermitted, _⟩
  have hversion := validateSchemaVersion_settles hversion
  have hid := validateWorkflowIdField_settles hid
  have hname := validateWorkflowNameField_settles hname
  have hkind := validateWorkflowKindField_settles hkind
  have hinputs := validateInputSchema_settles hinputs
  have hpermissions := validateWorkflowPermissions_settles hpermissions
  have houtputs := validateOutputs_settles houtputs
  dsimp only at hgetParticipants hgetSteps
  have hgetPermissions : Fields.get? normalized "permissions" = some (.dict permissions) := by
    simp [houtputs.beside, hpermitted]
  have hsetParticipants := Fields.set_self hgetParticipants
  have hsetSteps := Fields.set_self hgetSteps
  refine ⟨normalized, participants.entries, steps.entries, participants, steps, normalized, ?_, ?_, ?_, ?_, hparticipants,
    ?_, ?_, hsteps, hsizes, ?_, ?_, houtputs.again normalized rfl⟩
  · intro k hk
    have hwritten : k ∈ ["outputs", "permissions", "workflow", "participants", "inputs", "kind", "name", "id",
        "schema_version"] ∨ k ∈ spec.map (·.1) := by
      rcases houtputs.keys k hk with rfl | hk
      · simp
      rcases hpermissions.keys k hk with rfl | hk
      · simp
      rcases Fields.mem_keys_set.mp hk with rfl | hk
      · simp
      rcases Fields.mem_keys_set.mp hk with rfl | hk
      · simp
      rcases hinputs.keys k hk with rfl | hk
      · simp
      rcases hkind.keys k hk with rfl | hk
      · simp
      rcases hname.keys k hk with rfl | hk
      · simp
      rcases hid.keys k hk with rfl | hk
      · simp
      rcases hversion.keys k hk with rfl | hk
      · simp
      exact .inr hk
    rcases hwritten with hwritten | hk
    · exact (by decide : ["outputs", "permissions", "workflow", "participants", "inputs", "kind", "name", "id",
        "schema_version"] ⊆ specKeys) hwritten
    · exact hsupported k hk
  · simp only [fieldChecks, List.foldlM_cons, List.foldlM_nil, except_bind_eq_ok]
    refine ⟨normalized, hversion.again _ ?_, normalized, hid.again _ ?_, normalized, hname.again _ ?_, normalized,
      hkind.again _ ?_, normalized, hinputs.again _ ?_, rfl⟩
    · simp [houtputs.beside, hpermissions.beside, hinputs.beside, hkind.beside, hname.beside, hid.beside]
    · simp [houtputs.beside, hpermissions.beside, hinputs.beside, hkind.beside, hname.beside]
    · simp [houtputs.beside, hpermissions.beside, hinputs.beside, hkind.beside]
    · simp [houtputs.beside, hpermissions.beside, hinputs.beside]
    · simp [houtputs.beside, hpermissions.beside]
  · apply requiredMappingList_map_dict _ hgetParticipants
    rw [← hparticipants_eq]
    exact ne_nil_of_length_eq (requiredMappingList_ne_nil hrawParticipants) length_entries_validateParticipants
  · rw [← hparticipants_eq] at hparticipants ⊢
    exact validateParticipants_again hparticipants
  · rw [hsetParticipants]
    apply requiredMappingList_map_dict _ hgetSteps
    rw [← hsteps_eq]
    exact ne_nil_of_length_eq (requiredMappingList_ne_nil hrawSteps) length_entries_validateWorkflowSteps
  · rw [← hsteps_eq] at hsteps ⊢
    exact validateWorkflowSteps_again hsteps
  · rw [hsetParticipants, hsetSteps]
    apply hpermissions.again
    exact houtputs.beside "permissions" (by decide)
  · intro hvalid
    apply validateParticipantToolGrants_congr _ hgetPermissions (hgrants hvalid)
    rw [hpermitted]
    simp

/-- Validating a normalised spec accepts it unchanged. -/
theorem validateWorkflowSpec_again {spec : Value} {normalized : Fields}
    (h : validateWorkflowSpec spec = .ok normalized) : validateWorkflowSpec (.dict normalized) = .ok normalized := by
  cases spec with
  | dict spec =>
    rcases validateWorkflowSpec_eq_ok.mp h with ⟨accepted⟩
    exact validateWorkflowSpec_eq_ok.mpr accepted.again
  | _ => cases h

end MindRoom.DynamicWorkflow
