import MindRoom.LargeMessageFit

/-! # The promise of a large message

What is refused is refused before the upload. The event measured before it decides, except for a replacement with a
relation, which is measured once and built with the relation twice.
-/

namespace MindRoom.LargeMessages

open JsonText (CompactSize compactLength compactSize_compactLength memberSize)

variable {delivery : Delivery} {content source : Dict} {text : String} {isEdit : Bool}

/-! ## The event measured before the upload -/

theorem set_of_absent {d : Dict} {k : String} {v : Json} (h : Dict.get? d k = none) : Dict.set d k v = d ++ [(k, v)] := by
  have hlookup : d.lookup k = none := h
  rw [Dict.set, hlookup]
  rfl

theorem encryptionVisibleMetadata_congr {few many : Dict}
    (hstatus : Dict.get? few streamStatusKey = Dict.get? many streamStatusKey)
    (hvoice : Dict.get? few "com.mindroom.visible_router_voice_echo" =
      Dict.get? many "com.mindroom.visible_router_voice_echo")
    (hreaction : Dict.get? few "com.mindroom.config_confirmation_reaction" =
      Dict.get? many "com.mindroom.config_confirmation_reaction") :
    encryptionVisibleMetadata few = encryptionVisibleMetadata many := by
  simp only [encryptionVisibleMetadata, Dict.str?, hstatus, hvoice, hreaction]

theorem emptyFallback_of_not_edit : emptyFallback content source false = minimumEvent content source false := rfl

theorem emptyFallback_of_no_relation (hnew : (Dict.get? content "m.new_content").isSome)
    (hrelation : Dict.get? content "m.relates_to" = none) :
    emptyFallback content source true = minimumEvent content source true := by
  simp only [emptyFallback, minimumEvent, emptyEdit, withRelation, hnew, hrelation, Bool.and_self, if_true]

theorem get?_emptyEdit {inner : Dict} {k : String} (hk : k ≠ "body") :
    Dict.get? (emptyEdit content source inner) k = Dict.get? (wrapLargeEdit content source inner) k := by
  rw [emptyEdit, Dict.get?_set, if_neg hk]

/-- The members of a wrapper that no metadata replaces. -/
theorem sublist_wrapLargeEdit (inner : Dict) :
    [("m.new_content", Json.obj inner), ("m.relates_to", (Dict.get? content "m.relates_to").getD (.obj []))].Sublist
      (wrapLargeEdit content source inner) := by
  have hbare : ∀ msgtype body : Json, [("m.new_content", Json.obj inner),
      ("m.relates_to", (Dict.get? content "m.relates_to").getD (.obj []))].Sublist [("msgtype", msgtype), ("body", body),
        ("m.new_content", .obj inner), ("m.relates_to", (Dict.get? content "m.relates_to").getD (.obj []))] := by
    intro msgtype body
    exact .cons _ (.cons _ (.refl _))
  unfold wrapLargeEdit
  refine Dict.sublist_update ?_ ?_
  · split
    · refine Dict.sublist_update (hbare _ _) ?_
      intro entry hentry hkey
      rcases List.mem_filterMap.mp hentry with ⟨key, hfile, hvalue⟩
      rcases Option.map_eq_some_iff.mp hvalue with ⟨value, -, heq⟩
      rw [← heq] at hkey
      simp only [List.map_cons, List.map_nil, List.mem_cons, List.not_mem_nil, or_false] at hkey
      rcases hkey with hkey | hkey
      · rw [hkey] at hfile
        exact absurd hfile (by decide)
      · rw [hkey] at hfile
        exact absurd hfile (by decide)
    · exact hbare _ _
  · intro entry hentry hkey
    have hpass := List.of_mem_filter hentry
    simp only [List.map_cons, List.map_nil, List.mem_cons, List.not_mem_nil, or_false] at hkey
    rcases hkey with hkey | hkey
    · rw [hkey] at hpass
      exact absurd hpass (by decide)
    · rw [hkey] at hpass
      exact absurd hpass (by decide)

/-- An edit without new content is measured as a replacement of itself, which is larger than what is built. -/
theorem noLarger_minimumEvent {relation : Json} (hnew : Dict.get? content "m.new_content" = none)
    (hrelation : Dict.get? content "m.relates_to" = some relation) :
    NoLarger (emptyFallback content content true) (minimumEvent content content true) := by
  have hfallback : emptyFallback content content true =
      textPreview content "" ++ [("m.relates_to", relation)] := by
    simp only [emptyFallback, hnew, Option.isSome_none, Bool.and_false, Bool.false_eq_true, if_false, withRelation,
      hrelation]
    exact set_of_absent (get?_textPreview_of_not_passthrough (by decide) (by decide) (by decide))
  have hminimum : minimumEvent content content true = emptyEdit content content (textPreview content "") := rfl
  have hget : ∀ k, k ≠ "m.relates_to" → Dict.get? (emptyFallback content content true) k =
      Dict.get? (textPreview content "") k := by
    intro k hk
    rw [hfallback, Dict.get?_append, Dict.get?_cons, if_neg hk, Dict.get?_nil, Option.or_none]
  constructor
  · intro size hsize
    have hsublist : [("m.new_content", Json.obj (textPreview content "")), ("m.relates_to", relation)].Sublist
        (minimumEvent content content true) := by
      refine Dict.sublist_set ?_ (by simp)
      have hwrapper := @sublist_wrapLargeEdit content content (textPreview content "")
      rwa [hrelation] at hwrapper
    have hsmall := hsize.concat (textPreview content "") ("m.relates_to", relation)
    have hlarge := hsize.sublist hsublist
    rw [hsize.pair, memberSize] at hlarge
    rw [hfallback]
    simp only at hsmall hlarge
    omega
  · have hsame : Dict.get? (emptyFallback content content true) "m.relates_to" =
        Dict.get? (minimumEvent content content true) "m.relates_to" := by
      rw [hfallback, Dict.get?_append, get?_textPreview_of_not_passthrough (by decide) (by decide) (by decide),
        hminimum, get?_emptyEdit (by decide), get?_wrapLargeEdit (by decide) (by decide), hrelation]
      rfl
    rw [Dict.obj?, Dict.obj?, hsame]
  · refine encryptionVisibleMetadata_congr ?_ ?_ ?_
    · rw [hget _ (by decide), textPreview, get?_copyPreviewMetadata, hminimum, get?_emptyEdit (by decide),
        get?_wrapLargeEdit (by decide) (by decide)]
      rfl
    · rw [hget _ (by decide), textPreview, get?_copyPreviewMetadata, hminimum, get?_emptyEdit (by decide),
        get?_wrapLargeEdit (by decide) (by decide)]
      rfl
    · rw [hget _ (by decide), textPreview, get?_copyPreviewMetadata, hminimum, get?_emptyEdit (by decide),
        get?_wrapLargeEdit (by decide) (by decide)]
      rfl

/-! ## Messages -/

def sourceDict (content : Dict) : Dict := (Dict.obj? content "m.new_content").getD content

/-- A content of the shape of a message, wherever the shape is read. -/
structure IsMessage (content : Dict) : Prop where
  relation : ∀ value, Dict.get? content "m.relates_to" = some value → ∃ relation, value = .obj relation
  replacement : ∀ value, Dict.get? content "m.new_content" = some value → ∃ replacement, value = .obj replacement
  body : ∃ text, Dict.get? (sourceDict content) "body" = some (.str text)
  status : ∀ value, Dict.get? (sourceDict content) streamStatusKey = some value →
    (∀ items, value ≠ .arr items) ∧ ∀ members, value ≠ .obj members

theorem isEditMessage_error {error : PrepareError} (h : isEditMessage content = .error error) : error = .malformed := by
  unfold isEditMessage at h
  split at h
  · cases h
  · split at h <;> cases h
    rfl

theorem sourceOf_error {error : PrepareError} (h : sourceOf content = .error error) : error = .malformed := by
  simp only [sourceOf] at h
  split at h <;> cases h
  rfl

theorem sourceOf_eq_ok (h : sourceOf content = .ok (source, text)) :
    source = sourceDict content ∧ Dict.get? source "body" = some (.str text) := by
  have hbody : ∀ {d : Dict}, (Dict.str? d "body").map (fun text => (d, text)) = some (source, text) →
      source = d ∧ Dict.get? source "body" = some (.str text) := by
    intro d hd
    rcases Option.map_eq_some_iff.mp hd with ⟨found, hfound, heq⟩
    rw [Prod.mk.injEq] at heq
    rw [← heq.1, ← heq.2]
    refine ⟨rfl, ?_⟩
    unfold Dict.str? at hfound
    split at hfound
    · rename_i s hs
      rw [hs, Option.some.inj hfound]
    · cases hfound
  unfold sourceOf at h
  unfold sourceDict Dict.obj?
  cases hnew : Dict.get? content "m.new_content" with
  | none =>
    simp only [hnew, Option.bind_some] at h ⊢
    split at h
    · cases h
    · rename_i sourceText hsource
      cases h
      exact hbody hsource
  | some value =>
    cases value with
    | obj replacement =>
      simp only [hnew, Option.bind_some] at h ⊢
      split at h
      · cases h
      · rename_i sourceText hsource
        cases h
        exact hbody hsource
    | _ =>
      simp only [hnew, Option.bind_none] at h
      cases h

theorem IsMessage.sourceOf (h : IsMessage content) : ∃ text, sourceOf content = .ok (sourceDict content, text) := by
  rcases h.body with ⟨text, htext⟩
  refine ⟨text, ?_⟩
  unfold LargeMessages.sourceOf
  cases hnew : Dict.get? content "m.new_content" with
  | none =>
    have hsource : sourceDict content = content := by
      rw [sourceDict, Dict.obj?, hnew]
      rfl
    rw [hsource] at htext ⊢
    simp only [Option.bind_some, Dict.str?, htext, Option.map_some]
  | some value =>
    rcases h.replacement value hnew with ⟨replacement, rfl⟩
    have hsource : sourceDict content = replacement := by
      rw [sourceDict, Dict.obj?, hnew]
      rfl
    rw [hsource] at htext ⊢
    simp only [Option.bind_some, Dict.str?, htext, Option.map_some]

theorem IsMessage.isEditMessage (h : IsMessage content) : ∃ isEdit, isEditMessage content = .ok isEdit := by
  unfold LargeMessages.isEditMessage
  split
  · exact ⟨_, rfl⟩
  · cases hrelation : Dict.get? content "m.relates_to" with
    | none => exact ⟨_, rfl⟩
    | some value =>
      rcases h.relation value hrelation with ⟨relation, rfl⟩
      exact ⟨_, rfl⟩

theorem IsMessage.isNonterminalStreamContent (h : IsMessage content) :
    ∃ nonterminal, isNonterminalStreamContent (sourceDict content) = .ok nonterminal := by
  unfold LargeMessages.isNonterminalStreamContent
  split
  · exact ⟨_, rfl⟩
  · rename_i items hstatus
    exact absurd rfl ((h.status _ hstatus).1 items)
  · rename_i members hstatus
    exact absurd rfl ((h.status _ hstatus).2 members)
  · exact ⟨_, rfl⟩

theorem get?_stripped {p : Prop} [Decidable p] {d : Dict} {k : String} (hk : k ≠ durableFinalOutcomeKey) :
    Dict.get? (if p then Dict.pop d durableFinalOutcomeKey else d) k = Dict.get? d k := by
  split
  · rw [Dict.get?_pop, if_neg hk]
  · rfl

/-- The source loses at most an inline outcome. -/
theorem get?_sourceDict_withoutInlineFinalResult {k : String} (hk : k ≠ durableFinalOutcomeKey) :
    Dict.get? (sourceDict (withoutInlineFinalResult content)) k = Dict.get? (sourceDict content) k := by
  have hnew : ∀ {p : Prop} [Decidable p], Dict.obj? (if p then Dict.pop content durableFinalOutcomeKey else content)
      "m.new_content" = Dict.obj? content "m.new_content" := by
    intro p _
    rw [Dict.obj?, Dict.obj?, get?_stripped (by decide)]
  simp only [withoutInlineFinalResult]
  cases hreplacement : Dict.obj? content "m.new_content" with
  | none =>
    simp only [sourceDict, hnew, hreplacement, Option.getD_none]
    exact get?_stripped hk
  | some replacement =>
    simp only
    split
    · have hset : ∀ outer inner : Dict, Dict.obj? (Dict.set outer "m.new_content" (.obj inner)) "m.new_content" =
          some inner := by
        intro outer inner
        rw [Dict.obj?_eq_some, Dict.get?_set, if_pos rfl]
      simp only [sourceDict, hreplacement, hset, Option.getD_some, Dict.get?_pop, if_neg hk]
    · simp only [sourceDict, hnew, hreplacement, Option.getD_some]

theorem get?_withoutInlineFinalResult {k : String} (hk : k ≠ durableFinalOutcomeKey) (hnew : k ≠ "m.new_content") :
    Dict.get? (withoutInlineFinalResult content) k = Dict.get? content k := by
  simp only [withoutInlineFinalResult]
  split
  · exact get?_stripped hk
  · split
    · rw [Dict.get?_set, if_neg hnew, get?_stripped hk]
    · exact get?_stripped hk

theorem IsMessage.withoutInlineFinalResult (h : IsMessage content) : IsMessage (withoutInlineFinalResult content) := by
  constructor
  · rw [get?_withoutInlineFinalResult (by decide) (by decide)]
    exact h.relation
  · simp only [LargeMessages.withoutInlineFinalResult]
    split
    · rw [get?_stripped (by decide)]
      exact h.replacement
    · split
      · intro value hvalue
        rw [Dict.get?_set, if_pos rfl] at hvalue
        exact ⟨_, (Option.some.inj hvalue).symm⟩
      · rw [get?_stripped (by decide)]
        exact h.replacement
  · rw [get?_sourceDict_withoutInlineFinalResult (by decide)]
    exact h.body
  · rw [get?_sourceDict_withoutInlineFinalResult (by decide)]
    exact h.status

/-! ## The promise -/

/-- The check before the upload passes. -/
def MinimumFits (delivery : Delivery) (content : Dict) : Prop :=
  ∃ isEdit source text, isEditMessage content = .ok isEdit ∧ sourceOf content = .ok (source, text) ∧
    fitsEvent delivery (minimumEvent content source isEdit) = true

/-- Where a replacement has a relation, the event without any text also fits with the relation in its new content. -/
def RelationRepeats (delivery : Delivery) (content : Dict) : Prop :=
  (Dict.get? content "m.new_content").isSome → (Dict.get? content "m.relates_to").isSome →
    fitsEvent delivery (emptyEdit content (sourceDict content)
      (withRelation content (textPreview (sourceDict content) ""))) = true

theorem fits_emptyFallback (hsize : CompactSize delivery.toJsonBytes) (hedit : isEditMessage content = .ok isEdit)
    (hsource : sourceOf content = .ok (source, text)) (hrepeats : RelationRepeats delivery content)
    (hminimum : fitsEvent delivery (minimumEvent content source isEdit) = true) :
    fitsEvent delivery (emptyFallback content source isEdit) = true := by
  rcases sourceOf_eq_ok hsource with ⟨rfl, -⟩
  cases isEdit with
  | false => exact hminimum
  | true =>
    cases hnew : Dict.get? content "m.new_content" with
    | some value =>
      have hsome : (Dict.get? content "m.new_content").isSome := by rw [hnew]; rfl
      cases hrelation : Dict.get? content "m.relates_to" with
      | none =>
        rw [emptyFallback_of_no_relation hsome hrelation]
        exact hminimum
      | some relation =>
        have hfits := hrepeats hsome (by rw [hrelation]; rfl)
        simp only [emptyFallback, hsome, Bool.and_self, if_true]
        exact hfits
    | none =>
      have hself : sourceDict content = content := by
        rw [sourceDict, Dict.obj?, hnew]
        rfl
      rw [hself] at hminimum ⊢
      unfold isEditMessage at hedit
      rw [hnew] at hedit
      cases hrelation : Dict.get? content "m.relates_to" with
      | none =>
        rw [hrelation] at hedit
        cases hedit
      | some relation => exact (noLarger_minimumEvent hnew hrelation).fitsEvent hsize hminimum

/-- What preparing a message promises, about the content less an inline outcome of an older version. -/
structure Promised (delivery : Delivery) (content : Dict) (prepared : Prepared) : Prop where
  /-- What is returned is the content within the limits, or a preview within the hard limit. -/
  returned : ∀ event, prepared.result = .ok event →
    (event = withoutInlineFinalResult content ∧ prepared.uploads = 0 ∧
      ∃ isEdit, isEditMessage event = .ok isEdit ∧ calculateEventSize event ≤ sizeLimitOf isEdit ∧
        calculateDeliveryEventSize delivery event ≤ matrixEventHardLimit) ∨
    (calculateDeliveryEventSize delivery event ≤ matrixEventHardLimit ∧
      ∃ source text indicator, sourceOf (withoutInlineFinalResult content) = .ok (source, text) ∧
        indicator ∈ [continuationIndicator, streamingPreviewTruncationIndicator, sidecarUploadFallbackIndicator] ∧
        ShowsPreview text indicator event)
  /-- Nothing is uploaded before the check passes. -/
  checked : 0 < prepared.uploads → MinimumFits delivery (withoutInlineFinalResult content)
  refused : RelationRepeats delivery (withoutInlineFinalResult content) → prepared.result = .error .tooLarge →
    prepared.uploads = 0 ∧ ¬ MinimumFits delivery (withoutInlineFinalResult content)
  /-- Where the check passes an event is returned, whatever becomes of the upload. -/
  returns : IsMessage content → RelationRepeats delivery (withoutInlineFinalResult content) →
    MinimumFits delivery (withoutInlineFinalResult content) → ∃ event, prepared.result = .ok event
  malformed : prepared.result = .error .malformed → prepared.uploads = 0 ∧ ¬ IsMessage content

theorem fitsEvent_iff {event : Dict} :
    fitsEvent delivery event = true ↔ calculateDeliveryEventSize delivery event ≤ matrixEventHardLimit := by
  rw [fitsEvent, decide_eq_true_eq]

/-- Once the check has passed, a preview is returned, or a replacement does not fit with its relation repeated. -/
theorem uploaded_prepareOversized (sizeLimit : Nat) (sidecars : Nat → Sidecar) :
    (prepareOversized delivery content source text isEdit sizeLimit sidecars = ⟨.error .malformed, 0⟩ ∧
      ∃ error, isNonterminalStreamContent source = .error error) ∨
    Uploaded delivery text (emptyFallback content source isEdit)
      (prepareOversized delivery content source text isEdit sizeLimit sidecars).result := by
  have hmalformed : ∀ error, isNonterminalStreamContent source = .error error → error = .malformed := by
    intro error herror
    unfold isNonterminalStreamContent at herror
    split at herror <;> cases herror <;> rfl
  unfold prepareOversized
  cases hnonterminal : if isEdit then isNonterminalStreamContent source else .ok false with
  | error error =>
    left
    cases isEdit with
    | false => cases hnonterminal
    | true =>
      rw [if_pos rfl] at hnonterminal
      refine ⟨?_, error, hnonterminal⟩
      rw [hmalformed error hnonterminal]
  | ok nonterminal =>
    right
    cases nonterminal with
    | false => exact uploaded_uploadAndFit _ _ _
    | true =>
      simp only
      cases hstreaming : streamingPreview delivery content source text (calculateEventSize content) (sidecars 0) with
      | none => exact uploaded_uploadAndFit _ _ _
      | some event => exact uploaded_streamingPreview hstreaming

theorem promised_malformed {error : PrepareError} (h : ¬ IsMessage content) (herror : error = .malformed) :
    Promised delivery content ⟨.error error, 0⟩ where
  returned := by
    intro event hevent
    cases hevent
  checked := by
    intro huploads
    cases huploads
  refused := by
    intro _ hresult
    rw [herror] at hresult
    cases hresult
  returns := by
    intro hmessage
    exact absurd hmessage h
  malformed := by
    intro _
    exact ⟨rfl, h⟩

theorem promised_untouched (hedit : isEditMessage (withoutInlineFinalResult content) = .ok isEdit)
    (hsize : calculateEventSize (withoutInlineFinalResult content) ≤ sizeLimitOf isEdit)
    (hfits : fitsEvent delivery (withoutInlineFinalResult content) = true) :
    Promised delivery content ⟨.ok (withoutInlineFinalResult content), 0⟩ where
  returned := by
    intro event hevent
    cases hevent
    exact .inl ⟨rfl, rfl, isEdit, hedit, hsize, fitsEvent_iff.mp hfits⟩
  checked := by
    intro huploads
    cases huploads
  refused := by
    intro _ hresult
    cases hresult
  returns := by
    intro _ _ _
    exact ⟨_, rfl⟩
  malformed := by
    intro hresult
    cases hresult

theorem promised_refused (h : ¬ MinimumFits delivery (withoutInlineFinalResult content)) :
    Promised delivery content ⟨.error .tooLarge, 0⟩ where
  returned := by
    intro event hevent
    cases hevent
  checked := by
    intro huploads
    cases huploads
  refused := by
    intro _ _
    exact ⟨rfl, h⟩
  returns := by
    intro _ _ hminimum
    exact absurd hminimum h
  malformed := by
    intro hresult
    cases hresult

theorem promised_uploaded {prepared : Prepared} (hsize : CompactSize delivery.toJsonBytes)
    (hedit : isEditMessage (withoutInlineFinalResult content) = .ok isEdit)
    (hsource : sourceOf (withoutInlineFinalResult content) = .ok (source, text))
    (hminimum : fitsEvent delivery (minimumEvent (withoutInlineFinalResult content) source isEdit) = true)
    (h : Uploaded delivery text (emptyFallback (withoutInlineFinalResult content) source isEdit) prepared.result) :
    Promised delivery content prepared := by
  rcases prepared with ⟨result, uploads⟩
  simp only at h
  cases h with
  | fits event indicator hfits hindicator hshows =>
    refine ⟨?_, ?_, ?_, ?_, ?_⟩
    · intro _ hevent
      cases hevent
      exact .inr ⟨fitsEvent_iff.mp hfits, source, text, indicator, hsource, hindicator, hshows⟩
    · intro _
      exact ⟨isEdit, source, text, hedit, hsource, hminimum⟩
    · intro _ hresult
      cases hresult
    · intro _ _ _
      exact ⟨event, rfl⟩
    · intro hresult
      cases hresult
  | refuses hempty =>
    have hnot : ¬ RelationRepeats delivery (withoutInlineFinalResult content) := by
      intro hrepeats
      rw [fits_emptyFallback hsize hedit hsource hrepeats hminimum] at hempty
      cases hempty
    refine ⟨?_, ?_, ?_, ?_, ?_⟩
    · intro _ hevent
      cases hevent
    · intro _
      exact ⟨isEdit, source, text, hedit, hsource, hminimum⟩
    · intro hrepeats
      exact absurd hrepeats hnot
    · intro _ hrepeats
      exact absurd hrepeats hnot
    · intro hresult
      cases hresult

/-- A room without encryption, where nothing is formatted. -/
def plainDelivery : Delivery := ⟨"!room", false, none, compactLength, id⟩

/-- Every upload fails. -/
def noSidecars : Nat → Sidecar := fun _ => ⟨none, none⟩

def shortMessage : Dict := [("msgtype", .str "m.text"), ("body", .str "hi")]

/-- A short text with a long formatting. -/
def formattedMessage (formatted : String) : Dict := shortMessage ++ [("formatted_body", .str formatted)]

/-- A short text with an outcome of an older version. -/
def outcomeMessage : Dict := shortMessage ++ [(durableFinalOutcomeKey, .str "done")]

def noteSource (note : String) : Dict := shortMessage ++ [("io.mindroom.note", .str note)]

def noteEdit (note : String) : Dict :=
  [("msgtype", .str "m.text"), ("body", .str "* hi"), ("m.new_content", .obj (noteSource note)),
    ("m.relates_to", .obj [("rel_type", .str "m.replace"), ("event_id", .str "$event")])]

theorem calculateEventSize_formattedMessage (formatted : String) :
    calculateEventSize (formattedMessage formatted) = 2050 + compactLength (.str formatted) := by
  have hmsgtype : memberSize compactLength ("msgtype", .str "m.text") = 18 := by decide
  have hbody : memberSize compactLength ("body", .str "hi") = 11 := by decide
  have hformatted : memberSize compactLength ("formatted_body", .str formatted) =
      17 + compactLength (.str formatted) := by
    have hkey : compactLength (.str "formatted_body") = 16 := by decide
    rw [memberSize, hkey]
  rw [calculateEventSize, compactSize_compactLength.obj]
  simp only [formattedMessage, shortMessage, List.cons_append, List.nil_append, List.map_cons, List.map_nil,
    List.sum_cons, List.sum_nil, List.length_cons, List.length_nil, hmsgtype, hbody, hformatted]
  omega

theorem textPreview_formattedMessage (formatted body : String) :
    textPreview (formattedMessage formatted) body = [("msgtype", .str "m.text"), ("body", .str body)] := by
  have hmsgtype : isPassthroughPreviewKey "msgtype" = false := by decide
  have hbody : isPassthroughPreviewKey "body" = false := by decide
  have hformatted : isPassthroughPreviewKey "formatted_body" = false := by decide
  have hfilter : (formattedMessage formatted).filter (fun entry => isPassthroughPreviewKey entry.1) = [] := by
    simp only [formattedMessage, shortMessage, List.cons_append, List.nil_append, List.filter_cons, hmsgtype, hbody,
      hformatted, Bool.false_eq_true, if_false, List.filter_nil]
  rw [textPreview, copyPreviewMetadata, hfilter]
  rfl

theorem fitsEvent_plainDelivery {event : Dict} :
    fitsEvent plainDelivery event = true ↔ calculateEventSize event ≤ matrixEventHardLimit := by
  rw [fitsEvent_iff]
  rfl

/-- A text that fits is shown whole: it is the formatting that goes. -/
theorem prepareLargeMessage_formattedMessage {formatted : String} (hlong : 55000 ≤ compactLength (.str formatted)) :
    (prepareLargeMessage plainDelivery (formattedMessage formatted) noSidecars).result = .ok shortMessage := by
  have hsize := calculateEventSize_formattedMessage formatted
  have hnot : ¬ (calculateEventSize (formattedMessage formatted) ≤ sizeLimitOf false ∧
      fitsEvent plainDelivery (formattedMessage formatted) = true) := by
    rintro ⟨hle, -⟩
    rw [hsize, sizeLimitOf, if_neg Bool.false_ne_true, normalMessageLimit] at hle
    omega
  have hsent : withoutInlineFinalResult (formattedMessage formatted) = formattedMessage formatted := rfl
  have hedit : isEditMessage (formattedMessage formatted) = .ok false := rfl
  have hsource : sourceOf (formattedMessage formatted) = .ok (formattedMessage formatted, "hi") := rfl
  have hrelation : Dict.get? (formattedMessage formatted) "m.relates_to" = none := rfl
  have hminimum : fitsEvent plainDelivery (minimumEvent (formattedMessage formatted) (formattedMessage formatted) false) =
      true := by
    rw [minimumEvent, if_neg Bool.false_ne_true, hrelation, textPreview_formattedMessage]
    decide
  have hpreview : createPreview "hi" (sizeLimitOf false - previewOverheadBytes) sidecarUploadFallbackIndicator = "hi" := rfl
  have hfallback : buildTextFallbackContent (formattedMessage formatted) "hi" (sizeLimitOf false) = shortMessage := by
    have hshort : calculateEventSize [("msgtype", .str "m.text"), ("body", .str "hi")] ≤ sizeLimitOf false := by
      decide +kernel
    rw [buildTextFallbackContent, textFallbackFrom, hpreview, textPreview_formattedMessage]
    exact if_pos hshort
  have hfitted : fitLargeMessagePreview plainDelivery (formattedMessage formatted) (formattedMessage formatted)
      shortMessage "hi" sidecarUploadFallbackIndicator false = .ok shortMessage := by
    simp only [fitLargeMessagePreview, hrelation, Bool.false_and, Bool.false_eq_true, if_false]
    decide +kernel
  have hfits : fitsEvent plainDelivery shortMessage = true := by decide
  simp only [prepareLargeMessage, hsent, hedit, if_neg hnot, hsource, if_pos hminimum]
  have hunusable : sidecarUploadIsUsable plainDelivery.encrypted (noSidecars 0) = false := rfl
  simp only [prepareOversized, uploadAndFit, Bool.false_eq_true, if_false, hunusable, hfallback, hfitted, if_pos hfits]

theorem noteSource_metadata {note : String} {p : String → Bool} (hmsgtype : p "msgtype" = false) (hbody : p "body" = false)
    (hnote : p "io.mindroom.note" = true) :
    (noteSource note).filter (fun entry => p entry.1) = [("io.mindroom.note", .str note)] := by
  simp only [noteSource, shortMessage, List.cons_append, List.nil_append, List.filter_cons, hmsgtype, hbody, hnote,
    Bool.false_eq_true, if_false, if_true, List.filter_nil]

/-- An edit without any text, around the members of its new content. -/
def emptyNoteEdit (note : String) (relation : Dict) : Dict :=
  [("msgtype", .str "m.text"), ("body", .str ""),
    ("m.new_content", .obj ([("msgtype", .str "m.text"), ("body", .str ""), ("io.mindroom.note", .str note)] ++ relation)),
    ("m.relates_to", .obj [("rel_type", .str "m.replace"), ("event_id", .str "$event")]),
    ("io.mindroom.note", .str note)]

theorem textPreview_noteSource (note : String) : textPreview (noteSource note) "" =
    [("msgtype", .str "m.text"), ("body", .str ""), ("io.mindroom.note", .str note)] := by
  rw [textPreview, copyPreviewMetadata, noteSource_metadata (by decide) (by decide) (by decide)]
  rfl

theorem emptyEdit_noteEdit (note : String) (relation : Dict) :
    emptyEdit (noteEdit note) (noteSource note) ([("msgtype", .str "m.text"), ("body", .str ""),
      ("io.mindroom.note", .str note)] ++ relation) = emptyNoteEdit note relation := by
  rw [emptyEdit, wrapLargeEdit, copyEditWrapperMetadata, noteSource_metadata (by decide) (by decide) (by decide)]
  rfl

theorem calculateEventSize_emptyNoteEdit (note : String) (relation : Dict) :
    calculateEventSize (emptyNoteEdit note relation) =
      2177 + 2 * compactLength (.str note) + (relation.map (memberSize compactLength)).sum + relation.length := by
  have hmsgtype : memberSize compactLength ("msgtype", .str "m.text") = 18 := by decide
  have hbody : memberSize compactLength ("body", .str "") = 9 := by decide
  have hnote : memberSize compactLength ("io.mindroom.note", .str note) = 19 + compactLength (.str note) := by
    have hkey : compactLength (.str "io.mindroom.note") = 18 := by decide
    rw [memberSize, hkey]
  have hrelation : memberSize compactLength ("m.relates_to",
      .obj [("rel_type", .str "m.replace"), ("event_id", .str "$event")]) = 59 := by decide
  have hkey : compactLength (.str "m.new_content") = 15 := by decide
  rw [emptyNoteEdit, calculateEventSize, compactSize_compactLength.obj]
  simp only [List.map_cons, List.map_nil, List.sum_cons, List.sum_nil, List.length_cons, List.length_nil, hmsgtype,
    hbody, hrelation, hnote]
  rw [memberSize, hkey, compactSize_compactLength.obj]
  simp only [List.cons_append, List.nil_append, List.map_cons, List.sum_cons, List.length_cons, hmsgtype, hbody, hnote]
  omega

/-- An edit is uploaded and then refused, where its minimum fits only without its relation in the new content. -/
theorem prepareLargeMessage_noteEdit {note : String} (hfits : 2 * compactLength (.str note) ≤ 61823)
    (hrepeated : 61763 < 2 * compactLength (.str note)) : MinimumFits plainDelivery (noteEdit note) ∧
      prepareLargeMessage plainDelivery (noteEdit note) noSidecars = ⟨.error .tooLarge, 1⟩ := by
  have hsent : withoutInlineFinalResult (noteEdit note) = noteEdit note := rfl
  have hedit : isEditMessage (noteEdit note) = .ok true := rfl
  have hsource : sourceOf (noteEdit note) = .ok (noteSource note, "hi") := rfl
  have hminimum : minimumEvent (noteEdit note) (noteSource note) true = emptyNoteEdit note [] := by
    rw [← emptyEdit_noteEdit, List.append_nil, ← textPreview_noteSource]
    rfl
  have hfallback : emptyFallback (noteEdit note) (noteSource note) true = emptyNoteEdit note
      [("m.relates_to", .obj [("rel_type", .str "m.replace"), ("event_id", .str "$event")])] := by
    rw [← emptyEdit_noteEdit]
    have hrelation : withRelation (noteEdit note) (textPreview (noteSource note) "") = [("msgtype", .str "m.text"),
        ("body", .str ""), ("io.mindroom.note", .str note)] ++ [("m.relates_to", .obj [("rel_type", .str "m.replace"),
        ("event_id", .str "$event")])] := by
      rw [textPreview_noteSource]
      rfl
    rw [← hrelation]
    rfl
  have hminimumFits : fitsEvent plainDelivery (minimumEvent (noteEdit note) (noteSource note) true) = true := by
    rw [fitsEvent_plainDelivery, hminimum, calculateEventSize_emptyNoteEdit, matrixEventHardLimit]
    simp only [List.map_nil, List.sum_nil, List.length_nil]
    omega
  have hfallbackFits : fitsEvent plainDelivery (emptyFallback (noteEdit note) (noteSource note) true) ≠ true := by
    have hrelation : memberSize compactLength ("m.relates_to",
        .obj [("rel_type", .str "m.replace"), ("event_id", .str "$event")]) = 59 := by decide
    rw [Ne, fitsEvent_plainDelivery, hfallback, calculateEventSize_emptyNoteEdit, matrixEventHardLimit]
    simp only [List.map_cons, List.map_nil, List.sum_cons, List.sum_nil, List.length_cons, List.length_nil, hrelation]
    omega
  refine ⟨⟨true, noteSource note, "hi", hedit, hsource, hminimumFits⟩, ?_⟩
  have hnot : ¬ (calculateEventSize (noteEdit note) ≤ sizeLimitOf true ∧ fitsEvent plainDelivery (noteEdit note) = true) := by
    rintro ⟨hle, -⟩
    have hmember : memberSize compactLength ("m.new_content", .obj (noteSource note)) ≤ calculateEventSize (noteEdit note) := by
      rw [calculateEventSize, compactSize_compactLength.obj]
      simp only [noteEdit, List.map_cons, List.sum_cons]
      omega
    have hnote : memberSize compactLength ("io.mindroom.note", .str note) ≤ compactLength (.obj (noteSource note)) := by
      rw [compactSize_compactLength.obj]
      simp only [noteSource, shortMessage, List.cons_append, List.nil_append, List.map_cons, List.sum_cons]
      omega
    simp only [memberSize] at hmember hnote
    rw [sizeLimitOf, if_pos rfl, editMessageLimit] at hle
    omega
  have hrefused : fitLargeMessagePreview plainDelivery (noteEdit note) (noteSource note)
      (buildTextFallbackContent (noteSource note) "hi" (sizeLimitOf true)) "hi" sidecarUploadFallbackIndicator true =
      .error .tooLarge := by
    have hfitted : FitsOrRefuses plainDelivery "hi" sidecarUploadFallbackIndicator
        (emptyFallback (noteEdit note) (noteSource note) true) (fitLargeMessagePreview plainDelivery (noteEdit note)
          (noteSource note) (buildTextFallbackContent (noteSource note) "hi" (sizeLimitOf true)) "hi"
          sidecarUploadFallbackIndicator true) := fitsOrRefuses_textFallback (sizeLimitOf true)
    cases hresult : fitLargeMessagePreview plainDelivery (noteEdit note) (noteSource note)
      (buildTextFallbackContent (noteSource note) "hi" (sizeLimitOf true)) "hi" sidecarUploadFallbackIndicator true with
    | ok event =>
      rw [hresult] at hfitted
      cases hfitted with
      | fits _ hempty => exact absurd hempty hfallbackFits
    | error error =>
      rw [hresult] at hfitted
      cases hfitted
      rfl
  have hunusable : sidecarUploadIsUsable plainDelivery.encrypted (noSidecars 0) = false := rfl
  have hstatus : isNonterminalStreamContent (noteSource note) = .ok false := rfl
  simp only [prepareLargeMessage, hsent, hedit, if_neg hnot, hsource, if_pos hminimumFits, prepareOversized, if_true,
    hstatus, uploadAndFit, hunusable, Bool.false_eq_true, if_false, hrefused]

end MindRoom.LargeMessages
