import MindRoom.LargePreviews

/-! # A large message fits or is refused

The event without any text decides whether a preview is returned. The one measured before the upload is no larger
than the one built after it, except that a replacement with a relation then repeats it inside the new content.
-/

namespace MindRoom.LargeMessages

open JsonText (CompactSize compactLength compactSize_compactLength memberSize)

variable {delivery : Delivery} {content source preview : Dict} {text indicator body : String} {isEdit : Bool}

/-! ## Previews with a relation -/

/-- A preview with the relation of its content. -/
def withRelation (content preview : Dict) : Dict :=
  match Dict.get? content "m.relates_to" with
  | none => preview
  | some relation => Dict.set preview "m.relates_to" relation

theorem get?_withRelation {k : String} (hk : k ≠ "m.relates_to") :
    Dict.get? (withRelation content preview) k = Dict.get? preview k := by
  unfold withRelation
  split
  · rfl
  · rw [Dict.get?_set, if_neg hk]

/-- The event whose size decides whether a preview is returned. -/
def emptyEvent (content source preview : Dict) (isEdit : Bool) : Dict :=
  let empty := withBody (withRelation content preview) ""
  if isEdit && (Dict.get? content "m.new_content").isSome then emptyEdit content source empty else empty

theorem fitsOrRefuses_fitLargeMessagePreview (hbody : Dict.get? preview "body" = some (.str body))
    (hplain : Dict.get? preview "m.new_content" = none) :
    FitsOrRefuses delivery text indicator (emptyEvent content source preview isEdit)
      (fitLargeMessagePreview delivery content source preview text indicator isEdit) := by
  have hbody' : Dict.get? (withRelation content preview) "body" = some (.str body) := by
    rw [get?_withRelation (by decide)]
    exact hbody
  have hplain' : Dict.get? (withRelation content preview) "m.new_content" = none := by
    rw [get?_withRelation (by decide)]
    exact hplain
  change FitsOrRefuses _ _ _ _ (if _ then buildTerminalEditPreview delivery content source (withRelation content preview)
    text indicator else fitRegularPreview delivery (withRelation content preview) text indicator)
  unfold emptyEvent
  by_cases hreplaces : (isEdit && (Dict.get? content "m.new_content").isSome) = true
  · simp only [if_pos hreplaces]
    exact fitsOrRefuses_buildTerminalEditPreview hbody'
  · simp only [if_neg hreplaces]
    exact fitsOrRefuses_fitRegularPreview hbody' hplain'

/-! ## Text previews -/

theorem get?_textPreview_body : Dict.get? (textPreview source body) "body" = some (.str body) := by
  rw [textPreview, get?_copyPreviewMetadata]
  rfl

theorem get?_textPreview_of_not_passthrough {k : String} (hk : isPassthroughPreviewKey k = false)
    (hmsgtype : k ≠ "msgtype") (hbody : k ≠ "body") : Dict.get? (textPreview source body) k = none := by
  rw [textPreview, get?_copyPreviewMetadata, hk]
  simp [Dict.get?_cons, hmsgtype, hbody]

theorem set_body_textPreview (before : String) :
    Dict.set (textPreview source before) "body" (.str body) = textPreview source body := by
  unfold textPreview copyPreviewMetadata
  rw [Dict.set_update ?_ rfl]
  · rfl
  · intro entry hentry hkey
    have hpass := List.of_mem_filter hentry
    rw [hkey] at hpass
    exact absurd hpass (by decide)

/-- The event without any text does not depend on the text that the fallback was built with. -/
theorem withBody_textPreview (before : String) :
    withBody (withRelation content (textPreview source before)) "" = withRelation content (textPreview source "") := by
  have hset : Dict.set (withRelation content (textPreview source before)) "body" (.str "") =
      withRelation content (textPreview source "") := by
    unfold withRelation
    split
    · exact set_body_textPreview before
    · rw [Dict.set_set (by decide) ?_, set_body_textPreview]
      have hpresent : Dict.get? (textPreview source before) "body" = some (.str before) := get?_textPreview_body
      exact congrArg Option.isSome hpresent
  have hlong : Dict.obj? (withRelation content (textPreview source "")) longTextKey = none := by
    rw [Dict.obj?, get?_withRelation (by decide),
      get?_textPreview_of_not_passthrough (by decide) (by decide) (by decide)]
  simp only [withBody, hset, hlong]

theorem exists_textFallbackFrom (source : Dict) (text : String) (sizeLimit limit : Nat) :
    ∃ body, textFallbackFrom source text sizeLimit limit = textPreview source body := by
  induction limit using textFallbackFrom.induct source text sizeLimit with
  | case1 limit preview hsize =>
    rw [textFallbackFrom, if_pos hsize]
    exact ⟨_, rfl⟩
  | case2 preview hsize =>
    rw [textFallbackFrom, if_neg hsize, dif_pos rfl]
    exact ⟨_, rfl⟩
  | case3 limit preview hsize hlimit ih =>
    rw [textFallbackFrom, if_neg hsize, dif_neg hlimit]
    exact ih

/-- The event without any text that stands alone when the upload fails. -/
def emptyFallback (content source : Dict) (isEdit : Bool) : Dict :=
  let empty := withRelation content (textPreview source "")
  if isEdit && (Dict.get? content "m.new_content").isSome then emptyEdit content source empty else empty

theorem fitsOrRefuses_textFallback (sizeLimit : Nat) :
    FitsOrRefuses delivery text indicator (emptyFallback content source isEdit)
      (fitLargeMessagePreview delivery content source (buildTextFallbackContent source text sizeLimit) text indicator
        isEdit) := by
  rcases exists_textFallbackFrom source text sizeLimit (sizeLimit - previewOverheadBytes) with ⟨body, hbody⟩
  rw [buildTextFallbackContent, hbody]
  have hempty : emptyFallback content source isEdit = emptyEvent content source (textPreview source body) isEdit := by
    rw [emptyFallback, emptyEvent, withBody_textPreview]
  rw [hempty]
  exact fitsOrRefuses_fitLargeMessagePreview get?_textPreview_body
    (get?_textPreview_of_not_passthrough (by decide) (by decide) (by decide))

/-! ## After the upload -/

theorem get?_sidecarPreview {encrypted : Bool} {sidecar : Sidecar} {originalSize sizeLimit : Nat} {k : String}
    (hpass : isPassthroughPreviewKey k = false) (hfile : k ≠ "file") (hurl : k ≠ "url") (hlong : k ≠ longTextKey) :
    Dict.get? (addSidecarMetadata (copyPreviewMetadata source (fileContent sidecar text sizeLimit)) encrypted sidecar
      originalSize) k = Dict.get? (fileContent sidecar text sizeLimit) k := by
  rw [get?_addSidecarMetadata hfile hurl hlong, get?_copyPreviewMetadata, hpass]
  simp

inductive Uploaded (delivery : Delivery) (text : String) (empty : Dict) : Except PrepareError Dict → Prop
  | fits (event : Dict) (indicator : String) : fitsEvent delivery event = true →
      indicator ∈ [continuationIndicator, streamingPreviewTruncationIndicator, sidecarUploadFallbackIndicator] →
      ShowsPreview text indicator event → Uploaded delivery text empty (.ok event)
  | refuses : fitsEvent delivery empty = false → Uploaded delivery text empty (.error .tooLarge)

theorem uploaded_uploadAndFit (sizeLimit currentSize : Nat) (sidecar : Sidecar) :
    Uploaded delivery text (emptyFallback content source isEdit)
      (uploadAndFit delivery content source text isEdit sizeLimit currentSize sidecar) := by
  have hfallback : FitsOrRefuses delivery text sidecarUploadFallbackIndicator (emptyFallback content source isEdit)
      (fitLargeMessagePreview delivery content source (buildTextFallbackContent source text sizeLimit) text
        sidecarUploadFallbackIndicator isEdit) := fitsOrRefuses_textFallback sizeLimit
  generalize hpreview : addSidecarMetadata (copyPreviewMetadata source (fileContent sidecar text sizeLimit))
    delivery.encrypted sidecar currentSize = preview
  have hbody : Dict.get? preview "body" =
      some (.str (createPreview text (sizeLimit - previewOverheadBytes) continuationIndicator)) := by
    rw [← hpreview, get?_sidecarPreview (by decide) (by decide) (by decide) (by decide)]
    rfl
  have hplain : Dict.get? preview "m.new_content" = none := by
    rw [← hpreview, get?_sidecarPreview (by decide) (by decide) (by decide) (by decide)]
    rcases sidecar with ⟨_, _ | _⟩ <;> rfl
  have hsidecar : FitsOrRefuses delivery text continuationIndicator (emptyEvent content source preview isEdit)
      (fitLargeMessagePreview delivery content source preview text continuationIndicator isEdit) :=
    fitsOrRefuses_fitLargeMessagePreview hbody hplain
  unfold uploadAndFit
  generalize fitLargeMessagePreview delivery content source (buildTextFallbackContent source text sizeLimit) text
    sidecarUploadFallbackIndicator isEdit = fallback at hfallback
  simp only [hpreview]
  generalize fitLargeMessagePreview delivery content source preview text continuationIndicator isEdit = fitted
    at hsidecar
  by_cases husable : sidecarUploadIsUsable delivery.encrypted sidecar = true
  · simp only [if_pos husable]
    cases hsidecar with
    | fits event _ hfits hshows =>
      simp only [if_pos hfits]
      exact .fits event _ hfits (by decide) hshows
    | refuses _ =>
      cases hfallback with
      | fits event _ hfits hshows =>
        simp only [if_pos hfits]
        exact .fits event _ hfits (by decide) hshows
      | refuses hempty => exact .refuses hempty
  · simp only [if_neg husable]
    cases hfallback with
    | fits event _ hfits hshows =>
      simp only [if_pos hfits]
      exact .fits event _ hfits (by decide) hshows
    | refuses hempty => exact .refuses hempty

/-! ## Streaming previews -/

theorem showsPreview_streamingEditEvent (sidecar : Sidecar) (originalSize limit : Nat) :
    ShowsPreview text streamingPreviewTruncationIndicator
      (streamingEditEvent delivery content source text sidecar originalSize limit) := by
  have hshown := isPreview_createPreview text streamingPreviewTruncationIndicator limit
  constructor
  · intro hnone
    rw [streamingEditEvent, get?_copyEditWrapperMetadata] at hnone
    cases hnone
  · intro value hvalue
    rw [streamingEditEvent, get?_copyEditWrapperMetadata] at hvalue
    refine ⟨⟨_, _, (Option.some.inj hvalue).symm, hshown, ?_⟩, .inr ⟨_, hshown, ?_⟩⟩
    · rw [get?_addSidecarMetadata (by decide) (by decide) (by decide), get?_copyPreviewMetadata]
      rfl
    · rw [streamingEditEvent, get?_copyEditWrapperMetadata]
      rfl

theorem fits_of_buildNonterminalStreamingEditPreview (sidecar : Sidecar) (originalSize limit : Nat) {event : Dict}
    (h : buildNonterminalStreamingEditPreview delivery content source text sidecar originalSize limit = some event) :
    fitsEvent delivery event = true ∧ ShowsPreview text streamingPreviewTruncationIndicator event := by
  induction limit using buildNonterminalStreamingEditPreview.induct delivery content source text sidecar originalSize with
  | case1 limit built hfits =>
    rw [buildNonterminalStreamingEditPreview, if_pos hfits, Option.some.injEq] at h
    rw [← h]
    exact ⟨hfits, showsPreview_streamingEditEvent sidecar originalSize limit⟩
  | case2 built hfits =>
    rw [buildNonterminalStreamingEditPreview, if_neg hfits, dif_pos rfl] at h
    cases h
  | case3 limit built hfits hlimit ih =>
    rw [buildNonterminalStreamingEditPreview, if_neg hfits, dif_neg hlimit] at h
    exact ih h

theorem uploaded_streamingPreview {empty event : Dict} {currentSize : Nat} {sidecar : Sidecar}
    (h : streamingPreview delivery content source text currentSize sidecar = some event) :
    Uploaded delivery text empty (.ok event) := by
  rcases fits_of_buildNonterminalStreamingEditPreview _ _ _ h with ⟨hfits, hshows⟩
  exact .fits event _ hfits (by decide) hshows

/-! ## Sizes of events -/

theorem compactLength_repeated {c : Char} (n : Nat) (hplain : JsonText.escapeChar c = [c]) :
    compactLength (.str (repeated c n)) = n + 2 := by
  have hflat : (List.replicate n c).flatMap JsonText.escapeChar = List.replicate n c := by
    induction n with
    | zero => rfl
    | succ n ih => rw [List.replicate_succ, List.flatMap_cons, ih, hplain, List.singleton_append]
  simp [compactLength, JsonText.compact, JsonText.dumpsStr, repeated, hflat]

theorem ciphertextBytes_mono {few many : Nat} (h : few ≤ many) : ciphertextBytes few ≤ ciphertextBytes many := by
  have hpadded : (few / 16 + 1) * 16 ≤ (many / 16 + 1) * 16 := by omega
  have hbits := Nat.size_le_size hpadded
  simp only [ciphertextBytes]
  omega

/-- An event that takes no more room, and is wrapped alike. -/
structure NoLarger (few many : Dict) : Prop where
  size : ∀ {size : Json → Nat}, CompactSize size → size (.obj few) ≤ size (.obj many)
  relation : Dict.obj? few "m.relates_to" = Dict.obj? many "m.relates_to"
  visible : encryptionVisibleMetadata few = encryptionVisibleMetadata many

theorem calculateEventSize_estimatedContent_mono {few many : Dict} (h : NoLarger few many) {n m : Nat} (hle : n ≤ m) :
    calculateEventSize (estimatedContent delivery few n) ≤ calculateEventSize (estimatedContent delivery many m) := by
  have hciphertext : memberSize compactLength ("ciphertext", .str (repeated 'c' n)) ≤
      memberSize compactLength ("ciphertext", .str (repeated 'c' m)) := by
    rw [memberSize, memberSize, compactLength_repeated n (by decide), compactLength_repeated m (by decide)]
    exact Nat.add_le_add_left (Nat.add_le_add_right hle 2) _
  have henvelope : ∃ after, ∀ n, estimatedContent delivery many n = [("algorithm", .str "m.megolm.v1.aes-sha2"),
      ("sender_key", .str (repeated 's' 43))] ++ ("ciphertext", .str (repeated 'c' n)) :: after :=
    ⟨_, fun _ => rfl⟩
  rcases henvelope with ⟨after, hafter⟩
  have hsame : estimatedContent delivery few n = estimatedContent delivery many n := by
    rw [estimatedContent, h.relation, h.visible, estimatedContent]
  rw [hsame, hafter, hafter, calculateEventSize, calculateEventSize]
  exact Nat.add_le_add_right (compactSize_compactLength.replace _ _ hciphertext) _

/-- Wherever an event fits, one that is no larger does, with or without encryption. -/
theorem NoLarger.fitsEvent {few many : Dict} (h : NoLarger few many) (hsize : CompactSize delivery.toJsonBytes)
    (hfits : fitsEvent delivery many = true) : fitsEvent delivery few = true := by
  unfold LargeMessages.fitsEvent calculateDeliveryEventSize at hfits ⊢
  rw [decide_eq_true_eq] at hfits ⊢
  cases hencrypted : delivery.encrypted with
  | false =>
    rw [hencrypted] at hfits
    have hevent := h.size compactSize_compactLength
    simp only [Bool.false_eq_true, if_false, calculateEventSize] at hfits ⊢
    omega
  | true =>
    rw [hencrypted] at hfits
    simp only [if_true] at hfits ⊢
    have hmember : memberSize delivery.toJsonBytes ("content", .obj few) ≤
        memberSize delivery.toJsonBytes ("content", .obj many) :=
      Nat.add_le_add_left (h.size hsize) _
    have hplaintext := hsize.replace [] [("type", .str "m.room.message"), ("room_id", .str delivery.roomId)] hmember
    exact (calculateEventSize_estimatedContent_mono h (ciphertextBytes_mono hplaintext)).trans hfits

end MindRoom.LargeMessages
