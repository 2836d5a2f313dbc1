import MindRoom.LargeMessages

/-! # What a large message shows

A preview is nothing, the whole text, or the beginning of it with a note of what is missing. The searches for a
limit keep whatever they accepted, so a preview event fits as soon as the event without any text does.
-/

namespace MindRoom.LargeMessages

variable {text indicator : String}

/-! ## Previews -/

inductive IsPreview (text indicator : String) : String → Prop
  | empty : IsPreview text indicator ""
  | whole : IsPreview text indicator text
  | alone : IsPreview text indicator (lstripped indicator)
  | truncated (head rest : String) : text = head ++ rest → IsPreview text indicator (head ++ indicator)

theorem exists_prefixByBytes (text : String) (maxBytes : Nat) : ∃ rest, text = prefixByBytes text maxBytes ++ rest := by
  unfold prefixByBytes
  split
  · exact ⟨"", (String.append_empty).symm⟩
  · refine ⟨String.ofList (text.toList.drop (prefixSearch text.toList maxBytes 0 (min text.toList.length maxBytes + 1) 0)),
      ?_⟩
    rw [← String.ofList_append, List.take_append_drop, String.ofList_toList]

theorem isPreview_createPreview (text indicator : String) (limit : Nat) :
    IsPreview text indicator (createPreview text limit indicator) := by
  unfold createPreview
  split
  · exact .whole
  · split
    · exact .alone
    · rcases exists_prefixByBytes text (limit - indicator.utf8ByteSize) with ⟨rest, hrest⟩
      exact .truncated _ rest hrest

theorem isPreview_limitedPreview (text indicator : String) (limit : Nat) :
    IsPreview text indicator (limitedPreview text limit indicator) := by
  unfold limitedPreview
  split
  · exact isPreview_createPreview text indicator limit
  · exact .empty

/-! ## Limits -/

variable (fits : Nat → Bool)

/-- The lower end is always a limit that was accepted, whether or not longer previews make larger events. -/
theorem fits_largestFittingFrom (lower upper : Nat) (hlower : fits lower = true) :
    fits (largestFittingFrom fits lower upper) = true := by
  induction lower, upper using largestFittingFrom.induct fits with
  | case1 lower upper hlt candidate hfits ih =>
    rw [largestFittingFrom, dif_pos hlt]
    simp only [candidate] at hfits ih
    rw [if_pos hfits]
    exact ih hfits
  | case2 lower upper hlt candidate hfits ih =>
    rw [largestFittingFrom, dif_pos hlt]
    simp only [candidate] at hfits ih
    rw [if_neg hfits]
    exact ih hlower
  | case3 lower upper hlt =>
    rw [largestFittingFrom, dif_neg hlt]
    exact hlower

theorem fits_largestFittingLimit (maximum : Nat) (hzero : fits 0 = true) :
    fits (largestFittingLimit maximum fits) = true :=
  fits_largestFittingFrom fits 0 maximum hzero

theorem fits_fittedLimit (maximum : Nat) (hzero : fits 0 = true) : fits (fittedLimit maximum fits) = true := by
  unfold fittedLimit
  split
  · assumption
  · exact fits_largestFittingLimit fits maximum hzero

/-! ## Members of an event -/

variable {source target content inner : Dict} {k : String}

theorem get?_copyPreviewMetadata : Dict.get? (copyPreviewMetadata source target) k =
    (if isPassthroughPreviewKey k then Dict.get? source.reverse k else none).or (Dict.get? target k) := by
  rw [copyPreviewMetadata, Dict.get?_update, ← List.filter_reverse, Dict.get?_filter]

theorem get?_copyEditWrapperMetadata : Dict.get? (copyEditWrapperMetadata source target) k =
    (if isPassthroughEditWrapperKey k then Dict.get? source.reverse k else none).or (Dict.get? target k) := by
  rw [copyEditWrapperMetadata, Dict.get?_update, ← List.filter_reverse, Dict.get?_filter]

theorem get?_copyFileEditFallbackFields (hk : k ∉ fileFallbackKeys) :
    Dict.get? (copyFileEditFallbackFields source target) k = Dict.get? target k := by
  rw [copyFileEditFallbackFields, Dict.get?_update]
  have hnone : Dict.get? (fileFallbackKeys.filterMap fun key =>
      (Dict.get? source key).map fun value => (key, value)).reverse k = none := by
    rw [Dict.get?_eq_none]
    intro hmem
    rcases List.mem_map.mp hmem with ⟨entry, hentry, hkey⟩
    rcases List.mem_filterMap.mp (List.mem_reverse.mp hentry) with ⟨key, hfile, hvalue⟩
    rcases Option.map_eq_some_iff.mp hvalue with ⟨value, -, heq⟩
    rw [← hkey, ← heq] at hk
    exact hk hfile
  rw [hnone, Option.none_or]

theorem get?_withBody {body : String} (hk : k ≠ longTextKey) :
    Dict.get? (withBody content body) k = if k = "body" then some (.str body) else Dict.get? content k := by
  simp only [withBody]
  split
  · exact Dict.get?_set
  · rw [Dict.get?_set, if_neg hk, Dict.get?_set]

theorem get?_addSidecarMetadata {encrypted : Bool} {sidecar : Sidecar} {originalSize : Nat} (hfile : k ≠ "file")
    (hurl : k ≠ "url") (hlong : k ≠ longTextKey) :
    Dict.get? (addSidecarMetadata target encrypted sidecar originalSize) k = Dict.get? target k := by
  unfold addSidecarMetadata
  split
  · cases encrypted with
    | false => simp only [Bool.false_eq_true, if_false, Dict.get?_set, if_neg hlong, if_neg hurl]
    | true => simp only [if_true, Dict.get?_set, if_neg hlong, if_neg hfile]
  · rfl

theorem get?_wrapLargeEdit (hfile : k ∉ fileFallbackKeys) (hmsgtype : k ≠ "msgtype") :
    Dict.get? (wrapLargeEdit content source inner) k =
      (if isPassthroughEditWrapperKey k then Dict.get? source.reverse k else none).or
        (if k = "body" then some (.str ("* " ++ bodyOf inner))
        else if k = "m.new_content" then some (.obj inner)
        else if k = "m.relates_to" then some ((Dict.get? content "m.relates_to").getD (.obj []))
        else none) := by
  unfold wrapLargeEdit
  rw [get?_copyEditWrapperMetadata]
  by_cases hisFile : (Dict.get? source "msgtype").getD (.str "m.text") = .str "m.file"
  · simp only [if_pos hisFile, get?_copyFileEditFallbackFields hfile, Dict.get?_cons, Dict.get?_nil, if_neg hmsgtype]
  · simp only [if_neg hisFile, Dict.get?_cons, Dict.get?_nil, if_neg hmsgtype]

/-! ## Fitting -/

/-- What an event shows: a preview of the text, and in a replacement another one behind an asterisk, or nothing. -/
structure ShowsPreview (text indicator : String) (event : Dict) : Prop where
  plain : Dict.get? event "m.new_content" = none →
    ∃ shown, IsPreview text indicator shown ∧ Dict.get? event "body" = some (.str shown)
  replaced : ∀ value, Dict.get? event "m.new_content" = some value →
    (∃ replacement shown, value = .obj replacement ∧ IsPreview text indicator shown ∧
      Dict.get? replacement "body" = some (.str shown)) ∧
    (Dict.get? event "body" = some (.str "") ∨
      ∃ shown, IsPreview text indicator shown ∧ Dict.get? event "body" = some (.str ("* " ++ shown)))

/-- A fitting event with a preview, where one without any text fits; else a refusal. -/
inductive FitsOrRefuses (delivery : Delivery) (text indicator : String) (empty : Dict) : Except PrepareError Dict → Prop
  | fits (event : Dict) : fitsEvent delivery empty = true → fitsEvent delivery event = true →
      ShowsPreview text indicator event → FitsOrRefuses delivery text indicator empty (.ok event)
  | refuses : fitsEvent delivery empty = false → FitsOrRefuses delivery text indicator empty (.error .tooLarge)

variable {delivery : Delivery} {preview : Dict}

theorem fitsOrRefuses_fitRegularPreview {body : String} (hbody : Dict.get? preview "body" = some (.str body))
    (hplain : Dict.get? preview "m.new_content" = none) :
    FitsOrRefuses delivery text indicator (withBody preview "") (fitRegularPreview delivery preview text indicator) := by
  have hstr : Dict.str? preview "body" = some body := by
    rw [Dict.str?, hbody]
  rw [fitRegularPreview, hstr]
  simp only
  by_cases hempty : fitsEvent delivery (withBody preview "") = true
  · have hzero : fitsEvent delivery (withBody preview (limitedPreview text 0 indicator)) = true := hempty
    rw [if_pos hzero]
    refine .fits _ hempty ?_ ⟨?_, ?_⟩
    · exact fits_fittedLimit (fun limit => fitsEvent delivery (withBody preview (limitedPreview text limit indicator))) _
        hzero
    · intro _
      exact ⟨_, isPreview_limitedPreview text indicator _, get?_withBody (by decide)⟩
    · intro value hvalue
      rw [get?_withBody (by decide), if_neg (by decide), hplain] at hvalue
      cases hvalue
  · have hzero : ¬ fitsEvent delivery (withBody preview (limitedPreview text 0 indicator)) = true := hempty
    rw [if_neg hzero]
    exact .refuses (Bool.not_eq_true _ ▸ hempty)

/-- The event of a replacement without any text. -/
def emptyEdit (content source inner : Dict) : Dict := Dict.set (wrapLargeEdit content source inner) "body" (.str "")

theorem showsPreview_editEvent {shown : String} {outerLimit : Nat} (hshown : IsPreview text indicator shown)
    (hinner : Dict.get? inner "body" = some (.str shown)) :
    ShowsPreview text indicator (editEvent content source inner text indicator outerLimit) := by
  have hreplacement : Dict.get? (editEvent content source inner text indicator outerLimit) "m.new_content" =
      some (.obj inner) := by
    rw [editEvent, Dict.get?_set, if_neg (by decide), get?_wrapLargeEdit (by decide) (by decide)]
    rfl
  constructor
  · intro hnone
    rw [hreplacement] at hnone
    cases hnone
  · intro value hvalue
    rw [hreplacement, Option.some.injEq] at hvalue
    refine ⟨⟨inner, shown, hvalue.symm, hshown, hinner⟩, ?_⟩
    rw [editEvent, Dict.get?_set, if_pos rfl]
    by_cases houter : 0 < outerLimit
    · rw [if_pos houter]
      exact .inr ⟨_, isPreview_createPreview text indicator outerLimit, rfl⟩
    · rw [if_neg houter]
      exact .inl rfl

theorem fitsOrRefuses_buildTerminalEditPreview {body : String} (hbody : Dict.get? preview "body" = some (.str body)) :
    FitsOrRefuses delivery text indicator (emptyEdit content source (withBody preview ""))
      (buildTerminalEditPreview delivery content source preview text indicator) := by
  have hstr : Dict.str? preview "body" = some body := by
    rw [Dict.str?, hbody]
  rw [buildTerminalEditPreview, hstr]
  simp only
  by_cases hempty : fitsEvent delivery (emptyEdit content source (withBody preview "")) = true
  · have hzero : fitsEvent delivery (editEvent content source (withBody preview (limitedPreview text 0 indicator)) text
        indicator 0) = true := hempty
    rw [if_pos hzero]
    have hinner := fits_fittedLimit (fun limit => fitsEvent delivery
      (editEvent content source (withBody preview (limitedPreview text limit indicator)) text indicator 0))
      body.utf8ByteSize hzero
    refine .fits _ hempty (fits_largestFittingLimit (fun outerLimit => fitsEvent delivery
      (editEvent content source _ text indicator outerLimit)) _ hinner) ?_
    exact showsPreview_editEvent (isPreview_limitedPreview text indicator _) (get?_withBody (by decide))
  · have hzero : ¬ fitsEvent delivery (editEvent content source (withBody preview (limitedPreview text 0 indicator)) text
        indicator 0) = true := hempty
    rw [if_neg hzero]
    exact .refuses (Bool.not_eq_true _ ▸ hempty)

end MindRoom.LargeMessages
