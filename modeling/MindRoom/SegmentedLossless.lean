import MindRoom.SegmentedMessages

/-! # Segments lose nothing

Each chunk ends behind its start, so that splitting ends, and the chunks are consecutive slices of the text.
The search for a fitting end shrinks by a factor below one, rounding included.
-/

namespace MindRoom.SegmentedMessages

open DynamicWorkflow (Value Fields)

/-! ## Slices -/

section

variable {text sub : List Char} {start middle stop i : Nat}

theorem slice_append (h : start ≤ middle) (h' : middle ≤ stop) :
    slice text start middle ++ slice text middle stop = slice text start stop := by
  unfold slice
  have hsplit : stop - start = (middle - start) + (stop - middle) := by omega
  have hdrop : text.drop middle = (text.drop start).drop (middle - start) := by
    rw [List.drop_drop]
    congr 1
    omega
  rw [hsplit, List.take_add, hdrop]

theorem slice_zero : slice text 0 stop = text.take stop := by
  unfold slice
  rw [List.drop_zero, Nat.sub_zero]

theorem slice_ne_nil (h : start < stop) (h' : start < text.length) : slice text start stop ≠ [] := by
  intro hnil
  have hlength := congrArg List.length hnil
  unfold slice at hlength
  rw [List.length_take, List.length_drop, List.length_nil] at hlength
  omega

theorem rfind_spec (h : rfind text sub start stop = some i) :
    start ≤ i ∧ i + sub.length ≤ stop ∧ slice text i (i + sub.length) = sub := by
  have hfound := List.find?_some h
  simp only [Bool.and_eq_true, decide_eq_true_eq] at hfound
  exact ⟨hfound.1.1, hfound.1.2, hfound.2⟩

theorem slice_eq_cons {c : Char} {rest : List Char} (h : slice text start stop = c :: rest) :
    text[start]? = some c ∧ slice text (start + 1) stop = rest := by
  have hlong : start < text.length := by
    by_contra hshort
    unfold slice at h
    rw [List.drop_eq_nil_of_le (Nat.le_of_not_lt hshort), List.take_nil] at h
    cases h
  have hstop : start < stop := by
    by_contra hempty
    unfold slice at h
    rw [Nat.sub_eq_zero_of_le (Nat.le_of_not_lt hempty), List.take_zero] at h
    cases h
  obtain ⟨n, rfl⟩ := Nat.exists_eq_add_of_lt hstop
  unfold slice at h ⊢
  have hlast : start + n + 1 - start = n + 1 := by omega
  have hrest : start + n + 1 - (start + 1) = n := by omega
  rw [List.drop_eq_getElem_cons hlong, hlast, List.take_succ_cons] at h
  cases h
  rw [hrest]
  exact ⟨List.getElem?_eq_getElem hlong, rfl⟩

/-- A boundary lies behind the start and not behind the end, and it follows a line break or is the end. -/
theorem preferredBoundary_spec (h : start < stop) :
    start < preferredBoundary text start stop ∧ preferredBoundary text start stop ≤ stop ∧
      (preferredBoundary text start stop = stop ∨
        ∃ i, preferredBoundary text start stop = i + 1 ∧ text[i]? = some '\n') := by
  unfold preferredBoundary
  dsimp only
  cases hparagraph : (rfind text ['\n', '\n'] (start + 1) stop).filter
      fun p => start + max 1 ((stop - start) / 3) ≤ p ∧ p + 2 ≤ stop with
  | some p =>
    obtain ⟨hfound, hkept⟩ := Option.filter_eq_some_iff.mp hparagraph
    rcases rfind_spec hfound with ⟨hstart, hstop, hslice⟩
    change p + 2 ≤ stop at hstop
    have hbreak := (slice_eq_cons (slice_eq_cons hslice).2).1
    change start < p + 2 ∧ p + 2 ≤ stop ∧ (p + 2 = stop ∨ ∃ i, p + 2 = i + 1 ∧ text[i]? = some '\n')
    exact ⟨by omega, hstop, .inr ⟨p + 1, rfl, hbreak⟩⟩
  | none =>
    cases hline : (rfind text ['\n'] (start + 1) stop).filter
        fun p => start + max 1 ((stop - start) / 3) ≤ p ∧ p + 1 ≤ stop with
    | some p =>
      obtain ⟨hfound, hkept⟩ := Option.filter_eq_some_iff.mp hline
      rcases rfind_spec hfound with ⟨hstart, hstop, hslice⟩
      change p + 1 ≤ stop at hstop
      have hbreak := (slice_eq_cons hslice).1
      change start < p + 1 ∧ p + 1 ≤ stop ∧ (p + 1 = stop ∨ ∃ i, p + 1 = i + 1 ∧ text[i]? = some '\n')
      exact ⟨by omega, hstop, .inr ⟨p, rfl, hbreak⟩⟩
    | none => exact ⟨h, le_rfl, .inl rfl⟩

theorem cut_spec (h : start < stop) : start < cut text start stop ∧ cut text start stop ≤ stop := by
  unfold cut
  split
  · have hspec := @preferredBoundary_spec text start stop h
    exact ⟨hspec.1, hspec.2.1⟩
  · exact ⟨h, le_rfl⟩

theorem fenceAfter_position {position : Nat} {opener : Option Opener} {line : List Char} :
    ∀ o ∈ fenceAfter position opener line, o ∈ opener ∨ opener = none ∧ o.position = position := by
  intro o ho
  unfold fenceAfter at ho
  cases hline : fenceLine? line with
  | none =>
    rw [hline] at ho
    exact .inl ho
  | some fence =>
    rw [hline] at ho
    cases opener with
    | none =>
      cases ho
      exact .inr ⟨rfl, rfl⟩
    | some opener =>
      dsimp only at ho
      split at ho
      · cases ho
      · exact .inl ho

/-- The open fence of a scan starts where the scan started or later. -/
theorem foldl_scanLine_position (lines : List (List Char)) (position : Nat) (opener : Option Opener)
    (h : ∀ o ∈ opener, start ≤ o.position) (hposition : start ≤ position) :
    ∀ o ∈ (lines.foldl scanLine (position, opener)).2, start ≤ o.position := by
  induction lines generalizing position opener with
  | nil => exact h
  | cons line lines ih =>
    apply ih
    · intro o ho
      rcases fenceAfter_position o ho with hopener | ⟨-, hposition'⟩
      · exact h o hopener
      · omega
    · omega

theorem le_unclosedFenceStart (h : unclosedFenceStart text start stop = some i) : start ≤ i := by
  obtain ⟨o, ho, rfl⟩ := Option.map_eq_some_iff.mp h
  exact foldl_scanLine_position _ start none (fun o ho => by cases ho) le_rfl o ho

end

/-! ## The search for a fitting end -/

/-- Shrinking by the measured overshoot shortens every chunk, however the quotients are rounded. -/
theorem shrunk_lt {n : Nat} {budget used : Int} (hn : 0 < n) (hbudget : 0 < budget) (hused : budget < used) :
    shrunk n budget used < n := by
  have hn' : (0 : ℚ) < n := by exact_mod_cast hn
  have hbudget' : (0 : ℚ) < budget := by exact_mod_cast hbudget
  have hused' : (budget : ℚ) < used := by exact_mod_cast hused
  have husedPos : (0 : ℚ) < used := hbudget'.trans hused'
  have hquotient : (n : ℚ) * budget / used ≤ n := by
    rw [div_le_iff₀ husedPos]
    gcongr
  have hpositive : (0 : ℚ) ≤ n * budget / used := by positivity
  have hfirst := Binary64.nearest_le hpositive hquotient
  have hmargin : (0 : ℚ) ≤ segmentShrinkMargin := by
    unfold segmentShrinkMargin
    norm_num
  have hscaled : Binary64.nearest (n * budget / used) * segmentShrinkMargin ≤
      n * (1 + 1 / 2 ^ 53) * segmentShrinkMargin := by gcongr
  have hsecond := Binary64.nearest_le (mul_nonneg (Binary64.nearest_nonneg hpositive) hmargin) hscaled
  have hfactor : (1 + 1 / 2 ^ 53) * segmentShrinkMargin * (1 + 1 / 2 ^ 53) < 1 := by
    unfold segmentShrinkMargin
    norm_num
  have hbelow : (n : ℚ) * ((1 + 1 / 2 ^ 53) * segmentShrinkMargin * (1 + 1 / 2 ^ 53)) < (n : ℚ) :=
    mul_lt_of_lt_one_right hn' hfactor
  have hfloor : ⌊Binary64.nearest (Binary64.nearest (n * budget / used) * segmentShrinkMargin)⌋ < (n : Int) := by
    rw [Int.floor_lt]
    push_cast
    linarith
  unfold shrunk
  omega

section

variable {γ : Type*} {calculateEventSize : γ → Int} {text : List Char} {fuel start : Nat} {build : List Char → γ}
  {target : Int}

/-- One measurement either ends the search or leaves a shorter chunk to measure. -/
theorem fittingRound_cases {overhead budget : Int} {stop : Nat} (hbudget : 0 < budget) (hstop : start < stop) :
    (∃ r, fittingRound calculateEventSize text build start overhead budget stop = some (.leave r) ∧
        ∀ stop' ∈ r, stop' = stop ∧ calculateEventSize (build (slice text start stop)) ≤ overhead + budget) ∨
      ∃ stop', fittingRound calculateEventSize text build start overhead budget stop = some (.again stop') ∧
        start < stop' ∧ stop' < stop := by
  unfold fittingRound
  dsimp only
  split
  · next hfits =>
    refine .inl ⟨some stop, rfl, ?_⟩
    intro stop' hsame
    cases hsame
    exact ⟨rfl, by omega⟩
  · next hlarge =>
    split
    · exact .inl ⟨none, rfl, fun stop' hnone => by cases hnone⟩
    · next hlong =>
      have hshrunk := @shrunk_lt (stop - start) budget
        (calculateEventSize (build (slice text start stop)) - overhead) (by omega) hbudget (by omega)
      exact .inr ⟨_, rfl, by omega, by omega⟩

/-- The search ends. -/
theorem fittingEnd_terminates (hstart : start < text.length) (hfuel : text.length < fuel) :
    ∃ r, fittingEnd calculateEventSize text fuel start build target = some r := by
  unfold fittingEnd
  dsimp only
  split
  · exact ⟨none, rfl⟩
  · next hbudget =>
    have hpositive := Int.lt_of_not_ge hbudget
    apply WhileLoop.run_terminates (fun stop => start < stop) (fun stop => stop - start)
    · intro stop hstop
      rcases fittingRound_cases hpositive hstop with ⟨r, hleave, -⟩ | ⟨stop', hagain, hstart', hlt⟩
      · exact .inl ⟨r, hleave⟩
      · exact .inr ⟨stop', hagain, hstart', by omega⟩
    · omega
    · omega

/-- A fitting end lies behind the start, and its event fits. -/
theorem fittingEnd_spec {stop : Nat} (hstart : start < text.length)
    (h : fittingEnd calculateEventSize text fuel start build target = some (some stop)) :
    start < stop ∧ stop ≤ text.length ∧ calculateEventSize (build (slice text start stop)) ≤ target := by
  unfold fittingEnd at h
  dsimp only at h
  split at h
  · cases h
  · next hbudget =>
    have hpositive := Int.lt_of_not_ge hbudget
    refine WhileLoop.run_rule (fun stop => start < stop ∧ stop ≤ text.length)
      (fun r => ∀ stop ∈ r, start < stop ∧ stop ≤ text.length ∧
        calculateEventSize (build (slice text start stop)) ≤ target) ?_ ?_ ?_ h stop rfl
    · intro stop stop' hstop hround
      rcases fittingRound_cases hpositive hstop.1 with ⟨r, hleave, -⟩ | ⟨stop'', hagain, hstart', hlt⟩
      · rw [hleave] at hround
        cases hround
      · rw [hagain] at hround
        cases hround
        exact ⟨hstart', by omega⟩
    · intro stop r hstop hround
      rcases fittingRound_cases hpositive hstop.1 with ⟨r', hleave, hfits⟩ | ⟨stop', hagain, -⟩
      · rw [hleave] at hround
        cases hround
        intro stop' hmem
        rcases hfits stop' hmem with ⟨rfl, hsize⟩
        exact ⟨hstop.1, hstop.2, by omega⟩
      · rw [hagain] at hround
        cases hround
    · omega

/-! ## Splitting -/

variable {firstBuild continuationBuild : List Char → γ} {firstTarget continuationTarget : Int} {s s' : Splitting}

theorem fittingEndAt_spec {stop : Nat} (hstart : start < text.length)
    (h : fittingEndAt calculateEventSize text fuel firstBuild continuationBuild firstTarget continuationTarget start =
      some (some stop)) : start < stop ∧ stop ≤ text.length := by
  unfold fittingEndAt at h
  split at h
  · have hspec := fittingEnd_spec hstart h
    exact ⟨hspec.1, hspec.2.1⟩
  · have hspec := fittingEnd_spec hstart h
    exact ⟨hspec.1, hspec.2.1⟩

/-- A round of splitting appends the slice from the offset to a later end: the cut, or the start of the
fence that the cut would leave open. -/
theorem splitRound_again (h : splitRound calculateEventSize text fuel firstBuild continuationBuild firstTarget
      continuationTarget s = some (.again s')) :
    ∃ stop, s.offset < text.length ∧
      fittingEndAt calculateEventSize text fuel firstBuild continuationBuild firstTarget continuationTarget s.offset =
        some (some stop) ∧
      s.offset < s'.offset ∧ s'.chunks = s.chunks ++ [slice text s.offset s'.offset] ∧
      s'.offset = (unclosedFenceStart text s.offset (cut text s.offset stop)).getD (cut text s.offset stop) := by
  unfold splitRound at h
  split at h
  · next hoffset =>
    dsimp only at h
    split at h
    · cases h
    · cases h
    · next stop hfitting =>
      have hstop := (fittingEndAt_spec hoffset hfitting).1
      have hcut := (@cut_spec text s.offset stop hstop).1
      refine ⟨stop, hoffset, hfitting, ?_⟩
      cases hfence : unclosedFenceStart text s.offset (cut text s.offset stop) with
      | none =>
        rw [hfence] at h
        cases h
        exact ⟨hcut, rfl, rfl⟩
      | some fenceStart =>
        rw [hfence] at h
        dsimp only at h
        split at h
        · cases h
        · next hne =>
          cases h
          have hle := le_unclosedFenceStart hfence
          exact ⟨Nat.lt_of_le_of_ne hle (Ne.symm hne), rfl, rfl⟩
  · cases h

theorem splitRound_leave {r : Option (List (List Char))}
    (h : splitRound calculateEventSize text fuel firstBuild continuationBuild firstTarget continuationTarget s =
      some (.leave r)) : r = none ∨ text.length ≤ s.offset ∧ r = some s.chunks := by
  unfold splitRound at h
  split at h
  · dsimp only at h
    split at h
    · cases h
    · cases h
      exact .inl rfl
    · split at h
      · cases h
      · split at h
        · cases h
          exact .inl rfl
        · cases h
  · next hoffset =>
    cases h
    split
    · exact .inl rfl
    · exact .inr ⟨Nat.le_of_not_lt hoffset, rfl⟩

/-- With enough fuel every round comes to something. -/
theorem splitRound_total (hfuel : text.length < fuel) (s : Splitting) :
    ∃ result, splitRound calculateEventSize text fuel firstBuild continuationBuild firstTarget continuationTarget s =
      some result := by
  unfold splitRound
  split
  · next hoffset =>
    have hfitting : ∃ r, fittingEndAt calculateEventSize text fuel firstBuild continuationBuild firstTarget
        continuationTarget s.offset = some r := by
      unfold fittingEndAt
      split
      · exact fittingEnd_terminates hoffset hfuel
      · exact fittingEnd_terminates hoffset hfuel
    obtain ⟨r, hr⟩ := hfitting
    dsimp only
    rw [hr]
    cases r with
    | none => exact ⟨_, rfl⟩
    | some stop =>
      dsimp only
      split
      · exact ⟨_, rfl⟩
      · split
        · exact ⟨_, rfl⟩
        · exact ⟨_, rfl⟩
  · exact ⟨_, rfl⟩

/-- Splitting ends. -/
theorem splitBody_terminates (hfuel : text.length < fuel) :
    ∃ result, splitBody calculateEventSize text fuel firstBuild continuationBuild firstTarget continuationTarget =
      some result := by
  unfold splitBody
  apply WhileLoop.run_terminates (fun _ => True) (fun s => text.length - s.offset)
  · intro s _
    obtain ⟨result, hresult⟩ := @splitRound_total _ calculateEventSize text fuel firstBuild continuationBuild
      firstTarget continuationTarget hfuel s
    cases result with
    | leave r => exact .inl ⟨r, hresult⟩
    | again s' =>
      obtain ⟨stop, hoffset, -, hlater, -⟩ := splitRound_again hresult
      exact .inr ⟨s', hresult, trivial, by omega⟩
  · trivial
  · exact Nat.lt_of_le_of_lt (Nat.sub_le _ _) hfuel

/-- The chunks so far are the text up to the offset, and none of them is empty. -/
structure Splitting.Inv (text : List Char) (s : Splitting) : Prop where
  flatten : s.chunks.flatten = text.take s.offset
  nonempty : ∀ chunk ∈ s.chunks, chunk ≠ []

theorem Splitting.Inv.again (hs : s.Inv text) (h : splitRound calculateEventSize text fuel firstBuild continuationBuild
      firstTarget continuationTarget s = some (.again s')) : s'.Inv text := by
  obtain ⟨stop, hoffset, -, hlater, hchunks, -⟩ := splitRound_again h
  constructor
  · rw [hchunks, List.flatten_append, hs.flatten, List.flatten_singleton, ← slice_zero, ← slice_zero]
    exact slice_append (Nat.zero_le _) hlater.le
  · intro chunk hmem
    rw [hchunks, List.mem_append, List.mem_singleton] at hmem
    rcases hmem with hold | rfl
    · exact hs.nonempty chunk hold
    · exact slice_ne_nil hlater hoffset

/-- The chunks of a split text are not empty, and together they are the text. -/
theorem splitBody_flatten {chunks : List (List Char)}
    (h : splitBody calculateEventSize text fuel firstBuild continuationBuild firstTarget continuationTarget =
      some (some chunks)) : (∀ chunk ∈ chunks, chunk ≠ []) ∧ chunks.flatten = text := by
  unfold splitBody at h
  refine WhileLoop.run_rule (Splitting.Inv text)
    (fun r => ∀ chunks ∈ r, (∀ chunk ∈ chunks, chunk ≠ []) ∧ chunks.flatten = text) ?_ ?_ ?_ h chunks rfl
  · intro s s' hs hround
    exact hs.again hround
  · intro s r hs hround chunks hmem
    rcases splitRound_leave hround with rfl | ⟨hoffset, rfl⟩
    · cases hmem
    · cases hmem
      refine ⟨hs.nonempty, ?_⟩
      rw [hs.flatten, List.take_of_length_le hoffset]
  · exact ⟨rfl, fun chunk hmem => by cases hmem⟩

end

/-! ## Events -/

theorem get?_filter_of_mem {content : Fields} {dropped : List String} {k : String} (h : k ∈ dropped) :
    Fields.get? (content.filter (·.1 ∉ dropped)) k = none := by
  induction content with
  | nil => rfl
  | cons item content ih =>
    rw [List.filter_cons]
    split
    · next hkept =>
      have hne : item.1 ≠ k := fun hk => of_decide_eq_true hkept (hk ▸ h)
      rw [Fields.get?_cons, if_neg hne, ih]
    · exact ih

/-- The text that an event shows: its new content is what counts in an edit. -/
def shownBody (event : Fields) : Option Value :=
  match Fields.get? event "m.new_content" with
  | some (.dict replacement) => Fields.get? replacement "body"
  | _ => Fields.get? event "body"

section

variable {rendering : Rendering} {fuel : Nat} {content source : Fields} {body : String}

theorem richTextContent_get? (relation : Option Fields) :
    Fields.get? (richTextContent rendering source body relation) "body" = some (.str body) ∧
      Fields.get? (richTextContent rendering source body relation) "m.new_content" = none := by
  have hdropped : Fields.get? (source.filter (·.1 ∉ segmentDroppedKeys)) "m.new_content" = none :=
    get?_filter_of_mem (by decide)
  unfold richTextContent
  dsimp only
  generalize source.filter (·.1 ∉ segmentDroppedKeys) = kept at hdropped ⊢
  cases hmsgtype : (Fields.get? kept "msgtype").isSome <;>
    cases chunkMentions rendering source body <;> cases relation <;> simp [hdropped]

theorem shownBody_richTextContent (relation : Option Fields) :
    shownBody (richTextContent rendering source body relation) = some (.str body) := by
  have hget := @richTextContent_get? rendering source body relation
  unfold shownBody
  rw [hget.2]
  exact hget.1

theorem shownBody_editContentChunk : shownBody (editContentChunk rendering content source body) = some (.str body) := by
  have hget := @richTextContent_get? rendering source body none
  unfold shownBody editContentChunk
  dsimp only
  rw [Fields.get?_set, if_pos rfl]
  exact hget.1

theorem shownBody_firstBuild (isEdit : Bool) (chunk : List Char) :
    shownBody (firstBuild rendering content source isEdit chunk) = some (.str (String.ofList chunk)) := by
  unfold firstBuild
  split
  · exact shownBody_editContentChunk
  · exact shownBody_richTextContent _

theorem shownBody_continuationBuild (threadId replyToEventId : Option String) (chunk : List Char) :
    shownBody (continuationBuild rendering source threadId replyToEventId chunk) =
      some (.str (String.ofList chunk)) := by
  unfold continuationBuild continuationContent
  exact shownBody_richTextContent _

/-- What the events of chunks have in common: they fit, and they show their chunks. -/
theorem segmentChunks_spec {first continuation : List Char → Fields} {firstTarget continuationTarget : Int}
    {chunks : List (List Char)} {segmented : SegmentedMatrixContent}
    (h : segmentChunks rendering first continuation firstTarget continuationTarget chunks = some segmented) :
    rendering.calculateEventSize segmented.first ≤ firstTarget ∧
      (∀ event ∈ segmented.continuations, rendering.calculateEventSize event ≤ continuationTarget) ∧
      ∃ chunk rest, chunks = chunk :: rest ∧ segmented.first = first chunk ∧
        segmented.continuations = rest.map continuation := by
  cases chunks with
  | nil => cases h
  | cons chunk rest =>
    unfold segmentChunks at h
    dsimp only at h
    split at h
    · cases h
    · next hfits =>
      rw [not_or] at hfits
      cases h
      refine ⟨not_lt.mp hfits.1, ?_, chunk, rest, rfl, rfl, rfl⟩
      intro event hmem
      exact not_lt.mp fun hlarge => hfits.2 ⟨event, hmem, hlarge⟩

/-- The byte budgets of the events of a message, and that the events together show its text. -/
structure Segmented (rendering : Rendering) (content : Fields) (roomEncrypted : Bool)
    (segmented : SegmentedMatrixContent) (isEdit : Bool) (source : Fields) (body : String) : Prop where
  kind : isEditMessage content = .ok isEdit
  payload : sourceContent content isEdit = some source
  text : Fields.get? source "body" = some (.str body)
  first : rendering.calculateEventSize segmented.first ≤ segmentTargetBytes roomEncrypted isEdit
  continuations : ∀ event ∈ segmented.continuations,
    rendering.calculateEventSize event ≤ segmentTargetBytes roomEncrypted false
  shown : ∃ chunks : List (List Char), chunks.flatten = body.toList ∧
    (segmented.first :: segmented.continuations).map shownBody =
      chunks.map fun chunk => some (.str (String.ofList chunk))

theorem segmentMatrixContent_spec {roomEncrypted : Bool} {threadId replyToEventId : Option String}
    {segmented : SegmentedMatrixContent}
    (h : segmentMatrixContent rendering fuel content roomEncrypted threadId replyToEventId = .ok (some segmented)) :
    ∃ isEdit source body, Segmented rendering content roomEncrypted segmented isEdit source body := by
  unfold segmentMatrixContent at h
  cases hedit : isEditMessage content with
  | error e =>
    rw [hedit] at h
    cases h
  | ok isEdit =>
    rw [hedit] at h
    cases hsource : sourceContent content isEdit with
    | none =>
      simp only [hsource, bind, Except.bind] at h
      cases h
    | some source =>
      simp only [hsource, bind, Except.bind] at h
      split at h
      · next body hbody =>
        split at h
        · cases h
        · split at h
          · cases h
          · cases h
          · next chunks hsplit =>
            rcases splitBody_flatten hsplit with ⟨-, hflatten⟩
            have hchunks : segmentChunks rendering (firstBuild rendering content source isEdit)
                (continuationBuild rendering source threadId replyToEventId)
                (segmentTargetBytes roomEncrypted isEdit) (segmentTargetBytes roomEncrypted false) chunks =
                  some segmented := by
              injection h
            rcases segmentChunks_spec hchunks with ⟨hfirst, hlater, chunk, rest, rfl, hfirst', hlater'⟩
            refine ⟨isEdit, source, body, hedit, hsource, hbody, hfirst, hlater, chunk :: rest, hflatten, ?_⟩
            rw [hfirst', hlater', List.map_cons, List.map_cons, List.map_map, shownBody_firstBuild]
            congr 1
            exact List.map_congr_left fun chunk _ => shownBody_continuationBuild _ _ _
      · cases h

/-- Segmenting a long message ends and loses nothing, and what it returns fits. -/
theorem segmenting_lossless {γ : Type*} {text : List Char} (hfuel : text.length < fuel) (measure : γ → Int)
    (first continuation : List Char → γ) (firstTarget continuationTarget : Int) :
    (∃ result, splitBody measure text fuel first continuation firstTarget continuationTarget = some result ∧
      ∀ chunks ∈ result, (∀ chunk ∈ chunks, chunk ≠ []) ∧ chunks.flatten = text) ∧
    ∀ content roomEncrypted threadId replyToEventId segmented,
      segmentMatrixContent rendering fuel content roomEncrypted threadId replyToEventId = .ok (some segmented) →
      ∃ isEdit source body, Segmented rendering content roomEncrypted segmented isEdit source body := by
  constructor
  · obtain ⟨result, hresult⟩ := splitBody_terminates hfuel
    refine ⟨result, hresult, ?_⟩
    intro chunks hmem
    rw [Option.mem_def.mp hmem] at hresult
    exact splitBody_flatten hresult
  · intro content roomEncrypted threadId replyToEventId segmented h
    exact segmentMatrixContent_spec h

/-- Events measured by the length of their body, and 2,000 more. -/
def plainRendering : Rendering where
  calculateEventSize content := match shownBody content with
    | some (.str body) => body.toList.length + 2000
    | _ => 2000
  renderSegmentHtml _ body := body
  findUserIds _ _ := []

/-- A text of three characters with room for two. -/
theorem short_segmenting : (∃ result, splitBody (fun text : List Char => (text.length : Int)) "abc".toList 4 id id 2 2 =
      some result ∧ ∀ chunks ∈ result, (∀ chunk ∈ chunks, chunk ≠ []) ∧ chunks.flatten = "abc".toList) ∧
    ∀ content roomEncrypted threadId replyToEventId segmented,
      segmentMatrixContent plainRendering 4 content roomEncrypted threadId replyToEventId = .ok (some segmented) →
      ∃ isEdit source body, Segmented plainRendering content roomEncrypted segmented isEdit source body :=
  segmenting_lossless (by decide) _ id id 2 2

example : splitBody (fun text : List Char => (text.length : Int)) "ab\ncd\nef".toList 9 id id 4 4 =
    some (some ["ab\n".toList, "cd\n".toList, "ef".toList]) := by decide +kernel

end

end MindRoom.SegmentedMessages
