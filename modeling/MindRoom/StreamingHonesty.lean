import MindRoom.Streaming

/-! # Honest streaming outcomes

What a stream remembers as committed is the last payload Matrix acknowledged. The terminal update reports the
text it formats, which is what it sends unless nothing is sent at all, or the text is spaced on the way.
-/

namespace MindRoom.Streaming

variable {μ : Type} {formatter : Formatter μ}

/-! ## Blank texts -/

/-- A text with a character that is no space is not blank. -/
theorem not_isBlank_of_mem {text : String} {c : Char} (hc : c ∈ text.toList)
    (hspace : inRanges spaceRanges c = false) : isBlank text = false := by
  rw [isBlank, decide_eq_false_iff_not, strip, List.reverse_eq_nil_iff, List.dropWhile_eq_nil_iff]
  intro hall
  have hleft : c ∈ text.toList.dropWhile (inRanges spaceRanges) := by
    have hsplit := List.takeWhile_append_dropWhile (p := inRanges spaceRanges) (l := text.toList)
    rw [← hsplit] at hc
    rcases List.mem_append.1 hc with htake | hdrop
    · rw [List.mem_takeWhile_imp htake] at hspace
      cases hspace
    · exact hdrop
  rw [hall c (List.mem_reverse.2 hleft)] at hspace
  cases hspace

theorem not_isBlank_withNote (text : String) {note : String} (hidesPlaceholder : Bool) (hnote : '*' ∈ note.toList) :
    isBlank (withNote text note hidesPlaceholder) = false := by
  have hspace : inRanges spaceRanges '*' = false := by decide
  unfold withNote
  dsimp only
  split
  · exact not_isBlank_of_mem hnote hspace
  · refine not_isBlank_of_mem ?_ hspace
    rw [String.toList_append]
    exact List.mem_append_right _ hnote

theorem formatStreamErrorNote_star (error : String) : '*' ∈ (formatStreamErrorNote error).toList := by
  have hstar : '*' ∈ streamErrorResponseNote.toList := by decide
  unfold formatStreamErrorNote
  dsimp only
  split
  · rw [String.toList_append]
    exact List.mem_append_left _ hstar
  · split
    · simp only [String.toList_append, List.append_assoc]
      exact List.mem_append_left _ hstar
    · simp only [String.toList_append, List.append_assoc]
      exact List.mem_append_left _ hstar

/-- A stream that does not complete ends with a note. -/
theorem terminalText_of_not_completed {text : String} {ending : Ending}
    (h : (prepareTerminalTextAndStatus text ending).2 ≠ .completed) :
    isBlank (prepareTerminalTextAndStatus text ending).1 = false := by
  unfold prepareTerminalTextAndStatus at h ⊢
  cases herror : ending.error with
  | some error => exact not_isBlank_withNote text false (formatStreamErrorNote_star error)
  | none =>
    rw [herror] at h
    cases hsource : ending.resolvedCancelSource with
    | none =>
      rw [hsource] at h
      exact absurd rfl h
    | some source =>
      cases source with
      | userStop => exact not_isBlank_withNote text true (by decide)
      | syncRestart => exact not_isBlank_withNote text true (by decide)
      | interrupted => exact not_isBlank_withNote text true (by decide)

/-! ## What a payload shows -/

theorem contentOf_shown (body : String) (lines : List String) (status : StreamStatus) :
    (contentOf body lines status).shown = body := by
  unfold contentOf
  dsimp only
  split
  · rfl
  · rfl

/-- A payload shows the body it is committed with. -/
theorem prepare_shown (snapshot : DeliverySnapshot) : (prepareDeliveryFromSnapshot formatter snapshot).content.shown =
      (prepareDeliveryFromSnapshot formatter snapshot).committedState.renderedBody := contentOf_shown _ _ _

theorem messageBody_placeholder : messageBody progressPlaceholder = progressPlaceholder := by decide +kernel

/-- A payload without text shows the placeholder only. -/
theorem prepare_placeholder (snapshot : DeliverySnapshot)
    (h : (prepareDeliveryFromSnapshot formatter snapshot).committedState.placeholderProgressSent = true) :
    (prepareDeliveryFromSnapshot formatter snapshot).committedState.visibleBodyState = .placeholderOnly := by
  have hblank : isBlank snapshot.accumulatedText = true := h
  simp only [prepareDeliveryFromSnapshot, hblank, if_true, formatter.placeholder, messageBody_placeholder]
  rfl

/-! ## Reachable streams -/

variable (formatter) in
/-- What a stream remembers is what Matrix acknowledged last. -/
structure StreamInv (run : StreamRun μ) : Prop where
  committed : run.stream.lastCommittedVisibleBodyState ≠ .none →
    ∃ content, run.acknowledged.getLast? = some content ∧
      run.stream.lastCommittedRenderedBody = some content.shown
  placeholder : run.stream.placeholderProgressSent = true →
    run.stream.lastCommittedVisibleBodyState = .placeholderOnly ∨
      (run.stream.lastCommittedVisibleBodyState = .none ∧ run.adoptedPlaceholder = true)
  lastPlaceholder : run.stream.lastPlaceholderProgressSent = true →
    run.stream.lastCommittedVisibleBodyState = .placeholderOnly
  prepared : ∀ prepared, run.prepared = some prepared →
    ∃ snapshot, prepared = prepareDeliveryFromSnapshot formatter snapshot

/-- A step that only changes the text, the candidate or the notices keeps the invariant. -/
theorem StreamInv.frame {run run' : StreamRun μ} (h : StreamInv formatter run)
    (hacknowledged : run'.acknowledged = run.acknowledged) (hadopted : run'.adoptedPlaceholder = run.adoptedPlaceholder)
    (hprepared : run'.prepared = run.prepared)
    (hrendered : run'.stream.lastCommittedRenderedBody = run.stream.lastCommittedRenderedBody)
    (hstate : run'.stream.lastCommittedVisibleBodyState = run.stream.lastCommittedVisibleBodyState)
    (hplaceholder : run'.stream.placeholderProgressSent = run.stream.placeholderProgressSent)
    (hlast : run'.stream.lastPlaceholderProgressSent = run.stream.lastPlaceholderProgressSent) :
    StreamInv formatter run' where
  committed := by
    rw [hacknowledged, hrendered, hstate]
    exact h.committed
  placeholder := by
    rw [hplaceholder, hstate, hadopted]
    exact h.placeholder
  lastPlaceholder := by
    rw [hlast, hstate]
    exact h.lastPlaceholder
  prepared := by
    rw [hprepared]
    exact h.prepared

theorem streamInv_start (replacement preserve : Bool) (existingEventId : Option String)
    (adoptExistingPlaceholder : Bool) :
    StreamInv formatter (StreamRun.start (μ := μ) replacement preserve existingEventId adoptExistingPlaceholder) where
  committed := by
    intro hstate
    exact absurd rfl hstate
  placeholder := by
    intro hplaceholder
    exact .inr ⟨rfl, hplaceholder⟩
  lastPlaceholder := by
    intro hlast
    cases hlast
  prepared := by
    intro prepared hprepared
    cases hprepared

theorem streamInv_step {run : StreamRun μ} (h : StreamInv formatter run) (step : StreamStep) :
    StreamInv formatter (run.step formatter step) := by
  cases step with
  | update chunk =>
    simp only [StreamRun.step, StreamingResponse.update]
    split
    · exact h.frame rfl rfl rfl rfl rfl rfl rfl
    · exact h.frame rfl rfl rfl rfl rfl rfl rfl
  | append chunk => exact h.frame rfl rfl rfl rfl rfl rfl rfl
  | completeTool toolName toolIndex => exact h.frame rfl rfl rfl rfl rfl rfl rfl
  | runCompleted content => exact h.frame rfl rfl rfl rfl rfl rfl rfl
  | warmup lines => exact h.frame rfl rfl rfl rfl rfl rfl rfl
  | prepare allowEmptyProgress =>
    refine ⟨h.committed, h.placeholder, h.lastPlaceholder, ?_⟩
    intro prepared hprepared
    simp only [StreamRun.step, StreamingResponse.prepareDelivery, Option.map_eq_some_iff] at hprepared
    obtain ⟨snapshot, _, hsnapshot⟩ := hprepared
    exact ⟨snapshot, hsnapshot.symm⟩
  | acknowledged eventId =>
    unfold StreamRun.step
    cases hprepared : run.prepared with
    | none => exact h
    | some prepared =>
      obtain ⟨snapshot, rfl⟩ := h.prepared prepared hprepared
      refine ⟨?_, ?_, ?_, ?_⟩
      · intro _
        refine ⟨(prepareDeliveryFromSnapshot formatter snapshot).content, by simp, ?_⟩
        simp only [StreamingResponse.markDeliveryCommitted, prepare_shown]
      · intro hplaceholder
        exact .inl (prepare_placeholder snapshot hplaceholder)
      · intro hlast
        exact prepare_placeholder snapshot hlast
      · intro other hother
        cases hother
  | unsent =>
    refine ⟨h.committed, h.placeholder, h.lastPlaceholder, ?_⟩
    intro prepared hprepared
    cases hprepared
  | restore =>
    refine ⟨h.committed, ?_, h.lastPlaceholder, h.prepared⟩
    intro hplaceholder
    exact .inl (h.lastPlaceholder hplaceholder)

theorem reachable_streamInv {run : StreamRun μ} (h : Reachable formatter run) : StreamInv formatter run := by
  induction h with
  | start replacement preserve existingEventId adoptExistingPlaceholder => exact streamInv_start _ _ _ _
  | step step _ ih => exact streamInv_step ih step

/-! ## Honest outcomes -/

/-- A committed update reports a body that Matrix acknowledged during the call; any other outcome reports what
was acknowledged last before it, the adopted placeholder, or nothing. -/
def Honest (run : StreamRun μ) (result : Finalized μ) : Prop :=
  (result.outcome.terminalUpdateCommitted = true →
    ∃ payload ∈ result.acknowledged, result.outcome.renderedBody = some payload.shown) ∧
  (result.outcome.terminalUpdateCommitted = false →
    result.outcome.renderedBody = none ∨
      (∃ payload, run.acknowledged.getLast? = some payload ∧ result.outcome.renderedBody = some payload.shown) ∨
      (run.adoptedPlaceholder = true ∧ result.outcome.renderedBody = some progressPlaceholder))

structure SameCommits (s s' : StreamingResponse μ) : Prop where
  rendered : s'.lastCommittedRenderedBody = s.lastCommittedRenderedBody
  state : s'.lastCommittedVisibleBodyState = s.lastCommittedVisibleBodyState
  placeholder : s'.placeholderProgressSent = s.placeholderProgressSent

theorem honest_empty {run : StreamRun μ} (s : StreamingResponse μ) (facts : TerminalFacts) :
    Honest run (finalizedEmpty s facts) := by
  refine ⟨?_, ?_⟩
  · intro hcommitted
    cases hcommitted
  · intro _
    exact .inl rfl

theorem honest_committed {run : StreamRun μ} {s : StreamingResponse μ} (h : StreamInv formatter run)
    (hs : SameCommits run.stream s) (facts : TerminalFacts) (acknowledged : List StreamContent) :
    Honest run (finalizedCommitted s facts acknowledged) := by
  refine ⟨?_, ?_⟩
  · intro hcommitted
    cases hcommitted
  · intro _
    dsimp only [finalizedCommitted]
    unfold StreamingResponse.committedTerminalSnapshot
    rw [hs.state, hs.rendered, hs.placeholder]
    by_cases hstate : run.stream.lastCommittedVisibleBodyState = .none
    · rw [if_neg (by simp [hstate])]
      by_cases hplaceholder : (s.eventId.isSome && run.stream.placeholderProgressSent) = true
      · rw [if_pos hplaceholder]
        refine .inr (.inr ⟨?_, rfl⟩)
        rcases h.placeholder (Bool.and_eq_true_iff.1 hplaceholder).2 with honly | ⟨_, hadopted⟩
        · rw [hstate] at honly
          cases honly
        · exact hadopted
      · rw [if_neg hplaceholder]
        exact .inl rfl
    · rw [if_pos hstate]
      exact .inr (.inl (h.committed hstate))

/-! ### The terminal send -/

/-- All attempts carry one payload, and only a delivered one returns success. -/
theorem sendContent_spec (content : StreamContent) (sends : Nat → SendResult) (total left : Nat)
    (s : StreamingResponse μ) : SameCommits s (sendContent content sends total left s).2.1 ∧
      ((sendContent content sends total left s).1 = .returned true →
        (sendContent content sends total left s).2.2 = [content]) := by
  induction left generalizing s with
  | zero => exact ⟨⟨rfl, rfl, rfl⟩, fun h => by cases h⟩
  | succ left ih =>
    rw [sendContent]
    cases sends (total - (left + 1)) with
    | delivered eventId => exact ⟨⟨rfl, rfl, rfl⟩, fun _ => rfl⟩
    | undelivered => exact ih s
    | sendRetryError => exact ⟨⟨rfl, rfl, rfl⟩, fun h => by cases h⟩
    | raised exceptionName =>
      dsimp only
      split
      · exact ⟨⟨rfl, rfl, rfl⟩, fun h => by cases h⟩
      · exact ih s
    | cancelled source => exact ⟨⟨rfl, rfl, rfl⟩, fun h => by cases h⟩

theorem sendContent_delivered (content : StreamContent) (total left : Nat) (s : StreamingResponse μ)
    (eventId : String) : sendContent content (fun _ => .delivered eventId) total (left + 1) s =
      (.returned true, { s with eventId := s.eventId <|> some eventId }, [content]) := rfl

/-- A terminal update that has a payload is honest whatever becomes of it exactly if the payload shows what is
reported. -/
theorem finalizeSending_honest_iff {run : StreamRun μ} {s : StreamingResponse μ} {ending : Ending}
    {facts : TerminalFacts} {status : StreamStatus} {hasPlaceholder : Bool} {response : String × Option μ}
    {prepared : PreparedDelivery μ} (h : StreamInv formatter run) (hs : SameCommits run.stream s)
    (hprepared : s.prepareDelivery formatter true hasPlaceholder (some status) = some prepared) :
    (∀ sends, Honest run (finalizeSending formatter s ending facts status hasPlaceholder response sends)) ↔
      prepared.content.shown = response.1 := by
  constructor
  · intro hhonest
    have hdelivered := hhonest fun _ => .delivered ""
    unfold finalizeSending sendTerminal at hdelivered
    rw [hprepared] at hdelivered
    dsimp only at hdelivered
    generalize htotal : (if status = .completed ∨
      (status ≠ .completed && !ending.restartInterrupted && ending.cancelSource ≠ some .syncRestart) = true
      then 2 else 1) = total at hdelivered
    obtain ⟨left, rfl⟩ : ∃ left, total = left + 1 := by
      subst htotal
      split
      · exact ⟨1, rfl⟩
      · exact ⟨0, rfl⟩
    rw [sendContent_delivered] at hdelivered
    obtain ⟨payload, hpayload, hshown⟩ := hdelivered.1 rfl
    rw [List.mem_singleton.1 hpayload] at hshown
    exact (Option.some.inj hshown).symm
  · intro hshown sends
    unfold finalizeSending sendTerminal
    rw [hprepared]
    dsimp only
    generalize (if status = .completed ∨
      (status ≠ .completed && !ending.restartInterrupted && ending.cancelSource ≠ some .syncRestart) = true
      then 2 else 1) = total
    have hspec := sendContent_spec prepared.content sends total total s
    rcases hsend : sendContent prepared.content sends total total s with ⟨sendEnd, s', acknowledged⟩
    rw [hsend] at hspec
    have hsame : SameCommits run.stream s' :=
      ⟨hspec.1.rendered.trans hs.rendered, hspec.1.state.trans hs.state, hspec.1.placeholder.trans hs.placeholder⟩
    cases sendEnd with
    | returned succeeded =>
      cases succeeded with
      | false => exact honest_committed h hsame _ _
      | true =>
        refine ⟨?_, ?_⟩
        · intro _
          refine ⟨prepared.content, ?_, ?_⟩
          · rw [show acknowledged = [prepared.content] from hspec.2 rfl]
            exact List.mem_singleton_self _
          · rw [hshown]
        · intro hcommitted
          cases hcommitted
    | raised exceptionName => exact honest_committed h hsame _ _
    | cancelled source => exact honest_committed h hsame _ _

/-! ### Which endings are honest -/

/-- Neither an exception nor a cancellation ends the stream. -/
def Ending.completes (ending : Ending) : Bool := ending.error.isNone && ending.resolvedCancelSource.isNone

def terminalText (s : StreamingResponse μ) (ending : Ending) : String :=
  let text := (prepareTerminalTextAndStatus s.accumulatedText ending).1
  if isBlank text then progressPlaceholder else text

/-- The text a blank stream has instead, if any of it is shown. -/
def SubstitutesBody (formatter : Formatter μ) (s : StreamingResponse μ) : Prop :=
  ∃ body, s.canonicalFinalBodyCandidate = some body ∧ isBlank body = false ∧
    isBlank (formatter.parseAndFormatInteractive body).1 = false

/-- A stream that completes sends its text, or finishes a placeholder that has none; one that fails sends its
note, unless the process stops or the message shown before is kept. -/
def SendsUpdate (s : StreamingResponse μ) (ending : Ending) : Prop :=
  if ending.completes then
    isBlank s.accumulatedText = false ∨
      (s.eventId ≠ none ∧ s.placeholderProgressSent = true ∧ s.canonicalFinalBodyCandidate = none)
  else
    ¬ (ending.resolvedCancelSource ≠ none ∧ ending.processShutdown = true) ∧
      ¬ (s.eventId ≠ none ∧ s.preserveExistingVisibleOnEmptyTerminal = true ∧ s.placeholderProgressSent = false ∧
        s.lastCommittedVisibleBodyState = .none ∧ isBlank s.accumulatedText = true)

/-- The stream does not go blank under a visible body and complete with another one, and the text it sends needs
no spacing of its tool markers. -/
structure ReportsWhatItSends (formatter : Formatter μ) (s : StreamingResponse μ) (ending : Ending) : Prop where
  substitutes : ending.completes = true → isBlank s.accumulatedText = true →
    s.lastCommittedVisibleBodyState = .visibleBody → ¬ SubstitutesBody formatter s
  spaced : SendsUpdate s ending →
    ToolMarkers.ensureVisibleToolMarkerSpacing (formatter.parseAndFormatInteractive (terminalText s ending)).1 =
      (formatter.parseAndFormatInteractive (terminalText s ending)).1

theorem prepareDelivery_text (formatter : Formatter μ) (s : StreamingResponse μ) (allowEmptyProgress : Bool)
    (status : StreamStatus) (h : isBlank s.accumulatedText = false ∨ allowEmptyProgress = true) :
    ∃ prepared, s.prepareDelivery formatter true allowEmptyProgress (some status) = some prepared ∧
      prepared.content.shown = messageBody (formatter.parseAndFormatInteractive
        (if isBlank s.accumulatedText then progressPlaceholder else s.accumulatedText)).1 := by
  have hsends : ¬ (isBlank s.accumulatedText && !allowEmptyProgress && s.warmupLines = []) = true := by
    rcases h with htext | hallow
    · simp [htext]
    · simp [hallow]
  unfold StreamingResponse.prepareDelivery StreamingResponse.deliverySnapshot
  rw [if_neg hsends]
  exact ⟨_, rfl, contentOf_shown _ _ _⟩

/-- Without a text and a placeholder to finish there is nothing to send. -/
theorem finalizeSending_unsent (formatter : Formatter μ) {s : StreamingResponse μ} (ending : Ending)
    (facts : TerminalFacts) (status : StreamStatus) (response : String × Option μ) (sends : Nat → SendResult)
    (htext : isBlank s.accumulatedText = true) (hlines : s.warmupLines = []) :
    (finalizeSending formatter s ending facts status false response sends).outcome.terminalUpdateCommitted = true ∧
      (finalizeSending formatter s ending facts status false response sends).acknowledged = [] := by
  have hprepared : s.prepareDelivery formatter true false (some status) = none := by
    simp [StreamingResponse.prepareDelivery, StreamingResponse.deliverySnapshot, htext, hlines]
  unfold finalizeSending sendTerminal
  rw [hprepared]
  exact ⟨rfl, rfl⟩

theorem completes_status (text : String) {ending : Ending} (h : ending.completes = true) :
    prepareTerminalTextAndStatus text ending = (text, .completed) ∧ ending.resolvedCancelSource = none := by
  simp only [Ending.completes, Bool.and_eq_true, Option.isNone_iff_eq_none] at h
  unfold prepareTerminalTextAndStatus
  rw [h.1, h.2]
  exact ⟨rfl, rfl⟩

theorem not_completes_status (text : String) {ending : Ending} (h : ending.completes = false) :
    (prepareTerminalTextAndStatus text ending).2 ≠ .completed := by
  unfold prepareTerminalTextAndStatus
  cases herror : ending.error with
  | some error =>
    intro hstatus
    cases hstatus
  | none =>
    cases hsource : ending.resolvedCancelSource with
    | none => simp [Ending.completes, herror, hsource] at h
    | some source =>
      intro hstatus
      cases source with
      | userStop => cases hstatus
      | syncRestart => cases hstatus
      | interrupted => cases hstatus

/-! ### Endings, case by case -/

section

variable {s : StreamingResponse μ} {ending : Ending}

/-- A stream that completes with a text sends it. -/
theorem finalize_completes_text (hcompletes : ending.completes = true) (htext : isBlank s.accumulatedText = false)
    (sends : Nat → SendResult) : finalize formatter s ending sends =
      finalizeSending formatter { s with warmupLines := [] } ending
        ⟨.completed, s.canonicalFinalBodyCandidate <|> some s.accumulatedText, none⟩ .completed false
        (formatter.parseAndFormatInteractive s.accumulatedText) sends := by
  obtain ⟨hstatus, hsource⟩ := completes_status s.accumulatedText hcompletes
  unfold finalize
  simp only [hstatus, hsource, htext]
  simp [htext]

/-- A stream that completes without any text finishes its placeholder. -/
theorem finalize_completes_placeholder (hcompletes : ending.completes = true)
    (htext : isBlank s.accumulatedText = true) (hevent : s.eventId ≠ none) (hplaceholder : s.placeholderProgressSent = true)
    (hcandidate : s.canonicalFinalBodyCandidate = none) (sends : Nat → SendResult) : finalize formatter s ending sends =
      finalizeSending formatter { s with warmupLines := [] } ending ⟨.completed, none, none⟩ .completed true
        (formatter.parseAndFormatInteractive progressPlaceholder) sends := by
  obtain ⟨hstatus, hsource⟩ := completes_status s.accumulatedText hcompletes
  have hempty : isBlank "" = true := by decide
  unfold finalize
  simp only [hstatus, hsource, htext, hcandidate, hplaceholder]
  simp [hempty, Option.isSome_iff_ne_none.2 hevent]

/-- A stream that completes without a text keeps what is visible, or shows nothing, unless a body of its own
would replace a visible one. -/
theorem finalize_completes_quiet (hcompletes : ending.completes = true) (htext : isBlank s.accumulatedText = true)
    (hfinish : ¬ (s.eventId ≠ none ∧ s.placeholderProgressSent = true ∧ s.canonicalFinalBodyCandidate = none))
    (hexclusive : s.placeholderProgressSent = true → s.lastCommittedVisibleBodyState ≠ .visibleBody)
    (hsubstitutes : s.lastCommittedVisibleBodyState = .visibleBody → ¬ SubstitutesBody formatter s)
    (sends : Nat → SendResult) : finalize formatter s ending sends =
        finalizedCommitted { s with warmupLines := [] } ⟨.completed, s.canonicalFinalBodyCandidate, none⟩ [] ∨
      finalize formatter s ending sends =
        finalizedEmpty { s with warmupLines := [] } ⟨.completed, s.canonicalFinalBodyCandidate, none⟩ := by
  obtain ⟨hstatus, hsource⟩ := completes_status s.accumulatedText hcompletes
  have hempty : isBlank "" = true := by decide
  unfold finalize
  simp only [hstatus, hsource, htext]
  cases hcandidate : s.canonicalFinalBodyCandidate with
  | none =>
    right
    have hplaceholder : (s.eventId.isSome && s.placeholderProgressSent) = false := by
      rw [Bool.and_eq_false_iff]
      by_contra hboth
      simp only [not_or, Bool.not_eq_false, Option.isSome_iff_ne_none] at hboth
      exact hfinish ⟨hboth.1, hboth.2, hcandidate⟩
    simp [hempty, hplaceholder]
  | some body =>
    by_cases hvisible : s.lastCommittedVisibleBodyState = .visibleBody
    · right
      have hplaceholder : s.placeholderProgressSent = false := by
        cases hsent : s.placeholderProgressSent with
        | false => rfl
        | true => exact absurd hvisible (hexclusive hsent)
      cases hbody : isBlank body with
      | true => simp [hvisible, hplaceholder, hbody]
      | false =>
        have hshown : isBlank (formatter.parseAndFormatInteractive body).1 = true := by
          cases hformatted : isBlank (formatter.parseAndFormatInteractive body).1 with
          | true => rfl
          | false => exact absurd ⟨body, hcandidate, hbody, hformatted⟩ (hsubstitutes hvisible)
        simp [hvisible, hplaceholder, hbody, hshown]
    · left
      simp [hvisible]

/-- A body that would replace a visible one is reported and not sent. -/
theorem finalize_substitutes (hcompletes : ending.completes = true) (htext : isBlank s.accumulatedText = true)
    (hvisible : s.lastCommittedVisibleBodyState = .visibleBody) (hplaceholder : s.placeholderProgressSent = false)
    {body : String} (hcandidate : s.canonicalFinalBodyCandidate = some body) (hbody : isBlank body = false)
    (hshown : isBlank (formatter.parseAndFormatInteractive body).1 = false) (sends : Nat → SendResult) :
    finalize formatter s ending sends =
      finalizeSending formatter { s with warmupLines := [] } ending ⟨.completed, some body, none⟩ .completed false
        (formatter.parseAndFormatInteractive body) sends := by
  obtain ⟨hstatus, hsource⟩ := completes_status s.accumulatedText hcompletes
  unfold finalize
  simp only [hstatus, hsource, htext, hcandidate, hplaceholder]
  simp [hvisible, hbody, hshown]

/-- A stream that fails sends its note. -/
theorem finalize_fails_sends (formatter : Formatter μ) (hcompletes : ending.completes = false) (hsends : SendsUpdate s ending) :
    ∃ facts, ∀ sends, finalize formatter s ending sends =
      finalizeSending formatter
        { s with
          warmupLines := []
          accumulatedText := (prepareTerminalTextAndStatus s.accumulatedText ending).1 }
        ending facts (prepareTerminalTextAndStatus s.accumulatedText ending).2 false
        (formatter.parseAndFormatInteractive (prepareTerminalTextAndStatus s.accumulatedText ending).1) sends := by
  have hstatus := not_completes_status s.accumulatedText hcompletes
  have htext := terminalText_of_not_completed hstatus
  rw [SendsUpdate, hcompletes, if_neg Bool.false_ne_true] at hsends
  refine ⟨⟨if ending.resolvedCancelSource.isSome then .cancelled else
      (prepareTerminalTextAndStatus s.accumulatedText ending).2,
    s.canonicalFinalBodyCandidate <|> if isBlank s.accumulatedText then none else some s.accumulatedText,
    ending.resolvedCancelSource.map cancelFailureReason⟩, ?_⟩
  intro sends
  have hshutdown : (ending.resolvedCancelSource.isSome && ending.processShutdown) = false := by
    rw [Bool.and_eq_false_iff]
    by_contra hboth
    simp only [not_or, Bool.not_eq_false, Option.isSome_iff_ne_none] at hboth
    exact hsends.1 hboth
  unfold finalize
  rcases hterminal : prepareTerminalTextAndStatus s.accumulatedText ending with ⟨text, status⟩
  rw [hterminal] at hstatus htext
  dsimp only at hstatus htext
  have hkept := hsends.2
  simp only [hterminal, hshutdown]
  simp only [Bool.false_eq_true, if_false, hstatus, htext, false_and, and_false]
  rw [if_neg ?_]
  · simp
  · intro hkeeps
    refine hkept ⟨hkeeps.2.1, hkeeps.2.2.1, hkeeps.2.2.2.1, hkeeps.2.2.2.2.1, ?_⟩
    simpa using hkeeps.2.2.2.2.2

/-- A stream that fails without a note keeps what is visible. -/
theorem finalize_fails_quiet (formatter : Formatter μ) (hcompletes : ending.completes = false) (hsends : ¬ SendsUpdate s ending) :
    ∃ s' facts, SameCommits s s' ∧ ∀ sends, finalize formatter s ending sends = finalizedCommitted s' facts [] ∨
      finalize formatter s ending sends = finalizedEmpty s' facts := by
  have hstatus := not_completes_status s.accumulatedText hcompletes
  have htext := terminalText_of_not_completed hstatus
  rw [SendsUpdate, hcompletes, if_neg Bool.false_ne_true] at hsends
  by_cases hshutdown : ending.resolvedCancelSource ≠ none ∧ ending.processShutdown = true
  · refine ⟨{ s with warmupLines := [] }, ⟨.cancelled, s.canonicalFinalBodyCandidate <|>
      if isBlank s.accumulatedText then none else some s.accumulatedText,
      ending.resolvedCancelSource.map cancelFailureReason⟩, ⟨rfl, rfl, rfl⟩, ?_⟩
    intro sends
    left
    unfold finalize
    simp [Option.isSome_iff_ne_none.2 hshutdown.1, hshutdown.2]
  · have hkeeps : s.eventId ≠ none ∧ s.preserveExistingVisibleOnEmptyTerminal = true ∧
        s.placeholderProgressSent = false ∧ s.lastCommittedVisibleBodyState = .none ∧
        isBlank s.accumulatedText = true := by
      by_contra hkept
      exact hsends ⟨hshutdown, hkept⟩
    refine ⟨{ s with
        warmupLines := []
        accumulatedText := (prepareTerminalTextAndStatus s.accumulatedText ending).1 },
      ⟨if ending.resolvedCancelSource.isSome then .cancelled else
        (prepareTerminalTextAndStatus s.accumulatedText ending).2,
      s.canonicalFinalBodyCandidate <|> if isBlank s.accumulatedText then none else some s.accumulatedText,
      ending.resolvedCancelSource.map cancelFailureReason⟩, ⟨rfl, rfl, rfl⟩, ?_⟩
    intro sends
    right
    have hstopped : (ending.resolvedCancelSource.isSome && ending.processShutdown) = false := by
      rw [Bool.and_eq_false_iff]
      by_contra hboth
      simp only [not_or, Bool.not_eq_false, Option.isSome_iff_ne_none] at hboth
      exact hshutdown hboth
    unfold finalize
    rcases hterminal : prepareTerminalTextAndStatus s.accumulatedText ending with ⟨text, status⟩
    rw [hterminal] at hstatus htext
    dsimp only at hstatus htext
    simp only [hterminal, hstopped]
    simp only [Bool.false_eq_true, if_false, hstatus, htext, false_and, and_false]
    rw [if_pos]
    refine ⟨hstatus, hkeeps.1, hkeeps.2.1, hkeeps.2.2.1, hkeeps.2.2.2.1, ?_⟩
    simp [hkeeps.2.2.2.2]

end

/-! ### The exact condition -/

theorem StreamInv.exclusive {run : StreamRun μ} (h : StreamInv formatter run)
    (hplaceholder : run.stream.placeholderProgressSent = true) :
    run.stream.lastCommittedVisibleBodyState ≠ .visibleBody := by
  rcases h.placeholder hplaceholder with honly | ⟨hnone, _⟩
  · rw [honly]
    decide
  · rw [hnone]
    decide

/-- A stream that sends its terminal text is honest exactly if the text needs no spacing. -/
theorem finalize_honest_of_sends {run : StreamRun μ} {ending : Ending} (h : StreamInv formatter run)
    (hsends : SendsUpdate run.stream ending) : (∀ sends, Honest run (finalize formatter run.stream ending sends)) ↔
      messageBody (formatter.parseAndFormatInteractive (terminalText run.stream ending)).1 =
        (formatter.parseAndFormatInteractive (terminalText run.stream ending)).1 := by
  cases hcompletes : ending.completes with
  | true =>
    obtain ⟨hstatus, _⟩ := completes_status run.stream.accumulatedText hcompletes
    cases htext : isBlank run.stream.accumulatedText with
    | false =>
      have hterminal : terminalText run.stream ending = run.stream.accumulatedText := by
        simp [terminalText, hstatus, htext]
      obtain ⟨prepared, hprepared, hshown⟩ := prepareDelivery_text formatter
        { run.stream with warmupLines := [] } false .completed (.inl htext)
      rw [htext, if_neg Bool.false_ne_true] at hshown
      have hsame : SameCommits run.stream { run.stream with warmupLines := [] } := ⟨rfl, rfl, rfl⟩
      simp only [finalize_completes_text hcompletes htext]
      rw [finalizeSending_honest_iff h hsame hprepared, hshown, hterminal]
    | true =>
      rw [SendsUpdate, hcompletes, if_pos rfl, htext] at hsends
      rcases hsends with hfalse | ⟨hevent, hplaceholder, hcandidate⟩
      · cases hfalse
      have hterminal : terminalText run.stream ending = progressPlaceholder := by
        simp [terminalText, hstatus, htext]
      obtain ⟨prepared, hprepared, hshown⟩ := prepareDelivery_text formatter
        { run.stream with warmupLines := [] } true .completed (.inr rfl)
      rw [htext, if_pos rfl] at hshown
      have hsame : SameCommits run.stream { run.stream with warmupLines := [] } := ⟨rfl, rfl, rfl⟩
      simp only [finalize_completes_placeholder hcompletes htext hevent hplaceholder hcandidate]
      rw [finalizeSending_honest_iff h hsame hprepared, hshown, hterminal]
  | false =>
    have htext := terminalText_of_not_completed (not_completes_status run.stream.accumulatedText hcompletes)
    have hterminal : terminalText run.stream ending =
        (prepareTerminalTextAndStatus run.stream.accumulatedText ending).1 := by
      simp [terminalText, htext]
    obtain ⟨facts, hfinal⟩ := finalize_fails_sends formatter hcompletes hsends
    obtain ⟨prepared, hprepared, hshown⟩ := prepareDelivery_text formatter
      { run.stream with
        warmupLines := []
        accumulatedText := (prepareTerminalTextAndStatus run.stream.accumulatedText ending).1 }
      false (prepareTerminalTextAndStatus run.stream.accumulatedText ending).2 (.inl htext)
    dsimp only at hshown
    rw [htext, if_neg Bool.false_ne_true] at hshown
    have hsame : SameCommits run.stream { run.stream with
        warmupLines := []
        accumulatedText := (prepareTerminalTextAndStatus run.stream.accumulatedText ending).1 } := ⟨rfl, rfl, rfl⟩
    simp only [hfinal]
    rw [finalizeSending_honest_iff h hsame hprepared, hshown, hterminal]

/-- A finished stream is honest, whatever becomes of its sends, exactly if it reports what it sends. -/
theorem finalize_honest_iff {run : StreamRun μ} (hrun : Reachable formatter run) (ending : Ending) :
    (∀ sends, Honest run (finalize formatter run.stream ending sends)) ↔
      ReportsWhatItSends formatter run.stream ending := by
  have h := reachable_streamInv hrun
  by_cases hsends : SendsUpdate run.stream ending
  · rw [finalize_honest_of_sends h hsends]
    constructor
    · intro hspaced
      refine ⟨?_, fun _ => hspaced⟩
      intro hcompletes htext hvisible ⟨body, hcandidate, _⟩
      rw [SendsUpdate, hcompletes, if_pos rfl, htext] at hsends
      rcases hsends with hfalse | ⟨_, _, hnone⟩
      · cases hfalse
      · rw [hcandidate] at hnone
        cases hnone
    · intro hreports
      exact hreports.spaced hsends
  · cases hcompletes : ending.completes with
    | false =>
      obtain ⟨s', facts, hsame, hfinal⟩ := finalize_fails_quiet formatter hcompletes hsends
      constructor
      · intro _
        refine ⟨?_, fun hsent => absurd hsent hsends⟩
        intro htrue
        rw [hcompletes] at htrue
        cases htrue
      · intro _ sends
        rcases hfinal sends with hquiet | hquiet
        · rw [hquiet]
          exact honest_committed h hsame _ _
        · rw [hquiet]
          exact honest_empty _ _
    | true =>
      have htext : isBlank run.stream.accumulatedText = true := by
        cases htext : isBlank run.stream.accumulatedText with
        | true => rfl
        | false => exact absurd (by rw [SendsUpdate, hcompletes, if_pos rfl]; exact .inl htext) hsends
      have hfinish : ¬ (run.stream.eventId ≠ none ∧ run.stream.placeholderProgressSent = true ∧
          run.stream.canonicalFinalBodyCandidate = none) := by
        intro hfinish
        exact hsends (by rw [SendsUpdate, hcompletes, if_pos rfl]; exact .inr hfinish)
      constructor
      · intro hhonest
        refine ⟨?_, fun hsent => absurd hsent hsends⟩
        intro _ _ hvisible ⟨body, hcandidate, hbody, hshown⟩
        have hplaceholder : run.stream.placeholderProgressSent = false := by
          cases hsent : run.stream.placeholderProgressSent with
          | false => rfl
          | true => exact absurd hvisible (h.exclusive hsent)
        have hdelivered := hhonest fun _ => .undelivered
        rw [finalize_substitutes hcompletes htext hvisible hplaceholder hcandidate hbody hshown] at hdelivered
        obtain ⟨hcommitted, hnothing⟩ := @finalizeSending_unsent _ formatter
          { run.stream with warmupLines := [] } ending ⟨.completed, some body, none⟩ .completed
          (formatter.parseAndFormatInteractive body) (fun _ => .undelivered) htext rfl
        obtain ⟨payload, hpayload, _⟩ := hdelivered.1 hcommitted
        rw [hnothing] at hpayload
        cases hpayload
      · intro hreports sends
        rcases finalize_completes_quiet hcompletes htext hfinish h.exclusive
          (hreports.substitutes hcompletes htext) sends with hquiet | hquiet
        · rw [hquiet]
          exact honest_committed h ⟨rfl, rfl, rfl⟩ _ _
        · rw [hquiet]
          exact honest_empty _ _

/-! ### Streams that report what they do not send -/

/-- Texts without a prompt in them. -/
def plainFormatter : Formatter Unit where
  parseAndFormatInteractive text := (text, none)
  placeholder := rfl

/-- A visible body is replaced by a blank one before the run completes with a body of its own. -/
def blankedRun : StreamRun Unit :=
  [.update "Draft", .prepare false, .acknowledged "$1", .update " ", .runCompleted "Answer"].foldl
    (StreamRun.step plainFormatter) (StreamRun.start true false none false)

/-- A tool marker with text right under it. -/
def markedRun : StreamRun Unit :=
  (StreamRun.start false false none false).step plainFormatter (.update "🔧 `search` [1]\nDone.")

theorem reachable_foldl {run : StreamRun μ} (h : Reachable formatter run) (steps : List StreamStep) :
    Reachable formatter (steps.foldl (StreamRun.step formatter) run) := by
  induction steps generalizing run with
  | nil => exact h
  | cons step steps ih => exact ih (.step step h)

theorem blankedRun_reachable : Reachable plainFormatter blankedRun := reachable_foldl (.start true false none false) _

theorem markedRun_reachable : Reachable plainFormatter markedRun := .step _ (.start false false none false)

theorem finalize_reports_unsent : (Reachable plainFormatter blankedRun ∧
        (finalize plainFormatter blankedRun.stream {} fun _ => .delivered "$2").acknowledged = [] ∧
        ¬ Honest blankedRun (finalize plainFormatter blankedRun.stream {} fun _ => .delivered "$2")) ∧
      (Reachable plainFormatter markedRun ∧
        ¬ Honest markedRun (finalize plainFormatter markedRun.stream {} fun _ => .delivered "$1")) := by
  have hnothing : (finalize plainFormatter blankedRun.stream {} fun _ => .delivered "$2").acknowledged = [] := by
    decide +kernel
  refine ⟨⟨blankedRun_reachable, hnothing, ?_⟩, markedRun_reachable, ?_⟩
  · intro hhonest
    obtain ⟨payload, hpayload, _⟩ := hhonest.1 (by decide +kernel)
    rw [hnothing] at hpayload
    cases hpayload
  · intro hhonest
    have hsent : (finalize plainFormatter markedRun.stream {} fun _ => .delivered "$1").acknowledged =
        [{ body := "🔧 `search` [1]\n\nDone.", streamStatus := .completed, notice := false }] := by decide +kernel
    have hreported : (finalize plainFormatter markedRun.stream {} fun _ => .delivered "$1").outcome.renderedBody =
        some "🔧 `search` [1]\nDone." := by decide +kernel
    obtain ⟨payload, hpayload, hshown⟩ := hhonest.1 (by decide +kernel)
    rw [hsent, List.mem_singleton] at hpayload
    rw [hreported, hpayload] at hshown
    exact absurd hshown (by decide +kernel)

/-- A text that is sent as it is. -/
def helloRun : StreamRun Unit := (StreamRun.start false false none false).step plainFormatter (.update "Hello.")

theorem finalize_honest_hello :
    Honest helloRun (finalize plainFormatter helloRun.stream {} fun _ => .delivered "$1") := by
  have hreports : ReportsWhatItSends plainFormatter helloRun.stream {} := by
    refine ⟨?_, fun _ => by decide +kernel⟩
    intro _ hblank
    exact absurd hblank (by decide +kernel)
  exact (finalize_honest_iff (.step _ (.start false false none false)) {}).2 hreports _

end MindRoom.Streaming
