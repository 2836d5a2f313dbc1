import MindRoom.DesktopExecution
import MindRoom.DesktopJournalFile

/-! # A desktop journal that loads

The bridge records whatever response it built, and reads its journal back with the strict parser of
the wire. An exception of a local provider whose message is blank becomes a response with a blank
error, which the writer takes and the reader refuses: the bridge does not start any more. A bridge
that is spared such messages can always load its journal.
-/

namespace MindRoom

open DesktopBridge DesktopCommandJournal JsonText

/-! ## The bridge with the contents it receives -/

/-- The media repository answers with an `mxc://` URI, and the encryption with texts that are not
blank. -/
def MediaWithinLimits (upload : MediaUpload) : Prop :=
  (∀ url ∈ upload.contentUri, url.startsWith "mxc://") ∧
    (∀ iv ∈ Dict.nonempty? upload.encryption "iv", Required iv) ∧
    (∀ key ∈ Dict.obj? upload.encryption "key", ∀ k ∈ Dict.nonempty? key "k", Required k) ∧
    ∀ hashes ∈ Dict.obj? upload.encryption "hashes", ∀ sha256 ∈ Dict.nonempty? hashes "sha256", Required sha256

instance : DecidablePred MediaWithinLimits := fun _ => by
  unfold MediaWithinLimits
  infer_instance

inductive BridgeEvent where
  /-- The content of an authenticated command event. -/
  | deliver (content : Json) (write : JournalWrite)
  | process (handler : DesktopHandler) (conditions : DesktopConditions) (write : JournalWrite)
  | complete (handler : DesktopHandler) (run : DesktopRun) (write : JournalWrite)
  | leave (handler : DesktopHandler)
  | restart
deriving DecidableEq

variable (fingerprint : DesktopHost) (policy : DesktopBridgePolicy)

/-- One step. A process that cannot load its journal does not start. -/
def bridgeStep : BridgeEvent → DesktopWorld → Option DesktopWorld
  | .deliver content write, w =>
    match DesktopCommand.fromContent content with
    | .error _ => some w
    | .ok command => some (deliver fingerprint command write w)
  | .process handler conditions write, w =>
    if handler ∈ w.handlers ∧ handler.phase = .waiting ∧ ∀ h ∈ w.handlers, h.phase ≠ .executing then
      some (process fingerprint handler (policyError policy conditions handler.command) write w)
    else none
  | .complete handler run write, w =>
    if handler ∈ w.handlers ∧ handler.phase = .executing ∧ ∀ upload ∈ run.upload, MediaWithinLimits upload then
      some (answer fingerprint handler (DesktopBridge.executed handler.command run) write w)
    else none
  | .leave handler, w => if handler ∈ w.handlers then some (leave handler w) else none
  | .restart, w =>
    match w.file with
    | none => some (restarted {} w)
    | some payload =>
      match loadDocument (fileContent payload) with
      | .error _ => none
      | .ok journal => some (restarted journal w)

/-- The bridge over its life, from a machine without a journal file. -/
def bridgeSystem : System DesktopWorld BridgeEvent where
  start w := w = ⟨{}, none, [], [], [], [], []⟩
  step event w w' := bridgeStep fingerprint policy event w = some w'

/-- The journal of a world and the file it holds load, as the same entries and watermarks in the same
order. -/
structure Reloads (w : DesktopWorld) : Prop where
  journal : loadDocument (fileContent w.journal.payload) = .ok w.journal.canonical
  file : ∀ payload ∈ w.file, ∃ journal : DesktopCommandJournal, payload = journal.payload ∧
    loadDocument (fileContent payload) = .ok journal.canonical

/-- The messages of local exceptions that the response to a command repeats as its error. -/
def reports (command : DesktopCommand) (run : DesktopRun) : List String :=
  match run.execution with
  | .error (.emergencyStop text) => [text]
  | .error (.reported text) => [text]
  | .error _ => []
  | .ok _ =>
    match run.capture with
    | .error (.reported text) =>
      if command.action = .getAppState ∨ command.action ∈ desktopControlActions then [] else [text]
    | _ => []

/-- No message that a response repeats as its error is blank. -/
def NoBlankMessage : BridgeEvent → DesktopWorld → Prop
  | .complete handler run _, _ => ∀ text ∈ reports handler.command run, Required text
  | _, _ => True

instance (event : BridgeEvent) (w : DesktopWorld) : Decidable (NoBlankMessage event w) := by
  cases event <;> unfold NoBlankMessage <;> infer_instance

/-- A step of the bridge other than a restart is one of the bridge that takes any response. -/
theorem bridgeStep_refines {event : BridgeEvent} {w w' : DesktopWorld} (hlive : event ≠ .restart)
    (h : bridgeStep fingerprint policy event w = some w') : w' = w ∨ ∃ label, desktopStep fingerprint label w w' := by
  cases event with
  | deliver content write =>
    simp only [bridgeStep] at h
    cases hcommand : DesktopCommand.fromContent content with
    | error text =>
      rw [hcommand] at h
      exact .inl (Option.some.inj h).symm
    | ok command =>
      rw [hcommand] at h
      exact .inr ⟨.deliver command write, (Option.some.inj h).symm⟩
  | process handler conditions write =>
    simp only [bridgeStep, Option.ite_none_right_eq_some] at h
    rcases h with ⟨⟨hmem, hphase, hfree⟩, h⟩
    exact .inr ⟨.process handler _ write, hmem, hphase, hfree, (Option.some.inj h).symm⟩
  | complete handler run write =>
    simp only [bridgeStep, Option.ite_none_right_eq_some] at h
    rcases h with ⟨⟨hmem, hphase, -⟩, h⟩
    exact .inr ⟨.complete handler _ write, hmem, hphase, (Option.some.inj h).symm⟩
  | leave handler =>
    simp only [bridgeStep, Option.ite_none_right_eq_some] at h
    exact .inr ⟨.leave handler, h.1, (Option.some.inj h.2).symm⟩
  | restart => exact absurd rfl hlive

/-- Between restarts the bridge is the machine that runs a command once and answers it once. -/
theorem bridgeRun_refines (h : ((bridgeSystem fingerprint policy).given fun event _ => event ≠ .restart).Run w w') :
    (desktopSystem fingerprint).Run w w' := by
  induction h with
  | refl => exact .refl
  | tail _ hs ih =>
    rcases hs with ⟨event, hlive, hstep⟩
    rcases bridgeStep_refines fingerprint policy hlive hstep with rfl | ⟨label, hlabel⟩
    · exact ih
    · exact ih.tail ⟨label, hlabel⟩

/-! ## What the bridge says -/

theorem Required.append {a b : String} (h : Required a) : Required (a ++ b) := by
  rcases required_iff.mp h with ⟨c, hmem, hc⟩
  exact required_iff.mpr ⟨c, by rw [String.toList_append]; exact List.mem_append_left _ hmem, hc⟩

theorem required_of_controlError {conditions : DesktopConditions} {text : String}
    (h : controlError policy conditions = some text) : Required text := by
  unfold controlError at h
  split at h
  · cases h
    decide
  split at h
  · cases h
    decide
  split at h
  · cases h
    decide
  · cases h

theorem except_bind_eq_error {ε α β : Type} {x : Except ε α} {f : α → Except ε β} {e : ε} :
    (x >>= f) = .error e ↔ x = .error e ∨ ∃ a, x = .ok a ∧ f a = .error e := by
  cases x with
  | error e' =>
    show Except.error e' = Except.error e ↔ _
    simp
  | ok a =>
    show f a = Except.error e ↔ _
    simp

theorem required_of_parameters {parameters : Dict} {text : String}
    (h : browserCommandParameters parameters = .error text) : Required text := by
  rcases except_bind_eq_error.mp h with h | ⟨_, -, h⟩
  · unfold rejectUnexpectedParameters at h
    dsimp only at h
    split at h
    · cases h
      exact .append (.append (by decide))
    · cases h
  rcases except_bind_eq_error.mp h with h | ⟨_, -, h⟩
  · unfold requiredStrParameter at h
    split at h
    · cases h
      exact .append (.append (by decide))
    split at h
    · cases h
      exact .append (.append (.append (.append (by decide))))
    · cases h
  rcases except_bind_eq_error.mp h with h | ⟨_, -, h⟩
  · unfold requiredObjectParameter at h
    split at h
    · cases h
    · cases h
      exact .append (.append (by decide))
  · cases h

theorem required_of_browserPolicyError {conditions : DesktopConditions} {command : DesktopCommand}
    {text : String} (h : browserPolicyError policy conditions command = some text) : Required text := by
  unfold browserPolicyError at h
  split at h
  · cases h
    decide
  dsimp only at h
  split at h
  · next message hjudged =>
    cases h
    rcases except_bind_eq_error.mp hjudged with hparameters | ⟨parsed, -, hcontrol⟩
    · exact required_of_parameters hparameters
    · unfold browserActionRequiresControl at hcontrol
      split at hcontrol
      · cases hcontrol
        exact .append (.append (by decide))
      · cases hcontrol
  next requiresControl _ =>
  cases requiresControl with
  | false =>
    simp only [Bool.false_eq_true, if_false, not_false_eq_true, if_true] at h
    split at h
    · cases h
      decide
    · cases h
  | true =>
    simp only [if_true, not_true_eq_false, if_false] at h
    split at h
    · cases h
      decide
    · exact required_of_controlError policy h

/-- Every refusal of the local policy says something. -/
theorem required_of_policyError {conditions : DesktopConditions} {command : DesktopCommand} {text : String}
    (h : policyError policy conditions command = some text) : Required text := by
  unfold policyError at h
  split at h
  · cases h
    decide
  split at h
  · cases h
    decide
  split at h
  · cases h
    decide
  split at h
  · exact required_of_browserPolicyError policy h
  split at h
  · cases h
    decide
  split at h
  · cases h
  · exact required_of_controlError policy h

/-! ## What the bridge answers -/

section

variable {command : DesktopCommand}

/-- A command whose identifiers a response can repeat. -/
def Answerable (command : DesktopCommand) : Prop :=
  BoundedIdentifier command.requestId ∧ BoundedIdentifier command.sessionId ∧ 0 ≤ command.sequence

/-- A response of the command that the reader accepts. -/
def Answers (command : DesktopCommand) (response : DesktopResponse) : Prop :=
  response.Accepted ∧ response.requestId = command.requestId

theorem answers_error (hcommand : Answerable command) {text : String} (h : Required text) :
    Answers command (errorResponse command text) := by
  refine ⟨⟨?_, fun hok => absurd hok (by simp [errorResponse]), fun _ => ⟨by simp [errorResponse], rfl⟩, hcommand.1,
    hcommand.2.1, fun _ hmedia => absurd hmedia (by simp [errorResponse])⟩, rfl⟩
  rintro text' ⟨⟩
  exact h

theorem answers_success (hcommand : Answerable command) {result : Dict}
    {screenshot : Option EncryptedDesktopMedia} (h : ∀ media ∈ screenshot, media.Accepted) :
    Answers command (successResponse command result screenshot) :=
  ⟨⟨fun _ herror => absurd herror (by simp [successResponse]), fun _ => rfl,
    fun hok => absurd rfl hok, hcommand.1, hcommand.2.1, h⟩, rfl⟩

theorem answers_unknown (hcommand : Answerable command) :
    Answers command (unknownControlResponse command) := answers_success hcommand (by rintro _ ⟨⟩)

theorem answers_interrupted (hcommand : Answerable command) : Answers command (interruptedResponse command) := by
  unfold interruptedResponse
  split
  · exact answers_unknown hcommand
  · exact answers_error hcommand (by decide)

theorem answers_captureError (hcommand : Answerable command) {result : Dict} {error : String}
    (h : command.action = .getAppState ∨ command.action ∈ desktopControlActions ∨ Required error) :
    Answers command (captureErrorResponse command result error) := by
  unfold captureErrorResponse
  split
  · exact answers_success hcommand (by rintro _ ⟨⟩)
  · next hstate =>
    split
    · next hcontrol =>
      rcases h with h | h | h
      · exact absurd h hstate
      · exact absurd h hcontrol
      · exact answers_error hcommand h
    · exact answers_success hcommand (by rintro _ ⟨⟩)

/-- What the validation of an image reports. -/
theorem validateImagePayload_error {image : List UInt8} {mimeType text : String}
    (h : validateImagePayload image mimeType = .error (.reported text)) : Required text := by
  unfold validateImagePayload at h
  split at h
  · obtain rfl := CaptureFailure.reported.inj (Except.error.inj h)
    exact .append (.append (by decide))
  split at h
  · cases h
  split at h
  · cases h
  · obtain rfl := CaptureFailure.reported.inj (Except.error.inj h)
    decide

/-- A valid image is a PNG or JPEG of at most the protocol's size. -/
theorem validateImagePayload_ok {image : List UInt8} {mimeType : String} {u : Unit}
    (h : validateImagePayload image mimeType = .ok u) : 0 < image.length ∧ image.length ≤ maxScreenshotBytes ∧
      (mimeType = "image/jpeg" ∨ mimeType = "image/png") := by
  unfold validateImagePayload at h
  split at h
  · cases h
  next hsize =>
  rw [not_or] at hsize
  have hpos : 0 < image.length := List.length_pos_iff.mpr hsize.1
  split at h
  · next hpng => exact ⟨hpos, by omega, .inr hpng.1⟩
  split at h
  · next hjpeg => exact ⟨hpos, by omega, .inl hjpeg.1⟩
  · cases h

/-- What was uploaded within the limits is accepted. -/
theorem accepted_of_upload {image : List UInt8} {mimeType : String} {upload : Option MediaUpload}
    {media : EncryptedDesktopMedia} (hlimits : ∀ answer ∈ upload, MediaWithinLimits answer)
    (h : uploadEncryptedScreenshot image mimeType upload = .ok media) : media.Accepted := by
  rcases Transaction.except_bind_eq_ok.mp h with ⟨_, hvalid, h⟩
  rcases validateImagePayload_ok hvalid with ⟨hpos, hmax, hkind⟩
  cases upload with
  | none => cases h
  | some answer =>
    rcases hlimits answer rfl with ⟨hurl, hiv, hkey, hsha⟩
    dsimp only at h
    split at h
    · cases h
    next url hurl' =>
    split at h
    · next key hashes hkey' hhashes' =>
      split at h
      · next k iv sha256 hk hiv' hsha' =>
        cases h
        rw [maxScreenshotBytes] at hmax
        exact ⟨hurl url hurl', by dsimp only; omega, by dsimp only; omega, hkind, hkey key hkey' k hk, hiv iv hiv',
          hsha hashes hhashes' sha256 hsha'⟩
      · cases h
    · cases h

/-- What a failed upload reports says something. -/
theorem required_of_upload {image : List UInt8} {mimeType text : String} {upload : Option MediaUpload}
    (h : uploadEncryptedScreenshot image mimeType upload = .error (.reported text)) : Required text := by
  rcases except_bind_eq_error.mp h with h | ⟨_, -, h⟩
  · exact validateImagePayload_error h
  cases upload with
  | none => cases h
  | some answer =>
    dsimp only at h
    split at h
    · obtain rfl := CaptureFailure.reported.inj (Except.error.inj h)
      exact .append (by decide)
    split at h
    · split at h
      · cases h
      · obtain rfl := CaptureFailure.reported.inj (Except.error.inj h)
        decide
    · obtain rfl := CaptureFailure.reported.inj (Except.error.inj h)
      decide

theorem answers_browserImage (hcommand : Answerable command) {result : Dict} {image : BrowserImage}
    {upload : Option MediaUpload} (hlimits : ∀ answer ∈ upload, MediaWithinLimits answer) :
    Answers command (browserImageResponse command result image upload) := by
  unfold browserImageResponse
  split
  · next text htext => exact answers_captureError hcommand (.inr (.inr (required_of_upload htext)))
  · exact answers_captureError hcommand (.inr (.inr (by decide)))
  · next media hmedia =>
    refine answers_success hcommand ?_
    rintro _ ⟨⟩
    exact accepted_of_upload hlimits hmedia

theorem answers_capture (hcommand : Answerable command) {result : Dict} {run : DesktopRun}
    (hlimits : ∀ answer ∈ run.upload, MediaWithinLimits answer)
    (hcapture : ∀ text, run.capture = .error (.reported text) →
      command.action = .getAppState ∨ command.action ∈ desktopControlActions ∨ Required text) :
    Answers command (captureResponse command result run) := by
  unfold captureResponse
  dsimp only
  split
  · next text htext =>
    rcases except_bind_eq_error.mp htext with htext | ⟨capture, -, htext⟩
    · exact answers_captureError hcommand (hcapture text htext)
    rcases except_bind_eq_error.mp htext with htext | ⟨_, -, htext⟩
    · exact answers_captureError hcommand (.inr (.inr (required_of_upload htext)))
    · cases htext
  · exact answers_captureError hcommand (.inr (.inr (by decide)))
  · next capture media hcaptured =>
    refine answers_success hcommand ?_
    rintro _ ⟨⟩
    rcases Transaction.except_bind_eq_ok.mp hcaptured with ⟨capture', -, hcaptured⟩
    rcases Transaction.except_bind_eq_ok.mp hcaptured with ⟨media', hmedia, hpair⟩
    obtain rfl := (Prod.mk.inj (Except.ok.inj hpair)).2
    exact accepted_of_upload hlimits hmedia

theorem answers_failed (hcommand : Answerable command) {run : DesktopRun} {response : DesktopResponse}
    (hreports : ∀ text ∈ reports command run, Required text)
    (h : executeSafely command run.execution = .error response) : Answers command response := by
  unfold reports at hreports
  cases hexecution : run.execution with
  | ok execution =>
    rw [hexecution] at h
    cases h
  | error failure =>
    rw [hexecution] at h hreports
    cases failure with
    | emergencyStop text =>
      cases h
      exact answers_error hcommand (hreports text (List.mem_singleton_self _))
    | outcomeUnknown =>
      cases h
      exact answers_unknown hcommand
    | reported text =>
      cases h
      exact answers_error hcommand (hreports text (List.mem_singleton_self _))
    | other =>
      dsimp only [executeSafely] at h
      split at h
      · cases h
        exact answers_unknown hcommand
      · cases h
        exact answers_error hcommand (by decide)

/-- A command that reports no blank message is answered with a response the reader accepts. -/
theorem answers_executed (hcommand : Answerable command) {run : DesktopRun}
    (hlimits : ∀ upload ∈ run.upload, MediaWithinLimits upload)
    (hreports : ∀ text ∈ reports command run, Required text) :
    Answers command (DesktopBridge.executed command run) := by
  unfold DesktopBridge.executed
  dsimp only
  split
  · next response hfinished =>
    rcases except_bind_eq_error.mp hfinished with hfailed | ⟨execution, -, hfinished⟩
    · exact answers_failed hcommand hreports hfailed
    rcases except_bind_eq_error.mp hfinished with hattached | ⟨attached, -, hfinished⟩
    · unfold attachFollowUpState at hattached
      split at hattached
      · cases hattached
      · cases hattached
        exact answers_success hcommand (by rintro _ ⟨⟩)
      · cases hattached
    · split at hfinished
      · cases hfinished
        exact answers_browserImage hcommand hlimits
      split at hfinished
      · cases hfinished
        exact answers_success hcommand (by rintro _ ⟨⟩)
      · cases hfinished
  · next execution hfinished =>
    refine answers_capture hcommand hlimits ?_
    intro text hcapture
    rcases Transaction.except_bind_eq_ok.mp hfinished with ⟨execution', hexecuted, -⟩
    have hreports' : ∀ text' ∈ (if command.action = .getAppState ∨ command.action ∈ desktopControlActions
        then [] else [text]), Required text' := by
      unfold reports at hreports
      cases hexecution : run.execution with
      | error failure =>
        rw [hexecution] at hexecuted
        cases failure with
        | other =>
          dsimp only [executeSafely] at hexecuted
          split at hexecuted <;> cases hexecuted
        | _ => cases hexecuted
      | ok _ =>
        rw [hexecution, hcapture] at hreports
        exact hreports
    by_cases hquiet : command.action = .getAppState ∨ command.action ∈ desktopControlActions
    · exact hquiet.imp_right .inl
    · rw [if_neg hquiet] at hreports'
      exact .inr (.inr (hreports' text (List.mem_singleton_self _)))

end

/-! ## What the journal holds -/

/-- The journal is one that `load` accepts. -/
structure Loadable (journal : DesktopCommandJournal) : Prop where
  entries : ∀ q e, journal.entries.value? q = some e → IsIdentifier q ∧ IsFingerprint e.commandFingerprint ∧
    ∀ response ∈ e.response, response.Accepted ∧ response.requestId = q
  sequences : ∀ s m, journal.sequenceHighWatermarks.value? s = some m → IsIdentifier s ∧ 0 ≤ m

def Bounded (journal : DesktopCommandJournal) : Prop :=
  journal.entries.rows.length ≤ maxReplayResponses ∧
    journal.sequenceHighWatermarks.rows.length ≤ maxTrackedSessions

theorem isIdentifier_of_bounded {text : String} (h : BoundedIdentifier text) : IsIdentifier text := by
  refine ⟨?_, h.2⟩
  rintro rfl
  exact h.1 (by decide)

variable {journal : DesktopCommandJournal}

theorem Loadable.prune (h : Loadable journal) : Loadable journal.prune :=
  ⟨fun q e he => h.entries q e (Mapping.value?_of_keepLast he),
    fun s m hm => h.sequences s m (Mapping.value?_of_keepLast hm)⟩

theorem bounded_prune (journal : DesktopCommandJournal) : Bounded journal.prune := by
  unfold Bounded DesktopCommandJournal.prune Mapping.keepLast
  simp only [List.length_drop]
  omega

theorem loadEntries_ok {rows : List (Mapping.Item String DesktopCommandJournalEntry)}
    {entries : Mapping String DesktopCommandJournalEntry}
    (h : ∀ row ∈ rows, IsIdentifier row.key ∧ IsFingerprint row.value.commandFingerprint ∧
      ∀ response ∈ row.value.response, response.Accepted ∧ response.requestId = row.key)
    (hkeys : ((entries.rows ++ rows).map (·.key)).Nodup) : ∃ loaded, loadEntries entries rows = .ok loaded := by
  induction rows generalizing entries with
  | nil => exact ⟨entries, rfl⟩
  | cons row rest ih =>
    rcases h row List.mem_cons_self with ⟨hkey, hfingerprint, hresponse⟩
    have habsent : entries.value? row.key = none := by
      by_contra hsome
      rcases Option.ne_none_iff_exists'.mp hsome with ⟨v, hv⟩
      rw [List.map_append, List.nodup_append] at hkeys
      exact hkeys.2.2 row.key (Mapping.mem_keys.mpr ⟨v, hv⟩) row.key (by simp) rfl
    have hrest := @ih (entries.set row.key row.value) (fun row' hrow' => h row' (List.mem_cons_of_mem _ hrow')) (by
      rw [Mapping.rows_set_of_absent habsent, List.append_assoc]
      exact hkeys)
    rcases hrest with ⟨loaded, hloaded⟩
    refine ⟨loaded, loadEntries_cons.mpr ⟨?_, hloaded⟩⟩
    rintro (hbad | hbad | hbad | ⟨response, hmem, hbad | hbad⟩)
    · exact hbad hkey
    · exact hbad hfingerprint
    · rw [habsent] at hbad
      cases hbad
    · exact hbad (hresponse response hmem).1
    · exact hbad (hresponse response hmem).2

theorem loadSequences_ok {rows : List (Mapping.Item String Int)} {sequences : Mapping String Int}
    (h : ∀ row ∈ rows, IsIdentifier row.key ∧ 0 ≤ row.value) (hkeys : ((sequences.rows ++ rows).map (·.key)).Nodup) :
    ∃ loaded, loadSequences sequences rows = .ok loaded := by
  induction rows generalizing sequences with
  | nil => exact ⟨sequences, rfl⟩
  | cons row rest ih =>
    rcases h row List.mem_cons_self with ⟨hkey, hpos⟩
    have habsent : sequences.value? row.key = none := by
      by_contra hsome
      rcases Option.ne_none_iff_exists'.mp hsome with ⟨v, hv⟩
      rw [List.map_append, List.nodup_append] at hkeys
      exact hkeys.2.2 row.key (Mapping.mem_keys.mpr ⟨v, hv⟩) row.key (by simp) rfl
    rw [loadSequences, if_neg ?_]
    · refine ih (fun row' hrow' => h row' (List.mem_cons_of_mem _ hrow')) ?_
      rw [Mapping.rows_set_of_absent habsent, List.append_assoc]
      exact hkeys
    · rintro (hbad | hbad | hbad)
      · exact hbad hkey
      · omega
      · rw [habsent] at hbad
        cases hbad

/-- A loadable journal within its bounds is read back from its file. -/
theorem Loadable.loads (h : Loadable journal) (hbounds : Bounded journal) :
    loadDocument (fileContent journal.payload) = .ok journal.canonical := by
  have hentries : ∃ loaded, loadEntries ∅ journal.entries.rows = .ok loaded := by
    refine loadEntries_ok ?_ journal.entries.primaryKey
    intro row hrow
    exact h.entries row.key row.value (Mapping.value?_eq_some.mpr hrow)
  have hsequences : ∃ loaded, loadSequences ∅ journal.sequenceHighWatermarks.rows = .ok loaded := by
    refine loadSequences_ok ?_ journal.sequenceHighWatermarks.primaryKey
    intro row hrow
    exact h.sequences row.key row.value (Mapping.value?_eq_some.mpr hrow)
  rcases hentries with ⟨entries, hentries⟩
  rcases hsequences with ⟨sequences, hsequences⟩
  have hload : load (some journal.payload) = .ok ⟨entries, sequences⟩ := by
    show loadPayload journal.payload = _
    unfold loadPayload
    rw [if_neg ?_, Transaction.except_bind_eq_ok]
    · refine ⟨entries, hentries, ?_⟩
      rw [Transaction.except_bind_eq_ok]
      exact ⟨sequences, hsequences, rfl⟩
    · rintro (hbad | hbad | hbad)
      · exact hbad rfl
      · exact absurd hbounds.1 (Nat.not_le.mpr hbad)
      · exact absurd hbounds.2 (Nat.not_le.mpr hbad)
  rw [loadDocument_fileContent]
  exact ⟨journal, load_payload hload ▸ hload, rfl⟩

theorem Loadable.withResponse {command : DesktopCommand}
    {response : DesktopResponse} (h : Loadable journal) (hfingerprint : IsFingerprint (fingerprint command))
    (hcommand : Answerable command) (hresponse : Answers command response) :
    Loadable (journal.withResponse command (fingerprint command) response) := by
  refine ⟨fun q e he => ?_, h.sequences⟩
  replace he : (journal.entries.setLast command.requestId ⟨_, some response⟩).value? q = some e := he
  rw [Mapping.value?_setLast] at he
  split at he
  · next hq =>
    cases he
    refine ⟨hq ▸ isIdentifier_of_bounded hcommand.1, hfingerprint, ?_⟩
    rintro _ ⟨⟩
    exact ⟨hresponse.1, hresponse.2.trans hq⟩
  · exact h.entries q e he

theorem Loadable.withStarted {command : DesktopCommand}
    (h : Loadable journal) (hfingerprint : IsFingerprint (fingerprint command))
    (hcommand : Answerable command) : Loadable (journal.withStarted command (fingerprint command)) := by
  refine ⟨fun q e he => ?_, fun s m hm => ?_⟩
  · replace he : (journal.entries.setLast command.requestId ⟨_, none⟩).value? q = some e := he
    rw [Mapping.value?_setLast] at he
    split at he
    · next hq =>
      cases he
      exact ⟨hq ▸ isIdentifier_of_bounded hcommand.1, hfingerprint, by rintro _ ⟨⟩⟩
    · exact h.entries q e he
  · replace hm : (journal.sequenceHighWatermarks.setLast command.sessionId command.sequence).value? s = some m :=
      hm
    rw [Mapping.value?_setLast] at hm
    split at hm
    · next hs =>
      cases hm
      exact ⟨hs ▸ isIdentifier_of_bounded hcommand.2.1, hcommand.2.2⟩
    · exact h.sequences s m hm

theorem Loadable.canonical (h : Loadable journal) : Loadable journal.canonical := by
  refine ⟨fun q e he => ?_, h.sequences⟩
  replace he : (canonicalEntries journal.entries).value? q = some e := he
  rw [canonicalEntries, Mapping.value?_mapValues, Option.map_eq_some_iff] at he
  rcases he with ⟨entry, hentry, rfl⟩
  rcases h.entries q entry hentry with ⟨hq, hfingerprint, hresponse⟩
  refine ⟨hq, hfingerprint, ?_⟩
  intro response hmem
  rcases Option.map_eq_some_iff.mp hmem with ⟨written, hwritten, rfl⟩
  exact hresponse written hwritten

theorem bounded_canonical (h : Bounded journal) : Bounded journal.canonical := by
  refine ⟨?_, h.2⟩
  show (journal.entries.rows.map _).length ≤ _
  rw [List.length_map]
  exact h.1

/-! ## The runs -/

/-- What every step of a bridge that is spared blank messages keeps. -/
structure Sound (w : DesktopWorld) : Prop where
  journal : Loadable w.journal
  bounded : Bounded w.journal
  file : ∀ payload ∈ w.file, ∃ journal : DesktopCommandJournal, payload = journal.payload ∧
    Loadable journal ∧ Bounded journal
  handlers : ∀ h ∈ w.handlers, Answerable h.command

section

variable {w w' : DesktopWorld} {handler : DesktopHandler} {write : JournalWrite}
variable {fingerprint} {policy}

theorem Sound.persist {journal : DesktopCommandJournal} (h : Sound w) (hjournal : Loadable journal) :
    Sound (persist journal write w) := by
  constructor
  · rw [persist_journal]
    exact hjournal.prune
  · rw [persist_journal]
    exact bounded_prune journal
  · intro payload hpayload
    unfold DesktopBridge.persist at hpayload
    dsimp only at hpayload
    split at hpayload
    · exact h.file payload hpayload
    · cases hpayload
      exact ⟨journal.prune, rfl, hjournal.prune, bounded_prune journal⟩
  · rw [persist_handlers]
    exact h.handlers

theorem Sound.send {command : DesktopCommand} {response : DesktopResponse} (h : Sound w) :
    Sound (send command response w) := ⟨h.journal, h.bounded, h.file, h.handlers⟩

theorem Sound.leave (h : Sound w) : Sound (leave handler w) :=
  ⟨h.journal, h.bounded, h.file, fun h' hh' => h.handlers h' (List.mem_of_mem_erase hh')⟩

theorem Sound.advance {phase : DesktopPhase} (h : Sound w) (hhandler : Answerable handler.command) :
    Sound (advance handler phase w) := by
  refine ⟨h.journal, h.bounded, h.file, ?_⟩
  intro h' hh'
  rcases List.mem_cons.mp hh' with rfl | hh'
  · exact hhandler
  · exact h.handlers h' (List.mem_of_mem_erase hh')

/-- A handler that has a response the reader accepts records it. -/
theorem Sound.answer {response : DesktopResponse} (h : Sound w)
    (hfingerprint : ∀ command, IsFingerprint (fingerprint command)) (hmem : handler ∈ w.handlers)
    (hresponse : Answers handler.command response) : Sound (answer fingerprint handler response write w) := by
  have hcommand := h.handlers handler hmem
  have hrecorded := @Sound.persist w write _ h
    (h.journal.withResponse fingerprint (hfingerprint handler.command) hcommand hresponse)
  unfold DesktopBridge.answer
  dsimp only
  split
  · exact h.leave
  split
  · exact (hrecorded.advance hcommand).send
  · exact hrecorded.leave

theorem Sound.process {error : Option String} (h : Sound w)
    (hfingerprint : ∀ command, IsFingerprint (fingerprint command)) (hmem : handler ∈ w.handlers)
    (herror : ∀ text ∈ error, Required text) : Sound (process fingerprint handler error write w) := by
  have hcommand := h.handlers handler hmem
  have hstarted := @Sound.persist w write _ h
    (h.journal.withStarted fingerprint (hfingerprint handler.command) hcommand)
  unfold DesktopBridge.process
  dsimp only
  split
  · next text htext =>
    refine h.answer hfingerprint hmem (answers_error hcommand ?_)
    rcases Option.or_eq_some_iff.mp htext with htext | ⟨-, htext⟩
    · exact herror text htext
    · unfold DesktopCommandJournal.sequenceError at htext
      split at htext
      · cases htext
      split at htext
      · cases htext
        decide
      · cases htext
  · split
    · have hadvanced := @Sound.advance _ handler .executing hstarted hcommand
      exact ⟨hadvanced.journal, hadvanced.bounded, hadvanced.file, hadvanced.handlers⟩
    · exact hstarted.leave

theorem Sound.deliver {command : DesktopCommand} (h : Sound w)
    (hfingerprint : ∀ command, IsFingerprint (fingerprint command)) (hcommand : Answerable command) :
    Sound (deliver fingerprint command write w) := by
  unfold DesktopBridge.deliver
  split
  · split
    · exact h.send
    split
    · exact h.send
    · have hrecorded := @Sound.persist w write _ h
        (h.journal.withResponse fingerprint (hfingerprint command) hcommand (answers_interrupted hcommand))
      dsimp only
      split
      · exact hrecorded.send
      · exact hrecorded
  · split
    · exact h
    · refine ⟨h.journal, h.bounded, h.file, ?_⟩
      intro h' hh'
      rcases List.mem_cons.mp hh' with rfl | hh'
      · exact hcommand
      · exact h.handlers h' hh'

/-- A command the parser accepts can be answered. -/
theorem answerable_of_fromContent {content : Json} {command : DesktopCommand}
    (h : DesktopCommand.fromContent content = .ok command) : Answerable command := by
  unfold DesktopCommand.fromContent at h
  rcases Transaction.except_bind_eq_ok.mp h with ⟨fields, -, h⟩
  rcases Transaction.except_bind_eq_ok.mp h with ⟨_, -, h⟩
  rcases Transaction.except_bind_eq_ok.mp h with ⟨action, -, h⟩
  rcases Transaction.except_bind_eq_ok.mp h with ⟨issuedAtMs, -, h⟩
  rcases Transaction.except_bind_eq_ok.mp h with ⟨expiresAtMs, -, h⟩
  rcases Transaction.except_bind_eq_ok.mp h with ⟨sequence, -, h⟩
  split at h
  · cases h
  next hsequence =>
  split at h
  · cases h
  rcases Transaction.except_bind_eq_ok.mp h with ⟨parameters, -, h⟩
  split at h
  · cases h
  rcases Transaction.except_bind_eq_ok.mp h with ⟨requestId, hrequest, h⟩
  rcases Transaction.except_bind_eq_ok.mp h with ⟨sessionId, hsession, h⟩
  rcases Transaction.except_bind_eq_ok.mp h with ⟨requesterId, -, h⟩
  rcases Transaction.except_bind_eq_ok.mp h with ⟨agentName, -, h⟩
  cases h
  exact ⟨(boundedIdentifier_eq_ok.mp hrequest).2, (boundedIdentifier_eq_ok.mp hsession).2, by
    dsimp only
    omega⟩

theorem sound_step {event : BridgeEvent} (hfingerprint : ∀ command, IsFingerprint (fingerprint command))
    (h : Sound w) (hspoken : NoBlankMessage event w)
    (hstep : bridgeStep fingerprint policy event w = some w') : Sound w' := by
  cases event with
  | deliver content write =>
    simp only [bridgeStep] at hstep
    split at hstep
    · cases hstep
      exact h
    · next command hcommand =>
      cases hstep
      exact h.deliver hfingerprint (answerable_of_fromContent hcommand)
  | process handler conditions write =>
    simp only [bridgeStep, Option.ite_none_right_eq_some] at hstep
    rcases hstep with ⟨⟨hmem, -, -⟩, hstep⟩
    cases hstep
    exact h.process hfingerprint hmem fun text htext => required_of_policyError policy htext
  | complete handler run write =>
    simp only [bridgeStep, Option.ite_none_right_eq_some] at hstep
    rcases hstep with ⟨⟨hmem, -, hlimits⟩, hstep⟩
    cases hstep
    exact h.answer hfingerprint hmem (answers_executed (h.handlers handler hmem) hlimits hspoken)
  | leave handler =>
    simp only [bridgeStep, Option.ite_none_right_eq_some] at hstep
    obtain rfl := Option.some.inj hstep.2
    exact h.leave
  | restart =>
    have hnone : ∀ h' ∈ ([] : List DesktopHandler), Answerable h'.command := fun _ hh' => absurd hh' List.not_mem_nil
    simp only [bridgeStep] at hstep
    split at hstep
    · cases hstep
      refine ⟨⟨fun q e he => ?_, fun s m hm => ?_⟩, ⟨Nat.zero_le _, Nat.zero_le _⟩, h.file, hnone⟩
      · cases he
      · cases hm
    · next payload hfile =>
      split at hstep
      · cases hstep
      next loaded hloaded =>
      cases hstep
      rcases h.file payload hfile with ⟨journal, rfl, hjournal, hbounds⟩
      obtain rfl : journal.canonical = loaded := Except.ok.inj ((hjournal.loads hbounds).symm.trans hloaded)
      exact ⟨hjournal.canonical, bounded_canonical hbounds, h.file, hnone⟩

/-- In every run of the bridge in which no message that a response repeats as its error is blank, the
journal and its file can be loaded, and give back the same entries and watermarks in the same order. -/
theorem journal_reloads (hfingerprint : ∀ command, IsFingerprint (fingerprint command))
    (h : ((bridgeSystem fingerprint policy).given NoBlankMessage).Reachable w) : Reloads w := by
  have hsound : Sound w := by
    refine h.induct ?_ ?_
    · rintro w rfl
      refine ⟨⟨fun q e he => ?_, fun s m hm => ?_⟩, ⟨Nat.zero_le _, Nat.zero_le _⟩, ?_, ?_⟩
      · cases he
      · cases hm
      · rintro _ ⟨⟩
      · exact fun h' hh' => absurd hh' List.not_mem_nil
    · intro event t t' _ ht hstep
      exact sound_step hfingerprint ht hstep.1 hstep.2
  refine ⟨hsound.journal.loads hsound.bounded, ?_⟩
  intro payload hpayload
  rcases hsound.file payload hpayload with ⟨journal, hjournal, hloadable, hbounds⟩
  exact ⟨journal, hjournal, hjournal ▸ hloadable.loads hbounds⟩

end

namespace BlankMessage

def listing : DesktopCommand where
  requestId := "q"
  sessionId := "s"
  sequence := 1
  issuedAtMs := 0
  expiresAtMs := 1000
  action := .listApps
  requesterId := "@u:h"
  agentName := "a"

/-- The SHA-256 digest of the content of `listing`. -/
def digest : DesktopHost := fun _ => "cfa169587f84e691d9bf05de4c94faa0be10f76922313c82eb469838ad868fc2"

def observer : DesktopBridgePolicy where
  allowedRequesterIds := ["@u:h"]
  allowedAgentNames := ["a"]
  allowedAppIds := ["calculator"]

def idle : DesktopWorld := ⟨{}, none, [], [], [], [], []⟩

/-- The command arrives, starts, and comes to this. -/
def lists (run : DesktopRun) : List BridgeEvent :=
  [.deliver (.obj listing.toContent) .written, .process ⟨listing, .waiting⟩ ⟨1, false, false, false⟩ .written,
    .complete ⟨listing, .executing⟩ run .written]

/-- The provider raises an error without a message. -/
def silent : List BridgeEvent := lists { execution := .error (.reported "") }

def spoken : List BridgeEvent := lists { execution := .error (.reported "No accessibility permission.") }

def loads (w : DesktopWorld) : Bool :=
  w.file.all fun payload =>
    match loadDocument (fileContent payload) with
    | .ok _ => true
    | .error _ => false

theorem loads_of_reloads {w : DesktopWorld} (h : Reloads w) : loads w = true := by
  unfold loads
  rw [Option.all_eq_true]
  intro payload hpayload
  rcases h.file payload hpayload with ⟨journal, -, hload⟩
  rw [hload]

/-- A provider error without a message leaves a journal that does not load. -/
theorem not_reloads : (∀ command, IsFingerprint (digest command)) ∧
    ∃ w, (bridgeSystem digest observer).Reachable w ∧ ¬ Reloads w := by
  refine ⟨fun _ => by unfold digest; decide +kernel, ?_⟩
  have hfails : (System.follow (fun _ _ => True) (bridgeStep digest observer) silent idle).any
      (fun w => ! loads w) = true := by decide +kernel
  rcases Option.any_eq_true _ _ |>.mp hfails with ⟨w, hw, hloads⟩
  have hrun : ((bridgeSystem digest observer).given fun _ _ => True).Run idle w :=
    System.Run.of_follow (fun _ _ _ h => h) hw
  have hstart : ((bridgeSystem digest observer).given fun _ _ => True).Reachable idle := .start rfl
  refine ⟨w, (hstart.run hrun).of_given, ?_⟩
  intro hreloads
  rw [loads_of_reloads hreloads] at hloads
  cases hloads

/-- With a message it does. -/
theorem spoken_reloads : ∃ w, Reloads w ∧ w.file.isSome = true := by
  have hends : (System.follow NoBlankMessage (bridgeStep digest observer) spoken idle).any
      (fun w => w.file.isSome) = true := by decide +kernel
  rcases Option.any_eq_true _ _ |>.mp hends with ⟨w, hw, hfile⟩
  have hrun : ((bridgeSystem digest observer).given NoBlankMessage).Run idle w :=
    System.Run.of_follow (fun _ _ _ h => h) hw
  have hstart : ((bridgeSystem digest observer).given NoBlankMessage).Reachable idle := .start rfl
  exact ⟨w, journal_reloads (fun _ => by unfold digest; decide +kernel) (hstart.run hrun), hfile⟩

theorem spoken_refines : ∃ w, (desktopSystem digest).Run idle w ∧ w.file.isSome = true := by
  have hends : (System.follow (fun event _ => event ≠ .restart) (bridgeStep digest observer) spoken idle).any
      (fun w => w.file.isSome) = true := by decide +kernel
  rcases Option.any_eq_true _ _ |>.mp hends with ⟨w, hw, hfile⟩
  exact ⟨w, @bridgeRun_refines digest observer _ _ (System.Run.of_follow (fun _ _ _ h => h) hw), hfile⟩

end BlankMessage

end MindRoom
