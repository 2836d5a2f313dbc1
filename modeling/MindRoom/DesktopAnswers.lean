import MindRoom.DesktopBridge

/-! # One answer per desktop request

A handler looks at the journal entry of its request before it looks at the requests in flight. A
duplicate that comes while the command executes finds an entry without a response, and answers
that the command was interrupted; the handler that executes it then records and sends another
response. A process that is spared such duplicates answers every command in one way.
-/

namespace MindRoom

open DesktopBridge

/-- What one process of the bridge owes: the responses of a command are equal, and a recorded
response is there for good, while the entry of the request is not evicted. -/
structure OneAnswer (M : System DesktopWorld DesktopLabel) (w : DesktopWorld) : Prop where
  answers : ∀ c r r', c.requestId ∉ w.evicted → (c, r) ∈ w.sent → (c, r') ∈ w.sent → r = r'
  recorded : ∀ w', M.Run w w' → ∀ q e r, q ∉ w'.evicted → w.journal.get q = some e →
    e.response = some r → ∃ e', w'.journal.get q = some e' ∧ e'.response = some r

/-- No duplicate of a command is delivered while the command executes. -/
def NoDuplicateWhileExecuting (fingerprint : DesktopHost) : DesktopLabel → DesktopWorld → Prop
  | .deliver command _, w =>
    w.journal.get command.requestId = some ⟨fingerprint command, none⟩ →
      ∀ h ∈ w.handlers, h.phase = .executing → h.command.requestId ≠ command.requestId
  | _, _ => True

variable {fingerprint : DesktopHost} {w w' : DesktopWorld}

/-! ## Writing one entry -/

section

variable {journal : DesktopCommandJournal} {write : JournalWrite} {q q' : String}
  {entry : DesktopCommandJournalEntry}

theorem not_evicted_of_persist (h : q' ∉ (persist journal write w).evicted) : q' ∉ w.evicted := by
  intro hold
  rw [persist_evicted] at h
  exact h (List.mem_append_right _ hold)

/-- What is not evicted is what was written, or what was there. -/
theorem persist_get (hj : journal.entries = w.journal.entries.setLast q entry)
    (h : q' ∉ (persist journal write w).evicted) :
    (persist journal write w).journal.get q' = if q = q' then some entry else w.journal.get q' := by
  have hkept : q' ∉ journal.entries.oldest DesktopCommandJournal.maxReplayResponses := by
    intro hold
    rw [persist_evicted] at h
    exact h (List.mem_append_left _ hold)
  rw [persist_journal]
  show (journal.entries.keepLast _).value? q' = _
  rw [Mapping.value?_keepLast hkept, hj, Mapping.value?_setLast]
  rfl

/-- The request has no response, and no other content. -/
def Unanswered (fp q : String) (w : DesktopWorld) : Prop :=
  q ∉ w.evicted → ∀ e, w.journal.get q = some e → e = ⟨fp, none⟩

/-- What was sent is what the entry of its request says. -/
def Said (fingerprint : DesktopHost) (w : DesktopWorld) : Prop :=
  ∀ c r, (c, r) ∈ w.sent → c.requestId ∉ w.evicted → ∃ e, w.journal.get c.requestId = some e ∧
    ((fingerprint c = e.commandFingerprint ∧ e.response = some r) ∨
      (fingerprint c ≠ e.commandFingerprint ∧ r = reusedResponse c))

/-- No recorded response is lost or changed. -/
def KeepsAnswers (w w' : DesktopWorld) : Prop :=
  (∀ q, q ∉ w'.evicted → q ∉ w.evicted) ∧
    ∀ q e r, q ∉ w'.evicted → w.journal.get q = some e → e.response = some r →
      w'.journal.get q = some e

/-- Writing the entry of an unanswered request keeps what was said. -/
theorem Said.record (h : Said fingerprint w) (hopen : Unanswered entry.commandFingerprint q w)
    (hj : journal.entries = w.journal.entries.setLast q entry) : Said fingerprint (persist journal write w) := by
  intro c r hsent hq
  rw [persist_sent] at hsent
  have hold := not_evicted_of_persist hq
  rcases h c r hsent hold with ⟨e, he, hsaid⟩
  rw [persist_get hj hq]
  by_cases hqc : q = c.requestId
  · subst hqc
    rw [if_pos rfl]
    -- nothing was sent for this content, so what was sent is the refusal of another one
    rcases hsaid with ⟨hfp, hresponse⟩ | ⟨hfp, hresponse⟩
    · rw [hopen hold e he] at hresponse
      cases hresponse
    · rw [hopen hold e he] at hfp
      exact ⟨entry, rfl, .inr ⟨hfp, hresponse⟩⟩
  · rw [if_neg hqc]
    exact ⟨e, he, hsaid⟩

theorem keepsAnswers_record (hopen : Unanswered entry.commandFingerprint q w)
    (hj : journal.entries = w.journal.entries.setLast q entry) : KeepsAnswers w (persist journal write w) := by
  refine ⟨fun q' hq' => not_evicted_of_persist hq', ?_⟩
  intro q' e r hq' he hr
  rw [persist_get hj hq']
  by_cases hqq : q = q'
  · subst hqq
    rw [hopen (not_evicted_of_persist hq') e he] at hr
    cases hr
  · rw [if_neg hqq]
    exact he

/-- A new response is said once it is recorded. -/
theorem Said.send {c : DesktopCommand} {r : DesktopResponse} (h : Said fingerprint w)
    (he : c.requestId ∉ w.evicted → ∃ e, w.journal.get c.requestId = some e ∧
      ((fingerprint c = e.commandFingerprint ∧ e.response = some r) ∨
        (fingerprint c ≠ e.commandFingerprint ∧ r = reusedResponse c))) :
    Said fingerprint (send c r w) := by
  intro c' r' hsent hq
  rcases List.mem_cons.mp hsent with heq | hold
  · cases heq
    exact he hq
  · exact h c' r' hold hq

/-- A handler that moves on says its recorded response. -/
theorem Said.answered {handler : DesktopHandler} {phase : DesktopPhase} {r : DesktopResponse} (h : Said fingerprint w)
    (he : handler.command.requestId ∉ w.evicted →
      w.journal.get handler.command.requestId = some ⟨fingerprint handler.command, some r⟩) :
    Said fingerprint (DesktopBridge.send handler.command r (advance handler phase w)) := by
  have hadvance : Said fingerprint (advance handler phase w) := h
  exact hadvance.send fun hq => ⟨_, he hq, .inl ⟨rfl, rfl⟩⟩

end

/-! ## The handlers -/

/-- The entry of a handler's request: none while it waits, unanswered while it executes. -/
def Fits (fingerprint : DesktopHost) (w : DesktopWorld) (h : DesktopHandler) : Prop :=
  h.command.requestId ∉ w.evicted →
    match h.phase with
    | .waiting => w.journal.get h.command.requestId = none
    | .executing => w.journal.get h.command.requestId = some ⟨fingerprint h.command, none⟩
    | .answering => True

/-- At most one handler is about a request, and it is in flight. -/
structure Handled (fingerprint : DesktopHost) (w : DesktopWorld) : Prop where
  single : (w.handlers.map fun h => h.command.requestId).Nodup
  inFlight : ∀ h ∈ w.handlers, h.command.requestId ∈ w.inFlight
  fits : ∀ h ∈ w.handlers, Fits fingerprint w h

section

variable {journal : DesktopCommandJournal} {write : JournalWrite} {q : String}
  {entry : DesktopCommandJournalEntry} {handler h' : DesktopHandler}

/-- The other handlers are about other requests. -/
theorem Handled.other (h : Handled fingerprint w) (hmem : handler ∈ w.handlers)
    (hmem' : h' ∈ w.handlers.erase handler) : h'.command.requestId ≠ handler.command.requestId := by
  intro hid
  have hold : h' ∈ w.handlers := List.mem_of_mem_erase hmem'
  have heq : h' = handler := List.inj_on_of_nodup_map h.single hold hmem hid
  exact (List.Nodup.mem_erase_iff h.single.of_map).mp hmem' |>.1 heq

/-- Writing the entry of one request leaves the handlers of the others alone. -/
theorem Fits.record {h : DesktopHandler} (hfits : Fits fingerprint w h)
    (hj : journal.entries = w.journal.entries.setLast q entry) (hne : h.command.requestId ≠ q) :
    Fits fingerprint (persist journal write w) h := by
  intro hq
  rw [persist_get hj hq, if_neg (Ne.symm hne)]
  exact hfits (not_evicted_of_persist hq)

/-- A handler moves on in a world with the same handlers. -/
theorem Handled.advance {u : DesktopWorld} {phase : DesktopPhase} (h : Handled fingerprint w)
    (hmem : handler ∈ w.handlers) (hhandlers : u.handlers = w.handlers) (hinFlight : u.inFlight = w.inFlight)
    (hfits : ∀ h' ∈ w.handlers.erase handler, Fits fingerprint u h')
    (hnew : Fits fingerprint u ⟨handler.command, phase⟩) : Handled fingerprint (advance handler phase u) := by
  have hall : (DesktopBridge.advance handler phase u).handlers =
      ⟨handler.command, phase⟩ :: w.handlers.erase handler := by
    unfold DesktopBridge.advance
    rw [hhandlers]
  refine ⟨?_, ?_, ?_⟩
  · rw [hall]
    exact ((List.perm_cons_erase hmem).map fun h => h.command.requestId).nodup_iff.mp h.single
  · rw [hall]
    intro h' hh'
    show h'.command.requestId ∈ u.inFlight
    rw [hinFlight]
    rcases List.mem_cons.mp hh' with rfl | hold
    · exact h.inFlight handler hmem
    · exact h.inFlight h' (List.mem_of_mem_erase hold)
  · rw [hall]
    intro h' hh'
    rcases List.mem_cons.mp hh' with rfl | hold
    · exact hnew
    · exact hfits h' hold

theorem Handled.of_eq {u : DesktopWorld} (h : Handled fingerprint w)
    (hhandlers : u.handlers = w.handlers) (hinFlight : u.inFlight = w.inFlight)
    (hfits : ∀ h' ∈ w.handlers, Fits fingerprint u h') : Handled fingerprint u := by
  refine ⟨?_, ?_, ?_⟩
  · rw [hhandlers]
    exact h.single
  · rw [hhandlers, hinFlight]
    exact h.inFlight
  · rw [hhandlers]
    exact hfits

/-- A new request gets a handler. -/
theorem Handled.admit {command : DesktopCommand} (h : Handled fingerprint w)
    (hget : w.journal.get command.requestId = none) (hnew : command.requestId ∉ w.inFlight) :
    Handled fingerprint { w with
      inFlight := command.requestId :: w.inFlight
      handlers := ⟨command, .waiting⟩ :: w.handlers } := by
  refine ⟨?_, ?_, ?_⟩
  · refine List.nodup_cons.mpr ⟨?_, h.single⟩
    intro hold
    rcases List.mem_map.mp hold with ⟨h', hh', hid⟩
    have hid : h'.command.requestId = command.requestId := hid
    apply hnew
    rw [← hid]
    exact h.inFlight h' hh'
  · intro h' hh'
    rcases List.mem_cons.mp hh' with rfl | hold
    · exact List.mem_cons_self
    · exact List.mem_cons_of_mem _ (h.inFlight h' hold)
  · intro h' hh'
    rcases List.mem_cons.mp hh' with rfl | hold
    · exact fun _ => hget
    · exact h.fits h' hold

/-- A handler ends in a world with the same handlers. -/
theorem Handled.leave {u : DesktopWorld} (h : Handled fingerprint w) (hmem : handler ∈ w.handlers)
    (hhandlers : u.handlers = w.handlers) (hinFlight : u.inFlight = w.inFlight)
    (hfits : ∀ h' ∈ w.handlers.erase handler, Fits fingerprint u h') : Handled fingerprint (leave handler u) := by
  have hall : (DesktopBridge.leave handler u).handlers = w.handlers.erase handler := by
    unfold DesktopBridge.leave
    rw [hhandlers]
  refine ⟨?_, ?_, ?_⟩
  · rw [hall]
    exact h.single.sublist (List.erase_sublist.map _)
  · rw [hall]
    intro h' hh'
    show h'.command.requestId ∈ u.inFlight.filter (· ≠ handler.command.requestId)
    rw [hinFlight]
    refine List.mem_filter.mpr ⟨h.inFlight h' (List.mem_of_mem_erase hh'), ?_⟩
    simpa using h.other hmem hh'
  · rw [hall]
    exact hfits

end

/-! ## One step -/

/-- What the responses and the handlers of a process agree on. -/
structure Answering (fingerprint : DesktopHost) (w : DesktopWorld) : Prop where
  said : Said fingerprint w
  handled : Handled fingerprint w

theorem KeepsAnswers.refl : KeepsAnswers w w := ⟨fun _ hq => hq, fun _ _ _ _ he _ => he⟩

theorem KeepsAnswers.send {c : DesktopCommand} {r : DesktopResponse} (h : KeepsAnswers w w') :
    KeepsAnswers w (send c r w') := h

variable {handler : DesktopHandler}

theorem KeepsAnswers.advance {phase : DesktopPhase}
    (h : KeepsAnswers w w') : KeepsAnswers w (advance handler phase w') := h

theorem KeepsAnswers.leave (h : KeepsAnswers w w') : KeepsAnswers w (leave handler w') := h

theorem KeepsAnswers.start {executed : List DesktopCommand} (h : KeepsAnswers w w') :
    KeepsAnswers w { DesktopBridge.advance handler .executing w' with executed := executed } := h

theorem Said.advance {phase : DesktopPhase} (h : Said fingerprint w) : Said fingerprint (advance handler phase w) := h

theorem Said.leave (h : Said fingerprint w) : Said fingerprint (leave handler w) := h

theorem Handled.send {c : DesktopCommand} {r : DesktopResponse} (h : Handled fingerprint w) :
    Handled fingerprint (send c r w) := ⟨h.single, h.inFlight, h.fits⟩

section

variable {handler : DesktopHandler} {write : JournalWrite}

/-- A handler before its answer has the request to itself. -/
theorem Fits.unanswered (h : Fits fingerprint w handler) (hphase : handler.phase ≠ .answering) :
    Unanswered (fingerprint handler.command) handler.command.requestId w := by
  intro hq e he
  have hfits := h hq
  cases hp : handler.phase with
  | waiting =>
    rw [hp] at hfits
    dsimp only at hfits
    rw [he] at hfits
    cases hfits
  | executing =>
    rw [hp] at hfits
    dsimp only at hfits
    rw [he] at hfits
    exact Option.some.inj hfits
  | answering => exact absurd hp hphase

/-- A handler leaves an otherwise unchanged world. -/
theorem Answering.leave (h : Answering fingerprint w) (hmem : handler ∈ w.handlers) :
    Answering fingerprint (leave handler w) :=
  ⟨h.said.leave, h.handled.leave hmem rfl rfl fun h' hh' => h.handled.fits h' (List.mem_of_mem_erase hh')⟩

/-- A handler that has the response of its command records it for an unanswered request. -/
theorem Answering.answer {response : DesktopResponse} (h : Answering fingerprint w)
    (hmem : handler ∈ w.handlers) (hphase : handler.phase ≠ .answering) :
    Answering fingerprint (answer fingerprint handler response write w) ∧
      KeepsAnswers w (DesktopBridge.answer fingerprint handler response write w) := by
  have hopen := (h.handled.fits handler hmem).unanswered hphase
  unfold DesktopBridge.answer
  dsimp only
  split
  · exact ⟨h.leave hmem, KeepsAnswers.refl.leave⟩
  · have hj : (w.journal.withResponse handler.command (fingerprint handler.command) response).entries =
        w.journal.entries.setLast handler.command.requestId
          ⟨fingerprint handler.command, some response⟩ := rfl
    have hsaid := @Said.record fingerprint w _ write _ _ h.said hopen hj
    have hkeeps := @keepsAnswers_record w _ write _ _ hopen hj
    have hfits := fun h' (hh' : h' ∈ w.handlers.erase handler) =>
      @Fits.record fingerprint w _ write _ _ h' (h.handled.fits h' (List.mem_of_mem_erase hh')) hj
        (h.handled.other hmem hh')
    have hget := fun hq => (@persist_get w _ write _ handler.command.requestId _ hj hq).trans (if_pos rfl)
    split
    · exact ⟨⟨hsaid.answered hget,
        (h.handled.advance hmem persist_handlers persist_inFlight hfits fun _ => trivial).send⟩,
        hkeeps.advance.send⟩
    · exact ⟨⟨hsaid.leave, h.handled.leave hmem persist_handlers persist_inFlight hfits⟩, hkeeps.leave⟩

/-- The handler that starts its command. -/
theorem Answering.start {u : DesktopWorld} {executed : List DesktopCommand}
    (hsaid : Said fingerprint u) (hhandled : Handled fingerprint (advance handler .executing u)) :
    Answering fingerprint { advance handler .executing u with executed := executed } :=
  ⟨hsaid, hhandled.single, hhandled.inFlight, hhandled.fits⟩

/-- An interrupted command that no handler executes is answered once and for all. -/
theorem Answering.interrupt {command : DesktopCommand} (h : Answering fingerprint w)
    (hspared : NoDuplicateWhileExecuting fingerprint (.deliver command write) w)
    (hget : w.journal.get command.requestId = some ⟨fingerprint command, none⟩) :
    let response := interruptedResponse command
    let recorded :=
      persist (w.journal.withResponse command (fingerprint command) response) write w
    let after := if write = .written then send command response recorded else recorded
    Answering fingerprint after ∧ KeepsAnswers w after := by
  intro response recorded after
  have hopen : Unanswered (fingerprint command) command.requestId w := by
    intro _ e he
    exact Option.mem_unique he hget
  have hj : (w.journal.withResponse command (fingerprint command) response).entries =
      w.journal.entries.setLast command.requestId ⟨fingerprint command, some response⟩ := rfl
  have hsaid : Said fingerprint recorded := h.said.record hopen hj
  have hkeeps : KeepsAnswers w recorded := keepsAnswers_record hopen hj
  have hhandled : Handled fingerprint recorded := by
    refine h.handled.of_eq persist_handlers persist_inFlight ?_
    intro h' hh'
    have hfits := h.handled.fits h' hh'
    by_cases hid : h'.command.requestId = command.requestId
    · intro hq
      have hold := hfits (not_evicted_of_persist hq)
      cases hphase : h'.phase with
      | waiting =>
        rw [hphase] at hold
        dsimp only at hold
        rw [hid, hget] at hold
        cases hold
      | executing => exact absurd hid (hspared hget h' hh' hphase)
      | answering => trivial
    · exact hfits.record hj hid
  have hrecorded : Answering fingerprint recorded ∧ KeepsAnswers w recorded := ⟨⟨hsaid, hhandled⟩, hkeeps⟩
  have hsent : Answering fingerprint (send command response recorded) ∧
      KeepsAnswers w (send command response recorded) := by
    refine ⟨⟨hsaid.send fun hq => ?_, hhandled.send⟩, hkeeps.send⟩
    exact ⟨_, (persist_get hj hq).trans (if_pos rfl), .inl ⟨rfl, rfl⟩⟩
  show Answering fingerprint (if write = .written then send command response recorded else recorded) ∧
    KeepsAnswers w (if write = .written then send command response recorded else recorded)
  split
  · exact hsent
  · exact hrecorded

/-- A handler that got the lock starts its command, or answers it at once. -/
theorem Answering.process {policyError : Option String} (h : Answering fingerprint w)
    (hmem : handler ∈ w.handlers) (hphase : handler.phase = .waiting) :
    Answering fingerprint (process fingerprint handler policyError write w) ∧
      KeepsAnswers w (DesktopBridge.process fingerprint handler policyError write w) := by
  have hbefore : handler.phase ≠ .answering := by
    rw [hphase]
    decide
  have hopen := (h.handled.fits handler hmem).unanswered hbefore
  unfold DesktopBridge.process
  dsimp only
  split
  · exact h.answer hmem hbefore
  · have hj : (w.journal.withStarted handler.command (fingerprint handler.command)).entries =
        w.journal.entries.setLast handler.command.requestId ⟨fingerprint handler.command, none⟩ := rfl
    have hsaid := @Said.record fingerprint w _ write _ _ h.said hopen hj
    have hkeeps := @keepsAnswers_record w _ write _ _ hopen hj
    have hfits := fun h' (hh' : h' ∈ w.handlers.erase handler) =>
      @Fits.record fingerprint w _ write _ _ h' (h.handled.fits h' (List.mem_of_mem_erase hh')) hj
        (h.handled.other hmem hh')
    have hget := fun hq => (@persist_get w _ write _ handler.command.requestId _ hj hq).trans (if_pos rfl)
    split
    · exact ⟨.start hsaid (h.handled.advance hmem persist_handlers persist_inFlight hfits hget), hkeeps.start⟩
    · exact ⟨⟨hsaid.leave, h.handled.leave hmem persist_handlers persist_inFlight hfits⟩, hkeeps.leave⟩

/-- A delivery that is no duplicate of an executing command. -/
theorem Answering.deliver {command : DesktopCommand} (h : Answering fingerprint w)
    (hspared : NoDuplicateWhileExecuting fingerprint (.deliver command write) w) :
    Answering fingerprint (deliver fingerprint command write w) ∧
      KeepsAnswers w (DesktopBridge.deliver fingerprint command write w) := by
  unfold DesktopBridge.deliver
  cases hget : w.journal.get command.requestId with
  | some cached =>
    dsimp only
    split
    · next hother =>
      refine ⟨⟨h.said.send fun _ => ⟨cached, hget, .inr ⟨Ne.symm hother, rfl⟩⟩, h.handled.send⟩, KeepsAnswers.refl.send⟩
    · next hsame =>
      have hsame : fingerprint command = cached.commandFingerprint := (not_not.mp hsame).symm
      cases hresponse : cached.response with
      | some response =>
        exact ⟨⟨h.said.send fun _ => ⟨cached, hget, .inl ⟨hsame, hresponse⟩⟩, h.handled.send⟩, KeepsAnswers.refl.send⟩
      | none =>
        have hcached : cached = ⟨fingerprint command, none⟩ := by
          cases cached
          cases hresponse
          cases hsame
          rfl
        exact h.interrupt hspared (hget.trans (congrArg some hcached))
  | none =>
    dsimp only
    split
    · exact ⟨h, KeepsAnswers.refl⟩
    · next hnew =>
      exact ⟨⟨h.said, h.handled.admit hget hnew⟩, KeepsAnswers.refl⟩

end

/-! ## The runs -/

theorem answering_step {label : DesktopLabel} (h : Answering fingerprint w)
    (hspared : NoDuplicateWhileExecuting fingerprint label w) (hstep : (desktopProcess fingerprint).step label w w') :
    Answering fingerprint w' ∧ KeepsAnswers w w' := by
  rcases hstep with ⟨hlive, hstep⟩
  cases label with
  | deliver command write =>
    obtain rfl : w' = _ := hstep
    exact h.deliver hspared
  | process handler policyError write =>
    rcases hstep with ⟨hmem, hphase, -, rfl⟩
    exact h.process hmem hphase
  | complete handler response write =>
    rcases hstep with ⟨hmem, hphase, rfl⟩
    refine h.answer hmem ?_
    rw [hphase]
    decide
  | leave handler =>
    rcases hstep with ⟨hmem, rfl⟩
    exact ⟨h.leave hmem, KeepsAnswers.refl.leave⟩
  | restart => exact absurd rfl hlive

theorem answering_invariant : ((desktopProcess fingerprint).given (NoDuplicateWhileExecuting fingerprint)).Invariant
      (Answering fingerprint) where
  start := by
    rintro w ⟨journal, file, rfl⟩
    refine ⟨fun c r hsent => absurd hsent List.not_mem_nil, List.nodup_nil, ?_, ?_⟩
    · exact fun h hh => absurd hh List.not_mem_nil
    · exact fun h hh => absurd hh List.not_mem_nil
  step label w w' h hstep := (answering_step h hstep.1 hstep.2).1

theorem KeepsAnswers.trans {w'' : DesktopWorld} (h : KeepsAnswers w w') (h' : KeepsAnswers w' w'') :
    KeepsAnswers w w'' :=
  ⟨fun q hq => h.1 q (h'.1 q hq), fun q e r hq he hr => h'.2 q e r hq (h.2 q e r (h'.1 q hq) he hr) hr⟩

theorem Said.answers (h : Said fingerprint w) {c : DesktopCommand} {r r' : DesktopResponse}
    (hq : c.requestId ∉ w.evicted) (hr : (c, r) ∈ w.sent) (hr' : (c, r') ∈ w.sent) : r = r' := by
  rcases h c r hr hq with ⟨e, he, hsaid⟩
  rcases h c r' hr' hq with ⟨e', he', hsaid'⟩
  obtain rfl : e = e' := Option.mem_unique he he'
  rcases hsaid with ⟨hfp, hsaid⟩ | ⟨hfp, hsaid⟩
  · rcases hsaid' with ⟨-, hsaid'⟩ | ⟨hfp', -⟩
    · exact Option.mem_unique hsaid hsaid'
    · exact absurd hfp hfp'
  · rcases hsaid' with ⟨hfp', -⟩ | ⟨-, hsaid'⟩
    · exact absurd hfp' hfp
    · exact hsaid.trans hsaid'.symm

/-- A process in which no duplicate of a command is delivered while the command executes answers
every request in one way. -/
theorem one_answer
    (h : ((desktopProcess fingerprint).given (NoDuplicateWhileExecuting fingerprint)).Reachable w) :
    OneAnswer ((desktopProcess fingerprint).given (NoDuplicateWhileExecuting fingerprint)) w where
  answers c r r' hq hr hr' := (answering_invariant.reachable h).said.answers hq hr hr'
  recorded w' hrun q e r hq he hr := by
    have hboth : Answering fingerprint w' ∧ KeepsAnswers w w' := by
      refine hrun.preserves (P := fun t => Answering fingerprint t ∧ KeepsAnswers w t) ?_
        ⟨answering_invariant.reachable h, KeepsAnswers.refl⟩
      rintro label t t' ⟨ht, hkeeps⟩ ⟨hspared, hstep⟩
      rcases answering_step ht hspared hstep with ⟨ht', hlast⟩
      exact ⟨ht', hkeeps.trans hlast⟩
    exact ⟨e, hboth.2.2 q e r hq he hr, hr⟩

namespace DuplicateListing

def listing : DesktopCommand where
  requestId := "q"
  sessionId := "s"
  sequence := 1
  issuedAtMs := 0
  expiresAtMs := 1000
  action := .listApps
  requesterId := "@u:h"
  agentName := "a"

def listed : DesktopResponse where
  requestId := "q"
  sessionId := "s"
  ok := true
  result := [("apps", .arr [])]

def digest : DesktopHost := fun _ => "0123456789abcdef0123456789abcdef0123456789abcdef0123456789abcdef"

def idle : DesktopWorld := ⟨{}, none, [], [], [], [], []⟩

def waiting : DesktopWorld := deliver digest listing .written idle

def executing : DesktopWorld := process digest ⟨listing, .waiting⟩ none .written waiting

/-- The duplicate comes while the command executes. -/
def interrupted : DesktopWorld := deliver digest listing .written executing

def completed : DesktopWorld := answer digest ⟨listing, .executing⟩ listed .written interrupted

theorem completed_reachable : (desktopProcess digest).Reachable completed := by
  have hidle : (desktopProcess digest).Reachable idle := .start ⟨{}, none, rfl⟩
  have hwaiting : (desktopProcess digest).Reachable waiting :=
    hidle.next (.deliver listing .written) ⟨nofun, rfl⟩
  have hexecuting : (desktopProcess digest).Reachable executing :=
    hwaiting.next (.process ⟨listing, .waiting⟩ none .written)
      ⟨nofun, by decide +kernel, rfl, by decide +kernel, rfl⟩
  have hinterrupted : (desktopProcess digest).Reachable interrupted :=
    hexecuting.next (.deliver listing .written) ⟨nofun, rfl⟩
  exact hinterrupted.next (.complete ⟨listing, .executing⟩ listed .written)
    ⟨nofun, by decide +kernel, rfl, rfl⟩

/-- The command is answered as interrupted, and then with its result. -/
theorem not_one_answer : ∃ w, (desktopProcess digest).Reachable w ∧ ¬ OneAnswer (desktopProcess digest) w := by
  refine ⟨completed, completed_reachable, ?_⟩
  intro hone
  have hboth : interruptedResponse listing = listed :=
    hone.answers listing (interruptedResponse listing) listed (by decide +kernel) (by decide +kernel)
      (by decide +kernel)
  exact absurd hboth (by decide +kernel)

theorem executing_one_answer :
    OneAnswer ((desktopProcess digest).given (NoDuplicateWhileExecuting digest)) executing := by
  have hidle : ((desktopProcess digest).given (NoDuplicateWhileExecuting digest)).Reachable idle :=
    .start ⟨{}, none, rfl⟩
  have hwaiting : ((desktopProcess digest).given (NoDuplicateWhileExecuting digest)).Reachable waiting :=
    hidle.next (.deliver listing .written) ⟨nofun, nofun, rfl⟩
  exact one_answer (hwaiting.next (.process ⟨listing, .waiting⟩ none .written)
    ⟨trivial, nofun, by decide +kernel, rfl, by decide +kernel, rfl⟩)

end DuplicateListing

end MindRoom
