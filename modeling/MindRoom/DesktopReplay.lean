import MindRoom.DesktopBridge

/-! # Desktop commands run at most once

A command starts only above the sequence its session reached, and its sequence is in the journal
file before it starts. The file never goes back, and while at most 128 sessions are seen no session
is forgotten; so a session's commands start in increasing sequence across every restart.
-/

namespace MindRoom

open DesktopBridge

abbrev DesktopCommandJournal.mark (journal : DesktopCommandJournal) (session : String) : Option Int :=
  journal.sequenceHighWatermarks.value? session

/-- No session reached more in the first journal than in the second. -/
def Behind (journal journal' : DesktopCommandJournal) : Prop :=
  ∀ s m, journal.mark s = some m → ∃ m', journal'.mark s = some m' ∧ m ≤ m'

theorem Behind.refl (journal : DesktopCommandJournal) : Behind journal journal :=
  fun _ m hm => ⟨m, hm, Int.le_refl m⟩

theorem Behind.trans {j₁ j₂ j₃ : DesktopCommandJournal} (h : Behind j₁ j₂) (h' : Behind j₂ j₃) :
    Behind j₁ j₃ := by
  intro s m hm
  rcases h s m hm with ⟨m', hm', hle⟩
  rcases h' s m' hm' with ⟨m'', hm'', hle'⟩
  exact ⟨m'', hm'', Int.le_trans hle hle'⟩

def Persisted (file : Option DesktopJournalPayload) (journal : DesktopCommandJournal) : Prop :=
  file = some journal.payload ∨ (file = none ∧ journal = {})

theorem Persisted.load {file : Option DesktopJournalPayload} {journal loaded : DesktopCommandJournal}
    (h : Persisted file journal) (hload : DesktopCommandJournal.load file = .ok loaded) : loaded = journal := by
  rcases h with rfl | ⟨rfl, rfl⟩
  · exact DesktopCommandJournal.load_payload hload
  · cases hload
    rfl

variable {S : Finset String} {w w' : DesktopWorld} {fingerprint : DesktopHost}

def Knows (S : Finset String) (journal : DesktopCommandJournal) : Prop :=
  ∀ s m, journal.mark s = some m → s ∈ S

/-- Every executed command is at or below what its session reached in the journal. -/
def Covers (journal : DesktopCommandJournal) (executed : List DesktopCommand) : Prop :=
  ∀ c ∈ executed, ∃ m, journal.mark c.sessionId = some m ∧ c.sequence ≤ m

variable {journal : DesktopCommandJournal} {command : DesktopCommand} {handler : DesktopHandler}
variable {write : JournalWrite} {executed : List DesktopCommand}

theorem Covers.mono {journal journal' : DesktopCommandJournal}
    (h : Covers journal executed) (hle : Behind journal journal') : Covers journal' executed := by
  intro c hc
  rcases h c hc with ⟨m, hm, hseq⟩
  rcases hle _ m hm with ⟨m', hm', hmm⟩
  exact ⟨m', hm', Int.le_trans hseq hmm⟩

/-- The later command of a session has the higher sequence. -/
def Increasing (executed : List DesktopCommand) : Prop :=
  executed.Pairwise fun later earlier =>
    later.sessionId = earlier.sessionId → earlier.sequence < later.sequence

/-- The journal is ahead of its file, and the file is ahead of what was executed. -/
structure Watermarks (S : Finset String) (journal : DesktopCommandJournal)
    (file : Option DesktopJournalPayload) (executed : List DesktopCommand) : Prop where
  knows : Knows S journal
  file : ∃ persisted, Persisted file persisted ∧ Behind persisted journal ∧ Covers persisted executed
  increasing : Increasing executed

/-- A journal of few sessions forgets none. -/
theorem mark_prune (hS : S.card ≤ 128) (h : Knows S journal) :
    journal.prune.sequenceHighWatermarks = journal.sequenceHighWatermarks := by
  apply Mapping.keepLast_of_le
  have hnodup : journal.sequenceHighWatermarks.keys.Nodup := journal.sequenceHighWatermarks.primaryKey
  have hsub : journal.sequenceHighWatermarks.keys.toFinset ⊆ S := by
    intro s hs
    rcases Mapping.mem_keys.mp (List.mem_toFinset.mp hs) with ⟨m, hm⟩
    exact h s m hm
  have hcard := Finset.card_le_card hsub
  rw [List.toFinset_card_of_nodup hnodup, Mapping.keys, List.length_map] at hcard
  exact Nat.le_trans hcard hS

/-- Persisting a journal that is no further back keeps the watermarks, however the write ends. -/
theorem Watermarks.persist
    (hS : S.card ≤ 128) (h : Watermarks S w.journal w.file w.executed) (hknows : Knows S journal)
    (hle : Behind w.journal journal) :
    Watermarks S (persist journal write w).journal (persist journal write w).file w.executed := by
  have hmarks : ∀ s, journal.prune.mark s = journal.mark s := by
    intro s
    unfold DesktopCommandJournal.mark
    rw [mark_prune hS hknows]
  have hpruned : Behind w.journal journal.prune := by
    intro s m hm
    rw [hmarks]
    exact hle s m hm
  rcases h.file with ⟨persisted, hfile, hbehind, hcovers⟩
  refine ⟨fun s m hm => hknows s m ((hmarks s).symm.trans hm), ?_, h.increasing⟩
  show ∃ persisted, Persisted (if write = .lost then w.file else some journal.prune.payload) persisted ∧ _
  split
  · exact ⟨persisted, hfile, hbehind.trans hpruned, hcovers⟩
  · exact ⟨journal.prune, .inl rfl, Behind.refl _, hcovers.mono (hbehind.trans hpruned)⟩

/-- A command above its session's sequence moves the session on. -/
theorem behind_started {digest : String}
    (h : journal.sequenceError command = none) : Behind journal (journal.withStarted command digest) := by
  intro s m hm
  unfold DesktopCommandJournal.mark DesktopCommandJournal.withStarted
  dsimp only
  rw [Mapping.value?_setLast]
  by_cases hs : command.sessionId = s
  · subst hs
    unfold DesktopCommandJournal.sequenceError at h
    rw [show journal.sequenceHighWatermarks.value? command.sessionId = some m from hm] at h
    dsimp only at h
    split at h
    · cases h
    · next hlt =>
      rw [if_pos rfl]
      exact ⟨_, rfl, by omega⟩
  · rw [if_neg hs]
    exact ⟨m, hm, Int.le_refl m⟩

theorem mark_started {digest : String} :
    (journal.withStarted command digest).mark command.sessionId = some command.sequence := by
  unfold DesktopCommandJournal.mark DesktopCommandJournal.withStarted
  rw [Mapping.value?_setLast, if_pos rfl]

theorem knows_started {digest : String}
    (h : Knows S journal) (hs : command.sessionId ∈ S) : Knows S (journal.withStarted command digest) := by
  intro s m hm
  unfold DesktopCommandJournal.mark DesktopCommandJournal.withStarted at hm
  dsimp only at hm
  rw [Mapping.value?_setLast] at hm
  split at hm
  · next heq => exact heq ▸ hs
  · exact h s m hm

/-- What was executed is below the sequence of a command that may start. -/
theorem Covers.lt_of_sequenceError (h : Covers journal executed) (hseq : journal.sequenceError command = none) :
    ∀ c ∈ executed, command.sessionId = c.sessionId → c.sequence < command.sequence := by
  intro c hc hs
  rcases h c hc with ⟨m, hm, hle⟩
  unfold DesktopCommandJournal.sequenceError at hseq
  rw [hs, show journal.sequenceHighWatermarks.value? c.sessionId = some m from hm] at hseq
  dsimp only at hseq
  split at hseq
  · cases hseq
  · omega

/-- A started command whose sequence is in the file is covered by it. -/
theorem Watermarks.execute {digest : String} (hS : S.card ≤ 128)
    (h : Watermarks S w.journal w.file w.executed) (hs : command.sessionId ∈ S)
    (hseq : w.journal.sequenceError command = none) :
    Watermarks S (DesktopBridge.persist (w.journal.withStarted command digest) .written w).journal
      (DesktopBridge.persist (w.journal.withStarted command digest) .written w).file
      (command :: w.executed) := by
  have hknows : Knows S (w.journal.withStarted command digest) := knows_started h.knows hs
  have hstarted := @Watermarks.persist S w _ .written hS h hknows (behind_started hseq)
  rcases h.file with ⟨persisted, -, hbehind, hcovers⟩
  refine ⟨hstarted.knows, ⟨_, .inl rfl, Behind.refl _, ?_⟩, ?_⟩
  · have hmark : (w.journal.withStarted command digest).prune.mark command.sessionId =
        some command.sequence := by
      unfold DesktopCommandJournal.mark
      rw [mark_prune hS hknows]
      exact mark_started
    intro c hc
    rcases List.mem_cons.mp hc with rfl | hc
    · exact ⟨_, hmark, Int.le_refl _⟩
    · rcases hstarted.file with ⟨persisted', hfile, hbehind', hcovers'⟩
      rcases hfile with hfile | ⟨hnone, -⟩
      · exact hcovers'.mono hbehind' c hc
      · cases hnone
  · refine List.pairwise_cons.mpr ⟨?_, h.increasing⟩
    exact (hcovers.mono hbehind).lt_of_sequenceError hseq

/-! ## The runs -/

def HandlerSessions (S : Finset String) (w : DesktopWorld) : Prop :=
  ∀ h ∈ w.handlers, h.command.sessionId ∈ S

theorem HandlerSessions.advance {phase : DesktopPhase} (h : HandlerSessions S w) (hmem : handler ∈ w.handlers) :
    HandlerSessions S (advance handler phase w) := by
  intro h' hh'
  rcases List.mem_cons.mp hh' with rfl | hold
  · exact h handler hmem
  · exact h h' (List.mem_of_mem_erase hold)

theorem HandlerSessions.leave (h : HandlerSessions S w) :
    HandlerSessions S (leave handler w) := fun h' hh' => h h' (List.mem_of_mem_erase hh')

/-- The watermarks of the bridge, for commands of these sessions. -/
structure Guarded (S : Finset String) (w : DesktopWorld) : Prop where
  marks : Watermarks S w.journal w.file w.executed
  handlers : HandlerSessions S w

theorem Guarded.send {response : DesktopResponse} (h : Guarded S w) :
    Guarded S (send command response w) := ⟨h.marks, h.handlers⟩

theorem Guarded.advance {phase : DesktopPhase} (h : Guarded S w)
    (hmem : handler ∈ w.handlers) : Guarded S (advance handler phase w) :=
  ⟨h.marks, h.handlers.advance hmem⟩

theorem Guarded.leave (h : Guarded S w) : Guarded S (leave handler w) :=
  ⟨h.marks, h.handlers.leave⟩

/-- A handler starts its command. -/
theorem Guarded.start (h : Guarded S w)
    (hmem : handler ∈ w.handlers) (hmarks : Watermarks S w.journal w.file executed) :
    Guarded S { DesktopBridge.advance handler .executing w with executed := executed } :=
  ⟨hmarks, h.handlers.advance hmem⟩

theorem Guarded.persist (hS : S.card ≤ 128)
    (h : Guarded S w) (hknows : Knows S journal) (hle : Behind w.journal journal) :
    Guarded S (persist journal write w) := by
  refine ⟨?_, ?_⟩
  · rw [persist_executed]
    exact h.marks.persist hS hknows hle
  · intro handler hmem
    rw [persist_handlers] at hmem
    exact h.handlers handler hmem

theorem Guarded.persist_response {digest : String} {response : DesktopResponse} (hS : S.card ≤ 128) (h : Guarded S w) :
    Guarded S (DesktopBridge.persist (w.journal.withResponse command digest response) write w) :=
  h.persist hS h.marks.knows (Behind.refl _)

theorem Guarded.answer {response : DesktopResponse}
    (hS : S.card ≤ 128) (h : Guarded S w) (hmem : handler ∈ w.handlers) :
    Guarded S (answer fingerprint handler response write w) := by
  unfold DesktopBridge.answer
  dsimp only
  split
  · exact h.leave
  · split
    · refine ((h.persist_response hS).advance ?_).send
      rw [persist_handlers]
      exact hmem
    · exact (h.persist_response hS).leave

theorem Guarded.deliver (hS : S.card ≤ 128)
    (h : Guarded S w) (hs : command.sessionId ∈ S) : Guarded S (deliver fingerprint command write w) := by
  unfold DesktopBridge.deliver
  split
  · split
    · exact h.send
    · split
      · exact h.send
      · dsimp only
        split
        · exact (h.persist_response hS).send
        · exact h.persist_response hS
  · split
    · exact h
    · refine ⟨h.marks, ?_⟩
      intro h' hh'
      rcases List.mem_cons.mp hh' with rfl | hold
      · exact hs
      · exact h.handlers h' hold

theorem Guarded.process {policyError : Option String}
    (hS : S.card ≤ 128) (h : Guarded S w) (hmem : handler ∈ w.handlers) :
    Guarded S (process fingerprint handler policyError write w) := by
  have hs : handler.command.sessionId ∈ S := h.handlers handler hmem
  unfold DesktopBridge.process
  dsimp only
  split
  · exact h.answer hS hmem
  · next hallowed =>
    have hseq : w.journal.sequenceError handler.command = none := (Option.or_eq_none_iff.mp hallowed).2
    have hstarted : Guarded S (DesktopBridge.persist
        (w.journal.withStarted handler.command (fingerprint handler.command)) write w) :=
      h.persist hS (knows_started h.marks.knows hs) (behind_started hseq)
    split
    · next hwrite =>
      subst hwrite
      refine hstarted.start ?_ (h.marks.execute hS hs hseq)
      rw [persist_handlers]
      exact hmem
    · exact hstarted.leave

/-- A restart goes back to the journal of the file. -/
theorem Guarded.restarted (h : Guarded S w)
    (hload : DesktopCommandJournal.load w.file = .ok journal) : Guarded S (restarted journal w) := by
  rcases h.marks.file with ⟨persisted, hfile, hbehind, hcovers⟩
  obtain rfl := hfile.load hload
  refine ⟨⟨?_, ⟨journal, hfile, Behind.refl _, hcovers⟩, h.marks.increasing⟩, nofun⟩
  intro s m hm
  rcases hbehind s m hm with ⟨m', hm', -⟩
  exact h.marks.knows s m' hm'

def OfSessions (S : Finset String) : DesktopLabel → DesktopWorld → Prop
  | .deliver command _, _ => command.sessionId ∈ S
  | _, _ => True

theorem guarded_invariant (hS : S.card ≤ 128) :
    ((desktopSystem fingerprint).given (OfSessions S)).Invariant (Guarded S) where
  start := by
    rintro w rfl
    exact ⟨⟨nofun, ⟨{}, .inr ⟨rfl, rfl⟩, Behind.refl _, nofun⟩, List.Pairwise.nil⟩, nofun⟩
  step := by
    rintro label w w' h ⟨hs, hstep⟩
    cases label with
    | deliver command write =>
      obtain rfl : w' = _ := hstep
      exact h.deliver hS hs
    | process handler policyError write =>
      rcases hstep with ⟨hmem, -, -, rfl⟩
      exact h.process hS hmem
    | complete handler response write =>
      rcases hstep with ⟨hmem, -, rfl⟩
      exact h.answer hS hmem
    | leave handler =>
      rcases hstep with ⟨-, rfl⟩
      exact ⟨h.marks, h.handlers.leave⟩
    | restart =>
      rcases hstep with ⟨journal, hload, rfl⟩
      exact h.restarted hload

/-- What was executed: no sequence of a session twice, a session in increasing order, and no
request twice with the same content. -/
structure RanOnce (executed : List DesktopCommand) : Prop where
  sequences : (executed.map fun c => (c.sessionId, c.sequence)).Nodup
  increasing : Increasing executed
  contents : executed.Nodup

theorem Increasing.ranOnce (h : Increasing executed) :
    RanOnce executed := by
  have hsequences : (executed.map fun c => (c.sessionId, c.sequence)).Nodup := by
    refine List.pairwise_map.mpr (h.imp ?_)
    intro later earlier hlt heq
    rcases Prod.mk.inj heq with ⟨hs, hseq⟩
    have := hlt hs
    omega
  exact ⟨hsequences, h, hsequences.of_map⟩

/-- Over any number of commands, duplicates, concurrent handlers and restarts that involve at most
128 sessions, no command runs twice. -/
theorem desktop_runs_once (hS : S.card ≤ 128)
    (h : ((desktopSystem fingerprint).given (OfSessions S)).Reachable w) : RanOnce w.executed :=
  ((guarded_invariant hS).reachable h).marks.increasing.ranOnce

namespace OneClick

def click : DesktopCommand where
  requestId := "q"
  sessionId := "s"
  sequence := 1
  issuedAtMs := 0
  expiresAtMs := 1000
  action := .click
  requesterId := "@u:h"
  agentName := "a"

def digest : DesktopHost := fun _ => "0123456789abcdef0123456789abcdef0123456789abcdef0123456789abcdef"

def waiting : DesktopWorld := deliver digest click .written ⟨{}, none, [], [], [], [], []⟩

def executing : DesktopWorld := process digest ⟨click, .waiting⟩ none .written waiting

theorem executing_reachable : ((desktopSystem digest).given (OfSessions {"s"})).Reachable executing := by
  have hstart : ((desktopSystem digest).given (OfSessions {"s"})).Reachable
      ⟨{}, none, [], [], [], [], []⟩ := .start rfl
  have hwaiting : ((desktopSystem digest).given (OfSessions {"s"})).Reachable waiting :=
    hstart.next (.deliver click .written) ⟨Finset.mem_singleton_self "s", rfl⟩
  exact hwaiting.next (.process ⟨click, .waiting⟩ none .written)
    ⟨trivial, by decide +kernel, rfl, by decide +kernel, rfl⟩

theorem executing_once : RanOnce executing.executed :=
  desktop_runs_once (by decide) executing_reachable

end OneClick

end MindRoom
