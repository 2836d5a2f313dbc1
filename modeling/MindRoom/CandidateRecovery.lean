import MindRoom.CandidateLog

/-! # Recovery of a candidate over crashes

One candidate is saved, appended to and loaded again, with crashes inside an append and between the
two writes of a save. What is loaded is the snapshot with every entry that was written completely,
while each append starts on a line of its own; an append after a torn one is lost with it.
-/

namespace MindRoom

open JsonText

/-- The files of one candidate, and the maps of the process that works on it. -/
structure LogWorld where
  files : CheckpointFiles := {}
  /-- The maps in memory, if a process has saved or loaded the candidate. -/
  worker : Option CandidateMaps := none
  /-- The checkpoint in the snapshot. -/
  saved : Option CandidateCheckpoint := none
  /-- The entries written completely since the journal was last removed. -/
  log : List JournalEntry := []
deriving DecidableEq

inductive LogLabel where
  /-- A candidate is started: its snapshot is written, and the journal removed unless the process
  crashes in between. -/
  | begin (checkpoint : CandidateCheckpoint) (now : String) (crashed : Bool)
  /-- The maps of the process are saved, under a header of its choice. -/
  | save (header : CandidateCheckpoint) (now : String) (crashed : Bool)
  /-- An append; a crash leaves its first characters. -/
  | append (entries : List JournalEntry) (cut : Option Nat)
  | load
  | crash
deriving DecidableEq

def saveStep (checkpoint : CandidateCheckpoint) (now : String) (crashed : Bool) (w : LogWorld) : LogWorld :=
  if crashed then
    { w with
      files := writeSnapshot checkpoint now w.files
      worker := none
      saved := some (compacted checkpoint now) }
  else
    { files := saveCandidateCheckpoint checkpoint now w.files
      worker := some checkpoint.maps
      saved := some (compacted checkpoint now)
      log := [] }

def appendStep (entries : List JournalEntry) (cut : Option Nat) (maps : CandidateMaps) (w : LogWorld) : LogWorld :=
  match cut with
  | none =>
    { w with
      files := appendCandidateJournal entries none w.files
      worker := some (replay entries maps)
      log := w.log ++ entries }
  | some n =>
    { w with
      files := appendCandidateJournal entries (some n) w.files
      worker := none
      log := w.log ++ writtenEntries entries n }

def logStep : LogLabel → LogWorld → Option LogWorld
  | .begin checkpoint now crashed, w =>
    -- a new candidate has failed nothing yet
    if checkpoint.maps.failed = ∅ then some (saveStep checkpoint now crashed w) else none
  | .save header now crashed, w =>
    w.worker.map fun maps => saveStep { header with maps := maps } now crashed w
  | .append entries cut, w => w.worker.map fun maps => appendStep entries cut maps w
  | .load, w =>
    (loadCandidateCheckpoint w.files).map fun checkpoint => { w with worker := some checkpoint.maps }
  | .crash, w => some { w with worker := none }

/-- One candidate, from a storage without one. -/
def logSystem : System LogWorld LogLabel where
  start w := w = {}
  step label w w' := logStep label w = some w'

/-- Loading gives the snapshot with every entry that was written completely, no file twice, and
what the process has in memory. -/
structure Recovers (w : LogWorld) : Prop where
  loaded : ∀ saved, w.saved = some saved → ∃ checkpoint, loadCandidateCheckpoint w.files = some checkpoint ∧
    checkpoint.collection = saved.collection ∧ checkpoint.settings = saved.settings.normalized ∧
    checkpoint.maps.Same (replay w.log saved.maps)
  absent : w.saved = none → loadCandidateCheckpoint w.files = none
  disjoint : ∀ checkpoint, loadCandidateCheckpoint w.files = some checkpoint → checkpoint.maps.Disjoint
  continued : ∀ maps, w.worker = some maps → ∀ checkpoint, loadCandidateCheckpoint w.files = some checkpoint →
    checkpoint.maps.Same maps

def StartsLine : LogLabel → LogWorld → Prop
  | .append entries _, w => entries = [] ∨ AtLineStart (w.files.journal.getD [])
  | _, _ => True

instance (label : LogLabel) (w : LogWorld) : Decidable (StartsLine label w) := by
  cases label <;> unfold StartsLine <;> infer_instance

/-! ## What is on the disk -/

/-- The files hold the saved snapshot and the entries of the log. -/
structure Stored (w : LogWorld) : Prop where
  snapshot : w.files.snapshot = w.saved.map snapshotText
  journal : Holds (w.files.journal.getD []) w.log
  disjoint : ∀ saved, w.saved = some saved → saved.maps.Disjoint
  worker : ∀ maps, w.worker = some maps → ∃ saved, w.saved = some saved ∧ maps.Same (replay w.log saved.maps)

variable {w w' : LogWorld} {label : LogLabel} {checkpoint : CandidateCheckpoint} {now : String}
  {maps : CandidateMaps}

theorem replay_members (log : List JournalEntry) (maps : CandidateMaps) :
    (log.map JournalEntry.members).foldl (fun maps entry => applyJournalEntry entry maps) maps =
      replay log maps := by
  induction log generalizing maps with
  | nil => rfl
  | cons entry log ih =>
    rw [List.map_cons, List.foldl_cons, JournalEntry.members, applyJournalEntry_payload, ih]
    rfl

theorem Stored.load (h : Stored w) {saved : CandidateCheckpoint} (hsaved : w.saved = some saved) :
    ∃ checkpoint, loadCandidateCheckpoint w.files = some checkpoint ∧
      checkpoint.collection = saved.collection ∧ checkpoint.settings = saved.settings.normalized ∧
      checkpoint.maps.Same (replay w.log saved.maps) := by
  rcases parseSnapshot_payload saved with ⟨parsed, hparsed, hcollection, hsettings, hsame⟩
  have hloads : w.files.snapshot.bind loads =
      some (.obj (Dict.sortKeys (sortedMembers (snapshotPayload saved)))) := by
    rw [h.snapshot, hsaved, Option.map_some, Option.bind_some, loads_snapshotText]
  have hentries : (w.files.journal.map journalEntries).getD [] = w.log.map JournalEntry.members := by
    have hread := h.journal.read
    cases hjournal : w.files.journal with
    | none => rwa [hjournal] at hread
    | some text => rwa [hjournal] at hread
  unfold loadCandidateCheckpoint
  rw [hloads]
  simp only [hparsed, Option.map_some, hentries, replay_members]
  exact ⟨_, rfl, hcollection, hsettings, hsame.replay w.log⟩

theorem Stored.absent (h : Stored w) (hsaved : w.saved = none) : loadCandidateCheckpoint w.files = none := by
  unfold loadCandidateCheckpoint
  rw [h.snapshot, hsaved]
  rfl

theorem Stored.recovers (h : Stored w) : Recovers w where
  loaded saved hsaved := h.load hsaved
  absent := h.absent
  disjoint checkpoint hload := by
    cases hsaved : w.saved with
    | none =>
      rw [h.absent hsaved] at hload
      cases hload
    | some saved =>
      rcases h.load hsaved with ⟨loaded, hloaded, -, -, hsame⟩
      obtain rfl : loaded = checkpoint := Option.mem_unique hloaded hload
      exact ((h.disjoint saved hsaved).replay w.log).congr hsame.symm
  continued maps hmaps checkpoint hload := by
    rcases h.worker maps hmaps with ⟨saved, hsaved, hsame⟩
    rcases h.load hsaved with ⟨loaded, hloaded, -, -, hreplay⟩
    obtain rfl : loaded = checkpoint := Option.mem_unique hloaded hload
    exact hreplay.trans hsame.symm

/-! ## The steps -/

/-- After a save the snapshot holds what the process has, whether or not the journal is gone. -/
theorem Stored.save (h : Stored w) (hdisjoint : checkpoint.maps.Disjoint) (crashed : Bool) :
    Stored (saveStep checkpoint now crashed w) := by
  cases crashed with
  | true =>
    refine ⟨rfl, h.journal, ?_, ?_⟩
    · rintro saved ⟨⟩
      exact hdisjoint
    · rintro maps ⟨⟩
  | false =>
    refine ⟨rfl, .whole [], ?_, ?_⟩
    · rintro saved ⟨⟩
      exact hdisjoint
    · rintro maps ⟨⟩
      exact ⟨_, rfl, .refl _⟩

theorem snapshot_append (entries : List JournalEntry) (cut : Option Nat) (files : CheckpointFiles) :
    (appendCandidateJournal entries cut files).snapshot = files.snapshot := by
  unfold appendCandidateJournal
  split
  · rfl
  · cases cut <;> rfl

/-- The journal after an append: every entry, or those that the crash left complete. -/
theorem holds_append {entries log : List JournalEntry} {cut : Option Nat} {files : CheckpointFiles}
    (h : Holds (files.journal.getD []) log) (hstart : entries = [] ∨ AtLineStart (files.journal.getD [])) :
    Holds ((appendCandidateJournal entries cut files).journal.getD [])
      (log ++ cut.elim entries (writtenEntries entries)) := by
  unfold appendCandidateJournal
  split
  · next hnil =>
    subst hnil
    have hnone : cut.elim [] (writtenEntries []) = [] := by
      cases cut <;> rfl
    rw [hnone, List.append_nil]
    exact h
  · next hne =>
    have hwhole := h.atLineStart (hstart.resolve_left hne)
    cases cut with
    | none =>
      show Holds (files.journal.getD [] ++ journalText entries) (log ++ entries)
      rw [hwhole]
      exact (Holds.whole entries).after log
    | some n =>
      show Holds (files.journal.getD [] ++ (journalText entries).take n) (log ++ writtenEntries entries n)
      rw [hwhole]
      exact (holds_take entries n).after log

/-- An append on a line of its own adds the entries it completes. -/
theorem Stored.append (h : Stored w) {entries : List JournalEntry} {cut : Option Nat}
    (hmaps : w.worker = some maps) (hstart : StartsLine (.append entries cut) w) :
    Stored (appendStep entries cut maps w) := by
  rcases h.worker maps hmaps with ⟨saved, hsaved, hsame⟩
  have hjournal := @holds_append entries w.log cut w.files h.journal hstart
  cases cut with
  | none =>
    refine ⟨(snapshot_append _ _ _).trans h.snapshot, hjournal, h.disjoint, ?_⟩
    rintro maps' ⟨⟩
    refine ⟨saved, hsaved, ?_⟩
    show (replay entries maps).Same (replay (w.log ++ entries) saved.maps)
    rw [replay_append]
    exact hsame.replay entries
  | some n =>
    refine ⟨(snapshot_append _ _ _).trans h.snapshot, hjournal, h.disjoint, ?_⟩
    rintro maps' ⟨⟩

theorem Stored.leave (h : Stored w) : Stored { w with worker := none } :=
  ⟨h.snapshot, h.journal, h.disjoint, fun maps hmaps => by cases hmaps⟩

/-- A process that loads the candidate has what it would recover. -/
theorem Stored.loadStep (h : Stored w) (hload : loadCandidateCheckpoint w.files = some checkpoint) :
    Stored { w with worker := some checkpoint.maps } := by
  refine ⟨h.snapshot, h.journal, h.disjoint, ?_⟩
  rintro maps ⟨⟩
  cases hsaved : w.saved with
  | none =>
    rw [h.absent hsaved] at hload
    cases hload
  | some saved =>
    rcases h.load hsaved with ⟨loaded, hloaded, -, -, hsame⟩
    obtain rfl : loaded = checkpoint := Option.mem_unique hloaded hload
    exact ⟨saved, rfl, hsame⟩

theorem stored_step (h : Stored w) (hstart : StartsLine label w) (hstep : logStep label w = some w') :
    Stored w' := by
  cases label with
  | begin checkpoint now crashed =>
    simp only [logStep, Option.ite_none_right_eq_some] at hstep
    rcases hstep with ⟨hfailed, hstep⟩
    obtain rfl := Option.some.inj hstep
    refine h.save ?_ crashed
    intro path
    rw [hfailed]
    exact .inr rfl
  | save header now crashed =>
    rcases Option.map_eq_some_iff.mp hstep with ⟨maps, hmaps, rfl⟩
    -- what the process has overlaps no more than what it was loaded from
    rcases h.worker maps hmaps with ⟨saved, hsaved, hsame⟩
    exact h.save (((h.disjoint saved hsaved).replay w.log).congr hsame.symm) crashed
  | append entries cut =>
    rcases Option.map_eq_some_iff.mp hstep with ⟨maps, hmaps, rfl⟩
    exact h.append hmaps hstart
  | load =>
    rcases Option.map_eq_some_iff.mp hstep with ⟨checkpoint, hload, rfl⟩
    exact h.loadStep hload
  | crash =>
    obtain rfl := Option.some.inj hstep
    exact h.leave

theorem stored_invariant : (logSystem.given StartsLine).Invariant Stored where
  start := by
    rintro w rfl
    refine ⟨rfl, .whole [], ?_, ?_⟩
    · rintro saved ⟨⟩
    · rintro maps ⟨⟩
  step label w w' h hstep := stored_step h hstep.1 hstep.2

/-- While every append starts on a line of its own, loading recovers every complete entry. -/
theorem checkpoint_recovers (h : (logSystem.given StartsLine).Reachable w) : Recovers w :=
  (stored_invariant.reachable h).recovers

namespace TornLine

def candidate : CandidateCheckpoint where
  collection := "k_candidate_a"
  settings := plainSettings

def indexed (path : String) (h : path ≠ "" := by decide) : JournalEntry where
  path := path
  update := .completed ⟨1, 2, "d1", by decide⟩
  path_ne := h

/-- A crash cuts the line of the first file; the process that loads the candidate indexes the second. -/
def torn : List LogLabel :=
  [.begin candidate "t" false, .append [indexed "a.md"] (some 10), .load, .append [indexed "b.md"] none]

/-- The entry of the second file is complete, and is not loaded. -/
theorem not_recovers : ∃ w, logSystem.Reachable w ∧ ¬ Recovers w := by
  have hrun : (System.follow (fun _ _ => True) logStep torn {}).any fun w =>
      w.saved = some (compacted candidate "t") ∧ w.log = [indexed "b.md"] ∧
        (loadCandidateCheckpoint w.files).any fun loaded => loaded.maps.completed.value? "b.md" = none := by
    decide +kernel
  rw [Option.any_eq_true] at hrun
  rcases hrun with ⟨w, hw, hboth⟩
  rcases of_decide_eq_true hboth with ⟨hsaved, hlog, hany⟩
  rw [Option.any_eq_true] at hany
  rcases hany with ⟨checkpoint, hload, hlost⟩
  have hlost := of_decide_eq_true hlost
  have hreachable : logSystem.Reachable w :=
    ((System.Reachable.start rfl).run (System.Run.of_follow (fun _ _ _ h => h) hw)).of_given
  refine ⟨w, hreachable, fun hrecovers => ?_⟩
  rcases hrecovers.loaded _ hsaved with ⟨loaded, hloaded, -, -, hsame⟩
  obtain rfl : loaded = checkpoint := Option.mem_unique hloaded hload
  have hcompleted := hsame.completed "b.md"
  rw [hlost, hlog] at hcompleted
  revert hcompleted
  decide +kernel

/-- The torn line is retired by a save before the next append. -/
theorem saved_recovers : ∃ w, w.log = [indexed "b.md"] ∧ Recovers w := by
  have hrun : (System.follow StartsLine logStep (torn.take 3 ++ [.save candidate "t" false,
      .append [indexed "b.md"] none]) {}).any fun w => w.log = [indexed "b.md"] := by decide +kernel
  rw [Option.any_eq_true] at hrun
  rcases hrun with ⟨w, hw, hlog⟩
  refine ⟨w, of_decide_eq_true hlog, ?_⟩
  exact checkpoint_recovers ((System.Reachable.start rfl).run (System.Run.of_follow (fun _ _ _ h => h) hw))

end TornLine

end MindRoom
