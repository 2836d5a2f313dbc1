import Mathlib.Data.List.Basic
import Mathlib.Logic.Function.Basic
import Mathlib.Order.Nat
import MindRoom.Systems

/-! # The clean-up of attachments

`_cleanup_attachment_storage` of `attachments.py`, beside registrations of attachments. A clean-up reads the attachment
records, deletes those that are unreadable or expired, deletes the managed media that no record it kept names, and last
the old files in the media directory that no such record names. A registration stores its media bytes, checks that the
file is there, and replaces its record in one step.

A record file is known by its attachment id and a media file by its resolved path; the media directory holds files and no
links. Registrations read no time before the cut-off, which lies the retention period behind the start of the clean-up.
The state holds beside the files what the clean-up has collected, the attachments that are due to be spared, the records
replaced since the clean-up began, and the media files deleted, each with the records there were at that moment.
-/

namespace MindRoom.AttachmentCleanup

/-- What a clean-up reads of an attachment record. -/
structure AttachmentRecord where
  localPath : String
  createdAt : Option Nat

/-- A record file: the record that can be loaded from it, and when it was modified. -/
structure RecordFile where
  record : Option AttachmentRecord
  mtime : Nat

/-- How paths resolve, and which resolved paths are inside the directory of incoming media. -/
structure MediaPaths where
  resolve : String → String
  resolve_resolve : ∀ path, resolve (resolve path) = resolve path
  isManaged : String → Bool

/-- Where a clean-up is, with what it has left to do there. -/
inductive Phase
  | waiting
  | collecting (left : List String)
  | pruningRecords (left : List String)
  | pruningMedia (left : List String)
  | scanning (left : List String)
  | unlinking (path : String) (left : List String)
  | finished

/-- A registration that has found its file, with the resolved path. -/
structure Registration where
  attachmentId : String
  localPath : String
deriving DecidableEq

/-- A media file that was deleted, and the records there were then. -/
structure Deletion where
  path : String
  records : String → Option RecordFile

structure Storage where
  records : String → Option RecordFile
  media : String → Option Nat
  phase : Phase
  activeMediaPaths : List String
  expiredRecords : List (String × AttachmentRecord)
  staleRecords : List String
  registrations : List Registration
  due : List String
  renewed : List String
  deleted : List Deletion

/-- The records that the clean-up has not read yet. -/
def Phase.unread : Phase → List String
  | .collecting left => left
  | _ => []

/-- The records that the clean-up goes on to delete. -/
def Phase.condemnedRecords : Phase → List String
  | .pruningRecords left => left
  | _ => []

/-- The media files that the clean-up goes on to delete. -/
def Phase.condemnedMedia : Phase → List String
  | .pruningMedia left => left
  | .unlinking path _ => [path]
  | _ => []

section

variable (cutoff : Nat) (paths : MediaPaths) (s : Storage)

/-- When the record was created: what it says, or else when its file was modified. -/
def recordCreatedAt (record : AttachmentRecord) (file : RecordFile) : Nat := record.createdAt.getD file.mtime

def collect (attachmentId : String) : Storage :=
  match s.records attachmentId with
  | none => s
  | some file =>
    match file.record with
    | none => if file.mtime < cutoff then { s with staleRecords := s.staleRecords ++ [attachmentId] } else s
    | some record =>
      if recordCreatedAt record file < cutoff then
        { s with expiredRecords := s.expiredRecords ++ [(attachmentId, record)] }
      else { s with activeMediaPaths := s.activeMediaPaths ++ [paths.resolve record.localPath] }

/-- The managed media of the expired records to which no record that was kept refers. -/
def removableMediaPaths : List String :=
  (s.expiredRecords.map fun expired => paths.resolve expired.2.localPath).filter fun path =>
    paths.isManaged (paths.resolve path) ∧ s.activeMediaPaths.count path = 0

/-- The file in the media directory is old and no record that was kept names it. -/
def isOrphan (path : String) : Bool :=
  match s.media path with
  | none => false
  | some mtime => decide (path ∉ s.activeMediaPaths ∧ mtime < cutoff)

def unlinkRecord (attachmentId : String) : Storage :=
  { s with records := Function.update s.records attachmentId none }

def unlinkMedia (path : String) : Storage :=
  { s with
    media := Function.update s.media path none
    deleted := s.deleted ++ [{ path := path, records := s.records }] }

def storeMediaBytes (path : String) (mtime : Nat) : Storage :=
  { s with media := Function.update s.media path (some mtime) }

def readMedia (attachmentId localPath : String) : Storage :=
  { s with registrations := { attachmentId := attachmentId, localPath := paths.resolve localPath } :: s.registrations }

def replaceRecord (registration : Registration) (now : Nat) : Storage :=
  let record : AttachmentRecord := { localPath := registration.localPath, createdAt := some now }
  { s with
    records := Function.update s.records registration.attachmentId (some { record := some record, mtime := now })
    registrations := s.registrations.erase registration
    due := registration.attachmentId :: s.due
    renewed := registration.attachmentId :: s.renewed }

end

/-- What a step deletes. -/
inductive Action
  | deleteRecord (attachmentId : String)
  | deleteMedia (path : String)
  | other

/-- The steps of one clean-up and of the registrations. Directory listings, and the set of removable media, come in any
order, and a file may fail to be deleted. -/
inductive Step (cutoff : Nat) (paths : MediaPaths) (s : Storage) : Action → Storage → Prop
  | start (names : List String) (hphase : s.phase = .waiting) (hnames : ∀ id, (s.records id).isSome → id ∈ names) :
      Step cutoff paths s .other
        { s with
          phase := .collecting names, activeMediaPaths := [], expiredRecords := [], staleRecords := [], renewed := [] }
  | collect (id : String) (left : List String) (hphase : s.phase = .collecting (id :: left)) :
      Step cutoff paths s .other { collect cutoff paths s id with phase := .collecting left }
  | collected (hphase : s.phase = .collecting []) :
      Step cutoff paths s .other
        { s with phase := .pruningRecords (s.staleRecords ++ s.expiredRecords.map (·.1)) }
  | deleteRecord (id : String) (left : List String) (hphase : s.phase = .pruningRecords (id :: left)) :
      Step cutoff paths s (.deleteRecord id) { unlinkRecord s id with phase := .pruningRecords left }
  | skipRecord (id : String) (left : List String) (hphase : s.phase = .pruningRecords (id :: left)) :
      Step cutoff paths s .other { s with phase := .pruningRecords left }
  | gather (media : List String) (hphase : s.phase = .pruningRecords [])
      (hmedia : ∀ path, path ∈ media ↔ path ∈ removableMediaPaths paths s) :
      Step cutoff paths s .other { s with phase := .pruningMedia media }
  | deleteMedia (path : String) (left : List String) (hphase : s.phase = .pruningMedia (path :: left))
      (hfile : (s.media path).isSome) :
      Step cutoff paths s (.deleteMedia path) { unlinkMedia s path with phase := .pruningMedia left }
  | skipMedia (path : String) (left : List String) (hphase : s.phase = .pruningMedia (path :: left)) :
      Step cutoff paths s .other { s with phase := .pruningMedia left }
  | list (entries : List String) (hphase : s.phase = .pruningMedia [])
      (hentries : ∀ path ∈ entries, paths.isManaged path ∧ (s.media path).isSome) :
      Step cutoff paths s .other { s with phase := .scanning entries }
  | check (path : String) (left : List String) (hphase : s.phase = .scanning (path :: left)) :
      Step cutoff paths s .other
        { s with phase := if isOrphan cutoff s path then .unlinking path left else .scanning left }
  | deleteOrphan (path : String) (left : List String) (hphase : s.phase = .unlinking path left)
      (hfile : (s.media path).isSome) :
      Step cutoff paths s (.deleteMedia path) { unlinkMedia s path with phase := .scanning left }
  | skipOrphan (path : String) (left : List String) (hphase : s.phase = .unlinking path left) :
      Step cutoff paths s .other { s with phase := .scanning left }
  | finish (hphase : s.phase = .scanning []) : Step cutoff paths s .other { s with phase := .finished }
  | storeMediaBytes (path : String) (mtime : Nat) (hmtime : cutoff ≤ mtime) :
      Step cutoff paths s .other (storeMediaBytes s path mtime)
  | readMedia (attachmentId localPath : String) (hfile : (s.media (paths.resolve localPath)).isSome) :
      Step cutoff paths s .other (readMedia paths s attachmentId localPath)
  | replaceRecord (registration : Registration) (now : Nat) (hread : registration ∈ s.registrations)
      (hnow : cutoff ≤ now) : Step cutoff paths s .other (replaceRecord s registration now)

section

variable (cutoff : Nat) (paths : MediaPaths)

/-- The record of an attachment that was not created before the cut-off. -/
def liveRecord? (records : String → Option RecordFile) (attachmentId : String) : Option AttachmentRecord :=
  (records attachmentId).bind fun file => file.record.filter fun record => cutoff ≤ recordCreatedAt record file

/-- An attachment has a live record, and the record its media file. -/
def Intact (s : Storage) (attachmentId : String) : Prop :=
  ∃ record, liveRecord? cutoff s.records attachmentId = some record ∧ (s.media (paths.resolve record.localPath)).isSome

def Unnamed (records : String → Option RecordFile) (path : String) : Prop :=
  ∀ id record, liveRecord? cutoff records id = some record → paths.resolve record.localPath ≠ path

/-- Every attachment that is due has its live record and its file, and no file that was deleted was named by a live
record. -/
structure Spared (s : Storage) : Prop where
  due : ∀ id ∈ s.due, Intact cutoff paths s id
  deleted : ∀ deletion ∈ s.deleted, Unnamed cutoff paths deletion.records deletion.path

/-- Before the clean-up: the due attachments are intact and nothing runs yet. -/
structure Begins (s : Storage) : Prop where
  phase : s.phase = .waiting
  expiredRecords : s.expiredRecords = []
  staleRecords : s.staleRecords = []
  registrations : s.registrations = []
  deleted : s.deleted = []
  due : ∀ id ∈ s.due, Intact cutoff paths s id

/-- One clean-up beside any registrations. -/
def system : System Storage Action where
  start := Begins cutoff paths
  step a s s' := Step cutoff paths s a s'

/-- No registration crosses the deletion: the record that is deleted was not replaced since the clean-up began, and the
file that is deleted is neither named by a record that was replaced since then nor read by a registration under way. -/
def Uncrossed : Action → Storage → Prop
  | .deleteRecord id, s => id ∉ s.renewed
  | .deleteMedia path, s =>
    (∀ registration ∈ s.registrations, registration.localPath ≠ path) ∧
      ∀ id ∈ s.renewed, ∀ file record, s.records id = some file → file.record = some record →
        paths.resolve record.localPath ≠ path
  | .other, _ => True

end

section

variable {cutoff : Nat} {paths : MediaPaths} {s : Storage} {id path : String} {record : AttachmentRecord}

theorem liveRecord?_of_ne {records : String → Option RecordFile} {other : String} (file : Option RecordFile)
    (h : other ≠ id) : liveRecord? cutoff (Function.update records id file) other = liveRecord? cutoff records other := by
  unfold liveRecord?
  rw [Function.update_of_ne h]

theorem liveRecord?_removed (records : String → Option RecordFile) (id : String) :
    liveRecord? cutoff (Function.update records id none) id = none := by
  unfold liveRecord?
  rw [Function.update_self]
  rfl

theorem liveRecord?_renewed (records : String → Option RecordFile) (id localPath : String) {now : Nat}
    (hnow : cutoff ≤ now) : liveRecord? cutoff
      (Function.update records id (some { record := some { localPath := localPath, createdAt := some now }, mtime := now }))
      id = some { localPath := localPath, createdAt := some now } := by
  unfold liveRecord?
  rw [Function.update_self]
  simp [recordCreatedAt, hnow]

theorem liveRecord?_eq_some {records : String → Option RecordFile} : liveRecord? cutoff records id = some record ↔
      ∃ file, records id = some file ∧ file.record = some record ∧ cutoff ≤ recordCreatedAt record file := by
  unfold liveRecord?
  rw [Option.bind_eq_some_iff]
  constructor
  · rintro ⟨file, hfile, hrecord⟩
    rw [Option.filter_eq_some_iff] at hrecord
    exact ⟨file, hfile, hrecord.1, of_decide_eq_true hrecord.2⟩
  · rintro ⟨file, hfile, hrecord, hlive⟩
    exact ⟨file, hfile, Option.filter_eq_some_iff.mpr ⟨hrecord, decide_eq_true hlive⟩⟩

def Phase.AllRead : Phase → Prop
  | .waiting => False
  | .collecting left => left = []
  | _ => True

theorem Phase.AllRead.unread {phase : Phase} (h : phase.AllRead) (id : String) : id ∉ phase.unread := by
  cases phase with
  | collecting left =>
    rw [show left = [] from h]
    exact List.not_mem_nil
  | waiting | pruningRecords _ | pruningMedia _ | scanning _ | unlinking _ _ | finished => exact List.not_mem_nil

/-- A record on a list of the clean-up was replaced since, or is not live. -/
def Dead (cutoff : Nat) (s : Storage) (id : String) : Prop :=
  id ∈ s.renewed ∨ liveRecord? cutoff s.records id = none

/-- What the steps keep. A live record that was not replaced while the clean-up runs is still to be read, or its file is
one of those to keep. -/
structure Consistent (cutoff : Nat) (paths : MediaPaths) (s : Storage) : Prop where
  due : ∀ id ∈ s.due, Intact cutoff paths s id
  deleted : ∀ deletion ∈ s.deleted, Unnamed cutoff paths deletion.records deletion.path
  read : ∀ registration ∈ s.registrations,
    (s.media registration.localPath).isSome ∧ paths.resolve registration.localPath = registration.localPath
  covered : s.phase = .waiting ∨ ∀ id record, liveRecord? cutoff s.records id = some record →
    id ∈ s.renewed ∨ id ∈ s.phase.unread ∨ paths.resolve record.localPath ∈ s.activeMediaPaths
  listed : ∀ id ∈ s.staleRecords ++ s.expiredRecords.map (·.1), Dead cutoff s id
  condemnedRecords : ∀ id ∈ s.phase.condemnedRecords, Dead cutoff s id
  condemnedMedia : ∀ path ∈ s.phase.condemnedMedia, path ∉ s.activeMediaPaths

theorem Begins.consistent (h : Begins cutoff paths s) : Consistent cutoff paths s where
  due := h.due
  deleted := by simp [h.deleted]
  read := by simp [h.registrations]
  covered := .inl h.phase
  listed := by simp [h.staleRecords, h.expiredRecords]
  condemnedRecords := by simp [h.phase, Phase.condemnedRecords]
  condemnedMedia := by simp [h.phase, Phase.condemnedMedia]

/-- Once every record is read, the live records that were not replaced since are those whose files are kept. -/
theorem Consistent.covers (h : Consistent cutoff paths s) {before : Phase} (hphase : s.phase = before)
    (hread : before.AllRead) (hlive : liveRecord? cutoff s.records id = some record) :
    id ∈ s.renewed ∨ paths.resolve record.localPath ∈ s.activeMediaPaths := by
  rw [← hphase] at hread
  rcases h.covered with hwaiting | hcovered
  · rw [hwaiting] at hread
    exact hread.elim
  · rcases hcovered id record hlive with hrenewed | hunread | hactive
    · exact .inl hrenewed
    · exact absurd hunread (hread.unread id)
    · exact .inr hactive

/-- The clean-up goes on when it goes for nothing but what it listed. -/
theorem Consistent.proceed (h : Consistent cutoff paths s) {before phase : Phase} (hphase : s.phase = before)
    (hread : before.AllRead) (hrecords : ∀ id ∈ phase.condemnedRecords,
      id ∈ s.staleRecords ++ s.expiredRecords.map (·.1) ∨ id ∈ before.condemnedRecords)
    (hmedia : ∀ path ∈ phase.condemnedMedia, path ∈ before.condemnedMedia ∨ path ∉ s.activeMediaPaths) :
    Consistent cutoff paths { s with phase := phase } := by
  subst hphase
  exact { h with
    covered := .inr fun _ _ hlive => (h.covers rfl hread hlive).imp_right .inr
    condemnedRecords := fun id hid => (hrecords id hid).elim (h.listed id) (h.condemnedRecords id)
    condemnedMedia := fun path hpath => (hmedia path hpath).elim (h.condemnedMedia path) id }

theorem Consistent.start (h : Consistent cutoff paths s) {names : List String}
    (hnames : ∀ id, (s.records id).isSome → id ∈ names) : Consistent cutoff paths
      { s with
        phase := .collecting names, activeMediaPaths := [], expiredRecords := [], staleRecords := [], renewed := [] } := by
  have hunread : ∀ id record, liveRecord? cutoff s.records id = some record → id ∈ names := by
    intro id record hlive
    rcases liveRecord?_eq_some.mp hlive with ⟨file, hfile, -⟩
    exact hnames id (Option.isSome_of_eq_some hfile)
  exact { h with
    covered := .inr fun id record hlive => .inr (.inl (hunread id record hlive))
    listed := List.forall_mem_nil _
    condemnedRecords := List.forall_mem_nil _
    condemnedMedia := List.forall_mem_nil _ }

/-- A record that is read is listed at most when it is not live; else its file is one to keep. -/
theorem collect_cases (cutoff : Nat) (paths : MediaPaths) (s : Storage) (id : String) :
    (liveRecord? cutoff s.records id = none ∧ ∃ staleRecords expiredRecords,
      collect cutoff paths s id = { s with staleRecords := staleRecords, expiredRecords := expiredRecords } ∧
      ∀ other ∈ staleRecords ++ expiredRecords.map (·.1),
        other ∈ s.staleRecords ++ s.expiredRecords.map (·.1) ∨ other = id) ∨
    ∃ record, liveRecord? cutoff s.records id = some record ∧
      collect cutoff paths s id =
        { s with activeMediaPaths := s.activeMediaPaths ++ [paths.resolve record.localPath] } := by
  unfold collect liveRecord?
  cases hfile : s.records id with
  | none => exact .inl ⟨rfl, _, _, rfl, fun _ => .inl⟩
  | some file =>
    rw [Option.bind_some]
    dsimp only
    cases hrecord : file.record with
    | none =>
      dsimp only
      split
      · exact .inl ⟨rfl, _, _, rfl, by grind⟩
      · exact .inl ⟨rfl, _, _, rfl, fun _ => .inl⟩
    | some record =>
      rw [Option.filter_some]
      dsimp only
      by_cases hold : recordCreatedAt record file < cutoff
      · refine .inl ⟨if_neg ?_, _, _, if_pos hold, by grind⟩
        exact fun hlive => absurd hold (not_lt.mpr (of_decide_eq_true hlive))
      · exact .inr ⟨record, if_pos (decide_eq_true (not_lt.mp hold)), if_neg hold⟩

theorem Consistent.collect (h : Consistent cutoff paths s) {left : List String}
    (hphase : s.phase = .collecting (id :: left)) :
    Consistent cutoff paths { collect cutoff paths s id with phase := .collecting left } := by
  have hcovered : ∀ other record, liveRecord? cutoff s.records other = some record →
      other ∈ s.renewed ∨ other = id ∨ other ∈ left ∨ paths.resolve record.localPath ∈ s.activeMediaPaths := by
    intro other record hlive
    rcases h.covered with hwaiting | hcovered
    · rw [hphase] at hwaiting
      cases hwaiting
    · rcases hcovered other record hlive with hrenewed | hleft | hactive
      · exact .inl hrenewed
      · rw [hphase] at hleft
        exact .inr ((List.mem_cons.mp hleft).imp_right .inl)
      · exact .inr (.inr (.inr hactive))
  rcases collect_cases cutoff paths s id with ⟨hdead, stale, expired, heq, hlisted⟩ | ⟨record, hlive, heq⟩
  · rw [heq]
    exact { h with
      covered := by
        refine .inr fun other record hlive => ?_
        rcases hcovered other record hlive with hrenewed | rfl | hrest
        · exact .inl hrenewed
        · rw [hdead] at hlive
          cases hlive
        · exact .inr hrest
      listed := by
        intro other hother
        rcases hlisted other hother with hbefore | rfl
        · exact h.listed other hbefore
        · exact .inr hdead
      condemnedRecords := List.forall_mem_nil _
      condemnedMedia := List.forall_mem_nil _ }
  · rw [heq]
    exact { h with
      covered := by
        refine .inr fun other record' hlive' => ?_
        rcases hcovered other record' hlive' with hrenewed | rfl | hleft | hactive
        · exact .inl hrenewed
        · rw [hlive] at hlive'
          cases hlive'
          exact .inr (.inr (List.mem_append_right _ (List.mem_singleton_self _)))
        · exact .inr (.inl hleft)
        · exact .inr (.inr (List.mem_append_left _ hactive))
      condemnedRecords := List.forall_mem_nil _
      condemnedMedia := List.forall_mem_nil _ }

/-- Deleting a record that is not live takes nothing away. -/
theorem Consistent.unlinkRecord (h : Consistent cutoff paths s) (hdead : liveRecord? cutoff s.records id = none) :
    Consistent cutoff paths (unlinkRecord s id) := by
  have hlive : ∀ other, liveRecord? cutoff (Function.update s.records id none) other =
      liveRecord? cutoff s.records other := by
    intro other
    by_cases heq : other = id
    · rw [heq, liveRecord?_removed, hdead]
    · exact liveRecord?_of_ne none heq
  have hdead' : ∀ other, Dead cutoff s other → Dead cutoff (AttachmentCleanup.unlinkRecord s id) other := fun other =>
    Or.imp_right (hlive other).trans
  refine { h with
    due := fun other hdue => ?_
    covered := ?_
    listed := fun other hother => hdead' other (h.listed other hother)
    condemnedRecords := fun other hother => hdead' other (h.condemnedRecords other hother) }
  · rcases h.due other hdue with ⟨record, hrecord, hmedia⟩
    exact ⟨record, (hlive other).trans hrecord, hmedia⟩
  · refine h.covered.imp_right fun hcovered other record hrecord => ?_
    exact hcovered other record ((hlive other).symm.trans hrecord)

/-- Deleting a file takes nothing away when no live record names it and no registration has read it. -/
theorem Consistent.unlinkMedia (h : Consistent cutoff paths s) (hunnamed : Unnamed cutoff paths s.records path)
    (hread : ∀ registration ∈ s.registrations, registration.localPath ≠ path) :
    Consistent cutoff paths (unlinkMedia s path) := by
  have hmedia : ∀ other, other ≠ path → (s.media other).isSome →
      (Function.update s.media path none other).isSome := by
    intro other hne hother
    rw [Function.update_of_ne hne]
    exact hother
  refine { h with due := fun id hdue => ?_, deleted := fun deletion hdeletion => ?_, read := ?_ }
  · rcases h.due id hdue with ⟨record, hrecord, hfile⟩
    exact ⟨record, hrecord, hmedia _ (hunnamed id record hrecord) hfile⟩
  · rcases List.mem_append.mp hdeletion with hbefore | hlast
    · exact h.deleted deletion hbefore
    · rw [List.mem_singleton.mp hlast]
      exact hunnamed
  · intro registration hmem
    exact ⟨hmedia _ (hread registration hmem) (h.read registration hmem).1, (h.read registration hmem).2⟩

/-- A file that the clean-up goes for is deleted without loss when no registration crosses. -/
theorem Consistent.unlinkCondemned (h : Consistent cutoff paths s) {before : Phase} (hphase : s.phase = before)
    (hread : before.AllRead) (hcondemned : path ∈ before.condemnedMedia)
    (huncrossed : Uncrossed paths (.deleteMedia path) s) : Consistent cutoff paths (AttachmentCleanup.unlinkMedia s path) := by
  refine h.unlinkMedia ?_ huncrossed.1
  intro id record hlive hpath
  rcases h.covers hphase hread hlive with hrenewed | hactive
  · rcases liveRecord?_eq_some.mp hlive with ⟨file, hfile, hrecord, -⟩
    exact huncrossed.2 id hrenewed file record hfile hrecord hpath
  · rw [hpath] at hactive
    exact h.condemnedMedia path (hphase ▸ hcondemned) hactive

theorem Consistent.storeMediaBytes (h : Consistent cutoff paths s) (mtime : Nat) :
    Consistent cutoff paths (storeMediaBytes s path mtime) := by
  have hmedia : ∀ other, (s.media other).isSome → (Function.update s.media path (some mtime) other).isSome := by
    intro other hother
    by_cases heq : other = path
    · rw [heq, Function.update_self]
      rfl
    · rw [Function.update_of_ne heq]
      exact hother
  refine { h with due := fun id hdue => ?_, read := fun registration hmem => ?_ }
  · rcases h.due id hdue with ⟨record, hrecord, hfile⟩
    exact ⟨record, hrecord, hmedia _ hfile⟩
  · exact ⟨hmedia _ (h.read registration hmem).1, (h.read registration hmem).2⟩

theorem Consistent.readMedia (h : Consistent cutoff paths s) {localPath : String}
    (hfile : (s.media (paths.resolve localPath)).isSome) :
    Consistent cutoff paths (readMedia paths s id localPath) := by
  refine { h with read := fun registration hmem => ?_ }
  rcases List.mem_cons.mp hmem with rfl | hmem
  · exact ⟨hfile, paths.resolve_resolve localPath⟩
  · exact h.read registration hmem

theorem Consistent.replaceRecord (h : Consistent cutoff paths s) {registration : Registration} {now : Nat}
    (hread : registration ∈ s.registrations) (hnow : cutoff ≤ now) :
    Consistent cutoff paths (replaceRecord s registration now) := by
  have hdead : ∀ id, Dead cutoff s id → Dead cutoff (AttachmentCleanup.replaceRecord s registration now) id := by
    intro id hid
    by_cases heq : id = registration.attachmentId
    · rw [heq]
      exact .inl List.mem_cons_self
    · exact hid.imp (List.mem_cons_of_mem _) ((liveRecord?_of_ne _ heq).trans)
  refine { h with
    due := fun id hdue => ?_
    read := fun other hother => h.read other (List.mem_of_mem_erase hother)
    covered := h.covered.imp_right ?_
    listed := fun id hid => hdead id (h.listed id hid)
    condemnedRecords := fun id hid => hdead id (h.condemnedRecords id hid) }
  · by_cases heq : id = registration.attachmentId
    · rw [heq]
      refine ⟨_, liveRecord?_renewed s.records _ _ hnow, ?_⟩
      rw [(h.read registration hread).2]
      exact (h.read registration hread).1
    · rcases List.mem_cons.mp hdue with heq' | hdue
      · exact absurd heq' heq
      · rcases h.due id hdue with ⟨record, hrecord, hfile⟩
        exact ⟨record, (liveRecord?_of_ne _ heq).trans hrecord, hfile⟩
  · intro hcovered id record hlive
    by_cases heq : id = registration.attachmentId
    · rw [heq]
      exact .inl List.mem_cons_self
    · exact (hcovered id record ((liveRecord?_of_ne _ heq).symm.trans hlive)).imp_left (List.mem_cons_of_mem _)

/-- A step of which no deletion is crossed keeps all this. -/
theorem Consistent.step (h : Consistent cutoff paths s) {a : Action} {s' : Storage} (huncrossed : Uncrossed paths a s)
    (hstep : Step cutoff paths s a s') : Consistent cutoff paths s' := by
  cases hstep with
  | start names _ hnames => exact h.start hnames
  | collect id left hphase => exact h.collect hphase
  | collected hphase =>
    exact h.proceed hphase rfl (fun _ => .inl) (List.forall_mem_nil _)
  | deleteRecord id left hphase =>
    have hdead : Dead cutoff s id := h.condemnedRecords id (hphase ▸ List.mem_cons_self)
    exact (h.unlinkRecord (hdead.resolve_left huncrossed)).proceed hphase trivial
      (fun _ hother => .inr (List.mem_cons_of_mem _ hother)) (List.forall_mem_nil _)
  | skipRecord id left hphase =>
    exact h.proceed hphase trivial (fun _ hother => .inr (List.mem_cons_of_mem _ hother)) (List.forall_mem_nil _)
  | gather media hphase hmedia =>
    refine h.proceed hphase trivial (List.forall_mem_nil _) fun path hpath => .inr fun hactive => ?_
    have hremovable := List.mem_filter.mp ((hmedia path).mp hpath)
    exact List.count_eq_zero.mp (of_decide_eq_true hremovable.2).2 hactive
  | deleteMedia path left hphase _ =>
    exact (h.unlinkCondemned hphase trivial List.mem_cons_self huncrossed).proceed hphase trivial
      (List.forall_mem_nil _) fun _ hother => .inl (List.mem_cons_of_mem _ hother)
  | skipMedia path left hphase =>
    exact h.proceed hphase trivial (List.forall_mem_nil _) fun _ hother => .inl (List.mem_cons_of_mem _ hother)
  | list entries hphase _ => exact h.proceed hphase trivial (List.forall_mem_nil _) (List.forall_mem_nil _)
  | check path left hphase =>
    cases horphan : isOrphan cutoff s path with
    | false => exact h.proceed hphase trivial (List.forall_mem_nil _) (List.forall_mem_nil _)
    | true =>
      refine h.proceed hphase trivial (List.forall_mem_nil _) fun other hother => .inr ?_
      rw [List.mem_singleton.mp hother]
      unfold isOrphan at horphan
      split at horphan
      · cases horphan
      · exact (of_decide_eq_true horphan).1
  | deleteOrphan path left hphase _ =>
    exact (h.unlinkCondemned hphase trivial (List.mem_singleton_self _) huncrossed).proceed hphase trivial
      (List.forall_mem_nil _) (List.forall_mem_nil _)
  | skipOrphan path left hphase => exact h.proceed hphase trivial (List.forall_mem_nil _) (List.forall_mem_nil _)
  | finish hphase => exact h.proceed hphase trivial (List.forall_mem_nil _) (List.forall_mem_nil _)
  | storeMediaBytes path mtime _ => exact h.storeMediaBytes mtime
  | readMedia id localPath hfile => exact h.readMedia hfile
  | replaceRecord registration now hread hnow => exact h.replaceRecord hread hnow

end

/-- A clean-up of which no deletion is crossed by a registration spares the live attachments. -/
theorem spared_of_uncrossed {cutoff : Nat} {paths : MediaPaths} {s : Storage}
    (h : ((system cutoff paths).given (Uncrossed paths)).Reachable s) : Spared cutoff paths s := by
  have hinvariant : ((system cutoff paths).given (Uncrossed paths)).Invariant (Consistent cutoff paths) :=
    { start := fun _ hs => Begins.consistent hs
      step := fun _ _ _ hs hstep => hs.step hstep.1 hstep.2 }
  have hs := hinvariant.reachable h
  exact ⟨hs.due, hs.deleted⟩

def plainPaths : MediaPaths where
  resolve path := path
  resolve_resolve _ := rfl
  isManaged path := path = "/incoming_media/att_1.png"

/-- One attachment of long ago. -/
def aged : Storage where
  records := Function.update (fun _ => none) "att_1"
    (some { record := some { localPath := "/incoming_media/att_1.png", createdAt := some 1 }, mtime := 1 })
  media := Function.update (fun _ => none) "/incoming_media/att_1.png" (some 1)
  phase := .waiting
  activeMediaPaths := []
  expiredRecords := []
  staleRecords := []
  registrations := []
  due := []
  renewed := []
  deleted := []

/-- The clean-up has listed the attachment as expired. -/
def listed : Storage :=
  { aged with
    phase := .pruningRecords ["att_1"]
    expiredRecords := [("att_1", { localPath := "/incoming_media/att_1.png", createdAt := some 1 })] }

theorem listed_reachable : ((system 10 plainPaths).given (Uncrossed plainPaths)).Reachable listed := by
  have hstart : (system 10 plainPaths).start aged :=
    { phase := rfl, expiredRecords := rfl, staleRecords := rfl, registrations := rfl, deleted := rfl,
      due := List.forall_mem_nil _ }
  have hnames : ∀ id, (aged.records id).isSome → id ∈ ["att_1"] := by
    intro id hid
    by_cases heq : id = "att_1"
    · rw [heq]
      exact List.mem_cons_self
    · simp [aged, heq] at hid
  have haged : ((system 10 plainPaths).given (Uncrossed plainPaths)).Reachable aged := .start hstart
  have hstarted := haged.next .other ⟨trivial, Step.start ["att_1"] rfl hnames⟩
  have hcollected := hstarted.next .other ⟨trivial, Step.collect "att_1" [] rfl⟩
  exact hcollected.next .other ⟨trivial, Step.collected rfl⟩

/-- The clean-up has deleted the expired record. -/
theorem spared_expired : Spared 10 plainPaths { unlinkRecord listed "att_1" with phase := .pruningRecords [] } :=
  spared_of_uncrossed (listed_reachable.next (.deleteRecord "att_1") ⟨List.not_mem_nil, Step.deleteRecord "att_1" [] rfl⟩)

/-- The attachment was registered again while it was listed as expired. -/
def registeredAgain : Storage :=
  replaceRecord
    (readMedia plainPaths (storeMediaBytes listed "/incoming_media/att_1.png" 50) "att_1" "/incoming_media/att_1.png")
    { attachmentId := "att_1", localPath := "/incoming_media/att_1.png" } 50

/-- The clean-up deletes the record of an attachment that was registered again after its old record was read. -/
theorem cleanup_deletes_renewed_record :
    (system 10 plainPaths).Reachable { unlinkRecord registeredAgain "att_1" with phase := .pruningRecords [] } ∧
      ¬ Spared 10 plainPaths { unlinkRecord registeredAgain "att_1" with phase := .pruningRecords [] } := by
  constructor
  · have hstored := listed_reachable.of_given.next .other
      (Step.storeMediaBytes "/incoming_media/att_1.png" 50 (by decide))
    have hread := hstored.next .other (Step.readMedia "att_1" "/incoming_media/att_1.png" rfl)
    have hagain := hread.next .other
      (Step.replaceRecord { attachmentId := "att_1", localPath := "/incoming_media/att_1.png" } 50 List.mem_cons_self
        (by decide))
    exact hagain.next (.deleteRecord "att_1") (Step.deleteRecord "att_1" [] rfl)
  · intro hspared
    rcases hspared.due "att_1" List.mem_cons_self with ⟨record, hrecord, -⟩
    have hgone : liveRecord? 10 (Function.update registeredAgain.records "att_1" none) "att_1" = none :=
      liveRecord?_removed registeredAgain.records "att_1"
    cases hgone.symm.trans hrecord

end MindRoom.AttachmentCleanup
