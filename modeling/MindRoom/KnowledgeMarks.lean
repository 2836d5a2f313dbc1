import MindRoom.KnowledgeIndexState
import MindRoom.Systems

/-! # Stale marks against publications

The filesystem watcher marks an index stale without the lock a refresh holds. A mark reads the
whole state document and later writes it back, so a publication that lands in between is undone,
while its sweep has already deleted the collection the document names again.
-/

namespace MindRoom

/-- `_mark_knowledge_source_changed` of the watcher, after it loaded the document. -/
structure WatcherMark where
  settings : IndexingSettings
  reason : String
  loaded : Option PublishedIndexState
  /-- How many publications had been written when it loaded the document. -/
  readAt : Nat
deriving DecidableEq

/-- Where the one refresh under the source-root lock stands. -/
inductive RefreshPhase where
  | idle
  /-- The mark that it runs has loaded the document. -/
  | starting (settings : IndexingSettings) (loaded : Option PublishedIndexState)
  | working (settings : IndexingSettings)
  /-- The publication is written, and its sweep is due. -/
  | published (settings : IndexingSettings) (collection : String)
  | succeeding (loaded : Option PublishedIndexState)
  /-- The mark that it failed has loaded the document once. -/
  | failing (settings : IndexingSettings) (error : String) (current : Option PublishedIndexState)
  | failingAgain (settings : IndexingSettings) (error : String) (current again : Option PublishedIndexState)
deriving DecidableEq

structure IndexWorld where
  /-- The state document. -/
  file : Option PublishedIndexState := none
  /-- The publications written so far, newest first. -/
  publications : List CandidatePublication := []
  /-- The collections in the vector store. -/
  collections : List String := []
  marks : List WatcherMark := []
  phase : RefreshPhase := .idle
deriving DecidableEq

inductive IndexLabel where
  | markReads (settings : IndexingSettings) (reason : String)
  | markWrites (mark : WatcherMark) (now : String)
  /-- The process of the mark is gone, or its write failed. -/
  | markLost (mark : WatcherMark)
  | refreshStarts (settings : IndexingSettings)
  | runningWritten (now : String)
  /-- A candidate collection is created. -/
  | candidateCreated (name : String)
  | publicationWritten (publication : CandidatePublication) (now : String)
  /-- The superseded collections are deleted, save those whose deletion fails. -/
  | swept (kept : List String)
  | succeededReads
  | succeededWritten (now : String)
  | failedReads (error : String)
  | failedReadsAgain
  | failedWritten (now : String)
  /-- The refresh ends, however it does: the lock is free again. -/
  | refreshEnds
deriving DecidableEq

namespace IndexWorld

def save (state : PublishedIndexState) (w : IndexWorld) : IndexWorld := { w with file := some state }

def enter (phase : RefreshPhase) (w : IndexWorld) : IndexWorld := { w with phase := phase }

/-- The superseded collections are deleted, but those whose deletion fails. -/
def sweep (defaultCollection collection : String) (kept : List String) (w : IndexWorld) : IndexWorld :=
  let gone := supersededCollections defaultCollection [collection] false w.collections
  { w with collections := w.collections.filter fun name => name ∉ gone ∨ name ∈ kept }

end IndexWorld

open IndexWorld

variable (defaultCollection : String)

/-- One file read, one file write or one effect on the vector store. -/
def indexStep : IndexLabel → IndexWorld → Option IndexWorld
  | .markReads settings reason, w =>
    some { w with marks := ⟨settings, reason, loadPublishedIndexState w.file, w.publications.length⟩ :: w.marks }
  | .markWrites mark now, w =>
    if mark ∈ w.marks then
      some (save (markPublishedIndexStale mark.settings mark.reason .pending now mark.loaded)
        { w with marks := w.marks.erase mark })
    else none
  | .markLost mark, w => some { w with marks := w.marks.erase mark }
  | .refreshStarts settings, w =>
    if w.phase = .idle then some (enter (.starting settings (loadPublishedIndexState w.file)) w) else none
  | .runningWritten now, w =>
    match w.phase with
    | .starting settings loaded =>
      some (enter (.working settings) (save (markPublishedIndexRefreshRunning settings now loaded) w))
    | _ => none
  | .candidateCreated name, w =>
    match w.phase with
    | .working _ => some { w with collections := name :: w.collections }
    | _ => none
  | .publicationWritten publication now, w =>
    match w.phase with
    | .working settings =>
      if publication.settings = settings ∧ publication.collection ∈ w.collections then
        some (enter (.published settings publication.collection) (save (publication.state now)
          { w with publications := publication :: w.publications }))
      else none
    | _ => none
  | .swept kept, w =>
    match w.phase with
    | .published settings collection =>
      some (enter (.working settings) (sweep defaultCollection collection kept w))
    | _ => none
  | .succeededReads, w =>
    match w.phase with
    | .working _ => some (enter (.succeeding (loadPublishedIndexState w.file)) w)
    | _ => none
  | .succeededWritten now, w =>
    match w.phase with
    | .succeeding loaded =>
      match markPublishedIndexRefreshSucceeded now loaded with
      | some state => some (enter .idle (save state w))
      | none => some (enter .idle w)
    | _ => none
  | .failedReads error, w =>
    match w.phase with
    | .working settings | .published settings _ =>
      some (enter (.failing settings error (loadPublishedIndexState w.file)) w)
    | _ => none
  | .failedReadsAgain, w =>
    match w.phase with
    | .failing settings error current =>
      some (enter (.failingAgain settings error current (loadPublishedIndexState w.file)) w)
    | _ => none
  | .failedWritten now, w =>
    match w.phase with
    | .failingAgain settings error current again =>
      some (enter .idle (save (markPublishedIndexRefreshFailed settings error now current again) w))
    | _ => none
  | .refreshEnds, w => some (enter .idle w)

/-- One knowledge base, from the start. -/
def indexSystem : System IndexWorld IndexLabel where
  start w := w = {}
  step label w w' := indexStep defaultCollection label w = some w'

/-- The state file is the last publication's, up to the marks, and a complete one names a collection
that is there. -/
structure Backed (w : IndexWorld) : Prop where
  tells : Tells w.publications w.file
  there : ∀ state, w.file = some state → state.status = .complete →
    ∃ c ∈ w.collections, state.collection = some c

/-- A mark of the watcher is written only if no publication was written since it loaded the
document. -/
def NoPublicationSinceRead : IndexLabel → IndexWorld → Prop
  | .markWrites mark _, w => mark.readAt = w.publications.length
  | _, _ => True

instance (label : IndexLabel) (w : IndexWorld) : Decidable (NoPublicationSinceRead label w) := by
  cases label <;> unfold NoPublicationSinceRead <;> infer_instance

/-! ## What holds in every state -/

/-- What the refresh holds of the document is what the document says. -/
def RefreshPhase.Fits (publications : List CandidatePublication) : RefreshPhase → Prop
  | .idle | .working _ => True
  | .starting _ loaded | .succeeding loaded | .failing _ _ loaded => Tells publications loaded
  | .failingAgain _ _ current again => Tells publications current ∧ Tells publications again
  | .published _ collection => ∀ p ∈ publications.head?, p.collection = collection

/-- A mark that can still be written loaded what the document says. -/
def WatcherMark.Fits (mark : WatcherMark) (publications : List CandidatePublication) : Prop :=
  mark.readAt ≤ publications.length ∧ (mark.readAt = publications.length → Tells publications mark.loaded)

structure Coherent (w : IndexWorld) : Prop where
  file : Tells w.publications w.file
  phase : w.phase.Fits w.publications
  marks : ∀ mark ∈ w.marks, mark.Fits w.publications
  live : ∀ p ∈ w.publications.head?, p.collection ∈ w.collections

variable {defaultCollection} {w w' : IndexWorld} {label : IndexLabel} {state : PublishedIndexState}
  {phase : RefreshPhase}

theorem Coherent.backed (h : Coherent w) : Backed w where
  tells := h.file
  there state hfile hcomplete := by
    have htells := h.file
    have hlive := h.live
    cases hpublications : w.publications with
    | nil =>
      rw [hpublications] at htells
      exact absurd hcomplete (htells state hfile).status
    | cons publication older =>
      rw [hpublications] at htells hlive
      rcases htells with ⟨s, hs, hrecords⟩
      obtain rfl : state = s := Option.mem_unique hfile hs
      exact ⟨publication.collection, hlive publication rfl, hrecords.collection⟩

theorem Coherent.enter (h : Coherent w) (hphase : phase.Fits w.publications) : Coherent (enter phase w) :=
  ⟨h.file, hphase, h.marks, h.live⟩

/-- A document that says the same may be written at any time. -/
theorem Coherent.save (h : Coherent w) (hstate : Tells w.publications (some state)) : Coherent (save state w) :=
  ⟨hstate, h.phase, h.marks, h.live⟩

theorem Coherent.erase (h : Coherent w) (mark : WatcherMark) : Coherent { w with marks := w.marks.erase mark } :=
  ⟨h.file, h.phase, fun m hm => h.marks m (List.mem_of_mem_erase hm), h.live⟩

theorem Coherent.markReads (h : Coherent w) (settings : IndexingSettings) (reason : String) : Coherent { w with marks :=
      ⟨settings, reason, loadPublishedIndexState w.file, w.publications.length⟩ :: w.marks } := by
  refine ⟨h.file, h.phase, ?_, h.live⟩
  intro mark hmark
  rcases List.mem_cons.mp hmark with rfl | hmark
  · exact ⟨le_refl _, fun _ => h.file.load⟩
  · exact h.marks mark hmark

/-- Every mark that is in flight when a publication is written is late from then on. -/
theorem Coherent.publish (h : Coherent w) {publication : CandidatePublication} {now : String}
    {settings : IndexingSettings} (hthere : publication.collection ∈ w.collections) :
    Coherent (IndexWorld.enter (.published settings publication.collection)
      (IndexWorld.save (publication.state now) { w with publications := publication :: w.publications })) where
  file := ⟨_, rfl, records_state⟩
  phase := by
    rintro p ⟨⟩
    rfl
  marks mark hmark := by
    have hlate : mark.readAt ≤ w.publications.length := (h.marks mark hmark).1
    refine ⟨Nat.le_succ_of_le hlate, fun heq => ?_⟩
    have heq : mark.readAt = w.publications.length + 1 := heq
    omega
  live := by
    rintro p ⟨⟩
    exact hthere

/-- The sweep spares the collection of the publication it follows. -/
theorem Coherent.sweep (h : Coherent w) {settings : IndexingSettings} {collection : String}
    (hphase : w.phase = .published settings collection) (kept : List String) :
    Coherent (IndexWorld.enter (.working settings) (IndexWorld.sweep defaultCollection collection kept w)) := by
  have hfits := h.phase
  rw [hphase] at hfits
  refine ⟨h.file, trivial, h.marks, ?_⟩
  intro p hp
  have hcollection : p.collection = collection := hfits p hp
  apply List.mem_filter.mpr
  refine ⟨h.live p hp, ?_⟩
  simp [supersededCollections, hcollection]

theorem coherent_step (h : Coherent w) (hread : NoPublicationSinceRead label w)
    (hstep : indexStep defaultCollection label w = some w') : Coherent w' := by
  have hphase := h.phase
  cases label with
  | markReads settings reason =>
    cases hstep
    exact h.markReads settings reason
  | markWrites mark now =>
    simp only [indexStep, Option.ite_none_right_eq_some] at hstep
    rcases hstep with ⟨hmark, hstep⟩
    cases hstep
    exact (h.erase mark).save (((h.marks mark hmark).2 hread).stale mark.reason)
  | markLost mark =>
    cases hstep
    exact h.erase mark
  | refreshStarts settings =>
    simp only [indexStep, Option.ite_none_right_eq_some] at hstep
    obtain rfl := Option.some.inj hstep.2
    exact h.enter h.file.load
  | runningWritten now =>
    cases hp : w.phase with
    | starting settings loaded =>
      rw [hp] at hphase
      simp only [indexStep, hp] at hstep
      cases hstep
      exact (h.save (Tells.running hphase)).enter trivial
    | _ => simp [indexStep, hp] at hstep
  | candidateCreated name =>
    cases hp : w.phase with
    | working settings =>
      simp only [indexStep, hp] at hstep
      cases hstep
      exact ⟨h.file, trivial, h.marks, fun p hp => List.mem_cons_of_mem _ (h.live p hp)⟩
    | _ => simp [indexStep, hp] at hstep
  | publicationWritten publication now =>
    cases hp : w.phase with
    | working settings =>
      simp only [indexStep, hp, Option.ite_none_right_eq_some] at hstep
      rcases hstep with ⟨hthere, hstep⟩
      cases hstep
      exact h.publish hthere.2
    | _ => simp [indexStep, hp] at hstep
  | swept kept =>
    cases hp : w.phase with
    | published settings collection =>
      simp only [indexStep, hp] at hstep
      cases hstep
      exact h.sweep hp kept
    | _ => simp [indexStep, hp] at hstep
  | succeededReads =>
    cases hp : w.phase with
    | working settings =>
      simp only [indexStep, hp] at hstep
      cases hstep
      exact h.enter h.file.load
    | _ => simp [indexStep, hp] at hstep
  | succeededWritten now =>
    cases hp : w.phase with
    | succeeding loaded =>
      rw [hp] at hphase
      simp only [indexStep, hp] at hstep
      cases hsaved : markPublishedIndexRefreshSucceeded now loaded with
      | none =>
        rw [hsaved] at hstep
        cases hstep
        exact h.enter trivial
      | some state =>
        rw [hsaved] at hstep
        cases hstep
        exact (h.save (Tells.succeeded hphase hsaved)).enter trivial
    | _ => simp [indexStep, hp] at hstep
  | failedReads error =>
    cases hp : w.phase with
    | working settings | published settings _ =>
      simp only [indexStep, hp] at hstep
      cases hstep
      exact h.enter h.file.load
    | _ => simp [indexStep, hp] at hstep
  | failedReadsAgain =>
    cases hp : w.phase with
    | failing settings error current =>
      rw [hp] at hphase
      simp only [indexStep, hp] at hstep
      cases hstep
      exact h.enter ⟨hphase, h.file.load⟩
    | _ => simp [indexStep, hp] at hstep
  | failedWritten now =>
    cases hp : w.phase with
    | failingAgain settings error current again =>
      rw [hp] at hphase
      simp only [indexStep, hp] at hstep
      cases hstep
      exact (h.save (Tells.failed hphase.1 hphase.2)).enter trivial
    | _ => simp [indexStep, hp] at hstep
  | refreshEnds =>
    cases hstep
    exact h.enter trivial

theorem coherent_invariant : ((indexSystem defaultCollection).given NoPublicationSinceRead).Invariant Coherent where
  start := by
    rintro w rfl
    refine ⟨fun s hs => ?_, trivial, fun mark hmark => ?_, fun p hp => ?_⟩
    · cases hs
    · cases hmark
    · cases hp
  step label w w' h hstep := coherent_step h hstep.1 hstep.2

/-- While no mark of the watcher outlives a publication, the state file is the last publication's and
names a collection that is there. -/
theorem state_file_backed (h : ((indexSystem defaultCollection).given NoPublicationSinceRead).Reachable w) :
    Backed w :=
  (coherent_invariant.reachable h).backed

namespace LateMark

def first : CandidatePublication := ⟨plainSettings, "k_candidate_a", 1, "d1", none, by decide, by decide, by decide⟩

def second : CandidatePublication := ⟨plainSettings, "k_candidate_b", 2, "d2", none, by decide, by decide, by decide⟩

/-- The watcher's mark, which loaded the document of the first publication. -/
def mark : WatcherMark := ⟨plainSettings, "filesystem_watch", loadPublishedIndexState (some (first.state "t")), 1⟩

/-- One publication, a mark that loads it, and a second publication with its sweep. -/
def overtaking : List IndexLabel :=
  [.refreshStarts plainSettings, .runningWritten "t", .candidateCreated "k_candidate_a",
    .publicationWritten first "t", .swept [], .refreshEnds, .markReads plainSettings "filesystem_watch",
    .refreshStarts plainSettings, .runningWritten "t", .candidateCreated "k_candidate_b",
    .publicationWritten second "t", .swept []]

/-- The mark is written after the second publication, and names the collection that was deleted. -/
theorem not_backed : ∃ w, (indexSystem "k").Reachable w ∧ ¬ Backed w := by
  have hrun : (System.follow (fun _ _ => True) (indexStep "k") (overtaking ++ [.markWrites mark "t"]) {}).any
      (fun w => w.file.any fun state =>
        state.status = .complete ∧ ∀ c ∈ w.collections, state.collection ≠ some c) := by decide +kernel
  rw [Option.any_eq_true] at hrun
  rcases hrun with ⟨w, hw, hfile⟩
  rw [Option.any_eq_true] at hfile
  rcases hfile with ⟨state, hstate, hgone⟩
  rcases of_decide_eq_true hgone with ⟨hcomplete, hgone⟩
  have hreachable : (indexSystem "k").Reachable w :=
    ((System.Reachable.start rfl).run (System.Run.of_follow (fun _ _ _ h => h) hw)).of_given
  refine ⟨w, hreachable, ?_⟩
  intro hbacked
  rcases hbacked.there state hstate hcomplete with ⟨c, hc, hnamed⟩
  exact hgone c hc hnamed

/-- Nothing is lost when the mark is written before the second publication. -/
theorem timely_backed : ∃ w, w.publications = [second, first] ∧ w.marks = [] ∧ Backed w := by
  have hrun : (System.follow NoPublicationSinceRead (indexStep "k")
      (overtaking.take 7 ++ .markWrites mark "t" :: overtaking.drop 7) {}).any
      (fun w => w.publications = [second, first] ∧ w.marks = []) := by decide +kernel
  rw [Option.any_eq_true] at hrun
  rcases hrun with ⟨w, hw, hboth⟩
  rcases of_decide_eq_true hboth with ⟨hpublications, hmarks⟩
  refine ⟨w, hpublications, hmarks, ?_⟩
  exact state_file_backed ((System.Reachable.start rfl).run (System.Run.of_follow (fun _ _ _ h => h) hw))

end LateMark

end MindRoom
