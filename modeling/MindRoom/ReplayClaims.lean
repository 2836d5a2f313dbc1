import MindRoom.ReplayStore

/-! # The claims a replay store holds

An event id in progress and a thread key under a reservation are the claims a delivery takes and
must give back. Every call is described by the claims it can add to the store and the ones it
takes away.
-/

namespace MindRoom.ReplayStore

variable {before after disk : ReplayStore} {scope eventId threadKey token : String}

/-- The event id is claimed in progress until the time given. -/
def InProgress (store : ReplayStore) (scope eventId : String) (expiresAt : Int) : Prop :=
  store.events.record? scope eventId = some ⟨.inProgress, expiresAt⟩

def Reserved (store : ReplayStore) (scope threadKey reservation : String) : Prop :=
  ∃ record, store.threads.record? scope threadKey = some record ∧
    record.reservation = some reservation

/-- Every claim in `after` was there before, except for those listed. -/
structure LeavesOnly (before after : ReplayStore) (event : String → String → Prop)
    (thread : String → String → String → Prop) : Prop where
  events : ∀ s i e, after.InProgress s i e → before.InProgress s i e ∨ event s i
  threads : ∀ s k t, after.Reserved s k t → before.Reserved s k t ∨ thread s k t

def LeavesNoClaim (before after : ReplayStore) : Prop :=
  LeavesOnly before after (fun _ _ => False) fun _ _ _ => False

variable {E E' : String → String → Prop} {T T' : String → String → String → Prop}

theorem LeavesOnly.refl : LeavesOnly disk disk E T :=
  ⟨fun _ _ _ h => .inl h, fun _ _ _ h => .inl h⟩

theorem LeavesOnly.mono (h : LeavesOnly before after E T) (hE : ∀ s i, E s i → E' s i)
    (hT : ∀ s k t, T s k t → T' s k t) : LeavesOnly before after E' T' :=
  ⟨fun s i e hin => (h.events s i e hin).imp_right (hE s i),
    fun s k t hres => (h.threads s k t hres).imp_right (hT s k t)⟩

/-- A further change of the store, checked against the claims left so far. -/
theorem LeavesOnly.then {next : ReplayStore} (h : LeavesOnly before after E T)
    (hevents : ∀ s i e, next.InProgress s i e → (after.InProgress s i e ∧ (E s i → E' s i)) ∨ E' s i)
    (hthreads : ∀ s k t, next.Reserved s k t → (after.Reserved s k t ∧ (T s k t → T' s k t)) ∨ T' s k t) :
    LeavesOnly before next E' T' where
  events s i e hin := by
    rcases hevents s i e hin with ⟨hafter, himp⟩ | hE
    · exact (h.events s i e hafter).imp_right himp
    · exact .inr hE
  threads s k t hres := by
    rcases hthreads s k t hres with ⟨hafter, himp⟩ | hT
    · exact (h.threads s k t hafter).imp_right himp
    · exact .inr hT

theorem InProgress.of_prune {now e : Int} {s i : String}
    (h : (disk.pruneExpired now).InProgress s i e) : disk.InProgress s i e := by
  unfold InProgress pruneExpired at h
  rw [Mapping.Section.record?_prune, Option.filter_eq_some_iff] at h
  exact h.1

theorem Reserved.of_prune {now : Int} {s k t : String}
    (h : (disk.pruneExpired now).Reserved s k t) : disk.Reserved s k t := by
  rcases h with ⟨record, hrecord, hheld⟩
  unfold pruneExpired at hrecord
  rw [Mapping.Section.record?_prune, Option.filter_eq_some_iff] at hrecord
  exact ⟨record, hrecord.1, hheld⟩

theorem LeavesOnly.prune {now : Int} (h : LeavesOnly before after E T) :
    LeavesOnly before (after.pruneExpired now) E T :=
  h.then (fun _ _ _ hin => .inl ⟨hin.of_prune, id⟩) fun _ _ _ hres => .inl ⟨hres.of_prune, id⟩

variable {now ttl : Int} {roomId : String}

theorem LeavesOnly.claimNonce {nonce : String} (h : LeavesOnly before after E T) :
    LeavesOnly before (after.claimNonce scope nonce now ttl).2 E T := by
  unfold ReplayStore.claimNonce
  dsimp only
  split
  · exact h
  · exact ⟨h.prune.events, h.prune.threads⟩

/-- A claimed event id is the one claim more. -/
theorem LeavesOnly.claimEventId (h : LeavesOnly before after E T) :
    LeavesOnly before (after.claimEventId scope eventId now ttl).2
      (fun s i => E s i ∨ (s = scope ∧ i = eventId)) T := by
  have hsame := @LeavesOnly.mono _ _ _ (fun s i => E s i ∨ (s = scope ∧ i = eventId)) _ T h
    (fun _ _ hE => .inl hE) fun _ _ _ hT => hT
  unfold ReplayStore.claimEventId
  dsimp only
  split
  · exact hsame
  · exact hsame
  · refine (@LeavesOnly.prune _ _ _ _ now hsame).then ?_ fun _ _ _ hres => .inl ⟨hres, id⟩
    intro s i e hin
    unfold InProgress at hin
    rw [Mapping.Section.record?_put] at hin
    by_cases hself : scope = s ∧ eventId = i
    · exact .inr (.inr ⟨hself.1.symm, hself.2.symm⟩)
    · rw [if_neg hself] at hin
      exact .inl ⟨hin, id⟩

/-- A reserved thread key is the one claim more. -/
theorem LeavesOnly.claimThreadKey
    (h : LeavesOnly before after E T) :
    LeavesOnly before (after.claimThreadKey scope threadKey roomId token now ttl).2 E
      (fun s k t => T s k t ∨ (s = scope ∧ k = threadKey ∧ t = token)) := by
  have hsame := @LeavesOnly.mono _ _ _ E _
    (fun s k t => T s k t ∨ (s = scope ∧ k = threadKey ∧ t = token)) h
    (fun _ _ hE => hE) fun _ _ _ hT => .inl hT
  have hput : LeavesOnly before { after.pruneExpired now with
      threads := (after.pruneExpired now).threads.put scope threadKey
        ⟨roomId, none, some token, now + ttl, by simp⟩ } E
      (fun s k t => T s k t ∨ (s = scope ∧ k = threadKey ∧ t = token)) := by
    refine (@LeavesOnly.prune _ _ _ _ now hsame).then (fun _ _ _ hin => .inl ⟨hin, id⟩) ?_
    rintro s k t ⟨record, hrecord, hheld⟩
    rw [Mapping.Section.record?_put] at hrecord
    by_cases hself : scope = s ∧ threadKey = k
    · rw [if_pos hself, Option.some.injEq] at hrecord
      subst hrecord
      exact .inr (.inr ⟨hself.1.symm, hself.2.symm, (Option.some.inj hheld).symm⟩)
    · rw [if_neg hself] at hrecord
      exact .inl ⟨⟨record, hrecord, hheld⟩, id⟩
  unfold ReplayStore.claimThreadKey
  dsimp only
  split
  · split
    · split
      · exact hsame
      · exact hsame
    · exact hput
  · exact hput

/-- A claim that reserved nothing left the file alone. -/
theorem claimThreadKey_of_ne_fresh
    (h : (disk.claimThreadKey scope threadKey roomId token now ttl).1.2.2 = none) :
    (disk.claimThreadKey scope threadKey roomId token now ttl).2 = disk := by
  unfold ReplayStore.claimThreadKey at h ⊢
  dsimp only at h ⊢
  split at h
  · split at h
    · split at h <;> simp_all
    · cases h
  · cases h

/-- Releasing an event id takes it off the list. -/
theorem LeavesOnly.releaseEventId
    (h : LeavesOnly before after (fun s i => E s i ∨ (s = scope ∧ i = eventId)) T) :
    LeavesOnly before (after.releaseEventId scope eventId) E T := by
  refine h.then ?_ fun _ _ _ hres => .inl ⟨hres, id⟩
  intro s i e hin
  unfold InProgress ReplayStore.releaseEventId at hin
  rw [Mapping.Section.record?_drop] at hin
  by_cases hself : scope = s ∧ eventId = i
  · rw [if_pos hself] at hin
    cases hin
  · rw [if_neg hself] at hin
    refine .inl ⟨hin, ?_⟩
    rintro (hE | ⟨rfl, rfl⟩)
    · exact hE
    · exact absurd ⟨rfl, rfl⟩ hself

/-- Releasing a reservation takes it off the list. -/
theorem LeavesOnly.releaseThreadKey
    (h : LeavesOnly before after E fun s k t =>
      T s k t ∨ (s = scope ∧ k = threadKey ∧ t = token)) :
    LeavesOnly before (after.releaseThreadKey scope threadKey token) E T := by
  refine h.then ?_ ?_
  · intro s i e hin
    refine .inl ⟨?_, id⟩
    unfold InProgress ReplayStore.releaseThreadKey at hin
    unfold InProgress
    split at hin
    · split at hin <;> exact hin
    · exact hin
  · rintro s k t ⟨record, hrecord, hheld⟩
    left
    have hkept : after.threads.record? s k = some record ∧
        ¬ (s = scope ∧ k = threadKey ∧ t = token) := by
      unfold ReplayStore.releaseThreadKey at hrecord
      cases hthread : after.threads.record? scope threadKey with
      | none =>
        simp only [hthread] at hrecord
        refine ⟨hrecord, ?_⟩
        rintro ⟨rfl, rfl, rfl⟩
        rw [hthread] at hrecord
        cases hrecord
      | some held =>
        simp only [hthread] at hrecord
        by_cases hown : held.threadEventId = none ∧ held.reservation = some token
        · rw [if_pos hown] at hrecord
          dsimp only at hrecord
          rw [Mapping.Section.record?_drop] at hrecord
          by_cases hself : scope = s ∧ threadKey = k
          · rw [if_pos hself] at hrecord
            cases hrecord
          · rw [if_neg hself] at hrecord
            refine ⟨hrecord, ?_⟩
            rintro ⟨rfl, rfl, -⟩
            exact hself ⟨rfl, rfl⟩
        · rw [if_neg hown] at hrecord
          refine ⟨hrecord, ?_⟩
          rintro ⟨rfl, rfl, rfl⟩
          -- a record with a reservation is not bound, so its own token releases it
          rw [hthread, Option.some.injEq] at hrecord
          subst hrecord
          have hholder := held.holder
          rw [hheld] at hholder
          cases hroot : held.threadEventId with
          | none => exact hown ⟨hroot, hheld⟩
          | some root =>
            rw [hroot] at hholder
            exact hholder rfl
    refine ⟨⟨record, hkept.1, hheld⟩, ?_⟩
    rintro (hT | hself)
    · exact hT
    · exact absurd hself hkept.2

/-! ## When a claim is granted -/

def NonceFree (store : ReplayStore) (scope nonce : String) (now : Int) : Prop :=
  (store.pruneExpired now).nonces.record? scope nonce = none

def EventFree (store : ReplayStore) (scope eventId : String) (now : Int) : Prop :=
  (store.pruneExpired now).events.record? scope eventId = none

/-- Another delivery is opening the thread of the key in the room. -/
def ThreadPending (store : ReplayStore) (scope threadKey roomId : String) (now : Int) : Prop :=
  ∃ record, (store.pruneExpired now).threads.record? scope threadKey = some record ∧
    record.roomId = roomId ∧ record.threadEventId = none

theorem claimEventId_eq_fresh :
    (disk.claimEventId scope eventId now ttl).1 = .fresh ↔ disk.EventFree scope eventId now := by
  unfold ReplayStore.claimEventId EventFree
  dsimp only
  split <;> simp_all

/-- A claim that is not granted leaves the file alone. -/
theorem claimEventId_of_not_free (h : ¬ disk.EventFree scope eventId now) :
    (disk.claimEventId scope eventId now ttl).2 = disk := by
  unfold EventFree at h
  unfold ReplayStore.claimEventId
  dsimp only
  split
  · rfl
  · rfl
  · next hnone => exact absurd hnone h

theorem claimThreadKey_eq_pending : (disk.claimThreadKey scope threadKey roomId token now ttl).1.1 = .pending ↔
      disk.ThreadPending scope threadKey roomId now := by
  unfold ReplayStore.claimThreadKey ThreadPending
  dsimp only
  split
  · next record hrecord =>
    split
    · next hroom =>
      split
      · next root hroot =>
        constructor
        · intro h
          cases h
        · rintro ⟨record', hrecord', -, hnone⟩
          rw [hrecord, Option.some.injEq] at hrecord'
          subst hrecord'
          rw [hroot] at hnone
          cases hnone
      · next hnone =>
        exact ⟨fun _ => ⟨record, hrecord, hroom, hnone⟩, fun _ => rfl⟩
    · next hroom =>
      constructor
      · intro h
        cases h
      · rintro ⟨record', hrecord', hroom', -⟩
        rw [hrecord, Option.some.injEq] at hrecord'
        subst hrecord'
        exact absurd hroom' hroom
  · next hnone =>
    constructor
    · intro h
      cases h
    · rintro ⟨record', hrecord', -⟩
      rw [hnone] at hrecord'
      cases hrecord'

/-- Only a fresh claim carries a reservation, and it is the token of the call. -/
theorem claimThreadKey_reservation : (disk.claimThreadKey scope threadKey roomId token now ttl).1.2.2 = none ∨
      (disk.claimThreadKey scope threadKey roomId token now ttl).1.2.2 = some token := by
  unfold ReplayStore.claimThreadKey
  dsimp only
  split
  · split
    · split <;> exact .inl rfl
    · exact .inr rfl
  · exact .inr rfl

/-- A claim that is refused as pending holds nothing. -/
theorem claimThreadKey_of_pending
    (h : (disk.claimThreadKey scope threadKey roomId token now ttl).1.1 = .pending) :
    (disk.claimThreadKey scope threadKey roomId token now ttl).1.2.2 = none := by
  unfold ReplayStore.claimThreadKey at h ⊢
  dsimp only at h ⊢
  split at h
  · split at h
    · split at h <;> simp_all
    · cases h
  · cases h

/-- Claiming a nonce prunes the file, if anything. -/
theorem events_claimNonce {nonce : String} (s i : String) :
    ((disk.claimNonce scope nonce now ttl).2.pruneExpired now).events.record? s i =
      (disk.pruneExpired now).events.record? s i := by
  unfold ReplayStore.claimNonce
  dsimp only
  split
  · rfl
  · unfold pruneExpired
    simp [Option.filter_filter]

theorem threads_claimNonce {nonce : String} (s k : String) :
    ((disk.claimNonce scope nonce now ttl).2.pruneExpired now).threads.record? s k =
      (disk.pruneExpired now).threads.record? s k := by
  unfold ReplayStore.claimNonce
  dsimp only
  split
  · rfl
  · unfold pruneExpired
    simp [Option.filter_filter]

theorem threads_claimEventId (s k : String) :
    ((disk.claimEventId scope eventId now ttl).2.pruneExpired now).threads.record? s k =
      (disk.pruneExpired now).threads.record? s k := by
  unfold ReplayStore.claimEventId
  dsimp only
  split
  · rfl
  · rfl
  · unfold pruneExpired
    simp [Option.filter_filter]

theorem inProgress_claimEventId (h : disk.EventFree scope eventId now) :
    (disk.claimEventId scope eventId now ttl).2.InProgress scope eventId (now + ttl) := by
  unfold EventFree at h
  unfold ReplayStore.claimEventId InProgress
  simp only [h]
  exact Mapping.Section.record?_put_self

/-- It was not in progress until a time this late before. -/
theorem EventFree.not_inProgress {now e : Int} (h : disk.EventFree scope eventId now)
    (he : now ≤ e) : ¬ disk.InProgress scope eventId e := by
  intro hin
  unfold EventFree pruneExpired at h
  rw [Mapping.Section.record?_prune, hin] at h
  simp at h
  omega

/-- Claiming a thread key leaves the unexpired event ids alone. -/
theorem inProgress_claimThreadKey {now ttl e : Int} (h : disk.InProgress scope eventId e) (he : now ≤ e) :
    (disk.claimThreadKey scope threadKey roomId token now ttl).2.InProgress scope eventId e := by
  have hpruned : (disk.pruneExpired now).InProgress scope eventId e := by
    unfold InProgress pruneExpired at *
    rw [Mapping.Section.record?_prune, h]
    simp [he]
  unfold ReplayStore.claimThreadKey
  dsimp only
  split
  · split
    · split
      · exact h
      · exact h
    · exact hpruned
  · exact hpruned

end MindRoom.ReplayStore
