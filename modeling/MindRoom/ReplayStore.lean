import Mathlib
import MindRoom.Sections

/-! # The replay store of external triggers

`external_triggers/replay_store.py`: one durable file that remembers the nonces, the event ids
and the thread keys of signed triggers, each under the trigger's replay scope and each with the
time it expires. Every operation reads the file under one lock and prunes what has expired; an
operation that changes nothing does not write the pruned file back.
-/

namespace MindRoom

inductive ExternalTriggerEventClaim where
  | fresh
  | inProgress
  | delivered
deriving DecidableEq

inductive ExternalTriggerThreadKeyClaim where
  | fresh
  | pending
  | bound
deriving DecidableEq

structure SerializedNonce where
  expiresAt : Int
deriving DecidableEq

/-- How far the delivery of an event id has come. -/
inductive SerializedEventState where
  | inProgress
  | delivered
deriving DecidableEq

structure SerializedEvent where
  state : SerializedEventState
  expiresAt : Int
deriving DecidableEq

/-- One thread key: bound to its root, or reserved for a delivery that is opening it. A record
is never both and never neither. -/
structure SerializedThread where
  roomId : String
  threadEventId : Option String
  reservation : Option String
  expiresAt : Int
  holder : threadEventId.isSome ≠ reservation.isSome
deriving DecidableEq

structure ReplayStore where
  nonces : Mapping.Section String String SerializedNonce
  events : Mapping.Section String String SerializedEvent
  threads : Mapping.Section String String SerializedThread
deriving DecidableEq

namespace ReplayStore

instance : EmptyCollection ReplayStore := ⟨⟨∅, ∅, ∅⟩⟩

instance : Inhabited ReplayStore := ⟨∅⟩

/-- `_prune_expired`: a record lives through the second it expires in. -/
def pruneExpired (store : ReplayStore) (now : Int) : ReplayStore where
  nonces := store.nonces.prune (now ≤ ·.expiresAt)
  events := store.events.prune (now ≤ ·.expiresAt)
  threads := store.threads.prune (now ≤ ·.expiresAt)

/-- Return True only for the first unexpired nonce claim. -/
def claimNonce (replayScope nonce : String) (now ttlSeconds : Int) (disk : ReplayStore) :
    Bool × ReplayStore :=
  let store := disk.pruneExpired now
  match store.nonces.record? replayScope nonce with
  | some _ => (false, disk)
  | none => (true, { store with
      nonces := store.nonces.put replayScope nonce ⟨now + ttlSeconds⟩ })

def claimEventId (replayScope eventId : String) (now ttlSeconds : Int) (disk : ReplayStore) :
    ExternalTriggerEventClaim × ReplayStore :=
  let store := disk.pruneExpired now
  match store.events.record? replayScope eventId with
  | some ⟨.delivered, _⟩ => (.delivered, disk)
  | some ⟨.inProgress, _⟩ => (.inProgress, disk)
  | none => (.fresh, { store with
      events := store.events.put replayScope eventId ⟨.inProgress, now + ttlSeconds⟩ })

def markEventDelivered (replayScope eventId : String) (now ttlSeconds : Int)
    (disk : ReplayStore) : ReplayStore :=
  let store := disk.pruneExpired now
  { store with events := store.events.put replayScope eventId ⟨.delivered, now + ttlSeconds⟩ }

/-- Atomically resolve or reserve one thread key. `token` is the reservation the call mints
when the key is free. -/
def claimThreadKey (replayScope threadKey roomId token : String) (now pendingTtlSeconds : Int)
    (disk : ReplayStore) :
    (ExternalTriggerThreadKeyClaim × Option String × Option String) × ReplayStore :=
  let store := disk.pruneExpired now
  let reserve := ((.fresh, none, some token), { store with
    threads := store.threads.put replayScope threadKey
      ⟨roomId, none, some token, now + pendingTtlSeconds, by simp⟩ })
  match store.threads.record? replayScope threadKey with
  | some record =>
    -- a record bound to another room counts as absent
    if record.roomId = roomId then
      match record.threadEventId with
      | some root => ((.bound, some root, none), disk)
      | none => ((.pending, none, none), disk)
    else reserve
  | none => reserve

def boundThread (roomId root : String) (expiresAt : Int) : SerializedThread :=
  ⟨roomId, some root, none, expiresAt, by simp⟩

/-- Bind one thread key to its Matrix thread root, refreshing retention. The caller that lost
its claim gets no root. -/
def bindThreadRoot (replayScope threadKey threadEventId roomId : String)
    (reservation : Option String) (now ttlSeconds : Int) (disk : ReplayStore) :
    Option String × ReplayStore :=
  let store := disk.pruneExpired now
  let bind := fun root => (some root, { store with
    threads := store.threads.put replayScope threadKey (boundThread roomId root (now + ttlSeconds)) })
  match store.threads.record? replayScope threadKey with
  | some record =>
    if record.roomId = roomId then
      match record.threadEventId with
      | some root => bind root
      | none => if record.reservation = reservation then bind threadEventId else (none, disk)
    else (none, disk)
  | none => bind threadEventId

/-- Drop the caller's own pending reservation after its first delivery failed. Nothing is
pruned. -/
def releaseThreadKey (replayScope threadKey reservation : String) (disk : ReplayStore) :
    ReplayStore :=
  match disk.threads.record? replayScope threadKey with
  | some record =>
    if record.threadEventId = none ∧ record.reservation = some reservation then
      { disk with threads := disk.threads.drop replayScope threadKey }
    else disk
  | none => disk

/-- Remove an event id claim after delivery failure, whoever holds it. -/
def releaseEventId (replayScope eventId : String) (disk : ReplayStore) : ReplayStore :=
  { disk with events := disk.events.drop replayScope eventId }

/-! ## Any call -/

/-- One call of the store, with the time its caller read before it took the lock. -/
inductive Call where
  | claimNonce (replayScope nonce : String) (now ttlSeconds : Int)
  | claimEventId (replayScope eventId : String) (now ttlSeconds : Int)
  | markEventDelivered (replayScope eventId : String) (now ttlSeconds : Int)
  | claimThreadKey (replayScope threadKey roomId token : String) (now pendingTtlSeconds : Int)
  | bindThreadRoot (replayScope threadKey threadEventId roomId : String)
      (reservation : Option String) (now ttlSeconds : Int)
  | releaseThreadKey (replayScope threadKey reservation : String)
  | releaseEventId (replayScope eventId : String)

namespace Call

/-- The time a call prunes at; the releases prune nothing. -/
def now? : Call → Option Int
  | .claimNonce _ _ now _ => some now
  | .claimEventId _ _ now _ => some now
  | .markEventDelivered _ _ now _ => some now
  | .claimThreadKey _ _ _ _ now _ => some now
  | .bindThreadRoot _ _ _ _ _ now _ => some now
  | .releaseThreadKey _ _ _ => none
  | .releaseEventId _ _ => none

def run : Call → ReplayStore → ReplayStore
  | .claimNonce s n now ttl, disk => (disk.claimNonce s n now ttl).2
  | .claimEventId s e now ttl, disk => (disk.claimEventId s e now ttl).2
  | .markEventDelivered s e now ttl, disk => disk.markEventDelivered s e now ttl
  | .claimThreadKey s k room token now ttl, disk => (disk.claimThreadKey s k room token now ttl).2
  | .bindThreadRoot s k root room held now ttl, disk =>
    (disk.bindThreadRoot s k root room held now ttl).2
  | .releaseThreadKey s k held, disk => disk.releaseThreadKey s k held
  | .releaseEventId s e, disk => disk.releaseEventId s e

end Call

/-! ## Nonces -/

variable {disk : ReplayStore} {now ttl : Int} {scope nonce : String}

theorem nonces_pruneExpired (k k' : String) : (disk.pruneExpired now).nonces.record? k k' =
      (disk.nonces.record? k k').filter (now ≤ ·.expiresAt) := by
  simp [pruneExpired]

/-- A record that has not expired survives the pruning. -/
theorem nonces_pruneExpired_of_le {record : SerializedNonce} {k k' : String}
    (h : disk.nonces.record? k k' = some record) (hnow : now ≤ record.expiresAt) :
    (disk.pruneExpired now).nonces.record? k k' = some record := by
  rw [nonces_pruneExpired, h]
  simp [hnow]

/-- A claim succeeds when the pruned store holds no such nonce. -/
theorem claimNonce_eq_true : (disk.claimNonce scope nonce now ttl).1 = true ↔
      (disk.pruneExpired now).nonces.record? scope nonce = none := by
  unfold claimNonce
  dsimp only
  cases (disk.pruneExpired now).nonces.record? scope nonce <;> simp

/-- A successful claim leaves the nonce until its time to live is over. -/
theorem nonces_claimNonce_of_true (h : (disk.claimNonce scope nonce now ttl).1 = true) :
    (disk.claimNonce scope nonce now ttl).2.nonces.record? scope nonce = some ⟨now + ttl⟩ := by
  have hnone := claimNonce_eq_true.mp h
  unfold claimNonce
  simp only [hnone]
  exact Mapping.Section.record?_put_self

/-- Of the nonces, a call leaves the file as it was, prunes it, or claims an unheld one. -/
theorem nonces_run (c : Call) (disk : ReplayStore) : (c.run disk).nonces = disk.nonces ∨ ∃ now, c.now? = some now ∧
        ((c.run disk).nonces = (disk.pruneExpired now).nonces ∨
          ∃ s n ttl, (disk.pruneExpired now).nonces.record? s n = none ∧
            (c.run disk).nonces = (disk.pruneExpired now).nonces.put s n ⟨now + ttl⟩) := by
  cases c with
  | claimNonce s n now ttl =>
    show (disk.claimNonce s n now ttl).2.nonces = _ ∨ _
    cases hrecord : (disk.pruneExpired now).nonces.record? s n with
    | some record =>
      left
      simp only [claimNonce, hrecord]
    | none =>
      right
      refine ⟨now, rfl, .inr ⟨s, n, ttl, hrecord, ?_⟩⟩
      simp only [Call.run, claimNonce, hrecord]
  | claimEventId s e now ttl =>
    simp only [Call.run, claimEventId]
    split
    · exact .inl rfl
    · exact .inl rfl
    · exact .inr ⟨now, rfl, .inl rfl⟩
  | markEventDelivered s e now ttl => exact .inr ⟨now, rfl, .inl rfl⟩
  | claimThreadKey s k room token now ttl =>
    simp only [Call.run, claimThreadKey]
    split
    · split
      · split
        · exact .inl rfl
        · exact .inl rfl
      · exact .inr ⟨now, rfl, .inl rfl⟩
    · exact .inr ⟨now, rfl, .inl rfl⟩
  | bindThreadRoot s k root room held now ttl =>
    simp only [Call.run, bindThreadRoot]
    split
    · split
      · split
        · exact .inr ⟨now, rfl, .inl rfl⟩
        · split
          · exact .inr ⟨now, rfl, .inl rfl⟩
          · exact .inl rfl
      · exact .inl rfl
    · exact .inr ⟨now, rfl, .inl rfl⟩
  | releaseThreadKey s k held =>
    left
    simp only [Call.run, releaseThreadKey]
    split
    · split
      · rfl
      · rfl
    · rfl
  | releaseEventId s e => exact .inl rfl

/-- No call takes a nonce away before it expires. -/
theorem nonces_run_of_le {c : Call} {record : SerializedNonce} (h : disk.nonces.record? scope nonce = some record)
    (hnow : ∀ now, c.now? = some now → now ≤ record.expiresAt) :
    (c.run disk).nonces.record? scope nonce = some record := by
  rcases nonces_run c disk with hsame | ⟨now, hcall, hpruned | ⟨s, n, ttl, hnone, hput⟩⟩
  · rw [hsame]
    exact h
  · rw [hpruned]
    exact nonces_pruneExpired_of_le h (hnow now hcall)
  · have hkept := nonces_pruneExpired_of_le h (hnow now hcall)
    rw [hput, Mapping.Section.record?_put]
    -- a nonce that is still held is not the one the call claims
    have hne : ¬ (s = scope ∧ n = nonce) := by
      rintro ⟨rfl, rfl⟩
      rw [hnone] at hkept
      cases hkept
    rw [if_neg hne]
    exact hkept

end ReplayStore

end MindRoom
