import MindRoom.Systems
import MindRoom.ReplayStore

/-! # Thread leases

Deliveries of one room claim, bind and release thread keys in any order. A reservation is a
lease: its holder may be late, so the reservation token fences what it does then. Once a key is
bound, everyone is led to its root until the retention ends; two unexpired leases of one key
never exist; and a stale token changes nothing of a newer owner.
-/

namespace MindRoom

open ReplayStore

namespace ReplayStore

variable {disk : ReplayStore} {scope threadKey token roomId : String} {now ttl clock : Int}
  {s k : String} {record : SerializedThread}

/-- The record of a key reserved for a delivery. -/
def pendingThread (roomId token : String) (expiresAt : Int) : SerializedThread :=
  ⟨roomId, none, some token, expiresAt, Bool.false_ne_true⟩

/-- A record that has not expired survives the pruning. -/
theorem threads_pruneExpired_of_le (h : disk.threads.record? s k = some record) (hnow : now ≤ record.expiresAt) :
    (disk.pruneExpired now).threads.record? s k = some record := by
  unfold pruneExpired
  rw [Mapping.Section.record?_prune, h]
  simp [hnow]

theorem threads_of_pruneExpired (h : (disk.pruneExpired now).threads.record? s k = some record) :
    disk.threads.record? s k = some record ∧ now ≤ record.expiresAt := by
  unfold pruneExpired at h
  rw [Mapping.Section.record?_prune, Option.filter_eq_some_iff] at h
  exact ⟨h.1, by simpa using h.2⟩

/-- Every thread record is of one room. -/
def InRoom (disk : ReplayStore) (roomId : String) : Prop :=
  ∀ s k record, disk.threads.record? s k = some record → record.roomId = roomId

theorem InRoom.prune (h : disk.InRoom roomId) : (disk.pruneExpired now).InRoom roomId :=
  fun s k record hrecord => h s k record (threads_of_pruneExpired hrecord).1

theorem InRoom.put (h : disk.InRoom roomId) (hrecord : record.roomId = roomId) :
    ({ disk with threads := disk.threads.put scope threadKey record } : ReplayStore).InRoom roomId := by
  intro s k record' hrecord'
  dsimp only at hrecord'
  rw [Mapping.Section.record?_put] at hrecord'
  split at hrecord'
  · cases hrecord'
    exact hrecord
  · exact h s k record' hrecord'

/-! ## What the three calls do to a key -/

/-- A claim of a key whose unexpired record is bound leads to its root. -/
theorem claimThreadKey_bound {root : String} {e : Int}
    (h : disk.threads.record? scope threadKey = some (boundThread roomId root e)) (hnow : now ≤ e) :
    disk.claimThreadKey scope threadKey roomId token now ttl = ((.bound, some root, none), disk) := by
  have hpruned := threads_pruneExpired_of_le h (show now ≤ (boundThread roomId root e).expiresAt from hnow)
  unfold ReplayStore.claimThreadKey
  simp only [hpruned]
  have hroom : (boundThread roomId root e).roomId = roomId := rfl
  rw [if_pos hroom]
  rfl

/-- A claim of a key whose unexpired record is reserved is told to wait. -/
theorem claimThreadKey_pending {holder : String} {e : Int}
    (h : disk.threads.record? scope threadKey = some (pendingThread roomId holder e)) (hnow : now ≤ e) :
    disk.claimThreadKey scope threadKey roomId token now ttl = ((.pending, none, none), disk) := by
  have hpruned := threads_pruneExpired_of_le h
    (show now ≤ (pendingThread roomId holder e).expiresAt from hnow)
  unfold ReplayStore.claimThreadKey
  simp only [hpruned]
  have hroom : (pendingThread roomId holder e).roomId = roomId := rfl
  rw [if_pos hroom]
  rfl

/-- A claim of a key with no unexpired record reserves it. -/
theorem claimThreadKey_fresh
    (h : (disk.pruneExpired now).threads.record? scope threadKey = none) :
    disk.claimThreadKey scope threadKey roomId token now ttl =
      ((.fresh, none, some token), { disk.pruneExpired now with
        threads := (disk.pruneExpired now).threads.put scope threadKey
          (pendingThread roomId token (now + ttl)) }) := by
  unfold ReplayStore.claimThreadKey
  simp only [h]
  rfl

/-- Binding a key whose unexpired record is bound keeps the root, whoever calls. -/
theorem bindThreadRoot_bound {root root' : String} {e : Int} {reservation : Option String}
    (h : disk.threads.record? scope threadKey = some (boundThread roomId root e)) (hnow : now ≤ e) :
    disk.bindThreadRoot scope threadKey root' roomId reservation now ttl =
      (some root, { disk.pruneExpired now with
        threads := (disk.pruneExpired now).threads.put scope threadKey
          (boundThread roomId root (now + ttl)) }) := by
  have hpruned := threads_pruneExpired_of_le h (show now ≤ (boundThread roomId root e).expiresAt from hnow)
  unfold ReplayStore.bindThreadRoot
  simp only [hpruned]
  have hroom : (boundThread roomId root e).roomId = roomId := rfl
  rw [if_pos hroom]
  rfl

/-- Binding a key under another caller's unexpired reservation changes nothing. -/
theorem bindThreadRoot_lost {holder root : String} {e : Int} {reservation : Option String}
    (h : disk.threads.record? scope threadKey = some (pendingThread roomId holder e)) (hnow : now ≤ e)
    (hstale : reservation ≠ some holder) :
    disk.bindThreadRoot scope threadKey root roomId reservation now ttl = (none, disk) := by
  have hpruned := threads_pruneExpired_of_le h
    (show now ≤ (pendingThread roomId holder e).expiresAt from hnow)
  unfold ReplayStore.bindThreadRoot
  simp only [hpruned]
  have hroom : (pendingThread roomId holder e).roomId = roomId := rfl
  rw [if_pos hroom]
  show (if some holder = reservation then _ else _) = _
  rw [if_neg (Ne.symm hstale)]

/-- Releasing a key under a token that is not its holder's changes nothing. -/
theorem releaseThreadKey_stale {reservation : String}
    (h : ∀ record, disk.threads.record? scope threadKey = some record →
      record.threadEventId = none → record.reservation ≠ some reservation) :
    disk.releaseThreadKey scope threadKey reservation = disk := by
  unfold ReplayStore.releaseThreadKey
  split
  · next record hrecord =>
    rw [if_neg (fun hown => h record hrecord hown.1 hown.2)]
  · rfl

/-- Binding a key with no unexpired record, or one's own reservation, binds it to the root given. -/
theorem bindThreadRoot_granted {root : String} {reservation : Option String}
    (h : ∀ record, (disk.pruneExpired now).threads.record? scope threadKey = some record →
      record.roomId = roomId ∧ record.threadEventId = none ∧ record.reservation = reservation) :
    disk.bindThreadRoot scope threadKey root roomId reservation now ttl =
      (some root, { disk.pruneExpired now with
        threads := (disk.pruneExpired now).threads.put scope threadKey
          (boundThread roomId root (now + ttl)) }) := by
  unfold ReplayStore.bindThreadRoot
  cases hrecord : (disk.pruneExpired now).threads.record? scope threadKey with
  | none => simp only [hrecord]
  | some record =>
    rcases h record hrecord with ⟨hroom, hpending, hheld⟩
    simp only [hrecord]
    rw [if_pos hroom, if_pos hheld]
    simp only [hpending]

/-- A record that has not expired is bound to its root or held under a token. -/
theorem SerializedThread.cases (record : SerializedThread) :
    (∃ root, record = boundThread record.roomId root record.expiresAt) ∨
      ∃ holder, record = pendingThread record.roomId holder record.expiresAt := by
  rcases record with ⟨roomId, root, reservation, expiresAt, hholder⟩
  cases root with
  | some root =>
    cases reservation with
    | some holder => exact absurd rfl hholder
    | none => exact .inl ⟨root, rfl⟩
  | none =>
    cases reservation with
    | some holder => exact .inr ⟨holder, rfl⟩
    | none => exact absurd rfl hholder

/-! ## What the calls keep -/

/-- Of the thread records, a call that is about no thread leaves the file as it was or prunes it. -/
theorem threads_run_other {c : Call} (h : match c with
    | .claimThreadKey .. => False
    | .bindThreadRoot .. => False
    | .releaseThreadKey .. => False
    | _ => True) : (c.run disk).threads = disk.threads ∨
      ∃ now, c.now? = some now ∧ (c.run disk).threads = (disk.pruneExpired now).threads := by
  cases c with
  | claimNonce s n now ttl =>
    simp only [Call.run, claimNonce]
    split
    · exact .inl rfl
    · exact .inr ⟨now, rfl, rfl⟩
  | claimEventId s e now ttl =>
    simp only [Call.run, claimEventId]
    split
    · exact .inl rfl
    · exact .inl rfl
    · exact .inr ⟨now, rfl, rfl⟩
  | markEventDelivered s e now ttl => exact .inr ⟨now, rfl, rfl⟩
  | releaseEventId s e => exact .inl rfl
  | claimThreadKey | bindThreadRoot | releaseThreadKey => exact h.elim

/-- A claim either finds an unexpired record and changes nothing, or finds none and reserves. -/
theorem claimThreadKey_cases (hroom : disk.InRoom roomId) :
    ((disk.claimThreadKey scope threadKey roomId token now ttl).2 = disk ∧
        (disk.claimThreadKey scope threadKey roomId token now ttl).1.1 ≠ .fresh) ∨
      (disk.pruneExpired now).threads.record? scope threadKey = none := by
  cases hrecord : (disk.pruneExpired now).threads.record? scope threadKey with
  | none => exact .inr rfl
  | some record =>
    left
    rcases threads_of_pruneExpired hrecord with ⟨hlive, hnow⟩
    have hin := hroom scope threadKey record hlive
    rcases SerializedThread.cases record with ⟨root, hbound⟩ | ⟨holder, hpending⟩
    · rw [hin] at hbound
      rw [hbound] at hlive
      rw [claimThreadKey_bound hlive hnow]
      exact ⟨rfl, nofun⟩
    · rw [hin] at hpending
      rw [hpending] at hlive
      rw [claimThreadKey_pending hlive hnow]
      exact ⟨rfl, nofun⟩

/-- A claim keeps every unexpired record. -/
theorem claimThreadKey_keeps (hroom : disk.InRoom roomId)
    (h : disk.threads.record? s k = some record) (hnow : now ≤ record.expiresAt) :
    (disk.claimThreadKey scope threadKey roomId token now ttl).2.threads.record? s k = some record := by
  rcases @claimThreadKey_cases disk scope threadKey token roomId now ttl hroom with ⟨hsame, -⟩ | hnone
  · rw [hsame]
    exact h
  · have hpruned := threads_pruneExpired_of_le h hnow
    rw [claimThreadKey_fresh hnone]
    dsimp only
    rw [Mapping.Section.record?_put]
    have hne : ¬ (scope = s ∧ threadKey = k) := by
      rintro ⟨rfl, rfl⟩
      rw [hnone] at hpruned
      cases hpruned
    rw [if_neg hne]
    exact hpruned

theorem InRoom.claimThreadKey (hroom : disk.InRoom roomId) :
    (disk.claimThreadKey scope threadKey roomId token now ttl).2.InRoom roomId := by
  rcases @claimThreadKey_cases disk scope threadKey token roomId now ttl hroom with ⟨hsame, -⟩ | hnone
  · rw [hsame]
    exact hroom
  · rw [claimThreadKey_fresh hnone]
    exact hroom.prune.put rfl

/-- A bind refreshes a bound key, changes nothing under another's reservation, or binds the key. -/
theorem bindThreadRoot_cases {root : String} {reservation : Option String} (hroom : disk.InRoom roomId) :
    (∃ bound e, disk.threads.record? scope threadKey = some (boundThread roomId bound e) ∧ now ≤ e) ∨
      (∃ holder e, disk.threads.record? scope threadKey = some (pendingThread roomId holder e) ∧
        now ≤ e ∧ reservation ≠ some holder) ∨
      (disk.bindThreadRoot scope threadKey root roomId reservation now ttl =
          (some root, { disk.pruneExpired now with
            threads := (disk.pruneExpired now).threads.put scope threadKey
              (boundThread roomId root (now + ttl)) }) ∧
        ∀ record, disk.threads.record? scope threadKey = some record → now ≤ record.expiresAt →
          record.threadEventId = none ∧ record.reservation = reservation) := by
  cases hrecord : (disk.pruneExpired now).threads.record? scope threadKey with
  | none =>
    refine .inr (.inr ⟨bindThreadRoot_granted ?_, ?_⟩)
    · intro record hsome
      rw [hrecord] at hsome
      cases hsome
    · intro record hlive hnow
      rw [threads_pruneExpired_of_le hlive hnow] at hrecord
      cases hrecord
  | some record =>
    rcases threads_of_pruneExpired hrecord with ⟨hlive, hnow⟩
    have hin := hroom scope threadKey record hlive
    rcases SerializedThread.cases record with ⟨bound, hbound⟩ | ⟨holder, hpending⟩
    · left
      rw [hin] at hbound
      rw [hbound] at hlive
      exact ⟨bound, record.expiresAt, hlive, hnow⟩
    · by_cases hown : reservation = some holder
      · refine .inr (.inr ⟨bindThreadRoot_granted ?_, ?_⟩)
        · intro record' hsome
          rw [hrecord] at hsome
          cases hsome
          refine ⟨hin, ?_⟩
          rw [hpending, hown]
          exact ⟨rfl, rfl⟩
        · intro record' hlive' _
          rw [hlive] at hlive'
          cases hlive'
          rw [hpending, hown]
          exact ⟨rfl, rfl⟩
      · refine .inr (.inl ?_)
        rw [hin] at hpending
        rw [hpending] at hlive
        exact ⟨holder, record.expiresAt, hlive, hnow, hown⟩

/-- A bind keeps every unexpired record of the other keys. -/
theorem bindThreadRoot_other {root : String} {reservation : Option String}
    (hroom : disk.InRoom roomId) (h : disk.threads.record? s k = some record)
    (hnow : now ≤ record.expiresAt) (hne : ¬ (scope = s ∧ threadKey = k)) :
    (disk.bindThreadRoot scope threadKey root roomId reservation now ttl).2.threads.record? s k =
      some record := by
  have hput : ∀ root', Mapping.Section.record? ((disk.pruneExpired now).threads.put scope threadKey
      (boundThread roomId root' (now + ttl))) s k = some record := by
    intro root'
    rw [Mapping.Section.record?_put, if_neg hne]
    exact threads_pruneExpired_of_le h hnow
  rcases @bindThreadRoot_cases disk scope threadKey roomId now ttl root reservation hroom with
    ⟨bound, e', hbound, hlive⟩ | ⟨holder', e', hpending, hlive, hlost⟩ | ⟨hgranted, -⟩
  · rw [bindThreadRoot_bound hbound hlive]
    exact hput bound
  · rw [bindThreadRoot_lost hpending hlive hlost]
    exact h
  · rw [hgranted]
    exact hput root

/-- A bind keeps every unexpired reservation but its caller's own. -/
theorem bindThreadRoot_keeps {root holder : String} {e : Int} {reservation : Option String} (hroom : disk.InRoom roomId)
    (h : disk.threads.record? s k = some (pendingThread roomId holder e)) (hnow : now ≤ e)
    (hother : ¬ (s = scope ∧ k = threadKey ∧ some holder = reservation)) :
    (disk.bindThreadRoot scope threadKey root roomId reservation now ttl).2.threads.record? s k =
      some (pendingThread roomId holder e) := by
  by_cases hsame : scope = s ∧ threadKey = k
  · rcases hsame with ⟨rfl, rfl⟩
    rw [bindThreadRoot_lost h hnow (fun hown => hother ⟨rfl, rfl, hown.symm⟩)]
    exact h
  · exact bindThreadRoot_other hroom h hnow hsame

theorem InRoom.bindThreadRoot {root : String} {reservation : Option String} (hroom : disk.InRoom roomId) :
    (disk.bindThreadRoot scope threadKey root roomId reservation now ttl).2.InRoom roomId := by
  rcases @bindThreadRoot_cases disk scope threadKey roomId now ttl root reservation hroom with
    ⟨bound, e', hbound, hlive⟩ | ⟨holder', e', hpending, hlive, hlost⟩ | ⟨hgranted, -⟩
  · rw [bindThreadRoot_bound hbound hlive]
    exact hroom.prune.put rfl
  · rw [bindThreadRoot_lost hpending hlive hlost]
    exact hroom
  · rw [hgranted]
    exact hroom.prune.put rfl

/-- A release keeps every record but one reserved under its token. -/
theorem releaseThreadKey_keeps {reservation : String} (h : disk.threads.record? s k = some record)
    (hother : ¬ (s = scope ∧ k = threadKey ∧ record.reservation = some reservation)) :
    (disk.releaseThreadKey scope threadKey reservation).threads.record? s k = some record := by
  unfold ReplayStore.releaseThreadKey
  split
  · next held hheld =>
    split
    · next hown =>
      dsimp only
      rw [Mapping.Section.record?_drop]
      have hne : ¬ (scope = s ∧ threadKey = k) := by
        rintro ⟨rfl, rfl⟩
        rw [hheld] at h
        cases h
        exact hother ⟨rfl, rfl, hown.2⟩
      rw [if_neg hne]
      exact h
    · exact h
  · exact h

theorem InRoom.releaseThreadKey {reservation : String} (hroom : disk.InRoom roomId) :
    (disk.releaseThreadKey scope threadKey reservation).InRoom roomId := by
  unfold ReplayStore.releaseThreadKey
  split
  · split
    · intro s k record hrecord
      dsimp only at hrecord
      rw [Mapping.Section.record?_drop] at hrecord
      split at hrecord
      · cases hrecord
      · exact hroom s k record hrecord
    · exact hroom
  · exact hroom

end ReplayStore

/-! ## The leases of a room -/

/-- A reservation granted to a caller that has neither bound nor released it. -/
structure ThreadLease where
  replayScope : String
  threadKey : String
  token : String
  expiresAt : Int
deriving DecidableEq

/-- The clock, the store, the leases out, and every token minted so far. -/
structure LeaseWorld where
  clock : Int
  store : ReplayStore
  leases : List ThreadLease
  minted : List String

/-- The clock moves, or a caller's call reaches the store. -/
inductive LeaseStep where
  | tick (clock : Int)
  | call (c : ReplayStore.Call)

namespace LeaseWorld

def granted (w : LeaseWorld) (scope threadKey roomId token : String) (now ttl : Int) :
    List ThreadLease :=
  match (w.store.claimThreadKey scope threadKey roomId token now ttl).1 with
  | (.fresh, _, some token) => [⟨scope, threadKey, token, now + ttl⟩]
  | _ => []

def without (w : LeaseWorld) (scope threadKey : String) (reservation : Option String) :
    List ThreadLease :=
  w.leases.filter fun l =>
    ¬ (l.replayScope = scope ∧ l.threadKey = threadKey ∧ some l.token = reservation)

/-- The world after a call: a claim may grant a lease, a bind or a release ends the caller's. -/
def after (w : LeaseWorld) (c : ReplayStore.Call) : LeaseWorld :=
  match c with
  | .claimThreadKey scope threadKey roomId token now ttl =>
    { w with
      store := c.run w.store
      leases := w.granted scope threadKey roomId token now ttl ++ w.leases
      minted := token :: w.minted }
  | .bindThreadRoot scope threadKey _ _ reservation _ _ =>
    { w with store := c.run w.store, leases := w.without scope threadKey reservation }
  | .releaseThreadKey scope threadKey reservation =>
    { w with store := c.run w.store, leases := w.without scope threadKey (some reservation) }
  | _ => { w with store := c.run w.store }

end LeaseWorld

/-- A call for the room, with a reservation never minted before. -/
def ReplayStore.Call.ForRoom (c : ReplayStore.Call) (roomId : String) (minted : List String) : Prop :=
  match c with
  | .claimThreadKey _ _ room token _ _ => room = roomId ∧ token ∉ minted
  | .bindThreadRoot _ _ _ room _ _ _ => room = roomId
  | _ => True

/-- Every interleaving of the callers of one room. A call uses a time already past. -/
def leaseSystem (roomId : String) : System LeaseWorld LeaseStep where
  start w := w.leases = [] ∧ w.store.InRoom roomId
  step a w w' :=
    match a with
    | .tick clock => w.clock ≤ clock ∧ w' = { w with clock := clock }
    | .call c =>
      c.ForRoom roomId w.minted ∧ (∀ now, c.now? = some now → now ≤ w.clock) ∧ w' = w.after c

/-- What every run keeps: tokens tell the leases apart, and an unexpired lease is what the store
holds of its key. -/
structure Leased (roomId : String) (w : LeaseWorld) : Prop where
  room : w.store.InRoom roomId
  minted : ∀ l ∈ w.leases, l.token ∈ w.minted
  distinct : ∀ l ∈ w.leases, ∀ l' ∈ w.leases, l.token = l'.token → l = l'
  held : ∀ l ∈ w.leases, w.clock ≤ l.expiresAt →
    w.store.threads.record? l.replayScope l.threadKey =
      some (pendingThread roomId l.token l.expiresAt)

namespace Leased

variable {roomId : String} {w : LeaseWorld}

/-- A call that leaves only leases of before, whose records it keeps. -/
theorem of_subset {store : ReplayStore} {leases : List ThreadLease} (h : Leased roomId w)
    (hroom : store.InRoom roomId) (hsub : ∀ l ∈ leases, l ∈ w.leases) (hheld : ∀ l ∈ leases, w.clock ≤ l.expiresAt →
      w.store.threads.record? l.replayScope l.threadKey =
        some (pendingThread roomId l.token l.expiresAt) →
      store.threads.record? l.replayScope l.threadKey =
        some (pendingThread roomId l.token l.expiresAt)) :
    Leased roomId { w with store := store, leases := leases } where
  room := hroom
  minted l hl := h.minted l (hsub l hl)
  distinct l hl l' hl' := h.distinct l (hsub l hl) l' (hsub l' hl')
  held l hl hclock := hheld l hl hclock (h.held l (hsub l hl) hclock)

/-- A claim that finds no unexpired record is granted the one lease of its key. -/
theorem claim {scope threadKey token : String} {now ttl : Int} (h : Leased roomId w)
    (hnew : token ∉ w.minted) (hnow : now ≤ w.clock) :
    Leased roomId (w.after (.claimThreadKey scope threadKey roomId token now ttl)) := by
  have hkeeps : ∀ l ∈ w.leases, w.clock ≤ l.expiresAt →
      (w.store.claimThreadKey scope threadKey roomId token now ttl).2.threads.record?
        l.replayScope l.threadKey = some (pendingThread roomId l.token l.expiresAt) := by
    intro l hl hclock
    exact claimThreadKey_keeps h.room (h.held l hl hclock) (Int.le_trans hnow hclock)
  rcases @claimThreadKey_cases w.store scope threadKey token roomId now ttl h.room with
    ⟨-, hrefused⟩ | hnone
  · have hgranted : w.granted scope threadKey roomId token now ttl = [] := by
      unfold LeaseWorld.granted
      split
      · next hfresh =>
        rw [hfresh] at hrefused
        exact absurd rfl hrefused
      · rfl
    have hafter : w.after (.claimThreadKey scope threadKey roomId token now ttl) =
        { w with
          store := (w.store.claimThreadKey scope threadKey roomId token now ttl).2
          minted := token :: w.minted } := by
      show { w with store := _, leases := _ ++ w.leases, minted := _ } = _
      rw [hgranted]
      rfl
    rw [hafter]
    exact ⟨h.room.claimThreadKey, fun l hl => List.mem_cons_of_mem _ (h.minted l hl), h.distinct, hkeeps⟩
  · have hgranted : w.granted scope threadKey roomId token now ttl =
        [⟨scope, threadKey, token, now + ttl⟩] := by
      unfold LeaseWorld.granted
      rw [claimThreadKey_fresh hnone]
    have hmem : ∀ l, l ∈ (w.after (.claimThreadKey scope threadKey roomId token now ttl)).leases ↔
        l = ⟨scope, threadKey, token, now + ttl⟩ ∨ l ∈ w.leases := by
      intro l
      show l ∈ w.granted scope threadKey roomId token now ttl ++ w.leases ↔ _
      rw [hgranted]
      simp
    have hfreshToken : ∀ l ∈ w.leases, l.token ≠ token := by
      intro l hl heq
      exact hnew (heq ▸ h.minted l hl)
    refine ⟨h.room.claimThreadKey, ?_, ?_, ?_⟩
    · intro l hl
      rcases (hmem l).mp hl with rfl | hl
      · exact List.mem_cons_self
      · exact List.mem_cons_of_mem _ (h.minted l hl)
    · intro l hl l' hl' htoken
      rcases (hmem l).mp hl with rfl | hl
      · rcases (hmem l').mp hl' with rfl | hl'
        · rfl
        · exact absurd htoken.symm (hfreshToken l' hl')
      · rcases (hmem l').mp hl' with rfl | hl'
        · exact absurd htoken (hfreshToken l hl)
        · exact h.distinct l hl l' hl' htoken
    · intro l hl hclock
      rcases (hmem l).mp hl with rfl | hl
      · show (w.store.claimThreadKey scope threadKey roomId token now ttl).2.threads.record? _ _ = _
        rw [claimThreadKey_fresh hnone]
        exact Mapping.Section.record?_put_self
      · exact hkeeps l hl hclock

theorem mem_without {scope threadKey : String} {reservation : Option String} {l : ThreadLease} :
    l ∈ w.without scope threadKey reservation ↔ l ∈ w.leases ∧
      ¬ (l.replayScope = scope ∧ l.threadKey = threadKey ∧ some l.token = reservation) := by
  unfold LeaseWorld.without
  rw [List.mem_filter, decide_eq_true_iff]

theorem call {c : ReplayStore.Call} (h : Leased roomId w) (hc : c.ForRoom roomId w.minted)
    (hnow : ∀ now, c.now? = some now → now ≤ w.clock) : Leased roomId (w.after c) := by
  have hother : ∀ {store : ReplayStore}, (store.threads = w.store.threads ∨
      ∃ now, c.now? = some now ∧ store.threads = (w.store.pruneExpired now).threads) →
      Leased roomId { w with store := store } := by
    rintro store (hsame | ⟨now, hcall, hpruned⟩)
    · refine h.of_subset ?_ (fun _ hl => hl) ?_
      · unfold InRoom
        rw [hsame]
        exact h.room
      · intro l _ _ hheld
        rw [hsame]
        exact hheld
    · refine h.of_subset ?_ (fun _ hl => hl) ?_
      · unfold InRoom
        rw [hpruned]
        exact h.room.prune
      · intro l _ hclock hheld
        rw [hpruned]
        exact threads_pruneExpired_of_le hheld (Int.le_trans (hnow now hcall) hclock)
  cases c with
  | claimThreadKey scope threadKey room token now ttl =>
    rcases hc with ⟨rfl, hnew⟩
    exact h.claim hnew (hnow now rfl)
  | bindThreadRoot scope threadKey root room reservation now ttl =>
    have hroom : room = roomId := hc
    subst hroom
    refine h.of_subset h.room.bindThreadRoot (fun l hl => (mem_without.mp hl).1) ?_
    intro l hl hclock hheld
    exact bindThreadRoot_keeps h.room hheld (Int.le_trans (hnow now rfl) hclock) (mem_without.mp hl).2
  | releaseThreadKey scope threadKey reservation =>
    refine h.of_subset h.room.releaseThreadKey (fun l hl => (mem_without.mp hl).1) ?_
    intro l hl _ hheld
    exact releaseThreadKey_keeps hheld (mem_without.mp hl).2
  | claimNonce _ _ _ _ => exact hother (threads_run_other trivial)
  | claimEventId _ _ _ _ => exact hother (threads_run_other trivial)
  | markEventDelivered _ _ _ _ => exact hother (threads_run_other trivial)
  | releaseEventId _ _ => exact hother (threads_run_other trivial)

end Leased

theorem leased (roomId : String) : (leaseSystem roomId).Invariant (Leased roomId) where
  start w hw := by
    rcases hw with ⟨hleases, hroom⟩
    refine ⟨hroom, ?_, ?_, ?_⟩ <;> rw [hleases] <;> intro l hl <;> cases hl
  step a w w' h hstep := by
    cases a with
    | tick clock =>
      rcases hstep with ⟨hclock, rfl⟩
      exact ⟨h.room, h.minted, h.distinct, fun l hl hlive => h.held l hl (Int.le_trans hclock hlive)⟩
    | call c =>
      rcases hstep with ⟨hc, hnow, rfl⟩
      exact h.call hc hnow

/-! ## Stable leases -/

namespace LeaseWorld

/-- The key leads to the root, and its retention is not over. -/
def BoundTo (w : LeaseWorld) (roomId scope threadKey root : String) : Prop :=
  ∃ e, w.store.threads.record? scope threadKey = some (boundThread roomId root e) ∧ w.clock ≤ e

/-- The key led to the root, and its retention is over. -/
def RetentionEnded (w : LeaseWorld) (roomId scope threadKey root : String) : Prop :=
  ∃ e, w.store.threads.record? scope threadKey = some (boundThread roomId root e) ∧ e < w.clock

/-- A caller holds an unexpired reservation of the key. -/
def Holds (w : LeaseWorld) (scope threadKey : String) (l : ThreadLease) : Prop :=
  l ∈ w.leases ∧ l.replayScope = scope ∧ l.threadKey = threadKey ∧ w.clock ≤ l.expiresAt

variable {w w' : LeaseWorld} {roomId scope threadKey root : String}

/-- A key bound in a record lasts, or its retention has just ended. -/
theorem boundTo_or_ended {e : Int} (h : w.store.threads.record? scope threadKey = some (boundThread roomId root e)) :
    w.BoundTo roomId scope threadKey root ∨ w.RetentionEnded roomId scope threadKey root := by
  by_cases hclock : w.clock ≤ e
  · exact .inl ⟨e, h, hclock⟩
  · exact .inr ⟨e, h, by omega⟩

/-- One step keeps a bound key bound to its root, unless its retention ends. -/
theorem BoundTo.step {a : LeaseStep} (hroom : w.store.InRoom roomId)
    (h : w.BoundTo roomId scope threadKey root) (hstep : (leaseSystem roomId).step a w w') :
    w'.BoundTo roomId scope threadKey root ∨ w'.RetentionEnded roomId scope threadKey root := by
  rcases h with ⟨e, hbound, hlive⟩
  cases a with
  | tick clock =>
    rcases hstep with ⟨-, rfl⟩
    exact boundTo_or_ended hbound
  | call c =>
    rcases hstep with ⟨hc, hnow, rfl⟩
    have hother : ∀ {store : ReplayStore}, (store.threads = w.store.threads ∨
        ∃ now, c.now? = some now ∧ store.threads = (w.store.pruneExpired now).threads) →
        store.threads.record? scope threadKey = some (boundThread roomId root e) := by
      rintro store (hsame | ⟨now, hcall, hpruned⟩)
      · rw [hsame]
        exact hbound
      · rw [hpruned]
        exact threads_pruneExpired_of_le hbound (Int.le_trans (hnow now hcall) hlive)
    cases c with
    | claimThreadKey scope' key room token now ttl =>
      rcases hc with ⟨rfl, -⟩
      exact @boundTo_or_ended (w.after _) _ _ _ _ _
        (claimThreadKey_keeps hroom hbound (Int.le_trans (hnow now rfl) hlive))
    | bindThreadRoot scope' key root' room reservation now ttl =>
      have hin : room = roomId := hc
      subst hin
      have hpast := Int.le_trans (hnow now rfl) hlive
      by_cases hsame : scope' = scope ∧ key = threadKey
      · -- whoever binds the key refreshes its retention and keeps its root
        rcases hsame with ⟨rfl, rfl⟩
        refine @boundTo_or_ended (w.after _) _ _ _ _ (now + ttl) ?_
        show (w.store.bindThreadRoot scope' key root' room reservation now ttl).2.threads.record?
          scope' key = _
        rw [bindThreadRoot_bound hbound hpast]
        exact Mapping.Section.record?_put_self
      · exact @boundTo_or_ended (w.after _) _ _ _ _ _
          (bindThreadRoot_other hroom hbound hpast hsame)
    | releaseThreadKey scope' key reservation =>
      exact @boundTo_or_ended (w.after _) _ _ _ _ _
        (releaseThreadKey_keeps hbound fun hown => nomatch hown.2.2)
    | claimNonce _ _ _ _ =>
      exact @boundTo_or_ended (w.after _) _ _ _ _ _ (hother (threads_run_other trivial))
    | claimEventId _ _ _ _ =>
      exact @boundTo_or_ended (w.after _) _ _ _ _ _ (hother (threads_run_other trivial))
    | markEventDelivered _ _ _ _ =>
      exact @boundTo_or_ended (w.after _) _ _ _ _ _ (hother (threads_run_other trivial))
    | releaseEventId _ _ =>
      exact @boundTo_or_ended (w.after _) _ _ _ _ _ (hother (threads_run_other trivial))

/-- A run keeps a bound key bound to its root, or passes the end of its retention. -/
theorem BoundTo.run (hw : (leaseSystem roomId).Reachable w)
    (h : w.BoundTo roomId scope threadKey root) (hrun : (leaseSystem roomId).Run w w') :
    w'.BoundTo roomId scope threadKey root ∨ ∃ t, (leaseSystem roomId).Run w t ∧ (leaseSystem roomId).Run t w' ∧
        t.RetentionEnded roomId scope threadKey root := by
  induction hrun with
  | refl => exact .inl h
  | @tail t t' hrun hlast ih =>
    rcases ih with hbound | ⟨u, hto, hfrom, hended⟩
    · rcases hlast with ⟨a, hstep⟩
      rcases hbound.step ((leased roomId).reachable (hw.run hrun)).room hstep with hkept | hended
      · exact .inl hkept
      · exact .inr ⟨t', hrun.tail ⟨a, hstep⟩, .refl, hended⟩
    · exact .inr ⟨u, hto, hfrom.tail hlast, hended⟩

end LeaseWorld

/-- What the callers of one key can rely on. -/
structure StableLeases (roomId : String) (w : LeaseWorld) (scope threadKey : String) : Prop where
  /-- While a key is bound, every claim and every bind of it is given its root. -/
  led : ∀ root, w.BoundTo roomId scope threadKey root →
    (∀ token now ttl, now ≤ w.clock →
      (w.store.claimThreadKey scope threadKey roomId token now ttl).1 = (.bound, some root, none)) ∧
    ∀ root' reservation now ttl, now ≤ w.clock →
      (w.store.bindThreadRoot scope threadKey root' roomId reservation now ttl).1 = some root
  /-- It stays bound to that root in every run, until its retention has ended. -/
  lasts : ∀ root w', w.BoundTo roomId scope threadKey root → (leaseSystem roomId).Run w w' →
    w'.BoundTo roomId scope threadKey root ∨
      ∃ t, (leaseSystem roomId).Run w t ∧ (leaseSystem roomId).Run t w' ∧
        t.RetentionEnded roomId scope threadKey root
  /-- No two callers hold unexpired reservations of the key. -/
  exclusive : ∀ l l', w.Holds scope threadKey l → w.Holds scope threadKey l' → l = l'
  /-- A stale reservation changes nothing while another caller holds the key. -/
  fenced : ∀ l reservation, w.Holds scope threadKey l → reservation ≠ l.token →
    (∀ root now ttl, now ≤ w.clock →
      w.store.bindThreadRoot scope threadKey root roomId (some reservation) now ttl = (none, w.store)) ∧
    w.store.releaseThreadKey scope threadKey reservation = w.store
  /-- No reservation releases a key that is bound. -/
  kept : ∀ root reservation, w.BoundTo roomId scope threadKey root →
    w.store.releaseThreadKey scope threadKey reservation = w.store

/-- The leases of every key are stable in every reachable state. -/
theorem thread_leases_stable {roomId : String} {w : LeaseWorld}
    (h : (leaseSystem roomId).Reachable w) (scope threadKey : String) :
    StableLeases roomId w scope threadKey := by
  have hleased := (leased roomId).reachable h
  have hholds : ∀ l, w.Holds scope threadKey l →
      w.store.threads.record? scope threadKey = some (pendingThread roomId l.token l.expiresAt) := by
    rintro l ⟨hl, rfl, rfl, hlive⟩
    exact hleased.held l hl hlive
  refine ⟨?_, fun root w' hbound hrun => hbound.run h hrun, ?_, ?_, ?_⟩
  · rintro root ⟨e, hbound, hlive⟩
    refine ⟨fun token now ttl hnow => ?_, fun root' reservation now ttl hnow => ?_⟩
    · rw [claimThreadKey_bound hbound (Int.le_trans hnow hlive)]
    · rw [bindThreadRoot_bound hbound (Int.le_trans hnow hlive)]
  · intro l l' hl hl'
    have hsame : some (pendingThread roomId l.token l.expiresAt) =
        some (pendingThread roomId l'.token l'.expiresAt) := (hholds l hl).symm.trans (hholds l' hl')
    have htoken : l.token = l'.token := by
      rw [Option.some.injEq] at hsame
      exact Option.some.inj (congrArg SerializedThread.reservation hsame)
    exact hleased.distinct l hl.1 l' hl'.1 htoken
  · intro l reservation hl hstale
    have hpending := hholds l hl
    have hlive := hl.2.2.2
    refine ⟨fun root now ttl hnow => ?_, releaseThreadKey_stale ?_⟩
    · exact bindThreadRoot_lost hpending (Int.le_trans hnow hlive)
        fun heq => hstale (Option.some.inj heq)
    · intro record hrecord _ hheld
      rw [hpending] at hrecord
      cases hrecord
      exact hstale (Option.some.inj hheld).symm
  · rintro root reservation ⟨e, hbound, -⟩
    refine releaseThreadKey_stale ?_
    intro record hrecord hnone _
    rw [hbound] at hrecord
    cases hrecord
    cases hnone

namespace LateOpener

/-- One delivery reserves a key and outlives its lease; the next one reserves the key. -/
def reserved : LeaseWorld :=
  (⟨0, ∅, [], []⟩ : LeaseWorld).after (.claimThreadKey "campground" "site-7" "!room" "first" 0 300)

def taken : LeaseWorld :=
  { reserved with clock := 301 }.after (.claimThreadKey "campground" "site-7" "!room" "second" 301 300)

/-- The newer owner binds the key to its own root. -/
def bound : LeaseWorld :=
  taken.after (.bindThreadRoot "campground" "site-7" "$second" "!room" (some "second") 301 604800)

theorem bound_reachable : (leaseSystem "!room").Reachable bound := by
  have hstart : (leaseSystem "!room").Reachable ⟨0, ∅, [], []⟩ :=
    .start ⟨rfl, fun _ _ _ hrecord => nomatch hrecord⟩
  have hreserved : (leaseSystem "!room").Reachable reserved := by
    refine hstart.next (.call (.claimThreadKey "campground" "site-7" "!room" "first" 0 300))
      ⟨⟨rfl, by decide⟩, ?_, rfl⟩
    intro now hnow
    cases hnow
    decide
  have hlate : (leaseSystem "!room").Reachable { reserved with clock := 301 } :=
    hreserved.next (.tick 301) ⟨by decide +kernel, rfl⟩
  have htaken : (leaseSystem "!room").Reachable taken := by
    refine hlate.next (.call (.claimThreadKey "campground" "site-7" "!room" "second" 301 300))
      ⟨⟨rfl, by decide +kernel⟩, ?_, rfl⟩
    intro now hnow
    cases hnow
    exact Int.le_refl _
  refine htaken.next (.call (.bindThreadRoot "campground" "site-7" "$second" "!room"
    (some "second") 301 604800)) ⟨rfl, ?_, rfl⟩
  intro now hnow
  cases hnow
  exact Int.le_refl _

/-- The key leads to the newer owner's root, and its leases are stable. -/
theorem bound_stable : bound.BoundTo "!room" "campground" "site-7" "$second" ∧
    StableLeases "!room" bound "campground" "site-7" :=
  ⟨⟨605101, by decide +kernel, by decide +kernel⟩, thread_leases_stable bound_reachable "campground" "site-7"⟩

end LateOpener

end MindRoom
