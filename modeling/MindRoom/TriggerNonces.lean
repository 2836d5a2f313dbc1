import MindRoom.Systems
import MindRoom.ReplayStore
import MindRoom.TriggerAuth

/-! # Single use of a signed nonce

A signed request may be handled by any number of passes at once. A pass verifies the signature
and the timestamp, reads the clock, and claims the nonce, with any delay before each; other
callers of the store prune it meanwhile. Freshness is counted from the signed timestamp and the
nonce's retention from the claim, so a nonce stays single use as long as a pass claims it within
the retention of the claim before.
-/

namespace MindRoom

/-- How far one pass of a signed request has come. -/
inductive TriggerPass where
  | waiting
  | verified
  | claiming (now : Int)
  | claimed (now : Int) (accepted : Bool)
deriving DecidableEq

/-- The clock, the replay store and the passes of one signed request. -/
structure TriggerWorld where
  clock : Int
  store : ReplayStore
  pass : Nat → TriggerPass

/-- What can happen next. -/
inductive TriggerStep where
  | tick (clock : Int)
  | verify (p : Nat)
  | readClock (p : Nat)
  | claim (p : Nat)
  | other (call : ReplayStore.Call)

structure SignedTrigger where
  crypto : TriggerCrypto
  request : TriggerHttpRequest
  headers : TriggerSignatureHeaders
  keyId : String
  publicKey : String
  replayScope : String
  replayWindowSeconds : Int

namespace TriggerWorld

variable {w : TriggerWorld} {p q : Nat}

/-- The world after pass `p` moved on. -/
def setPass (w : TriggerWorld) (p : Nat) (pass : TriggerPass) : TriggerWorld :=
  { w with pass := fun q => if q = p then pass else w.pass q }

/-- Pass `p` was told that its claim is the first one. -/
def Accepted (w : TriggerWorld) (p : Nat) : Prop := ∃ now, w.pass p = .claimed now true

def SingleUse (w : TriggerWorld) : Prop := ∀ p q, w.Accepted p → w.Accepted q → p = q

theorem setPass_pass {pass : TriggerPass} : (w.setPass p pass).pass q = if q = p then pass else w.pass q := rfl

/-- A pass that moves on without an accepted claim is none of the accepted ones. -/
theorem claimed_of_setPass {pass : TriggerPass} {now : Int} (hpass : pass ≠ .claimed now true)
    (h : (w.setPass p pass).pass q = .claimed now true) : w.pass q = .claimed now true := by
  rw [setPass_pass] at h
  by_cases hq : q = p
  · rw [if_pos hq] at h
    exact absurd h hpass
  · rw [if_neg hq] at h
    exact h

end TriggerWorld

namespace SignedTrigger

variable (t : SignedTrigger)

/-- Claim the nonce with the time the pass read. -/
def claim (p : Nat) (now : Int) (w : TriggerWorld) : TriggerWorld :=
  let result := w.store.claimNonce t.replayScope t.headers.nonce now t.replayWindowSeconds
  { w.setPass p (.claimed now result.1) with store := result.2 }

/-- One step of the world. A call of another caller uses a time already past. -/
def step (a : TriggerStep) (w w' : TriggerWorld) : Prop :=
  match a with
  | .tick clock => w.clock ≤ clock ∧ w' = { w with clock := clock }
  | .verify p =>
    w.pass p = .waiting ∧
    verifyTriggerRequest t.crypto t.request t.headers t.keyId t.publicKey
      t.replayWindowSeconds w.clock = .ok () ∧
    w' = w.setPass p .verified
  | .readClock p => w.pass p = .verified ∧ w' = w.setPass p (.claiming w.clock)
  | .claim p => ∃ now, w.pass p = .claiming now ∧ w' = t.claim p now w
  | .other call =>
    (∀ now, call.now? = some now → now ≤ w.clock) ∧ w' = { w with store := call.run w.store }

/-- The passes of the request, from any store. -/
def system : System TriggerWorld TriggerStep where
  start w := ∀ p, w.pass p = .waiting
  step := t.step

/-- A claim runs within the retention of every claim accepted before it. -/
def ClaimsInTime (a : TriggerStep) (w : TriggerWorld) : Prop :=
  match a with
  | .claim _ => ∀ q now, w.pass q = .claimed now true → w.clock ≤ now + t.replayWindowSeconds
  | _ => True

/-- What a run of timely claims keeps: the times read are past, at most one claim was accepted,
and its nonce is in the store for as long as it is retained. -/
structure Retained (w : TriggerWorld) : Prop where
  past : ∀ p now, w.pass p = .claiming now → now ≤ w.clock
  single : w.SingleUse
  held : ∀ p now, w.pass p = .claimed now true → w.clock ≤ now + t.replayWindowSeconds →
    w.store.nonces.record? t.replayScope t.headers.nonce = some ⟨now + t.replayWindowSeconds⟩

variable {t} {w w' : TriggerWorld}

theorem Retained.start (h : ∀ p, w.pass p = .waiting) : t.Retained w where
  past p now hp := by
    rw [h p] at hp
    cases hp
  single p q hp _ := by
    rcases hp with ⟨now, hp⟩
    rw [h p] at hp
    cases hp
  held p now hp := by
    rw [h p] at hp
    cases hp

/-- A pass that moves on without a claim. -/
theorem Retained.setPass {p : Nat} {pass : TriggerPass} (h : t.Retained w)
    (hpast : ∀ now, pass = .claiming now → now ≤ w.clock)
    (hclaim : ∀ now, pass ≠ .claimed now true) : t.Retained (w.setPass p pass) where
  past q now hq := by
    rw [TriggerWorld.setPass_pass] at hq
    by_cases hqp : q = p
    · rw [if_pos hqp] at hq
      exact hpast now hq
    · rw [if_neg hqp] at hq
      exact h.past q now hq
  single q q' hq hq' := by
    rcases hq with ⟨now, hq⟩
    rcases hq' with ⟨now', hq'⟩
    exact h.single q q' ⟨now, TriggerWorld.claimed_of_setPass (hclaim now) hq⟩
      ⟨now', TriggerWorld.claimed_of_setPass (hclaim now') hq'⟩
  held q now hq hclock := h.held q now (TriggerWorld.claimed_of_setPass (hclaim now) hq) hclock

/-- A timely claim is refused once another one was accepted. -/
theorem Retained.refused {p q : Nat} {now earlier : Int} (h : t.Retained w)
    (hp : w.pass p = .claiming now) (hq : w.pass q = .claimed earlier true)
    (hclock : w.clock ≤ earlier + t.replayWindowSeconds) :
    (w.store.claimNonce t.replayScope t.headers.nonce now t.replayWindowSeconds).1 = false := by
  have hpast := h.past p now hp
  have hheld := ReplayStore.nonces_pruneExpired_of_le (h.held q earlier hq hclock)
    (show now ≤ _ by dsimp only; omega)
  cases haccept : (w.store.claimNonce t.replayScope t.headers.nonce now t.replayWindowSeconds).1 with
  | false => rfl
  | true =>
    rw [ReplayStore.claimNonce_eq_true.mp haccept] at hheld
    cases hheld

theorem Retained.claim {p : Nat} {now : Int} (h : t.Retained w) (hp : w.pass p = .claiming now)
    (htime : ∀ q now, w.pass q = .claimed now true → w.clock ≤ now + t.replayWindowSeconds) :
    t.Retained (t.claim p now w) := by
  have hpast := h.past p now hp
  cases haccept : (w.store.claimNonce t.replayScope t.headers.nonce now t.replayWindowSeconds).1 with
  | false =>
    have hmoved : t.Retained (w.setPass p (.claimed now false)) :=
      h.setPass (fun _ hpass => nomatch hpass) (fun _ hpass => nomatch hpass)
    -- a refused claim does not write the store
    have hstore : (w.store.claimNonce t.replayScope t.headers.nonce now
        t.replayWindowSeconds).2 = w.store := by
      unfold ReplayStore.claimNonce at haccept ⊢
      dsimp only at haccept ⊢
      split
      · rfl
      · next hnone =>
        simp only [hnone] at haccept
        cases haccept
    have hclaim : t.claim p now w = w.setPass p (.claimed now false) := by
      unfold SignedTrigger.claim
      simp only [haccept, hstore]
      rfl
    rw [hclaim]
    exact hmoved
  | true =>
    -- the first accepted claim: no other pass was accepted before
    have hfirst : ∀ q earlier, w.pass q ≠ .claimed earlier true := by
      intro q earlier hq
      have hrefused := h.refused hp hq (htime q earlier hq)
      rw [haccept] at hrefused
      cases hrefused
    have hpass : ∀ q, (t.claim p now w).pass q =
        if q = p then .claimed now true else w.pass q := by
      intro q
      show (if q = p then TriggerPass.claimed now _ else w.pass q) = _
      rw [haccept]
    have hself : ∀ q now', (t.claim p now w).pass q = .claimed now' true → q = p ∧ now' = now := by
      intro q now' hq
      rw [hpass] at hq
      by_cases hqp : q = p
      · rw [if_pos hqp] at hq
        cases hq
        exact ⟨hqp, rfl⟩
      · rw [if_neg hqp] at hq
        exact absurd hq (hfirst q now')
    refine ⟨?_, ?_, ?_⟩
    · intro q now' hq
      rw [hpass] at hq
      by_cases hqp : q = p
      · rw [if_pos hqp] at hq
        cases hq
      · rw [if_neg hqp] at hq
        exact h.past q now' hq
    · rintro q q' ⟨now₁, hq⟩ ⟨now₂, hq'⟩
      rw [(hself q now₁ hq).1, (hself q' now₂ hq').1]
    · intro q now' hq _
      rcases hself q now' hq with ⟨-, rfl⟩
      exact ReplayStore.nonces_claimNonce_of_true haccept

theorem Retained.step {a : TriggerStep} (h : t.Retained w)
    (hstep : t.ClaimsInTime a w ∧ t.step a w w') : t.Retained w' := by
  rcases hstep with ⟨htime, hstep⟩
  cases a with
  | tick clock =>
    rcases hstep with ⟨hclock, rfl⟩
    refine ⟨?_, h.single, ?_⟩
    · intro p now hp
      have := h.past p now hp
      show now ≤ clock
      omega
    · intro p now hp hlive
      have hlive : clock ≤ now + t.replayWindowSeconds := hlive
      exact h.held p now hp (by omega)
  | verify p =>
    rcases hstep with ⟨-, -, rfl⟩
    exact h.setPass (fun _ hpass => nomatch hpass) (fun _ hpass => nomatch hpass)
  | readClock p =>
    rcases hstep with ⟨-, rfl⟩
    refine h.setPass ?_ (fun _ hpass => nomatch hpass)
    intro now hpass
    cases hpass
    exact le_refl _
  | claim p =>
    rcases hstep with ⟨now, hp, rfl⟩
    exact h.claim hp htime
  | other call =>
    rcases hstep with ⟨hcall, rfl⟩
    refine ⟨h.past, h.single, ?_⟩
    intro p now hp hlive
    refine ReplayStore.nonces_run_of_le (h.held p now hp hlive) ?_
    intro past hpast
    have hlive : w.clock ≤ now + t.replayWindowSeconds := hlive
    have := hcall past hpast
    show past ≤ now + t.replayWindowSeconds
    omega

/-- The runs of timely claims keep the nonce. -/
theorem retained : (t.system.given t.ClaimsInTime).Invariant t.Retained where
  start _ hs := Retained.start hs
  step _ _ _ h hstep := h.step hstep

/-- A pass past its verification was signed no later than any time it read since. -/
structure Signed (t : SignedTrigger) (w : TriggerWorld) : Prop where
  verified : ∀ p, w.pass p = .verified →
    ∃ signedAt, parseTimestamp t.headers.timestamp = some signedAt ∧ signedAt ≤ w.clock
  claiming : ∀ p now, w.pass p = .claiming now →
    ∃ signedAt, parseTimestamp t.headers.timestamp = some signedAt ∧ signedAt ≤ now
  claimed : ∀ p now accepted, w.pass p = .claimed now accepted →
    ∃ signedAt, parseTimestamp t.headers.timestamp = some signedAt ∧ signedAt ≤ now

theorem Signed.setPass {p : Nat} {pass : TriggerPass} (h : t.Signed w) (hverified : pass = .verified →
      ∃ signedAt, parseTimestamp t.headers.timestamp = some signedAt ∧ signedAt ≤ w.clock)
    (hclaiming : ∀ now, pass = .claiming now →
      ∃ signedAt, parseTimestamp t.headers.timestamp = some signedAt ∧ signedAt ≤ now)
    (hclaimed : ∀ now accepted, pass = .claimed now accepted →
      ∃ signedAt, parseTimestamp t.headers.timestamp = some signedAt ∧ signedAt ≤ now) :
    t.Signed (w.setPass p pass) := by
  have hcases : ∀ q pass', (w.setPass p pass).pass q = pass' → pass = pass' ∨ w.pass q = pass' := by
    intro q pass' hq
    rw [TriggerWorld.setPass_pass] at hq
    by_cases hqp : q = p
    · rw [if_pos hqp] at hq
      exact .inl hq
    · rw [if_neg hqp] at hq
      exact .inr hq
  refine ⟨?_, ?_, ?_⟩
  · intro q hq
    rcases hcases q _ hq with hpass | hq
    · exact hverified hpass
    · exact h.verified q hq
  · intro q now hq
    rcases hcases q _ hq with hpass | hq
    · exact hclaiming now hpass
    · exact h.claiming q now hq
  · intro q now accepted hq
    rcases hcases q _ hq with hpass | hq
    · exact hclaimed now accepted hpass
    · exact h.claimed q now accepted hq

/-- Every run keeps what the verification established. -/
theorem signed : t.system.Invariant t.Signed where
  start w hw := by
    have hw : ∀ p, w.pass p = .waiting := hw
    constructor <;> intros <;> simp_all
  step a w w' h hstep := by
    cases a with
    | tick clock =>
      rcases hstep with ⟨hclock, rfl⟩
      refine ⟨?_, h.claiming, h.claimed⟩
      intro p hp
      rcases h.verified p hp with ⟨signedAt, hparse, hle⟩
      exact ⟨signedAt, hparse, le_trans hle hclock⟩
    | verify p =>
      rcases hstep with ⟨-, hverify, rfl⟩
      rcases fresh_of_checkTimestamp (checkTimestamp_of_verify hverify) with ⟨signedAt, hparse, hle, -⟩
      exact h.setPass (fun _ => ⟨signedAt, hparse, hle⟩) (fun _ hpass => nomatch hpass)
        (fun _ _ hpass => nomatch hpass)
    | readClock p =>
      rcases hstep with ⟨hp, rfl⟩
      refine h.setPass (fun hpass => nomatch hpass) ?_ (fun _ _ hpass => nomatch hpass)
      intro now hpass
      cases hpass
      exact h.verified p hp
    | claim p =>
      rcases hstep with ⟨now, hp, rfl⟩
      have hmoved : ∀ accepted, t.Signed (w.setPass p (.claimed now accepted)) := fun accepted =>
        h.setPass (fun hpass => nomatch hpass) (fun _ hpass => nomatch hpass) (by
          intro now' accepted' hpass
          cases hpass
          exact h.claiming p now hp)
      have hclaimed := hmoved
        (w.store.claimNonce t.replayScope t.headers.nonce now t.replayWindowSeconds).1
      exact ⟨hclaimed.verified, hclaimed.claiming, hclaimed.claimed⟩
    | other call =>
      rcases hstep with ⟨-, rfl⟩
      exact ⟨h.verified, h.claiming, h.claimed⟩

theorem clock_le {a : TriggerStep} (h : t.step a w w') : w.clock ≤ w'.clock := by
  cases a with
  | tick clock =>
    rw [h.2]
    exact h.1
  | verify p => rw [h.2.2, TriggerWorld.setPass]
  | readClock p => rw [h.2, TriggerWorld.setPass]
  | claim p =>
    rcases h with ⟨now, -, rfl⟩
    exact le_rfl
  | other call => rw [h.2]

/-- A claim that runs while its request is still fresh is timely: the window of the request ends
before the retention of any claim of it does. -/
theorem claimsInTime_of_fresh {signedAt : Int} {a : TriggerStep} (h : t.system.Reachable w)
    (hparse : parseTimestamp t.headers.timestamp = some signedAt)
    (hfresh : w.clock ≤ signedAt + t.replayWindowSeconds) : t.ClaimsInTime a w := by
  cases a with
  | claim p =>
    intro q now hq
    rcases (signed.reachable h).claimed q now true hq with ⟨signedAt', hparse', hle⟩
    rw [hparse] at hparse'
    cases hparse'
    omega
  | tick _ | verify _ | readClock _ | other _ => trivial

end SignedTrigger

/-- As long as the window of its timestamp lasts, a signed request has one claim accepted at most. -/
theorem single_use_within_window (t : SignedTrigger) {signedAt : Int} {w : TriggerWorld} (h : t.system.Reachable w)
    (hparse : parseTimestamp t.headers.timestamp = some signedAt) (hwindow : w.clock ≤ signedAt + t.replayWindowSeconds) :
    w.SingleUse := by
  suffices hgiven : (t.system.given t.ClaimsInTime).Reachable w from (SignedTrigger.retained.reachable hgiven).single
  rcases h with ⟨start, hstart, hrun⟩
  induction hrun with
  | refl => exact .start hstart
  | tail hbefore hs ih =>
    rcases hs with ⟨a, hs⟩
    have hclock := (SignedTrigger.clock_le hs).trans hwindow
    exact (ih hclock).next a ⟨SignedTrigger.claimsInTime_of_fresh ⟨start, hstart, hbefore⟩ hparse hclock, hs⟩

/-- In every run whose claims are timely, at most one pass of a signed request has its claim
accepted. -/
theorem nonce_single_use (t : SignedTrigger) {w : TriggerWorld}
    (h : (t.system.given t.ClaimsInTime).Reachable w) : w.SingleUse :=
  (SignedTrigger.retained.reachable h).single

/-! ## A late claim -/

namespace LateClaim

def publicKeyBytes : List UInt8 :=
  [215, 90, 152, 1, 130, 177, 10, 183, 213, 75, 254, 211, 201, 100, 7, 58, 14, 225, 114, 243, 218,
    166, 35, 37, 175, 2, 26, 104, 247, 7, 81, 26]

def signatureBytes : List UInt8 :=
  [92, 218, 12, 41, 151, 95, 20, 213, 238, 29, 33, 203, 224, 195, 226, 162, 176, 216, 64, 172, 1, 0,
    172, 210, 190, 85, 12, 18, 56, 80, 73, 156, 91, 123, 125, 30, 68, 31, 239, 228, 148, 2, 15, 80,
    96, 158, 38, 134, 207, 220, 187, 166, 251, 252, 116, 219, 89, 183, 223, 236, 194, 45, 232, 11]

def body : List UInt8 :=
  "\x7b\"kind\":\"k\",\"message\":\"m\"\x7d".toList.map fun c => UInt8.ofNat c.toNat

def bodyHash : String := "a9f3560e2be0f8e0321179852b14b4b18fb7f6281622a2c874437c05d921264d"

/-- The primitives on the values of the request. -/
def crypto : TriggerCrypto where
  sha256 bytes := if bytes = body then bodyHash else ""
  b64decode value :=
    if value = "11qYAYKxCrfVS/7TyWQHOg7hcvPapiMlrwIaaPcHURo=" then some publicKeyBytes
    else if value =
      "XNoMKZdfFNXuHSHL4MPiorDYQKwBAKzSvlUMEjhQSZxbe30eRB/v5JQCD1BgniaGz9y7pvv8dNtZt9/swi3oCw=="
      then some signatureBytes
    else none
  verifies key signature payload :=
    key = publicKeyBytes && signature = signatureBytes &&
      payload = "MINDROOM-TRIGGER-V1\nPOST\n/api/triggers/campground\n1710000000\nnonce-1\n" ++ bodyHash

/-- A request signed at second 1710000000 for a trigger with the default window. -/
def trigger : SignedTrigger where
  crypto := crypto
  request := ⟨"POST", "/api/triggers/campground", body⟩
  headers := ⟨"campground-main", "1710000000", "nonce-1",
    "XNoMKZdfFNXuHSHL4MPiorDYQKwBAKzSvlUMEjhQSZxbe30eRB/v5JQCD1BgniaGz9y7pvv8dNtZt9/swi3oCw=="⟩
  keyId := "campground-main"
  publicKey := "11qYAYKxCrfVS/7TyWQHOg7hcvPapiMlrwIaaPcHURo="
  replayScope := "campground"
  replayWindowSeconds := 300

def received : TriggerWorld := ⟨1710000000, ∅, fun _ => .waiting⟩

/-- The first pass is done within the second. -/
def first : TriggerWorld :=
  trigger.claim 0 1710000000 ((received.setPass 0 .verified).setPass 0 (.claiming 1710000000))

/-- The second pass verifies in the last second of the window and claims one second later. -/
def verifiedAgain : TriggerWorld := (TriggerWorld.setPass { first with clock := 1710000300 } 1 .verified)

def second : TriggerWorld :=
  trigger.claim 1 1710000301
    (TriggerWorld.setPass { verifiedAgain with clock := 1710000301 } 1 (.claiming 1710000301))

theorem accepted_first : first.pass 0 = .claimed 1710000000 true := by decide +kernel

theorem accepted_second : second.pass 1 = .claimed 1710000301 true := by decide +kernel

/-- The first pass claims in time: no claim was accepted before it. -/
theorem first_reachable : (trigger.system.given trigger.ClaimsInTime).Reachable first := by
  have hstart : (trigger.system.given trigger.ClaimsInTime).Reachable received :=
    .start fun _ => rfl
  have hverify : (trigger.system.given trigger.ClaimsInTime).Reachable
      (received.setPass 0 .verified) :=
    hstart.next (.verify 0) ⟨trivial, rfl, by decide +kernel, rfl⟩
  have hread : (trigger.system.given trigger.ClaimsInTime).Reachable
      ((received.setPass 0 .verified).setPass 0 (.claiming 1710000000)) :=
    hverify.next (.readClock 0) ⟨trivial, rfl, rfl⟩
  refine hread.next (.claim 0) ⟨?_, 1710000000, rfl, rfl⟩
  intro q now hq
  rw [TriggerWorld.setPass_pass, TriggerWorld.setPass_pass] at hq
  by_cases hq0 : q = 0
  · rw [if_pos hq0] at hq
    cases hq
  · rw [if_neg hq0, if_neg hq0] at hq
    cases hq

theorem second_reachable : trigger.system.Reachable second := by
  have hfirst : trigger.system.Reachable first := first_reachable.of_given
  have hwait : trigger.system.Reachable { first with clock := 1710000300 } :=
    hfirst.next (.tick 1710000300) ⟨by decide +kernel, rfl⟩
  have hverify : trigger.system.Reachable verifiedAgain :=
    hwait.next (.verify 1) ⟨by decide +kernel, by decide +kernel, rfl⟩
  have hlate : trigger.system.Reachable { verifiedAgain with clock := 1710000301 } :=
    hverify.next (.tick 1710000301) ⟨by decide +kernel, rfl⟩
  have hread : trigger.system.Reachable (TriggerWorld.setPass
      { verifiedAgain with clock := 1710000301 } 1 (.claiming 1710000301)) :=
    hlate.next (.readClock 1) ⟨by decide +kernel, rfl⟩
  exact hread.next (.claim 1) ⟨1710000301, by decide +kernel, rfl⟩

/-- The theorem at the first pass. -/
theorem first_single : first.Accepted 0 ∧ first.SingleUse :=
  ⟨⟨_, accepted_first⟩, nonce_single_use trigger first_reachable⟩

theorem first_within_window : first.SingleUse :=
  single_use_within_window trigger first_reachable.of_given (show _ = some 1710000000 by decide +kernel) (by decide +kernel)

/-- Two passes of one request both have their claims accepted. -/
theorem not_nonce_single_use : ¬ ∀ (t : SignedTrigger) (w : TriggerWorld), t.system.Reachable w → w.SingleUse := by
  intro h
  have hboth : (0 : Nat) = 1 := h trigger second second_reachable 0 1
    ⟨1710000000, by decide +kernel⟩ ⟨_, accepted_second⟩
  omega

end LateClaim

end MindRoom
