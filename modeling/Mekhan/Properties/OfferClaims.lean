import Mekhan.Properties.ClaimWithdrawal
import Mekhan.Service.PresenceCore

/-!
# Claims on parked offers

In a consent pool a member's claim is published with the dedup id `presence-claim:{grant_id}`, and
the engine drops a token whose place and dedup id it has seen. Two members that claim one offer
share the id, and so do two offers under one grant id.
-/

namespace Mekhan

open Infra Rhai

/-- A consent pool with the claims its members have published, and for each grant id the members
that have claimed it since an offer under it was last posted. -/
structure OfferPool extends PoolBus where
  claimed : List (String × String)

inductive OfferAction where
  /-- `inject_claim` for a member. -/
  | claim (grantId runnerId : String)
  | deliver (message : PoolMessage)
  /-- A step of the net, or a message of anybody else. -/
  | pool (a : PoolNet.Action)
  /-- The dedup id of such a message enters the filter. -/
  | note (place : PoolPlace) (dedupId : String)

namespace OfferPool

def init (cap : Nat) : OfferPool := ⟨.init cap, []⟩

def postsOffer (g : String) : PoolNet.Action → Bool
  | .fire t tokens =>
    (PoolNet.produces (.presence .consent) t tokens).any fun x =>
      x.1 = .offers ∧ prop x.2 "grant_id" = .str g
  | _ => false

/-- Only the presence controller claims offers. -/
def ofOthers : PoolNet.Action → Bool
  | .arrive .presenceClaim _ => false
  | _ => true

def step (s : OfferPool) : OfferAction → Option OfferPool
  | .claim grantId runnerId =>
    some { s with
      inFlight := .claim (claimInjection grantId runnerId) :: s.inFlight
      claimed := (grantId, runnerId) :: s.claimed }
  | .deliver message => (s.toPoolBus.deliver message).map fun bus => { s with toPoolBus := bus }
  | .pool a =>
    if ofOthers a then
      (PoolNet.step (.presence .consent) s.marking a).map fun marking =>
        { s with
          marking := marking
          claimed := s.claimed.filter fun x => !postsOffer x.1 a }
    else none
  | .note place dedupId => some { s with seen := s.seen.insert (place, dedupId) () }

/-! ## The condition -/

/-- An offer under the same grant id as the claim is parked. -/
def Parked (s : OfferPool) (claim : RhaiMap) : Prop :=
  ∃ x ∈ s.marking, x.1 = .offers ∧ prop x.2 "grant_id" = prop claim "grant_id"

instance (s : OfferPool) (claim : RhaiMap) : Decidable (s.Parked claim) :=
  Multiset.decidableExistsMultiset

/-- A claim that is delivered while its offer is parked is the first under its dedup id, or the same
claim waits already; and an offer arrives under a grant id that is neither queued nor parked. -/
def claimsApart (s : OfferPool) : OfferAction → Bool
  | .deliver message =>
    match message.dedupId with
    | some id =>
      s.seen.get (message.place, id) = none || message.token ∈ s.marking ||
        ¬ s.Parked message.color
    | none => true
  | .pool (.arrive .claimInbox claim) =>
    match prop claim "grant_id" with
    | .str g => total (PoolNet.claimAt g) s.marking = 0
    | _ => true
  | _ => true

/-! ## The invariant -/

/-- The claim of a member, as a message and as a token. -/
def claimOf (g member : String) : PoolMessage := .claim (claimInjection g member)

/-- One offer at most under each grant id, and a member's claim on it is under way or waiting. -/
structure Kept (s : OfferPool) : Prop where
  claims : ∀ message ∈ s.inFlight, ∃ g member, message = claimOf g member
  once : ∀ g, total (PoolNet.claimAt g) s.marking ≤ 1
  waiting : ∀ g member, (g, member) ∈ s.claimed →
    ∀ offer, (.offers, offer) ∈ s.marking → prop offer "grant_id" = .str g →
      claimOf g member ∈ s.inFlight ∨ (claimOf g member).token ∈ s.marking

theorem kept_init (cap : Nat) : (init cap).Kept where
  claims := fun _ h => absurd h (List.not_mem_nil)
  once := fun _ => Nat.zero_le 1
  waiting := fun _ _ h => by simp [init] at h

variable {s s' : OfferPool} {a : OfferAction}

/-! ## One step -/

theorem kept_claim (hs : s.Kept) (g member : String) : Kept { s with
      inFlight := claimOf g member :: s.inFlight
      claimed := (g, member) :: s.claimed } where
  claims := fun message hmessage => by
    rcases List.mem_cons.mp hmessage with rfl | hmessage
    · exact ⟨g, member, rfl⟩
    · exact hs.claims message hmessage
  once := hs.once
  waiting := fun g' member' hclaimed offer hoffer hg => by
    rcases List.mem_cons.mp hclaimed with heq | hclaimed
    · cases heq
      exact Or.inl List.mem_cons_self
    · exact (hs.waiting g' member' hclaimed offer hoffer hg).imp (List.mem_cons_of_mem _) id

theorem delivered_claim {g member : String} {bus : PoolBus}
    (hc : claimsApart s (.deliver (claimOf g member)) = true)
    (h : s.toPoolBus.deliver (claimOf g member) = some bus) : (claimOf g member).token ∈ bus.marking ∨
      ¬ s.Parked (claimInjection g member).tokenColor := by
  obtain ⟨-, -, hmarking | ⟨hmarking, id, hid, hseen⟩⟩ := PoolBus.deliver_cases h
  · rw [hmarking]
    exact Or.inl (Multiset.mem_cons_self ..)
  · simp only [claimsApart, hid, Bool.or_eq_true, decide_eq_true_eq] at hc
    rw [hmarking]
    rcases hc with (hfirst | hwaits) | hnone
    · exact absurd hfirst hseen
    · exact Or.inl hwaits
    · exact Or.inr hnone

theorem kept_deliver (hs : s.Kept) {message : PoolMessage} {bus : PoolBus}
    (hc : claimsApart s (.deliver message) = true) (h : s.toPoolBus.deliver message = some bus) :
    Kept { s with toPoolBus := bus } := by
  obtain ⟨hmem, hflight, hmarking⟩ := PoolBus.deliver_cases h
  obtain ⟨g₀, member₀, rfl⟩ := hs.claims message hmem
  have hplace : (claimOf g₀ member₀).token.1 = .presenceClaim := rfl
  have hoffers : ∀ x ∈ bus.marking, x.1 ≠ .presenceClaim → x ∈ s.marking := by
    intro x hx hne
    rcases hmarking with hmarking | ⟨hmarking, -⟩
    · rw [hmarking] at hx
      exact (Multiset.mem_cons.mp hx).resolve_left fun heq => hne (heq ▸ hplace)
    · rwa [hmarking] at hx
  have hgrown : ∀ x ∈ s.marking, x ∈ bus.marking := by
    intro x hx
    rcases hmarking with hmarking | ⟨hmarking, -⟩
    · rw [hmarking]
      exact Multiset.mem_cons_of_mem hx
    · rwa [hmarking]
  refine ⟨fun message hmessage => ?_, fun g => ?_, fun g member hclaimed offer hoffer hg => ?_⟩
  · rw [hflight] at hmessage
    exact hs.claims message (List.mem_of_mem_erase hmessage)
  · have hzero : PoolNet.claimAt g (claimOf g₀ member₀).token = 0 := by
      simp [PoolNet.claimAt, hplace]
    have honce := hs.once g
    rcases hmarking with hmarking | ⟨hmarking, -⟩
    · simp only [hmarking, total_cons, hzero, zero_add]
      exact honce
    · simp only [hmarking]
      exact honce
  · have hparked : (.offers, offer) ∈ s.marking := hoffers _ hoffer (by simp)
    rcases hs.waiting g member hclaimed offer hparked hg with hw | hw
    · by_cases heq : claimOf g member = claimOf g₀ member₀
      · rw [← heq] at hc h
        refine Or.inr ((delivered_claim hc h).resolve_right fun hnone => hnone ?_)
        exact ⟨_, hparked, rfl, hg⟩
      · left
        show claimOf g member ∈ bus.inFlight
        rw [hflight]
        exact (List.mem_erase_of_ne heq).mpr hw
    · exact Or.inr (hgrown _ hw)

theorem waiting_pool {m m' : PoolMarking} {a : PoolNet.Action} {g : String} (member : String)
    (honce : total (PoolNet.claimAt g) m ≤ 1)
    (h : PoolNet.step (.presence .consent) m a = some m') (hpost : postsOffer g a = false)
    {offer : RhaiMap} (hoffer : (.offers, offer) ∈ m') (hg : prop offer "grant_id" = .str g) :
    (.offers, offer) ∈ m ∧ ((claimOf g member).token ∈ m → (claimOf g member).token ∈ m') := by
  cases PoolNet.stepped h with
  | arrive hplace =>
    refine ⟨(Multiset.mem_cons.mp hoffer).resolve_left ?_, Multiset.mem_cons_of_mem⟩
    intro heq
    rw [(Prod.mk.inj heq).1.symm] at hplace
    exact PoolNet.offers_notMem_inboxes _ hplace
  | register hm hreg =>
    subst hm
    refine ⟨Multiset.mem_cons_of_mem ((Multiset.mem_cons.mp hoffer).resolve_left (by simp)), ?_⟩
    intro hclaim
    refine Multiset.mem_cons_of_mem ((Multiset.mem_cons.mp hclaim).resolve_left ?_)
    simp [claimOf, PoolMessage.token, PoolMessage.place]
  | fire hfires hproduced hm =>
    rename_i t tokens rest consumed produced
    subst hm
    -- The offer is not one that the firing posts.
    have hrest : (.offers, offer) ∈ rest := by
      refine (Multiset.mem_add.mp hoffer).resolve_right fun hnew => ?_
      rw [postsOffer, hproduced, List.any_eq_false] at hpost
      exact hpost _ hnew (by simp [hg])
    refine ⟨Multiset.mem_add.mpr (Or.inl hrest), fun hclaim => Multiset.mem_add.mpr (Or.inl ?_)⟩
    refine (Multiset.mem_add.mp hclaim).resolve_right fun hused => ?_
    -- Only `t_claim` takes a claim, and it takes the offer with it.
    cases hfires with
    | claim hconsent hid hsat =>
      rename_i offer₁ claim unit
      have hclaim' : claim = (claimInjection g member).tokenColor := by
        simpa [claimOf, PoolMessage.token, PoolMessage.place, PoolMessage.color, eq_comm]
          using hused
      have hid' : prop offer₁ "grant_id" = .str g := by
        rw [hclaim'] at hid
        exact eq_str_left.mp hid
      obtain ⟨rest', rfl⟩ := Multiset.exists_cons_of_mem hrest
      rw [total_add, total_cons, total_coe] at honce
      simp [PoolNet.claimAt, hg, hid'] at honce
    | recycle hended =>
      rcases hended with rfl | rfl <;> simp [claimOf, PoolMessage.token, PoolMessage.place] at hused
    | _ => simp [claimOf, PoolMessage.token, PoolMessage.place] at hused

theorem kept_pool (hs : s.Kept) {a : PoolNet.Action} {marking : PoolMarking}
    (hc : claimsApart s (.pool a) = true) (h : PoolNet.step (.presence .consent) s.marking a = some marking) :
    Kept { s with
      marking := marking
      claimed := s.claimed.filter fun x => !postsOffer x.1 a } where
  claims := hs.claims
  once := fun g => by
    have hle := PoolNet.claims_step_le (g := g) h
    have honce := hs.once g
    cases hsend : PoolNet.sendsClaim g a with
    | false =>
      rw [hsend] at hle
      exact hle.trans honce
    | true =>
      rw [hsend, if_pos rfl] at hle
      -- The claim arrives, so none under its grant id was there.
      have hnone : total (PoolNet.claimAt g) s.marking = 0 := by
        unfold PoolNet.sendsClaim at hsend
        split at hsend
        · next claim =>
          simpa [claimsApart, of_decide_eq_true hsend] using hc
        · cases hsend
      exact hle.trans (by omega)
  waiting := fun g member hclaimed offer hoffer hg => by
    obtain ⟨hclaimed, hpost⟩ := List.mem_filter.mp hclaimed
    obtain ⟨hparked, htoken⟩ := waiting_pool member (hs.once g) h (by simpa using hpost) hoffer hg
    exact (hs.waiting g member hclaimed offer hparked hg).imp id htoken

theorem kept_step (hs : s.Kept) (hc : claimsApart s a = true) (h : step s a = some s') : s'.Kept := by
  cases a with
  | claim g member =>
    cases h
    exact kept_claim hs g member
  | deliver message =>
    obtain ⟨bus, hbus, rfl⟩ := Option.map_eq_some_iff.mp h
    exact kept_deliver hs hc hbus
  | pool a =>
    simp only [step] at h
    split at h
    · obtain ⟨marking, hmarking, rfl⟩ := Option.map_eq_some_iff.mp h
      exact kept_pool hs hc hmarking
    · cases h
  | note place dedupId =>
    cases h
    exact ⟨hs.claims, hs.once, hs.waiting⟩

/-! ## Every run -/

/-- **A member's claim on a parked offer is not lost.** In every run that meets the condition, once
the claims are delivered and the net is at rest, a member that has claimed the grant id since the
parked offer was posted has no free unit that satisfies the offer. -/
theorem claim_not_lost (cap : Nat) {run : List OfferAction} {s : OfferPool}
    (hapart : Along step (fun s a => claimsApart s a = true) (init cap) run)
    (h : exec step (init cap) run = some s) (hdelivered : s.inFlight = [])
    (hquiet : Quiescent (PoolNet.buildPoolNet (.presence .consent)) s.marking)
    {g member : String} (hclaimed : (g, member) ∈ s.claimed)
    {offer : RhaiMap} (hoffer : (.offers, offer) ∈ s.marking) (hg : prop offer "grant_id" = .str g)
    {unit : RhaiMap} (hunit : (.pool, unit) ∈ s.marking) (hmember : prop unit "runner_id" = .str member) :
    satisfies (prop offer "requirements") (prop unit "caps") = false := by
  have hs : s.Kept :=
    exec_invariant_along (fun _ _ _ hs hc h => kept_step hs hc h) (kept_init cap) hapart h
  have hwaiting : (claimOf g member).token ∈ s.marking := by
    refine (hs.waiting g member hclaimed offer hoffer hg).resolve_left ?_
    rw [hdelivered]
    exact List.not_mem_nil
  -- The offer, the claim and the unit are all there, so it is the guard that `t_claim` fails at.
  have hguard : (PoolNet.tClaim (.presence .consent)).guard
      [offer, (claimInjection g member).tokenColor, unit] = false := by
    refine hquiet.guard_eq_false (t := .tClaim) rfl (by decide) _ rfl ?_
    simpa [PoolNet.tClaim] using ⟨hoffer, hwaiting, hunit⟩
  have hid : prop (claimInjection g member).tokenColor "grant_id" = .str g := rfl
  have hrunner : prop (claimInjection g member).tokenColor "runner_id" = .str member := rfl
  simpa only [PoolNet.tClaim, hid, hrunner, hg, hmember, eq_str_self, Bool.true_and] using hguard

/-- A free unit of a member without any capability. -/
def unitOf (member : String) : RhaiMap :=
  [("unit_id", .str (member ++ "#0@1")), ("runner_id", .str member),
    ("executor_namespace", .null), ("caps", .obj [])]

/-- The offer of a task, as the claimant sends it. -/
def taskClaim (requirements : Json) : RhaiMap :=
  [("grant_id", .str "run:task"), ("requirements", requirements), ("request", .null)]

/-- A member is available and the task is offered. -/
def offerTask (requirements : Json) : List OfferAction :=
  [.pool (.arrive .presenceAcquire (unitOf "m")), .pool (.fire .tPresenceAcquire [unitOf "m"]),
    .pool (.arrive .claimInbox (taskClaim requirements)),
    .pool (.fire .tPostOffer [taskClaim requirements])]

def welding : Json :=
  .obj [("constraints", .arr [.obj [("capability", .str "welding"), ("field", .str "level"),
    ("op", .str "exists")]])]

/-- A member claims a task it has not the capability for. -/
theorem claim_not_lost_unmet : ∃ s, exec step (init 100)
        (offerTask welding ++ [.claim "run:task" "m", .deliver (claimOf "run:task" "m")]) = some s ∧
      satisfies welding (.obj []) = false :=
  ⟨_, rfl, @claim_not_lost 100
    (offerTask welding ++ [.claim "run:task" "m", .deliver (claimOf "run:task" "m")]) _ (by decide)
    rfl rfl (by decide) "run:task" "m" (by decide) (taskClaim welding) (by decide) rfl (unitOf "m")
    (by decide) rfl⟩

/-- The lease the pool sends out when the member claims the task. -/
def taskLease : RhaiMap := ("grant_id", .str "run:task") :: unitOf "m"

/-- The member claims the task and works it off, and the same node offers the task again. -/
def claimTwice : List OfferAction :=
  offerTask (.obj []) ++
    [.claim "run:task" "m", .deliver (claimOf "run:task" "m"),
      .pool (.fire .tClaim [taskClaim (.obj []), (claimInjection "run:task" "m").tokenColor,
        unitOf "m"]),
      .pool (.register taskLease taskLease), .pool (.fire .tRegister [taskLease]),
      .pool (.arrive .releaseInbox [("grant_id", .str "run:task")]),
      .pool (.fire .tRelease [[("grant_id", .str "run:task")],
        PoolNet.copy (PoolNet.holdKeys (.presence .consent)) taskLease]),
      .pool (.arrive .claimInbox (taskClaim (.obj []))),
      .pool (.fire .tPostOffer [taskClaim (.obj [])]),
      .claim "run:task" "m", .deliver (claimOf "run:task" "m")]

/-- The second claim is delivered and dropped; the member's unit is free and satisfies the offer. -/
theorem claim_lost : ∃ s, exec step (init 100) claimTwice = some s ∧ s.inFlight = [] ∧
      Quiescent (PoolNet.buildPoolNet (.presence .consent)) s.marking ∧
      ("run:task", "m") ∈ s.claimed ∧ (.offers, taskClaim (.obj [])) ∈ s.marking ∧
      (.pool, unitOf "m") ∈ s.marking ∧ satisfies (.obj []) (.obj []) = true :=
  ⟨_, rfl, rfl, by decide, by decide, by decide, by decide, by decide⟩

end OfferPool

end Mekhan
