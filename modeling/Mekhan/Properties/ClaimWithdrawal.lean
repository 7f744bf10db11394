import Mekhan.Infra.Runs
import Mekhan.Service.PoolNet

/-!
# Withdrawn claims

A claimant that is torn down sends `{ grant_id }` to `withdraw_inbox`, and `t_withdraw` drops the
claim with that grant id from `claim_inbox`. In a consent pool `t_post_offer` has by then moved the
claim on to `offers`, where no transition withdraws it.
-/

namespace Mekhan

namespace PoolNet

open Infra Rhai

def sendsClaim (g : String) : Action → Bool
  | .arrive .claimInbox claim => prop claim "grant_id" = .str g
  | _ => false

def emitsGrant (source : CapacitySource) (g : String) : Action → Bool
  | .fire t tokens =>
    (produces source t tokens).any fun x => x.1 = .grantOutbox ∧ prop x.2 "grant_id" = .str g
  | _ => false

/-! ## Counting claims and withdrawals -/

/-- A claim for the grant id, queued or parked. -/
def claimAt (g : String) (x : PoolPlace × RhaiMap) : Nat :=
  if (x.1 = .claimInbox ∨ x.1 = .offers) ∧ prop x.2 "grant_id" = .str g then 1 else 0

def withdrawAt (g : String) (x : PoolPlace × RhaiMap) : Nat :=
  if x.1 = .withdrawInbox ∧ prop x.2 "grant_id" = .str g then 1 else 0

variable {source : CapacitySource} {g : String} {m m' : PoolMarking} {a : Action}

variable {consumed produced : List (PoolPlace × RhaiMap)}

theorem Fires.claims_le (h : Fires source consumed produced) :
    (produced.map (claimAt g)).sum ≤ (consumed.map (claimAt g)).sum ∧
      ((produced.map (claimAt g)).sum < (consumed.map (claimAt g)).sum ∨
        (consumed.map (withdrawAt g)).sum ≤ (produced.map (withdrawAt g)).sum) := by
  cases h with
  | withdraw hid =>
    rename_i wd claim
    by_cases hg : prop wd "grant_id" = .str g
    · rw [hg, eq_str_left] at hid
      simp [claimAt, hid]
    · simp [claimAt, withdrawAt, hg]
  | postOffer => simp [claimAt, withdrawAt, prop_copy]
  | recycle hended => rcases hended with rfl | rfl <;> simp [claimAt, withdrawAt]
  | _ => simp [claimAt, withdrawAt]

theorem claims_step (h : step source m a = some m') (hsend : sendsClaim g a = false) :
    total (claimAt g) m' ≤ total (claimAt g) m ∧ (total (claimAt g) m' < total (claimAt g) m ∨
        total (withdrawAt g) m ≤ total (withdrawAt g) m') := by
  cases stepped h with
  | fire hfires _ hm =>
    obtain ⟨hle, hor⟩ := hfires.claims_le (g := g)
    simp only [hm, total_add, total_coe]
    omega
  | arrive hplace =>
    rename_i place token
    have hclaim : claimAt g (place, token) = 0 := by
      cases place with
      | claimInbox => simpa [claimAt, sendsClaim] using hsend
      | offers => exact absurd hplace (offers_notMem_inboxes source)
      | _ => simp [claimAt]
    simp only [total_cons, hclaim]
    omega
  | register hm hreg =>
    rw [hm, total_cons, total_cons, total_cons, total_cons]
    simp [claimAt, withdrawAt]

theorem Fires.claims_spent (h : Fires source consumed produced) : (produced.map (claimAt g)).sum +
    (if produced.any (fun x => x.1 = .grantOutbox ∧ prop x.2 "grant_id" = .str g) then 1 else 0) ≤
      (consumed.map (claimAt g)).sum := by
  cases h with
  | recycle hended => rcases hended with rfl | rfl <;> simp [claimAt]
  | _ => simp [claimAt, prop_copy]

/-- A grant is made out of a claim. -/
theorem grants_step_le (h : step source m a = some m') :
    total (claimAt g) m' + (if emitsGrant source g a then 1 else 0) ≤
      total (claimAt g) m + (if sendsClaim g a then 1 else 0) := by
  cases stepped h with
  | fire hfires hproduced hm =>
    have hspent := hfires.claims_spent (g := g)
    rw [emitsGrant, hproduced, hm, total_add, total_add, total_coe, total_coe]
    omega
  | arrive hplace =>
    rename_i place token
    have hsent : claimAt g (place, token) ≤ if sendsClaim g (.arrive place token) then 1 else 0 := by
      cases place <;> simp [claimAt, sendsClaim, offers_notMem_inboxes source] at hplace ⊢
    show total (claimAt g) _ + 0 ≤ _
    rw [total_cons]
    omega
  | register hm =>
    rw [hm, total_cons, total_cons]
    simp [claimAt, emitsGrant]

theorem claims_step_le (h : step source m a = some m') :
    total (claimAt g) m' ≤ total (claimAt g) m + (if sendsClaim g a then 1 else 0) :=
  (Nat.le_add_right ..).trans (grants_step_le h)

theorem total_claimAt_seeds (source : CapacitySource) : total (claimAt g) (seeds source) = 0 := by
  by_contra hne
  obtain ⟨x, hx, hpos⟩ := exists_mem_of_total_ne_zero hne
  cases source with
  | seeded capacity =>
    obtain ⟨i, -, rfl⟩ := List.mem_map.mp (Multiset.mem_coe.mp hx)
    simp [claimAt] at hpos
  | presence acceptance => exact absurd hx (Multiset.notMem_zero x)

theorem claims_exec : ∀ {run : List Action} {m : PoolMarking}, exec (step source) m run = some m' →
    total (claimAt g) m' + run.countP (emitsGrant source g) ≤ total (claimAt g) m + run.countP (sendsClaim g)
  | [], m, h => by
    rw [← Option.some.inj h]
    exact Nat.le_refl _
  | a :: run, m, h => by
    obtain ⟨m₁, hstep, hrun⟩ := exec_cons_eq_some.mp h
    have hfirst := grants_step_le (g := g) hstep
    have hrest := claims_exec hrun
    rw [List.countP_cons, List.countP_cons]
    omega

/-! ## From the withdrawal to rest -/

/-- Once the withdrawal is in, the claim is gone or the withdrawal still waits for it. -/
def Withdrawn (g : String) (m : PoolMarking) : Prop :=
  total (claimAt g) m = 0 ∨ total (claimAt g) m ≤ 1 ∧ 1 ≤ total (withdrawAt g) m

theorem withdrawn_step (hm : Withdrawn g m) (hsend : sendsClaim g a = false)
    (h : step source m a = some m') : Withdrawn g m' := by
  obtain ⟨hle, hor⟩ := claims_step h hsend
  rcases hm with hzero | ⟨hone, hwd⟩
  · exact Or.inl (by omega)
  · rcases hor with hlt | hkept
    · exact Or.inl (by omega)
    · exact Or.inr ⟨by omega, by omega⟩

/-- Every action of a run sends no claim for the grant id. -/
def NoClaim (g : String) (run : List Action) : Prop := ∀ a ∈ run, sendsClaim g a = false

theorem Withdrawn.no_queued_claim (hm : Withdrawn g m) (hquiet : Quiescent (buildPoolNet source) m)
    {claim : RhaiMap} (hclaim : (.claimInbox, claim) ∈ m) : prop claim "grant_id" ≠ .str g := by
  intro hg
  have hcount : 1 ≤ total (claimAt g) m := by
    refine le_trans (le_of_eq ?_) (weight_le_total (claimAt g) hclaim)
    simp [claimAt, hg]
  have hwaiting : total (withdrawAt g) m ≠ 0 := by
    rcases hm with hzero | ⟨-, hwd⟩ <;> omega
  obtain ⟨⟨place, wd⟩, hwd, hpos⟩ := exists_mem_of_total_ne_zero hwaiting
  have hwd' : place = .withdrawInbox ∧ prop wd "grant_id" = .str g := by
    by_contra hne
    simp [withdrawAt, hne] at hpos
  obtain ⟨rfl, hwdg⟩ := hwd'
  -- The withdrawal and the claim are both there, so `t_withdraw` would be enabled.
  have hguard : tWithdraw.guard [wd, claim] = false := by
    refine hquiet.guard_eq_false (t := .tWithdraw) rfl (by decide) _ rfl ?_
    simpa [tWithdraw] using ⟨hwd, hclaim⟩
  simp [tWithdraw, correlate, hwdg, hg] at hguard

/-! ## After rest -/

/-- No claim for the grant id is queued, and one that is parked asks for what no unit has. -/
structure Barred (g : String) (m : PoolMarking) : Prop where
  queued : ∀ claim, (.claimInbox, claim) ∈ m → prop claim "grant_id" ≠ .str g
  parked : ∀ offer, (.offers, offer) ∈ m → prop offer "grant_id" = .str g →
    ∀ caps, satisfies (prop offer "requirements") caps = false

/-- The tokens a barred marking may not have. -/
def Grantable (g : String) (x : PoolPlace × RhaiMap) : Prop :=
  prop x.2 "grant_id" = .str g ∧
    (x.1 = .claimInbox ∨
      x.1 = .offers ∧ ∃ caps, satisfies (prop x.2 "requirements") caps = true)

theorem barred_iff : Barred g m ↔ ∀ x ∈ m, ¬ Grantable g x := by
  constructor
  · rintro h ⟨place, token⟩ hx ⟨hg, rfl | ⟨rfl, caps, hsat⟩⟩
    · exact h.queued token hx hg
    · rw [h.parked token hx hg caps] at hsat
      cases hsat
  · intro h
    refine ⟨fun claim hclaim hg => h _ hclaim ⟨hg, Or.inl rfl⟩, fun offer hoffer hg caps => ?_⟩
    by_contra hsat
    exact h _ hoffer ⟨hg, Or.inr ⟨rfl, caps, by simpa using hsat⟩⟩

theorem Fires.not_grantable (h : Fires source consumed produced) (hbar : ∀ x ∈ consumed, ¬ Grantable g x) :
    ∀ x ∈ produced, ¬ Grantable g x ∧ (x.1 = .grantOutbox → prop x.2 "grant_id" ≠ .str g) := by
  cases h with
  | grant hauto =>
    rename_i claim unit
    have hclaim : prop claim "grant_id" ≠ .str g := fun hg =>
      hbar _ List.mem_cons_self ⟨hg, Or.inl rfl⟩
    simp [Grantable, hclaim]
  | postOffer hconsent =>
    rename_i claim
    have hclaim : prop claim "grant_id" ≠ .str g := fun hg =>
      hbar _ List.mem_cons_self ⟨hg, Or.inl rfl⟩
    simp [Grantable, prop_copy, hclaim]
  | claim hconsent hid hsat =>
    rename_i offer claim unit
    have hoffer : prop offer "grant_id" ≠ .str g := fun hg =>
      hbar _ List.mem_cons_self ⟨hg, Or.inr ⟨rfl, prop unit "caps", hsat⟩⟩
    simp [Grantable, hoffer]
  | _ => simp [Grantable]

theorem barred_step (hm : Barred g m) (hsend : sendsClaim g a = false)
    (h : step source m a = some m') : Barred g m' ∧ emitsGrant source g a = false := by
  rw [barred_iff] at hm ⊢
  cases stepped h with
  | fire hfires hproduced hrest =>
    subst hrest
    have hnew := hfires.not_grantable (g := g) fun x hx => hm x (Multiset.mem_add.mpr (Or.inr hx))
    constructor
    · intro x hx
      rcases Multiset.mem_add.mp hx with hx | hx
      · exact hm x (Multiset.mem_add.mpr (Or.inl hx))
      · exact (hnew x hx).1
    · rw [emitsGrant, hproduced, List.any_eq_false]
      intro x hx
      simpa using (hnew x hx).2
  | arrive hplace =>
    rename_i place token
    refine ⟨fun x hx => ?_, rfl⟩
    rcases Multiset.mem_cons.mp hx with rfl | hx
    · rintro ⟨hg, rfl | ⟨rfl, -⟩⟩
      · simp [sendsClaim, hg] at hsend
      · exact offers_notMem_inboxes source hplace
    · exact hm x hx
  | register hrest hreg =>
    subst hrest
    refine ⟨fun x hx => ?_, rfl⟩
    rcases Multiset.mem_cons.mp hx with rfl | hx
    · simp [Grantable]
    · exact hm x (Multiset.mem_cons_of_mem hx)

theorem barred_exec : ∀ {run : List Action} {m : PoolMarking}, Barred g m → NoClaim g run →
    exec (step source) m run = some m' → ∀ a ∈ run, emitsGrant source g a = false
  | [], _, _, _, _ => by simp
  | a :: run, m, hm, hsend, h => by
    obtain ⟨m₁, hstep, hrun⟩ := exec_cons_eq_some.mp h
    obtain ⟨hm₁, hemit⟩ := barred_step hm (hsend a List.mem_cons_self) hstep
    intro b hb
    rcases List.mem_cons.mp hb with rfl | hb
    · exact hemit
    · exact barred_exec hm₁ (fun c hc => hsend c (List.mem_cons_of_mem _ hc)) hrun b hb

/-! ## A parked offer can still be granted -/

theorem Fires.consent_of_offer
    (h : Fires source consumed produced) {offer : RhaiMap} (hoffer : (.offers, offer) ∈ produced) :
    source = .presence .consent := by
  cases h with
  | postOffer hconsent => exact hconsent
  | _ => simp at hoffer

theorem no_offer_step (hsource : source ≠ .presence .consent) (hm : ∀ offer, (.offers, offer) ∉ m)
    (h : step source m a = some m') : ∀ offer, (.offers, offer) ∉ m' := by
  intro offer hoffer
  cases stepped h with
  | fire hfires hproduced hrest =>
    subst hrest
    rcases Multiset.mem_add.mp hoffer with hold | hnew
    · exact hm offer (Multiset.mem_add.mpr (Or.inl hold))
    · exact hsource (hfires.consent_of_offer hnew)
  | arrive hplace =>
    rcases Multiset.mem_cons.mp hoffer with heq | hold
    · rw [← (Prod.mk.inj heq).1] at hplace
      exact offers_notMem_inboxes source hplace
    · exact hm offer hold
  | register hrest hreg =>
    subst hrest
    rcases Multiset.mem_cons.mp hoffer with heq | hold
    · simp at heq
    · exact hm offer (Multiset.mem_cons_of_mem hold)

theorem no_offer_seeds (source : CapacitySource) (offer : RhaiMap) : (.offers, offer) ∉ seeds source := by
  cases source with
  | seeded capacity => simp [seeds]
  | presence acceptance => exact Multiset.notMem_zero _

theorem consent_of_offer {run : List Action} (h : exec (step source) (seeds source) run = some m)
    {offer : RhaiMap} (hoffer : (.offers, offer) ∈ m) : source = .presence .consent := by
  by_contra hne
  have hnone : ∀ offer, (PoolPlace.offers, offer) ∉ m :=
    exec_invariant (fun _ _ _ hm h => no_offer_step hne hm h) (no_offer_seeds source) h
  exact hnone offer hoffer

/-- A unit of a member with the given caps, as the presence controller sends it. -/
def unitWith (caps : Json) : RhaiMap :=
  [("unit_id", .str "member#0@1"), ("runner_id", .str "member"),
    ("executor_namespace", .str "runner-jobs/member"), ("caps", caps)]

def memberClaim (g : String) : RhaiMap := [("grant_id", .str g), ("runner_id", .str "member")]

/-- A member checks in and claims the offer. -/
def claimLate (g : String) (offer : RhaiMap) (caps : Json) : List Action :=
  [.arrive .presenceAcquire (unitWith caps),
    .fire .tPresenceAcquire [unitWith caps],
    .arrive .presenceClaim (memberClaim g),
    .fire .tClaim [offer, memberClaim g, unitWith caps]]

theorem exists_claimLate {offer : RhaiMap} {caps : Json} (hoffer : (.offers, offer) ∈ m)
    (hg : prop offer "grant_id" = .str g) (hsat : satisfies (prop offer "requirements") caps = true) :
    ∃ m', exec (step (.presence .consent)) m (claimLate g offer caps) = some m' := by
  obtain ⟨rest, rfl⟩ := Multiset.exists_cons_of_mem hoffer
  have hacquire : step (.presence .consent)
      ((.presenceAcquire, unitWith caps) ::ₘ (.offers, offer) ::ₘ rest)
        (.fire .tPresenceAcquire [unitWith caps]) =
      some ((.offers, offer) ::ₘ rest + ↑[(PoolPlace.pool, unitWith caps)]) := by
    refine NetTransition.fire?_eq_some.mpr ⟨rfl, rfl, (.offers, offer) ::ₘ rest, ?_, rfl⟩
    exact (Multiset.singleton_add _ _).symm.trans (add_comm _ _)
  have hclaim : ∃ m', step (.presence .consent)
      ((.presenceClaim, memberClaim g) ::ₘ
        ((.offers, offer) ::ₘ rest + ↑[(PoolPlace.pool, unitWith caps)]))
        (.fire .tClaim [offer, memberClaim g, unitWith caps]) = some m' := by
    refine NetTransition.exists_fire (by decide) rfl ?_ ?_
    · show (Rhai.eq (prop (memberClaim g) "grant_id") (prop offer "grant_id") &&
        Rhai.eq (prop (memberClaim g) "runner_id") (prop (unitWith caps) "runner_id") &&
        satisfies (prop offer "requirements") (prop (unitWith caps) "caps")) = true
      have hid : prop (memberClaim g) "grant_id" = .str g := rfl
      have hcaps : prop (unitWith caps) "caps" = caps := rfl
      rw [hid, hg, hcaps, hsat]
      simp [memberClaim, unitWith, prop_cons]
    · simp [tClaim]
  obtain ⟨m', hm'⟩ := hclaim
  refine ⟨m', ?_⟩
  refine exec_cons_eq_some.mpr ⟨_, rfl, exec_cons_eq_some.mpr ⟨_, hacquire, ?_⟩⟩
  exact exec_cons_eq_some.mpr ⟨_, rfl, exec_cons_eq_some.mpr ⟨_, hm', rfl⟩⟩

/-! ## The condition -/

/-- **When a withdrawn claim is never granted.** One claim for the grant id arrives before the
withdrawal, and none after it. Once the net has come to rest, no later run emits a grant for it
exactly when the claim is not parked as an offer whose requirements some caps satisfy. -/
theorem withdrawn_never_granted_iff (source : CapacitySource) (g : String)
    {before settling : List Action} {wd : RhaiMap} {m : PoolMarking} (hwd : prop wd "grant_id" = .str g)
    (hrun : exec (step source) (seeds source) (before ++ .arrive .withdrawInbox wd :: settling) = some m)
    (hbefore : before.countP (sendsClaim g) ≤ 1) (hsettling : NoClaim g settling)
    (hquiet : Quiescent (buildPoolNet source) m) :
    (∀ later m', exec (step source) m later = some m' → NoClaim g later →
        ∀ a ∈ later, emitsGrant source g a = false) ↔
      ∀ offer, (.offers, offer) ∈ m → prop offer "grant_id" = .str g →
        ∀ caps, satisfies (prop offer "requirements") caps = false := by
  constructor
  · intro hnever offer hoffer hg caps
    by_contra hsat
    obtain rfl := consent_of_offer hrun hoffer
    obtain ⟨m', hlate⟩ := exists_claimLate hoffer hg (by simpa using hsat)
    have hemit := hnever _ m' hlate (by simp [NoClaim, claimLate, sendsClaim])
      (.fire .tClaim [offer, memberClaim g, unitWith caps]) (by simp [claimLate])
    simp [emitsGrant, produces, buildPoolNet, tClaim, hg] at hemit
  · intro hparked later m' hlater hclaim
    obtain ⟨m₁, hm₁, hrest⟩ := exec_append_eq_some.mp hrun
    obtain ⟨m₂, hm₂, hsettled⟩ := exec_cons_eq_some.mp hrest
    have hwithdrawn : Withdrawn g m₂ := by
      have hcount := claims_exec (g := g) hm₁
      rw [total_claimAt_seeds, zero_add] at hcount
      cases stepped hm₂ with
      | arrive =>
        have hnoclaim : claimAt g (.withdrawInbox, wd) = 0 := by simp [claimAt]
        have hone : withdrawAt g (.withdrawInbox, wd) = 1 := by simp [withdrawAt, hwd]
        refine Or.inr ⟨?_, ?_⟩
        · rw [total_cons, hnoclaim]
          omega
        · rw [total_cons, hone]
          omega
    have halong : Along (step source) (fun _ a => sendsClaim g a = false) m₂ settling :=
      along_of_forall (P := fun a => sendsClaim g a = false) hsettling
    have hrested : Withdrawn g m := exec_invariant_along
      (fun _ _ _ hm hsend h => withdrawn_step hm hsend h) hwithdrawn halong hsettled
    exact barred_exec ⟨fun claim hqueued => hrested.no_queued_claim hquiet hqueued, hparked⟩ hclaim
      hlater

/-- **No pool grants an id more often than it was claimed**; a claim that still waits was not granted. -/
theorem granted_at_most_claimed {run : List Action} (h : exec (step source) (seeds source) run = some m) :
    total (claimAt g) m + run.countP (emitsGrant source g) ≤ run.countP (sendsClaim g) := by
  have hspent := claims_exec (g := g) h
  rwa [total_claimAt_seeds, zero_add] at hspent

def openClaim : RhaiMap := [("grant_id", .str "run:task"), ("requirements", .obj [])]

def grantedOnce : List Action :=
  [.arrive .claimInbox openClaim, .fire .tGrant [openClaim, [("unit_id", unitLabel 0)]]]

theorem granted_at_most_claimed_once : ∃ m, exec (step (.seeded 1)) (seeds (.seeded 1)) grantedOnce = some m ∧
    total (claimAt "run:task") m + grantedOnce.countP (emitsGrant (.seeded 1) "run:task") ≤
      grantedOnce.countP (sendsClaim "run:task") :=
  ⟨_, rfl, granted_at_most_claimed rfl⟩

def withdrawal : RhaiMap := [("grant_id", .str "run:task")]

def withdrawnMarking : PoolMarking :=
  {(.done, [("grant_id", .str "run:task"), ("outcome", .str "withdrawn")])}

/-- The claim waits for capacity until it is withdrawn. -/
theorem withdrawn_never_granted_queued : ∃ m, exec (step (.presence .auto)) (seeds (.presence .auto))
        [.arrive .claimInbox openClaim, .arrive .withdrawInbox withdrawal,
          .fire .tWithdraw [withdrawal, openClaim]] = some m ∧
      ∀ later m', exec (step (.presence .auto)) m later = some m' → NoClaim "run:task" later →
        ∀ a ∈ later, emitsGrant (.presence .auto) "run:task" a = false := by
  refine ⟨withdrawnMarking, rfl, ?_⟩
  refine (@withdrawn_never_granted_iff (.presence .auto) "run:task"
    [.arrive .claimInbox openClaim] [.fire .tWithdraw [withdrawal, openClaim]] withdrawal
    withdrawnMarking rfl rfl (by decide) (by simp [NoClaim, sendsClaim]) (by decide)).mpr ?_
  intro offer hoffer
  exact absurd hoffer (by simp [withdrawnMarking])

/-- The claim is parked before it is withdrawn, and granted to a member that checks in later. -/
theorem withdrawn_claim_granted : ∃ m m', exec (step (.presence .consent)) (seeds (.presence .consent))
        [.arrive .claimInbox openClaim, .fire .tPostOffer [openClaim],
          .arrive .withdrawInbox withdrawal] = some m ∧ Quiescent (buildPoolNet (.presence .consent)) m ∧
      exec (step (.presence .consent)) m
        (claimLate "run:task" (openClaim ++ [("request", .null)]) (.obj [])) = some m' ∧
      NoClaim "run:task" (claimLate "run:task" (openClaim ++ [("request", .null)]) (.obj [])) ∧
      ∃ a ∈ claimLate "run:task" (openClaim ++ [("request", .null)]) (.obj []),
        emitsGrant (.presence .consent) "run:task" a = true :=
  ⟨_, _, rfl, by decide, rfl, by simp [NoClaim, claimLate, sendsClaim], by decide⟩

end PoolNet

end Mekhan
