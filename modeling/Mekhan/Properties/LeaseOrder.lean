import Mekhan.Infra.Runs
import Mekhan.Service.DatacenterAdapter

/-!
# The tokens of one allocation in any order

A run of the datacenter adapter in which the registration, the release, the expiry signal and the
failure signal of one allocation arrive in any order, each at most once, among any tokens of other
claims and allocations; the engine evaluates at any moment in between. Where the firing it selects has
no address to answer to, the net is stuck: the claim or the registration came over a plain bridge, as
those of a scheduled step outside a lease scope do (`automated_step.rs`).
-/

namespace Mekhan

namespace LeaseOrder

open Infra Adapter
open Rhai (prop)

/-! ## Runs -/

/-- Whether the token has the id under the key. -/
def names (key id : String) (x : Stamped RhaiMap) : Bool := prop x.colour key = .str id

structure State where
  marking : AdapterMarking
  /-- Where tokens of the allocation have arrived. -/
  arrived : List AdapterPlace

def init : State := ⟨fun _ => [], []⟩

section

variable (g a : String)

/-- The tokens of the allocation `a` that was granted as `g`. -/
def own (place : AdapterPlace) (token : RhaiMap) : Bool :=
  match place with
  | .registerInbox => prop token "grant_id" = .str g && prop token "alloc_id" = .str a
  | .releaseInbox => prop token "grant_id" = .str g
  | .leaseExpired | .leaseFailed => prop token "scheduler_job_id" = .str a
  | _ => false

/-- The tokens of other claims and allocations. -/
def foreign (place : AdapterPlace) (token : RhaiMap) : Bool :=
  match place with
  | .registerInbox => prop token "grant_id" ≠ .str g && prop token "alloc_id" ≠ .str a
  | .releaseInbox => prop token "grant_id" ≠ .str g
  | .leaseExpired | .leaseFailed => prop token "scheduler_job_id" ≠ .str a
  | _ => true

/-- A step of the net in which each token of the allocation comes at most once. -/
def step (s : State) (act : Action) : Option State :=
  match act with
  | .arrive place token _ =>
    if own g a place token then
      if place ∈ s.arrived then none
      else (Adapter.step s.marking act).map fun m => ⟨m, place :: s.arrived⟩
    else if foreign g a place token then
      (Adapter.step s.marking act).map fun m => ⟨m, s.arrived⟩
    else none
  | .evaluate _ _ => (Adapter.step s.marking act).map fun m => ⟨m, s.arrived⟩

/-! ## The property -/

/-- Registrations of the allocation that are not recorded yet. -/
def pending (m : AdapterMarking) : Nat := (m .registerInbox).countP (names "alloc_id" a)

def held (m : AdapterMarking) : Nat := (m .inUse).countP (names "alloc_id" a)

/-- Failure notices for the holder of the allocation. -/
def notices (m : AdapterMarking) : Nat := (m .failOutbox).countP (names "alloc_id" a)

/-- At rest no hold is left if a release, an expiry or a failure came, and the holder was notified
at most once. -/
def Settled (s : State) : Prop :=
  (Adapter.AtRest s.marking →
    .releaseInbox ∈ s.arrived ∨ .leaseExpired ∈ s.arrived ∨ .leaseFailed ∈ s.arrived →
    held a s.marking = 0) ∧
  notices a s.marking ≤ 1

/-- Whichever way an effect is answered, the firing that is selected has an address to answer to. -/
def Answers (s : State) : Prop := ∀ answer, stuck answer s.marking = false

/-- The expiry signal comes when the hold is recorded, and is not stamped before it. -/
def ExpiresHeld (s : State) : Action → Prop
  | .arrive .leaseExpired token now =>
    prop token "scheduler_job_id" = .str a → 0 < held a s.marking ∧
      ∀ hold ∈ s.marking .inUse, names "alloc_id" a hold = true → hold.createdAt.nanos ≤ now.nanos
  | _ => True

/-! ## What a firing moves -/

/-- How many tokens of the allocation are where. -/
@[ext] structure Tally where
  pending : Nat
  held : Nat
  notices : Nat
  releases : Nat
  failures : Nat
  expiries : Nat

def tally (m : AdapterMarking) : Tally where
  pending := pending a m
  held := held a m
  notices := notices a m
  releases := (m .releaseInbox).countP (names "grant_id" g)
  failures := (m .leaseFailed).countP (names "scheduler_job_id" a)
  expiries := (m .leaseExpired).countP (names "scheduler_job_id" a)

/-- How a firing moves the tokens of the allocation: it leaves them alone, records the hold, ends it
by a release, an expiry or a failure, or drains the expiry signal. -/
inductive Moved (m : AdapterMarking) (t : AdapterTransition) (c c' : Tally) : Prop
  | idle (h : c = c')
  | registered (base : Tally) (h : c = { base with pending := base.pending + 1 })
      (h' : c' = { base with held := base.held + 1 })
  | released (h : c = { c' with releases := c'.releases + 1, held := c'.held + 1 })
  | reaped (h : c = { c' with expiries := c'.expiries + 1, held := c'.held + 1 })
  | died (base : Tally)
      (h : c = { base with failures := base.failures + 1, held := base.held + 1 })
      (h' : c' = { base with notices := base.notices + 1 })
  | drained {x : Stamped RhaiMap} (ht : t = .tLeaseDone)
      (hhead : (m .leaseExpired).head? = some x) (hx : names "scheduler_job_id" a x = true)
      (h : c = { c' with expiries := c'.expiries + 1 })

/-- Registrations and holds are of the allocation by both ids or by none. -/
def Paired (m : AdapterMarking) : Prop :=
  ∀ p, p = .registerInbox ∨ p = .inUse → ∀ x ∈ m p, names "grant_id" g x = names "alloc_id" a x

variable {g a}

variable {m rest : AdapterMarking} {now : DateTime} {s : State} {place : AdapterPlace}
  {t : AdapterTransition} {token : RhaiMap} {out taken : List (AdapterPlace × Stamped RhaiMap)}
  {x : Stamped RhaiMap}

variable {id key : String} {arrived : List AdapterPlace} {c c' : Tally} {s' : State} {act : Action}

theorem names_eq_of_eq {key' : String} {y : Stamped RhaiMap}
    (h : Rhai.eq (prop x.colour key) (prop y.colour key')) : names key id x = names key' id y := by
  unfold names
  refine decide_eq_decide.mpr ⟨fun hx => ?_, fun hy => ?_⟩
  · rw [hx] at h
    exact Rhai.eq_str_left.mp h
  · rw [hy] at h
    exact Rhai.eq_str_right.mp h

theorem tally_enqueue (hperm : ∀ p, (m p).Perm (rest p ++ tokensAt p taken))
    (out : List (AdapterPlace × Stamped RhaiMap)) :
    let c := tally g a m
    let c' := tally g a (enqueue rest out)
    let came (p : AdapterPlace) (f : Stamped RhaiMap → Bool) := (tokensAt p out).countP f
    let left (p : AdapterPlace) (f : Stamped RhaiMap → Bool) := (tokensAt p taken).countP f
    c'.pending + left .registerInbox (names "alloc_id" a) =
        c.pending + came .registerInbox (names "alloc_id" a) ∧
      c'.held + left .inUse (names "alloc_id" a) = c.held + came .inUse (names "alloc_id" a) ∧
      c'.notices + left .failOutbox (names "alloc_id" a) =
        c.notices + came .failOutbox (names "alloc_id" a) ∧
      c'.releases + left .releaseInbox (names "grant_id" g) =
        c.releases + came .releaseInbox (names "grant_id" g) ∧
      c'.failures + left .leaseFailed (names "scheduler_job_id" a) =
        c.failures + came .leaseFailed (names "scheduler_job_id" a) ∧
      c'.expiries + left .leaseExpired (names "scheduler_job_id" a) =
        c.expiries + came .leaseExpired (names "scheduler_job_id" a) :=
  ⟨countP_enqueue hperm out _ _, countP_enqueue hperm out _ _, countP_enqueue hperm out _ _,
    countP_enqueue hperm out _ _, countP_enqueue hperm out _ _, countP_enqueue hperm out _ _⟩

theorem moved_of_fires (hpaired : Paired g a m) (hfires : Fires m now t taken out)
    (hperm : ∀ p, (m p).Perm (rest p ++ tokensAt p taken)) :
    Moved a m t (tally g a m) (tally g a (enqueue rest out)) := by
  obtain ⟨hp, hh, hn, hr, hf, he⟩ := tally_enqueue (g := g) (a := a) hperm out
  have hmem : ∀ {p x}, x ∈ tokensAt p taken → x ∈ m p := fun hx =>
    (hperm _).mem_iff.mpr (List.mem_append_right _ hx)
  generalize tally g a (enqueue rest out) = c' at *
  generalize tally g a m = c at *
  cases hfires with
  | request hout =>
    have hnil : ∀ p, p ≠ .grantOutbox → p ≠ .requestError → tokensAt p out = [] := fun p hg he =>
      tokensAt_eq_nil fun x hx => by
        rcases hout x hx with h | h
        · rw [h]
          exact hg.symm
        · rw [h]
          exact he.symm
    simp [hnil] at hp hh hn hr hf he
    exact .idle (Tally.ext hp.symm hh.symm hn.symm hr.symm hf.symm he.symm)
  | requestFailed hnone =>
    simp [names, hnone] at hp hh hn hr hf he
    exact .idle (Tally.ext hp.symm hh.symm hn.symm hr.symm hf.symm he.symm)
  | @register x =>
    have hcopy : names "alloc_id" a
        ⟨PoolNet.copy holdKeys x.colour, now⟩ =
          names "alloc_id" a x := by
      simp only [names]
      rw [PoolNet.prop_copy (by decide)]
    cases hx : names "alloc_id" a x with
    | false =>
      simp [hcopy, hx] at hp hh hn hr hf he
      exact .idle (Tally.ext hp.symm hh.symm hn.symm hr.symm hf.symm he.symm)
    | true =>
      simp [hcopy, hx] at hp hh hn hr hf he
      exact .registered { c' with held := c.held }
        (Tally.ext hp.symm rfl hn.symm hr.symm hf.symm he.symm) (Tally.ext rfl hh rfl rfl rfl rfl)
  | @releasePrep x y _ _ hid =>
    have hy : y ∈ m .inUse := hmem (by simp)
    have hsame : names "grant_id" g x = names "alloc_id" a y :=
      (names_eq_of_eq hid).trans (hpaired .inUse (Or.inr rfl) y hy)
    cases hown : names "alloc_id" a y with
    | false =>
      simp [hsame, hown] at hp hh hn hr hf he
      exact .idle (Tally.ext hp.symm hh.symm hn.symm hr.symm hf.symm he.symm)
    | true =>
      simp [hsame, hown] at hp hh hn hr hf he
      exact .released (Tally.ext hp.symm hh.symm hn.symm hr.symm hf.symm he.symm)
  | release hout =>
    have hnil : ∀ p, p ≠ .done → tokensAt p out = [] := fun p hdone =>
      tokensAt_eq_nil fun x hx => by
        rw [hout x hx]
        exact hdone.symm
    simp [hnil] at hp hh hn hr hf he
    exact .idle (Tally.ext hp.symm hh.symm hn.symm hr.symm hf.symm he.symm)
  | @reap x y _ hid =>
    have hsame : names "scheduler_job_id" a x = names "alloc_id" a y := names_eq_of_eq hid
    cases hown : names "alloc_id" a y with
    | false =>
      simp [hsame, hown] at hp hh hn hr hf he
      exact .idle (Tally.ext hp.symm hh.symm hn.symm hr.symm hf.symm he.symm)
    | true =>
      simp [hsame, hown] at hp hh hn hr hf he
      exact .reaped (Tally.ext hp.symm hh.symm hn.symm hr.symm hf.symm he.symm)
  | @leaseDone x _ hhead =>
    cases hown : names "scheduler_job_id" a x with
    | false =>
      simp [hown] at hp hh hn hr hf he
      exact .idle (Tally.ext hp.symm hh.symm hn.symm hr.symm hf.symm he.symm)
    | true =>
      simp [hown] at hp hh hn hr hf he
      exact .drained rfl hhead hown (Tally.ext hp.symm hh.symm hn.symm hr.symm hf.symm he.symm)
  | @leaseDied x y _ hid =>
    have hsame : names "scheduler_job_id" a x = names "alloc_id" a y := names_eq_of_eq hid
    have hnotice : names "alloc_id" a ⟨ended y.colour "lease_failed", now⟩ =
        names "alloc_id" a y := by
      simp only [names]
      rw [alloc_ended]
    cases hown : names "alloc_id" a y with
    | false =>
      simp [hsame, hown, hnotice] at hp hh hn hr hf he
      exact .idle (Tally.ext hp.symm hh.symm hn.symm hr.symm hf.symm he.symm)
    | true =>
      simp [hsame, hown, hnotice] at hp hh hn hr hf he
      exact .died { c' with notices := c.notices }
        (Tally.ext hp.symm hh.symm rfl hr.symm hf.symm he.symm) (Tally.ext rfl rfl hn rfl rfl rfl)

/-! ## The invariant -/

/-- What holds of the tally in every run, by what has arrived. -/
structure Sound (arrived : List AdapterPlace) (c : Tally) : Prop where
  single : c.pending + c.held + c.notices ≤ 1
  fresh : .registerInbox ∉ arrived → c.pending + c.held + c.notices = 0
  released : .releaseInbox ∈ arrived →
    0 < c.releases ∨ (.registerInbox ∈ arrived ∧ c.pending + c.held = 0)
  failed : .leaseFailed ∈ arrived →
    0 < c.failures ∨ (.registerInbox ∈ arrived ∧ c.pending + c.held = 0)
  unexpired : .leaseExpired ∉ arrived → c.expiries = 0

/-- What holds besides where the expiry signal comes when the hold is recorded. -/
structure Reapable (arrived : List AdapterPlace) (c : Tally) : Prop where
  registered : .leaseExpired ∈ arrived → .registerInbox ∈ arrived ∧ c.pending = 0
  kept : .leaseExpired ∈ arrived → 0 < c.expiries ∨ c.held = 0

/-- No hold of the allocation is younger than its expiry signal. -/
def Stamps (a : String) (m : AdapterMarking) : Prop :=
  ∀ x ∈ m .leaseExpired, names "scheduler_job_id" a x = true →
    ∀ hold ∈ m .inUse, names "alloc_id" a hold = true → hold.createdAt.nanos ≤ x.createdAt.nanos

theorem Sound.moved (h : Sound arrived c) (hmoved : Moved a m t c c') : Sound arrived c' := by
  obtain ⟨hsingle, hfresh, hreleased, hfailed, hunexpired⟩ := h
  constructor <;> cases hmoved <;> grind

/-- A hold that is there is not drained past: `t_reap` binds the same signal at the same time, and it
has more input arcs. -/
theorem held_eq_zero_of_drained {answer : EffectAnswer} {s : AdapterTransition × Best} (hstamps : Stamps a m)
    (hs : selectCandidate transitionId (adapterNet answer) m transitions = some s)
    (hdone : s.1 = .tLeaseDone) {x : Stamped RhaiMap} (hhead : (m .leaseExpired).head? = some x)
    (hx : names "scheduler_job_id" a x = true) : held a m = 0 := by
  by_contra hheld
  obtain ⟨hold, hmem, hhold⟩ := List.countP_pos_iff.mp (Nat.pos_of_ne_zero hheld)
  obtain ⟨l, hl⟩ : ∃ l, m .leaseExpired = x :: l := List.head?_eq_some_iff.mp hhead
  have hguard : (timed ⟨0⟩ tReap).guard [[x], [hold]] = true := by
    have hsame : prop x.colour "scheduler_job_id" = prop hold.colour "alloc_id" :=
      (of_decide_eq_true hx).trans (of_decide_eq_true hhold).symm
    show Rhai.eq (prop x.colour "scheduler_job_id") (prop hold.colour "alloc_id") = true
    rw [hsame, of_decide_eq_true hhold]
    exact Rhai.eq_str_self a
  obtain ⟨d, r, hd, hdguard, hreap⟩ :=
    QueueTransition.binding?_two (t := timed ⟨0⟩ tReap) rfl (by decide) hl hmem hguard
  have hdown : names "alloc_id" a d = true := (names_eq_of_eq hdguard).symm.trans hx
  have hle : d.createdAt.nanos ≤ x.createdAt.nanos :=
    hstamps x (hl ▸ List.mem_cons_self ..) hx d hd hdown
  have htime : enablingTime [[x], [d]] = some x.createdAt := by
    simp [enablingTime, laterTime, Int.not_lt.mpr hle]
  have hbound : boundAt (adapterNet answer) m .tReap = some [[x], [d]] := by
    rw [boundAt]
    exact congrArg (Option.map Prod.fst) hreap
  obtain ⟨s', hs', hnot⟩ := not_isBetter_of_selected transitionId
    (show .tReap ∈ transitions by decide) hbound htime
  obtain rfl := Option.some.inj (hs.symm.trans hs')
  -- The signal alone enables `t_lease_done` at the same time.
  obtain ⟨-, hpriority, -, hcount, bound, hbound', htime'⟩ := selected_spec hs
  rw [hdone] at hcount hbound'
  have hone := QueueTransition.binding?_one (t := timed ⟨0⟩ tLeaseDone) (c := x) rfl rfl hl
  have hbound'' : boundAt (adapterNet answer) m .tLeaseDone = some [[x]] := by
    rw [boundAt]
    exact congrArg (Option.map Prod.fst) hone
  obtain rfl := Option.some.inj (hbound'.symm.trans hbound'')
  have hsame : x.createdAt = s.2.time := Option.some.inj htime'
  rw [Bool.eq_false_iff, Ne, isBetter_iff hpriority] at hnot
  have hcount : s.2.inputCount = 1 := hcount
  exact hnot (Or.inr ⟨hsame, Or.inl (by rw [hcount]; exact Nat.one_lt_two)⟩)

theorem paired_evaluate (hpaired : Paired g a m) (hfires : Fires m now t taken out)
    (hperm : ∀ p, (m p).Perm (rest p ++ tokensAt p taken)) : Paired g a (enqueue rest out) := by
  intro p hp x hx
  rcases mem_enqueue hperm hx with hx | hx
  · exact hpaired p hp x hx
  · -- Only `t_register` puts something there, and it copies both ids.
    cases hfires with
    | request hout =>
      rw [tokensAt_eq_nil fun y hy => ?_] at hx
      · exact absurd hx (List.not_mem_nil)
      · rcases hout y hy with h | h <;> rcases hp with rfl | rfl <;> simp [h]
    | release hout =>
      rw [tokensAt_eq_nil fun y hy => ?_] at hx
      · exact absurd hx (List.not_mem_nil)
      · rcases hp with rfl | rfl <;> simp [hout y hy]
    | @register y =>
      rcases hp with rfl | rfl
      · simp at hx
      · obtain rfl := by simpa using hx
        have hy : y ∈ m .registerInbox :=
          (hperm _).mem_iff.mpr (List.mem_append_right _ (by simp))
        simp only [names]
        rw [PoolNet.prop_copy (by decide), PoolNet.prop_copy (by decide)]
        exact hpaired .registerInbox (Or.inl rfl) y hy
    | _ => rcases hp with rfl | rfl <;> simp at hx


variable (g a)

/-- Each allocation's tokens are where its arrivals allow them. -/
structure Inv (s : State) : Prop where
  paired : Paired g a s.marking
  sound : Sound s.arrived (tally g a s.marking)

/-- The clocks of the tokens, and what they say about a reaping. -/
structure Expiring (s : State) : Prop where
  stamps : Stamps a s.marking
  reapable : Reapable s.arrived (tally g a s.marking)

variable {g a}

theorem inv_init : Inv g a init where
  paired := fun _ _ _ hx => absurd hx (List.not_mem_nil)
  sound :=
    { single := Nat.zero_le 1
      fresh := fun _ => rfl
      released := fun h => absurd h (List.not_mem_nil)
      failed := fun h => absurd h (List.not_mem_nil)
      unexpired := fun _ => rfl }

theorem expiring_init : Expiring g a init where
  stamps := fun _ hx => absurd hx (List.not_mem_nil)
  reapable :=
    { registered := fun h => absurd h (List.not_mem_nil)
      kept := fun h => absurd h (List.not_mem_nil) }

theorem tally_arrive (m : AdapterMarking) (place : AdapterPlace) (x : Stamped RhaiMap) :
    tally g a (enqueue m [(place, x)]) =
      let c := tally g a m
      match place with
      | .registerInbox => { c with pending := c.pending + (names "alloc_id" a x).toNat }
      | .inUse => { c with held := c.held + (names "alloc_id" a x).toNat }
      | .failOutbox => { c with notices := c.notices + (names "alloc_id" a x).toNat }
      | .releaseInbox => { c with releases := c.releases + (names "grant_id" g x).toNat }
      | .leaseFailed => { c with failures := c.failures + (names "scheduler_job_id" a x).toNat }
      | .leaseExpired => { c with expiries := c.expiries + (names "scheduler_job_id" a x).toNat }
      | _ => c := by
  have hsingle : ∀ f : Stamped RhaiMap → Bool, [x].countP f = (f x).toNat := fun f => by
    cases h : f x <;> simp [h]
  cases place <;> simp [tally, pending, held, notices, enqueue, hsingle]

theorem paired_arrive (h : Paired g a m) (hplace : place ∈ inboxes) (hsame : place = .registerInbox →
      names "grant_id" g ⟨token, now⟩ = names "alloc_id" a ⟨token, now⟩) :
    Paired g a (enqueue m [(place, ⟨token, now⟩)]) := by
  intro p hp x hx
  rcases List.mem_append.mp hx with hx | hx
  · exact h p hp x hx
  · by_cases hreg : place = .registerInbox
    · obtain ⟨-, rfl⟩ : AdapterPlace.registerInbox = p ∧ x = ⟨token, now⟩ := by
        simpa [hreg] using hx
      exact hsame hreg
    · rcases hp with rfl | rfl
      · simp [hreg] at hx
      · have hne : place ≠ .inUse := by
          rintro rfl
          exact absurd hplace (by decide)
        simp [hne] at hx

theorem inv_own (h : Inv g a s) (hplace : place ∈ inboxes) (hown : own g a place token = true)
    (hnew : place ∉ s.arrived) : Inv g a ⟨enqueue s.marking [(place, ⟨token, now⟩)], place :: s.arrived⟩ := by
  obtain ⟨hpaired, hsingle, hfresh, hreleased, hfailed, hunexpired⟩ := h
  refine ⟨paired_arrive hpaired hplace ?_, ?_⟩
  · rintro rfl
    simp only [own, Bool.and_eq_true, decide_eq_true_eq] at hown
    simp [names, hown.1, hown.2]
  · rw [tally_arrive]
    cases place <;> simp [own, names] at hown ⊢
    all_goals
      generalize tally g a s.marking = c at *
      constructor <;> grind

theorem inv_foreign (h : Inv g a s) (hplace : place ∈ inboxes) (hforeign : foreign g a place token = true) :
    Inv g a ⟨enqueue s.marking [(place, ⟨token, now⟩)], s.arrived⟩ := by
  obtain ⟨hpaired, hsound⟩ := h
  refine ⟨paired_arrive hpaired hplace ?_, ?_⟩
  · rintro rfl
    simp only [foreign, Bool.and_eq_true, decide_eq_true_eq] at hforeign
    simp [names, hforeign.1, hforeign.2]
  · rw [tally_arrive]
    cases place <;> simp_all [foreign, names, inboxes]

/-- What a step of the run is: an arrival of the allocation or of others, or a round of evaluation. -/
inductive Stepped (s : State) : Action → State → Prop
  | own {place : AdapterPlace} {token : RhaiMap} {now : DateTime} (hplace : place ∈ inboxes)
      (hown : own g a place token = true) (hnew : place ∉ s.arrived) :
      Stepped s (.arrive place token now)
        ⟨enqueue s.marking [(place, ⟨token, now⟩)], place :: s.arrived⟩
  | foreign {place : AdapterPlace} {token : RhaiMap} {now : DateTime} (hplace : place ∈ inboxes)
      (hown : LeaseOrder.own g a place token = false)
      (hforeign : foreign g a place token = true) :
      Stepped s (.arrive place token now)
        ⟨enqueue s.marking [(place, ⟨token, now⟩)], s.arrived⟩
  | evaluate {answer : EffectAnswer} {now : DateTime} {selected : AdapterTransition × Best}
      {rest : AdapterMarking} {taken out : List (AdapterPlace × Stamped RhaiMap)}
      (hselected : selectCandidate transitionId (adapterNet answer) s.marking transitions =
        some selected)
      (hfires : Fires s.marking now selected.1 taken out)
      (hperm : ∀ p, (s.marking p).Perm (rest p ++ tokensAt p taken)) :
      Stepped s (.evaluate answer now) ⟨enqueue rest out, s.arrived⟩

theorem evaluateOnce_of_step {m' : AdapterMarking} {answer : EffectAnswer}
    (h : Adapter.step m (.evaluate answer now) = some m') :
    evaluateOnce transitionId (adapterNet answer) m transitions now = some m' := by
  simp only [Adapter.step] at h
  split at h
  · cases h
  · exact h

theorem stepped (h : step g a s act = some s') : Stepped (g := g) (a := a) s act s' := by
  cases act with
  | arrive place token now =>
    simp only [step, Adapter.step] at h
    by_cases hplace : place ∈ inboxes
    · simp only [hplace, if_true, Option.map_some] at h
      split at h
      · next hown =>
        split at h
        · cases h
        · next hnew =>
          cases h
          exact .own hplace hown hnew
      · next hown =>
        split at h
        · next hforeign =>
          cases h
          exact .foreign hplace (Bool.eq_false_iff.mpr hown) hforeign
        · cases h
    · simp [hplace] at h
  | evaluate answer now =>
    obtain ⟨m', hm', rfl⟩ := Option.map_eq_some_iff.mp h
    obtain ⟨selected, hselected, hfire⟩ := Option.bind_eq_some_iff.mp (evaluateOnce_of_step hm')
    obtain ⟨taken, out, rest, hfires, hperm, rfl⟩ := fires_of_fire hfire
    exact .evaluate hselected hfires hperm

theorem inv_step (s : State) (act : Action) (s' : State) (hinv : Inv g a s)
    (h : step g a s act = some s') : Inv g a s' := by
  cases stepped h with
  | own hplace hown hnew => exact inv_own hinv hplace hown hnew
  | foreign hplace _ hforeign => exact inv_foreign hinv hplace hforeign
  | evaluate _ hfires hperm =>
    exact ⟨paired_evaluate hinv.paired hfires hperm,
      hinv.sound.moved (moved_of_fires hinv.paired hfires hperm)⟩

theorem names_pos {p : AdapterPlace}
    (hx : x ∈ m p) (hname : names key id x = true) : 0 < (m p).countP (names key id) :=
  List.countP_pos_iff.mpr ⟨x, hx, hname⟩

theorem stamps_evaluate (hinv : Inv g a s) (hexp : Expiring g a s) (hfires : Fires s.marking now t taken out)
    (hperm : ∀ p, (s.marking p).Perm (rest p ++ tokensAt p taken)) : Stamps a (enqueue rest out) := by
  intro x hx hxa hold hhold hholda
  have hout : tokensAt .leaseExpired out = [] := by
    cases hfires with
    | request hout =>
      refine tokensAt_eq_nil fun y hy => ?_
      rcases hout y hy with h | h <;> simp [h]
    | release hout => exact tokensAt_eq_nil fun y hy => by simp [hout y hy]
    | _ => simp
  have hx' : x ∈ s.marking .leaseExpired := by
    rcases mem_enqueue hperm hx with hx | hx
    · exact hx
    · rw [hout] at hx
      exact absurd hx (List.not_mem_nil)
  have harrived : .leaseExpired ∈ s.arrived := by
    by_contra hnot
    exact absurd (hinv.sound.unexpired hnot) (Nat.ne_of_gt (names_pos hx' hxa))
  rcases mem_enqueue hperm hhold with hhold | hhold
  · exact hexp.stamps x hx' hxa hold hhold hholda
  · have hpending : pending a s.marking = 0 := (hexp.reapable.registered harrived).2
    -- A new hold of the allocation would come from a registration that waits.
    cases hfires with
    | @register c =>
      obtain rfl := by simpa using hhold
      have hc : c ∈ s.marking .registerInbox :=
        (hperm _).mem_iff.mpr (List.mem_append_right _ (by simp))
      have hca : names "alloc_id" a c = true := by
        simp only [names] at hholda
        rwa [PoolNet.prop_copy (by decide)] at hholda
      exact absurd hpending (Nat.ne_of_gt (names_pos hc hca))
    | request hout =>
      rw [tokensAt_eq_nil fun y hy => by rcases hout y hy with h | h <;> simp [h]] at hhold
      exact absurd hhold (List.not_mem_nil)
    | release hout =>
      rw [tokensAt_eq_nil fun y hy => by simp [hout y hy]] at hhold
      exact absurd hhold (List.not_mem_nil)
    | _ => simp at hhold

theorem Reapable.moved (h : Reapable arrived c) (hsound : Sound arrived c)
    (hdrained : ∀ x, t = .tLeaseDone → (m .leaseExpired).head? = some x →
      names "scheduler_job_id" a x = true → c.held = 0)
    (hmoved : Moved a m t c c') : Reapable arrived c' := by
  obtain ⟨hregistered, hkept⟩ := h
  obtain ⟨hsingle, -, -, -, -⟩ := hsound
  constructor <;> cases hmoved <;> grind

theorem stamps_arrive (h : Stamps a m) (hplace : place ∈ inboxes)
    (hlate : place = .leaseExpired → names "scheduler_job_id" a x = true →
      ∀ hold ∈ m .inUse, names "alloc_id" a hold = true → hold.createdAt.nanos ≤ x.createdAt.nanos) :
    Stamps a (enqueue m [(place, x)]) := by
  intro y hy hya hold hhold hholda
  have hne : place ≠ .inUse := by
    rintro rfl
    exact absurd hplace (by decide)
  have hhold' : hold ∈ m .inUse := by simpa [enqueue, hne] using hhold
  rcases List.mem_append.mp hy with hy | hy
  · exact h y hy hya hold hhold' hholda
  · by_cases hexp : place = .leaseExpired
    · obtain rfl : y = x := by simpa [hexp] using hy
      exact hlate hexp hya hold hhold' hholda
    · simp [hexp] at hy

theorem expiring_own (hinv : Inv g a s) (h : Expiring g a s) (hplace : place ∈ inboxes)
    (hown : own g a place token = true) (hnew : place ∉ s.arrived)
    (hheld : ExpiresHeld a s (.arrive place token now)) :
    Expiring g a ⟨enqueue s.marking [(place, ⟨token, now⟩)], place :: s.arrived⟩ := by
  obtain ⟨hstamps, hregistered, hkept⟩ := h
  obtain ⟨-, hsingle, hfresh, -, -, -⟩ := hinv
  refine ⟨stamps_arrive hstamps hplace ?_, ?_⟩
  · rintro rfl hx
    exact (hheld (of_decide_eq_true hx)).2
  · rw [tally_arrive]
    cases place with
    | leaseExpired =>
      -- The hold is recorded, so the registration came and does not wait any more.
      have hpos : 0 < (tally g a s.marking).held := (hheld (of_decide_eq_true hown)).1
      have hname : names "scheduler_job_id" a ⟨token, now⟩ = true := hown
      generalize tally g a s.marking = c at *
      constructor <;> grind
    | registerInbox =>
      generalize tally g a s.marking = c at *
      constructor <;> grind
    | releaseInbox =>
      generalize tally g a s.marking = c at *
      constructor <;> grind
    | leaseFailed =>
      generalize tally g a s.marking = c at *
      constructor <;> grind
    | _ => exact absurd hown (by simp [own])

theorem expiring_foreign
    (h : Expiring g a s) (hplace : place ∈ inboxes) (hforeign : foreign g a place token = true) :
    Expiring g a ⟨enqueue s.marking [(place, ⟨token, now⟩)], s.arrived⟩ := by
  obtain ⟨hstamps, hreapable⟩ := h
  refine ⟨stamps_arrive hstamps hplace ?_, ?_⟩
  · rintro rfl hx
    exact absurd (of_decide_eq_true hx) (of_decide_eq_true hforeign)
  · rw [tally_arrive]
    cases place <;> simp_all [foreign, names, inboxes]

theorem expiring_step (hinv : Inv g a s) (hexp : Expiring g a s)
    (hheld : ExpiresHeld a s act) (h : step g a s act = some s') : Expiring g a s' := by
  cases stepped h with
  | own hplace hown hnew => exact expiring_own hinv hexp hplace hown hnew hheld
  | foreign hplace _ hforeign => exact expiring_foreign hexp hplace hforeign
  | evaluate hselected hfires hperm =>
    refine ⟨stamps_evaluate hinv hexp hfires hperm, ?_⟩
    refine hexp.reapable.moved hinv.sound ?_ (moved_of_fires hinv.paired hfires hperm)
    exact fun x ht hhead hx => held_eq_zero_of_drained hexp.stamps hselected ht hhead hx

/-! ## At rest -/

theorem quiescent_of_atRest (hrest : Adapter.AtRest s.marking) (hanswers : Answers s) :
    Adapter.Quiescent s.marking := by
  intro answer
  have hnone := hrest answer ⟨0⟩
  rw [Adapter.step, hanswers answer, if_neg Bool.false_ne_true] at hnone
  cases hselected : selectCandidate transitionId (adapterNet answer) s.marking transitions with
  | none => rfl
  | some selected =>
    obtain ⟨-, -, -, -, bound, hbound, -⟩ := selected_spec hselected
    obtain ⟨b, hb, -⟩ := Option.map_eq_some_iff.mp hbound
    rw [evaluateOnce, hselected, Option.bind_some, QueueTransition.fire?, hb] at hnone
    cases hnone

theorem atRest_of_quiescent (h : Adapter.Quiescent m) : Adapter.AtRest m := by
  intro answer now
  rw [Adapter.step, stuck, evaluateOnce, h answer]
  rfl

theorem not_matchOn_of_quiescent (hquiet : Adapter.Quiescent m)
    (t : AdapterTransition) (field field' : String) {p : AdapterPlace} (ht : t ∈ transitions)
    (hne : p ≠ .inUse) (hinputs : ∀ answer, (adapterNet answer t).inputs = [.take p, .take .inUse])
    (hguard : ∀ answer, (adapterNet answer t).guard = matchOn field field')
    {x hold : Stamped RhaiMap} (hx : x ∈ m p) (hhold : hold ∈ m .inUse) :
    Rhai.eq (prop x.colour field) (prop hold.colour field') = false := by
  have hselect := hquiet (.ok [])
  obtain ⟨r, hr⟩ := QueueTransition.mem_choices_two hne hx hhold
  have htimed : (timed ⟨0⟩ (adapterNet (.ok []) t)).inputs = [.take p, .take .inUse] := by
    rw [timed, QueueTransition.comap, hinputs]
    rfl
  rw [← htimed] at hr
  have hfalse := guard_eq_false_of_select hselect ht (hinputs (.ok [])) (Or.inl rfl) hr
  rw [hguard] at hfalse
  exact hfalse

theorem held_eq_zero_of_quiescent (hquiet : Adapter.Quiescent m) (hpaired : Paired g a m)
    (h : 0 < (tally g a m).releases ∨ 0 < (tally g a m).failures ∨ 0 < (tally g a m).expiries) :
    held a m = 0 := by
  by_contra hheld
  obtain ⟨hold, hmem, hhold⟩ := List.countP_pos_iff.mp (Nat.pos_of_ne_zero hheld)
  have halloc : prop hold.colour "alloc_id" = .str a := of_decide_eq_true hhold
  rcases h with h | h | h
  · obtain ⟨x, hx, hname⟩ := List.countP_pos_iff.mp h
    have hgrant : names "grant_id" g hold = true := (hpaired .inUse (Or.inr rfl) hold hmem).trans hhold
    have hne := not_matchOn_of_quiescent hquiet .tReleasePrep "grant_id" "grant_id"
      (by decide) (by decide) (fun _ => rfl) (fun _ => rfl) hx hmem
    rw [of_decide_eq_true hname, of_decide_eq_true hgrant, Rhai.eq_str_self] at hne
    cases hne
  · obtain ⟨x, hx, hname⟩ := List.countP_pos_iff.mp h
    have hne := not_matchOn_of_quiescent hquiet .tLeaseDied "scheduler_job_id" "alloc_id"
      (by decide) (by decide) (fun _ => rfl) (fun _ => rfl) hx hmem
    rw [of_decide_eq_true hname, halloc, Rhai.eq_str_self] at hne
    cases hne
  · obtain ⟨x, hx, hname⟩ := List.countP_pos_iff.mp h
    have hne := not_matchOn_of_quiescent hquiet .tReap "scheduler_job_id" "alloc_id"
      (by decide) (by decide) (fun _ => rfl) (fun _ => rfl) hx hmem
    rw [of_decide_eq_true hname, halloc, Rhai.eq_str_self] at hne
    cases hne

end

/-! ## The theorem -/

/-- **The hold of an allocation ends in every order of its tokens**, if a release or a failure signal
is among those that came, or the expiry signal came when the hold was recorded, and the net never is
stuck. -/
theorem lease_settled (g a : String) (as : List Action) (s : State) (hrun : exec (step g a) init as = some s)
    (hanswers : Throughout (step g a) Answers init as)
    (h : .releaseInbox ∈ s.arrived ∨ .leaseFailed ∈ s.arrived ∨
      Along (step g a) (ExpiresHeld a) init as) : Settled a s := by
  have hinv : Inv g a s := exec_invariant inv_step inv_init hrun
  refine ⟨fun hrest hterminal => ?_, ?_⟩
  · have hquiet : Adapter.Quiescent s.marking := quiescent_of_atRest hrest (hanswers.last hrun)
    -- A token that ends the hold still waits, or the hold is gone already.
    have hcase : (0 < (tally g a s.marking).releases ∨ 0 < (tally g a s.marking).failures ∨
        0 < (tally g a s.marking).expiries) ∨ held a s.marking = 0 := by
      by_cases hreleased : .releaseInbox ∈ s.arrived
      · rcases hinv.sound.released hreleased with hpos | ⟨-, hzero⟩
        · exact Or.inl (Or.inl hpos)
        · exact Or.inr (Nat.eq_zero_of_add_eq_zero hzero).2
      by_cases hfailed : .leaseFailed ∈ s.arrived
      · rcases hinv.sound.failed hfailed with hpos | ⟨-, hzero⟩
        · exact Or.inl (Or.inr (Or.inl hpos))
        · exact Or.inr (Nat.eq_zero_of_add_eq_zero hzero).2
      have halong : Along (step g a) (ExpiresHeld a) init as := by
        rcases h with h | h | h
        · exact absurd h hreleased
        · exact absurd h hfailed
        · exact h
      have hexpired : .leaseExpired ∈ s.arrived := by
        rcases hterminal with h | h | h
        · exact absurd h hreleased
        · exact h
        · exact absurd h hfailed
      have hboth : Inv g a s ∧ Expiring g a s :=
        exec_invariant_along (I := fun s => Inv g a s ∧ Expiring g a s)
          (fun s act s' hs hc h => ⟨inv_step s act s' hs.1 h, expiring_step hs.1 hs.2 hc h⟩)
          ⟨inv_init, expiring_init⟩ halong hrun
      rcases hboth.2.reapable.kept hexpired with hpos | hzero
      · exact Or.inl (Or.inr (Or.inr hpos))
      · exact Or.inr hzero
    rcases hcase with hpos | hzero
    · exact held_eq_zero_of_quiescent hquiet hinv.paired hpos
    · exact hzero
  · have hsingle : pending a s.marking + held a s.marking + notices a s.marking ≤ 1 :=
      hinv.sound.single
    omega

/-- **An allocation has one registration, hold or failure notice at most, at every moment of every run.** -/
theorem one_hold (g a : String) (as : List Action) :
    Throughout (step g a) (fun s => pending a s.marking + held a s.marking + notices a s.marking ≤ 1) init as :=
  throughout_of_invariant inv_step (fun _ h => h.sound.single) as inv_init

/-! ## An expiry signal that overtakes the registration -/

def registration : RhaiMap := [("grant_id", .str "g"), ("alloc_id", .str "a")]

def expiry : RhaiMap := [("scheduler_job_id", .str "a")]

/-- Registered over a bridge with a fail channel, recorded, failed, the holder told; then the expiry,
drained. -/
def inOrder : List Action :=
  [.arrive .registerInbox (registration ++ [(PoolNet.failChannel, .str "p_loop_lease_failed")]) ⟨1⟩,
    .evaluate (.ok []) ⟨2⟩, .arrive .leaseFailed expiry ⟨3⟩, .evaluate (.ok []) ⟨4⟩,
    .arrive .leaseExpired expiry ⟨5⟩, .evaluate (.ok []) ⟨6⟩]

/-- The expiry signal is drained before the registration comes. -/
def overtaken : List Action :=
  [.arrive .leaseExpired expiry ⟨1⟩, .evaluate (.ok []) ⟨2⟩, .arrive .registerInbox registration ⟨3⟩,
    .evaluate (.ok []) ⟨4⟩]

/-- The hold is dropped when its allocation fails, and the holder is told once. -/
theorem lease_settled_in_order : ∃ s, exec (step "g" "a") init inOrder = some s ∧
    notices "a" s.marking = 1 ∧ Settled "a" s := by
  refine ⟨_, rfl, by decide, lease_settled "g" "a" inOrder _ rfl ?_ (Or.inr (Or.inl (by decide)))⟩
  refine throughout_cons ?_ rfl (throughout_cons ?_ rfl (throughout_cons ?_ rfl
    (throughout_cons ?_ rfl (throughout_cons ?_ rfl (throughout_cons ?_ rfl ?_)))))
  all_goals exact fun answer => by cases answer <;> rfl

/-- The hold that is recorded after its expiry signal was drained stays, and nothing is left that
could end it. -/
theorem lease_leaked : ∃ s, exec (step "g" "a") init overtaken = some s ∧
    .leaseExpired ∈ s.arrived ∧ Adapter.Quiescent s.marking ∧ held "a" s.marking = 1 ∧ ¬ Settled "a" s := by
  have hquiet : ∀ s, exec (step "g" "a") init overtaken = some s → Adapter.Quiescent s.marking := by
    intro s hs answer
    cases hs
    cases answer <;> rfl
  refine ⟨_, rfl, by decide, hquiet _ rfl, rfl, fun h => ?_⟩
  have hzero := h.1 (atRest_of_quiescent (hquiet _ rfl)) (Or.inr (Or.inl (by decide)))
  exact absurd hzero (by decide)

end LeaseOrder

end Mekhan
