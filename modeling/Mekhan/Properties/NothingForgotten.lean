import Mekhan.Api.EvalLoop

/-!
# When enabled work and outcomes are forgotten

A net rests when nothing evaluates it, no wake-up of its loop is stored or on its way, and it has not been
torn down. At rest nothing should be left to do: no transition enabled, no token in a terminal place, no
permanent failure without its NetFailed.

Only the loop acts on the outcome of a pass, and a wake-up that finds the lock taken is used up. So a pass of
another caller must not fail, and must leave nothing to do unless something will wake the loop after it.
-/

namespace Mekhan

namespace EvalLoop

open Infra

variable {M T D : Type} (net : Net M T D)

/-! ## The property -/

/-- The loop will look at the marking once more. -/
def State.Pending (s : State M T) : Prop := s.permit = true ∨ s.applied = true ∨ s.owed ≠ 0

/-- Nothing evaluates the net, no wake-up is pending, and it has not been torn down. -/
structure AtRest (s : State M T) : Prop where
  loop : s.loop = .waiting
  pass : s.pass = none
  quiet : ¬ s.Pending
  alive : s.tornDown = false

/-- No transition is enabled and no terminal place holds a token. -/
def Clean (m : M) : Prop := net.select m = none ∧ net.terminal m = false

/-- At rest nothing is left to do and no failure is without its NetFailed. -/
def NothingForgotten (s : State M T) : Prop := AtRest s → Clean net s.marking ∧ s.failed = false

/-! ## The condition -/

/-- The loop will evaluate the net again: it is not at its wait, or a wake-up is pending. -/
def State.Awake (s : State M T) : Prop := s.loop ≠ .waiting ∨ s.Pending

/-- Another caller's pass may end here: no failure is left to report unless the loop is about to, and the
loop will look again unless nothing is left to do. -/
def MayEnd (p : Pass M T) (s : State M T) : Prop :=
  (s.failed = true → s.loop = .tearing) ∧
    (s.Awake ∨ (∃ n, p.caller = .http n ∧ p.tokens ≠ 0) ∨ Clean net s.marking)

/-- Where the step ends another caller's pass on a net that is not torn down, it may end there. -/
def Heard (s : State M T) : Act D → Prop
  | .advance _ => ∀ p, s.pass = some p → (∃ r, p.stage = .ended r) → p.caller ≠ .loop →
      s.tornDown = false → MayEnd net p s
  | _ => True

/-! ## The invariant -/

def Pass.Failing (p : Pass M T) : Prop := match p.stage with
  | .look | .fire .. => False
  | .drain _ | .finalize .. => True
  | .ended r => r.failureReached = true

/-- What holds of the loop's own pass: a step that was made has woken the loop again, and at its end nothing
is left to do unless the loop is woken again or has an outcome to report. -/
def LoopPass (p : Pass M T) (s : State M T) : Prop := match p.stage with
  | .look => p.stepsLeft = 0 → s.Pending
  | .fire .. | .drain _ | .finalize .. => True
  | .ended r => r.terminalReached = true ∨ r.failureReached = true ∨ s.Pending ∨ Clean net s.marking

/-- What is enabled is pending, and what has failed is on its way. -/
structure Inv (s : State M T) : Prop where
  /-- A failure is on its way to be reported, or was one of another caller's pass that has not ended. -/
  failed : s.failed = true → s.loop = .tearing ∨ ∃ p, s.pass = some p ∧ (p.caller = .loop → p.Failing)
  free : s.pass = none → s.Awake ∨ Clean net s.marking
  loop : ∀ p, s.pass = some p → p.caller = .loop → s.loop = .passing ∧ LoopPass net p s

/-- The invariant, until the net is torn down. -/
def Sound (s : State M T) : Prop := s.tornDown = true ∨ Inv net s

variable {net} {s s' : State M T} {p : Pass M T} {d : D}

theorem inv_start (m : M) : Inv net (State.start m : State M T) where
  failed h := by cases h
  free _ := Or.inl (Or.inr (Or.inl rfl))
  loop p h := by cases h

theorem nothingForgotten_of_sound (h : Sound net s) : NothingForgotten net s := by
  intro hrest
  rcases h with htorn | hinv
  · rw [hrest.alive] at htorn
    cases htorn
  · constructor
    · rcases hinv.free hrest.pass with (hloop | hpending) | hclean
      · exact absurd hrest.loop hloop
      · exact absurd hpending hrest.quiet
      · exact hclean
    · by_contra hfailed
      rcases hinv.failed (by simpa using hfailed) with htearing | ⟨p, hp, _⟩
      · rw [hrest.loop] at htearing
        cases htearing
      · rw [hrest.pass] at hp
        cases hp

/-! ## Steps of the wake-ups -/

theorem Inv.of_pending (h : Inv net s) (hpass : s'.pass = s.pass) (hloop : s'.loop = s.loop)
    (hfailed : s'.failed = s.failed) (hpending : s'.Pending) : Inv net s' where
  failed hf := by
    rw [hpass, hloop]
    exact h.failed (hfailed ▸ hf)
  free _ := Or.inl (Or.inr hpending)
  loop q hq hcaller := by
    obtain ⟨hphase, hlp⟩ := h.loop q (hpass ▸ hq) hcaller
    refine ⟨hloop.trans hphase, ?_⟩
    unfold LoopPass at hlp ⊢
    cases hstage : q.stage with
    | look => exact fun _ => hpending
    | fire read t => trivial
    | drain rounds => trivial
    | finalize rounds read t => trivial
    | ended r => exact Or.inr (Or.inr (Or.inl hpending))

theorem Inv.of_loop (h : Inv net s) (phase : LoopPhase) (permit : Bool) (hnot : s.loop ≠ .passing)
    (htearing : s.loop ≠ .tearing) (hawake : phase ≠ .waiting ∨ s.pass ≠ none) :
    Inv net { s with loop := phase, permit := permit } where
  failed hf := by
    rcases h.failed hf with hloop | hp
    · exact absurd hloop htearing
    · exact Or.inr hp
  free hpass := by
    rcases hawake with hphase | hne
    · exact Or.inl (Or.inl hphase)
    · exact absurd hpass hne
  loop q hq hcaller := absurd (h.loop q hq hcaller).1 hnot

theorem Inv.begin (h : Inv net s) (hpass : s.pass = none) (phase : LoopPhase)
    (hphase : s.loop = .tearing → phase = .tearing)
    (hloop : p.caller = .loop → phase = .passing ∧ LoopPass net p { s with loop := phase, pass := some p } ∧
      s.loop ≠ .tearing) : Inv net { s with loop := phase, pass := some p } where
  failed hf := by
    rcases h.failed hf with htearing | ⟨q, hq, _⟩
    · exact Or.inl (hphase htearing)
    · rw [hpass] at hq
      cases hq
  free hnone := by cases hnone
  loop q hq hcaller := by
    cases hq
    exact ⟨(hloop hcaller).1, (hloop hcaller).2.1⟩

/-! ## Steps of a pass -/

theorem Inv.move (h : Inv net s) (hpass : s.pass = some p) {q : Pass M T} (hq : s'.pass = some q)
    (hloop : s'.loop = s.loop) (hcaller : q.caller = p.caller)
    (hfailed : s'.failed = true → s.failed = true ∧ (p.Failing → q.Failing) ∨ q.Failing)
    (hlp : LoopPass net p s → LoopPass net q s') : Inv net s' where
  failed hf := by
    rcases hfailed hf with ⟨hold, hkeep⟩ | hfailing
    · rcases h.failed hold with htearing | ⟨p', hp', hfailing⟩
      · exact Or.inl (hloop.trans htearing)
      · obtain rfl := Option.some.inj (hpass.symm.trans hp')
        exact Or.inr ⟨q, hq, fun hc => hkeep (hfailing (hcaller ▸ hc))⟩
    · exact Or.inr ⟨q, hq, fun _ => hfailing⟩
  free hnone := by
    rw [hq] at hnone
    cases hnone
  loop q' hq' hc := by
    obtain rfl := Option.some.inj (hq.symm.trans hq')
    obtain ⟨hphase, hold⟩ := h.loop p hpass (hcaller ▸ hc)
    exact ⟨hloop.trans hphase, hlp hold⟩

theorem inv_release {r : Result} (h : Inv net s) (hpass : s.pass = some p) (hstage : p.stage = .ended r)
    (hend : p.caller ≠ .loop → MayEnd net p s) : Inv net (release p r s) := by
  unfold release
  -- another caller goes; `owed` is what it still has to notify
  have hother : ∀ owed, p.caller ≠ .loop → (s.owed ≤ owed) →
      ((∃ n, p.caller = .http n ∧ p.tokens ≠ 0) → owed ≠ 0) →
      Inv net { s with pass := none, owed := owed } := by
    intro owed hcaller hle howed
    obtain ⟨hfailed, hleft⟩ := hend hcaller
    refine ⟨fun hf => Or.inl (hfailed hf), fun _ => ?_, fun q hq => by cases hq⟩
    rcases hleft with (hphase | hpending) | htokens | hclean
    · exact Or.inl (Or.inl hphase)
    · refine Or.inl (Or.inr ?_)
      rcases hpending with hpermit | happlied | hne
      · exact Or.inl hpermit
      · exact Or.inr (Or.inl happlied)
      · exact Or.inr (Or.inr (by show owed ≠ 0; omega))
    · exact Or.inl (Or.inr (Or.inr (Or.inr (howed htokens))))
    · exact Or.inr hclean
  cases hcaller : p.caller with
  | loop =>
    obtain ⟨hphase, hlp⟩ := h.loop p hpass hcaller
    unfold LoopPass at hlp
    rw [hstage] at hlp
    by_cases houtcome : (r.terminalReached || r.failureReached) = true
    · simp only [houtcome, if_true]
      exact ⟨fun _ => Or.inl rfl, fun _ => Or.inl (Or.inl (by simp)), fun q hq => by cases hq⟩
    · simp only [houtcome]
      rw [Bool.or_eq_true, not_or] at houtcome
      refine ⟨fun hf => ?_, fun _ => ?_, fun q hq => by cases hq⟩
      · rcases h.failed hf with htearing | ⟨p', hp', hfailing⟩
        · rw [hphase] at htearing
          cases htearing
        · obtain rfl := Option.some.inj (hpass.symm.trans hp')
          have := hfailing hcaller
          unfold Pass.Failing at this
          rw [hstage] at this
          exact absurd this houtcome.2
      · rcases hlp with hterminal | hfailure | hpending | hclean
        · exact absurd hterminal houtcome.1
        · exact absurd hfailure houtcome.2
        · exact Or.inl (Or.inr hpending)
        · exact Or.inr hclean
  | http n =>
    refine hother (s.owed + p.tokens) (by rw [hcaller]; exact Caller.noConfusion) (Nat.le_add_right _ _) ?_
    rintro ⟨_, _, htokens⟩
    omega
  | terminate =>
    refine hother s.owed (by rw [hcaller]; exact Caller.noConfusion) (Nat.le_refl _) ?_
    rintro ⟨n, hn, _⟩
    rw [hcaller] at hn
    cases hn
  | drain =>
    refine hother s.owed (by rw [hcaller]; exact Caller.noConfusion) (Nat.le_refl _) ?_
    rintro ⟨n, hn, _⟩
    rw [hcaller] at hn
    cases hn

/-- **A step of a pass keeps the invariant where another caller's pass may end.** -/
theorem inv_advance (h : Inv net s) (hpass : s.pass = some p)
    (hend : ∀ r, p.stage = .ended r → p.caller ≠ .loop → MayEnd net p s)
    (hstep : advance net d p s = some s') : Inv net s' := by
  unfold advance at hstep
  cases hstage : p.stage with
  | look =>
    simp only [hstage] at hstep
    have hnot : ¬ p.Failing := by
      unfold Pass.Failing
      rw [hstage]
      exact id
    split at hstep
    · next hsteps =>
      cases hstep
      refine h.move hpass rfl rfl rfl (fun hf => Or.inl ⟨hf, fun hp => absurd hp hnot⟩) fun hlp => ?_
      unfold LoopPass at hlp
      rw [hstage] at hlp
      exact Or.inr (Or.inr (Or.inl (hlp hsteps)))
    · cases hselect : net.select s.marking with
      | none =>
        simp only [hselect] at hstep
        cases hstep
        refine h.move hpass rfl rfl rfl (fun hf => Or.inl ⟨hf, fun hp => absurd hp hnot⟩) fun _ => ?_
        -- nothing is enabled at the marking that the pass ends with
        show net.terminal s.marking = true ∨ _
        by_cases hterminal : net.terminal s.marking = true
        · exact Or.inl hterminal
        · exact Or.inr (Or.inr (Or.inr ⟨hselect, by simpa using hterminal⟩))
      | some t =>
        simp only [hselect] at hstep
        cases hstep
        exact h.move hpass rfl rfl rfl (fun hf => Or.inl ⟨hf, fun hp => absurd hp hnot⟩) fun _ => trivial
  | fire read t =>
    simp only [hstage] at hstep
    cases hfire : net.fire d read t s.marking with
    | stopped => simp only [hfire] at hstep; cases hstep
    | fired m tokens =>
      simp only [hfire] at hstep
      cases hstep
      refine h.move hpass rfl rfl rfl (fun hf => Or.inl ⟨hf, fun hp => ?_⟩) fun _ => ?_
      · unfold Pass.Failing at hp
        rw [hstage] at hp
        exact absurd hp id
      · exact fun _ => Or.inr (Or.inl rfl)
    | failed m =>
      simp only [hfire] at hstep
      cases hstep
      exact h.move hpass rfl rfl rfl (fun _ => Or.inr trivial) fun _ => trivial
  | drain rounds =>
    simp only [hstage] at hstep
    split at hstep
    · cases hstep
      exact h.move hpass rfl rfl rfl (fun _ => Or.inr trivial) fun _ => trivial
    · cases hstep
      exact h.move hpass rfl rfl rfl (fun _ => Or.inr rfl) fun _ => Or.inr (Or.inl rfl)
  | finalize rounds read t =>
    simp only [hstage] at hstep
    cases hfire : net.fire d read t s.marking with
    | stopped => simp only [hfire] at hstep; cases hstep
    | fired m tokens =>
      simp only [hfire] at hstep
      cases hstep
      exact h.move hpass rfl rfl rfl (fun _ => Or.inr trivial) fun _ => trivial
    | failed m =>
      simp only [hfire] at hstep
      cases hstep
      exact h.move hpass rfl rfl rfl (fun _ => Or.inr rfl) fun _ => Or.inr (Or.inl rfl)
  | ended r =>
    simp only [hstage] at hstep
    cases hstep
    exact inv_release h hpass hstage (hend r hstage)

/-! ## Any step -/

theorem tornDown_release (p : Pass M T) (r : Result) (s : State M T) :
    (release p r s).tornDown = s.tornDown := by
  unfold release
  cases p.caller <;> rfl

theorem tornDown_advance (hstep : advance net d p s = some s') : s'.tornDown = s.tornDown := by
  unfold advance at hstep
  repeat' split at hstep
  all_goals first
  | (cases hstep; rfl)
  | (cases hstep; exact tornDown_release ..)
  | cases hstep

theorem tornDown_step {a : Act D} (hstep : step net s a = some s') (h : s.tornDown = true) :
    s'.tornDown = true := by
  cases a with
  | create d => cases hstep; exact h
  | pulse =>
    simp only [step] at hstep
    split at hstep
    · cases hstep
    · cases hstep; exact h
  | bridge =>
    simp only [step] at hstep
    split at hstep
    · cases hstep; exact h
    · cases hstep
  | wake =>
    simp only [step] at hstep
    split at hstep
    · cases hstep; exact h
    · cases hstep
  | tryLock =>
    simp only [step] at hstep
    repeat' split at hstep
    all_goals first
    | (cases hstep; exact h)
    | cases hstep
  | call c =>
    simp only [step] at hstep
    repeat' split at hstep
    all_goals first
    | (cases hstep; exact h)
    | cases hstep
  | advance d =>
    obtain ⟨p, _, hadvance⟩ := Option.bind_eq_some_iff.mp hstep
    rw [tornDown_advance hadvance, h]
  | tearDown =>
    simp only [step] at hstep
    split at hstep
    · cases hstep; rfl
    · cases hstep
  | cancel => cases hstep; rfl

/-- **Every step that is heard keeps the invariant.** -/
theorem sound_step {a : Act D} (h : Sound net s) (hheard : Heard net s a) (hstep : step net s a = some s') :
    Sound net s' := by
  rcases h with htorn | h
  · exact Or.inl (tornDown_step hstep htorn)
  cases a with
  | create d =>
    cases hstep
    exact Or.inr (h.of_pending rfl rfl rfl (Or.inr (Or.inl rfl)))
  | pulse =>
    simp only [step] at hstep
    split at hstep
    · cases hstep
    · cases hstep
      exact Or.inr (h.of_pending rfl rfl rfl (Or.inl rfl))
  | bridge =>
    simp only [step] at hstep
    split at hstep
    · cases hstep
      exact Or.inr (h.of_pending rfl rfl rfl (Or.inl rfl))
    · cases hstep
  | wake =>
    simp only [step] at hstep
    split at hstep
    · next hwait =>
      cases hstep
      refine Or.inr (h.of_loop .woken false ?_ ?_ (Or.inl (by simp)))
      · rw [hwait.1]; simp
      · rw [hwait.1]; simp
    · cases hstep
  | tryLock =>
    simp only [step] at hstep
    split at hstep
    · next hwoken =>
      split at hstep
      · next hpass =>
        cases hstep
        refine Or.inr (h.begin hpass .passing ?_ fun _ => ⟨rfl, ?_, ?_⟩)
        · rw [hwoken]; exact fun h => by cases h
        · intro hsteps
          cases hsteps
        · rw [hwoken]; simp
      · next q hpass =>
        cases hstep
        refine Or.inr (h.of_loop .waiting s.permit ?_ ?_ (Or.inr (by rw [hpass]; simp)))
        · rw [hwoken]; simp
        · rw [hwoken]; simp
    · cases hstep
  | call c =>
    simp only [step] at hstep
    split at hstep
    · cases hstep
    · next hpass =>
      cases hstep
      exact Or.inr (h.begin hpass s.loop id fun hc => by cases hc)
    · cases hstep
    · next hc _ hpass =>
      cases hstep
      exact Or.inr (h.begin hpass s.loop id fun hcaller => absurd hcaller hc)
    · cases hstep
      exact Or.inr h
  | advance d =>
    obtain ⟨p, hpass, hadvance⟩ := Option.bind_eq_some_iff.mp hstep
    by_cases htorn : s.tornDown = true
    · exact Or.inl (by rw [tornDown_advance hadvance, htorn])
    · refine Or.inr (inv_advance h hpass (fun r hstage hcaller => ?_) hadvance)
      exact hheard p hpass ⟨r, hstage⟩ hcaller (by simpa using htorn)
  | tearDown =>
    simp only [step] at hstep
    split at hstep
    · cases hstep; exact Or.inl rfl
    · cases hstep
  | cancel =>
    cases hstep
    exact Or.inl rfl

/-! ## Runs -/

/-- **In every run in which the passes of other callers end only where the loop still hears of what is left,
no enabled work and no outcome is forgotten.** -/
theorem nothing_forgotten (net : Net M T D) (m : M) (as : List (Act D)) {s : State M T}
    (hheard : Along (step net) (Heard net) (State.start m) as)
    (hrun : exec (step net) (State.start m) as = some s) : NothingForgotten net s :=
  nothingForgotten_of_sound
    (exec_invariant_along (fun _ _ _ => sound_step) (Or.inr (inv_start m)) hheard hrun)

/-! ## A net -/

/-- A net with an input place and a terminal place, as their token counts. -/
structure Counts where
  input : Nat
  output : Nat

/-- One transition takes from the input to the output, or fails for good; its event is no `TransitionFired`. -/
def effectNet : Net Counts Unit Bool where
  select m := if m.input = 0 then none else some ()
  finalizer _ := none
  terminal m := decide (m.output ≠ 0)
  fire ok _ _ m := if ok then .fired ⟨m.input - 1, m.output + 1⟩ 0 else .failed ⟨m.input - 1, m.output⟩
  create _ m := ⟨m.input + 1, m.output⟩

/-- A net whose one event is a `TransitionFired` of a token, for a place that is not terminal. -/
def relayNet : Net Counts Unit Bool := { effectNet with
  terminal _ := false
  fire ok _ _ m := if ok then .fired ⟨m.input - 1, m.output + 1⟩ 1 else .failed ⟨m.input - 1, m.output⟩ }

/-- A pass that looks, fires, looks again and ends. -/
def firingPass : List (Act Bool) := List.replicate 4 (.advance true)

/-- A token is created and the loop fires; another is created, the HTTP handler fires for it, and the loop,
woken for what that pass produced, finds nothing. -/
def relayed : List (Act Bool) :=
  [.create true, .pulse, .wake, .tryLock] ++ firingPass ++ [.create true, .call (.http 5)] ++ firingPass ++
    [.pulse, .pulse, .bridge, .wake, .tryLock, .advance true, .advance true]

theorem heard_within (h : ∀ p, s.pass = some p → p.caller = .loop ∨ ∀ r, p.stage ≠ .ended r) :
    Heard net s (.advance d) := by
  rintro p hp ⟨r, hr⟩ hcaller -
  rcases h p hp with hloop | hstage
  · exact absurd hloop hcaller
  · exact absurd hr (hstage r)

/-- A token is created, fired by the loop, and fired on by a request. -/
theorem nothing_forgotten_relayed : ∃ s, exec (step relayNet) (State.start ⟨0, 0⟩) relayed = some s ∧
    s.marking = ⟨0, 2⟩ ∧ AtRest s ∧ NothingForgotten relayNet s := by
  refine ⟨_, rfl, rfl, ⟨rfl, rfl, ?_, rfl⟩, nothing_forgotten relayNet ⟨0, 0⟩ relayed ?_ rfl⟩
  · rintro (h | h | h)
    · cases h
    · cases h
    · exact h rfl
  -- the loop's own passes, and what the handler does before its pass ends
  have hloop {s : State Counts Unit} (h : s.pass.all (fun p => p.caller matches .loop) = true) :
      Heard relayNet s (.advance true) := heard_within fun p hp => by
    rw [hp] at h
    cases hc : p.caller <;> simp_all
  have hgoes {s : State Counts Unit} (h : s.pass.all (fun p => !(p.stage matches .ended _)) = true) :
      Heard relayNet s (.advance true) := heard_within fun p hp => by
    rw [hp] at h
    exact Or.inr fun r hr => by simp [hr] at h
  refine along_cons trivial rfl (along_cons trivial rfl (along_cons trivial rfl (along_cons trivial rfl ?_)))
  refine along_cons (hloop rfl) rfl (along_cons (hloop rfl) rfl (along_cons (hloop rfl) rfl
    (along_cons (hloop rfl) rfl ?_)))
  refine along_cons trivial rfl (along_cons trivial rfl ?_)
  refine along_cons (hgoes rfl) rfl (along_cons (hgoes rfl) rfl (along_cons (hgoes rfl) rfl
    (along_cons ?_ rfl ?_)))
  -- the handler's pass ends, and what it fired is still to wake the loop
  · rintro p hp - - -
    exact ⟨fun hf => (by cases hf), Or.inl (Or.inr (Or.inr (Or.inl rfl)))⟩
  refine along_cons trivial rfl (along_cons trivial rfl (along_cons trivial rfl (along_cons trivial rfl
    (along_cons trivial rfl (along_cons (hloop rfl) rfl (along_cons (hloop rfl) rfl trivial))))))

def idle (s : State Counts Unit) : Bool :=
  s.loop == .waiting && s.pass.isNone && !s.permit && !s.applied && s.owed == 0 && !s.tornDown

theorem not_nothingForgotten (bad : State Counts Unit → Bool) {as : List (Act Bool)}
    (hbad : ∀ s, bad s = true → ¬ (Clean effectNet s.marking ∧ s.failed = false))
    (hend : (exec (step effectNet) (State.start ⟨0, 0⟩) as).any (fun s => idle s && bad s) = true) :
    ¬ ∀ s, exec (step effectNet) (State.start ⟨0, 0⟩) as = some s → NothingForgotten effectNet s := by
  intro hall
  obtain ⟨s, hs, h⟩ := (Option.any_eq_true ..).mp hend
  rw [Bool.and_eq_true] at h
  refine hbad s h.2 (hall s hs ?_)
  obtain ⟨hidle, _⟩ := h
  simp only [idle, Bool.and_eq_true, beq_iff_eq, Option.isNone_iff_eq_none, Bool.not_eq_true'] at hidle
  obtain ⟨⟨⟨⟨⟨hloop, hpass⟩, hpermit⟩, happlied⟩, howed⟩, halive⟩ := hidle
  refine ⟨hloop, hpass, ?_, halive⟩
  rintro (h | h | h)
  · rw [hpermit] at h; cases h
  · rw [happlied] at h; cases h
  · exact h howed

/-- The loop starts and finds nothing; then `n` tokens are created. -/
def begun (n : Nat) : List (Act Bool) :=
  [.wake, .tryLock, .advance true, .advance true] ++ (List.replicate n [.create true, .pulse]).flatten

/-- A pass of the HTTP handler with one step that does not notify: the wake-up for its event finds the lock
taken. -/
def heldPass (ok : Bool) : List (Act Bool) :=
  [.call (.http 1), .bridge, .advance true, .advance ok, .bridge, .wake, .tryLock, .advance true, .advance true]

/-- A failure in a pass of the HTTP handler is never reported, a transition stays enabled after a pass of one
step, and a token stays in a terminal place, each on a net that rests. -/
theorem forgotten : (¬ ∀ s, exec (step effectNet) (State.start ⟨0, 0⟩) (begun 1 ++ heldPass false) =
      some s → NothingForgotten effectNet s) ∧
    (¬ ∀ s, exec (step effectNet) (State.start ⟨0, 0⟩) (begun 2 ++ heldPass true) =
      some s → NothingForgotten effectNet s) ∧
    ¬ ∀ s, exec (step effectNet) (State.start ⟨0, 0⟩) (begun 1 ++ heldPass true) =
      some s → NothingForgotten effectNet s := by
  refine ⟨not_nothingForgotten ((·.failed)) ?_ (by decide),
    not_nothingForgotten (fun s => s.marking.input != 0) ?_ (by decide),
    not_nothingForgotten (fun s => s.marking.output != 0) ?_ (by decide)⟩
  · rintro s hs ⟨_, hfailed⟩
    rw [hs] at hfailed
    cases hfailed
  · rintro s hs ⟨⟨hselect, _⟩, _⟩
    simp only [effectNet, bne_iff_ne] at hs hselect
    simp [hs] at hselect
  · rintro s hs ⟨⟨_, hterminal⟩, _⟩
    simp only [effectNet, bne_iff_ne] at hs hterminal
    simp [hs] at hterminal

end EvalLoop

end Mekhan
