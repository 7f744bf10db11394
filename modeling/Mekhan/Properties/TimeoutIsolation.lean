import Mekhan.Infra.Runs
import Mekhan.Service.TimeoutNet

/-!
# Activations of a Timeout

A run of a Timeout node's net: it is activated any number of times, its bodies move their tokens about
and complete at any moment, timers expire and their signals come in at any moment after, and the
engine evaluates in between. A timer that is cancelled does not expire any more, but a signal that is
under way still comes.
-/

namespace Mekhan

namespace TimeoutIsolation

open Infra TimeoutNet
open Rhai (prop)

/-! ## Runs -/

structure State where
  marking : TimeoutMarking
  arrivals : Nat
  /-- The timers that run, by activation and correlation id. -/
  armed : List (Nat × Json)
  /-- The activations whose timer's signal is under way. -/
  expired : List Nat
  /-- What was emitted as done: the activation that ended, and the one whose body's token it is. -/
  done : List (Nat × Nat)
  /-- The timeouts: the activation that ended, and the one whose timer it was. -/
  timeouts : List (Nat × Nat)
  /-- The activations whose body tokens were drained. -/
  drained : List Nat

def init : State := ⟨fun _ => [], 0, [], [], [], [], []⟩

inductive Action where
  | arrive (token : RhaiMap) (now : DateTime)
  /-- The body turns one of its tokens into others, or into completions. -/
  | body (place : TimeoutPlace) (pos : Nat) (out : List (TimeoutPlace × RhaiMap)) (now : DateTime)
  | expire (o : Nat)
  | deliver (o : Nat) (token : RhaiMap) (now : DateTime)
  | evaluate (answer : EffectAnswer) (now : DateTime)

def isBody : TimeoutPlace → Bool
  | .bodyIn | .inFlight _ => true
  | _ => false

def isBodyTarget : TimeoutPlace → Bool
  | .bodyOut | .inFlight _ => true
  | _ => false

section

variable (node : TimeoutNode)

/-- What a firing adds to the record, by the tokens it binds. -/
def record (s : State) (answer : EffectAnswer) (t : TimeoutTransition)
    (tokens : List TimeoutToken) (m : TimeoutMarking) : State :=
  match t, tokens with
  | .tSchedule, [timer] =>
    match answer with
    | .ok result =>
      { s with
        marking := m
        armed := (timer.colour.origin, prop result "timer_correlation_id") :: s.armed }
    | .error .. => { s with marking := m }
  | .tBodyDone, [bodyOut, scheduled] =>
    { s with marking := m, done := (scheduled.colour.origin, bodyOut.colour.origin) :: s.done }
  | .tCancel, [timer] =>
    match answer with
    | .ok _ =>
      { s with
        marking := m
        armed := s.armed.filter fun x => x.2 ≠ prop timer.colour.colour "timer_correlation_id" }
    | .error .. => { s with marking := m }
  | .tTimeout, [scheduled, sig] =>
    { s with marking := m, timeouts := (scheduled.colour.origin, sig.colour.origin) :: s.timeouts }
  | .tDrain _, [token, _] => { s with marking := m, drained := token.colour.origin :: s.drained }
  | _, _ => { s with marking := m }

def step (s : State) : Action → Option State
  | .arrive token now =>
    some { s with
      marking := enqueue s.marking [(.input, ⟨⟨token, s.arrivals⟩, now⟩)]
      arrivals := s.arrivals + 1 }
  | .body place pos out now =>
    if isBody place ∧ ∀ x ∈ out, isBodyTarget x.1 then
      match (s.marking place)[pos]? with
      | none => none
      | some token =>
        some { s with
          marking := enqueue (Function.update s.marking place ((s.marking place).eraseIdx pos))
            (out.map fun x => (x.1, ⟨⟨x.2, token.colour.origin⟩, now⟩)) }
    else none
  | .expire o =>
    match s.armed.find? fun x => x.1 = o with
    | none => none
    | some timer => some { s with armed := s.armed.erase timer, expired := o :: s.expired }
  | .deliver o token now =>
    if o ∈ s.expired then
      some { s with
        marking := enqueue s.marking [(.sigTimeout, ⟨⟨token, o⟩, now⟩)]
        expired := s.expired.erase o }
    else none
  | .evaluate answer now =>
    (selected node answer s.marking).bind fun sel =>
      (boundBy (timeoutNet node answer) s.marking sel.1).bind fun tokens =>
        ((timed now (traced (timeoutNet node answer sel.1))).fire? s.marking).map
          (record s answer sel.1 tokens)

/-! ## The property -/

/-- No activation ends, or is ended, by something of another one. -/
structure Isolated (s : State) : Prop where
  /-- At most one of done and timeout for each activation. -/
  once : (s.done.map Prod.fst ++ s.timeouts.map Prod.fst).Nodup
  ownTimer : ∀ x ∈ s.timeouts, x.2 = x.1
  ownBody : ∀ x ∈ s.done, x.2 = x.1
  drains : ∀ o ∈ s.drained, o ∈ s.timeouts.map Prod.fst

/-- The places in which an activation can have left something. -/
def live : TimeoutPlace → Bool
  | .input | .timerData | .scheduled | .bodyIn | .bodyOut | .sigTimeout | .inFlight _ => true
  | _ => false

/-- An activation starts when nothing of an earlier one is left, and a timer's signal does not come
after a later activation started. -/
def Separate (s : State) : Action → Prop
  | .arrive _ _ => (∀ p, live p = true → s.marking p = []) ∧
      (node.cancellable = [] ∨ s.marking .cancelPulse = [])
  | .deliver o _ _ => o + 1 = s.arrivals
  | _ => True

/-! ## The invariant -/

def racing (m : TimeoutMarking) : List Nat :=
  (m .input ++ m .timerData ++ m .scheduled).map fun x => x.colour.origin

/-- What is left in the net is of the latest activation. -/
structure Inv (s : State) : Prop where
  latest : ∀ p, live p = true → ∀ x ∈ s.marking p, x.colour.origin + 1 = s.arrivals
  races : (racing s.marking ++ (s.done.map Prod.fst ++ s.timeouts.map Prod.fst)).Nodup
  old : ∀ o ∈ s.done.map Prod.fst ++ s.timeouts.map Prod.fst, o < s.arrivals
  pulse : node.cancellable ≠ [] → s.marking .cancelPulse ≠ [] →
    ∃ o ∈ s.timeouts.map Prod.fst, o + 1 = s.arrivals
  ownTimer : ∀ x ∈ s.timeouts, x.2 = x.1
  ownBody : ∀ x ∈ s.done, x.2 = x.1
  drains : ∀ o ∈ s.drained, o ∈ s.timeouts.map Prod.fst

variable {node}

variable {s : State} {l₁ l₂ : List TimeoutToken} {x y : TimeoutToken} {m : TimeoutMarking}
  {now : DateTime} {p target : TimeoutPlace} {armed : List (Nat × Json)}

theorem Inv.isolated (h : Inv node s) : Isolated s where
  once := (List.nodup_append.mp h.races).2.1
  ownTimer := h.ownTimer
  ownBody := h.ownBody
  drains := h.drains

theorem inv_init : Inv node init := by
  constructor <;> simp [init, racing]

/-! ## The environment's steps -/

variable {token : RhaiMap} {out : List (TimeoutPlace × TimeoutToken)} {d₁ d₂ l : List TimeoutToken}
  {child o : Nat} {w z : TimeoutToken}

theorem inv_arrive (h : Inv node s) (hlive : ∀ p, live p = true → s.marking p = [])
    (hpulse : node.cancellable = [] ∨ s.marking .cancelPulse = []) : Inv node { s with
      marking := enqueue s.marking [(.input, ⟨⟨token, s.arrivals⟩, now⟩)]
      arrivals := s.arrivals + 1 } := by
  constructor
  · intro p hp x hx
    rcases List.mem_append.mp hx with hx | hx
    · rw [hlive p hp] at hx
      exact absurd hx (List.not_mem_nil)
    · by_cases hinput : TimeoutPlace.input = p
      · obtain rfl : x = ⟨⟨token, s.arrivals⟩, now⟩ := by simpa [hinput] using hx
        rfl
      · simp [hinput] at hx
  · have hracing : racing (enqueue s.marking
        [(TimeoutPlace.input, (⟨⟨token, s.arrivals⟩, now⟩ : TimeoutToken))]) = [s.arrivals] := by
      simp [racing, enqueue, hlive .input rfl, hlive .timerData rfl, hlive .scheduled rfl]
    rw [hracing, List.singleton_append, List.nodup_cons]
    exact ⟨fun hmem => Nat.lt_irrefl _ (h.old _ hmem), h.isolated.once⟩
  · exact fun o ho => (h.old o ho).trans (Nat.lt_succ_self _)
  · intro hne hpulse'
    rcases hpulse with hpulse | hpulse
    · exact absurd hpulse hne
    · exact absurd (by simpa [enqueue] using hpulse) hpulse'
  · exact h.ownTimer
  · exact h.ownBody
  · exact h.drains

theorem latest_enqueue {rest : TimeoutMarking} (h : Inv node s) (hrest : ∀ p, ∀ x ∈ rest p, x ∈ s.marking p)
    (hout : ∀ x ∈ out, live x.1 = true → x.2.colour.origin + 1 = s.arrivals) :
    ∀ p, live p = true → ∀ x ∈ enqueue rest out p, x.colour.origin + 1 = s.arrivals := by
  intro p hp x hx
  rcases List.mem_append.mp hx with hx | hx
  · exact h.latest p hp x (hrest p x hx)
  · obtain ⟨y, hy, rfl⟩ := List.mem_map.mp hx
    obtain ⟨hy, hplace⟩ := List.mem_filter.mp hy
    exact hout y hy ((of_decide_eq_true hplace).symm ▸ hp)

theorem mem_update (hl : ∀ x ∈ l, x ∈ m p) : ∀ p', ∀ x ∈ Function.update m p l p', x ∈ m p' := by
  intro p' x hx
  by_cases heq : p' = p
  · subst heq
    rw [Function.update_self] at hx
    exact hl x hx
  · rwa [Function.update_of_ne heq] at hx

theorem inv_body {place : TimeoutPlace} {pos : Nat}
    {out : List (TimeoutPlace × RhaiMap)} {token : TimeoutToken} (h : Inv node s)
    (hplace : isBody place = true) (hout : ∀ x ∈ out, isBodyTarget x.1 = true)
    (htoken : (s.marking place)[pos]? = some token) : Inv node { s with
      marking := enqueue (Function.update s.marking place ((s.marking place).eraseIdx pos))
        (out.map fun x => (x.1, ⟨⟨x.2, token.colour.origin⟩, now⟩)) } := by
  have hother : ∀ p, isBody p = false → isBodyTarget p = false →
      enqueue (Function.update s.marking place ((s.marking place).eraseIdx pos))
        (out.map fun x => (x.1, (⟨⟨x.2, token.colour.origin⟩, now⟩ : TimeoutToken))) p =
          s.marking p := by
    intro p hp hp'
    have hne : p ≠ place := by
      rintro rfl
      rw [hplace] at hp
      cases hp
    have hnil : tokensAt p (out.map fun x =>
        (x.1, (⟨⟨x.2, token.colour.origin⟩, now⟩ : TimeoutToken))) = [] := by
      refine tokensAt_eq_nil fun x hx hxp => ?_
      obtain ⟨y, hy, rfl⟩ := List.mem_map.mp hx
      have htarget := hout y hy
      rw [show y.1 = p from hxp, hp'] at htarget
      cases htarget
    rw [enqueue, hnil, Function.update_of_ne hne, List.append_nil]
  have hlatest : token.colour.origin + 1 = s.arrivals := by
    refine h.latest place ?_ token (List.mem_of_getElem? htoken)
    cases place <;> simp_all [isBody, live]
  constructor
  · refine latest_enqueue (s := s) h (mem_update fun x hx => List.mem_of_mem_eraseIdx hx) ?_
    intro x hx _
    obtain ⟨y, -, rfl⟩ := List.mem_map.mp hx
    exact hlatest
  · have hracing : racing (enqueue (Function.update s.marking place
        ((s.marking place).eraseIdx pos))
        (out.map fun x => (x.1, (⟨⟨x.2, token.colour.origin⟩, now⟩ : TimeoutToken)))) =
          racing s.marking := by
      rw [racing, hother .input rfl rfl, hother .timerData rfl rfl, hother .scheduled rfl rfl]
      rfl
    rw [hracing]
    exact h.races
  · exact h.old
  · intro hne hpulse
    exact h.pulse hne (hother .cancelPulse rfl rfl ▸ hpulse)
  · exact h.ownTimer
  · exact h.ownBody
  · exact h.drains

theorem inv_deliver {expired : List Nat} (h : Inv node s) (ho : o + 1 = s.arrivals) : Inv node { s with
      marking := enqueue s.marking [(.sigTimeout, ⟨⟨token, o⟩, now⟩)]
      expired := expired } := by
  constructor
  · refine latest_enqueue (s := s) h (fun p x hx => hx) ?_
    intro x hx _
    obtain rfl := List.mem_singleton.mp hx
    exact ho
  · simpa [racing, enqueue] using h.races
  · exact h.old
  · simpa [enqueue] using h.pulse
  · exact h.ownTimer
  · exact h.ownBody
  · exact h.drains

/-! ## Firings -/

theorem Inv.move (h : Inv node s) (lost : List Nat)
    (hlatest : ∀ p, live p = true → ∀ x ∈ m p, x.colour.origin + 1 = s.arrivals)
    (hraces : (racing s.marking).Perm (racing m ++ lost)) (hpulse : m .cancelPulse = s.marking .cancelPulse) :
    Inv node { s with marking := m, armed := armed } := by
  constructor
  · exact hlatest
  · have hnodup := (hraces.append_right _).nodup_iff.mp h.races
    rw [List.append_assoc] at hnodup
    refine hnodup.sublist ?_
    exact List.Sublist.append_left (List.sublist_append_right lost _) _
  · exact h.old
  · intro hne hpulse'
    exact h.pulse hne (hpulse ▸ hpulse')
  · exact h.ownTimer
  · exact h.ownBody
  · exact h.drains

theorem mem_of_split (hl : m p = l₁ ++ x :: l₂) : ∀ y ∈ l₁ ++ l₂, y ∈ m p := by
  intro y hy
  rw [hl]
  rcases List.mem_append.mp hy with hy | hy
  · exact List.mem_append_left _ hy
  · exact List.mem_append_right _ (List.mem_cons_of_mem _ hy)

theorem inv_prep (h : Inv node s)
    (hinput : s.marking .input = l₁ ++ x :: l₂) (hy : y.colour.origin = x.colour.origin) {now : DateTime} :
    Inv node { s with
      marking := enqueue (Function.update s.marking .input (l₁ ++ l₂))
        [(.timerData, y), (.bodyIn, ⟨x.colour, now⟩)] } := by
  have hx : x.colour.origin + 1 = s.arrivals := h.latest .input rfl x (by simp [hinput])
  refine h.move [] (latest_enqueue h (mem_update (mem_of_split hinput)) ?_) ?_ ?_
  · intro z hz _
    simp only [List.mem_cons, List.not_mem_nil, or_false] at hz
    rcases hz with rfl | rfl
    · exact hy ▸ hx
    · exact hx
  · rw [List.perm_iff_count]
    intro o
    simp [racing, enqueue, hinput, hy, List.count_cons]
    omega
  · simp [enqueue]

theorem inv_schedule (h : Inv node s)
    (htimer : s.marking .timerData = l₁ ++ x :: l₂) (hy : y.colour.origin = x.colour.origin)
    (htarget : target = .scheduled ∨ target = .effectErrors) : Inv node { s with
      marking := enqueue (Function.update s.marking .timerData (l₁ ++ l₂)) [(target, y)]
      armed := armed } := by
  have hx : x.colour.origin + 1 = s.arrivals := h.latest .timerData rfl x (by simp [htimer])
  have hlatest : ∀ p, live p = true →
      ∀ z ∈ enqueue (Function.update s.marking .timerData (l₁ ++ l₂)) [(target, y)] p,
        z.colour.origin + 1 = s.arrivals := by
    refine latest_enqueue h (mem_update (mem_of_split htimer)) ?_
    intro z hz _
    obtain rfl := List.mem_singleton.mp hz
    exact hy ▸ hx
  rcases htarget with rfl | rfl
  · refine h.move [] hlatest ?_ (by simp [enqueue])
    rw [List.perm_iff_count]
    intro o
    simp [racing, enqueue, htimer, hy, List.count_cons]
    omega
  · refine h.move [x.colour.origin] hlatest ?_ (by simp [enqueue])
    rw [List.perm_iff_count]
    intro o
    simp [racing, enqueue, htimer, List.count_cons]
    omega

theorem Inv.finish {done timeouts : List (Nat × Nat)} (h : Inv node s)
    (hlatest : ∀ p, live p = true → ∀ x ∈ m p, x.colour.origin + 1 = s.arrivals)
    (ho : o + 1 = s.arrivals) (hraces : (racing s.marking).Perm (racing m ++ [o]))
    (hended : (done.map Prod.fst ++ timeouts.map Prod.fst).Perm
      (o :: (s.done.map Prod.fst ++ s.timeouts.map Prod.fst)))
    (hpulse : node.cancellable ≠ [] → m .cancelPulse ≠ [] → ∃ o ∈ timeouts.map Prod.fst, o + 1 = s.arrivals)
    (htimer : ∀ x ∈ timeouts, x.2 = x.1) (hbody : ∀ x ∈ done, x.2 = x.1)
    (hdrains : ∀ o ∈ s.timeouts.map Prod.fst, o ∈ timeouts.map Prod.fst) :
    Inv node { s with marking := m, done := done, timeouts := timeouts } := by
  constructor
  · exact hlatest
  · have hnodup := (hraces.append_right _).nodup_iff.mp h.races
    rw [List.append_assoc, List.singleton_append] at hnodup
    exact (hended.append_left _).nodup_iff.mpr hnodup
  · intro o' ho'
    rcases List.mem_cons.mp (hended.mem_iff.mp ho') with rfl | ho'
    · exact ho ▸ Nat.lt_succ_self _
    · exact h.old o' ho'
  · exact hpulse
  · exact htimer
  · exact hbody
  · exact fun o ho => hdrains o (h.drains o ho)

theorem inv_bodyDone (h : Inv node s) (hbody : s.marking .bodyOut = l₁ ++ x :: l₂)
    (hscheduled : s.marking .scheduled = d₁ ++ y :: d₂) : Inv node { s with
      marking := enqueue (Function.update (Function.update s.marking .bodyOut (l₁ ++ l₂)) .scheduled
        (d₁ ++ d₂)) [(.doneOut, w), (.cancelInput, z)]
      done := (y.colour.origin, x.colour.origin) :: s.done } := by
  have hx : x.colour.origin + 1 = s.arrivals := h.latest .bodyOut rfl x (by simp [hbody])
  have hy : y.colour.origin + 1 = s.arrivals := h.latest .scheduled rfl y (by simp [hscheduled])
  refine h.finish (latest_enqueue h ?_ ?_) hy ?_ (List.Perm.refl _) ?_ h.ownTimer ?_ fun o ho => ho
  · intro p v hv
    exact mem_update (mem_of_split hbody) p v
      (mem_update (mem_of_split (by simpa using hscheduled)) p v hv)
  · simp [live]
  · rw [List.perm_iff_count]
    intro o
    simp [racing, enqueue, hscheduled, List.count_cons]
  · intro hne hpulse
    exact h.pulse hne (by simpa [enqueue] using hpulse)
  · intro v hv
    rcases List.mem_cons.mp hv with rfl | hv
    · exact Nat.succ.inj (hx.trans hy.symm)
    · exact h.ownBody v hv

theorem inv_timeout (h : Inv node s) (hscheduled : s.marking .scheduled = l₁ ++ x :: l₂)
    (hsig : s.marking .sigTimeout = d₁ ++ y :: d₂) : Inv node { s with
      marking := enqueue (Function.update (Function.update s.marking .scheduled (l₁ ++ l₂))
        .sigTimeout (d₁ ++ d₂)) [(.timeoutOut, z), (.cancelPulse, w)]
      timeouts := (x.colour.origin, y.colour.origin) :: s.timeouts } := by
  have hx : x.colour.origin + 1 = s.arrivals := h.latest .scheduled rfl x (by simp [hscheduled])
  have hy : y.colour.origin + 1 = s.arrivals := h.latest .sigTimeout rfl y (by simp [hsig])
  refine h.finish (latest_enqueue h ?_ ?_) hx ?_ List.perm_middle ?_ ?_ h.ownBody ?_
  · intro p v hv
    exact mem_update (mem_of_split hscheduled) p v
      (mem_update (mem_of_split (by simpa using hsig)) p v hv)
  · simp [live]
  · rw [List.perm_iff_count]
    intro o
    simp [racing, enqueue, hscheduled, List.count_cons]
  · exact fun _ _ => ⟨x.colour.origin, by simp, hx⟩
  · intro v hv
    rcases List.mem_cons.mp hv with rfl | hv
    · exact Nat.succ.inj (hy.trans hx.symm)
    · exact h.ownTimer v hv
  · exact fun o ho => List.mem_cons_of_mem _ ho

theorem inv_drain (h : Inv node s) (hchild : node.cancellable ≠ [])
    (hflight : s.marking (.inFlight child) = l₁ ++ x :: l₂)
    (hpulse : (s.marking .cancelPulse).getLast? = some y) (hout : ∀ z ∈ out, z.1 = .drainInput child) :
    Inv node { s with
      marking := enqueue (Function.update s.marking (.inFlight child) (l₁ ++ l₂)) out
      drained := x.colour.origin :: s.drained } := by
  have hx : x.colour.origin + 1 = s.arrivals :=
    h.latest (.inFlight child) rfl x (by simp [hflight])
  have hnil : ∀ p, p ≠ .drainInput child → tokensAt p out = [] := fun p hp =>
    tokensAt_eq_nil fun z hz heq => hp (heq.symm.trans (hout z hz))
  have hmove : Inv node { s with
      marking := enqueue (Function.update s.marking (.inFlight child) (l₁ ++ l₂)) out } := by
    refine h.move [] (latest_enqueue h (mem_update (mem_of_split hflight)) ?_) ?_ ?_
    · intro z hz hlive
      rw [hout z hz] at hlive
      exact absurd hlive (by simp [live])
    · simp [racing, enqueue, hnil]
    · simp [enqueue, hnil]
  refine { hmove with drains := ?_ }
  intro o ho
  rcases List.mem_cons.mp ho with rfl | ho
  · obtain ⟨o, ho, hlatest⟩ := h.pulse hchild (by
      intro hnil
      rw [hnil] at hpulse
      exact absurd hpulse (by simp))
    obtain rfl : o = x.colour.origin := Nat.succ.inj (hlatest.trans hx.symm)
    exact ho
  · exact h.drains o ho

theorem inv_aside (h : Inv node s) (hp : live p = false) (hpulse : p ≠ .cancelPulse)
    (htarget : live target = false ∧ target ≠ .cancelPulse) : Inv node { s with
      marking := enqueue (Function.update s.marking p l) [(target, y)]
      armed := armed } := by
  have hsame : ∀ p', live p' = true ∨ p' = .cancelPulse →
      enqueue (Function.update s.marking p l) [(target, y)] p' = s.marking p' := by
    intro p' hp'
    have hne : p' ≠ p := by
      rintro rfl
      rcases hp' with hp' | hp'
      · exact absurd (hp'.symm.trans hp) (by simp)
      · exact hpulse hp'
    have hne' : target ≠ p' := by
      rintro rfl
      rcases hp' with hp' | hp'
      · exact absurd (hp'.symm.trans htarget.1) (by simp)
      · exact htarget.2 hp'
    simp [enqueue, hne, hne']
  refine h.move [] ?_ ?_ (hsame _ (Or.inr rfl))
  · intro p' hp' x hx
    rw [hsame p' (Or.inl hp')] at hx
    exact h.latest p' hp' x hx
  · rw [List.append_nil, racing, racing, hsame .input (Or.inl rfl), hsame .timerData (Or.inl rfl),
      hsame .scheduled (Or.inl rfl)]

theorem aside_target (target' : TimeoutPlace) (hlive : live target' = false)
    (hpulse : target' ≠ .cancelPulse) (h : target = target' ∨ target = .effectErrors) :
    live target = false ∧ target ≠ .cancelPulse := by
  rcases h with rfl | rfl
  · exact ⟨hlive, hpulse⟩
  · exact ⟨rfl, by simp⟩

theorem cancellable_of_mem (h : .tDrain child ∈ transitions node) : node.cancellable ≠ [] := by
  rintro hnil
  simp [transitions, hnil] at h

theorem inv_record {answer : EffectAnswer}
    {t : TimeoutTransition} {tokens : List TimeoutToken} (h : Inv node s)
    (ht : t ∈ transitions node) (hfires : Fires node s.marking answer now t tokens m) :
    Inv node (record s answer t tokens m) := by
  cases hfires with
  | @prep l₁ l₂ x hinput =>
    exact inv_prep (y := ⟨⟨timerInput node x.colour.colour, x.colour.origin⟩, now⟩) h hinput rfl
  | schedule htimer hy htarget =>
    cases answer with
    | ok result => exact inv_schedule h htimer hy htarget
    | error message => exact inv_schedule h htimer hy htarget
  | bodyDone hbody hscheduled => exact inv_bodyDone h hbody hscheduled
  | cancel hrequest htarget =>
    have hpulse := aside_target .cancelled rfl (by simp) htarget
    cases answer with
    | ok result => exact inv_aside h rfl (by simp) hpulse
    | error message => exact inv_aside h rfl (by simp) hpulse
  | timeout hscheduled hsig => exact inv_timeout h hscheduled hsig
  | drain hflight hpulse hout => exact inv_drain h (cancellable_of_mem ht) hflight hpulse hout
  | drainEffect hrequest htarget =>
    exact inv_aside h rfl (by simp) (aside_target _ rfl (by simp) htarget)

theorem inv_step (s : State) (act : Action) (s' : State) (h : Inv node s)
    (hseparate : Separate node s act) (hstep : step node s act = some s') : Inv node s' := by
  cases act with
  | arrive token now =>
    cases hstep
    exact inv_arrive h hseparate.1 hseparate.2
  | body place pos out now =>
    simp only [step] at hstep
    split at hstep
    · next hplace =>
      cases htoken : (s.marking place)[pos]? with
      | none =>
        rw [htoken] at hstep
        cases hstep
      | some token =>
        rw [htoken] at hstep
        cases hstep
        exact inv_body h hplace.1 hplace.2 htoken
    · cases hstep
  | expire o =>
    simp only [step] at hstep
    split at hstep
    · cases hstep
    · cases hstep
      exact ⟨h.latest, h.races, h.old, h.pulse, h.ownTimer, h.ownBody, h.drains⟩
  | deliver o token now =>
    simp only [step] at hstep
    split at hstep
    · cases hstep
      exact inv_deliver h hseparate
    · cases hstep
  | evaluate answer now =>
    obtain ⟨sel, hsel, hstep⟩ := Option.bind_eq_some_iff.mp hstep
    obtain ⟨tokens, htokens, hstep⟩ := Option.bind_eq_some_iff.mp hstep
    obtain ⟨m, hm, rfl⟩ := Option.map_eq_some_iff.mp hstep
    obtain ⟨tokens', htokens', hfires⟩ := fires_of_fire hm
    obtain rfl := Option.some.inj (htokens.symm.trans htokens')
    exact inv_record h (selected_spec hsel).mem hfires

/-- **Activations of a Timeout are isolated** if each starts when nothing of an earlier one is left
and no signal of an earlier timer comes after that. -/
theorem timeout_isolated (node : TimeoutNode) (as : List Action) (s : State)
    (hrun : exec (step node) init as = some s)
    (hseparate : Along (step node) (Separate node) init as) : Isolated s :=
  (exec_invariant_along inv_step inv_init hseparate hrun).isolated

end

/-! ## Runs with one cancellable child -/

def aroundTask : TimeoutNode where
  id := "t"
  durationMs := fun _ => .num (.posInt 1000)
  cancellable := [⟨"h", .human, "task_id", none⟩]

/-- An activation up to its scheduled timer. -/
def started (timer : String) (now : Nat) : List Action :=
  [.arrive [] ⟨now⟩, .evaluate (.ok []) ⟨now + 1⟩,
    .evaluate (.ok [("timer_correlation_id", .str timer)]) ⟨now + 2⟩]

/-- The body waits for its task, and the timer expires. -/
def timedOut : List Action :=
  started "a" 1 ++ [.body .bodyIn 0 [(.inFlight 0, [("task_id", .str "k")])] ⟨4⟩, .expire 0,
    .deliver 0 [] ⟨5⟩, .evaluate (.ok []) ⟨6⟩, .evaluate (.ok []) ⟨7⟩]

/-- The body completes first, and its timer is cancelled. -/
def completed : List Action :=
  started "a" 1 ++ [.body .bodyIn 0 [(.bodyOut, [])] ⟨4⟩, .evaluate (.ok []) ⟨5⟩,
    .evaluate (.ok []) ⟨6⟩]

/-- The next activation, whose body waits for a task until the timer expires. -/
def waiting : List Action :=
  started "b" 7 ++ [.body .bodyIn 0 [(.inFlight 0, [("task_id", .str "k")])] ⟨10⟩, .expire 1]

def expired : List Action :=
  [.deliver 1 [] ⟨11⟩, .evaluate (.ok []) ⟨12⟩, .evaluate (.ok []) ⟨13⟩]

/-- Nothing is asked of a step that neither starts an activation nor delivers a signal. -/
theorem separate_others {node : TimeoutNode} {s : State} {as : List Action}
    (h : ∀ act ∈ as, match act with | .arrive _ _ | .deliver _ _ _ => False | _ => True) :
    Along (step node) (Separate node) s as := by
  refine Along.mono (fun s act hact => ?_) (along_of_forall h)
  cases act with
  | arrive token now => exact hact.elim
  | deliver o token now => exact hact.elim
  | body place pos out now => trivial
  | expire o => trivial
  | evaluate answer now => trivial

theorem separate_completed : Along (step aroundTask) (Separate aroundTask) init completed :=
  ⟨⟨fun _ _ => rfl, Or.inr rfl⟩, fun _ _ => separate_others (by simp)⟩

/-- The first activation leaves nothing where the second one could meet it. -/
theorem separate_waiting {s : State} (hs : exec (step aroundTask) init completed = some s) :
    Along (step aroundTask) (Separate aroundTask) s waiting := by
  cases hs
  refine ⟨⟨fun p hp => ?_, Or.inr rfl⟩, fun _ _ => separate_others (by simp)⟩
  cases p <;> first | rfl | cases hp

theorem separate_expired {s : State}
    (hs : exec (step aroundTask) init (completed ++ waiting) = some s) :
    Along (step aroundTask) (Separate aroundTask) s expired := by
  have hlatest : (exec (step aroundTask) init (completed ++ waiting)).map State.arrivals = some 2 := by
    decide
  rw [hs, Option.map_some, Option.some.injEq] at hlatest
  exact ⟨hlatest.symm, fun _ _ => separate_others (by simp)⟩

/-- Of two activations the first completes; the second one times out, and its task is drained. -/
theorem timeout_isolated_twice :
    ∃ s, exec (step aroundTask) init (completed ++ waiting ++ expired) = some s ∧ Isolated s ∧
      s.done = [(0, 0)] ∧ s.timeouts = [(1, 1)] ∧ s.drained = [1] := by
  have hend : (exec (step aroundTask) init (completed ++ waiting ++ expired)).map
      (fun s => (s.done, s.timeouts, s.drained)) = some ([(0, 0)], [(1, 1)], [1]) := by decide
  obtain ⟨s, hs, hrecord⟩ := Option.map_eq_some_iff.mp hend
  simp only [Prod.mk.injEq] at hrecord
  have hseparate : Along (step aroundTask) (Separate aroundTask) init (completed ++ waiting ++ expired) :=
    (separate_completed.append fun _ => separate_waiting).append fun _ => separate_expired
  exact ⟨s, hs, timeout_isolated aroundTask _ s hs hseparate, hrecord⟩

/-- The timer expires while the body completes; it is cancelled too late. -/
def lateSignal : List Action :=
  started "a" 1 ++ [.expire 0, .body .bodyIn 0 [(.bodyOut, [])] ⟨4⟩, .evaluate (.ok []) ⟨5⟩,
    .evaluate (.ok []) ⟨6⟩] ++ started "b" 7 ++ [.deliver 0 [] ⟨10⟩, .evaluate (.ok []) ⟨11⟩]

/-- The late signal of an activation that is done times out the next one, whose own timer runs. -/
theorem late_signal_times_out : ∃ s, exec (step aroundTask) init lateSignal = some s ∧
    s.done = [(0, 0)] ∧ s.timeouts = [(1, 0)] ∧ s.armed = [(1, .str "b")] ∧ ¬ Isolated s := by
  have hend : (exec (step aroundTask) init lateSignal).map
      (fun s => (s.done, s.timeouts, s.armed)) =
        some ([(0, 0)], [(1, 0)], [(1, .str "b")]) := by decide
  obtain ⟨s, hs, hrecord⟩ := Option.map_eq_some_iff.mp hend
  simp only [Prod.mk.injEq] at hrecord
  obtain ⟨hdone, htimeouts, harmed⟩ := hrecord
  refine ⟨s, hs, hdone, htimeouts, harmed, fun h => ?_⟩
  exact absurd (h.ownTimer (1, 0) (by simp [htimeouts])) (by decide)

/-- The pulse of an activation that timed out drains the task of the next one, which has not ended:
nothing else of the first one is left. -/
theorem old_pulse_drains : ∃ s, exec (step aroundTask) init (timedOut ++ started "b" 8 ++
      [.body .bodyIn 0 [(.inFlight 0, [("task_id", .str "l")])] ⟨11⟩, .evaluate (.ok []) ⟨12⟩,
        .evaluate (.ok []) ⟨13⟩]) = some s ∧ s.timeouts = [(0, 0)] ∧ s.drained = [1, 0] ∧ ¬ Isolated s := by
  have hend : (exec (step aroundTask) init (timedOut ++ started "b" 8 ++
      [.body .bodyIn 0 [(.inFlight 0, [("task_id", .str "l")])] ⟨11⟩, .evaluate (.ok []) ⟨12⟩,
        .evaluate (.ok []) ⟨13⟩])).map (fun s => (s.timeouts, s.drained)) =
      some ([(0, 0)], [1, 0]) := by decide
  obtain ⟨s, hs, hrecord⟩ := Option.map_eq_some_iff.mp hend
  simp only [Prod.mk.injEq] at hrecord
  obtain ⟨htimeouts, hdrained⟩ := hrecord
  refine ⟨s, hs, htimeouts, hdrained, fun h => ?_⟩
  have hmem := h.drains 1 (by simp [hdrained])
  rw [htimeouts] at hmem
  exact absurd hmem (by decide)

end TimeoutIsolation

end Mekhan
