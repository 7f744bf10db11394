import Mekhan.Application.Evaluation
import Mekhan.Application.RhaiRuntime
import Mekhan.Infra.ColouredNet
import Mekhan.Infra.QueuedNet

/-!
# Evaluating a net with queues

One round of the evaluation loop on a net given by its transitions' guards and scripts: the tokens
carry the time of their creation, `select_next_transition` ranks the transitions that have a binding
by `isBetter`, and the selected one fires, its tokens stamped with the current time. The nets this is
used for have no priorities. Where it matters which activation of a node a token belongs to, it
carries the activation's number (`Traced`), which no script sees.
-/

namespace Mekhan

open Infra

variable {P C T : Type}

structure Stamped (C : Type) where
  colour : C
  createdAt : DateTime
  deriving DecidableEq

def coloursOf (bound : List (List (Stamped C))) : List (List C) := bound.map (·.map Stamped.colour)

/-- A transition on stamped tokens; what it puts out is created `now`. -/
def timed (now : DateTime) (t : QueueTransition P C) : QueueTransition P (Stamped C) :=
  t.comap Stamped.colour fun _ c => ⟨c, now⟩

/-! ## Tokens with their activation -/

/-- A token with the activation it descends from. -/
structure Traced (C : Type) where
  colour : C
  origin : Nat
  deriving DecidableEq

/-- The activation of the first bound token. -/
def originOf (bound : List (List (Traced C))) : Nat :=
  (bound.flatten.head?.map Traced.origin).getD 0

/-- A transition on traced tokens: what it puts out descends from the first token it binds. -/
def traced (t : QueueTransition P C) : QueueTransition P (Traced C) :=
  t.comap Traced.colour fun bound c => ⟨c, originOf bound⟩

/-- A transition of a coloured net on traced tokens. -/
def tracedNet (t : NetTransition P C) : NetTransition P (Traced C) where
  inputs := t.inputs
  guard := fun tokens => t.guard (tokens.map Traced.colour)
  outputs := fun tokens => (t.outputs (tokens.map Traced.colour)).map fun x =>
    (x.1, ⟨x.2, (tokens.head?.map Traced.origin).getD 0⟩)

/-! ## Effects -/

inductive EffectAnswer where
  | ok (result : RhaiMap)
  | error (message : String) (retryable : Bool)

/-- The token on the `_error` port of an effect. -/
def errorToken (message handlerId transitionId : String) (retryable : Bool)
    (inputs : List (String × Json)) : RhaiMap :=
  [("error", .str message), ("handler_id", .str handlerId), ("transition_id", .str transitionId),
    ("inputs", .obj inputs), ("retryable", .bool retryable)]

/-! ## Ranking -/

/-- The later of the enabling time so far and a creation time. -/
def laterTime (time : Option DateTime) (t : Stamped C) : Option DateTime :=
  match time with
  | none => some t.createdAt
  | some m => some (if m.nanos < t.createdAt.nanos then t.createdAt else m)

def enablingTime (bound : List (List (Stamped C))) : Option DateTime :=
  bound.flatten.foldl laterTime none

section

variable [DecidableEq P] (id : T → TransitionId) (net : T → QueueTransition P C)
  (q : Queues P (Stamped C))

/-- The binding of a transition; the current time does not matter for it. -/
def boundAt (t : T) : Option (List (List (Stamped C))) :=
  ((timed ⟨0⟩ (net t)).binding? q).map Prod.fst

def considerCandidate (best : Option (T × Best)) (t : T) : Option (T × Best) :=
  match boundAt net q t with
  | none => best
  | some bound =>
    let time := enablingTime bound
    let inputCount := (net t).inputs.length
    if isBetter (best.map Prod.snd) (id t) time inputCount none then
      time.map fun time => (t, ⟨id t, time, inputCount, none⟩)
    else best

/-- The transition to fire, of the given ones. -/
def selectCandidate (ts : List T) : Option (T × Best) := ts.foldl (considerCandidate id net q) none

/-- One round of evaluation at time `now`. -/
def evaluateOnce (ts : List T) (now : DateTime) : Option (Queues P (Stamped C)) :=
  (selectCandidate id net q ts).bind fun s => (timed now (net s.1)).fire? q

/-! ## Bindings of traced tokens -/

section

variable (net : T → QueueTransition P C) (q : Queues P (Stamped (Traced C)))

/-- The tokens a transition would bind, in the order of its arcs. -/
def boundBy (t : T) : Option (List (Stamped (Traced C))) :=
  (boundAt (fun t => traced (net t)) q t).map List.flatten

variable {net q} {t : T} {bound : List (List (Stamped (Traced C)))}

theorem flatten_colours (bound : List (List (Stamped (Traced C)))) :
    ((bound.map (·.map Stamped.colour)).map (·.map Traced.colour)).flatten =
      bound.flatten.map fun x => x.colour.colour := by
  rw [← List.map_flatten, ← List.map_flatten, List.map_map]
  rfl

omit [DecidableEq P] in
theorem outputs_timed_traced {now : DateTime} {x : Stamped (Traced C)}
    {l : List (Stamped (Traced C))} {out : List (P × C)} (hflat : bound.flatten = x :: l)
    (hout : (net t).outputs ((bound.map (·.map Stamped.colour)).map (·.map Traced.colour)) = out) :
    (timed now (traced (net t))).outputs bound = out.map fun y => (y.1, ⟨⟨y.2, x.colour.origin⟩, now⟩) := by
  have horigin : originOf (bound.map (·.map Stamped.colour)) = x.colour.origin := by
    simp [originOf, ← List.map_flatten, hflat]
  simp only [timed, traced, QueueTransition.comap]
  rw [hout, horigin, List.map_map]
  rfl

theorem boundBy_of_binding {now : DateTime}
    (h : ((timed now (traced (net t))).binding? q).map Prod.fst = some bound) :
    boundBy net q t = some bound.flatten := by
  have hb : boundAt (fun t => traced (net t)) q t = some bound := h
  rw [boundBy, hb, Option.map_some]

end

/-! ## The ranking without priorities -/

variable {ts : List T} {best : Best} {tid : TransitionId} {time : DateTime} {inputCount : Nat}
  {s : T × Best}

theorem isBetter_iff (hbest : best.priority = none) :
    isBetter (some best) tid (some time) inputCount none = true ↔
      time.nanos < best.time.nanos ∨ (time = best.time ∧ (best.inputCount < inputCount ∨
          (inputCount = best.inputCount ∧ tid.name < best.id.name))) := by
  simp only [isBetter, hbest]
  by_cases htime : time.nanos < best.time.nanos
  · simp [htime]
  · by_cases hsame : time = best.time
    · by_cases hcount : best.inputCount < inputCount
      · simp [hsame, hcount]
      · by_cases hequal : inputCount = best.inputCount
        · simp [hsame, hequal]
        · simp [hsame, hcount, hequal]
    · simp [htime, hsame]

theorem isBetter_trans {best' : Best} (hbest : best.priority = none) (hbest' : best'.priority = none)
    (h : isBetter (some best') tid (some time) inputCount none = true)
    (h' : isBetter (some best) best'.id (some best'.time) best'.inputCount none = true) :
    isBetter (some best) tid (some time) inputCount none = true := by
  rw [isBetter_iff hbest'] at h
  rw [isBetter_iff hbest] at h' ⊢
  rcases h with hlt | ⟨rfl, h⟩ <;> rcases h' with hlt' | ⟨heq', h'⟩
  · exact Or.inl (hlt.trans hlt')
  · exact Or.inl (heq' ▸ hlt)
  · exact Or.inl hlt'
  · refine Or.inr ⟨heq', ?_⟩
    rcases h with hlt | ⟨heq, hname⟩ <;> rcases h' with hlt' | ⟨heq', hname'⟩
    · exact Or.inl (hlt'.trans hlt)
    · exact Or.inl (heq' ▸ hlt)
    · exact Or.inl (heq ▸ hlt')
    · exact Or.inr ⟨heq.trans heq', String.lt_trans hname hname'⟩

/-! ## What is selected -/

variable {id net q}

/-- What the loop knows of the best candidate: it has no priority, it is one of the transitions it
has seen, and its rank comes from its binding. -/
structure RankedIn (id : T → TransitionId) (net : T → QueueTransition P C)
    (q : Queues P (Stamped C)) (ts : List T) (s : T × Best) : Prop where
  mem : s.1 ∈ ts
  priority : s.2.priority = none
  name : s.2.id = id s.1
  inputCount : s.2.inputCount = (net s.1).inputs.length
  bound : ∃ bound, boundAt net q s.1 = some bound ∧ enablingTime bound = some s.2.time

theorem considerCandidate_cases (id : T → TransitionId) (net : T → QueueTransition P C)
    (q : Queues P (Stamped C)) (best : Option (T × Best)) (t : T) : considerCandidate id net q best t = best ∨
      ∃ s, considerCandidate id net q best t = some s ∧ RankedIn id net q [t] s ∧
        isBetter (best.map Prod.snd) s.2.id (some s.2.time) s.2.inputCount none = true := by
  unfold considerCandidate
  cases hbound : boundAt net q t with
  | none => exact Or.inl rfl
  | some bound =>
    dsimp only
    split
    · next hbetter =>
      cases htime : enablingTime bound with
      | none =>
        -- Without an enabling time nothing is better than anything.
        rw [htime] at hbetter
        cases best <;> simp [isBetter] at hbetter
      | some time =>
        rw [htime] at hbetter
        exact Or.inr ⟨_, rfl, ⟨List.mem_singleton_self t, rfl, rfl, rfl, bound, hbound, htime⟩,
          hbetter⟩
    · exact Or.inl rfl

theorem RankedIn.mono {ts' : List T} (h : RankedIn id net q ts s)
    (hsub : ts ⊆ ts') : RankedIn id net q ts' s :=
  { h with mem := hsub h.mem }

theorem selected_spec (h : selectCandidate id net q ts = some s) : RankedIn id net q ts s := by
  induction ts using List.reverseRecOn generalizing s with
  | nil => exact absurd h (by simp [selectCandidate])
  | append_singleton ts t ih =>
    rw [selectCandidate, List.foldl_append, List.foldl_cons, List.foldl_nil] at h
    rcases considerCandidate_cases id net q
      (ts.foldl (considerCandidate id net q) none) t with hsame | ⟨s', hs', hranked, -⟩
    · rw [hsame] at h
      exact (ih h).mono (List.subset_append_left _ _)
    · obtain rfl := Option.some.inj (hs'.symm.trans h)
      exact hranked.mono (List.subset_append_right _ _)

/-- A transition with a binding and an enabling time is considered: something is selected, and the
transition does not rank before it. -/
theorem not_isBetter_of_selected (id : T → TransitionId) {ts : List T} {t : T} (ht : t ∈ ts)
    {bound : List (List (Stamped C))} (hbound : boundAt net q t = some bound) {time : DateTime}
    (htime : enablingTime bound = some time) : ∃ s, selectCandidate id net q ts = some s ∧
      isBetter (some s.2) (id t) (some time) (net t).inputs.length none = false := by
  induction ts using List.reverseRecOn with
  | nil => exact absurd ht (List.not_mem_nil)
  | append_singleton ts u ih =>
    rw [selectCandidate, List.foldl_append, List.foldl_cons, List.foldl_nil]
    have hcases := considerCandidate_cases id net q
      (ts.foldl (considerCandidate id net q) none) u
    rcases List.mem_append.mp ht with ht | ht
    · obtain ⟨s, hs, hnot⟩ := ih ht
      rcases hcases with hsame | ⟨s', hs', hranked, hbetter⟩
      · exact ⟨s, hsame.trans hs, hnot⟩
      · refine ⟨s', hs', ?_⟩
        rw [selectCandidate] at hs
        rw [hs] at hbetter
        refine Bool.eq_false_iff.mpr fun h => ?_
        rw [isBetter_trans (selected_spec hs).priority hranked.priority h hbetter] at hnot
        cases hnot
    · obtain rfl := List.mem_singleton.mp ht
      cases hbetter : isBetter
          ((ts.foldl (considerCandidate id net q) none).map Prod.snd) (id t) (some time)
          (net t).inputs.length none with
      | true =>
        refine ⟨(t, ⟨id t, time, (net t).inputs.length, none⟩), ?_, ?_⟩
        · simp only [considerCandidate, hbound, htime, hbetter, if_true, Option.map_some]
        · refine Bool.eq_false_iff.mpr fun h => ?_
          rw [isBetter_iff rfl] at h
          simp at h
      | false =>
        cases hbest : ts.foldl (considerCandidate id net q) none with
        | none =>
          rw [hbest] at hbetter
          exact absurd hbetter (by simp [isBetter])
        | some s =>
          rw [hbest] at hbetter
          rw [Option.map_some] at hbetter
          exact ⟨s, by simp [considerCandidate, hbound, htime, hbetter], hbetter⟩

/-! ## At rest -/

theorem enablingTime_cons (c : Stamped C) (bound : List (List (Stamped C))) :
    ∃ time, enablingTime ([c] :: bound) = some time := by
  have hfold : ∀ (l : List (Stamped C)) (m : DateTime), ∃ time,
      l.foldl laterTime (some m) = some time := by
    intro l
    induction l with
    | nil => exact fun m => ⟨m, rfl⟩
    | cons d l ih => exact fun m => ih _
  exact hfold bound.flatten c.createdAt

/-- Where nothing is selected, the guard of a transition that starts with one token rejects every
choice. -/
theorem guard_eq_false_of_select (h : selectCandidate id net q ts = none) {t : T}
    (ht : t ∈ ts) {p : P} {arc : InArc P C} {arcs : List (InArc P C)}
    (hinputs : (net t).inputs = arc :: arcs) (harc : arc = .take p ∨ arc = .peek p)
    {bound : List (List (Stamped C))} {r : Queues P (Stamped C)}
    (hmem : (bound, r) ∈ choices (timed ⟨0⟩ (net t)).inputs [] q) :
    (net t).guard (coloursOf bound) = false := by
  by_contra hguard
  obtain ⟨⟨b, r'⟩, hb⟩ : ∃ b, (timed ⟨0⟩ (net t)).binding? q = some b :=
    Option.isSome_iff_exists.mp
      (List.find?_isSome.mpr ⟨_, hmem, Bool.eq_true_of_not_eq_false hguard⟩)
  obtain ⟨hmem', -⟩ := QueueTransition.binding?_eq_some hb
  rw [timed, QueueTransition.comap, hinputs] at hmem'
  obtain ⟨c, new, rfl⟩ : ∃ c new, b = [c] :: new := by
    rcases harc with rfl | rfl
    · obtain ⟨l₁, c, l₂, -, hmem'⟩ := mem_choices_take.mp hmem'
      obtain ⟨new, rfl, -⟩ := perm_of_mem_choices hmem'
      exact ⟨c, new, rfl⟩
    · obtain ⟨c, -, hmem'⟩ := mem_choices_peek.mp hmem'
      obtain ⟨new, rfl, -⟩ := perm_of_mem_choices hmem'
      exact ⟨c, new, rfl⟩
  obtain ⟨time, htime⟩ := enablingTime_cons c new
  have hbound : boundAt net q t = some ([c] :: new) := by
    rw [boundAt, hb]
    rfl
  obtain ⟨s, hs, -⟩ := not_isBetter_of_selected id ht hbound htime
  rw [h] at hs
  cases hs

/-- Where nothing is selected, the guard of a transition that takes one token rejects every token
there. -/
theorem guard_eq_false_of_mem (h : selectCandidate id net q ts = none) {t : T}
    (ht : t ∈ ts) {p : P} (hinputs : (net t).inputs = [.take p]) {c : Stamped C} (hc : c ∈ q p) :
    (net t).guard [[c.colour]] = false := by
  obtain ⟨r, hr⟩ := QueueTransition.mem_choices_one hc
  have htimed : (timed ⟨0⟩ (net t)).inputs = [.take p] := by
    rw [timed, QueueTransition.comap, hinputs]
    rfl
  rw [← htimed] at hr
  exact guard_eq_false_of_select h ht hinputs (Or.inl rfl) hr

theorem eq_nil_of_select (h : selectCandidate id net q ts = none) {t : T}
    (ht : t ∈ ts) {p : P} (hinputs : (net t).inputs = [.take p])
    (hguard : ∀ bound, (net t).guard bound = true) : q p = [] := by
  by_contra hne
  obtain ⟨c, hc⟩ := List.exists_mem_of_ne_nil _ hne
  have hfalse := guard_eq_false_of_mem h ht hinputs hc
  rw [hguard] at hfalse
  cases hfalse

end

end Mekhan
