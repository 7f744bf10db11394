import Mekhan.Infra.Runs
import Mekhan.Service.LoopNet

/-!
# The iteration law of a Loop

A run of a Loop node's net: the loop is activated any number of times, the bodies complete at any
moment, the producers that its expressions read park data, and the engine evaluates in between. Next
to the marking a state keeps, for each activation, how often its body was started and how often it
went on, and the counter it should have: the fold of its own iterations.
-/

namespace Mekhan

namespace LoopLaw

open Infra LoopNet
open Rhai (prop int increment increment_int)

/-! ## Runs -/

structure State where
  marking : LoopMarking
  arrivals : Nat
  entered : Nat
  /-- How often the body of each activation was started. -/
  bodies : Nat → Nat
  continues : Nat → Nat
  /-- The counter of each activation, from its own iterations. -/
  folds : Nat → RhaiMap

def init : State := ⟨fun _ => [], 0, 0, fun _ => 0, fun _ => 0, fun _ => []⟩

inductive Action where
  | arrive (token : RhaiMap) (now : DateTime)
  /-- A producer that an expression of the loop reads parks its data. -/
  | park (k : Nat) (token : RhaiMap) (now : DateTime)
  /-- The body of the token at the position completes. -/
  | finish (pos : Nat) (body : RhaiMap) (now : DateTime)
  | evaluate (now : DateTime)

section

variable (node : LoopNode)

def record (s : State) (t : LoopTransition) (m : LoopMarking) : State :=
  match t, boundBy (loopNet node) s.marking t with
  | .tEnter, some (x :: borrowed) =>
    { s with
      marking := m
      entered := s.entered + 1
      bodies := Function.update s.bodies x.colour.origin 1
      continues := Function.update s.continues x.colour.origin 0
      folds := Function.update s.folds x.colour.origin
        (initial node x.colour.colour (colours borrowed)) }
  | .tContinue, some (x :: _ :: borrowed) =>
    { s with
      marking := m
      bodies := Function.update s.bodies x.colour.origin (s.bodies x.colour.origin + 1)
      continues := Function.update s.continues x.colour.origin (s.continues x.colour.origin + 1)
      folds := Function.update s.folds x.colour.origin
        (advanced node x.colour.colour (s.folds x.colour.origin) (colours borrowed)) }
  | _, _ => { s with marking := m }

def completed (m : LoopMarking) (pos : Nat) (token : LoopToken) (body : RhaiMap) (now : DateTime) :
    LoopMarking :=
  enqueue (Function.update m .bodyIn ((m .bodyIn).eraseIdx pos))
    [(.bodyOut, ⟨⟨body, token.colour.origin⟩, now⟩)]

/-- What the condition and the merge expressions read. -/
def borrows : List Nat := node.guardBorrows ++ node.mergeBorrows

def step (s : State) : Action → Option State
  | .arrive token now =>
    some { s with
      marking := enqueue s.marking [(.input, ⟨⟨token, s.arrivals⟩, now⟩)]
      arrivals := s.arrivals + 1 }
  | .park k token now =>
    some { s with marking := enqueue s.marking [(.borrowed k, ⟨⟨token, 0⟩, now⟩)] }
  | .finish pos body now =>
    match (s.marking .bodyIn)[pos]? with
    | none => none
    | some token => some { s with marking := completed s.marking pos token body now }
  | .evaluate now =>
    (selected node s.marking).bind fun sel =>
      ((timed now (traced (loopNet node sel.1))).fire? s.marking).map (record node s sel.1)

/-! ## The law -/

/-- What a loop promises: bounded bodies, counted iterations, folds in order. -/
structure Law (s : State) : Prop where
  bodies : ∀ o < s.entered, 1 ≤ s.bodies o ∧ s.bodies o ≤ node.maxIterations + 1
  iteration : ∀ o < s.entered, prop (s.folds o) "iteration" = int (s.continues o)
  choice : s.marking .bodyOut ≠ [] →
    (boundBy (loopNet node) s.marking .tContinue).isSome = !(boundBy (loopNet node) s.marking .tExit).isSome
  /-- The guards see the counter of the activation whose body completed. -/
  guards : ∀ t, t = .tContinue ∨ t = .tExit → ∀ x c borrowed,
    boundBy (loopNet node) s.marking t = some (x :: c :: borrowed) →
    c.colour.colour = s.folds x.colour.origin
  /-- So do the borrows in the body, and those after the loop until it is entered again. -/
  borrows : ∀ x, x ∈ s.marking .bodyIn ∨ x ∈ s.marking .bodyOut ∨
      (x ∈ s.marking .output ∧ x.colour.origin + 1 = s.entered) →
    ∃ c, (s.marking .data).getLast? = some c ∧ c.colour.colour = s.folds x.colour.origin

/-- No counter but the newest satisfies the guard of `t_continue`. -/
def fresh (m : LoopMarking) : Bool :=
  (m .bodyOut).all fun x => (m .data).dropLast.all fun c =>
    !LoopNet.continues node x.colour.colour c.colour.colour (colours (newest m (borrows node)))

/-- Activations do not overlap, and when a body completes all that the expressions read is parked and
no counter that was left behind satisfies the guard of `t_continue`. -/
def separate (s : State) : Action → Bool
  | .arrive _ _ => s.marking .input = [] && s.marking .bodyIn = [] && s.marking .bodyOut = []
  | .park k token now => fresh node (enqueue s.marking [(.borrowed k, ⟨⟨token, 0⟩, now⟩)])
  | .finish pos body now =>
    match (s.marking .bodyIn)[pos]? with
    | none => true
    | some token => (borrows node).all (fun k => s.marking (.borrowed k) ≠ []) &&
        fresh node (completed s.marking pos token body now)
  | .evaluate _ => true

def Separate (s : State) (act : Action) : Prop := separate node s act = true

instance (s : State) (act : Action) : Decidable (Separate node s act) :=
  inferInstanceAs (Decidable (_ = true))

/-! ## The invariant -/

/-- One token is in the loop, with the iteration its bodies say. -/
structure Inv (s : State) : Prop where
  single : (s.marking .input).length + (s.marking .bodyIn).length + (s.marking .bodyOut).length ≤ 1
  waiting : ∀ x ∈ s.marking .input, x.colour.origin = s.entered
  arrivals : s.arrivals = s.entered + (s.marking .input).length
  own : ∀ x, x ∈ s.marking .bodyIn ∨ x ∈ s.marking .bodyOut → x.colour.origin + 1 = s.entered
  parked : ∀ o, o + 1 = s.entered →
    ∃ c, (s.marking .data).getLast? = some c ∧ c.colour.colour = s.folds o
  counts : ∀ o < s.entered, s.bodies o = s.continues o + 1 ∧
    s.continues o ≤ node.maxIterations ∧ prop (s.folds o) "iteration" = int (s.continues o)
  ready : s.marking .bodyOut ≠ [] → ∀ k ∈ borrows node, s.marking (.borrowed k) ≠ []
  fresh : fresh node s.marking = true

variable {node}

theorem inv_init : Inv node init where
  single := Nat.zero_le 1
  waiting := fun _ hx => absurd hx (List.not_mem_nil)
  arrivals := rfl
  own := fun x hx => by simp [init] at hx
  parked := fun o ho => absurd ho (Nat.succ_ne_zero o)
  counts := fun o ho => absurd ho (Nat.not_lt_zero o)
  ready := fun h => absurd rfl h
  fresh := rfl

/-! ## The environment's steps -/

theorem fresh_of_nil {m : LoopMarking} (h : m .bodyOut = []) : fresh node m = true := by
  simp [fresh, h]

variable {s : State} {now : DateTime} {x : LoopToken} {l₁ l₂ : List LoopToken}

theorem inv_arrive {token : RhaiMap} (h : Inv node s)
    (hinput : s.marking .input = []) (hbodyIn : s.marking .bodyIn = []) (hbodyOut : s.marking .bodyOut = []) :
    Inv node { s with
      marking := enqueue s.marking [(.input, ⟨⟨token, s.arrivals⟩, now⟩)]
      arrivals := s.arrivals + 1 } := by
  have harrivals : s.arrivals = s.entered := by simpa [hinput] using h.arrivals
  constructor
  · simp [enqueue, hinput, hbodyIn, hbodyOut]
  · simp [enqueue, hinput, harrivals]
  · simp [enqueue, hinput, harrivals]
  · simp [enqueue, hbodyIn, hbodyOut]
  · simpa [enqueue] using h.parked
  · exact h.counts
  · simp [enqueue, hbodyOut]
  · exact fresh_of_nil (by simp [enqueue, hbodyOut])

theorem inv_park {k : Nat} (h : Inv node s)
    (hfresh : fresh node (enqueue s.marking [(.borrowed k, x)]) = true) :
    Inv node { s with marking := enqueue s.marking [(.borrowed k, x)] } := by
  constructor
  · simpa [enqueue] using h.single
  · simpa [enqueue] using h.waiting
  · simpa [enqueue] using h.arrivals
  · simpa [enqueue] using h.own
  · simpa [enqueue] using h.parked
  · exact h.counts
  · intro hne k' hk'
    have hne' := h.ready (by simpa [enqueue] using hne) k' hk'
    simp [enqueue, hne']
  · exact hfresh

theorem inv_finish {pos : Nat} {token : LoopToken} {body : RhaiMap}
    (h : Inv node s) (htoken : (s.marking .bodyIn)[pos]? = some token)
    (hready : ∀ k ∈ borrows node, s.marking (.borrowed k) ≠ [])
    (hfresh : fresh node (completed s.marking pos token body now) = true) :
    Inv node { s with marking := completed s.marking pos token body now } := by
  obtain ⟨hpos, hget⟩ := List.getElem?_eq_some_iff.mp htoken
  have hmem : token ∈ s.marking .bodyIn := hget ▸ List.getElem_mem hpos
  have hlen := List.length_pos_of_mem hmem
  have hsingle := h.single
  have hbodyOut : s.marking .bodyOut = [] := List.length_eq_zero_iff.mp (by omega)
  have herase : (s.marking .bodyIn).eraseIdx pos = [] :=
    List.length_eq_zero_iff.mp (by rw [List.length_eraseIdx_of_lt hpos]; omega)
  constructor
  · have hinput : s.marking .input = [] := List.length_eq_zero_iff.mp (by omega)
    simp [completed, enqueue, herase, hbodyOut, hinput]
  · simpa [completed, enqueue] using h.waiting
  · simpa [completed, enqueue] using h.arrivals
  · intro x hx
    have hx' : x = ⟨⟨body, token.colour.origin⟩, now⟩ := by
      simpa [completed, enqueue, herase, hbodyOut] using hx
    rw [hx']
    exact h.own token (Or.inl hmem)
  · simpa [completed, enqueue] using h.parked
  · exact h.counts
  · simpa [completed, enqueue] using hready
  · exact hfresh

/-! ## Firings -/

theorem Inv.body_alone (h : Inv node s) (hbody : s.marking .bodyOut = l₁ ++ x :: l₂) :
    l₁ = [] ∧ l₂ = [] ∧ s.marking .input = [] ∧ s.marking .bodyIn = [] := by
  have hsingle := h.single
  rw [hbody] at hsingle
  simp only [List.length_append, List.length_cons] at hsingle
  refine ⟨?_, ?_, ?_, ?_⟩ <;> exact List.length_eq_zero_iff.mp (by omega)

theorem inv_enter {counter : RhaiMap} (h : Inv node s) (hinput : s.marking .input = l₁ ++ x :: l₂)
    (hcounter : prop counter "iteration" = int 0) : Inv node { s with
      marking := enqueue (Function.update s.marking .input (l₁ ++ l₂))
        [(.bodyIn, ⟨x.colour, now⟩), (.data, ⟨⟨counter, x.colour.origin⟩, now⟩)]
      entered := s.entered + 1
      bodies := Function.update s.bodies x.colour.origin 1
      continues := Function.update s.continues x.colour.origin 0
      folds := Function.update s.folds x.colour.origin counter } := by
  have horigin : x.colour.origin = s.entered := h.waiting x (by simp [hinput])
  have hsingle := h.single
  have harrivals := h.arrivals
  rw [hinput] at hsingle harrivals
  simp only [List.length_append, List.length_cons] at hsingle harrivals
  obtain rfl : l₁ = [] := List.length_eq_zero_iff.mp (by omega)
  obtain rfl : l₂ = [] := List.length_eq_zero_iff.mp (by omega)
  have hbodyIn : s.marking .bodyIn = [] := List.length_eq_zero_iff.mp (by omega)
  have hbodyOut : s.marking .bodyOut = [] := List.length_eq_zero_iff.mp (by omega)
  constructor
  · simp [enqueue, hbodyIn, hbodyOut]
  · simp [enqueue]
  · simpa [enqueue] using harrivals
  · simp [enqueue, hbodyIn, hbodyOut, horigin]
  · intro o ho
    obtain rfl : o = s.entered := Nat.succ.inj ho
    exact ⟨⟨⟨counter, x.colour.origin⟩, now⟩, by simp [enqueue], by simp [horigin]⟩
  · intro o ho
    by_cases ho' : o = s.entered
    · subst ho'
      simp [horigin, hcounter]
    · have hlt : o < s.entered := Nat.lt_of_le_of_ne (Nat.le_of_lt_succ ho) ho'
      have hne : o ≠ x.colour.origin := horigin ▸ ho'
      simpa [hne] using h.counts o hlt
  · simp [enqueue, hbodyOut]
  · exact fresh_of_nil (by simp [enqueue, hbodyOut])

theorem Inv.newest_of_continues (h : Inv node s) {d₁ d₂ : List LoopToken}
    {x c : LoopToken} (hx : x ∈ s.marking .bodyOut) (hdata : s.marking .data = d₁ ++ c :: d₂)
    (hguard : LoopNet.continues node x.colour.colour c.colour.colour
      (colours (newest s.marking (borrows node))) = true) : d₂ = [] := by
  by_contra hne
  have hmem : c ∈ (s.marking .data).dropLast := by
    rw [hdata, List.dropLast_append_of_ne_nil (by simp), List.dropLast_cons_of_ne_nil hne]
    simp
  have hfresh := h.fresh
  simp only [LoopLaw.fresh, List.all_eq_true] at hfresh
  have hfalse := hfresh x hx c hmem
  rw [hguard] at hfalse
  cases hfalse

theorem inv_continue {d₁ d₂ : List LoopToken} {c : LoopToken}
    (h : Inv node s) (hbody : s.marking .bodyOut = l₁ ++ x :: l₂) (hdata : s.marking .data = d₁ ++ c :: d₂)
    (hguard : LoopNet.continues node x.colour.colour c.colour.colour
      (colours (newest s.marking (borrows node))) = true) : Inv node { s with
      marking := enqueue (Function.update (Function.update s.marking .bodyOut (l₁ ++ l₂)) .data
        (d₁ ++ d₂)) [(.bodyIn, ⟨x.colour, now⟩),
          (.data, ⟨⟨advanced node x.colour.colour c.colour.colour
            (colours (newest s.marking (borrows node))), x.colour.origin⟩, now⟩)]
      bodies := Function.update s.bodies x.colour.origin (s.bodies x.colour.origin + 1)
      continues := Function.update s.continues x.colour.origin (s.continues x.colour.origin + 1)
      folds := Function.update s.folds x.colour.origin
        (advanced node x.colour.colour (s.folds x.colour.origin)
          (colours (newest s.marking (borrows node)))) } := by
  have hx : x ∈ s.marking .bodyOut := by simp [hbody]
  have horigin := h.own x (Or.inr hx)
  obtain rfl := h.newest_of_continues hx hdata hguard
  obtain ⟨c', hc', hcolour⟩ := h.parked x.colour.origin horigin
  have hlast : (s.marking .data).getLast? = some c := by simp [hdata]
  obtain rfl := Option.some.inj (hlast.symm.trans hc')
  obtain ⟨rfl, rfl, hinput, hbodyIn⟩ := h.body_alone hbody
  obtain ⟨hbodies, hle, hiteration⟩ := h.counts x.colour.origin (by omega)
  have hlt : s.continues x.colour.origin < node.maxIterations := by
    simp only [LoopNet.continues, Bool.and_eq_true, hcolour, hiteration, int] at hguard
    exact (Rhai.lt_posInt (hle.trans_lt node.fits) node.fits).mp hguard.1
  constructor
  · simp [enqueue, hinput, hbodyIn]
  · simp [enqueue, hinput]
  · simpa [enqueue] using h.arrivals
  · simp [enqueue, hbodyIn, horigin]
  · intro o ho
    obtain rfl : o = x.colour.origin := Nat.succ.inj (ho.trans horigin.symm)
    exact ⟨⟨⟨advanced node x.colour.colour c.colour.colour
      (colours (newest s.marking (borrows node))), x.colour.origin⟩, now⟩, by simp [enqueue],
      by simp [hcolour]⟩
  · intro o ho
    by_cases ho' : o = x.colour.origin
    · subst ho'
      refine ⟨by simp [hbodies], by simpa using Nat.succ_le_of_lt hlt, ?_⟩
      have hadvanced : prop (advanced node x.colour.colour (s.folds x.colour.origin)
          (colours (newest s.marking (borrows node)))) "iteration" =
            increment (prop (s.folds x.colour.origin) "iteration") := rfl
      simp only [Function.update_self, hadvanced, hiteration]
      exact increment_int (hlt.trans node.fits)
    · simpa [ho'] using h.counts o ho
  · simp [enqueue]
  · exact fresh_of_nil (by simp [enqueue])

theorem inv_exit {y : LoopToken} (h : Inv node s) (hbody : s.marking .bodyOut = l₁ ++ x :: l₂) :
    Inv node { s with
      marking := enqueue (Function.update s.marking .bodyOut (l₁ ++ l₂)) [(.output, y)] } := by
  obtain ⟨rfl, rfl, hinput, hbodyIn⟩ := h.body_alone hbody
  constructor
  · simp [enqueue, hinput, hbodyIn]
  · simp [enqueue, hinput]
  · simpa [enqueue] using h.arrivals
  · simp [enqueue, hbodyIn]
  · simpa [enqueue] using h.parked
  · exact h.counts
  · simp [enqueue]
  · exact fresh_of_nil (by simp [enqueue])

theorem inv_fires {m : LoopMarking} {t : LoopTransition}
    (h : Inv node s) (hfires : Fires node s.marking now t m) : Inv node (record node s t m) := by
  cases hfires with
  | enter hinput hbound =>
    simp only [record, hbound]
    exact inv_enter h hinput rfl
  | next hbody hdata hbound hguard =>
    simp only [record, hbound]
    exact inv_continue h hbody hdata hguard
  | exit hbody hdata hbound hguard => exact inv_exit h hbody

theorem inv_step (s : State) (act : Action) (s' : State) (hinv : Inv node s)
    (hseparate : Separate node s act) (h : step node s act = some s') : Inv node s' := by
  cases act with
  | arrive token now =>
    cases h
    simp only [Separate, separate, Bool.and_eq_true, decide_eq_true_eq] at hseparate
    exact inv_arrive hinv hseparate.1.1 hseparate.1.2 hseparate.2
  | park k token now =>
    cases h
    exact inv_park hinv hseparate
  | finish pos body now =>
    simp only [step] at h
    split at h
    · cases h
    · next token htoken =>
      cases h
      simp only [Separate, separate, htoken, Bool.and_eq_true, List.all_eq_true, decide_eq_true_eq] at hseparate
      exact inv_finish hinv htoken hseparate.1 hseparate.2
  | evaluate now =>
    obtain ⟨sel, -, h⟩ := Option.bind_eq_some_iff.mp h
    obtain ⟨m, hm, rfl⟩ := Option.map_eq_some_iff.mp h
    exact inv_fires hinv (fires_of_fire hm)

/-! ## The law from the invariant -/

theorem Inv.completed_body (h : Inv node s) {x : LoopToken}
    (hx : x ∈ s.marking .bodyOut) : s.marking .bodyOut = [x] ∧ ∃ c,
      (s.marking .data).getLast? = some c ∧ c.colour.colour = s.folds x.colour.origin ∧
      ∃ n < 2 ^ 63, prop c.colour.colour "iteration" = int n := by
  have horigin := h.own x (Or.inr hx)
  obtain ⟨c, hc, hcolour⟩ := h.parked x.colour.origin horigin
  obtain ⟨-, hle, hiteration⟩ := h.counts x.colour.origin (by omega)
  refine ⟨?_, c, hc, hcolour, _, hle.trans_lt node.fits, hcolour ▸ hiteration⟩
  obtain ⟨l₁, l₂, hbody⟩ := List.append_of_mem hx
  obtain ⟨rfl, rfl, -⟩ := h.body_alone hbody
  exact hbody

theorem Inv.choice (h : Inv node s) (hne : s.marking .bodyOut ≠ []) :
    (boundBy (loopNet node) s.marking .tContinue).isSome = !(boundBy (loopNet node) s.marking .tExit).isSome := by
  obtain ⟨x, hx⟩ := List.exists_mem_of_ne_nil _ hne
  obtain ⟨hbody, c, hc, -, n, hn, hiteration⟩ := h.completed_body hx
  have hready := h.ready hne
  have hguardReady : ∀ k ∈ node.guardBorrows, s.marking (.borrowed k) ≠ [] := fun k hk =>
    hready k (List.mem_append_left _ hk)
  have hexits : exits node x.colour.colour c.colour.colour
      (colours (newest s.marking node.guardBorrows)) =
        !LoopNet.continues node x.colour.colour c.colour.colour
          (colours (newest s.marking (borrows node))) :=
    exits_eq_not_continues hiteration hn hguardReady
  cases hcontinues : LoopNet.continues node x.colour.colour c.colour.colour
      (colours (newest s.marking (borrows node))) with
  | true =>
    have hexit : boundBy (loopNet node) s.marking .tExit = none := by
      by_contra hsome
      obtain ⟨tokens, htokens⟩ := Option.ne_none_iff_exists'.mp hsome
      obtain ⟨m', hfires⟩ := fires_of_boundBy htokens
      cases hfires with
      | @exit l₁ l₂ x' c' hbody' hdata hbound hguard =>
        obtain rfl : x' = x := by
          have hmem : x' ∈ s.marking .bodyOut := by simp [hbody']
          simpa [hbody] using hmem
        obtain rfl := Option.some.inj (hc.symm.trans hdata)
        rw [hexits, hcontinues] at hguard
        cases hguard
    rw [hexit, continue_isSome hx (List.mem_of_getLast? hc) hready hcontinues]
    rfl
  | false =>
    have hcontinue : boundBy (loopNet node) s.marking .tContinue = none := by
      by_contra hsome
      obtain ⟨tokens, htokens⟩ := Option.ne_none_iff_exists'.mp hsome
      obtain ⟨m', hfires⟩ := fires_of_boundBy htokens
      cases hfires with
      | @next l₁ l₂ d₁ d₂ x' c' hbody' hdata hbound hguard =>
        obtain rfl : x' = x := by
          have hmem : x' ∈ s.marking .bodyOut := by simp [hbody']
          simpa [hbody] using hmem
        obtain rfl := h.newest_of_continues hx hdata hguard
        obtain rfl : c' = c := by simpa [hdata] using hc
        have htrue : LoopNet.continues node x'.colour.colour c'.colour.colour
            (colours (newest s.marking (borrows node))) = true := hguard
        rw [hcontinues] at htrue
        cases htrue
    have hexit : exits node x.colour.colour c.colour.colour
        (colours (newest s.marking node.guardBorrows)) = true := by
      rw [hexits]
      exact congrArg (!·) hcontinues
    rw [hcontinue, exit_isSome hx hc hguardReady hexit]
    rfl

theorem Inv.guards (h : Inv node s) {t : LoopTransition}
    (ht : t = .tContinue ∨ t = .tExit) {x c : LoopToken} {borrowed : List LoopToken}
    (hbound : boundBy (loopNet node) s.marking t = some (x :: c :: borrowed)) :
    c.colour.colour = s.folds x.colour.origin := by
  obtain ⟨m', hfires⟩ := fires_of_boundBy hbound
  cases hfires with
  | enter => rcases ht with ht | ht <;> cases ht
  | @next l₁ l₂ d₁ d₂ x' c' hbody hdata hbound' hguard =>
    have hsame := Option.some.inj (hbound.symm.trans hbound')
    obtain ⟨rfl, hrest⟩ := List.cons.inj hsame
    obtain ⟨rfl, -⟩ := List.cons.inj hrest
    have hx : x ∈ s.marking .bodyOut := by simp [hbody]
    obtain rfl := h.newest_of_continues hx hdata hguard
    obtain ⟨-, c', hc', hcolour, -⟩ := h.completed_body hx
    obtain rfl : c = c' := by simpa [hdata] using hc'
    exact hcolour
  | @exit l₁ l₂ x' c' hbody hdata hbound' hguard =>
    have hsame := Option.some.inj (hbound.symm.trans hbound')
    obtain ⟨rfl, hrest⟩ := List.cons.inj hsame
    obtain ⟨rfl, -⟩ := List.cons.inj hrest
    obtain ⟨-, c', hc', hcolour, -⟩ := h.completed_body (x := x) (by simp [hbody])
    obtain rfl := Option.some.inj (hdata.symm.trans hc')
    exact hcolour

theorem Inv.law (h : Inv node s) : Law node s where
  bodies o ho := by
    obtain ⟨hbodies, hle, -⟩ := h.counts o ho
    omega
  iteration o ho := (h.counts o ho).2.2
  choice := h.choice
  guards _ ht _ _ _ hbound := h.guards ht hbound
  borrows x hx := by
    refine h.parked x.colour.origin ?_
    rcases hx with hx | hx | ⟨-, hx⟩
    · exact h.own x (Or.inl hx)
    · exact h.own x (Or.inr hx)
    · exact hx

end

/-! ## A counter that was left behind -/

/-- A loop that goes on while its body says so. -/
def whileMore : LoopNode where
  id := "l"
  maxIterations := 5
  loopCondition := fun _ _ borrowed => prop (borrowed.headD []) "more" = .bool true
  accumulators := []
  initBorrows := []
  guardBorrows := [0]
  mergeBorrows := []
  positive := by decide
  fits := by decide

def more (value : Bool) : RhaiMap := [("more", .bool value)]

def twice : List Action :=
  [.arrive [] ⟨1⟩, .evaluate ⟨2⟩, .park 0 (more true) ⟨3⟩, .finish 0 [] ⟨4⟩, .evaluate ⟨5⟩,
    .park 0 (more false) ⟨6⟩, .finish 0 [] ⟨7⟩, .evaluate ⟨8⟩]

/-- It is entered again, and the first body asks for more. -/
def again : List Action :=
  [.arrive [] ⟨9⟩, .evaluate ⟨10⟩, .park 0 (more true) ⟨11⟩, .finish 0 [] ⟨12⟩]

end LoopLaw

end Mekhan
