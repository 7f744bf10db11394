import Mekhan.Application.PinnedBinding
import Mekhan.Infra.Double
import Mathlib.Data.Int.ConditionallyCompleteOrder
import Mathlib.Data.Prod.Lex
import Mathlib.Data.String.Basic

/-!
# Selection and iteration order

`select_next_transition` of `application/src/evaluation.rs` goes over a hash map and keeps the best
candidate so far. A comparison with a priority that is not a number is settled by the ids, so that the
order on the candidates need not be transitive: with the priorities `1`, NaN and `2` of `a`, `b` and `c`,
`a` goes before `b`, `b` before `c`, and `c` before `a`.
-/

namespace Mekhan

open Infra

/-! ## The net in another iteration order -/

namespace PetriNet

/-- The net whose transitions are iterated in the order of `it`. -/
def iterated (net : PetriNet) (it : Iteration net.transitions.toFinmap) : PetriNet :=
  { net with
    transitions := it.map
    transitionsKeyed := fun e he =>
      net.transitionsKeyed e ((AList.toFinmap_eq.mp it.toMap).subset he) }

variable {net : PetriNet}

theorem values_iterated (it : Iteration net.transitions.toFinmap) :
    (net.iterated it).transitions.values.Perm net.transitions.values :=
  (AList.toFinmap_eq.mp it.toMap).map _

theorem getTransition_iterated (it : Iteration net.transitions.toFinmap) (id : TransitionId) :
    (net.iterated it).getTransition id = net.getTransition id :=
  AList.perm_lookup (AList.toFinmap_eq.mp it.toMap)

theorem exists_iterated {ts : List Transition} (h : ts.Perm net.transitions.values) :
    ∃ it, (net.iterated it).transitions.values = ts := by
  have hentries : net.transitions.entries =
      net.transitions.values.map fun t => (⟨t.id, t⟩ : Sigma fun _ => Transition) := by
    rw [HashMap.values, List.map_map]
    refine (List.map_id _).symm.trans (List.map_congr_left fun e he => ?_)
    obtain ⟨k, t⟩ := e
    have hid : t.id = k := net.transitionsKeyed _ he
    rw [← hid]
    rfl
  have hperm : (ts.map fun t => (⟨t.id, t⟩ : Sigma fun _ => Transition)).Perm
      net.transitions.entries := by
    rw [hentries]
    exact h.map _
  refine ⟨⟨⟨_, (List.perm_nodupKeys hperm).mpr net.transitions.nodupKeys⟩,
    AList.toFinmap_eq.mpr hperm⟩, ?_⟩
  show (ts.map _).map _ = ts
  rw [List.map_map]
  exact List.map_id _

theorem eq_of_id_eq {t u : Transition} (ht : t ∈ net.transitions.values)
    (hu : u ∈ net.transitions.values) (h : t.id = u.id) : t = u := by
  have hget := net.getTransition_of_mem_values ht
  rw [h, net.getTransition_of_mem_values hu] at hget
  exact (Option.some.inj hget).symm

end PetriNet

/-! ## The front of the candidates -/

namespace Best

/-- An earlier enabling time, or the same one and more input arcs. -/
def Leads (r s : Best) : Prop :=
  r.time.nanos < s.time.nanos ∨ r.time = s.time ∧ s.inputCount < r.inputCount

instance (r s : Best) : Decidable (r.Leads s) := inferInstanceAs (Decidable (_ ∨ _))

def scored (r : Best) : Bool := r.priority.isSome

def nan (r : Best) : Bool := r.priority.any F64.isNaN

/-- A higher priority, or the same one and a smaller id. -/
def outscores (r s : Best) : Bool :=
  match r.priority, s.priority with
  | some p, some q => q.lt p || (!p.lt q && decide (r.id.name < s.id.name))
  | _, _ => false

end Best

/-- The candidates that none of the others leads. -/
def frontOf (candidates : List Best) : List Best :=
  candidates.filter fun r => decide (∀ s ∈ candidates, ¬ s.Leads r)

/-- The ids settle every comparison with a priority that is not a number the same way. -/
inductive NanSettled (front : List Best) : Prop
  | numbers (h : ∀ r ∈ front, r.nan = false)
  /-- One of them has the smallest id of all that have a priority. -/
  | smallest (r : Best) (hr : r ∈ front) (hnan : r.nan = true)
      (h : ∀ s ∈ front, s.scored = true → s ≠ r → r.id.name < s.id.name)
  /-- The best of those with a number has a smaller id than each of them. -/
  | best (r : Best) (hr : r ∈ front) (hscored : r.scored = true) (hnan : r.nan = false)
      (hbest : ∀ s ∈ front, s.scored = true → s.nan = false → s ≠ r → r.outscores s = true)
      (h : ∀ s ∈ front, s.nan = true → r.id.name < s.id.name)

namespace Best

variable {r s : Best}

theorem Leads.above (h : r.Leads s) : r.Above s := by
  rcases h with h | ⟨htime, h⟩
  · exact above_of_time h
  · exact above_of_inputCount htime h

theorem level_of_not_leads (h : ¬ r.Leads s) (h' : ¬ s.Leads r) :
    r.time = s.time ∧ r.inputCount = s.inputCount := by
  rw [Leads, not_or, not_and] at h h'
  have hnanos : r.time.nanos = s.time.nanos := by omega
  have htime : r.time = s.time := congrArg DateTime.mk hnanos
  have hcount := h.2 htime
  have hcount' := h'.2 htime.symm
  exact ⟨htime, by omega⟩

theorem wins_level (htime : r.time = s.time) (hcount : r.inputCount = s.inputCount) :
    r.wins s = match r.priority, s.priority with
      | some p, some q => q.lt p || (!p.lt q && decide (r.id.name < s.id.name))
      | some _, none => true
      | none, some _ => false
      | none, none => decide (r.id.name < s.id.name) := by
  unfold wins beats isBetter
  rw [htime, hcount]
  simp only [Int.lt_irrefl, Nat.lt_irrefl, if_true, if_false]
  cases r.priority with
  | none => cases s.priority <;> rfl
  | some p =>
    cases s.priority with
    | none => rfl
    | some q => cases hqp : q.lt p <;> cases hpq : p.lt q <;> simp [hqp, hpq]

theorem wins_eq_not (h : r.id ≠ s.id) : r.wins s = !s.wins r := by
  by_cases hlead : r.Leads s
  · obtain ⟨hwins, hloses⟩ := hlead.above
    simp only [wins, hwins, hloses, Bool.not_false]
  by_cases hlead' : s.Leads r
  · obtain ⟨hwins, hloses⟩ := hlead'.above
    simp only [wins, hwins, hloses, Bool.not_true]
  obtain ⟨htime, hcount⟩ := level_of_not_leads hlead hlead'
  have hname : decide (r.id.name < s.id.name) = !decide (s.id.name < r.id.name) := by
    have hne : r.id.name ≠ s.id.name := fun he => h (congrArg TransitionId.mk he)
    rcases lt_or_gt_of_ne hne with hlt | hlt
    · simp [hlt, lt_asymm hlt]
    · simp [hlt, lt_asymm hlt]
  rw [wins_level htime hcount, wins_level htime.symm hcount.symm]
  cases r.priority with
  | none =>
    cases s.priority with
    | none => exact hname
    | some q => rfl
  | some p =>
    cases s.priority with
    | none => rfl
    | some q =>
      have hasymm : p.lt q = true → q.lt p = false := by
        simp only [F64.lt, Bool.and_eq_true, Bool.not_eq_true', decide_eq_true_eq, and_imp]
        intro hp hq hlt
        simp [Int.lt_asymm hlt]
      cases hqp : q.lt p <;> cases hpq : p.lt q <;> simp_all

/-- Where priorities are numbers, a rank wins if its key is smaller. -/
def key (r : Best) : WithTop ℤ ×ₗ String :=
  toLex (match r.priority with | none => ⊤ | some p => ((-p.rank : ℤ) : WithTop ℤ), r.id.name)

theorem wins_iff_key (htime : r.time = s.time) (hcount : r.inputCount = s.inputCount)
    (hr : r.nan = false) (hs : s.nan = false) : r.wins s = true ↔ r.key < s.key := by
  rw [wins_level htime hcount, key, key, Prod.Lex.toLex_lt_toLex]
  unfold nan at hr hs
  cases hp : r.priority with
  | none =>
    cases hq : s.priority with
    | none => simp
    | some q =>
      constructor
      · exact fun h => absurd h (by simp)
      · rintro (h | ⟨h, -⟩)
        · exact absurd h not_top_lt
        · exact absurd h WithTop.top_ne_coe
  | some p =>
    rw [hp, Option.any_some] at hr
    cases hq : s.priority with
    | none => exact iff_of_true rfl (Or.inl (WithTop.coe_lt_top _))
    | some q =>
      rw [hq, Option.any_some] at hs
      simp only [F64.lt, hr, hs, Bool.not_false, Bool.true_and, Bool.or_eq_true, Bool.and_eq_true,
        decide_eq_true_eq, Bool.not_eq_true', decide_eq_false_iff_not, WithTop.coe_lt_coe,
        WithTop.coe_inj]
      constructor
      · rintro (h | ⟨h, hname⟩)
        · exact Or.inl (by omega)
        · rcases lt_or_eq_of_le (not_lt.mp h) with h | h
          · exact Or.inl (by omega)
          · exact Or.inr ⟨by omega, hname⟩
      · rintro (h | ⟨h, hname⟩)
        · exact Or.inl (by omega)
        · exact Or.inr ⟨by omega, hname⟩

theorem wins_of_nan (htime : r.time = s.time) (hcount : r.inputCount = s.inputCount)
    (hr : r.scored = true) (hs : s.scored = true) (hnan : r.nan = true ∨ s.nan = true) :
    r.wins s = decide (r.id.name < s.id.name) := by
  rw [wins_level htime hcount]
  unfold scored at hr hs
  unfold nan at hnan
  obtain ⟨p, hp⟩ := Option.isSome_iff_exists.mp hr
  obtain ⟨q, hq⟩ := Option.isSome_iff_exists.mp hs
  rw [hp, hq] at hnan ⊢
  rcases hnan with h | h <;>
  · rw [Option.any_some] at h
    simp [F64.lt, h]

theorem wins_of_unscored (htime : r.time = s.time) (hcount : r.inputCount = s.inputCount)
    (hr : r.scored = true) (hs : s.scored = false) : r.wins s = true := by
  rw [wins_level htime hcount]
  unfold scored at hr hs
  obtain ⟨p, hp⟩ := Option.isSome_iff_exists.mp hr
  rw [hp, Option.isSome_eq_false_iff.mp hs |> Option.isNone_iff_eq_none.mp]

theorem wins_eq_outscores (htime : r.time = s.time) (hcount : r.inputCount = s.inputCount)
    (hr : r.scored = true) (hs : s.scored = true) : r.wins s = r.outscores s := by
  rw [wins_level htime hcount, outscores]
  unfold scored at hr hs
  obtain ⟨p, hp⟩ := Option.isSome_iff_exists.mp hr
  obtain ⟨q, hq⟩ := Option.isSome_iff_exists.mp hs
  rw [hp, hq]

theorem scored_of_nan (h : r.nan = true) : r.scored = true := by
  unfold nan at h
  unfold scored
  cases hp : r.priority with
  | none => simp [hp] at h
  | some p => rfl

end Best

/-! ## Who wins -/

variable {candidates : List Best} {r s : Best}

theorem mem_frontOf : r ∈ frontOf candidates ↔ r ∈ candidates ∧ ∀ s ∈ candidates, ¬ s.Leads r := by
  simp [frontOf]

theorem level_of_mem_frontOf (hr : r ∈ frontOf candidates) (hs : s ∈ frontOf candidates) :
    r.time = s.time ∧ r.inputCount = s.inputCount :=
  Best.level_of_not_leads ((mem_frontOf.mp hs).2 r (mem_frontOf.mp hr).1)
    ((mem_frontOf.mp hr).2 s (mem_frontOf.mp hs).1)

theorem leads_of_not_mem_frontOf (hr : r ∈ frontOf candidates) (hs : s ∈ candidates)
    (hnot : s ∉ frontOf candidates) : r.Leads s := by
  rw [mem_frontOf, not_and] at hnot
  have hleads := hnot hs
  push Not at hleads
  obtain ⟨u, hu, hus⟩ := hleads
  have hur := (mem_frontOf.mp hr).2 u hu
  unfold Best.Leads at hur hus ⊢
  rw [not_or, not_and] at hur
  by_cases htime : u.time = r.time
  · have hcount := hur.2 htime
    rw [htime] at hus
    rcases hus with hus | ⟨hus, hlt⟩
    · exact Or.inl hus
    · exact Or.inr ⟨hus, by omega⟩
  · have hnanos : u.time.nanos ≠ r.time.nanos := fun h => htime (congrArg DateTime.mk h)
    left
    rcases hus with hus | ⟨hus, -⟩
    · omega
    · rw [hus] at hnanos hur
      omega

theorem exists_mem_frontOf (hne : candidates ≠ []) : ∃ r, r ∈ frontOf candidates := by
  cases hr : candidates.argmin fun r => (toLex (r.time.nanos, -(r.inputCount : ℤ)) : ℤ ×ₗ ℤ) with
  | none => exact absurd (List.argmin_eq_none.mp hr) hne
  | some r =>
    refine ⟨r, mem_frontOf.mpr ⟨List.argmin_mem hr, fun s hs hleads => ?_⟩⟩
    have hle := List.le_of_mem_argmin hs hr
    rw [Prod.Lex.toLex_le_toLex] at hle
    rcases hleads with h | ⟨htime, h⟩
    · omega
    · rw [htime] at hle
      omega

theorem dominates_of_frontOf (hr : r ∈ frontOf candidates) (hids : ∀ s ∈ candidates, r.id = s.id → r = s)
    (h : ∀ s ∈ frontOf candidates, s ≠ r → r.wins s = true) : Dominates Best.wins r candidates := by
  refine ⟨(mem_frontOf.mp hr).1, fun s hs hne => ?_⟩
  by_cases hfront : s ∈ frontOf candidates
  · have hwins := h s hfront hne
    refine ⟨hwins, ?_⟩
    rw [Best.wins_eq_not fun hid => hne (hids s hs hid.symm).symm, hwins]
    rfl
  · exact (leads_of_not_mem_frontOf hr hs hfront).above

/-- **One candidate wins against all others iff the ids settle the rest of the front.** -/
theorem exists_dominates_iff (hids : ∀ r ∈ candidates, ∀ s ∈ candidates, r.id = s.id → r = s) :
    (candidates = [] ∨ ∃ w, Dominates Best.wins w candidates) ↔ NanSettled (frontOf candidates) := by
  constructor
  · rintro (rfl | ⟨w, hmem, hwins⟩)
    · exact .numbers fun r hr => absurd hr (by simp [frontOf])
    have hw : w ∈ frontOf candidates := by
      refine mem_frontOf.mpr ⟨hmem, fun s hs hleads => ?_⟩
      by_cases hsw : s = w
      · subst hsw
        rcases hleads with h | ⟨-, h⟩ <;> omega
      · have hlose := (hwins s hs hsw).2
        rw [Best.wins, hleads.above.1] at hlose
        cases hlose
    have hfront : ∀ s ∈ frontOf candidates, s ≠ w → w.wins s = true :=
      fun s hs hne => (hwins s (mem_frontOf.mp hs).1 hne).1
    by_cases hnone : ∀ s ∈ frontOf candidates, s.nan = false
    · exact .numbers hnone
    push Not at hnone
    obtain ⟨n, hn, hnnan⟩ := hnone
    rw [ne_eq, Bool.not_eq_false] at hnnan
    have hwscored : w.scored = true := by
      by_contra hunscored
      have hne : n ≠ w := fun h => hunscored (h ▸ Best.scored_of_nan hnnan)
      have hlevel := level_of_mem_frontOf hw hn
      have hwin := hfront n hn hne
      rw [Best.wins_level hlevel.1 hlevel.2] at hwin
      have hnscored := Best.scored_of_nan hnnan
      unfold Best.scored at hunscored hnscored
      rw [Option.not_isSome_iff_eq_none] at hunscored
      obtain ⟨p, hp⟩ := Option.isSome_iff_exists.mp hnscored
      rw [hunscored, hp] at hwin
      cases hwin
    have hname : ∀ s ∈ frontOf candidates, s ≠ w → s.scored = true → w.nan = true ∨ s.nan = true →
        w.id.name < s.id.name := by
      intro s hs hne hscored hnan
      have hlevel := level_of_mem_frontOf hw hs
      have hwin := hfront s hs hne
      rw [Best.wins_of_nan hlevel.1 hlevel.2 hwscored hscored hnan] at hwin
      exact of_decide_eq_true hwin
    cases hwnan : w.nan with
    | true => exact .smallest w hw hwnan fun s hs hscored hne => hname s hs hne hscored (Or.inl hwnan)
    | false =>
      refine .best w hw hwscored hwnan (fun s hs hscored _ hne => ?_) fun s hs hnan => ?_
      · have hlevel := level_of_mem_frontOf hw hs
        rw [← Best.wins_eq_outscores hlevel.1 hlevel.2 hwscored hscored]
        exact hfront s hs hne
      · have hne : s ≠ w := fun h => by simp [h, hwnan] at hnan
        exact hname s hs hne (Best.scored_of_nan hnan) (Or.inr hnan)
  · intro h
    by_cases hnil : candidates = []
    · exact Or.inl hnil
    refine Or.inr ?_
    cases h with
    | numbers h =>
      have hne : frontOf candidates ≠ [] := by
        obtain ⟨r, hr⟩ := exists_mem_frontOf hnil
        exact List.ne_nil_of_mem hr
      have hkey : ∀ x ∈ frontOf candidates, ∀ y ∈ frontOf candidates, x ≠ y →
          x.key ≠ y.key ∧ (x.wins y = true ↔ x.key < y.key) := by
        intro x hx y hy hxy
        have hlevel := level_of_mem_frontOf hx hy
        refine ⟨fun hkey => hxy (hids x (mem_frontOf.mp hx).1 y (mem_frontOf.mp hy).1 ?_),
          Best.wins_iff_key hlevel.1 hlevel.2 (h x hx) (h y hy)⟩
        exact congrArg TransitionId.mk (congrArg (fun k => (ofLex k).2) hkey)
      obtain ⟨w, hw, hwins⟩ := exists_dominates_of_key hkey hne
      exact ⟨w, dominates_of_frontOf hw (hids w (mem_frontOf.mp hw).1) fun s hs hne => (hwins s hs hne).1⟩
    | smallest r hr hnan h =>
      refine ⟨r, dominates_of_frontOf hr (hids r (mem_frontOf.mp hr).1) fun s hs hne => ?_⟩
      have hlevel := level_of_mem_frontOf hr hs
      cases hscored : s.scored with
      | false => exact Best.wins_of_unscored hlevel.1 hlevel.2 (Best.scored_of_nan hnan) hscored
      | true =>
        rw [Best.wins_of_nan hlevel.1 hlevel.2 (Best.scored_of_nan hnan) hscored (Or.inl hnan)]
        exact decide_eq_true (h s hs hscored hne)
    | best r hr hrscored hrnan hbest h =>
      refine ⟨r, dominates_of_frontOf hr (hids r (mem_frontOf.mp hr).1) fun s hs hne => ?_⟩
      have hlevel := level_of_mem_frontOf hr hs
      cases hscored : s.scored with
      | false => exact Best.wins_of_unscored hlevel.1 hlevel.2 hrscored hscored
      | true =>
        cases hnan : s.nan with
        | true =>
          rw [Best.wins_of_nan hlevel.1 hlevel.2 hrscored hscored (Or.inr hnan)]
          exact decide_eq_true (h s hs hnan)
        | false =>
          rw [Best.wins_eq_outscores hlevel.1 hlevel.2 hrscored hscored]
          exact hbest s hs hscored hnan hne

/-! ## The selection -/

section

variable (executor : TransitionExecutor) (net : PetriNet) (marking : Marking)
  (schemaRegistry : Option SchemaRegistry) (memo : Option BindingMemo) (phase : SelectPhase)

/-- The selected transition and its binding. -/
def selectedBinding : Option TransitionId × Option TokenBinding :=
  let id := (selectNextTransition executor net marking schemaRegistry memo phase).1
  (id, (id.bind net.getTransition).bind (bindingOf executor net marking schemaRegistry))

/-- The ranks of the transitions that have a binding, of those that the selection considers. -/
def candidatesOf : List Best :=
  net.transitions.values.filterMap
    (candidateOf executor net marking schemaRegistry (memo.map (·.snapshot)) phase)

end

variable {executor : TransitionExecutor} {net : PetriNet} {marking : Marking}
  {schemaRegistry : Option SchemaRegistry} {memo : Option BindingMemo} {phase : SelectPhase}

theorem id_of_candidateOf {known : Option (Finset TransitionId)} {t : Transition} {r : Best}
    (h : candidateOf executor net marking schemaRegistry known phase t = some r) : r.id = t.id := by
  unfold candidateOf rankOf at h
  split at h
  · cases h
  · split at h
    · cases h
    · obtain ⟨b, -, h⟩ := Option.bind_eq_some_iff.mp h
      obtain ⟨time, -, rfl⟩ := Option.map_eq_some_iff.mp h
      rfl

theorem candidatesOf_ids (executor : TransitionExecutor) (net : PetriNet) (marking : Marking)
    (schemaRegistry : Option SchemaRegistry) (memo : Option BindingMemo) (phase : SelectPhase) :
    ∀ r ∈ candidatesOf executor net marking schemaRegistry memo phase,
      ∀ s ∈ candidatesOf executor net marking schemaRegistry memo phase, r.id = s.id → r = s := by
  intro r hr s hs hid
  obtain ⟨t, ht, htr⟩ := List.mem_filterMap.mp hr
  obtain ⟨u, hu, hus⟩ := List.mem_filterMap.mp hs
  rw [id_of_candidateOf htr, id_of_candidateOf hus] at hid
  rw [PetriNet.eq_of_id_eq ht hu hid, hus] at htr
  exact (Option.some.inj htr).symm

theorem eq_of_map_id {candidates : List Best} {best best' : Option Best}
    (hids : ∀ r ∈ candidates, ∀ s ∈ candidates, r.id = s.id → r = s)
    (h : ∀ r, best = some r → r ∈ candidates) (h' : ∀ r, best' = some r → r ∈ candidates)
    (hid : best.map (·.id) = best'.map (·.id)) : best = best' := by
  cases best with
  | none => cases best' with
    | none => rfl
    | some s => cases hid
  | some r => cases best' with
    | none => cases hid
    | some s => rw [hids r (h r rfl) s (h' s rfl) (Option.some.inj hid)]

theorem selectedBinding_iterated (it : Iteration net.transitions.toFinmap) :
    selectedBinding executor (net.iterated it) marking schemaRegistry memo phase =
      let best := champion Best.wins ((net.iterated it).transitions.values.filterMap
        (candidateOf executor net marking schemaRegistry (memo.map (·.snapshot)) phase))
      (best.map (·.id),
        ((best.map (·.id)).bind net.getTransition).bind (bindingOf executor net marking schemaRegistry)) := by
  have hget : (net.iterated it).getTransition = net.getTransition :=
    funext fun id => PetriNet.getTransition_iterated it id
  unfold selectedBinding selectNextTransition
  dsimp only
  rw [best_selectFrom, hget]
  rfl

/-- **The selected transition and its binding are the same in every iteration order iff the ids settle
every comparison of the front with a priority that is not a number.** -/
theorem selection_orderFree_iff (executor : TransitionExecutor) (net : PetriNet) (marking : Marking)
    (schemaRegistry : Option SchemaRegistry) (memo : Option BindingMemo) (phase : SelectPhase) :
    (∀ it it' : Iteration net.transitions.toFinmap,
        selectedBinding executor (net.iterated it) marking schemaRegistry memo phase =
          selectedBinding executor (net.iterated it') marking schemaRegistry memo phase) ↔
      NanSettled (frontOf (candidatesOf executor net marking schemaRegistry memo phase)) := by
  have hids := candidatesOf_ids executor net marking schemaRegistry memo phase
  have hdecided : Decided Best.wins (candidatesOf executor net marking schemaRegistry memo phase) :=
    fun r hr s hs hne => Best.wins_eq_not fun hid => hne (hids r hr s hs hid)
  rw [← exists_dominates_iff hids]
  refine Iff.trans ?_ (champion_orderFree_iff hdecided)
  constructor
  · intro h ts hperm
    obtain ⟨it, hit⟩ := PetriNet.exists_iterated hperm
    obtain ⟨it', hit'⟩ := PetriNet.exists_iterated (List.Perm.refl net.transitions.values)
    have hid := congrArg Prod.fst (h it it')
    rw [selectedBinding_iterated, selectedBinding_iterated, hit, hit'] at hid
    exact eq_of_map_id hids (fun r hr => (hperm.filterMap _).subset (mem_of_champion hr))
      (fun r hr => mem_of_champion hr) hid
  · intro h it it'
    rw [selectedBinding_iterated, selectedBinding_iterated, h _ (PetriNet.values_iterated it),
      h _ (PetriNet.values_iterated it')]

/-! ## A cycle -/

/-- The interpreter on the three priorities of the net below. -/
def cycleExecutor : TransitionExecutor where
  evaluateGuard := fun _ _ => .ok true
  evaluatePriority := fun script _ =>
    if script = "1" then some (F64.ofInt 1)
    else if script = "2" then some (F64.ofInt 2)
    else if script = "0.0 / 0.0" then some F64.nan
    else none
  executeScript := fun _ _ => .ok ∅

def cycleTransition (id priority : String) : Transition :=
  { Transition.new id "" with inputPorts := [.new "in"], priority := some priority }

/-- Three transitions compete for the tokens of one place. -/
def cycleNet : PetriNet :=
  (((((((PetriNet.new.addPlace (.internal "inbox")).addTransition (cycleTransition "a" "1")).addTransition
    (cycleTransition "b" "0.0 / 0.0")).addTransition (cycleTransition "c" "2")).addArc
      (.input ⟨0⟩ ⟨"inbox"⟩ ⟨"a"⟩ "in")).addArc (.input ⟨1⟩ ⟨"inbox"⟩ ⟨"b"⟩ "in")).addArc
        (.input ⟨2⟩ ⟨"inbox"⟩ ⟨"c"⟩ "in"))

def cycleMarking : Marking := Marking.new.addToken ⟨"inbox"⟩ (.new ⟨0⟩ ⟨0⟩ .unit)

/-- The transitions of the net in the order of their ids, and backwards. -/
def cycleForwards : Iteration cycleNet.transitions.toFinmap where
  map := HashMap.inOrder [(⟨"a"⟩, cycleTransition "a" "1"), (⟨"b"⟩, cycleTransition "b" "0.0 / 0.0"),
    (⟨"c"⟩, cycleTransition "c" "2")] (by decide)
  toMap := AList.toFinmap_eq.mpr (by decide)

def cycleBackwards : Iteration cycleNet.transitions.toFinmap where
  map := HashMap.inOrder [(⟨"c"⟩, cycleTransition "c" "2"), (⟨"b"⟩, cycleTransition "b" "0.0 / 0.0"),
    (⟨"a"⟩, cycleTransition "a" "1")] (by decide)
  toMap := AList.toFinmap_eq.mpr (by decide)

/-- One way round `c` is selected, the other way round `a`. -/
theorem cycle_orderDependent : ¬ ∀ it it' : Iteration cycleNet.transitions.toFinmap,
      selectedBinding cycleExecutor (cycleNet.iterated it) cycleMarking none none .normal =
        selectedBinding cycleExecutor (cycleNet.iterated it') cycleMarking none none .normal := by
  have hforwards : (selectedBinding cycleExecutor (cycleNet.iterated cycleForwards) cycleMarking none none
      .normal).1 = some ⟨"c"⟩ := by decide
  have hbackwards : (selectedBinding cycleExecutor (cycleNet.iterated cycleBackwards) cycleMarking none none
      .normal).1 = some ⟨"a"⟩ := by decide
  intro h
  have hid := congrArg Prod.fst (h cycleForwards cycleBackwards)
  rw [hforwards, hbackwards] at hid
  exact absurd hid (by decide)

end Mekhan
