import Mathlib.Data.List.Basic

/-!
# Nets with queues

A net whose places keep their tokens in the order in which they came. The input arcs of a transition
are served in their order:

* `take` consumes one token, `peek` looks at the newest one and leaves it,
* `gather` consumes as many of the oldest tokens that belong to what is bound already as a quota
  asks for; without a quota, or with a quota of none, the transition waits.

The choices a transition has are tried oldest token first, the last arc moving fastest, and the first
one that the guard accepts is fired. `gather` stands after the arcs whose tokens its quota reads.
-/

namespace Infra

variable {P C : Type}

/-! ## Picking from a queue -/

/-- The ways to take one element out of a list, in order, with what is left. -/
def picks : List C → List (C × List C)
  | [] => []
  | c :: l => (c, l) :: (picks l).map fun x => (x.1, c :: x.2)

theorem mem_picks {c : C} {rest : List C} : ∀ {l : List C},
    (c, rest) ∈ picks l ↔ ∃ l₁ l₂, l = l₁ ++ c :: l₂ ∧ rest = l₁ ++ l₂
  | [] => by simp [picks]
  | d :: l => by
    rw [picks, List.mem_cons, List.mem_map]
    constructor
    · rintro (h | ⟨⟨e, rest'⟩, h, heq⟩)
      · cases h
        exact ⟨[], rest, rfl, rfl⟩
      · cases heq
        obtain ⟨l₁, l₂, rfl, rfl⟩ := mem_picks.mp h
        exact ⟨d :: l₁, l₂, rfl, rfl⟩
    · rintro ⟨l₁, l₂, hl, rfl⟩
      cases l₁ with
      | nil =>
        cases hl
        exact Or.inl rfl
      | cons e l₁ =>
        cases hl
        exact Or.inr ⟨(c, l₁ ++ l₂), mem_picks.mpr ⟨l₁, l₂, rfl, rfl⟩, rfl⟩

/-- What is left of a list without its first `k` elements that have the property. -/
def dropFirst (belongs : C → Bool) : Nat → List C → List C
  | 0, l => l
  | _, [] => []
  | k + 1, c :: l => if belongs c then dropFirst belongs k l else c :: dropFirst belongs (k + 1) l

/-! ## Queues, arcs and transitions -/

/-- The tokens of a net by place, the oldest first. -/
abbrev Queues (P C : Type) := P → List C

/-- An input arc. What is bound so far is one list of tokens for each arc before it. -/
inductive InArc (P C : Type) where
  | take (p : P)
  | peek (p : P)
  | gather (p : P) (quota : List (List C) → Option Nat) (belongs : List (List C) → C → Bool)

/-- A transition over places with queues, in the order of its input arcs. -/
structure QueueTransition (P C : Type) where
  inputs : List (InArc P C)
  guard : List (List C) → Bool
  outputs : List (List C) → List (P × C)

/-- An arc on tokens that carry more than the colour `f` reads off them. -/
def InArc.comap {D : Type} (f : D → C) : InArc P C → InArc P D
  | .take p => .take p
  | .peek p => .peek p
  | .gather p quota belongs =>
    .gather p (fun bound => quota (bound.map (·.map f)))
      fun bound c => belongs (bound.map (·.map f)) (f c)

/-- A transition on such tokens; `mark` makes what it puts out one of them. -/
def QueueTransition.comap {D : Type} (f : D → C) (mark : List (List D) → C → D)
    (t : QueueTransition P C) : QueueTransition P D where
  inputs := t.inputs.map (InArc.comap f)
  guard := fun bound => t.guard (bound.map (·.map f))
  outputs := fun bound =>
    (t.outputs (bound.map (·.map f))).map fun x => (x.1, mark bound x.2)

theorem InArc.comap_comap {D E : Type} (f : D → C) (g : E → D) (arc : InArc P C) :
    (arc.comap f).comap g = arc.comap (f ∘ g) := by
  cases arc <;> simp [InArc.comap, List.map_map, Function.comp_def]

theorem QueueTransition.comap_comap {D E : Type} (f : D → C) (mark : List (List D) → C → D)
    (g : E → D) (mark' : List (List E) → D → E) (t : QueueTransition P C) : (t.comap f mark).comap g mark' =
      t.comap (f ∘ g) fun bound c => mark' bound (mark (bound.map (·.map g)) c) := by
  have harcs : InArc.comap (P := P) g ∘ InArc.comap f = InArc.comap (f ∘ g) :=
    funext (InArc.comap_comap f g)
  simp [QueueTransition.comap, List.map_map, harcs, Function.comp_def]

section

variable [DecidableEq P]

/-- The choices of tokens for the arcs, with the queues each leaves behind. -/
def choices : List (InArc P C) → List (List C) → Queues P C →
    List (List (List C) × Queues P C)
  | [], bound, q => [(bound, q)]
  | .take p :: arcs, bound, q =>
    (picks (q p)).flatMap fun x => choices arcs (bound ++ [[x.1]]) (Function.update q p x.2)
  | .peek p :: arcs, bound, q =>
    match (q p).getLast? with
    | none => []
    | some c => choices arcs (bound ++ [[c]]) q
  | .gather p quota belongs :: arcs, bound, q =>
    match quota bound with
    | none | some 0 => []
    | some k =>
      let eligible := (q p).filter (belongs bound)
      if eligible.length < k then []
      else choices arcs (bound ++ [eligible.take k])
        (Function.update q p (dropFirst (belongs bound) k (q p)))

/-- The tokens of a list that are at a place. -/
def tokensAt (p : P) (l : List (P × C)) : List C := (l.filter fun x => x.1 = p).map Prod.snd

/-- Tokens come in at the end of their queues. -/
def enqueue (q : Queues P C) (out : List (P × C)) : Queues P C := fun p => q p ++ tokensAt p out

/-- The tokens that arcs take away, given what they bind. -/
def consumed : List (InArc P C) → List (List C) → List (P × C)
  | .take p :: arcs, b :: bs => b.map (p, ·) ++ consumed arcs bs
  | .peek _ :: arcs, _ :: bs => consumed arcs bs
  | .gather p _ _ :: arcs, b :: bs => b.map (p, ·) ++ consumed arcs bs
  | _, _ => []

namespace QueueTransition

variable (t : QueueTransition P C)

/-- The first choice that the guard accepts. -/
def binding? (q : Queues P C) : Option (List (List C) × Queues P C) :=
  (choices t.inputs [] q).find? fun b => t.guard b.1

/-- Takes the first binding that the guard accepts. -/
def fire? (q : Queues P C) : Option (Queues P C) :=
  (t.binding? q).map fun b => enqueue b.2 (t.outputs b.1)

variable {t} {q q' : Queues P C}

theorem binding?_eq_some {bound : List (List C)} {rest : Queues P C} (h : t.binding? q = some (bound, rest)) :
    (bound, rest) ∈ choices t.inputs [] q ∧ t.guard bound = true :=
  ⟨List.mem_of_find?_eq_some h,
    List.find?_some (p := fun b : List (List C) × Queues P C => t.guard b.1) h⟩

theorem fire?_eq_some (h : t.fire? q = some q') : ∃ bound rest,
    t.binding? q = some (bound, rest) ∧ q' = enqueue rest (t.outputs bound) := by
  obtain ⟨⟨bound, rest⟩, hb, rfl⟩ := Option.map_eq_some_iff.mp h
  exact ⟨bound, rest, hb, rfl⟩

end QueueTransition

/-! ## The choices, arc by arc -/

variable {arcs : List (InArc P C)} {bound b : List (List C)} {q r : Queues P C} {p : P}

theorem choices_nil : choices [] bound q = [(bound, q)] := rfl

theorem choices_take : choices (.take p :: arcs) bound q =
    (picks (q p)).flatMap fun x => choices arcs (bound ++ [[x.1]]) (Function.update q p x.2) := rfl

@[simp] theorem mem_choices_nil : (b, r) ∈ choices [] bound q ↔ b = bound ∧ r = q := by
  rw [choices_nil, List.mem_singleton, Prod.mk.injEq]

@[simp] theorem mem_choices_take : (b, r) ∈ choices (.take p :: arcs) bound q ↔
    ∃ l₁ c l₂, q p = l₁ ++ c :: l₂ ∧
      (b, r) ∈ choices arcs (bound ++ [[c]]) (Function.update q p (l₁ ++ l₂)) := by
  rw [choices_take, List.mem_flatMap]
  constructor
  · rintro ⟨⟨c, rest⟩, hpick, h⟩
    obtain ⟨l₁, l₂, hq, rfl⟩ := mem_picks.mp hpick
    exact ⟨l₁, c, l₂, hq, h⟩
  · rintro ⟨l₁, c, l₂, hq, h⟩
    exact ⟨(c, l₁ ++ l₂), mem_picks.mpr ⟨l₁, l₂, hq, rfl⟩, h⟩

@[simp] theorem mem_choices_peek : (b, r) ∈ choices (.peek p :: arcs) bound q ↔
    ∃ c, (q p).getLast? = some c ∧ (b, r) ∈ choices arcs (bound ++ [[c]]) q := by
  show (b, r) ∈ (match (q p).getLast? with | none => [] | some c => choices arcs (bound ++ [[c]]) q) ↔ _
  cases hlast : (q p).getLast? with
  | none => simp
  | some c => simp

@[simp] theorem mem_choices_gather {quota : List (List C) → Option Nat} {belongs : List (List C) → C → Bool} :
    (b, r) ∈ choices (.gather p quota belongs :: arcs) bound q ↔
      ∃ k, quota bound = some (k + 1) ∧ k + 1 ≤ ((q p).filter (belongs bound)).length ∧
        (b, r) ∈ choices arcs (bound ++ [((q p).filter (belongs bound)).take (k + 1)])
          (Function.update q p (dropFirst (belongs bound) (k + 1) (q p))) := by
  change (b, r) ∈ (match quota bound with | none | some 0 => [] | some k => _) ↔ _
  split
  · next hnone => simp [hnone]
  · next hzero => simp [hzero]
  · next k hk hquota =>
    obtain ⟨k, rfl⟩ : ∃ n, k = n + 1 := ⟨k - 1, by
      cases k with
      | zero => exact absurd rfl hk
      | succ k => rfl⟩
    simp only [hquota, Option.some.injEq, Nat.add_right_cancel_iff]
    constructor
    · intro h
      split at h
      · cases h
      · next hlen => exact ⟨k, rfl, Nat.le_of_not_lt hlen, h⟩
    · rintro ⟨_, rfl, hlen, h⟩
      rw [if_neg (Nat.not_lt.mpr hlen)]
      exact h

theorem flatten_map_single {α β : Type} (f : α → β) (l : List α) :
    (l.map fun c => [f c]).flatten = l.map f := by
  induction l with
  | nil => rfl
  | cons c l ih => simp [ih]

variable {ps : List P} {taken : List (P × C)}

theorem mem_choices_peeks : ∀ {bound : List (List C)},
    (b, r) ∈ choices (ps.map .peek) bound q ↔ r = q ∧ ∃ cs : List C,
      ps.map (fun p => (q p).getLast?) = cs.map some ∧ b = bound ++ cs.map fun c => [c] := by
  induction ps with
  | nil =>
    intro bound
    simp only [List.map_nil, mem_choices_nil]
    constructor
    · rintro ⟨rfl, rfl⟩
      exact ⟨rfl, [], rfl, by simp⟩
    · rintro ⟨rfl, cs, hcs, rfl⟩
      obtain rfl := List.map_eq_nil_iff.mp hcs.symm
      exact ⟨by simp, rfl⟩
  | cons p ps ih =>
    intro bound
    rw [List.map_cons, mem_choices_peek]
    constructor
    · rintro ⟨c, hc, h⟩
      obtain ⟨rfl, cs, hcs, rfl⟩ := ih.mp h
      exact ⟨rfl, c :: cs, by rw [List.map_cons, List.map_cons, hc, hcs], by simp⟩
    · rintro ⟨rfl, cs, hcs, rfl⟩
      cases cs with
      | nil => simp at hcs
      | cons c cs =>
        rw [List.map_cons, List.map_cons] at hcs
        obtain ⟨hc, hcs⟩ := List.cons.inj hcs
        exact ⟨c, hc, ih.mpr ⟨rfl, cs, hcs, by simp⟩⟩

omit [DecidableEq P] in
theorem exists_newest (hps : ∀ p ∈ ps, q p ≠ []) :
    ∃ cs : List C, ps.map (fun p => (q p).getLast?) = cs.map some := by
  induction ps with
  | nil => exact ⟨[], rfl⟩
  | cons p ps ih =>
    obtain ⟨c, hc⟩ : ∃ c, (q p).getLast? = some c :=
      Option.isSome_iff_exists.mp (List.getLast?_isSome.mpr (hps p List.mem_cons_self))
    obtain ⟨cs, hcs⟩ := ih fun p hp => hps p (List.mem_cons_of_mem _ hp)
    exact ⟨c :: cs, by rw [List.map_cons, List.map_cons, hc, hcs]⟩

/-! ## What a choice takes away -/

theorem dropFirst_perm (belongs : C → Bool) : ∀ (k : Nat) (l : List C),
    l.Perm (dropFirst belongs k l ++ (l.filter belongs).take k)
  | 0, l => by simp [dropFirst]
  | k + 1, [] => by simp [dropFirst]
  | k + 1, c :: l => by
    by_cases hc : belongs c = true
    · rw [dropFirst, if_pos hc, List.filter_cons_of_pos hc, List.take_succ_cons]
      exact (List.Perm.cons c (dropFirst_perm belongs k l)).trans List.perm_middle.symm
    · rw [dropFirst, if_neg hc, List.filter_cons_of_neg hc, List.cons_append]
      exact List.Perm.cons c (dropFirst_perm belongs (k + 1) l)

theorem tokensAt_map_mk (p p' : P) (l : List C) : tokensAt p' (l.map (p, ·)) = if p = p' then l else [] := by
  unfold tokensAt
  split
  · next h =>
    subst h
    simp [List.filter_map, Function.comp_def]
  · next h => simp [List.filter_map, Function.comp_def, h]

theorem tokensAt_append (p : P) (l l' : List (P × C)) :
    tokensAt p (l ++ l') = tokensAt p l ++ tokensAt p l' := by
  simp [tokensAt]

theorem perm_update {rest taken : List C} {m : List (P × C)} (hl : (q p).Perm (rest ++ taken))
    (h : ∀ p', ((Function.update q p rest) p').Perm (r p' ++ tokensAt p' m)) (p' : P) :
    (q p').Perm (r p' ++ tokensAt p' (taken.map (p, ·) ++ m)) := by
  rw [tokensAt_append, tokensAt_map_mk]
  have hp' := h p'
  split
  · next heq =>
    subst heq
    rw [Function.update_self] at hp'
    refine hl.trans ((hp'.append_right taken).trans ?_)
    rw [List.append_assoc]
    exact List.Perm.append_left _ List.perm_append_comm
  · next hne =>
    rw [Function.update_of_ne (Ne.symm hne)] at hp'
    exact hp'

/-- **A choice leaves in the queues what it does not consume.** -/
theorem perm_of_mem_choices : ∀ {arcs : List (InArc P C)} {bound b : List (List C)}
    {q r : Queues P C}, (b, r) ∈ choices arcs bound q → ∃ new, b = bound ++ new ∧
      ∀ p, (q p).Perm (r p ++ tokensAt p (consumed arcs new)) := by
  intro arcs
  induction arcs with
  | nil =>
    intro bound b q r h
    obtain ⟨rfl, rfl⟩ := mem_choices_nil.mp h
    exact ⟨[], by simp, fun p => by simp [consumed, tokensAt]⟩
  | cons arc arcs ih =>
    intro bound b q r h
    cases arc with
    | take p =>
      obtain ⟨l₁, c, l₂, hq, h⟩ := mem_choices_take.mp h
      obtain ⟨new, rfl, hperm⟩ := ih h
      have hl : (q p).Perm (l₁ ++ l₂ ++ [c]) := by
        rw [hq]
        exact List.perm_middle.trans (List.perm_append_singleton c (l₁ ++ l₂)).symm
      exact ⟨[c] :: new, by simp, perm_update hl hperm⟩
    | peek p =>
      obtain ⟨c, -, h⟩ := mem_choices_peek.mp h
      obtain ⟨new, rfl, hperm⟩ := ih h
      exact ⟨[c] :: new, by simp, hperm⟩
    | gather p quota belongs =>
      obtain ⟨k, -, -, h⟩ := mem_choices_gather.mp h
      obtain ⟨new, rfl, hperm⟩ := ih h
      exact ⟨_ :: new, by simp, perm_update (dropFirst_perm (belongs bound) (k + 1) (q p)) hperm⟩

theorem QueueTransition.fire?_perm {t : QueueTransition P C} {q q' : Queues P C}
    (h : t.fire? q = some q') : ∃ bound rest, t.binding? q = some (bound, rest) ∧
      (∀ p, (q p).Perm (rest p ++ tokensAt p (consumed t.inputs bound))) ∧
      q' = enqueue rest (t.outputs bound) := by
  obtain ⟨bound, rest, hb, rfl⟩ := fire?_eq_some h
  obtain ⟨new, rfl, hperm⟩ := perm_of_mem_choices (binding?_eq_some hb).1
  exact ⟨_, rest, hb, hperm, rfl⟩

@[simp] theorem tokensAt_nil (p : P) : tokensAt p ([] : List (P × C)) = [] := rfl

@[simp] theorem tokensAt_cons (p p' : P) (c : C) (l : List (P × C)) :
    tokensAt p ((p', c) :: l) = if p' = p then c :: tokensAt p l else tokensAt p l := by
  by_cases h : p' = p <;> simp [tokensAt, h]

theorem tokensAt_eq_nil {l : List (P × C)} (h : ∀ x ∈ l, x.1 ≠ p) : tokensAt p l = [] := by
  simpa [tokensAt] using fun x c hx hp => h (x, c) hx hp

theorem countP_enqueue (h : ∀ p, (q p).Perm (r p ++ tokensAt p taken))
    (out : List (P × C)) (f : C → Bool) (p : P) : (enqueue r out p).countP f + (tokensAt p taken).countP f =
      (q p).countP f + (tokensAt p out).countP f := by
  rw [(h p).countP_eq, enqueue, List.countP_append, List.countP_append]
  omega

theorem mem_enqueue (h : ∀ p, (q p).Perm (r p ++ tokensAt p taken))
    {out : List (P × C)} {c : C} (hc : c ∈ enqueue r out p) : c ∈ q p ∨ c ∈ tokensAt p out :=
  (List.mem_append.mp hc).imp_left fun hc => (h p).mem_iff.mpr (List.mem_append_left _ hc)

/-! ## Arcs that take one token each -/

namespace QueueTransition

variable {t : QueueTransition P C} {p' : P} {c d : C}

theorem mem_choices_one (hc : c ∈ q p) : ∃ r, ([[c]], r) ∈ choices [.take p] [] q := by
  obtain ⟨l₁, l₂, hq⟩ := List.append_of_mem hc
  exact ⟨_, mem_choices_take.mpr ⟨l₁, c, l₂, hq, mem_choices_nil.mpr ⟨rfl, rfl⟩⟩⟩

theorem mem_choices_two (hne : p ≠ p') (hc : c ∈ q p) (hd : d ∈ q p') :
    ∃ r, ([[c], [d]], r) ∈ choices [.take p, .take p'] [] q := by
  obtain ⟨l₁, l₂, hq⟩ := List.append_of_mem hc
  have hd' : d ∈ Function.update q p (l₁ ++ l₂) p' := by
    rw [Function.update_of_ne hne.symm]
    exact hd
  obtain ⟨l₁', l₂', hq'⟩ := List.append_of_mem hd'
  exact ⟨_, mem_choices_take.mpr ⟨l₁, c, l₂, hq, mem_choices_take.mpr ⟨l₁', d, l₂', hq',
    mem_choices_nil.mpr ⟨rfl, rfl⟩⟩⟩⟩

theorem exists_of_mem_choices_one (h : (b, r) ∈ choices [.take p] [] q) : ∃ c ∈ q p, b = [[c]] := by
  obtain ⟨l₁, c, l₂, hq, hnil⟩ := mem_choices_take.mp h
  exact ⟨c, by simp [hq], (mem_choices_nil.mp hnil).1⟩

theorem exists_of_mem_choices_two (hne : p ≠ p') (h : (b, r) ∈ choices [.take p, .take p'] [] q) :
    ∃ c ∈ q p, ∃ d ∈ q p', b = [[c], [d]] := by
  obtain ⟨l₁, c, l₂, hq, h⟩ := mem_choices_take.mp h
  obtain ⟨l₁', d, l₂', hq', hnil⟩ := mem_choices_take.mp h
  rw [Function.update_of_ne hne.symm] at hq'
  exact ⟨c, by simp [hq], d, by simp [hq'], (mem_choices_nil.mp hnil).1⟩

theorem binding?_one {l : List C} (hinputs : t.inputs = [.take p]) (hguard : t.guard [[c]] = true)
    (hq : q p = c :: l) : t.binding? q = some ([[c]], Function.update q p l) := by
  simp [binding?, hinputs, choices_take, choices_nil, hq, picks, hguard]

theorem fire?_one_guarded {t : QueueTransition P C} {q q' : Queues P C}
    (hinputs : t.inputs = [.take p]) (h : t.fire? q = some q') : ∃ l₁ c l₂, q p = l₁ ++ c :: l₂ ∧
      t.guard [[c]] = true ∧ (t.binding? q).map Prod.fst = some [[c]] ∧
      q' = enqueue (Function.update q p (l₁ ++ l₂)) (t.outputs [[c]]) := by
  obtain ⟨bound, rest, hb, rfl⟩ := fire?_eq_some h
  obtain ⟨hmem, hguard⟩ := binding?_eq_some hb
  rw [hinputs] at hmem
  obtain ⟨l₁, c, l₂, hq, hnil⟩ := mem_choices_take.mp hmem
  obtain ⟨rfl, rfl⟩ := mem_choices_nil.mp hnil
  exact ⟨l₁, c, l₂, hq, hguard, by rw [hb]; rfl, rfl⟩

theorem fire?_two_guarded {t : QueueTransition P C} {q q' : Queues P C}
    (hinputs : t.inputs = [.take p, .take p']) (hne : p ≠ p') (h : t.fire? q = some q') :
    ∃ l₁ c l₂ d₁ d d₂, q p = l₁ ++ c :: l₂ ∧ q p' = d₁ ++ d :: d₂ ∧ t.guard [[c], [d]] = true ∧
      (t.binding? q).map Prod.fst = some [[c], [d]] ∧
      q' = enqueue (Function.update (Function.update q p (l₁ ++ l₂)) p' (d₁ ++ d₂))
        (t.outputs [[c], [d]]) := by
  obtain ⟨bound, rest, hb, rfl⟩ := fire?_eq_some h
  obtain ⟨hmem, hguard⟩ := binding?_eq_some hb
  rw [hinputs] at hmem
  obtain ⟨l₁, c, l₂, hq, hmem⟩ := mem_choices_take.mp hmem
  obtain ⟨d₁, d, d₂, hq', hnil⟩ := mem_choices_take.mp hmem
  obtain ⟨rfl, rfl⟩ := mem_choices_nil.mp hnil
  rw [Function.update_of_ne hne.symm] at hq'
  exact ⟨l₁, c, l₂, d₁, d, d₂, hq, hq', hguard, by rw [hb]; rfl, rfl⟩

theorem fire?_take_peek {t : QueueTransition P C} {q q' : Queues P C}
    (hinputs : t.inputs = [.take p, .peek p']) (hne : p ≠ p') (h : t.fire? q = some q') :
    ∃ l₁ c l₂ d, q p = l₁ ++ c :: l₂ ∧ (q p').getLast? = some d ∧
      (t.binding? q).map Prod.fst = some [[c], [d]] ∧
      q' = enqueue (Function.update q p (l₁ ++ l₂)) (t.outputs [[c], [d]]) := by
  obtain ⟨bound, rest, hb, rfl⟩ := fire?_eq_some h
  obtain ⟨hmem, -⟩ := binding?_eq_some hb
  rw [hinputs] at hmem
  obtain ⟨l₁, c, l₂, hq, hmem⟩ := mem_choices_take.mp hmem
  obtain ⟨d, hd, hnil⟩ := mem_choices_peek.mp hmem
  obtain ⟨rfl, rfl⟩ := mem_choices_nil.mp hnil
  rw [Function.update_of_ne hne.symm] at hd
  exact ⟨l₁, c, l₂, d, hq, hd, by rw [hb]; rfl, rfl⟩

theorem fire?_one {t : QueueTransition P C} {q q' : Queues P C} (hinputs : t.inputs = [.take p])
    (hguard : ∀ bound, t.guard bound = true) (h : t.fire? q = some q') : ∃ c l, q p = c :: l ∧
      q' = enqueue (Function.update q p l) (t.outputs [[c]]) := by
  cases hq : q p with
  | nil =>
    have hnone : t.fire? q = none := by simp [fire?, binding?, hinputs, choices_take, choices_nil, hq, picks]
    rw [hnone] at h
    cases h
  | cons c l =>
    rw [fire?, binding?_one hinputs (hguard _) hq] at h
    exact ⟨c, l, rfl, (Option.some.inj h).symm⟩

/-- The oldest token of the first place is taken as soon as the guard accepts it with some token of
the second place. -/
theorem binding?_two {l : List C} (hinputs : t.inputs = [.take p, .take p']) (hne : p ≠ p')
    (hq : q p = c :: l) (hd : d ∈ q p') (hguard : t.guard [[c], [d]] = true) :
    ∃ d' r, d' ∈ q p' ∧ t.guard [[c], [d']] = true ∧ t.binding? q = some ([[c], [d']], r) := by
  have hsplit : choices t.inputs [] q = choices [.take p'] [[c]] (Function.update q p l) ++
      ((picks l).map fun x => (x.1, c :: x.2)).flatMap fun x =>
        choices [.take p'] [[x.1]] (Function.update q p x.2) := by
    rw [hinputs, choices_take, hq, picks, List.flatMap_cons]
    rfl
  obtain ⟨l₁, l₂, hq'⟩ := List.append_of_mem hd
  have hfirst : ([[c], [d]], Function.update (Function.update q p l) p' (l₁ ++ l₂)) ∈
      choices [.take p'] [[c]] (Function.update q p l) := by
    refine mem_choices_take.mpr ⟨l₁, d, l₂, ?_, mem_choices_nil.mpr ⟨rfl, rfl⟩⟩
    rw [Function.update_of_ne hne.symm]
    exact hq'
  obtain ⟨⟨bound, r⟩, hb⟩ : ∃ b,
      (choices [.take p'] [[c]] (Function.update q p l)).find? (fun b => t.guard b.1) = some b := by
    refine Option.isSome_iff_exists.mp (List.find?_isSome.mpr ⟨_, hfirst, hguard⟩)
  have hbguard : t.guard bound = true :=
    List.find?_some (p := fun b : List (List C) × Queues P C => t.guard b.1) hb
  obtain ⟨l₁', d', l₂', hd', hnil⟩ := mem_choices_take.mp (List.mem_of_find?_eq_some hb)
  obtain ⟨rfl, -⟩ := mem_choices_nil.mp hnil
  rw [Function.update_of_ne hne.symm] at hd'
  refine ⟨d', r, ?_, hbguard, ?_⟩
  · rw [hd']
    simp
  · rw [binding?, hsplit, List.find?_append, hb, Option.some_or]
    rfl

end QueueTransition

end

end Infra
