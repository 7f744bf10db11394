import Mathlib.Data.List.Basic

/-!
# Runs of a step function

A system is a step function `step : σ → α → Option σ`: in a state an action either leads to the next
state or is not enabled. A run is a list of actions, one interleaving of everything that takes part
in the system; `exec` plays it.

Two rules carry what a step keeps over to a run: `exec_invariant` for steps that keep an invariant
always, and `exec_invariant_along` for steps that keep it where they meet a condition.
-/

namespace Infra

variable {σ α : Type}

/-- Plays the actions in order; `none` as soon as one is not enabled. -/
def exec (step : σ → α → Option σ) : σ → List α → Option σ
  | s, [] => some s
  | s, a :: as => (step s a).bind fun s' => exec step s' as

/-- Every step of the run meets `cond`, a condition on the state before the step and its action. -/
def Along (step : σ → α → Option σ) (cond : σ → α → Prop) : σ → List α → Prop
  | _, [] => True
  | s, a :: as => cond s a ∧ ∀ s', step s a = some s' → Along step cond s' as

/-- Every state of the run, the first and the last included, has the property. -/
def Throughout (step : σ → α → Option σ) (P : σ → Prop) : σ → List α → Prop
  | s, [] => P s
  | s, a :: as => P s ∧ ∀ s', step s a = some s' → Throughout step P s' as

/-- Whether a run meets a condition can be evaluated where the condition can. -/
instance decidableAlong (step : σ → α → Option σ) (cond : σ → α → Prop)
    [∀ s a, Decidable (cond s a)] : ∀ s as, Decidable (Along step cond s as)
  | _, [] => isTrue trivial
  | s, a :: as =>
    have : Decidable (∀ s', step s a = some s' → Along step cond s' as) :=
      match h : step s a with
      | none => isTrue fun _ hs => by simp at hs
      | some s₁ =>
        match decidableAlong step cond s₁ as with
        | isTrue h₁ => isTrue fun _ hs => Option.some.inj hs ▸ h₁
        | isFalse h₁ => isFalse fun hall => h₁ (hall s₁ rfl)
    inferInstanceAs (Decidable (_ ∧ _))

variable {step : σ → α → Option σ} {cond : σ → α → Prop} {I : σ → Prop}

variable {s t : σ} {as : List α} {a : α}

theorem exec_cons_eq_some :
    exec step s (a :: as) = some t ↔ ∃ s', step s a = some s' ∧ exec step s' as = some t :=
  Option.bind_eq_some_iff

theorem exec_append_eq_some {bs : List α} :
    exec step s (as ++ bs) = some t ↔ ∃ s', exec step s as = some s' ∧ exec step s' bs = some t := by
  induction as generalizing s with
  | nil => simp [exec]
  | cons a as ih =>
    rw [List.cons_append, exec_cons_eq_some]
    simp only [ih, exec_cons_eq_some]
    constructor
    · rintro ⟨s₁, hs₁, s', hs', ht⟩
      exact ⟨s', ⟨s₁, hs₁, hs'⟩, ht⟩
    · rintro ⟨s', ⟨s₁, hs₁, hs'⟩, ht⟩
      exact ⟨s₁, hs₁, s', hs', ht⟩

theorem along_cons {s' : σ} (hc : cond s a) (hs : step s a = some s')
    (h : Along step cond s' as) : Along step cond s (a :: as) :=
  ⟨hc, fun _ ht => Option.some.inj (hs.symm.trans ht) ▸ h⟩

/-- **An invariant that the steps meeting a condition keep holds at the end of every run whose
steps all meet it.** -/
theorem exec_invariant_along (hstep : ∀ s a s', I s → cond s a → step s a = some s' → I s') :
    ∀ {as : List α} {s t : σ}, I s → Along step cond s as → exec step s as = some t → I t := by
  intro as
  induction as with
  | nil =>
    intro s t hs _ h
    rw [← Option.some.inj h]
    exact hs
  | cons a as ih =>
    intro s t hs hc h
    obtain ⟨s', hs', ht⟩ := exec_cons_eq_some.mp h
    exact ih (hstep s a s' hs hc.1 hs') (hc.2 s' hs') ht

theorem along_trivial : ∀ (as : List α) (s : σ), Along step (fun _ _ => True) s as
  | [], _ => trivial
  | _ :: as, _ => ⟨trivial, fun s' _ => along_trivial as s'⟩

theorem along_of_forall {P : α → Prop} : ∀ {as : List α} {s : σ}, (∀ a ∈ as, P a) →
    Along step (fun _ a => P a) s as
  | [], _, _ => trivial
  | a :: _, _, h => ⟨h a List.mem_cons_self,
      fun _ _ => along_of_forall fun b hb => h b (List.mem_cons_of_mem _ hb)⟩

theorem Along.and {cond' : σ → α → Prop} : ∀ {as : List α} {s : σ}, Along step cond s as →
    Along step cond' s as → Along step (fun s a => cond s a ∧ cond' s a) s as
  | [], _, _, _ => trivial
  | _ :: _, _, h, h' => ⟨⟨h.1, h'.1⟩, fun s' hs' => (h.2 s' hs').and (h'.2 s' hs')⟩

theorem Along.mono {cond' : σ → α → Prop} (hle : ∀ s a, cond s a → cond' s a) :
    ∀ {as : List α} {s : σ}, Along step cond s as → Along step cond' s as
  | [], _, _ => trivial
  | _ :: _, _, h => ⟨hle _ _ h.1, fun s' hs' => (h.2 s' hs').mono hle⟩

theorem Along.append {bs : List α} : ∀ {as : List α} {s : σ}, Along step cond s as →
    (∀ t, exec step s as = some t → Along step cond t bs) → Along step cond s (as ++ bs)
  | [], _, _, hbs => hbs _ rfl
  | _ :: _, _, h, hbs => ⟨h.1, fun s' hs' =>
      (h.2 s' hs').append fun t ht => hbs t (exec_cons_eq_some.mpr ⟨s', hs', ht⟩)⟩

theorem along_and_iff {cond' : σ → α → Prop} :
    Along step (fun s a => cond s a ∧ cond' s a) s as ↔ Along step cond s as ∧ Along step cond' s as := by
  refine ⟨fun h => ?_, fun h => h.1.and h.2⟩
  induction as generalizing s with
  | nil => exact ⟨trivial, trivial⟩
  | cons a as ih =>
    exact ⟨⟨h.1.1, fun s' hs' => (ih (h.2 s' hs')).1⟩, ⟨h.1.2, fun s' hs' => (ih (h.2 s' hs')).2⟩⟩

/-- **An invariant that every step keeps holds at the end of every run.** -/
theorem exec_invariant (hstep : ∀ s a s', I s → step s a = some s' → I s') {as : List α} {s t : σ}
    (hs : I s) (h : exec step s as = some t) : I t :=
  exec_invariant_along (fun s a s' hs _ h => hstep s a s' hs h) hs (along_trivial as s) h

theorem Throughout.head {P : σ → Prop} : ∀ {as : List α} {s : σ}, Throughout step P s as → P s
  | [], _, h => h
  | _ :: _, _, h => h.1

theorem throughout_cons {P : σ → Prop} {s' : σ} (hP : P s) (hs : step s a = some s')
    (h : Throughout step P s' as) : Throughout step P s (a :: as) :=
  ⟨hP, fun _ ht => Option.some.inj (hs.symm.trans ht) ▸ h⟩

theorem Throughout.last {P : σ → Prop} : ∀ {as : List α} {s t : σ}, Throughout step P s as →
    exec step s as = some t → P t
  | [], _, _, h, hend => Option.some.inj hend ▸ h
  | _ :: _, _, _, h, hend =>
    have ⟨s', hs', ht⟩ := exec_cons_eq_some.mp hend
    (h.2 s' hs').last ht

/-- An invariant that the steps meeting a condition keep gives its property to every state of every run whose
steps all meet it. -/
theorem throughout_of_invariant_along {P : σ → Prop}
    (hstep : ∀ s a s', I s → cond s a → step s a = some s' → I s') (hP : ∀ s, I s → P s) :
    ∀ {as : List α} {s : σ}, I s → Along step cond s as → Throughout step P s as
  | [], _, hs, _ => hP _ hs
  | a :: _, s, hs, hc =>
    ⟨hP s hs, fun s' hs' => throughout_of_invariant_along hstep hP (hstep s a s' hs hc.1 hs') (hc.2 s' hs')⟩

/-- An invariant that every step keeps gives its property to every state of every run. -/
theorem throughout_of_invariant {P : σ → Prop} (hstep : ∀ s a s', I s → step s a = some s' → I s')
    (hP : ∀ s, I s → P s) (as : List α) {s : σ} (hs : I s) : Throughout step P s as :=
  throughout_of_invariant_along (fun s a s' hs _ h => hstep s a s' hs h) hP hs (along_trivial as s)

theorem not_throughout_of_any {P : σ → Prop} {bad : σ → Bool} (hbad : ∀ t, bad t = true → ¬ P t) {as : List α}
    {s : σ} (hend : (exec step s as).any bad = true) : ¬ Throughout step P s as := by
  intro h
  obtain ⟨t, ht, hb⟩ := (Option.any_eq_true ..).mp hend
  exact hbad t hb (h.last ht)

/-- Where a step out of a state with the property leads to one exactly when it meets the condition,
a run keeps the property throughout exactly when all its steps meet the condition. -/
theorem throughout_iff_along {P : σ → Prop}
    (hstep : ∀ s a, P s → ((∀ s', step s a = some s' → P s') ↔ cond s a)) :
    ∀ {as : List α} {s : σ}, P s → (Throughout step P s as ↔ Along step cond s as) := by
  intro as
  induction as with
  | nil => exact fun hs => iff_of_true hs trivial
  | cons a as ih =>
    intro s hs
    constructor
    · rintro ⟨-, h⟩
      exact ⟨(hstep s a hs).mp fun s' hs' => (h s' hs').head,
        fun s' hs' => (ih (h s' hs').head).mp (h s' hs')⟩
    · rintro ⟨hc, h⟩
      exact ⟨hs, fun s' hs' => (ih ((hstep s a hs).mpr hc s' hs')).mpr (h s' hs')⟩

theorem throughout_iff_along_of_invariant {P : σ → Prop} (hI : ∀ s a s', I s → step s a = some s' → I s')
    (hstep : ∀ s a, I s → P s → ((∀ s', step s a = some s' → P s') ↔ cond s a)) :
    ∀ {as : List α} {s : σ}, I s → P s → (Throughout step P s as ↔ Along step cond s as) := by
  intro as
  induction as with
  | nil => exact fun _ hs => iff_of_true hs trivial
  | cons a as ih =>
    intro s hi hs
    constructor
    · rintro ⟨-, h⟩
      exact ⟨(hstep s a hi hs).mp fun s' hs' => (h s' hs').head,
        fun s' hs' => (ih (hI s a s' hi hs') (h s' hs').head).mp (h s' hs')⟩
    · rintro ⟨hc, h⟩
      exact ⟨hs, fun s' hs' => (ih (hI s a s' hi hs') ((hstep s a hi hs).mpr hc s' hs')).mpr (h s' hs')⟩

/-- Where a step leads to a state with a property exactly from one that has it and by meeting the
condition, a run ends with the property exactly when it began with it and all its steps meet the condition. -/
theorem last_iff_along {P : σ → Prop} (hstep : ∀ s a s', step s a = some s' → (P s' ↔ P s ∧ cond s a)) :
    ∀ {as : List α} {s t : σ}, exec step s as = some t → (P t ↔ P s ∧ Along step cond s as) := by
  intro as
  induction as with
  | nil =>
    intro s t h
    rw [← Option.some.inj h]
    exact (and_iff_left trivial).symm
  | cons a as ih =>
    intro s t h
    obtain ⟨s', hs', ht⟩ := exec_cons_eq_some.mp h
    rw [ih ht, hstep s a s' hs', and_assoc]
    refine and_congr_right fun _ => and_congr_right fun _ => ?_
    constructor
    · exact fun hall s₁ hs₁ => Option.some.inj (hs'.symm.trans hs₁) ▸ hall
    · exact fun hall => hall s' hs'

theorem last_iff_along_of_invariant {P : σ → Prop} (hI : ∀ s a s', I s → step s a = some s' → I s')
    (hstep : ∀ s a s', I s → step s a = some s' → (P s' ↔ P s ∧ cond s a)) :
    ∀ {as : List α} {s t : σ}, I s → exec step s as = some t → (P t ↔ P s ∧ Along step cond s as) := by
  intro as
  induction as with
  | nil =>
    intro s t _ h
    rw [← Option.some.inj h]
    exact (and_iff_left trivial).symm
  | cons a as ih =>
    intro s t hi h
    obtain ⟨s', hs', ht⟩ := exec_cons_eq_some.mp h
    rw [ih (hI s a s' hi hs') ht, hstep s a s' hi hs', and_assoc]
    refine and_congr_right fun _ => and_congr_right fun _ => ?_
    constructor
    · exact fun hall s₁ hs₁ => Option.some.inj (hs'.symm.trans hs₁) ▸ hall
    · exact fun hall => hall s' hs'

end Infra
