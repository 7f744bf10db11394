import Mathlib.Control.Basic

/-!
# Programs of statements

A client talks to a store in statements, each of them atomic. A statement may be refused by the store;
between two statements the client may die. So a program leaves one of the states that its first
statements lead to, and only a program that comes to its end has a result.
-/

namespace Infra

/-- A program: what the next statement does to the store, and what follows, by what the store was. -/
inductive Program (σ α : Type) where
  | done (result : α)
  | statement (exec : σ → Option σ) (next : σ → Program σ α)

namespace Program

variable {σ α β : Type}

protected def bind : Program σ α → (α → Program σ β) → Program σ β
  | done a, f => f a
  | statement exec next, f => statement exec fun s => (next s).bind f

instance : Monad (Program σ) where
  pure := done
  bind := Program.bind

def select (query : σ → α) : Program σ α := statement some fun s => done (query s)

/-- A statement that the database may refuse. -/
def tryWrite (exec : σ → Option σ) : Program σ Unit := statement exec fun _ => done ()

def write (exec : σ → σ) : Program σ Unit := tryWrite fun s => some (exec s)

/-- Runs a program; a refused statement ends it. -/
def run : Program σ α → σ → Option (σ × α)
  | done a, s => some (s, a)
  | statement exec next, s => (exec s).bind fun s' => (next s).run s'

/-- At most the first `n` statements. -/
def attempt : Nat → Program σ α → σ → σ
  | 0, _, s => s
  | _ + 1, done _, s => s
  | n + 1, statement exec next, s =>
    match exec s with
    | none => s
    | some s' => attempt n (next s) s'

@[simp] theorem pure_def (a : α) : (pure a : Program σ α) = done a := rfl

@[simp] theorem done_bind (a : α) (f : α → Program σ β) : done a >>= f = f a := rfl

@[simp] theorem statement_bind (exec : σ → Option σ) (next : σ → Program σ α)
    (f : α → Program σ β) : statement exec next >>= f = statement exec fun s => next s >>= f := rfl

@[simp] theorem run_done (a : α) (s : σ) : (done a : Program σ α).run s = some (s, a) := rfl

@[simp] theorem run_statement (exec : σ → Option σ) (next : σ → Program σ α) (s : σ) :
    (statement exec next).run s = (exec s).bind fun s' => (next s).run s' := rfl

@[simp] theorem attempt_zero (p : Program σ α) (s : σ) : p.attempt 0 s = s := by
  cases p <;> rfl

@[simp] theorem attempt_done (n : Nat) (a : α) (s : σ) : (done a : Program σ α).attempt n s = s := by
  cases n <;> rfl

theorem attempt_statement (n : Nat) (exec : σ → Option σ) (next : σ → Program σ α) (s : σ) :
    (statement exec next).attempt (n + 1) s = (exec s).elim s ((next s).attempt n) := by
  rw [attempt]
  cases exec s <;> rfl

theorem attempt_select (n : Nat) (query : σ → α) (f : α → Program σ β) (s : σ) :
    (select query >>= f).attempt (n + 1) s = (f (query s)).attempt n s := rfl

@[simp] theorem run_select (query : σ → α) (s : σ) : (select query).run s = some (s, query s) := rfl

@[simp] theorem run_write (exec : σ → σ) (s : σ) : (write exec).run s = some (exec s, ()) := rfl

@[simp] theorem run_tryWrite (exec : σ → Option σ) (s : σ) :
    (tryWrite exec).run s = (exec s).map fun s' => (s', ()) := by
  cases h : exec s <;> simp [tryWrite, h]

theorem run_bind (p : Program σ α) (f : α → Program σ β) : ∀ s,
    (p >>= f).run s = (p.run s).bind fun r => (f r.2).run r.1 := by
  induction p with
  | done a =>
    intro s
    rfl
  | statement exec next ih =>
    intro s
    simp only [statement_bind, run_statement]
    cases h : exec s with
    | none => rfl
    | some s' => exact ih s s'

theorem run_bind_eq_some {p : Program σ α} {f : α → Program σ β} {s : σ} {r : σ × β} :
    (p >>= f).run s = some r ↔ ∃ s₁ a, p.run s = some (s₁, a) ∧ (f a).run s₁ = some r := by
  rw [run_bind, Option.bind_eq_some_iff]
  exact ⟨fun ⟨x, hx, hr⟩ => ⟨x.1, x.2, hx, hr⟩, fun ⟨s₁, a, hp, hr⟩ => ⟨(s₁, a), hp, hr⟩⟩

theorem run_forM_cons (b : β) (items : List β) (f : β → Program σ Unit) (s : σ) :
    ((b :: items).forM f).run s = ((f b).run s).bind fun r => (items.forM f).run r.1 :=
  run_bind (f b) (fun _ => items.forM f) s

theorem run_forM_write (items : List β) (f : β → σ → σ) : ∀ s,
    (items.forM fun b => write (f b)).run s = some (items.foldl (fun s b => f b s) s, ()) := by
  induction items with
  | nil =>
    intro s
    rfl
  | cons b items ih =>
    intro s
    rw [run_forM_cons, run_write]
    exact ih (f b s)

instance : LawfulMonad (Program σ) := LawfulMonad.mk' _
  (fun p => by
    induction p with
    | done a => rfl
    | statement exec next ih => exact congrArg (statement exec) (funext fun s => ih s))
  (fun _ _ => rfl)
  (fun p f g => by
    induction p with
    | done a => rfl
    | statement exec next ih => exact congrArg (statement exec) (funext fun s => ih s))

/-! ## What statements keep -/

/-- Whatever the state, every statement of the program keeps the invariant. -/
def Always (inv : σ → Prop) : Program σ α → Prop
  | done _ => True
  | statement exec next => ∀ s, inv s → (∀ s', exec s = some s' → inv s') ∧ (next s).Always inv

variable {inv : σ → Prop} {p : Program σ α}

theorem Always.attempt (h : p.Always inv) : ∀ {n : Nat} {s : σ}, inv s → inv (p.attempt n s) := by
  induction p with
  | done a =>
    intro n s hs
    rwa [attempt_done]
  | statement exec next ih =>
    intro n s hs
    obtain ⟨hexec, hnext⟩ := h s hs
    cases n with
    | zero => exact hs
    | succ n =>
      rw [attempt_statement]
      cases hstep : exec s with
      | none => exact hs
      | some s' => exact ih s hnext (hexec s' hstep)

theorem Always.run (h : p.Always inv) : ∀ {s s' : σ} {a : α}, inv s → p.run s = some (s', a) → inv s' := by
  induction p with
  | done a =>
    intro s s' b hs hrun
    obtain ⟨rfl, -⟩ := Prod.mk.inj (Option.some.inj hrun)
    exact hs
  | statement exec next ih =>
    intro s s' b hs hrun
    obtain ⟨hexec, hnext⟩ := h s hs
    obtain ⟨s₁, hs₁, hrun⟩ := Option.bind_eq_some_iff.mp hrun
    exact ih s hnext (hexec s₁ hs₁) hrun

theorem Always.bind (h : p.Always inv) {f : α → Program σ β} (hf : ∀ a, (f a).Always inv) :
    (p >>= f).Always inv := by
  induction p with
  | done a => exact hf a
  | statement exec next ih =>
    intro s hs
    obtain ⟨hexec, hnext⟩ := h s hs
    exact ⟨hexec, ih s hnext⟩

theorem always_pure (a : α) : (pure a : Program σ α).Always inv := trivial

theorem always_select (query : σ → α) : (select query).Always inv := by
  intro s hs
  refine ⟨fun s' h => ?_, trivial⟩
  cases h
  exact hs

theorem always_tryWrite {exec : σ → Option σ} (h : ∀ s s', inv s → exec s = some s' → inv s') :
    (tryWrite exec).Always inv :=
  fun s hs => ⟨fun s' => h s s' hs, trivial⟩

theorem always_write {exec : σ → σ} (h : ∀ s, inv s → inv (exec s)) : (write exec).Always inv := by
  refine always_tryWrite fun s s' hs hexec => ?_
  cases hexec
  exact h s hs

theorem always_forM {items : List β} {f : β → Program σ Unit} (h : ∀ b ∈ items, (f b).Always inv) :
    (items.forM f).Always inv := by
  induction items with
  | nil => exact always_pure ()
  | cons b items ih =>
    show (f b >>= fun _ => items.forM f).Always inv
    exact (h b List.mem_cons_self).bind fun _ => ih fun b' hb' => h b' (List.mem_cons_of_mem _ hb')

/-- The invariant holds after every number of statements from a state. -/
def Safe (inv : σ → Prop) : Program σ α → σ → Prop
  | done _, s => inv s
  | statement exec next, s => inv s ∧ ∀ s', exec s = some s' → (next s).Safe inv s'

theorem Safe.attempt : ∀ {p : Program σ α} {n : Nat} {s : σ}, p.Safe inv s → inv (p.attempt n s) := by
  intro p
  induction p with
  | done a =>
    intro n s h
    rwa [attempt_done]
  | statement exec next ih =>
    intro n s h
    cases n with
    | zero => exact h.1
    | succ n =>
      rw [attempt_statement]
      cases hstep : exec s with
      | none => exact h.1
      | some s' => exact ih s (h.2 s' hstep)

theorem Safe.run : ∀ {p : Program σ α} {s s' : σ} {a : α}, p.Safe inv s → p.run s = some (s', a) →
    inv s' := by
  intro p
  induction p with
  | done a =>
    intro s s' b h hrun
    obtain ⟨rfl, -⟩ := Prod.mk.inj (Option.some.inj hrun)
    exact h
  | statement exec next ih =>
    intro s s' b h hrun
    obtain ⟨s₁, hs₁, hrun⟩ := Option.bind_eq_some_iff.mp hrun
    exact ih s (h.2 s₁ hs₁) hrun

theorem Safe.bind {f : α → Program σ β} : ∀ {p : Program σ α} {s : σ}, p.Safe inv s →
    (∀ s' a, p.run s = some (s', a) → inv s' → (f a).Safe inv s') → (p >>= f).Safe inv s := by
  intro p
  induction p with
  | done a =>
    intro s h hf
    exact hf s a rfl h
  | statement exec next ih =>
    intro s h hf
    refine ⟨h.1, fun s' hs' => ih s (h.2 s' hs') fun s'' a hrun => hf s'' a ?_⟩
    rw [run_statement, hs']
    exact hrun

theorem Always.safe : ∀ {p : Program σ α} {s : σ}, p.Always inv → inv s → p.Safe inv s := by
  intro p
  induction p with
  | done a =>
    intro s _ hs
    exact hs
  | statement exec next ih =>
    intro s h hs
    obtain ⟨hexec, hnext⟩ := h s hs
    exact ⟨hs, fun s' hs' => ih s hnext (hexec s' hs')⟩

/-! ## Programs that are started again -/

section Again

/-- Started again after `n` of its statements, the program leads where it would have led. -/
def Resumes (p : Program σ α) (n : Nat) (s : σ) : Prop := p.run (p.attempt n s) = p.run s

theorem resumes_zero (p : Program σ α) (s : σ) : p.Resumes 0 s := by
  unfold Resumes
  rw [attempt_zero]

theorem resumes_done (a : α) (n : Nat) (s : σ) : (done a : Program σ α).Resumes n s := by
  unfold Resumes
  rw [attempt_done]

variable {n : Nat} {s : σ}

theorem resumes_statement {exec : σ → Option σ} {next : σ → Program σ α}
    (h : ∀ s', exec s = some s' → exec ((next s).attempt n s') = some ((next s).attempt n s') ∧
      next ((next s).attempt n s') = next s ∧ (next s).Resumes n s') :
    (statement exec next).Resumes (n + 1) s := by
  unfold Resumes
  rw [attempt_statement]
  cases hexec : exec s with
  | none => rfl
  | some s' =>
    obtain ⟨hagain, hnext, hrest⟩ := h s' hexec
    rw [Option.elim_some, run_statement, hagain, Option.bind_some, hnext, hrest, run_statement, hexec,
      Option.bind_some]

theorem resumes_write {exec : σ → σ} {f : Unit → Program σ β}
    (hagain : exec ((f ()).attempt n (exec s)) = (f ()).attempt n (exec s))
    (h : (f ()).Resumes n (exec s)) : (write exec >>= f).Resumes (n + 1) s := by
  refine resumes_statement fun s' hs' => ?_
  rw [← Option.some.inj hs']
  exact ⟨congrArg some hagain, rfl, h⟩

theorem resumes_select {query : σ → α} {f : α → Program σ β}
    (hagain : query ((f (query s)).attempt n s) = query s) (h : (f (query s)).Resumes n s) :
    (select query >>= f).Resumes (n + 1) s := by
  refine resumes_statement fun s' hs' => ?_
  rw [← Option.some.inj hs']
  exact ⟨rfl, congrArg f hagain, h⟩

/-- The state after some attempts, one after the other. -/
def retried (p : Program σ α) (cuts : List Nat) (s : σ) : σ := cuts.foldl (fun s n => p.attempt n s) s

/-- Every attempt meets a condition on the state it starts in and on where it is cut. -/
def EachAttempt (p : Program σ α) (cond : σ → Nat → Prop) : σ → List Nat → Prop
  | _, [] => True
  | s, n :: cuts => cond s n ∧ p.EachAttempt cond (p.attempt n s) cuts

instance decidableEachAttempt (p : Program σ α) (cond : σ → Nat → Prop)
    [∀ s n, Decidable (cond s n)] : ∀ s cuts, Decidable (p.EachAttempt cond s cuts)
  | _, [] => isTrue trivial
  | s, n :: cuts =>
    have := decidableEachAttempt p cond (p.attempt n s) cuts
    inferInstanceAs (Decidable (cond s n ∧ p.EachAttempt cond (p.attempt n s) cuts))

/-- **Attempts that can be resumed change nothing of where the program leads.** -/
theorem run_retried (p : Program σ α) {cond : σ → Nat → Prop} (h : ∀ s n, cond s n → p.Resumes n s) :
    ∀ {cuts : List Nat} {s : σ}, p.EachAttempt cond s cuts → p.run (p.retried cuts s) = p.run s := by
  intro cuts
  induction cuts with
  | nil =>
    intro s _
    rfl
  | cons n cuts ih =>
    intro s hcuts
    exact (ih hcuts.2).trans (h s n hcuts.1)

theorem attempt_forM_write (f : β → σ → σ) : ∀ {items : List β} {n : Nat} {s : σ}, items.length ≤ n →
    (items.forM fun b => write (f b)).attempt n s = items.foldl (fun s b => f b s) s := by
  intro items
  induction items with
  | nil =>
    intro n s _
    exact attempt_done n () s
  | cons b items ih =>
    intro n s hn
    obtain ⟨n, rfl⟩ := Nat.exists_eq_add_of_lt (Nat.lt_of_lt_of_le (Nat.succ_pos _) hn)
    rw [Nat.zero_add]
    show (items.forM fun b => write (f b)).attempt n (f b s) = _
    refine ih ?_
    rw [List.length_cons] at hn
    omega

end Again

end Program

end Infra
