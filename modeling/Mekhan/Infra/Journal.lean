import Mathlib.Data.List.Basic

/-!
# Programs that write a journal

A program of the shape event-sourced code has: it appends events to a store, reads back what the
store holds, keeps a state of its own beside it, and stops with a result or an error. `Journal` is
the tree of such a program, one branch for each answer of the store.

`play` runs a program on a store that persists every append, `playUntil n` on one that refuses the
append number `n`. Nothing in a program catches an error, so a refused append is the end of it
(`playUntil_eq`): what is in the store then are the first `n` of the events that would have been.
-/

namespace Infra

/-- A program with state `S` that appends `E`s, gets a `P` back for each and fails with an `X`. -/
inductive Journal (S E P X α : Type) where
  | ret (a : α)
  | fail (x : X)
  | append (e : E) (next : P → Journal S E P X α)
  | events (next : List P → Journal S E P X α)
  | get (next : S → Journal S E P X α)
  | set (s : S) (next : Journal S E P X α)

/-- A store of events: `content` is what was appended, whatever else the store adds to it. -/
structure Store (σ E P : Type) where
  persist : E → σ → P × σ
  events : σ → List P
  content : P → E
  content_persist : ∀ e s, content (persist e s).1 = e

/-- The end of a run: the result, the program's state, the store and what was appended. -/
structure Played (S P X σ α : Type) where
  result : Except X α
  state : S
  store : σ
  appended : List P

namespace Journal

variable {S E P X σ α β : Type}

protected def bind : Journal S E P X α → (α → Journal S E P X β) → Journal S E P X β
  | .ret a, f => f a
  | .fail x, _ => .fail x
  | .append e next, f => .append e fun p => (next p).bind f
  | .events next, f => .events fun ps => (next ps).bind f
  | .get next, f => .get fun s => (next s).bind f
  | .set s next, f => .set s (next.bind f)

instance : Monad (Journal S E P X) where
  pure := .ret
  bind := Journal.bind

def write (e : E) : Journal S E P X P := .append e .ret

def readAll : Journal S E P X (List P) := .events .ret

def getState : Journal S E P X S := .get .ret

def setState (s : S) : Journal S E P X Unit := .set s (.ret ())

def ofExcept : Except X α → Journal S E P X α
  | .ok a => .ret a
  | .error x => .fail x

/-- A value, or a failure where it is missing. -/
def ofOption (x : X) : Option α → Journal S E P X α
  | some a => .ret a
  | none => .fail x

@[simp] theorem ofOption_some_bind (x : X) (a : α) (f : α → Journal S E P X β) :
    ofOption x (some a) >>= f = f a := rfl

@[simp] theorem ofOption_none_bind (x : X) (f : α → Journal S E P X β) :
    ofOption x none >>= f = .fail x := rfl

/-! ## Runs -/

variable (st : Store σ E P)

/-- Runs a program on a store that answers its appends and reads. -/
def play : Journal S E P X α → S → σ → Played S P X σ α
  | .ret a, s, db => ⟨.ok a, s, db, []⟩
  | .fail x, s, db => ⟨.error x, s, db, []⟩
  | .append e next, s, db =>
    let r := st.persist e db
    let rest := (next r.1).play s r.2
    { rest with appended := r.1 :: rest.appended }
  | .events next, s, db => (next (st.events db)).play s db
  | .get next, s, db => (next s).play s db
  | .set s next, _, db => next.play s db

/-- The run on a store that persists `n` appends and refuses the one after them. -/
def playUntil (refusal : X) : Journal S E P X α → Nat → S → σ → Played S P X σ α
  | .ret a, _, s, db => ⟨.ok a, s, db, []⟩
  | .fail x, _, s, db => ⟨.error x, s, db, []⟩
  | .append _ _, 0, s, db => ⟨.error refusal, s, db, []⟩
  | .append e next, n + 1, s, db =>
    let r := st.persist e db
    let rest := (next r.1).playUntil refusal n s r.2
    { rest with appended := r.1 :: rest.appended }
  | .events next, n, s, db => (next (st.events db)).playUntil refusal n s db
  | .get next, n, s, db => (next s).playUntil refusal n s db
  | .set s next, n, _, db => next.playUntil refusal n s db

/-- The events that a program appends. -/
def written (p : Journal S E P X α) (s : S) (db : σ) : List E :=
  (p.play st s db).appended.map st.content

/-- What a run appends before the append number `n` is refused. -/
def writtenUntil (refusal : X) (n : Nat) (p : Journal S E P X α) (s : S) (db : σ) : List E :=
  (p.playUntil st refusal n s db).appended.map st.content

/-- **A refused append ends the run**: the events in front of it are in the store, the error of the
store is the result. A run with fewer appends does not notice. -/
theorem playUntil_eq (refusal : X) : ∀ (p : Journal S E P X α) (n : Nat) (s : S) (db : σ),
    (p.playUntil st refusal n s db).appended = (p.play st s db).appended.take n ∧
      (p.playUntil st refusal n s db).result =
        if n < (p.play st s db).appended.length then .error refusal
        else (p.play st s db).result := by
  intro p
  induction p with
  | ret a => intro n s db; simp [play, playUntil]
  | fail x => intro n s db; simp [play, playUntil]
  | append e next ih =>
    intro n s db
    cases n with
    | zero => simp [play, playUntil]
    | succ n =>
      obtain ⟨happ, hres⟩ := ih (st.persist e db).1 n s (st.persist e db).2
      constructor
      · simp only [play, playUntil, List.take_succ_cons, happ]
      · simp only [play, playUntil, List.length_cons, Nat.add_lt_add_iff_right, hres]
  | events next ih => intro n s db; exact ih _ n s db
  | get next ih => intro n s db; exact ih _ n s db
  | set s' next ih => intro n s db; exact ih n s' db

theorem writtenUntil_eq (refusal : X) (p : Journal S E P X α) (n : Nat) (s : S) (db : σ) :
    p.writtenUntil st refusal n s db = (p.written st s db).take n := by
  rw [writtenUntil, written, (playUntil_eq st refusal p n s db).1, List.map_take]

/-! ## What the parts of a program do -/

variable (s : S) (db : σ)

@[simp] theorem written_fail (x : X) : (fail x : Journal S E P X α).written st s db = [] := rfl

theorem play_bind (p : Journal S E P X α) (f : α → Journal S E P X β) : (p >>= f).play st s db =
      match (p.play st s db).result with
      | .error x => ⟨.error x, (p.play st s db).state, (p.play st s db).store,
          (p.play st s db).appended⟩
      | .ok a =>
        let rest := (f a).play st (p.play st s db).state (p.play st s db).store
        { rest with appended := (p.play st s db).appended ++ rest.appended } := by
  show (p.bind f).play st s db = _
  induction p generalizing s db with
  | ret a => rfl
  | fail x => rfl
  | append e next ih =>
    simp only [Journal.bind, play, ih]
    cases ((next (st.persist e db).1).play st s (st.persist e db).2).result <;> rfl
  | events next ih => exact ih _ s db
  | get next ih => exact ih _ s db
  | set s' next ih => exact ih s' db

theorem written_write_bind (e : E) (f : P → Journal S E P X β) : (write e >>= f).written st s db =
      e :: (f (st.persist e db).1).written st s (st.persist e db).2 := by
  show st.content (st.persist e db).1 :: _ = _
  rw [st.content_persist]
  rfl

variable {p : Journal S E P X α}

theorem play_bind_of_ok {f : α → Journal S E P X β} {a : α} (h : (p.play st s db).result = .ok a) :
    (p >>= f).written st s db = p.written st s db ++
        (f a).written st (p.play st s db).state (p.play st s db).store ∧ ((p >>= f).play st s db).result =
        ((f a).play st (p.play st s db).state (p.play st s db).store).result := by
  rw [written, play_bind, h]
  exact ⟨List.map_append, rfl⟩

theorem play_bind_of_error {f : α → Journal S E P X β} {x : X} (h : (p.play st s db).result = .error x) :
    (p >>= f).written st s db = p.written st s db ∧ ((p >>= f).play st s db).result = .error x := by
  rw [written, play_bind, h]
  exact ⟨rfl, rfl⟩

/-! ## What a program can write -/

/-- Every event the program may append satisfies `Q`, whatever the store answers. -/
def Writes (Q : E → Prop) : Journal S E P X α → Prop
  | .ret _ => True
  | .fail _ => True
  | .append e next => Q e ∧ ∀ p, (next p).Writes Q
  | .events next => ∀ ps, (next ps).Writes Q
  | .get next => ∀ s, (next s).Writes Q
  | .set _ next => next.Writes Q

variable {Q : E → Prop}

theorem Writes.bind {f : α → Journal S E P X β} (hp : p.Writes Q)
    (hf : ∀ a, (f a).Writes Q) : (p >>= f).Writes Q := by
  show (p.bind f).Writes Q
  induction p with
  | ret a => exact hf a
  | fail x => trivial
  | append e next ih => exact ⟨hp.1, fun p => ih p (hp.2 p)⟩
  | events next ih => exact fun ps => ih ps (hp ps)
  | get next ih => exact fun s => ih s (hp s)
  | set s next ih => exact ih hp

theorem Writes.pure (a : α) : (pure a : Journal S E P X α).Writes Q := trivial

theorem Writes.write {e : E} (h : Q e) : (write e : Journal S E P X P).Writes Q :=
  ⟨h, fun _ => trivial⟩

theorem Writes.write_bind {e : E} {f : P → Journal S E P X β} (h : Q e)
    (hf : ∀ p, (f p).Writes Q) : (Journal.write e >>= f).Writes Q :=
  ⟨h, hf⟩

theorem Writes.ofOption (x : X) (a : Option α) : (ofOption x a : Journal S E P X α).Writes Q := by
  cases a <;> trivial

theorem Writes.ofExcept (r : Except X α) : (ofExcept r : Journal S E P X α).Writes Q := by
  cases r <;> trivial

theorem Writes.mono {R : E → Prop} (h : ∀ e, Q e → R e) {p : Journal S E P X α}
    (hp : p.Writes Q) : p.Writes R := by
  induction p with
  | ret a => trivial
  | fail x => trivial
  | append e next ih => exact ⟨h e hp.1, fun p => ih p (hp.2 p)⟩
  | events next ih => exact fun ps => ih ps (hp ps)
  | get next ih => exact fun s => ih s (hp s)
  | set s next ih => exact ih hp

theorem Writes.written (hp : p.Writes Q) : ∀ e ∈ p.written st s db, Q e := by
  induction p generalizing s db with
  | ret a => exact fun e he => absurd he List.not_mem_nil
  | fail x => exact fun e he => absurd he List.not_mem_nil
  | append e next ih =>
    intro e' he'
    rw [show (Journal.append e next).written st s db = (Journal.write e >>= next).written st s db
      from rfl, written_write_bind] at he'
    rcases List.mem_cons.mp he' with rfl | he'
    · exact hp.1
    · exact ih _ s _ (hp.2 _) e' he'
  | events next ih => exact ih _ s db (hp _)
  | get next ih => exact ih _ s db (hp _)
  | set s' next ih => exact ih s' db hp

variable {st s db}

/-- **What every append of a kind keeps true of the store is true after a program that appends only
that kind.** -/
theorem Writes.store_invariant {I : σ → Prop} (hI : ∀ e db, Q e → I db → I (st.persist e db).2)
    {p : Journal S E P X α} (hp : p.Writes Q) (hdb : I db) : I (p.play st s db).store := by
  induction p generalizing s db with
  | ret a => exact hdb
  | fail x => exact hdb
  | append e next ih => exact ih _ (hp.2 _) (hI e db hp.1 hdb)
  | events next ih => exact ih _ (hp _) hdb
  | get next ih => exact ih _ (hp _) hdb
  | set s' next ih => exact ih hp hdb

end Journal

end Infra
