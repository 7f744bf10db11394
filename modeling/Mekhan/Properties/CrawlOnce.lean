import Mekhan.Executor.Crawl

/-!
# A crawl emits every file once

The cursor of a crawl moves with every file, its batches are emitted when they are full. A cancellation that the loop
notices at one of its waits drops the batch, and the next run starts behind it; and a resumed run that is cancelled
before its first file has no cursor to hand on, so that the next one starts all over.
-/

namespace Mekhan

namespace Crawl

open Infra

variable {cfg : CrawlConfig} {tree : Tree} {w w' : Walk}

/-- The loop looks at the cancellation at one of its waits and breaks. -/
def BreaksAtWait (w : Walk) : Prop :=
  w.cancelRequested = true ∧ (w.stage = .draining ∨ w.stage = .filling ∧ w.inflight = [])

/-- When the loop breaks at a wait, no batch is partly filled. -/
def WholeBatch (w : Walk) : Action → Prop
  | .proceed => BreaksAtWait w → w.batch = []
  | .cancel => True

/-- When the loop of a resumed run breaks at a wait, it has a cursor of its own. -/
def OwnCursor (w : Walk) : Action → Prop
  | .proceed => BreaksAtWait w → w.lastPath = none → w.resume = none
  | .cancel => True

instance (w : Walk) : Decidable (BreaksAtWait w) := inferInstanceAs (Decidable (_ ∧ _))

instance (w : Walk) : ∀ a, Decidable (WholeBatch w a)
  | .proceed => inferInstanceAs (Decidable (_ → _))
  | .cancel => inferInstanceAs (Decidable True)

instance (w : Walk) : ∀ a, Decidable (OwnCursor w a)
  | .proceed => inferInstanceAs (Decidable (_ → _))
  | .cancel => inferInstanceAs (Decidable True)

/-- Every step of every run of a campaign meets a condition. -/
def Each (tree : Tree) (cond : Walk → Action → Prop) : Option String → List Run → Prop
  | _, [] => True
  | resumeFrom, r :: rs =>
    Along (Walk.step r.cfg) cond (.start r.cfg tree.entries resumeFrom) r.actions ∧
      ∀ w, r.report tree resumeFrom = some w → Each tree cond w.lastPath rs

instance decidableEach (tree : Tree) (cond : Walk → Action → Prop) [∀ w a, Decidable (cond w a)] :
    ∀ resumeFrom runs, Decidable (Each tree cond resumeFrom runs)
  | _, [] => isTrue trivial
  | resumeFrom, r :: rs =>
    have : Decidable (∀ w, r.report tree resumeFrom = some w → Each tree cond w.lastPath rs) :=
      match h : r.report tree resumeFrom with
      | none => isTrue fun _ hw => by simp at hw
      | some w =>
        match decidableEach tree cond w.lastPath rs with
        | isTrue h₁ => isTrue fun _ hw => Option.some.inj hw ▸ h₁
        | isFalse h₁ => isFalse fun hall => h₁ (hall w rfl)
    inferInstanceAs (Decidable (_ ∧ _))

/-! ## What a run keeps -/

/-- The run works on the files `rest`: what is emitted, gathered, in flight and still to be listed, in this order. -/
structure Inv (rest : List String) (w : Walk) : Prop where
  total : w.total = (w.items ++ w.batch).length
  lastPath : w.lastPath = (w.items ++ w.batch).getLast?
  passed : w.resumePassed = true → w.items ++ w.batch ++ w.inflight ++ filesOf w.lister = rest
  skipping : w.resumePassed = false → w.items = [] ∧ w.batch = [] ∧ w.inflight = [] ∧
    ∃ path, w.resume = some path ∧ ((filesOf w.lister).dropWhile (· ≠ path)).tail = rest
  listerDone : w.listerDone = true → w.lister = []
  flushing : w.stage = .flushing → w.batch ≠ []
  exhausted : w.stage = .broken false false → w.inflight = [] ∧ w.lister = []
  stopped : ∀ cancelled, w.stage = .broken cancelled true → cancelled = false ∧ w.batch = [] ∧ w.lastPath ≠ none
  returned : ∀ cancelled exhausted, w.stage = .returned cancelled exhausted → w.resumePassed = true ∧
    (exhausted = true → cancelled = false ∧ w.batch = [] ∧ w.items = rest) ∧
    (cancelled = false → exhausted = false → w.batch = [] ∧ w.lastPath ≠ none)

variable {rest : List String}

theorem getLast?_ne_none {α : Type} {l : List α} : l.getLast? ≠ none ↔ l ≠ [] := by
  rw [Ne, List.getLast?_eq_none_iff]

theorem items_emit (w : Walk) : w.emit.items = w.items ++ w.batch := by
  simp [Walk.emit, Walk.items]

theorem inv_pull (h : Inv rest w) (hstage : w.stage = .filling) : Inv rest w.pull := by
  unfold Walk.pull
  split
  case h_1 hlister =>
    exact { h with listerDone := fun _ => hlister }
  case h_2 entries hlister =>
    split
    · exact {
        total := h.total, lastPath := h.lastPath, passed := h.passed, skipping := h.skipping
        listerDone := h.listerDone, flushing := by simp, exhausted := by simp, stopped := by simp, returned := by simp }
    · have hfiles : filesOf w.lister = filesOf entries := by rw [hlister]; rfl
      have hdone : w.listerDone = true → entries = [] := fun hd => by
        rw [h.listerDone hd] at hlister
        cases hlister
      have hpassed := h.passed
      have hskipping := h.skipping
      rw [hfiles] at hpassed hskipping
      exact { h with passed := hpassed, skipping := hskipping, listerDone := hdone, exhausted := by simp [hstage] }
  case h_3 path entries hlister =>
    have hfiles : filesOf w.lister = filesOf entries := by rw [hlister]; rfl
    have hdone : w.listerDone = true → entries = [] := fun hd => by
      rw [h.listerDone hd] at hlister
      cases hlister
    have hpassed := h.passed
    have hskipping := h.skipping
    rw [hfiles] at hpassed hskipping
    exact { h with passed := hpassed, skipping := hskipping, listerDone := hdone, exhausted := by simp [hstage] }
  case h_4 path entries hlister =>
    have hfiles : filesOf w.lister = path :: filesOf entries := by rw [hlister]; rfl
    have hdone : w.listerDone = true → entries = [] := fun hd => by
      rw [h.listerDone hd] at hlister
      cases hlister
    split
    · next hpassed =>
      have hrest := h.passed hpassed
      rw [hfiles] at hrest
      refine { h with passed := fun _ => ?_, skipping := ?_, listerDone := hdone, exhausted := by simp [hstage] }
      · rw [← hrest]
        simp [Walk.items]
      · intro hskip
        exact absurd (hpassed.symm.trans hskip) (by simp)
    · next hpassed =>
      obtain ⟨hitems, hbatch, hinflight, cursor, hresume, hrest⟩ := h.skipping (by simpa using hpassed)
      rw [hfiles] at hrest
      by_cases hfound : path = cursor
      · have hhere : decide (some path = w.resume) = true := by rw [hresume, hfound]; simp
        rw [List.dropWhile_cons_of_neg (by simp [hfound])] at hrest
        refine { h with
          passed := fun _ => ?_
          skipping := ?_
          listerDone := hdone
          exhausted := by simp [hstage]
          returned := by simp [hstage] }
        · show w.items ++ w.batch ++ w.inflight ++ filesOf entries = rest
          rw [← hrest, hitems, hbatch, hinflight]
          rfl
        · intro hskip
          dsimp only at hskip
          rw [hhere] at hskip
          cases hskip
      · have hhere : decide (some path = w.resume) = false := by rw [hresume]; simpa using hfound
        rw [List.dropWhile_cons_of_pos (by simpa using hfound)] at hrest
        refine { h with
          passed := ?_
          skipping := fun _ => ⟨hitems, hbatch, hinflight, cursor, hresume, hrest⟩
          listerDone := hdone
          exhausted := by simp [hstage]
          returned := by simp [hstage] }
        intro hpass
        dsimp only at hpass
        rw [hhere] at hpass
        cases hpass

theorem inv_drain (h : Inv rest w) {path : String} {inflight : List String} (hinflight : w.inflight = path :: inflight) :
    Inv rest (w.drain cfg path inflight) := by
  have hpassed : w.resumePassed = true := by
    by_contra hskip
    obtain ⟨-, -, hempty, -⟩ := h.skipping (by simpa using hskip)
    rw [hinflight] at hempty
    cases hempty
  have hrest := h.passed hpassed
  have hstage : ∀ {b : Bool} {s : Stage}, (if b = true then Stage.flushing else .filling) = s →
      s = .flushing ∨ s = .filling := by
    intro b s hs
    cases b <;> simp at hs <;> simp [← hs]
  refine ⟨?_, ?_, ?_, ?_, h.listerDone, ?_, ?_, ?_, ?_⟩
  · show w.total + 1 = (w.items ++ (w.batch ++ [path])).length
    rw [h.total]
    simp
    omega
  · show some path = (w.items ++ (w.batch ++ [path])).getLast?
    rw [← List.append_assoc, List.getLast?_append]
    rfl
  · intro _
    show w.items ++ (w.batch ++ [path]) ++ inflight ++ filesOf w.lister = rest
    rw [← hrest, hinflight]
    simp
  · intro hskip
    exact absurd (hpassed.symm.trans hskip) (by simp)
  · intro _
    exact List.append_ne_nil_of_right_ne_nil _ (List.cons_ne_nil _ _)
  · intro hs
    unfold Walk.drain at hs
    dsimp only at hs
    split at hs <;> cases hs
  · intro _ hs
    unfold Walk.drain at hs
    dsimp only at hs
    split at hs <;> cases hs
  · intro _ _ hs
    unfold Walk.drain at hs
    dsimp only at hs
    split at hs <;> cases hs

theorem lastPath_ne_none (h : Inv rest w) (hbatch : w.batch ≠ []) : w.lastPath ≠ none := by
  rw [h.lastPath, getLast?_ne_none]
  exact List.append_ne_nil_of_right_ne_nil _ hbatch

theorem inv_emit (h : Inv rest w) {stage : Stage} (hflushing : stage ≠ .flushing)
    (hexhausted : stage = .broken false false → w.inflight = [] ∧ w.lister = [])
    (hstopped : ∀ cancelled, stage = .broken cancelled true → cancelled = false ∧ w.lastPath ≠ none)
    (hreturned : ∀ cancelled exhausted, stage = .returned cancelled exhausted → w.resumePassed = true ∧
      (exhausted = true → cancelled = false ∧ w.items ++ w.batch = rest) ∧
      (cancelled = false → exhausted = false → w.lastPath ≠ none)) : Inv rest { w.emit with stage := stage } := by
  have hitems : ({ w.emit with stage := stage } : Walk).items = w.items ++ w.batch := items_emit w
  refine ⟨?_, ?_, ?_, ?_, h.listerDone, fun hs => absurd hs hflushing, hexhausted, ?_, ?_⟩
  · rw [hitems]
    show w.total = (w.items ++ w.batch ++ []).length
    rw [List.append_nil, h.total]
  · rw [hitems]
    show w.lastPath = (w.items ++ w.batch ++ []).getLast?
    rw [List.append_nil, h.lastPath]
  · intro hpassed
    rw [hitems]
    show w.items ++ w.batch ++ [] ++ w.inflight ++ filesOf w.lister = rest
    rw [List.append_nil]
    exact h.passed hpassed
  · intro hskip
    obtain ⟨hnone, hbatch, hinflight, hcursor⟩ := h.skipping hskip
    refine ⟨?_, rfl, hinflight, hcursor⟩
    rw [hitems, hnone, hbatch]
    rfl
  · exact fun cancelled hs => ⟨(hstopped cancelled hs).1, rfl, (hstopped cancelled hs).2⟩
  · intro cancelled exhausted hs
    obtain ⟨hpassed, hyes, hno⟩ := hreturned cancelled exhausted hs
    refine ⟨hpassed, fun he => ⟨(hyes he).1, rfl, ?_⟩, fun hc he => ⟨rfl, hno hc he⟩⟩
    rw [hitems]
    exact (hyes he).2

theorem inv_flush (h : Inv rest w) (hstage : w.stage = .flushing) : Inv rest (w.flush cfg) := by
  have hlast := lastPath_ne_none h (h.flushing hstage)
  unfold Walk.flush
  dsimp only
  split
  · exact inv_emit h (by simp) (by simp) (fun cancelled hs => ⟨by simpa using hs.symm, hlast⟩) (by simp)
  · split
    · exact inv_emit h (by simp) (by simp) (by simp) (by simp)
    · exact inv_emit h (by simp) (by simp) (by simp) (by simp)

theorem inv_finish (h : Inv rest w) {cancelled stoppedByMax : Bool} (hstage : w.stage = .broken cancelled stoppedByMax) :
    Inv rest (w.finish cancelled stoppedByMax) := by
  unfold Walk.finish
  split
  · next hpassed =>
    have hrest := h.passed hpassed
    have hall : (!cancelled && !stoppedByMax) = true → cancelled = false ∧ w.items ++ w.batch = rest := by
      intro hend
      rw [Bool.and_eq_true, Bool.not_eq_true', Bool.not_eq_true'] at hend
      obtain ⟨rfl, rfl⟩ := hend
      obtain ⟨hinflight, hlister⟩ := h.exhausted hstage
      refine ⟨rfl, ?_⟩
      rw [← hrest, hinflight, hlister]
      simp [filesOf]
    have hmax : cancelled = false → (!cancelled && !stoppedByMax) = false → w.batch = [] ∧ w.lastPath ≠ none := by
      rintro rfl hend
      have hstopped : stoppedByMax = true := by simpa using hend
      subst hstopped
      exact (h.stopped false hstage).2
    dsimp only
    split
    · refine inv_emit h (by simp) (by simp) (by simp) fun c e hs => ?_
      cases hs
      exact ⟨hpassed, hall, fun hc he => (hmax hc he).2⟩
    · next hempty =>
      refine ⟨h.total, h.lastPath, h.passed, h.skipping, h.listerDone, by simp, by simp, by simp, fun c e hs => ?_⟩
      cases hs
      refine ⟨hpassed, fun he => ?_, hmax⟩
      have hbatch : w.batch = [] := by
        by_contra hne
        exact hempty (by simp [he, hne])
      obtain ⟨hc, hitems⟩ := hall he
      refine ⟨hc, hbatch, ?_⟩
      rw [hbatch, List.append_nil] at hitems
      exact hitems
  · exact ⟨h.total, h.lastPath, h.passed, h.skipping, h.listerDone, by simp, by simp, by simp, by simp⟩

theorem inv_stage (h : Inv rest w) {stage : Stage} (hflushing : stage ≠ .flushing)
    (hexhausted : stage = .broken false false → w.inflight = [] ∧ w.lister = [])
    (hstopped : ∀ cancelled, stage ≠ .broken cancelled true)
    (hreturned : ∀ cancelled exhausted, stage ≠ .returned cancelled exhausted) : Inv rest { w with stage := stage } :=
  ⟨h.total, h.lastPath, h.passed, h.skipping, h.listerDone, fun hs => absurd hs hflushing, hexhausted,
    fun _ hs => absurd hs (hstopped _), fun _ _ hs => absurd hs (hreturned _ _)⟩

theorem inv_step (w : Walk) (a : Action) (w' : Walk) (h : Inv rest w) (hs : w.step cfg a = some w') : Inv rest w' := by
  cases a with
  | cancel =>
    cases hs
    exact ⟨h.total, h.lastPath, h.passed, h.skipping, h.listerDone, h.flushing, h.exhausted, h.stopped, h.returned⟩
  | proceed =>
    change w.proceed cfg = some w' at hs
    unfold Walk.proceed at hs
    split at hs
    case h_1 hstage =>
      split at hs
      · cases hs
        exact inv_pull h hstage
      · next hfull =>
        split at hs
        · next hinflight =>
          cases hs
          refine inv_stage h (by simp) (fun hb => ⟨hinflight, ?_⟩) (by simp) (by simp)
          -- Not cancelled and nothing in flight: only the end of the lister stops the filling.
          obtain ⟨hcancel, -⟩ := Stage.broken.inj hb
          have hpos : 0 < cfg.concurrency := Nat.lt_of_lt_of_le Nat.one_pos (Nat.le_max_right _ _)
          simp [hcancel, hinflight, hpos] at hfull
          exact h.listerDone hfull
        · cases hs
          exact inv_stage h (by simp) (by simp) (by simp) (by simp)
    case h_2 hstage =>
      split at hs
      · cases hs
        exact inv_stage h (by simp) (by simp) (by simp) (by simp)
      · split at hs
        · cases hs
          exact inv_stage h (by simp) (by simp) (by simp) (by simp)
        · next hinflight =>
          cases hs
          exact inv_drain h hinflight
    case h_3 hstage =>
      cases hs
      exact inv_flush h hstage
    case h_4 cancelled stoppedByMax hstage =>
      cases hs
      exact inv_finish h hstage
    case h_5 => cases hs
    case h_6 => cases hs
    case h_7 => cases hs

/-! ## The start of a run -/

theorem filesOf_startAfter (path : String) : ∀ entries : List Entry,
    filesOf (startAfter path entries) = ((filesOf entries).dropWhile (· ≠ path)).tail
  | [] => rfl
  | .file p :: entries => by
    have ih := filesOf_startAfter path entries
    have hfiles : filesOf (.file p :: entries) = p :: filesOf entries := rfl
    rw [startAfter, hfiles]
    by_cases hp : p = path
    · rw [List.dropWhile_cons_of_neg (by simp [hp]), List.dropWhile_cons_of_neg (by simp [hp])]
      rfl
    · rw [List.dropWhile_cons_of_pos (by simpa using hp), List.dropWhile_cons_of_pos (by simpa using hp)]
      exact ih
  | .directory p :: entries => by
    rw [startAfter, List.dropWhile_cons_of_pos (by simp)]
    exact filesOf_startAfter path entries
  | .unreadable :: entries => by
    rw [startAfter, List.dropWhile_cons_of_pos (by simp)]
    exact filesOf_startAfter path entries

theorem tail_dropWhile_last {before rest : List String} {path : String} (hnodup : (before ++ rest).Nodup)
    (hlast : before.getLast? = some path) : ((before ++ rest).dropWhile (· ≠ path)).tail = rest := by
  obtain ⟨init, rfl⟩ := List.getLast?_eq_some_iff.mp hlast
  have hnot : ∀ x ∈ init, decide (x ≠ path) = true := by
    intro x hx
    rw [decide_eq_true_eq]
    rintro rfl
    rw [List.append_assoc, List.nodup_append] at hnodup
    exact hnodup.2.2 x hx x (by simp) rfl
  rw [List.append_assoc, List.dropWhile_append_of_pos hnot]
  simp

def Tree.remaining (tree : Tree) (resumeFrom : Option String) : List String :=
  match resumeFrom.filter (· ≠ "") with
  | none => tree.files
  | some path => (tree.files.dropWhile (· ≠ path)).tail

theorem remaining_last {before : List String} (hfiles : tree.files = before ++ rest) :
    tree.remaining before.getLast? = rest ∧ before.getLast?.filter (· ≠ "") = before.getLast? := by
  cases hlast : before.getLast? with
  | none =>
    rw [List.getLast?_eq_none_iff] at hlast
    rw [hlast] at hfiles
    exact ⟨hfiles, rfl⟩
  | some path =>
    have hmem : path ∈ tree.files := by
      rw [hfiles]
      exact List.mem_append_left _ (List.mem_of_getLast? hlast)
    have hne : path ≠ "" := fun heq => tree.named (heq ▸ hmem)
    have hkept : (some path).filter (· ≠ "") = some path := by simp [hne]
    refine ⟨?_, hkept⟩
    rw [Tree.remaining, hkept]
    dsimp only
    rw [hfiles]
    exact tail_dropWhile_last (hfiles ▸ tree.nodup) hlast

theorem inv_start (cfg : CrawlConfig) (tree : Tree) (resumeFrom : Option String) :
    Inv (tree.remaining resumeFrom) (.start cfg tree.entries resumeFrom) := by
  refine ⟨rfl, rfl, ?_, ?_, by simp [Walk.start], by simp [Walk.start], by simp [Walk.start], by simp [Walk.start],
    by simp [Walk.start]⟩
  · intro hpassed
    show filesOf (Walk.start cfg tree.entries resumeFrom).lister = _
    simp only [Walk.start, Tree.remaining] at hpassed ⊢
    cases hresume : resumeFrom.filter (· ≠ "") with
    | none => rfl
    | some path =>
      have hnative : cfg.listWithStartAfter = true := by
        rw [hresume] at hpassed
        simpa using hpassed
      rw [hnative]
      exact filesOf_startAfter path tree.entries
  · intro hskip
    refine ⟨rfl, rfl, rfl, ?_⟩
    simp only [Walk.start, Tree.remaining] at hskip ⊢
    cases hresume : resumeFrom.filter (· ≠ "") with
    | none =>
      rw [hresume] at hskip
      cases hskip
    | some path =>
      have hnative : cfg.listWithStartAfter = false := by
        rw [hresume] at hskip
        simpa using hskip
      rw [hnative]
      exact ⟨path, rfl, rfl⟩

/-! ## The end of a run -/

def Stopped : Stage → Prop
  | .broken cancelled _ | .returned cancelled _ | .cursorNotFound cancelled => cancelled = true
  | _ => False

/-- What the walk has to report of its position: the open batch, the last file and the cursor it began with. -/
def SamePosition (w w' : Walk) : Prop := w'.batch = w.batch ∧ w'.lastPath = w.lastPath ∧ w'.resume = w.resume

/-- A property of the position holds where the loop was left at a cancellation exactly when it holds where the loop
breaks at a wait, if it holds wherever a batch was just emitted. -/
theorem stopped_step {Q : Walk → Prop} (hQ : ∀ w w', SamePosition w w' → (Q w' ↔ Q w))
    (hflush : ∀ w w', Inv rest w → w.stage = .flushing → SamePosition w.emit w' → Q w') (w : Walk) (a : Action) (w' : Walk)
    (h : Inv rest w) (hs : w.step cfg a = some w') :
    (Stopped w'.stage → Q w') ↔ (Stopped w.stage → Q w) ∧ (a = .proceed → BreaksAtWait w → Q w) := by
  cases a with
  | cancel =>
    cases hs
    rw [and_iff_left (by simp)]
    exact imp_congr Iff.rfl (hQ w _ ⟨rfl, rfl, rfl⟩)
  | proceed =>
    change w.proceed cfg = some w' at hs
    unfold Walk.proceed at hs
    split at hs
    case h_1 hstage =>
      have hnot : ¬Stopped w.stage := by rw [hstage]; exact id
      split at hs
      · next hpull =>
        cases hs
        have hgo : ¬BreaksAtWait w := by
          rintro ⟨hcancel, -⟩
          simp [hcancel] at hpull
        have hpulled : ¬Stopped w.pull.stage := by
          unfold Walk.pull
          split
          · exact hnot
          · split <;> simp [Stopped, hstage]
          · simp [Stopped, hstage]
          · split <;> simp [Stopped, hstage]
        exact iff_of_true (fun hstop => absurd hstop hpulled) ⟨fun hstop => absurd hstop hnot, fun _ hb => absurd hb hgo⟩
      · split at hs
        · next hinflight =>
          cases hs
          have hbreaks : BreaksAtWait w ↔ w.cancelRequested = true := and_iff_left (.inr ⟨hstage, hinflight⟩)
          rw [hbreaks, and_iff_right fun hstop => absurd hstop hnot, forall_prop_of_true rfl]
          exact imp_congr Iff.rfl (hQ w _ ⟨rfl, rfl, rfl⟩)
        · next hinflight =>
          cases hs
          have hgo : ¬BreaksAtWait w := by
            rintro ⟨-, hdraining | ⟨-, hempty⟩⟩
            · rw [hstage] at hdraining
              cases hdraining
            · exact hinflight hempty
          exact iff_of_true (fun hstop => hstop.elim) ⟨fun hstop => absurd hstop hnot, fun _ hb => absurd hb hgo⟩
    case h_2 hstage =>
      have hnot : ¬Stopped w.stage := by rw [hstage]; exact id
      split at hs
      · next hcancel =>
        cases hs
        have hbreaks : BreaksAtWait w := ⟨hcancel, .inl hstage⟩
        have hsame := hQ w { w with stage := .broken true false } ⟨rfl, rfl, rfl⟩
        rw [and_iff_right fun hstop => absurd hstop hnot]
        exact ⟨fun hq _ _ => hsame.mp (hq rfl), fun hq _ => hsame.mpr (hq rfl hbreaks)⟩
      · next hcancel =>
        have hgo : ¬BreaksAtWait w := fun hb => hcancel hb.1
        have hnext : ¬Stopped w'.stage := by
          split at hs
          · cases hs
            exact id
          · cases hs
            unfold Walk.drain
            dsimp only
            split <;> exact id
        exact iff_of_true (fun hstop => absurd hstop hnext) ⟨fun hstop => absurd hstop hnot, fun _ hb => absurd hb hgo⟩
    case h_3 hstage =>
      have hnot : ¬Stopped w.stage := by rw [hstage]; exact id
      cases hs
      have hgo : ¬BreaksAtWait w := by
        rintro ⟨-, hdraining | ⟨hfilling, -⟩⟩
        · rw [hstage] at hdraining
          cases hdraining
        · rw [hstage] at hfilling
          cases hfilling
      refine iff_of_true (fun _ => hflush w _ h hstage ?_) ⟨fun hstop => absurd hstop hnot, fun _ hb => absurd hb hgo⟩
      unfold Walk.flush
      dsimp only
      split
      · exact ⟨rfl, rfl, rfl⟩
      · split <;> exact ⟨rfl, rfl, rfl⟩
    case h_4 cancelled stoppedByMax hstage =>
      cases hs
      have hgo : ¬BreaksAtWait w := by
        rintro ⟨-, hdraining | ⟨hfilling, -⟩⟩
        · rw [hstage] at hdraining
          cases hdraining
        · rw [hstage] at hfilling
          cases hfilling
      rw [and_iff_left fun _ hb => absurd hb hgo, hstage]
      unfold Walk.finish
      cases cancelled with
      | false =>
        refine iff_of_true (fun hstop => ?_) fun hstop => ?_
        · split at hstop <;> cases hstop
        · cases hstop
      | true =>
        refine imp_congr ?_ (hQ w _ ?_)
        · split <;> exact Iff.rfl
        · split <;> exact ⟨rfl, rfl, rfl⟩
    case h_5 => cases hs
    case h_6 => cases hs
    case h_7 => cases hs

theorem resume_step (w : Walk) (a : Action) (w' : Walk) (hs : w.step cfg a = some w') : w'.resume = w.resume := by
  cases a with
  | cancel =>
    cases hs
    rfl
  | proceed =>
    change w.proceed cfg = some w' at hs
    unfold Walk.proceed at hs
    split at hs
    · split at hs
      · cases hs
        unfold Walk.pull
        split
        · rfl
        · split <;> rfl
        · rfl
        · split <;> rfl
      · split at hs <;> obtain rfl := Option.some.inj hs <;> rfl
    · split at hs
      · cases hs
        rfl
      · split at hs <;> obtain rfl := Option.some.inj hs <;> rfl
    · cases hs
      unfold Walk.flush
      dsimp only
      split
      · rfl
      · split <;> rfl
    · cases hs
      unfold Walk.finish
      dsimp only
      split
      · split <;> rfl
      · rfl
    · cases hs
    · cases hs
    · cases hs

structure Reports (tree : Tree) (resumeFrom : Option String) (r : Run) (w : Walk) : Prop where
  inv : Inv (tree.remaining resumeFrom) w
  resume : w.resume = resumeFrom.filter (· ≠ "")
  returned : ∃ cancelled exhausted, w.stage = .returned cancelled exhausted
  wholeBatch : (Stopped w.stage → w.batch = []) ↔
    Along (Walk.step r.cfg) WholeBatch (.start r.cfg tree.entries resumeFrom) r.actions
  ownCursor : (Stopped w.stage → w.lastPath = none → w.resume = none) ↔
    Along (Walk.step r.cfg) OwnCursor (.start r.cfg tree.entries resumeFrom) r.actions

variable {resumeFrom : Option String} {r : Run}

theorem reports (h : r.report tree resumeFrom = some w) : Reports tree resumeFrom r w := by
  obtain ⟨hrun, hstage⟩ := Option.filter_eq_some_iff.mp h
  have hstart := inv_start r.cfg tree resumeFrom
  have hnot : ¬Stopped (Walk.start r.cfg tree.entries resumeFrom).stage := id
  refine ⟨exec_invariant inv_step hstart hrun, ?_, ?_, ?_, ?_⟩
  · have hkeeps : ∀ (u : Walk) (a : Action) (u' : Walk), u.resume = resumeFrom.filter (· ≠ "") →
        u.step r.cfg a = some u' → u'.resume = resumeFrom.filter (· ≠ "") := fun u a u' hu hs =>
      (resume_step u a u' hs).trans hu
    exact exec_invariant (I := fun u : Walk => u.resume = resumeFrom.filter (· ≠ "")) hkeeps rfl hrun
  · split at hstage
    · next cancelled exhausted hreturned => exact ⟨cancelled, exhausted, hreturned⟩
    · cases hstage
  · have hstep : ∀ (u : Walk) (a : Action) (u' : Walk), Inv (tree.remaining resumeFrom) u → u.step r.cfg a = some u' →
        ((Stopped u'.stage → u'.batch = []) ↔ (Stopped u.stage → u.batch = []) ∧ WholeBatch u a) := by
      intro u a u' hu hs
      rw [stopped_step (Q := fun u => u.batch = []) (fun _ _ hsame => by rw [hsame.1])
        (fun _ _ _ _ hsame => by rw [hsame.1]; rfl) u a u' hu hs]
      refine and_congr_right fun _ => ?_
      cases a with
      | cancel => exact iff_of_true (by simp) trivial
      | proceed => exact ⟨fun hq => hq rfl, fun hq _ => hq⟩
    rw [last_iff_along_of_invariant inv_step hstep hstart hrun]
    exact and_iff_right fun hstop => absurd hstop hnot
  · have hstep : ∀ (u : Walk) (a : Action) (u' : Walk), Inv (tree.remaining resumeFrom) u → u.step r.cfg a = some u' →
        ((Stopped u'.stage → u'.lastPath = none → u'.resume = none) ↔
          (Stopped u.stage → u.lastPath = none → u.resume = none) ∧ OwnCursor u a) := by
      intro u a u' hu hs
      rw [stopped_step (Q := fun u => u.lastPath = none → u.resume = none)
        (fun _ _ hsame => by rw [hsame.2.1, hsame.2.2])
        (fun v _ hv hflushing hsame hnone => absurd (show v.lastPath = none from hsame.2.1.symm.trans hnone)
          (lastPath_ne_none hv (hv.flushing hflushing)))
        u a u' hu hs]
      refine and_congr_right fun _ => ?_
      cases a with
      | cancel => exact iff_of_true (by simp) trivial
      | proceed => exact ⟨fun hq => hq rfl, fun hq _ => hq⟩
    rw [last_iff_along_of_invariant inv_step hstep hstart hrun]
    exact and_iff_right fun hstop => absurd hstop hnot

theorem Reports.stopped_of_batch (h : Reports tree resumeFrom r w)
    (hbatch : w.batch ≠ []) : Stopped w.stage := by
  obtain ⟨cancelled, exhausted, hstage⟩ := h.returned
  obtain ⟨-, hyes, hno⟩ := h.inv.returned cancelled exhausted hstage
  rw [hstage]
  cases cancelled with
  | true => rfl
  | false =>
    cases exhausted with
    | true => exact absurd (hyes rfl).2.1 hbatch
    | false => exact absurd (hno rfl rfl).1 hbatch

/-- **A run counts what it emitted exactly when it does not break at a wait with a batch.** -/
theorem Reports.count_iff (h : Reports tree resumeFrom r w) :
    w.total = w.items.length ↔ Along (Walk.step r.cfg) WholeBatch (.start r.cfg tree.entries resumeFrom) r.actions := by
  have hcount : w.total = w.items.length ↔ w.batch = [] := by
    rw [h.inv.total, List.length_append]
    constructor
    · exact fun heq => List.length_eq_zero_iff.mp (by omega)
    · rintro hempty
      rw [hempty]
      rfl
  rw [hcount, ← h.wholeBatch]
  constructor
  · exact fun hempty _ => hempty
  · intro hwhole
    by_contra hne
    exact hne (hwhole (h.stopped_of_batch hne))

/-! ## Campaigns -/

theorem campaign_cons {rs : List Run} {ws : List Walk}
    (h : campaign tree resumeFrom (r :: rs) = some ws) : ∃ w, r.report tree resumeFrom = some w ∧
      (w.stage = .returned false true ∧ rs = [] ∧ ws = [w] ∨
        w.stage ≠ .returned false true ∧ ∃ ws', campaign tree w.lastPath rs = some ws' ∧ ws = w :: ws') := by
  cases rs with
  | nil =>
    rw [campaign] at h
    obtain ⟨w, hw, h⟩ := Option.bind_eq_some_iff.mp h
    split at h
    · next hend => exact ⟨w, hw, .inl ⟨hend, rfl, (Option.some.inj h).symm⟩⟩
    · cases h
  | cons r' rs =>
    rw [campaign] at h
    · obtain ⟨w, hw, h⟩ := Option.bind_eq_some_iff.mp h
      split at h
      · cases h
      · next hgo =>
        obtain ⟨ws', hws', h⟩ := Option.bind_eq_some_iff.mp h
        exact ⟨w, hw, .inr ⟨hgo, ws', hws', (Option.some.inj h).symm⟩⟩
    · simp

/-- Where no batch is kept back, a campaign from behind `before` on emits at least the other files, and exactly these
when every run hands a cursor on. -/
theorem campaign_rest : ∀ {runs : List Run} {before rest : List String} {ws : List Walk},
    tree.files = before ++ rest → campaign tree before.getLast? runs = some ws → (∀ w ∈ ws, w.batch = []) →
      rest.length ≤ (ws.flatMap Walk.items).length ∧
        (ws.flatMap Walk.items = rest ↔ Each tree OwnCursor before.getLast? runs)
  | [], _, _, _, _, h, _ => by cases h
  | r :: rs, before, rest, ws, hfiles, h, hbatch => by
    obtain ⟨hremaining, hfilter⟩ := remaining_last hfiles
    obtain ⟨w, hw, hcase⟩ := campaign_cons h
    have hr := reports hw
    have heach : Each tree OwnCursor before.getLast? (r :: rs) ↔
        (Stopped w.stage → w.lastPath = none → w.resume = none) ∧ Each tree OwnCursor w.lastPath rs := by
      rw [Each, ← hr.ownCursor]
      refine and_congr_right fun _ => ⟨fun hall => hall w hw, fun hnext w' hw' => ?_⟩
      rwa [← Option.some.inj (hw.symm.trans hw')]
    rcases hcase with ⟨hend, rfl, rfl⟩ | ⟨hgo, ws', hws', rfl⟩
    · -- The last run has emitted all that was left.
      obtain ⟨-, hyes, -⟩ := hr.inv.returned false true hend
      have hitems : w.items = rest := (hyes rfl).2.2.trans hremaining
      have hnot : ¬Stopped w.stage := by
        rw [hend]
        exact Bool.false_ne_true
      rw [List.flatMap_singleton, hitems, heach]
      exact ⟨Nat.le_refl _, iff_of_true rfl ⟨fun hstop => absurd hstop hnot, trivial⟩⟩
    · have hempty : w.batch = [] := hbatch w List.mem_cons_self
      have hothers : ∀ w ∈ ws', w.batch = [] := fun w' hw' => hbatch w' (List.mem_cons_of_mem _ hw')
      obtain ⟨cancelled, exhausted, hstage⟩ := hr.returned
      obtain ⟨hpassed, hyes, hno⟩ := hr.inv.returned cancelled exhausted hstage
      have hsplit := hr.inv.passed hpassed
      have hlast := hr.inv.lastPath
      rw [hremaining, hempty, List.append_nil, List.append_assoc] at hsplit
      rw [hempty, List.append_nil] at hlast
      rw [List.flatMap_cons, List.length_append, heach]
      by_cases hitems : w.items = []
      · -- Nothing was emitted: the next run starts from the front.
        rw [hitems] at hlast
        have hfiles' : tree.files = [] ++ tree.files := rfl
        have hws : campaign tree ([] : List String).getLast? rs = some ws' := hlast ▸ hws'
        obtain ⟨hlength, hiff⟩ := campaign_rest hfiles' hws hothers
        have hstop : Stopped w.stage := by
          rw [hstage]
          cases cancelled with
          | true => rfl
          | false =>
            cases exhausted with
            | true => exact absurd hstage hgo
            | false => exact absurd hlast (hno rfl rfl).2
        have hcount : tree.files.length = before.length + rest.length := by rw [hfiles, List.length_append]
        refine ⟨by omega, ?_⟩
        rw [hitems, List.nil_append, hr.resume, hfilter, hlast]
        by_cases hfront : before = []
        · have hrest : rest = tree.files := by rw [hfiles, hfront]; rfl
          rw [hrest, hiff, hfront]
          exact ⟨fun heq => ⟨fun _ _ => rfl, heq⟩, fun heq => heq.2⟩
        · have hpos : 0 < before.length := List.length_pos_of_ne_nil hfront
          refine iff_of_false (fun heq => ?_) fun heq => ?_
          · have := congrArg List.length heq
            omega
          · exact hfront (List.getLast?_eq_none_iff.mp (heq.1 hstop rfl))
      · have hne : w.lastPath ≠ none := by
          rw [hlast, getLast?_ne_none]
          exact hitems
        have hfiles' : tree.files = (before ++ w.items) ++ (w.inflight ++ filesOf w.lister) := by
          rw [hfiles, ← hsplit, List.append_assoc]
        have hcursor : w.lastPath = (before ++ w.items).getLast? := by
          rw [hlast, List.getLast?_append_of_ne_nil _ hitems]
        obtain ⟨hlength, hiff⟩ := campaign_rest hfiles' (hcursor ▸ hws') hothers
        have hcount := congrArg List.length hsplit
        rw [List.length_append] at hcount
        refine ⟨by omega, ?_⟩
        rw [← hsplit, List.append_right_inj, hiff, hcursor]
        exact ⟨fun heq => ⟨fun _ hnone => absurd (hcursor.trans hnone) hne, heq⟩, fun heq => heq.2⟩

/-- The runs of a campaign count what they emitted exactly when none breaks at a wait with a batch. -/
theorem campaign_counts : ∀ {runs : List Run} {resumeFrom : Option String} {ws : List Walk},
    campaign tree resumeFrom runs = some ws →
      ((∀ w ∈ ws, w.total = w.items.length) ↔ Each tree WholeBatch resumeFrom runs)
  | [], _, _, h => by cases h
  | r :: rs, resumeFrom, ws, h => by
    obtain ⟨w, hw, hcase⟩ := campaign_cons h
    have heach : Each tree WholeBatch resumeFrom (r :: rs) ↔
        w.total = w.items.length ∧ Each tree WholeBatch w.lastPath rs := by
      rw [Each, ← (reports hw).count_iff]
      refine and_congr_right fun _ => ⟨fun hall => hall w hw, fun hnext w' hw' => ?_⟩
      rwa [← Option.some.inj (hw.symm.trans hw')]
    rw [heach]
    rcases hcase with ⟨-, rfl, rfl⟩ | ⟨-, ws', hws', rfl⟩
    · rw [List.forall_mem_singleton]
      exact (and_iff_left trivial).symm
    · rw [List.forall_mem_cons, campaign_counts hws']

theorem campaign_whole : ∀ {runs : List Run} {resumeFrom : Option String} {ws : List Walk},
    campaign tree resumeFrom runs = some ws → (∀ w ∈ ws, w.total = w.items.length) → ∀ w ∈ ws, w.batch = []
  | [], _, _, h, _ => by cases h
  | r :: rs, resumeFrom, ws, h, hcounts => by
    obtain ⟨w, hw, hcase⟩ := campaign_cons h
    have hown : w.total = w.items.length → w.batch = [] := by
      intro heq
      rw [(reports hw).inv.total, List.length_append] at heq
      exact List.length_eq_zero_iff.mp (by omega)
    rcases hcase with ⟨-, rfl, rfl⟩ | ⟨-, ws', hws', rfl⟩
    · rw [List.forall_mem_singleton] at hcounts ⊢
      exact hown hcounts
    · rw [List.forall_mem_cons] at hcounts ⊢
      exact ⟨hown hcounts.1, campaign_whole hws' hcounts.2⟩

theorem each_and_iff {cond cond' : Walk → Action → Prop} : ∀ {runs : List Run} {resumeFrom : Option String},
    Each tree (fun w a => cond w a ∧ cond' w a) resumeFrom runs ↔
      Each tree cond resumeFrom runs ∧ Each tree cond' resumeFrom runs
  | [], _ => (and_self_iff).symm
  | r :: rs, resumeFrom => by
    simp only [Each, along_and_iff, @each_and_iff cond cond' rs]
    constructor
    · exact fun ⟨⟨h, h'⟩, hnext⟩ => ⟨⟨h, fun w hw => (hnext w hw).1⟩, h', fun w hw => (hnext w hw).2⟩
    · exact fun ⟨⟨h, hnext⟩, h', hnext'⟩ => ⟨⟨h, h'⟩, fun w hw => ⟨hnext w hw, hnext' w hw⟩⟩

/-- **A campaign that is carried to its end has emitted every file once, in the order of the listing, with every run
counting what it emitted, exactly when no run breaks at a wait with a partly filled batch or, resumed, before its
first file.** -/
theorem crawl_emits_once_iff (tree : Tree) :
    (∀ (resumeFrom : Option String) (r : Run) (w : Walk), r.report tree resumeFrom = some w → (w.total = w.items.length ↔
      Along (Walk.step r.cfg) WholeBatch (.start r.cfg tree.entries resumeFrom) r.actions)) ∧
    ∀ runs ws, campaign tree none runs = some ws →
      ((ws.flatMap Walk.items = tree.files ∧ ∀ w ∈ ws, w.total = w.items.length) ↔
        Each tree (fun w a => WholeBatch w a ∧ OwnCursor w a) none runs) := by
  refine ⟨fun resumeFrom r w hw => (reports hw).count_iff, fun runs ws h => ?_⟩
  have hfiles : tree.files = [] ++ tree.files := rfl
  rw [each_and_iff, ← campaign_counts h]
  constructor
  · rintro ⟨hitems, hcounts⟩
    exact ⟨hcounts, ((campaign_rest hfiles h (campaign_whole h hcounts)).2.mp hitems)⟩
  · rintro ⟨hcounts, howns⟩
    exact ⟨(campaign_rest hfiles h (campaign_whole h hcounts)).2.mpr howns, hcounts⟩

/-- **What a run has emitted and gathered is always a prefix of the files behind its cursor**, and counted. -/
theorem gathers_in_order (cfg : CrawlConfig) (tree : Tree) (resumeFrom : Option String) (as : List Action) :
    Throughout (Walk.step cfg) (fun w => w.items ++ w.batch <+: tree.remaining resumeFrom ∧
      w.total = (w.items ++ w.batch).length ∧ w.lastPath = (w.items ++ w.batch).getLast?)
      (.start cfg tree.entries resumeFrom) as := by
  refine throughout_of_invariant inv_step (fun w h => ⟨?_, h.total, h.lastPath⟩) as (inv_start cfg tree resumeFrom)
  cases hpassed : w.resumePassed with
  | true =>
    rw [← h.passed hpassed, List.append_assoc _ w.inflight]
    exact List.prefix_append ..
  | false =>
    obtain ⟨hitems, hbatch, -⟩ := h.skipping hpassed
    rw [hitems, hbatch]
    exact List.nil_prefix

/-! ## Three files -/

def threeFiles : Tree where
  entries := [.directory "d/", .file "d/a", .file "d/b", .file "d/c"]
  nodup := by decide
  named := by decide

def twoABatch : CrawlConfig := ⟨2, none, 1, false⟩

/-- Lists, probes and drains the next file. -/
def oneFile : List Action := [.proceed, .proceed, .proceed]

/-- A cancellation comes after the first file; the next run goes on behind it. -/
def cancelledRuns : List Run :=
  [⟨twoABatch, [.proceed] ++ oneFile ++ [.cancel, .proceed, .proceed]⟩,
    ⟨twoABatch, [.proceed, .proceed] ++ oneFile ++ oneFile ++ [.proceed, .proceed, .proceed, .proceed]⟩]

/-- **A cancellation inside a batch loses its files**: the next run goes on behind them. -/
theorem first_file_lost : ¬∀ (tree : Tree) (runs : List Run) (ws : List Walk), campaign tree none runs = some ws →
    ws.flatMap Walk.items = tree.files ∧ ∀ w ∈ ws, w.total = w.items.length := by
  intro h
  have hruns : (campaign threeFiles none cancelledRuns).map (·.flatMap Walk.items) = some ["d/b", "d/c"] := by decide
  obtain ⟨ws, hws, hitems⟩ := Option.map_eq_some_iff.mp hruns
  have hall := (h threeFiles cancelledRuns ws hws).1
  rw [hitems] at hall
  exact absurd hall (by decide)

/-- Stopped at its first batch and resumed. -/
def chunkedRuns : List Run :=
  [⟨{ twoABatch with maxBatches := some 1 }, [.proceed] ++ oneFile ++ oneFile ++ [.proceed, .proceed]⟩,
    ⟨twoABatch, [.proceed, .proceed, .proceed] ++ oneFile ++ [.proceed, .proceed, .proceed]⟩]

theorem crawl_emits_once_iff_chunked : ∃ ws, campaign threeFiles none chunkedRuns = some ws ∧
    ws.flatMap Walk.items = ["d/a", "d/b", "d/c"] ∧ ∀ w ∈ ws, w.total = w.items.length := by
  have hruns : (campaign threeFiles none chunkedRuns).isSome := by decide
  obtain ⟨ws, hws⟩ := Option.isSome_iff_exists.mp hruns
  exact ⟨ws, hws, ((crawl_emits_once_iff threeFiles).2 chunkedRuns ws hws).mpr (by decide)⟩

end Crawl

end Mekhan
