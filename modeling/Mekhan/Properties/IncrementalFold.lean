import Mekhan.Projections.NodeRollup
import Mekhan.Properties.ProjectionFold
import Mekhan.Properties.StepOutcomes

/-!
# The incremental fold of step executions

The consumer folds one event at a time, and after each event it runs the terminal passes on the state that it keeps:
rows are closed, and nodes without a row are skipped. Before the net ends the passes do nothing. The entry is dropped
when it ends, but an event after that makes a new one, and the next event is folded on closed rows.
-/

namespace Mekhan

namespace StepExecutions

open Infra Projections

/-! ## Rows -/

namespace StepExecutionRow

/-- The row of a node that was not reached. -/
def skippedRow (l : Lookups) (nodeId : String) : StepExecutionRow :=
  { opened nodeId 0 (l.kindOf nodeId) none with status := .skipped }

structure Ok (l : Lookups) (bound : Nat) (row : StepExecutionRow) : Prop where
  calm : row.isOpen → row.completedAt = none
  started : row.status = .pending → row.startedAt.isSome
  kind : row.nodeKind = l.kindOf row.nodeId
  bounded : row.lastSequence ≤ bound

/-- A row that was closed with an outcome at a time. -/
def closed (status : StepStatus) (ts : DateTime) (row : StepExecutionRow) : StepExecutionRow :=
  { row with status := status, completedAt := some ts }

variable {status : StepStatus} {ts : DateTime}

theorem close_of_open {row : StepExecutionRow} (h : row.isOpen)
    (hcalm : row.completedAt = none) : row.close status ts = row.closed status ts := by
  rw [close, if_pos h, hcalm]
  rfl

theorem close_of_not_open {row : StepExecutionRow} (h : ¬ row.isOpen) : row.close status ts = row := if_neg h

/-- A token that a firing produces, on a row that runs and on the same row as it was closed: the rows become equal,
or stay so, or the one completes where the other has failed. -/
inductive Beside (status : StepStatus) (ts : DateTime) (row : StepExecutionRow) : StepExecutionRow → Prop
  | same : Beside status ts row row
  | running : row.status = .running → row.completedAt = none → Beside status ts row (row.closed status ts)
  | missed : status = .failed → row.status = .completed → Beside status ts row (row.closed status ts)

namespace Beside

variable {status : StepStatus} {ts now : DateTime} {row other : StepExecutionRow}

theorem complete (h : Beside status ts row other) (hstatus : status = .failed ∨ status = .skipped)
    (u : StepExecutionRow → StepExecutionRow) (hu : ∀ row, u (row.closed status ts) = (u row).closed status ts)
    (hkeeps : ∀ row, (u row).status = row.status) :
    Beside status ts ((u row).complete now) ((u other).complete now) := by
  cases h with
  | same => exact .same
  | running hrunning hcalm =>
    rw [hu]
    rcases hstatus with rfl | rfl
    · have hleft : (u row).complete now = { u row with status := .completed, completedAt := some now } :=
        if_neg (by rw [hkeeps, hrunning]; decide)
      have hright : ((u row).closed .failed ts).complete now = (u row).closed .failed ts := if_pos rfl
      rw [hleft, hright]
      exact .missed rfl rfl
    · have hleft : (u row).complete now = { u row with status := .completed, completedAt := some now } :=
        if_neg (by rw [hkeeps, hrunning]; decide)
      have hright : ((u row).closed .skipped ts).complete now =
          { u row with status := .completed, completedAt := some now } := rfl
      rw [hleft, hright]
      exact .same
  | missed hfailed hcompleted =>
    subst hfailed
    rw [hu]
    have hleft : (u row).complete now = { u row with status := .completed, completedAt := some now } :=
      if_neg (by rw [hkeeps, hcompleted]; decide)
    have hright : ((u row).closed .failed ts).complete now = (u row).closed .failed ts := if_pos rfl
    rw [hleft, hright]
    exact .missed rfl rfl

theorem fail (h : Beside status ts row other) (error : Json) :
    Beside status ts (row.fail now error) (other.fail now error) := by
  cases h <;> exact .same

theorem captureOutput {l : Lookups} {owner : String} (h : Beside status ts row other)
    (hstatus : status = .failed ∨ status = .skipped) (e : PlaceId × Token) :
    Beside status ts (captureOutput l owner now row e) (captureOutput l owner now other e) := by
  have hdata : Beside status ts (captureDataPort l owner now row e) (captureDataPort l owner now other e) := by
    unfold captureDataPort
    split
    · exact h.complete hstatus (fun row => { row with
        executionId := (envelopeExecutionId (tokenColorToJson e.2.color)).or row.executionId
        outputs := some (canonicalOutputPayload (l.kindOf owner) (tokenColorToJson e.2.color)) })
        (fun _ => rfl) fun _ => rfl
    · exact h
  have hterminal : ∀ {row other}, Beside status ts row other →
      Beside status ts (captureTerminal l owner now row e) (captureTerminal l owner now other e) := by
    intro row other h
    unfold captureTerminal
    split
    · exact h.complete hstatus (fun row => { row with
        outputs := some (canonicalOutputPayload (l.kindOf owner) (tokenColorToJson e.2.color)) })
        (fun _ => rfl) fun _ => rfl
    · exact h
  have hbranch : ∀ {row other}, Beside status ts row other →
      Beside status ts (captureBranch l owner now row e) (captureBranch l owner now other e) := by
    intro row other h
    unfold captureBranch
    split
    · next key _ _ _ =>
      split
      · exact h.complete hstatus (fun row => { row with branchTaken := some key.text }) (fun _ => rfl) fun _ => rfl
      · split
        · exact h.fail _
        · exact h
    · exact h
  exact hbranch (hterminal hdata)

theorem foldl_captureOutput {l : Lookups} {owner : String} (hstatus : status = .failed ∨ status = .skipped) :
    ∀ (tokens : List (PlaceId × Token)) {row other : StepExecutionRow}, Beside status ts row other →
      Beside status ts (tokens.foldl (StepExecutionRow.captureOutput l owner now) row)
        (tokens.foldl (StepExecutionRow.captureOutput l owner now) other)
  | [], _, _, h => h
  | e :: tokens, _, _, h => foldl_captureOutput hstatus tokens (h.captureOutput hstatus e)

end Beside

variable {l : Lookups} {owner : String} {bound : Nat} {row : StepExecutionRow}

/-- An outcome that a terminal event closes rows with. -/
def Outcome (closeWith : Option (StepStatus × DateTime)) : Prop :=
  ∀ c ∈ closeWith, c.1 = .failed ∨ c.1 = .skipped

theorem settle_settle {closeWith : Option (StepStatus × DateTime)} (hc : Outcome closeWith) (row : StepExecutionRow) :
    (row.settle closeWith).settle closeWith = row.settle closeWith := by
  cases closeWith with
  | none => rfl
  | some c =>
    obtain ⟨status, ts⟩ := c
    show (row.close status ts).close status ts = row.close status ts
    by_cases hopen : row.isOpen
    · have hclosed : row.close status ts =
          { row with status := status, completedAt := some (row.completedAt.getD ts) } := if_pos hopen
      rw [hclosed]
      refine close_of_not_open ?_
      rcases hc _ rfl with hfailed | hskipped
      · obtain rfl : status = .failed := hfailed
        exact Bool.false_ne_true
      · obtain rfl : status = .skipped := hskipped
        exact Bool.false_ne_true
    · rw [close_of_not_open hopen, close_of_not_open hopen]

/-- The row of a firing before its tokens are looked at. -/
def entered (l : Lookups) (tokens read : List (PlaceId × Token)) (sequence : Nat) (ts : DateTime)
    (row : StepExecutionRow) : StepExecutionRow :=
  ({ row.start ts with lastSequence := sequence }.captureExecutionId tokens).captureInputs l read

theorem status_entered (tokens read : List (PlaceId × Token)) (sequence : Nat) (ts : DateTime)
    (row : StepExecutionRow) : (row.entered l tokens read sequence ts).status = (row.start ts).status := by
  unfold entered captureInputs captureExecutionId
  split <;> split <;> rfl

theorem completedAt_entered (tokens read : List (PlaceId × Token)) (sequence : Nat) (ts : DateTime)
    (row : StepExecutionRow) : (row.entered l tokens read sequence ts).completedAt = row.completedAt := by
  unfold entered captureInputs captureExecutionId start
  split <;> split <;> split <;> rfl

theorem start_of_open (h : row.isOpen) (ts : DateTime) : (row.start ts).status = .running := by
  unfold start
  split
  · rfl
  · next hpending =>
    unfold isOpen at h
    simpa [hpending] using h

theorem entered_closed (hok : row.Ok l bound) {status : StepStatus}
    (hstatus : status = .failed ∨ status = .skipped) (tokens read : List (PlaceId × Token)) (sequence : Nat)
    (now ts : DateTime) : (row.closed status ts).entered l tokens read sequence now =
      (row.entered l tokens read sequence now).closed status ts := by
  have hstart : (row.closed status ts).start now = (row.start now).closed status ts := by
    have hnot : (row.closed status ts).status ≠ .pending := by
      rcases hstatus with rfl | rfl <;> exact nofun
    have hstarted : (row.start now).startedAt = row.startedAt := by
      unfold start
      split
      · next hpending =>
        obtain ⟨t, ht⟩ := Option.isSome_iff_exists.mp (hok.started hpending)
        rw [ht]
        rfl
      · rfl
    rw [start, if_neg hnot]
    unfold start at hstarted ⊢
    split
    · next hpending =>
      rw [if_pos hpending] at hstarted
      unfold closed
      dsimp only at hstarted ⊢
      rw [hstarted]
    · rfl
  unfold entered
  rw [hstart]
  unfold captureInputs captureExecutionId closed
  dsimp only
  split <;> split <;> rfl

/-- **Folding a firing on a closed row, and closing the row afterwards, is folding it on the row as it was**, unless
the net failed and the firing completes the row. -/
theorem fire_settle (hok : row.Ok l bound) {closeWith : Option (StepStatus × DateTime)} (hc : Outcome closeWith)
    (produced read : List (PlaceId × Token)) (sequence : Nat) (now : DateTime)
    (hnot : closeWith.map (·.1) = some .failed → row.isOpen →
      (row.fire l owner produced read sequence now).status ≠ .completed) :
    (row.settle closeWith).fire l owner produced read sequence now = row.fire l owner produced read sequence now ∨
      (row.settle closeWith).fire l owner produced read sequence now =
        (row.fire l owner produced read sequence now).settle closeWith := by
  cases closeWith with
  | none => exact Or.inl rfl
  | some c =>
    obtain ⟨status, ts⟩ := c
    have hstatus : status = .failed ∨ status = .skipped := hc _ rfl
    show (row.close status ts).fire l owner produced read sequence now = row.fire l owner produced read sequence now ∨
      (row.close status ts).fire l owner produced read sequence now =
        (row.fire l owner produced read sequence now).close status ts
    by_cases hopen : row.isOpen
    · rw [close_of_open hopen (hok.calm hopen)]
      have hbeside : Beside status ts (row.entered l (produced ++ read) read sequence now)
          ((row.closed status ts).entered l (produced ++ read) read sequence now) := by
        rw [entered_closed hok hstatus]
        refine .running ?_ ?_
        · rw [status_entered, start_of_open hopen]
        · rw [completedAt_entered, hok.calm hopen]
      have hfolded : Beside status ts (row.fire l owner produced read sequence now)
          ((row.closed status ts).fire l owner produced read sequence now) :=
        hbeside.foldl_captureOutput hstatus produced
      generalize (row.closed status ts).fire l owner produced read sequence now = other at hfolded ⊢
      cases hfolded with
      | same => exact Or.inl rfl
      | running hrunning hcalm =>
        have hstill : (row.fire l owner produced read sequence now).isOpen := by
          unfold isOpen
          rw [hrunning]
          rfl
        exact Or.inr (close_of_open hstill hcalm).symm
      | missed hfailed hcompleted => exact absurd hcompleted (hnot (congrArg some hfailed) hopen)
    · rw [close_of_not_open hopen]
      exact Or.inl rfl

/-! What a row keeps. -/

/-- A row after it has captured something: it keeps its kind and its sequence, and it stays in order. -/
structure Later (row later : StepExecutionRow) : Prop where
  kind : later.nodeKind = row.nodeKind
  sequence : later.lastSequence = row.lastSequence
  calm : (row.isOpen → row.completedAt = none) → later.isOpen → later.completedAt = none
  entered : row.status ≠ .pending → later.status ≠ .pending

namespace Later

theorem refl (row : StepExecutionRow) : Later row row := ⟨rfl, rfl, id, id⟩

theorem trans {a b c : StepExecutionRow} (h : Later a b) (h' : Later b c) : Later a c where
  kind := h'.kind.trans h.kind
  sequence := h'.sequence.trans h.sequence
  calm ha := h'.calm (h.calm ha)
  entered ha := h'.entered (h.entered ha)

variable {now : DateTime}

theorem complete (h : Later row later) : Later row (later.complete now) := by
  unfold StepExecutionRow.complete
  split
  · exact h
  · exact ⟨h.kind, h.sequence, fun _ => nofun, fun _ => nofun⟩

theorem captureOutput (row : StepExecutionRow) (e : PlaceId × Token) :
    Later row (captureOutput l owner now row e) := by
  have hdata : Later row (captureDataPort l owner now row e) := by
    unfold captureDataPort
    split
    · exact complete ⟨rfl, rfl, id, id⟩
    · exact refl row
  have hterminal : ∀ row, Later row (captureTerminal l owner now row e) := by
    intro row
    unfold captureTerminal
    split
    · exact complete ⟨rfl, rfl, id, id⟩
    · exact refl row
  have hbranch : ∀ row, Later row (captureBranch l owner now row e) := by
    intro row
    unfold captureBranch
    split
    · split
      · exact complete ⟨rfl, rfl, id, id⟩
      · split
        · exact ⟨rfl, rfl, fun _ => nofun, fun _ => nofun⟩
        · exact refl row
    · exact refl row
  exact hdata.trans ((hterminal _).trans (hbranch _))

theorem foldl_captureOutput : ∀ (tokens : List (PlaceId × Token)) (row : StepExecutionRow),
    Later row (tokens.foldl (StepExecutionRow.captureOutput l owner now) row)
  | [], row => refl row
  | e :: tokens, row => (captureOutput row e).trans (foldl_captureOutput tokens _)

end Later

theorem sequence_entered (tokens read : List (PlaceId × Token)) (sequence : Nat) (ts : DateTime)
    (row : StepExecutionRow) : (row.entered l tokens read sequence ts).lastSequence = sequence := by
  unfold entered captureInputs captureExecutionId
  split <;> split <;> rfl

theorem kind_entered (tokens read : List (PlaceId × Token)) (sequence : Nat) (ts : DateTime)
    (row : StepExecutionRow) : (row.entered l tokens read sequence ts).nodeKind = row.nodeKind := by
  unfold entered captureInputs captureExecutionId start
  split <;> split <;> split <;> rfl

theorem ok_opened (nodeId : String) (iter : Nat) (ts : DateTime) (bound : Nat) :
    (opened nodeId iter (l.kindOf nodeId) (some ts)).Ok l bound :=
  ⟨fun _ => rfl, fun _ => rfl, rfl, Nat.zero_le _⟩

theorem Ok.addInbound (h : row.Ok l bound) (producer : String) (payload : Json) :
    (row.addInbound producer payload).Ok l bound := ⟨h.calm, h.started, h.kind, h.bounded⟩

theorem lastSequence_fire (produced read : List (PlaceId × Token)) (sequence : Nat) (ts : DateTime)
    (row : StepExecutionRow) : (row.fire l owner produced read sequence ts).lastSequence = sequence := by
  have hlater : Later (row.entered l (produced ++ read) read sequence ts)
      (row.fire l owner produced read sequence ts) := Later.foldl_captureOutput produced _
  exact hlater.sequence.trans (sequence_entered ..)

theorem ok_fire (hcalm : row.isOpen → row.completedAt = none) (hkind : row.nodeKind = l.kindOf row.nodeId)
    (produced read : List (PlaceId × Token)) (sequence : Nat) (ts : DateTime) :
    (row.fire l owner produced read sequence ts).Ok l sequence := by
  have hlater : Later (row.entered l (produced ++ read) read sequence ts)
      (row.fire l owner produced read sequence ts) := Later.foldl_captureOutput produced _
  have hentered : (row.start ts).status ≠ .pending := by
    unfold start
    split
    · exact nofun
    · assumption
  have hnode : (row.fire l owner produced read sequence ts).nodeId = row.nodeId :=
    congrArg (·.1) (key_fire l owner produced read sequence ts row)
  constructor
  case calm =>
    refine hlater.calm fun hopen => ?_
    rw [completedAt_entered]
    refine hcalm ?_
    -- a row that does not start has the status that it had
    unfold isOpen at hopen ⊢
    rw [status_entered] at hopen
    unfold start at hopen
    split at hopen
    · next hpending => simp [hpending]
    · exact hopen
  case started =>
    intro hpending
    refine absurd hpending (hlater.entered ?_)
    rwa [status_entered]
  case kind => rw [hlater.kind, kind_entered, hnode, hkind]
  case bounded => rw [lastSequence_fire]

theorem ok_failure (hkind : row.nodeKind = l.kindOf row.nodeId) (payload : Json) (sequence : Nat) (ts : DateTime) :
    (row.failure payload sequence ts).Ok l sequence := ⟨nofun, nofun, hkind, le_rfl⟩

end StepExecutionRow

/-! ## What an event does to the rows -/

namespace State

/-- Some iteration of the node has a row. -/
def HasRow (s : State) (nodeId : String) : Prop := ∃ iter, (s.rows.get? (nodeId, iter)).isSome

theorem hasRow_of_get? {s : State} {key : String × Nat} {row : StepExecutionRow} (h : s.rows.get? key = some row) :
    s.HasRow key.1 := ⟨key.2, by rw [h]; rfl⟩

def marks (s : State) : MapOf String Nat × MapOf String Nat × MapOf String (List TokenId) × Bool ×
    Option (StepStatus × DateTime) :=
  (s.nextIter, s.activeIter, s.seenEntryTokens, s.terminated, s.closeWith)

@[simp] theorem marks_touch (s : State) (key : String × Nat) : (s.touch key).marks = s.marks := rfl

@[simp] theorem marks_openRow (s : State) (row : StepExecutionRow) : (s.openRow row).marks = s.marks := by
  unfold openRow
  split <;> rfl

@[simp] theorem marks_updateRow (s : State) (key : String × Nat) (f : StepExecutionRow → StepExecutionRow) :
    (s.updateRow key f).marks = s.marks := by
  unfold updateRow
  split <;> rfl

end State

/-- One row is changed, or made and changed. -/
structure Edit (s s' : State) (key : String × Nat) (init : StepExecutionRow)
    (g : StepExecutionRow → StepExecutionRow) : Prop where
  rows : ∀ k, s'.rows.get? k = if k = key then some (g ((s.rows.get? key).getD init)) else s.rows.get? k
  dirty : ∀ k, k = key ∨ k ∈ s.dirty → k ∈ s'.dirty
  ends : SameEnd s s'
  next : ∀ n, n ≠ key.1 → s'.nextIter.lookup n = s.nextIter.lookup n
  active : ∀ n, n ≠ key.1 → s'.activeIter.lookup n = s.activeIter.lookup n

section

variable {l : Lookups} {s : State}

theorem get?_openRow (s : State) (row : StepExecutionRow) (k : String × Nat) :
    (s.openRow row).rows.get? k = if k = row.key then some ((s.rows.get? row.key).getD row) else s.rows.get? k := by
  unfold State.openRow
  split
  · next old hold =>
    rw [hold]
    split
    · next hk => rw [hk, hold]; rfl
    · rfl
  · next hnone =>
    rw [hnone]
    exact KeyedList.get?_insert ..

theorem get?_updateRow (s : State) {key : String × Nat} {f : StepExecutionRow → StepExecutionRow}
    (hf : ∀ row, (f row).key = row.key) (k : String × Nat) :
    (s.updateRow key f).rows.get? k = if k = key then (s.rows.get? key).map f else s.rows.get? k := by
  unfold State.updateRow
  split
  · next row hrow =>
    rw [KeyedList.get?_insert, hf, KeyedList.key_of_get? hrow, hrow]
    rfl
  · next hnone =>
    rw [hnone]
    split
    · next hk => rw [hk, hnone]; rfl
    · rfl

theorem dirty_openRow (s : State) (row : StepExecutionRow) : (s.openRow row).dirty = s.dirty := by
  unfold State.openRow
  split <;> rfl

theorem dirty_updateRow (s : State) (key : String × Nat) (f : StepExecutionRow → StepExecutionRow) :
    (s.updateRow key f).dirty = s.dirty := by
  unfold State.updateRow
  split <;> rfl

theorem mem_dirty_touch {s : State} {key k : String × Nat} (h : k = key ∨ k ∈ s.dirty) : k ∈ (s.touch key).dirty :=
  List.mem_insert_iff.mpr h

theorem edit_arrival {place : PlaceId} {token : Token} {nodeId : String} (ts : DateTime)
    (hentry : l.entryToNode.lookup place.name = some nodeId) (hnew : token.id ∉ s.seen nodeId) :
    Edit s (s.noteEntryArrival l place token ts) (nodeId, s.nextOf nodeId)
      (.opened nodeId (s.nextOf nodeId) (l.kindOf nodeId) (some ts)) id := by
  have hends : SameEnd s (s.noteEntryArrival l place token ts) := .noteEntryArrival ..
  unfold State.noteEntryArrival at hends ⊢
  rw [hentry] at hends ⊢
  dsimp only at hends ⊢
  rw [if_neg hnew] at hends ⊢
  refine ⟨fun k => ?_, fun k hk => ?_, hends, fun n hn => ?_, fun n hn => ?_⟩
  · exact get?_openRow ..
  · rw [dirty_openRow]
    exact mem_dirty_touch hk
  · have hmarks := congrArg (·.1) (State.marks_openRow (State.touch { s with
        seenEntryTokens := s.seenEntryTokens.insert nodeId (token.id :: s.seen nodeId)
        nextIter := s.nextIter.insert nodeId (s.nextOf nodeId + 1)
        activeIter := s.activeIter.insert nodeId (s.nextOf nodeId) } (nodeId, s.nextOf nodeId))
      (.opened nodeId (s.nextOf nodeId) (l.kindOf nodeId) (some ts)))
    exact (congrArg (Finmap.lookup n) hmarks).trans (Finmap.lookup_insert_of_ne _ hn)
  · have hmarks := congrArg (·.2.1) (State.marks_openRow (State.touch { s with
        seenEntryTokens := s.seenEntryTokens.insert nodeId (token.id :: s.seen nodeId)
        nextIter := s.nextIter.insert nodeId (s.nextOf nodeId + 1)
        activeIter := s.activeIter.insert nodeId (s.nextOf nodeId) } (nodeId, s.nextOf nodeId))
      (.opened nodeId (s.nextOf nodeId) (l.kindOf nodeId) (some ts)))
    exact (congrArg (Finmap.lookup n) hmarks).trans (Finmap.lookup_insert_of_ne _ hn)

theorem edit_updateRow {key : String × Nat} {row : StepExecutionRow} {f : StepExecutionRow → StepExecutionRow}
    (hf : ∀ row, (f row).key = row.key) (hrow : s.rows.get? key = some row) :
    Edit s ((s.touch key).updateRow key f) key row f := by
  refine ⟨fun k => ?_, fun k hk => ?_, (SameEnd.touch ..).trans (.updateRow ..), fun n _ => ?_, fun n _ => ?_⟩
  · rw [get?_updateRow _ hf]
    show (if k = key then (s.rows.get? key).map f else s.rows.get? k) = _
    rw [hrow]
    rfl
  · rw [dirty_updateRow]
    exact mem_dirty_touch hk
  · rw [show ((s.touch key).updateRow key f).nextIter = s.nextIter from
      congrArg (·.1) (State.marks_updateRow (s.touch key) key f)]
  · rw [show ((s.touch key).updateRow key f).activeIter = s.activeIter from
      congrArg (·.2.1) (State.marks_updateRow (s.touch key) key f)]

theorem edit_fire (owner : String) (produced read : List (PlaceId × Token)) (sequence : Nat) (ts : DateTime) :
    Edit s (((s.openImplicitly l owner (s.iterOf owner)).touch (owner, s.iterOf owner)).updateRow
        (owner, s.iterOf owner) (.fire l owner produced read sequence ts))
      (owner, s.iterOf owner) (.opened owner (s.iterOf owner) (l.kindOf owner) none)
      (.fire l owner produced read sequence ts) := by
  have hf := StepExecutionRow.key_fire l owner produced read sequence ts
  have hopened : ∀ k, (s.openImplicitly l owner (s.iterOf owner)).rows.get? k =
      if k = (owner, s.iterOf owner) then
        some ((s.rows.get? (owner, s.iterOf owner)).getD (.opened owner (s.iterOf owner) (l.kindOf owner) none))
      else s.rows.get? k := by
    intro k
    unfold State.openImplicitly
    split
    · next old hold =>
      rw [hold]
      split
      · next hk => rw [hk, hold]; rfl
      · rfl
    · next hnone =>
      rw [hnone]
      exact KeyedList.get?_insert ..
  have hdirty : (s.openImplicitly l owner (s.iterOf owner)).dirty = s.dirty := by
    unfold State.openImplicitly
    split <;> rfl
  have hother : ∀ n, n ≠ owner →
      (s.openImplicitly l owner (s.iterOf owner)).nextIter.lookup n = s.nextIter.lookup n ∧
        (s.openImplicitly l owner (s.iterOf owner)).activeIter.lookup n = s.activeIter.lookup n := by
    intro n hn
    have hsame : SameNode n s (s.openImplicitly l owner (s.iterOf owner)) := .openImplicitly (Ne.symm hn)
    exact ⟨hsame.next, hsame.active⟩
  have hedit := edit_updateRow (s := s.openImplicitly l owner (s.iterOf owner)) hf
    ((hopened (owner, s.iterOf owner)).trans (if_pos rfl))
  refine ⟨fun k => ?_, fun k hk => hedit.dirty k (hdirty ▸ hk), ?_, fun n hn => ?_, fun n hn => ?_⟩
  · rw [hedit.rows, hopened, hopened, if_pos rfl]
    split <;> rfl
  · exact (SameEnd.openImplicitly ..).trans hedit.ends
  · exact (hedit.next n hn).trans (hother n hn).1
  · exact (hedit.active n hn).trans (hother n hn).2

theorem edit_failure (owner : String) (payload : Json) (sequence : Nat) (ts : DateTime) :
    Edit s (((s.touch (owner, s.iterOf owner)).openRow (.opened owner (s.iterOf owner) (l.kindOf owner) none)).updateRow
        (owner, s.iterOf owner) (.failure payload sequence ts))
      (owner, s.iterOf owner) (.opened owner (s.iterOf owner) (l.kindOf owner) none)
      (.failure payload sequence ts) := by
  have hmarks : (((s.touch (owner, s.iterOf owner)).openRow
      (.opened owner (s.iterOf owner) (l.kindOf owner) none)).updateRow
        (owner, s.iterOf owner) (.failure payload sequence ts)).marks = s.marks := by
    rw [State.marks_updateRow, State.marks_openRow, State.marks_touch]
  have hopened : ∀ k, ((s.touch (owner, s.iterOf owner)).openRow
      (.opened owner (s.iterOf owner) (l.kindOf owner) none)).rows.get? k =
        if k = (owner, s.iterOf owner) then
          some ((s.rows.get? (owner, s.iterOf owner)).getD (.opened owner (s.iterOf owner) (l.kindOf owner) none))
        else s.rows.get? k := fun k => get?_openRow ..
  refine ⟨fun k => ?_, fun k hk => ?_, ?_, fun n _ => ?_, fun n _ => ?_⟩
  · rw [get?_updateRow _ (StepExecutionRow.key_failure payload sequence ts), hopened, hopened, if_pos rfl]
    split <;> rfl
  · rw [dirty_updateRow, dirty_openRow]
    exact mem_dirty_touch hk
  · exact ((SameEnd.touch ..).trans (.openRow ..)).trans (.updateRow ..)
  · exact congrArg (Finmap.lookup n) (congrArg (·.1) hmarks)
  · exact congrArg (Finmap.lookup n) (congrArg (·.2.1) hmarks)

end

/-! ## What an event does -/

/-- What an event changes, one case for each handler. -/
inductive Change (l : Lookups) (sequence : Nat) (ts : DateTime) (s : State) : State → Prop
  | arrival (place : PlaceId) (token : Token) (nodeId : String)
      (hentry : l.entryToNode.lookup place.name = some nodeId) (hnew : token.id ∉ s.seen nodeId) :
      Change l sequence ts s (s.noteEntryArrival l place token ts)
  | inbound (key : String × Nat) (row : StepExecutionRow) (producer : String) (payload : Json)
      (hrow : s.rows.get? key = some row) :
      Change l sequence ts s ((s.touch key).updateRow key (·.addInbound producer payload))
  | fire (owner : String) (produced read : List (PlaceId × Token)) :
      Change l sequence ts s
        (((s.openImplicitly l owner (s.iterOf owner)).touch (owner, s.iterOf owner)).updateRow
          (owner, s.iterOf owner) (.fire l owner produced read sequence ts))
  | failure (owner : String) (payload : Json) :
      Change l sequence ts s
        (((s.touch (owner, s.iterOf owner)).openRow (.opened owner (s.iterOf owner) (l.kindOf owner) none)).updateRow
          (owner, s.iterOf owner) (.failure payload sequence ts))
  | terminate (status : StepStatus) (hstatus : status = .failed ∨ status = .skipped) :
      Change l sequence ts s (s.terminate status ts)

section

open Relation

variable (l : Lookups) (sequence : Nat) (ts : DateTime)

theorem arrival_changes (s : State) (place : PlaceId) (token : Token) :
    ReflTransGen (Change l sequence ts) s (s.noteEntryArrival l place token ts) := by
  cases hentry : l.entryToNode.lookup place.name with
  | none =>
    unfold State.noteEntryArrival
    rw [hentry]
  | some nodeId =>
    by_cases hseen : token.id ∈ s.seen nodeId
    · unfold State.noteEntryArrival
      rw [hentry]
      dsimp only
      rw [if_pos hseen]
    · exact .single (.arrival place token nodeId hentry hseen)

theorem inbound_changes (s : State) (place : PlaceId) (token : Token) (transitionId : TransitionId)
    (consumed : List (PlaceId × TokenId)) :
    ReflTransGen (Change l sequence ts) s (s.noteInboundAtEntry l place token transitionId consumed) := by
  unfold State.noteInboundAtEntry
  split
  · exact .refl
  · dsimp only
    split
    · exact .refl
    · next row hrow =>
      split
      · exact .refl
      · exact .single (.inbound _ row _ _ hrow)

theorem arrivals_changes (transitionId : TransitionId) (consumed : List (PlaceId × TokenId)) :
    ∀ (produced : List (PlaceId × Token)) (s : State),
      ReflTransGen (Change l sequence ts) s (s.noteArrivals l transitionId consumed produced ts)
  | [], _ => .refl
  | e :: produced, s => ((arrival_changes l sequence ts s e.1 e.2).trans
      (inbound_changes l sequence ts _ e.1 e.2 transitionId consumed)).trans
      (arrivals_changes transitionId consumed produced _)

theorem fire_changes (s : State) (transitionId : TransitionId) (consumed : List (PlaceId × TokenId))
    (produced read : List (PlaceId × Token)) :
    ReflTransGen (Change l sequence ts) s (s.handleFire l transitionId consumed produced read sequence ts) := by
  have harrivals := arrivals_changes l sequence ts transitionId consumed produced s
  unfold State.handleFire
  dsimp only
  split
  · exact harrivals
  · exact harrivals.tail (.fire _ produced read)

theorem failure_changes (s : State) (transitionId : TransitionId) (payload : Json) :
    ReflTransGen (Change l sequence ts) s (s.handleFailure l transitionId payload sequence ts) := by
  unfold State.handleFailure
  split
  · exact .refl
  · exact .single (.failure _ payload)

/-- **An event is a sequence of changes.** -/
theorem absorb_changes (s : State) (ev : PersistedEvent) :
    ReflTransGen (Change l ev.sequence ev.timestamp) s (s.absorb l ev) := by
  unfold State.absorb
  split
  · exact arrival_changes ..
  · exact fire_changes ..
  · exact fire_changes ..
  · exact failure_changes ..
  · exact .single (.terminate _ (Or.inl rfl))
  · exact .single (.terminate _ (Or.inr rfl))
  · exact .single (.terminate _ (Or.inr rfl))
  · exact .refl

end

/-! ## Folds -/

/-- What holds of the fold of a log, whose sequences are at most `bound`. -/
structure Sound (l : Lookups) (bound : Nat) (s : State) : Prop where
  rows : ∀ key row, s.rows.get? key = some row → row.Ok l bound
  rooted : ∀ nodeId, s.HasRow nodeId → (s.rows.get? (nodeId, 0)).isSome
  fresh : ∀ nodeId, ¬ s.HasRow nodeId → s.nextIter.lookup nodeId = none ∧ s.activeIter.lookup nodeId = none
  ended : s.terminated = s.closeWith.isSome
  outcome : StepExecutionRow.Outcome s.closeWith

section

variable {l : Lookups} {s s' : State} {bound bound' : Nat} {key : String × Nat} {init : StepExecutionRow}
  {g : StepExecutionRow → StepExecutionRow}

theorem Edit.hasRow_iff (e : Edit s s' key init g) (nodeId : String) :
    s'.HasRow nodeId ↔ nodeId = key.1 ∨ s.HasRow nodeId := by
  constructor
  · rintro ⟨iter, hrow⟩
    rw [e.rows] at hrow
    split at hrow
    · next hkey => exact Or.inl (congrArg (·.1) hkey)
    · exact Or.inr ⟨iter, hrow⟩
  · rintro (rfl | ⟨iter, hrow⟩)
    · refine ⟨key.2, ?_⟩
      rw [e.rows, if_pos rfl]
      rfl
    · refine ⟨iter, ?_⟩
      rw [e.rows]
      split
      · rfl
      · exact hrow

namespace Sound

theorem iterOf_eq (h : Sound l bound s) {nodeId : String} (hrow : ¬ s.HasRow nodeId) : s.iterOf nodeId = 0 := by
  rw [State.iterOf, (h.fresh nodeId hrow).2]
  rfl

theorem nextOf_eq (h : Sound l bound s) {nodeId : String} (hrow : ¬ s.HasRow nodeId) : s.nextOf nodeId = 0 := by
  rw [State.nextOf, (h.fresh nodeId hrow).1]
  rfl

theorem mono (h : Sound l bound s) (hle : bound ≤ bound') : Sound l bound' s where
  rows key row hrow :=
    have hok := h.rows key row hrow
    ⟨hok.calm, hok.started, hok.kind, hok.bounded.trans hle⟩
  rooted := h.rooted
  fresh := h.fresh
  ended := h.ended
  outcome := h.outcome

theorem edit (h : Sound l bound s) (e : Edit s s' key init g) (hzero : ¬ s.HasRow key.1 → key.2 = 0)
    (hinit : s.rows.get? key = none → (g init).Ok l bound)
    (hg : ∀ row, s.rows.get? key = some row → (g row).Ok l bound) : Sound l bound s' where
  rows k row hrow := by
    rw [e.rows] at hrow
    split at hrow
    · cases hrow
      cases hold : s.rows.get? key with
      | none => exact hinit hold
      | some old => exact hg old hold
    · exact h.rows k row hrow
  rooted nodeId hrow := by
    rw [e.rows]
    split
    · rfl
    · next hne =>
      rcases (e.hasRow_iff nodeId).mp hrow with rfl | hrow
      · -- the first row of a node is that of its iteration 0
        by_cases hhas : s.HasRow key.1
        · exact h.rooted _ hhas
        · exact absurd (show (key.1, 0) = key from Prod.ext rfl (hzero hhas).symm) hne
      · exact h.rooted nodeId hrow
  fresh nodeId hrow := by
    have hne : nodeId ≠ key.1 := fun heq => hrow ((e.hasRow_iff nodeId).mpr (Or.inl heq))
    have hnot : ¬ s.HasRow nodeId := fun hhas => hrow ((e.hasRow_iff nodeId).mpr (Or.inr hhas))
    rw [e.next nodeId hne, e.active nodeId hne]
    exact h.fresh nodeId hnot
  ended := by rw [e.ends.terminated, e.ends.closeWith, h.ended]
  outcome := e.ends.closeWith ▸ h.outcome

theorem terminate (h : Sound l bound s) {status : StepStatus} (hstatus : status = .failed ∨ status = .skipped)
    (ts : DateTime) : Sound l bound (s.terminate status ts) where
  rows := h.rows
  rooted := h.rooted
  fresh := h.fresh
  ended := by
    show true = (s.closeWith.or (some (status, ts))).isSome
    cases s.closeWith <;> rfl
  outcome c hc := by
    have hor : s.closeWith.or (some (status, ts)) = some c := hc
    cases hclose : s.closeWith with
    | none =>
      rw [hclose] at hor
      cases hor
      exact hstatus
    | some c' =>
      rw [hclose] at hor
      cases hor
      exact h.outcome _ hclose

theorem change (h : Sound l bound s) {ts : DateTime} (hs : Change l bound ts s s') : Sound l bound s' := by
  cases hs with
  | arrival place token nodeId hentry hnew =>
    refine h.edit (edit_arrival ts hentry hnew) (fun hrow => h.nextOf_eq hrow) (fun _ => ?_)
      fun row hrow => h.rows _ row hrow
    exact StepExecutionRow.ok_opened ..
  | inbound key row producer payload hrow =>
    exact h.edit (edit_updateRow (fun _ => rfl) hrow) (fun hnot => absurd (State.hasRow_of_get? hrow) hnot)
      (fun hnone => absurd (hrow.symm.trans hnone) nofun) fun old hold => (h.rows _ old hold).addInbound _ _
  | fire owner produced read =>
    refine h.edit (edit_fire owner produced read bound ts) (fun hrow => h.iterOf_eq hrow) (fun _ => ?_)
      fun row hrow => ?_
    · exact StepExecutionRow.ok_fire (fun _ => rfl) rfl produced read bound ts
    · have hok := h.rows _ row hrow
      exact StepExecutionRow.ok_fire hok.calm hok.kind produced read bound ts
  | failure owner payload =>
    refine h.edit (edit_failure owner payload bound ts) (fun hrow => h.iterOf_eq hrow) (fun _ => ?_)
      fun row hrow => ?_
    · exact StepExecutionRow.ok_failure rfl payload bound ts
    · exact StepExecutionRow.ok_failure (h.rows _ row hrow).kind payload bound ts
  | terminate status hstatus => exact h.terminate hstatus ts

end Sound

/-- The rows stay, and no sequence goes back. -/
def Grows (s s' : State) : Prop :=
  ∀ key row, s.rows.get? key = some row →
    ∃ row', s'.rows.get? key = some row' ∧ row.lastSequence ≤ row'.lastSequence

theorem Grows.refl (s : State) : Grows s s := fun _ row hrow => ⟨row, hrow, le_rfl⟩

theorem Grows.trans {s'' : State} (h : Grows s s') (h' : Grows s' s'') : Grows s s'' := by
  intro key row hrow
  obtain ⟨row', hrow', hle⟩ := h key row hrow
  obtain ⟨row'', hrow'', hle'⟩ := h' key row' hrow'
  exact ⟨row'', hrow'', hle.trans hle'⟩

theorem Edit.grows (e : Edit s s' key init g)
    (hg : ∀ row, s.rows.get? key = some row → row.lastSequence ≤ (g row).lastSequence) : Grows s s' := by
  intro k row hrow
  rw [e.rows]
  by_cases hk : k = key
  · subst hk
    rw [if_pos rfl, hrow]
    exact ⟨g row, rfl, hg row hrow⟩
  · rw [if_neg hk]
    exact ⟨row, hrow, le_rfl⟩

theorem Sound.grows_change (h : Sound l bound s) {ts : DateTime} (hs : Change l bound ts s s') : Grows s s' := by
  cases hs with
  | arrival place token nodeId hentry hnew => exact (edit_arrival ts hentry hnew).grows fun row _ => le_rfl
  | inbound key row producer payload hrow =>
    exact (edit_updateRow (f := (·.addInbound producer payload)) (fun _ => rfl) hrow).grows fun row _ => le_rfl
  | fire owner produced read =>
    refine (edit_fire owner produced read bound ts).grows fun row hrow => ?_
    rw [StepExecutionRow.lastSequence_fire]
    exact (h.rows _ row hrow).bounded
  | failure owner payload =>
    exact (edit_failure owner payload bound ts).grows fun row hrow => (h.rows _ row hrow).bounded
  | terminate status hstatus => exact Grows.refl s

theorem Grows.hasRow (h : Grows s s') {nodeId : String} (hhas : s.HasRow nodeId) : s'.HasRow nodeId := by
  obtain ⟨iter, hi⟩ := hhas
  obtain ⟨row, hrow⟩ := Option.isSome_iff_exists.mp hi
  obtain ⟨row', hrow', -⟩ := h _ row hrow
  exact State.hasRow_of_get? hrow'

/-- **Changes keep the fold in order.** -/
theorem Sound.changes (h : Sound l bound s) {ts : DateTime}
    (hchanges : Relation.ReflTransGen (Change l bound ts) s s') : Sound l bound s' ∧ Grows s s' := by
  induction hchanges with
  | refl => exact ⟨h, Grows.refl s⟩
  | tail _ hchange ih => exact ⟨ih.1.change hchange, ih.2.trans (ih.1.grows_change hchange)⟩

theorem Sound.absorb (h : Sound l bound s) {ev : PersistedEvent} (hle : bound ≤ ev.sequence) :
    Sound l ev.sequence (s.absorb l ev) ∧ Grows s (s.absorb l ev) :=
  (h.mono hle).changes (absorb_changes l s ev)

theorem absorb_terminated {ev : PersistedEvent} (h : s.terminated = true) : (s.absorb l ev).terminated = true := by
  have hchanges := absorb_changes l s ev
  generalize s.absorb l ev = t at hchanges ⊢
  induction hchanges with
  | refl => exact h
  | tail _ hchange ih =>
    cases hchange with
    | arrival place token nodeId hentry hnew => exact (edit_arrival _ hentry hnew).ends.terminated.trans ih
    | inbound key row producer payload hrow =>
      exact (edit_updateRow (f := (·.addInbound producer payload)) (fun _ => rfl) hrow).ends.terminated.trans ih
    | fire owner produced read => exact (edit_fire owner produced read _ _).ends.terminated.trans ih
    | failure owner payload => exact (edit_failure owner payload _ _).ends.terminated.trans ih
    | terminate status hstatus => rfl

/-- A row that changes is marked dirty. -/
structure Touched (s s' : State) : Prop where
  rows : ∀ key, s'.rows.get? key = s.rows.get? key ∨ key ∈ s'.dirty
  dirty : ∀ key ∈ s.dirty, key ∈ s'.dirty

namespace Touched

theorem refl (s : State) : Touched s s := ⟨fun _ => Or.inl rfl, fun _ h => h⟩

theorem trans {s'' : State} (h : Touched s s') (h' : Touched s' s'') : Touched s s'' where
  rows key := by
    rcases h'.rows key with hsame | hdirty
    · rcases h.rows key with hsame' | hdirty
      · exact Or.inl (hsame.trans hsame')
      · exact Or.inr (h'.dirty key hdirty)
    · exact Or.inr hdirty
  dirty key hkey := h'.dirty key (h.dirty key hkey)

theorem edit (e : Edit s s' key init g) : Touched s s' where
  rows k := by
    by_cases hk : k = key
    · exact Or.inr (e.dirty k (Or.inl hk))
    · exact Or.inl ((e.rows k).trans (if_neg hk))
  dirty k hk := e.dirty k (Or.inr hk)

theorem change {sequence : Nat} {ts : DateTime} (hs : Change l sequence ts s s') : Touched s s' := by
  cases hs with
  | arrival place token nodeId hentry hnew => exact edit (edit_arrival ts hentry hnew)
  | inbound key row producer payload hrow => exact edit (edit_updateRow (fun _ => rfl) hrow)
  | fire owner produced read => exact edit (edit_fire owner produced read sequence ts)
  | failure owner payload => exact edit (edit_failure owner payload sequence ts)
  | terminate status hstatus => exact ⟨fun _ => Or.inl rfl, fun _ h => h⟩

theorem absorb (s : State) (ev : PersistedEvent) : Touched s (s.absorb l ev) := by
  have hchanges := absorb_changes l s ev
  generalize s.absorb l ev = t at hchanges ⊢
  induction hchanges with
  | refl => exact refl s
  | tail _ hchange ih => exact ih.trans (change hchange)

theorem foldl_absorb : ∀ (events : List PersistedEvent) (s : State), Touched s (events.foldl (State.absorb l) s)
  | [], s => refl s
  | ev :: events, s => (absorb s ev).trans (foldl_absorb events _)

theorem closeOpenRows (s : State) : Touched s s.closeOpenRows := by
  have hmem : ∀ (keys dirty : List (String × Nat)) (k : String × Nat),
      k ∈ keys.foldl (fun dirty key => dirty.insert key) dirty ↔ k ∈ keys ∨ k ∈ dirty := by
    intro keys
    induction keys with
    | nil => exact fun dirty k => by simp
    | cons key keys ih =>
      intro dirty k
      rw [List.foldl_cons, ih, List.mem_insert_iff, List.mem_cons]
      tauto
  constructor
  · intro key
    rw [State.get?_closeOpenRows]
    cases hrow : s.rows.get? key with
    | none => exact Or.inl rfl
    | some row =>
      cases hclose : s.closeWith with
      | none => exact Or.inl rfl
      | some c =>
        by_cases hopen : row.isOpen
        · refine Or.inr ?_
          unfold State.closeOpenRows
          rw [hclose]
          refine (hmem ..).mpr (Or.inl ?_)
          rw [← KeyedList.key_of_get? hrow]
          exact List.mem_map_of_mem (List.mem_filter.mpr ⟨KeyedList.mem_of_get? hrow, hopen⟩)
        · refine Or.inl (congrArg some ?_)
          exact StepExecutionRow.close_of_not_open hopen
  · intro key hkey
    unfold State.closeOpenRows
    split
    · exact hkey
    · exact (hmem ..).mpr (Or.inr hkey)

theorem finalizeNode (s : State) (iface : NodeInterface) : Touched s (s.finalizeNode iface) := by
  unfold State.finalizeNode
  split
  · exact refl s
  · refine ⟨fun key => ?_, fun key hkey => mem_dirty_touch (Or.inr hkey)⟩
    by_cases hkey : key = (iface.nodeId, 0)
    · exact Or.inr (mem_dirty_touch (Or.inl hkey))
    · exact Or.inl ((KeyedList.get?_insert ..).trans (if_neg hkey))

theorem finalizeUnreached (s : State) (registry : InterfaceRegistry) : Touched s (s.finalizeUnreached registry) := by
  unfold State.finalizeUnreached
  split
  · suffices hall : ∀ (ifaces : List NodeInterface) (s : State), Touched s (ifaces.foldl State.finalizeNode s) from
      hall registry.values s
    intro ifaces
    induction ifaces with
    | nil => exact refl
    | cons iface ifaces ih => exact fun s => (finalizeNode s iface).trans (ih _)
  · exact refl s

end Touched

end

/-! ## The terminal passes -/

/-- Each interface stands under its node's id, as lowering puts it there. -/
def Keyed (registry : InterfaceRegistry) : Prop := ∀ e ∈ registry.toPairs, e.2.nodeId = e.1

def State.final (registry : InterfaceRegistry) (s : State) : State := s.closeOpenRows.finalizeUnreached registry

section

variable {registry : InterfaceRegistry} {s s' : State} {nodeId : String}

theorem kindOf_of_mem (hkeyed : Keyed registry) {iface : NodeInterface} (h : iface ∈ registry.values) :
    (Lookups.build registry).kindOf iface.nodeId = iface.kind := by
  rw [← HashMap.toPairs_values] at h
  obtain ⟨⟨k, i⟩, hmem, rfl⟩ := List.mem_map.mp h
  have hlookup : registry.lookup k = some i := by
    rw [AList.mem_lookup_iff.mpr]
    rw [HashMap.entries_eq_toPairs]
    exact List.mem_map_of_mem hmem
  rw [Lookups.kindOf, Lookups.interface, Lookups.registry_build, show i.nodeId = k from hkeyed _ hmem, hlookup]
  rfl

theorem State.not_any_of_not_hasRow (h : ¬ s.HasRow nodeId) : s.rows.toList.any (·.nodeId = nodeId) = false := by
  rw [List.any_eq_false]
  intro row hrow hnode
  obtain rfl := of_decide_eq_true hnode
  exact h (State.hasRow_of_get? (KeyedList.get?_of_mem hrow))

theorem State.get?_of_not_hasRow (h : ¬ s.HasRow nodeId) (iter : Nat) : s.rows.get? (nodeId, iter) = none := by
  cases hrow : s.rows.get? (nodeId, iter) with
  | none => rfl
  | some row => exact absurd (State.hasRow_of_get? hrow) h

theorem State.hasRow_closeOpenRows : s.closeOpenRows.HasRow nodeId ↔ s.HasRow nodeId := by
  refine exists_congr fun iter => ?_
  rw [State.get?_closeOpenRows, Option.isSome_map]

theorem State.terminated_closeOpenRows (s : State) : s.closeOpenRows.terminated = s.terminated := by
  unfold State.closeOpenRows
  split <;> rfl

theorem get?_final_of_hasRow (h : s.HasRow nodeId) (iter : Nat) :
    (s.final registry).rows.get? (nodeId, iter) = (s.rows.get? (nodeId, iter)).map (.settle s.closeWith) := by
  obtain ⟨i, hi⟩ := State.hasRow_closeOpenRows.mpr h
  obtain ⟨row, hrow⟩ := Option.isSome_iff_exists.mp hi
  rw [State.final, (SameNode.finalizeUnreached registry hrow).rows, State.get?_closeOpenRows]

theorem get?_foldl_finalizeNode (l : Lookups) (ifaces : List NodeInterface) {s : State} (h : ¬ s.HasRow nodeId)
    (hkinds : ∀ iface ∈ ifaces, l.kindOf iface.nodeId = iface.kind) (iter : Nat) :
    (ifaces.foldl State.finalizeNode s).rows.get? (nodeId, iter) =
      if iter = 0 ∧ nodeId ∈ ifaces.map (·.nodeId) then some (StepExecutionRow.skippedRow l nodeId) else none := by
  induction ifaces generalizing s with
  | nil =>
    rw [if_neg fun hand => List.not_mem_nil hand.2]
    exact State.get?_of_not_hasRow h iter
  | cons iface ifaces ih =>
    rw [List.foldl_cons]
    by_cases hnode : iface.nodeId = nodeId
    · subst hnode
      have hrows : ∀ k, (s.finalizeNode iface).rows.get? k =
          if k = (iface.nodeId, 0) then some (.skippedRow l iface.nodeId) else s.rows.get? k := by
        intro k
        rw [State.finalizeNode, if_neg (by rw [State.not_any_of_not_hasRow h]; exact Bool.false_ne_true),
          StepExecutionRow.skippedRow, hkinds iface List.mem_cons_self]
        exact KeyedList.get?_insert ..
      have hrow := (hrows (iface.nodeId, 0)).trans (if_pos rfl)
      rw [(SameNode.foldl_finalizeNode ifaces hrow).rows, hrows]
      by_cases hiter : iter = 0
      · rw [if_pos (by rw [hiter]), if_pos ⟨hiter, List.mem_cons_self ..⟩]
      · rw [if_neg fun hkey => hiter (congrArg (·.2) hkey), if_neg fun hand => hiter hand.1]
        exact State.get?_of_not_hasRow h iter
    · have hsame : SameNode nodeId s (s.finalizeNode iface) := SameNode.finalizeNode hnode
      have hnot : ¬ (s.finalizeNode iface).HasRow nodeId :=
        fun hrow => h (hrow.imp fun i hi => by rwa [← hsame.rows])
      rw [ih hnot fun i hi => hkinds i (List.mem_cons_of_mem _ hi)]
      simp [Ne.symm hnode]

theorem get?_final_of_not_hasRow (hkeyed : Keyed registry) (h : ¬ s.HasRow nodeId) (iter : Nat) :
    (s.final registry).rows.get? (nodeId, iter) =
      if s.terminated = true ∧ iter = 0 ∧ nodeId ∈ registry.values.map (·.nodeId) then
        some (StepExecutionRow.skippedRow (.build registry) nodeId) else none := by
  have hnot : ¬ s.closeOpenRows.HasRow nodeId := fun hrow => h (State.hasRow_closeOpenRows.mp hrow)
  unfold State.final State.finalizeUnreached
  rw [State.terminated_closeOpenRows]
  split
  · next hterminated =>
    rw [get?_foldl_finalizeNode (.build registry) registry.values hnot (fun i hi => kindOf_of_mem hkeyed hi)]
    simp [hterminated]
  · next hterminated =>
    rw [if_neg fun hand => hterminated hand.1]
    exact State.get?_of_not_hasRow hnot iter

theorem settle_keeps (closeWith : Option (StepStatus × DateTime)) (row : StepExecutionRow) :
    (row.settle closeWith).lastSequence = row.lastSequence ∧ (row.settle closeWith).nodeKind = row.nodeKind ∧
      (row.settle closeWith).inputs = row.inputs := by
  unfold StepExecutionRow.settle
  split
  · unfold StepExecutionRow.close
    split <;> exact ⟨rfl, rfl, rfl⟩
  · exact ⟨rfl, rfl, rfl⟩

theorem settle_skippedRow {l : Lookups} (closeWith : Option (StepStatus × DateTime)) (nodeId : String) :
    (StepExecutionRow.skippedRow l nodeId).settle closeWith = .skippedRow l nodeId := by
  cases closeWith <;> rfl

theorem marks_final (s : State) : (s.final registry).marks = s.marks := by
  have hclose : s.closeOpenRows.marks = s.marks := by
    unfold State.closeOpenRows
    split <;> rfl
  have hnode : ∀ (s : State) (iface : NodeInterface), (s.finalizeNode iface).marks = s.marks := by
    intro s iface
    unfold State.finalizeNode
    split <;> rfl
  have hall : ∀ (ifaces : List NodeInterface) (s : State), (ifaces.foldl State.finalizeNode s).marks = s.marks := by
    intro ifaces
    induction ifaces with
    | nil => exact fun _ => rfl
    | cons iface ifaces ih => exact fun s => (ih _).trans (hnode s iface)
  unfold State.final State.finalizeUnreached
  split
  · exact (hall _ _).trans hclose
  · exact hclose

variable {bound : Nat}

theorem Sound.kind_final (h : Sound (.build registry) bound s) (hkeyed : Keyed registry)
    {key : String × Nat} {row : StepExecutionRow} (hrow : (s.final registry).rows.get? key = some row) :
    row.nodeKind = (Lookups.build registry).kindOf key.1 := by
  obtain ⟨nodeId, iter⟩ := key
  by_cases hhas : s.HasRow nodeId
  · rw [get?_final_of_hasRow hhas] at hrow
    obtain ⟨old, hold, rfl⟩ := Option.map_eq_some_iff.mp hrow
    have hnode : old.nodeId = nodeId := congrArg (·.1) (KeyedList.key_of_get? hold)
    rw [(settle_keeps _ _).2.1, (h.rows _ old hold).kind, hnode]
  · rw [get?_final_of_not_hasRow hkeyed hhas] at hrow
    split at hrow
    · cases hrow
      rfl
    · cases hrow

theorem grows_final (hkeyed : Keyed registry) (hsound : Sound (.build registry) bound s')
    (hgrows : Grows s s') (hends : s.terminated → s'.terminated) : Grows (s.final registry) (s'.final registry) := by
  rintro ⟨nodeId, iter⟩ row hrow
  by_cases hhas : s.HasRow nodeId
  · rw [get?_final_of_hasRow hhas] at hrow
    obtain ⟨old, hold, rfl⟩ := Option.map_eq_some_iff.mp hrow
    obtain ⟨new, hnew, hle⟩ := hgrows _ old hold
    refine ⟨new.settle s'.closeWith, ?_, ?_⟩
    · rw [get?_final_of_hasRow (State.hasRow_of_get? hnew), hnew]
      rfl
    · rw [(settle_keeps _ _).1, (settle_keeps _ _).1]
      exact hle
  · rw [get?_final_of_not_hasRow hkeyed hhas] at hrow
    split at hrow
    · next hskipped =>
      obtain ⟨hterminated, rfl, hregistered⟩ := hskipped
      cases hrow
      by_cases hhas' : s'.HasRow nodeId
      · obtain ⟨new, hnew⟩ := Option.isSome_iff_exists.mp (hsound.rooted nodeId hhas')
        refine ⟨new.settle s'.closeWith, ?_, Nat.zero_le _⟩
        rw [get?_final_of_hasRow hhas', hnew]
        rfl
      · refine ⟨_, ?_, le_rfl⟩
        rw [get?_final_of_not_hasRow hkeyed hhas', if_pos ⟨hends hterminated, rfl, hregistered⟩]
    · cases hrow

/-! ## Events after the end -/

/-- The tokens that an event puts into places. -/
def producedBy : DomainEvent → List (PlaceId × Token)
  | .tokenCreated token placeId .. => [(placeId, token)]
  | .transitionFired _ _ _ produced .. => produced
  | .effectCompleted _ _ _ produced .. => produced
  | _ => []

/-- A firing: its transition, and what it consumed, produced and read. -/
structure Firing where
  transitionId : TransitionId
  consumed : List (PlaceId × TokenId)
  produced : List (PlaceId × Token)
  read : List (PlaceId × Token)

def firingOf : DomainEvent → Option Firing
  | .transitionFired transitionId _ consumed produced read .. => some ⟨transitionId, consumed, produced, read⟩
  | .effectCompleted transitionId _ consumed produced _ _ read .. => some ⟨transitionId, consumed, produced, read⟩
  | _ => none

/-- An event that may follow on closed rows: it enters and fires only nodes that have a row, and, where the net failed,
it does not complete a row that was open. -/
structure Compatible (l : Lookups) (s : State) (ev : PersistedEvent) : Prop where
  entered : ∀ e ∈ producedBy ev.event, ∀ nodeId, l.entryToNode.lookup e.1.name = some nodeId → s.HasRow nodeId
  fired : ∀ f ∈ firingOf ev.event, ∀ owner, l.transitionOwner.lookup f.transitionId.name = some owner →
    s.HasRow owner
  completed : s.closeWith.map (·.1) = some .failed → ∀ f ∈ firingOf ev.event, ∀ owner,
    l.transitionOwner.lookup f.transitionId.name = some owner → ∀ arrived,
      s.noteArrivals l f.transitionId f.consumed f.produced ev.timestamp = arrived → ∀ row,
        arrived.rows.get? (owner, arrived.iterOf owner) = some row →
          (s.rows.get? (owner, arrived.iterOf owner)).isSome → row.isOpen →
            (row.fire l owner f.produced f.read ev.sequence ev.timestamp).status ≠ .completed

/-! ## The cached state and the fold -/

/-- The cached state `c` is the fold `s` after the terminal passes. -/
structure Shows (registry : InterfaceRegistry) (s c : State) : Prop where
  rows : ∀ key, c.rows.get? key = (s.final registry).rows.get? key
  marks : c.marks = s.marks

/-- The same within an event, which found the fold at `s₀`: a row is as the event made it, or as it was closed before;
a node without a row may be skipped already. -/
structure Trails (registry : InterfaceRegistry) (s₀ s c : State) : Prop where
  marks : c.marks = s.marks
  rows : ∀ key row, s.rows.get? key = some row → ∃ row', c.rows.get? key = some row' ∧
    (row' = row ∨ (row' = row.settle s.closeWith ∧ (s₀.rows.get? key).isSome))
  skipped : ∀ key row', s.rows.get? key = none → c.rows.get? key = some row' → s.terminated = true ∧
    ¬ s.HasRow key.1 ∧ key.2 = 0 ∧ key.1 ∈ registry.values.map (·.nodeId) ∧ row' = .skippedRow (.build registry) key.1

namespace Trails

variable {s₀ c c' : State} {key : String × Nat} {init : StepExecutionRow} {g : StepExecutionRow → StepExecutionRow}

theorem of_shows (hkeyed : Keyed registry) (h : Shows registry s c) : Trails registry s s c where
  marks := h.marks
  rows key row hrow := by
    refine ⟨row.settle s.closeWith, ?_, Or.inr ⟨rfl, by rw [hrow]; rfl⟩⟩
    rw [h.rows, get?_final_of_hasRow (State.hasRow_of_get? hrow), hrow]
    rfl
  skipped key row' hnone hrow' := by
    obtain ⟨nodeId, iter⟩ := key
    rw [h.rows] at hrow'
    by_cases hhas : s.HasRow nodeId
    · rw [get?_final_of_hasRow hhas, hnone] at hrow'
      cases hrow'
    · rw [get?_final_of_not_hasRow hkeyed hhas] at hrow'
      split at hrow'
      · next hskipped =>
        cases hrow'
        exact ⟨hskipped.1, hhas, hskipped.2.1, hskipped.2.2, rfl⟩
      · cases hrow'

theorem closeWith_eq (h : Trails registry s₀ s c) : c.closeWith = s.closeWith := congrArg (·.2.2.2.2) h.marks

theorem terminated_eq (h : Trails registry s₀ s c) : c.terminated = s.terminated := congrArg (·.2.2.2.1) h.marks

theorem hasRow (h : Trails registry s₀ s c) (hhas : s.HasRow nodeId) : c.HasRow nodeId := by
  obtain ⟨iter, hi⟩ := hhas
  obtain ⟨row, hrow⟩ := Option.isSome_iff_exists.mp hi
  obtain ⟨row', hrow', -⟩ := h.rows _ row hrow
  exact State.hasRow_of_get? hrow'

theorem get?_none (h : Trails registry s₀ s c) (hhas : s.terminated = true → s.HasRow key.1)
    (hrow : s.rows.get? key = none) : c.rows.get? key = none := by
  cases hrow' : c.rows.get? key with
  | none => rfl
  | some row' =>
    obtain ⟨hterminated, hnot, -⟩ := h.skipped key row' hrow hrow'
    exact absurd (hhas hterminated) hnot

variable {bound : Nat}

/-- **After the event the terminal passes bring the two together.** -/
theorem shows (h : Trails registry s₀ s c) (hkeyed : Keyed registry)
    (hsound : Sound (.build registry) bound s) : Shows registry s (c.final registry) := by
  refine ⟨?_, (marks_final c).trans h.marks⟩
  rintro ⟨nodeId, iter⟩
  by_cases hhas : s.HasRow nodeId
  · rw [get?_final_of_hasRow hhas, get?_final_of_hasRow (h.hasRow hhas), h.closeWith_eq]
    cases hrow : s.rows.get? (nodeId, iter) with
    | none =>
      rw [h.get?_none (fun _ => hhas) hrow]
    | some row =>
      obtain ⟨row', hrow', rfl | ⟨rfl, -⟩⟩ := h.rows _ row hrow
      · rw [hrow']
      · rw [hrow']
        exact congrArg some (StepExecutionRow.settle_settle hsound.outcome row)
  · rw [get?_final_of_not_hasRow hkeyed hhas]
    have hnone := State.get?_of_not_hasRow hhas
    by_cases hhas' : c.HasRow nodeId
    · -- the node is skipped already
      rw [get?_final_of_hasRow hhas']
      obtain ⟨i, hi⟩ := hhas'
      obtain ⟨row, hrow⟩ := Option.isSome_iff_exists.mp hi
      obtain ⟨hterminated, -, rfl, hregistered, rfl⟩ := h.skipped _ row (hnone i) hrow
      by_cases hiter : iter = 0
      · rw [if_pos ⟨hterminated, hiter, hregistered⟩, hiter, hrow]
        exact congrArg some (settle_skippedRow c.closeWith nodeId)
      · rw [if_neg fun hand => hiter hand.2.1]
        cases hother : c.rows.get? (nodeId, iter) with
        | none => rfl
        | some other => exact absurd (h.skipped _ other (hnone iter) hother).2.2.1 hiter
    · rw [get?_final_of_not_hasRow hkeyed hhas', h.terminated_eq]

theorem edit {init' : StepExecutionRow} (h : Trails registry s₀ s c) (e : Edit s s' key init g)
    (e' : Edit c c' key init' g) (hmarks : c'.marks = s'.marks) (hzero : ¬ s.HasRow key.1 → key.2 = 0)
    (hnone : s.rows.get? key = none → g ((c.rows.get? key).getD init') = g init)
    (hsome : ∀ row, s.rows.get? key = some row → (s₀.rows.get? key).isSome →
      g (row.settle s.closeWith) = g row ∨ g (row.settle s.closeWith) = (g row).settle s.closeWith) :
    Trails registry s₀ s' c' where
  marks := hmarks
  rows k row hrow := by
    rw [e.rows] at hrow
    rw [e'.rows]
    by_cases hk : k = key
    · subst hk
      rw [if_pos rfl] at hrow ⊢
      refine ⟨_, rfl, ?_⟩
      cases hrow
      cases hold : s.rows.get? k with
      | none => exact Or.inl (hnone hold)
      | some old =>
        obtain ⟨row', hrow', rfl | ⟨rfl, hbefore⟩⟩ := h.rows k old hold
        · rw [hrow']
          exact Or.inl rfl
        · rw [hrow', e.ends.closeWith]
          exact (hsome old hold hbefore).imp id fun heq => ⟨heq, hbefore⟩
    · rw [if_neg hk] at hrow ⊢
      rw [e.ends.closeWith]
      exact h.rows k row hrow
  skipped k row' hrow hrow' := by
    rw [e.rows] at hrow
    rw [e'.rows] at hrow'
    by_cases hk : k = key
    · rw [if_pos hk] at hrow
      cases hrow
    · rw [if_neg hk] at hrow hrow'
      obtain ⟨hterminated, hhas, hiter, hregistered, heq⟩ := h.skipped k row' hrow hrow'
      refine ⟨e.ends.terminated.trans hterminated, fun hhas' => ?_, hiter, hregistered, heq⟩
      rcases (e.hasRow_iff k.1).mp hhas' with hnode | hold
      · exact hk (Prod.ext hnode (hiter.trans (hzero (hnode ▸ hhas)).symm))
      · exact hhas hold

theorem next_eq (h : Trails registry s₀ s c) : c.nextIter = s.nextIter := congrArg (·.1) h.marks

theorem active_eq (h : Trails registry s₀ s c) : c.activeIter = s.activeIter := congrArg (·.2.1) h.marks

theorem seen_eq (h : Trails registry s₀ s c) : c.seenEntryTokens = s.seenEntryTokens := congrArg (·.2.2.1) h.marks

theorem nextOf_eq (h : Trails registry s₀ s c) (nodeId : String) : c.nextOf nodeId = s.nextOf nodeId := by
  rw [State.nextOf, State.nextOf, h.next_eq]

theorem iterOf_eq (h : Trails registry s₀ s c) (nodeId : String) : c.iterOf nodeId = s.iterOf nodeId := by
  rw [State.iterOf, State.iterOf, h.active_eq]

theorem seenOf_eq (h : Trails registry s₀ s c) (nodeId : String) : c.seen nodeId = s.seen nodeId := by
  rw [State.seen, State.seen, h.seen_eq]

theorem arrival (h : Trails registry s₀ s c) (hsound : Sound (.build registry) bound s) {place : PlaceId}
    (hhas : ∀ n, (Lookups.build registry).entryToNode.lookup place.name = some n → s.terminated = true → s.HasRow n)
    (token : Token) (ts : DateTime) : Trails registry s₀ (s.noteEntryArrival (.build registry) place token ts)
      (c.noteEntryArrival (.build registry) place token ts) := by
  cases hentry : (Lookups.build registry).entryToNode.lookup place.name with
  | none =>
    unfold State.noteEntryArrival
    rw [hentry]
    exact h
  | some n =>
    by_cases hseen : token.id ∈ s.seen n
    · unfold State.noteEntryArrival
      rw [hentry]
      dsimp only
      rw [h.seenOf_eq, if_pos hseen, if_pos hseen]
      exact h
    · have e := edit_arrival (l := .build registry) ts hentry hseen
      have e' := edit_arrival (l := .build registry) (s := c) ts hentry (by rwa [h.seenOf_eq])
      rw [h.nextOf_eq] at e'
      refine h.edit e e' ?_ (fun hrow => hsound.nextOf_eq hrow) (fun hrow => ?_) fun row _ _ => Or.inr rfl
      · unfold State.noteEntryArrival
        rw [hentry]
        dsimp only
        rw [h.seenOf_eq, if_neg hseen, if_neg hseen, State.marks_openRow, State.marks_openRow, State.marks_touch,
          State.marks_touch]
        unfold State.marks
        dsimp only
        rw [h.nextOf_eq, h.next_eq, h.active_eq, h.seen_eq, h.terminated_eq, h.closeWith_eq]
      · rw [h.get?_none (hhas n hentry) hrow]
        rfl

theorem settle_addInbound (closeWith : Option (StepStatus × DateTime)) (row : StepExecutionRow) (producer : String)
    (payload : Json) : (row.settle closeWith).addInbound producer payload =
      (row.addInbound producer payload).settle closeWith := by
  cases closeWith with
  | none => rfl
  | some c =>
    show (row.close c.1 c.2).addInbound producer payload = (row.addInbound producer payload).close c.1 c.2
    unfold StepExecutionRow.close
    have hsame : (row.addInbound producer payload).isOpen = row.isOpen := rfl
    rw [hsame]
    split <;> rfl

theorem update {f : StepExecutionRow → StepExecutionRow} {row row' : StepExecutionRow} (h : Trails registry s₀ s c)
    (hf : ∀ row, (f row).key = row.key) (hrow : s.rows.get? key = some row) (hrow' : c.rows.get? key = some row')
    (hsome : f (row.settle s.closeWith) = f row ∨ f (row.settle s.closeWith) = (f row).settle s.closeWith) :
    Trails registry s₀ ((s.touch key).updateRow key f) ((c.touch key).updateRow key f) := by
  refine h.edit (edit_updateRow hf hrow) (edit_updateRow hf hrow') ?_
    (fun hnot => absurd (State.hasRow_of_get? hrow) hnot) (fun hnone => absurd (hrow.symm.trans hnone) nofun) ?_
  · rw [State.marks_updateRow, State.marks_updateRow, State.marks_touch, State.marks_touch, h.marks]
  · intro old hold _
    obtain rfl := Option.some.inj (hrow.symm.trans hold)
    exact hsome

theorem inbound (h : Trails registry s₀ s c) {place : PlaceId}
    (hhas : ∀ n, (Lookups.build registry).entryToNode.lookup place.name = some n → s.terminated = true → s.HasRow n)
    (token : Token) (transitionId : TransitionId) (consumed : List (PlaceId × TokenId)) :
    Trails registry s₀ (s.noteInboundAtEntry (.build registry) place token transitionId consumed)
      (c.noteInboundAtEntry (.build registry) place token transitionId consumed) := by
  unfold State.noteInboundAtEntry
  cases hentry : (Lookups.build registry).entryToNode.lookup place.name with
  | none => exact h
  | some n =>
    dsimp only
    rw [h.iterOf_eq]
    cases hrow : s.rows.get? (n, s.iterOf n) with
    | none =>
      rw [h.get?_none (hhas n hentry) hrow]
      exact h
    | some row =>
      obtain ⟨row', hrow', hrel⟩ := h.rows _ row hrow
      have hinputs : row'.inputs = row.inputs := by
        rcases hrel with rfl | ⟨rfl, -⟩
        · rfl
        · exact (settle_keeps _ _).2.2
      rw [hrow']
      dsimp only
      rw [hinputs]
      split
      · exact h
      · exact h.update (fun _ => rfl) hrow hrow' (Or.inr (settle_addInbound ..))

theorem arrivals (transitionId : TransitionId) (consumed : List (PlaceId × TokenId)) (ts : DateTime) :
    ∀ (produced : List (PlaceId × Token)) {s c : State}, Trails registry s₀ s c → Sound (.build registry) bound s →
      (∀ e ∈ produced, ∀ n, (Lookups.build registry).entryToNode.lookup e.1.name = some n →
        s.terminated = true → s.HasRow n) →
      Trails registry s₀ (s.noteArrivals (.build registry) transitionId consumed produced ts)
        (c.noteArrivals (.build registry) transitionId consumed produced ts)
  | [], _, _, h, _, _ => h
  | e :: produced, s, c, h, hsound, hhas => by
    have hfirst := hhas e List.mem_cons_self
    -- the nodes with a row keep one, and the net does not end here
    have hkept : ∀ {s' : State}, Grows s s' → SameEnd s s' → ∀ n, (s.terminated = true → s.HasRow n) →
        s'.terminated = true → s'.HasRow n :=
      fun hgrows hends n hn hterminated => hgrows.hasRow (hn (hends.terminated ▸ hterminated))
    have hchanges₁ := arrival_changes (.build registry) bound ts s e.1 e.2
    obtain ⟨hsound₁, hgrows₁⟩ := hsound.changes hchanges₁
    have hends₁ : SameEnd s (s.noteEntryArrival (.build registry) e.1 e.2 ts) := .noteEntryArrival ..
    have h₁ := h.arrival hsound hfirst e.2 ts
    have hchanges₂ := inbound_changes (.build registry) bound ts
      (s.noteEntryArrival (.build registry) e.1 e.2 ts) e.1 e.2 transitionId consumed
    obtain ⟨hsound₂, hgrows₂⟩ := hsound₁.changes hchanges₂
    have h₂ := h₁.inbound (fun n hn => hkept hgrows₁ hends₁ n (hfirst n hn)) e.2 transitionId consumed
    refine arrivals transitionId consumed ts produced h₂ hsound₂ fun e' he' n hn => ?_
    exact hkept (hgrows₁.trans hgrows₂) (hends₁.trans (.noteInboundAtEntry ..)) n
      (hhas e' (List.mem_cons_of_mem _ he') n hn)

theorem fire (h : Trails registry s₀ s c) (hsound : Sound (.build registry) bound s) {owner : String}
    (hhas : s.terminated = true → s.HasRow owner) (produced read : List (PlaceId × Token)) (ts : DateTime)
    (hnot : s.closeWith.map (·.1) = some .failed → ∀ row, s.rows.get? (owner, s.iterOf owner) = some row →
      (s₀.rows.get? (owner, s.iterOf owner)).isSome → row.isOpen →
        (row.fire (.build registry) owner produced read bound ts).status ≠ .completed) : Trails registry s₀
      (((s.openImplicitly (.build registry) owner (s.iterOf owner)).touch (owner, s.iterOf owner)).updateRow
        (owner, s.iterOf owner) (.fire (.build registry) owner produced read bound ts))
      (((c.openImplicitly (.build registry) owner (s.iterOf owner)).touch (owner, s.iterOf owner)).updateRow
        (owner, s.iterOf owner) (.fire (.build registry) owner produced read bound ts)) := by
  have e := edit_fire (l := .build registry) (s := s) owner produced read bound ts
  have e' := edit_fire (l := .build registry) (s := c) owner produced read bound ts
  rw [h.iterOf_eq] at e'
  refine h.edit e e' ?_ (fun hrow => hsound.iterOf_eq hrow) (fun hrow => ?_) fun row hrow hbefore => ?_
  · rw [State.marks_updateRow, State.marks_updateRow, State.marks_touch, State.marks_touch]
    unfold State.openImplicitly
    cases hrow : s.rows.get? (owner, s.iterOf owner) with
    | none =>
      rw [h.get?_none hhas hrow]
      dsimp only
      unfold State.marks
      dsimp only
      rw [h.nextOf_eq, h.next_eq, h.active_eq, h.seen_eq, h.terminated_eq, h.closeWith_eq]
    | some row =>
      obtain ⟨row', hrow', -⟩ := h.rows _ row hrow
      rw [hrow']
      exact h.marks
  · rw [h.get?_none hhas hrow]
    rfl
  · exact StepExecutionRow.fire_settle (hsound.rows _ row hrow) hsound.outcome produced read bound ts
      fun hfailed hopen => hnot hfailed row hrow hbefore hopen

theorem failure (h : Trails registry s₀ s c) (hsound : Sound (.build registry) bound s) (owner : String)
    (payload : Json) (ts : DateTime) : Trails registry s₀ (((s.touch (owner, s.iterOf owner)).openRow
        (.opened owner (s.iterOf owner) ((Lookups.build registry).kindOf owner) none)).updateRow
          (owner, s.iterOf owner) (.failure payload bound ts)) (((c.touch (owner, s.iterOf owner)).openRow
        (.opened owner (s.iterOf owner) ((Lookups.build registry).kindOf owner) none)).updateRow
          (owner, s.iterOf owner) (.failure payload bound ts)) := by
  have e := edit_failure (l := .build registry) (s := s) owner payload bound ts
  have e' := edit_failure (l := .build registry) (s := c) owner payload bound ts
  rw [h.iterOf_eq] at e'
  refine h.edit e e' ?_ (fun hrow => hsound.iterOf_eq hrow) (fun hrow => ?_) fun row _ _ => Or.inl ?_
  · rw [State.marks_updateRow, State.marks_openRow, State.marks_touch, State.marks_updateRow, State.marks_openRow,
      State.marks_touch, h.marks]
  · cases hrow' : c.rows.get? (owner, s.iterOf owner) with
    | none => rfl
    | some row' =>
      -- the row of a skipped node is all but opened
      obtain ⟨-, -, hiter, -, rfl⟩ := h.skipped _ row' hrow hrow'
      rw [show s.iterOf owner = 0 from hiter]
      rfl
  · unfold StepExecutionRow.settle
    split
    · unfold StepExecutionRow.close
      split <;> rfl
    · rfl

theorem terminate (h : Trails registry s₀ s c) (status : StepStatus) (ts : DateTime) :
    Trails registry s₀ (s.terminate status ts) (c.terminate status ts) where
  marks := by
    unfold State.terminate State.marks
    dsimp only
    rw [h.next_eq, h.active_eq, h.seen_eq, h.closeWith_eq]
  rows key row hrow := by
    obtain ⟨row', hrow', hrel⟩ := h.rows key row hrow
    refine ⟨row', hrow', ?_⟩
    show row' = row ∨ (row' = row.settle (s.closeWith.or (some (status, ts))) ∧ _)
    cases hclose : s.closeWith with
    | none =>
      rw [hclose] at hrel
      rcases hrel with heq | ⟨heq, -⟩ <;> exact Or.inl heq
    | some c => rwa [hclose] at hrel
  skipped key row' hrow hrow' := by
    obtain ⟨-, hrest⟩ := h.skipped key row' hrow hrow'
    exact ⟨rfl, hrest⟩

theorem handleFire {ev : PersistedEvent} {f : Firing} (h : Trails registry s s c)
    (hsound : Sound (.build registry) ev.sequence s) (hfiring : firingOf ev.event = some f)
    (hproduced : producedBy ev.event = f.produced)
    (hcompatible : s.terminated = true → Compatible (.build registry) s ev) : Trails registry s
      (s.handleFire (.build registry) f.transitionId f.consumed f.produced f.read ev.sequence ev.timestamp)
      (c.handleFire (.build registry) f.transitionId f.consumed f.produced f.read ev.sequence ev.timestamp) := by
  have hchanges := arrivals_changes (.build registry) ev.sequence ev.timestamp f.transitionId f.consumed f.produced s
  obtain ⟨harrived, hgrows⟩ := hsound.changes hchanges
  have hends : SameEnd s (s.noteArrivals (.build registry) f.transitionId f.consumed f.produced ev.timestamp) :=
    .noteArrivals ..
  have htrails := arrivals f.transitionId f.consumed ev.timestamp f.produced h hsound fun e he n hn hterminated =>
    (hcompatible hterminated).entered e (hproduced ▸ he) n hn
  unfold State.handleFire
  dsimp only
  generalize harrivedEq : s.noteArrivals (.build registry) f.transitionId f.consumed f.produced ev.timestamp = arrived
    at harrived hgrows hends htrails
  cases howner : (Lookups.build registry).transitionOwner.lookup f.transitionId.name with
  | none => exact htrails
  | some owner =>
    dsimp only
    rw [htrails.iterOf_eq]
    refine htrails.fire harrived (fun hterminated => ?_) f.produced f.read ev.timestamp
      fun hfailed row hrow hbefore hopen => ?_
    · exact hgrows.hasRow ((hcompatible (hends.terminated ▸ hterminated)).fired f hfiring owner howner)
    · rw [hends.closeWith] at hfailed
      have hterminated : s.terminated = true := by
        rw [hsound.ended]
        cases hclose : s.closeWith with
        | none =>
          rw [hclose] at hfailed
          cases hfailed
        | some _ => rfl
      exact (hcompatible hterminated).completed hfailed f hfiring owner howner arrived harrivedEq row hrow hbefore hopen

end Trails

/-- **An event on the cached state, and the terminal passes, show the fold with the event**, where an event after the
end is compatible. -/
theorem Shows.absorb {c : State} {ev : PersistedEvent} (h : Shows registry s c) (hkeyed : Keyed registry)
    (hsound : Sound (.build registry) bound s) (hle : bound ≤ ev.sequence)
    (hcompatible : s.terminated = true → Compatible (.build registry) s ev) :
    Shows registry (s.absorb (.build registry) ev) ((c.absorb (.build registry) ev).final registry) := by
  have hmono := hsound.mono hle
  suffices htrails : Trails registry s (s.absorb (.build registry) ev) (c.absorb (.build registry) ev) from
    htrails.shows hkeyed (hsound.absorb hle).1
  have hstart := Trails.of_shows hkeyed h
  unfold State.absorb
  split
  · next token place _ _ _ _ hev =>
    refine hstart.arrival hmono (fun n hn hterminated => ?_) token ev.timestamp
    refine (hcompatible hterminated).entered (place, token) ?_ n hn
    rw [hev]
    exact List.mem_singleton_self _
  · next hev => exact hstart.handleFire hmono (congrArg firingOf hev) (congrArg producedBy hev) hcompatible
  · next hev => exact hstart.handleFire hmono (congrArg firingOf hev) (congrArg producedBy hev) hcompatible
  · unfold State.handleFailure
    split
    · exact hstart
    · next owner _ =>
      dsimp only
      rw [hstart.iterOf_eq]
      exact hstart.failure hmono owner _ ev.timestamp
  · exact hstart.terminate ..
  · exact hstart.terminate ..
  · exact hstart.terminate ..
  · exact hstart

end

/-! ## The table -/

section

variable {ctx : InstanceContext} {db : Db} {rows rows' : String × Nat → Option StepExecutionRow}

/-- The table holds exactly the rows of the fold. -/
def Holds (ctx : InstanceContext) (db : Db) (rows : String × Nat → Option StepExecutionRow) : Prop :=
  ∀ r, r ∈ db.stepExecution.toList ↔
    r.instanceId = ctx.instanceId ∧ r.template = ctx.template ∧ rows r.row.key = some r.row

/-- The table has no row that is not there, or not older. -/
def Behind (ctx : InstanceContext) (db : Db) (rows : String × Nat → Option StepExecutionRow) : Prop :=
  ∀ r ∈ db.stepExecution.toList, r.instanceId = ctx.instanceId ∧ r.template = ctx.template ∧
    ∃ row, rows r.row.key = some row ∧ r.row.lastSequence ≤ row.lastSequence ∧ r.row.nodeKind = row.nodeKind

theorem Behind.mono (h : Behind ctx db rows) (hlater : ∀ key row, rows key = some row →
    ∃ row', rows' key = some row' ∧ row.lastSequence ≤ row'.lastSequence ∧ row.nodeKind = row'.nodeKind) :
    Behind ctx db rows' := by
  intro r hr
  obtain ⟨hinstance, htemplate, row, hrow, hle, hkind⟩ := h r hr
  obtain ⟨row', hrow', hle', hkind'⟩ := hlater _ row hrow
  exact ⟨hinstance, htemplate, row', hrow', hle.trans hle', hkind.trans hkind'⟩

theorem Holds.behind (h : Holds ctx db rows) : Behind ctx db rows := by
  intro r hr
  obtain ⟨hinstance, htemplate, hrow⟩ := (h r).mp hr
  exact ⟨hinstance, htemplate, r.row, hrow, le_rfl, rfl⟩

theorem Behind.upsertRow (h : Behind ctx db rows) {row : StepExecutionRow} (hrow : rows row.key = some row) :
    (db.upsertRow ctx row).stepExecution = db.stepExecution.insert ⟨ctx.instanceId, ctx.template, row⟩ := by
  unfold Db.upsertRow
  dsimp only
  cases hold : db.stepExecution.get? (ctx.instanceId, row.key) with
  | none => rfl
  | some r =>
    obtain ⟨hinstance, htemplate, row', hrow', hle, hkind⟩ := h r (KeyedList.mem_of_get? hold)
    have hkey : r.row.key = row.key := congrArg (·.2) (KeyedList.key_of_get? hold)
    obtain rfl : row = row' := by
      rw [hkey, hrow] at hrow'
      exact Option.some.inj hrow'
    have hfresh : Db.isStale (some r) row = false := decide_eq_false (Nat.not_lt.mpr hle)
    rw [hfresh, if_neg Bool.false_ne_true]
    obtain ⟨instanceId, template, old⟩ := r
    obtain rfl : instanceId = ctx.instanceId := hinstance
    obtain rfl : template = ctx.template := htemplate
    show db.stepExecution.insert ⟨_, _, { row with nodeKind := old.nodeKind }⟩ = _
    rw [show old.nodeKind = row.nodeKind from hkind]

theorem mem_insert_iff {m : KeyedList StoredRow.key} {a r : StoredRow} :
    r ∈ (m.insert a).toList ↔ r = a ∨ (r ∈ m.toList ∧ r.key ≠ a.key) := by
  rw [KeyedList.toList_insert, List.mem_append, List.mem_filter, List.mem_singleton, decide_eq_true_iff]
  exact or_comm

/-- **Rows that are written are there afterwards, and the others are as they were.** -/
theorem Behind.upserts : ∀ {written : List StepExecutionRow} {db : Db}, Behind ctx db rows →
    (∀ row ∈ written, rows row.key = some row) →
      ∀ r, r ∈ (written.foldl (Db.upsertRow · ctx ·) db).stepExecution.toList ↔
        (r.instanceId = ctx.instanceId ∧ r.template = ctx.template ∧ r.row ∈ written) ∨
          (r ∈ db.stepExecution.toList ∧ r.row.key ∉ written.map (·.key))
  | [], db, _, _, r => by simp
  | row :: written, db, h, hrows, r => by
    have hrow := hrows row List.mem_cons_self
    have hstep := h.upsertRow hrow
    have hbehind : Behind ctx (db.upsertRow ctx row) rows := by
      intro r hr
      rw [hstep, mem_insert_iff] at hr
      rcases hr with rfl | ⟨hold, -⟩
      · exact ⟨rfl, rfl, row, hrow, le_rfl, rfl⟩
      · exact h r hold
    rw [List.foldl_cons, hbehind.upserts (fun row' h' => hrows row' (List.mem_cons_of_mem _ h')), hstep,
      mem_insert_iff, List.map_cons, List.mem_cons, List.mem_cons]
    constructor
    · rintro (⟨hinstance, htemplate, hmem⟩ | ⟨rfl | ⟨hold, hkey⟩, hnot⟩)
      · exact Or.inl ⟨hinstance, htemplate, Or.inr hmem⟩
      · exact Or.inl ⟨rfl, rfl, Or.inl rfl⟩
      · refine Or.inr ⟨hold, ?_⟩
        rintro (heq | hmem)
        · exact hkey (Prod.ext (h r hold).1 heq)
        · exact hnot hmem
    · rintro (⟨hinstance, htemplate, heq | hmem⟩ | ⟨hold, hnot⟩)
      · by_cases hagain : r.row.key ∈ written.map (·.key)
        · -- a key that is written again is written with the same row
          obtain ⟨row', hrow', hkey⟩ := List.mem_map.mp hagain
          have hsame := hrows row' (List.mem_cons_of_mem _ hrow')
          rw [hkey, heq, hrow] at hsame
          cases hsame
          exact Or.inl ⟨hinstance, htemplate, heq ▸ hrow'⟩
        · refine Or.inr ⟨Or.inl ?_, hagain⟩
          obtain ⟨instanceId, template, old⟩ := r
          obtain rfl : instanceId = ctx.instanceId := hinstance
          obtain rfl : template = ctx.template := htemplate
          obtain rfl : old = row := heq
          rfl
      · exact Or.inl ⟨hinstance, htemplate, hmem⟩
      · refine Or.inr ⟨Or.inr ⟨hold, fun hkey => hnot (Or.inl (congrArg (·.2) hkey))⟩, fun hmem => hnot (Or.inr hmem)⟩

variable {written : List StepExecutionRow}

theorem Holds.upserts (h : Holds ctx db rows) (hbehind : Behind ctx db rows')
    (hrows : ∀ row ∈ written, rows' row.key = some row)
    (hall : ∀ key, rows' key = rows key ∨ ∃ row ∈ written, row.key = key) :
    Holds ctx (written.foldl (Db.upsertRow · ctx ·) db) rows' := by
  intro r
  rw [hbehind.upserts hrows]
  constructor
  · rintro (⟨hinstance, htemplate, hmem⟩ | ⟨hold, hnot⟩)
    · exact ⟨hinstance, htemplate, hrows _ hmem⟩
    · obtain ⟨hinstance, htemplate, hrow⟩ := (h r).mp hold
      refine ⟨hinstance, htemplate, ?_⟩
      rcases hall r.row.key with hsame | ⟨row, hmem, hkey⟩
      · rw [hsame, hrow]
      · exact absurd (List.mem_map.mpr ⟨row, hmem, hkey⟩) hnot
  · rintro ⟨hinstance, htemplate, hrow⟩
    by_cases hmem : r.row.key ∈ written.map (·.key)
    · obtain ⟨row, hwritten, hkey⟩ := List.mem_map.mp hmem
      have hsame := hrows row hwritten
      rw [hkey, hrow] at hsame
      exact Or.inl ⟨hinstance, htemplate, Option.some.inj hsame ▸ hwritten⟩
    · refine Or.inr ⟨(h r).mpr ⟨hinstance, htemplate, ?_⟩, hmem⟩
      rcases hall r.row.key with hsame | ⟨row, hwritten, hkey⟩
      · rw [← hsame, hrow]
      · exact absurd (List.mem_map.mpr ⟨row, hwritten, hkey⟩) hmem

theorem Behind.upserts_all (h : Behind ctx db rows) (hrows : ∀ row ∈ written, rows row.key = some row)
    (hall : ∀ key row, rows key = some row → row ∈ written ∧ row.key = key) :
    Holds ctx (written.foldl (Db.upsertRow · ctx ·) db) rows := by
  intro r
  rw [h.upserts hrows]
  constructor
  · rintro (⟨hinstance, htemplate, hmem⟩ | ⟨hold, hnot⟩)
    · exact ⟨hinstance, htemplate, hrows _ hmem⟩
    · obtain ⟨-, -, row, hrow, -⟩ := h r hold
      obtain ⟨hmem, hkey⟩ := hall _ row hrow
      exact absurd (List.mem_map.mpr ⟨row, hmem, hkey⟩) hnot
  · rintro ⟨hinstance, htemplate, hrow⟩
    exact Or.inl ⟨hinstance, htemplate, (hall _ _ hrow).1⟩

theorem Behind.after_upserts (h : Behind ctx db rows) (hrows : ∀ row ∈ written, rows row.key = some row) :
    Behind ctx (written.foldl (Db.upsertRow · ctx ·) db) rows := by
  intro r hr
  rcases (h.upserts hrows r).mp hr with ⟨hinstance, htemplate, hmem⟩ | ⟨hold, -⟩
  · exact ⟨hinstance, htemplate, r.row, hrows _ hmem, le_rfl, rfl⟩
  · exact h r hold

end

/-! ## Logs -/

section

open ProjectionFold

def stepProjection (registry : InterfaceRegistry) : Projection State := ⟨fun _ => true, .new, .absorb (.build registry)⟩

def rowsOf (registry : InterfaceRegistry) (log : List PersistedEvent) (key : String × Nat) : Option StepExecutionRow :=
  ((foldLog (stepProjection registry) log).final registry).rows.get? key

variable {registry : InterfaceRegistry} {log : List PersistedEvent}

theorem foldLog_append (log more : List PersistedEvent) : foldLog (stepProjection registry) (log ++ more) =
    more.foldl (State.absorb (.build registry)) (foldLog (stepProjection registry) log) := List.foldl_append ..

theorem sound_new (l : Lookups) (bound : Nat) : Sound l bound .new where
  rows key row hrow := by
    have hnone : State.new.rows.get? key = none := KeyedList.get?_empty key
    rw [hnone] at hrow
    cases hrow
  rooted nodeId hrow := by
    obtain ⟨iter, hi⟩ := hrow
    have hnone : State.new.rows.get? (nodeId, iter) = none := KeyedList.get?_empty _
    rw [hnone] at hi
    cases hi
  fresh _ _ := ⟨Finmap.lookup_empty _, Finmap.lookup_empty _⟩
  ended := rfl
  outcome c hc := by cases hc

theorem sound_foldLog : ∀ {log : List PersistedEvent} {bound : Nat}, Numbered log → (∀ e ∈ log, e.sequence ≤ bound) →
    Sound (.build registry) bound (foldLog (stepProjection registry) log) := by
  intro log
  induction log using List.reverseRecOn with
  | nil =>
    intro bound _ _
    exact sound_new _ bound
  | append_singleton log ev ih =>
    intro bound hnum hbound
    obtain ⟨hlog, -, hlt⟩ := List.pairwise_append.mp hnum
    have hbefore := ih hlog fun e he => (hlt e he ev (List.mem_singleton_self _)).le
    rw [foldLog_append]
    exact (hbefore.absorb le_rfl).1.mono (hbound ev (List.mem_append_right _ (List.mem_singleton_self _)))

theorem absorb_of_not_delivered (l : Lookups) (s : State) {ev : PersistedEvent} (h : ¬ isDelivered ev.event) :
    s.absorb l ev = s := by
  unfold State.absorb
  unfold isDelivered at h
  split <;> simp_all

theorem foldl_absorb_of_not_delivered (l : Lookups) : ∀ (events : List PersistedEvent) (s : State),
    (∀ ev ∈ events, ¬ isDelivered ev.event) → events.foldl (State.absorb l) s = s
  | [], _, _ => rfl
  | ev :: events, s, h => by
    rw [List.foldl_cons, absorb_of_not_delivered l s (h ev List.mem_cons_self)]
    exact foldl_absorb_of_not_delivered l events s fun e he => h e (List.mem_cons_of_mem _ he)

variable {n : Nat} {entry : NetEntry State}

theorem foldLog_take_of_not_delivered {m : Nat} (hle : m ≤ n)
    (h : ∀ ev ∈ (log.take n).drop m, ¬ isDelivered ev.event) :
    foldLog (stepProjection registry) (log.take n) = foldLog (stepProjection registry) (log.take m) := by
  have hsplit : log.take n = log.take m ++ (log.take n).drop m := by
    conv_lhs => rw [← List.take_append_drop m (log.take n), List.take_take, Nat.min_eq_left hle]
  rw [hsplit, foldLog_append, foldl_absorb_of_not_delivered _ _ _ h]

theorem rowsOf_later (hkeyed : Keyed registry) : ∀ {more log : List PersistedEvent}, Numbered (log ++ more) →
    ∀ {key row}, rowsOf registry log key = some row → ∃ row', rowsOf registry (log ++ more) key = some row' ∧
      row.lastSequence ≤ row'.lastSequence ∧ row.nodeKind = row'.nodeKind := by
  intro more
  induction more using List.reverseRecOn with
  | nil =>
    intro log _ key row hrow
    rw [List.append_nil]
    exact ⟨row, hrow, le_rfl, rfl⟩
  | append_singleton more ev ih =>
    intro log hnum key row hrow
    rw [← List.append_assoc] at hnum ⊢
    obtain ⟨hbefore, -, hlt⟩ := List.pairwise_append.mp hnum
    obtain ⟨row', hrow', hle, hkind⟩ := ih hbefore hrow
    have hsound : Sound (.build registry) ev.sequence (foldLog (stepProjection registry) (log ++ more)) :=
      sound_foldLog hbefore fun e he => (hlt e he ev (List.mem_singleton_self _)).le
    obtain ⟨hsound', hgrows⟩ := hsound.absorb (le_refl ev.sequence)
    obtain ⟨row'', hrow'', hle'⟩ := grows_final hkeyed hsound' hgrows absorb_terminated key row' hrow'
    have hrow₂ : rowsOf registry (log ++ more ++ [ev]) key = some row'' := by
      unfold rowsOf
      rw [foldLog_append]
      exact hrow''
    refine ⟨row'', hrow₂, hle.trans hle', hkind.trans ?_⟩
    rw [hsound.kind_final hkeyed hrow', hsound'.kind_final hkeyed hrow'']

/-! ## Entries -/

/-- The entry is that of the first `n` events, of which there is one. -/
structure Cached (registry : InterfaceRegistry) (log : List PersistedEvent) (n : Nat) (entry : NetEntry State) : Prop where
  state : Shows registry (foldLog (stepProjection registry) (log.take n)) entry.state
  clean : entry.state.dirty = []
  last : ∃ ev, log[n - 1]? = some ev ∧ ev.sequence = entry.lastApplied
  pos : 0 < n

variable {i : Nat} {ev : PersistedEvent} {ctx : InstanceContext} {db : Db}
  {written : List StepExecutionRow}

theorem Cached.le_iff (h : Cached registry log n entry)
    (hnum : Numbered log) (hev : log[i]? = some ev) : ev.sequence ≤ entry.lastApplied ↔ i < n := by
  obtain ⟨last, hlast, heq⟩ := h.last
  have hpos := h.pos
  rw [← heq, hnum.le_iff hev hlast]
  omega

theorem Cached.filter_eq (h : Cached registry log n entry) (hnum : Numbered log) :
    log.filter (·.sequence ≤ entry.lastApplied) = log.take n := by
  conv_lhs => rw [← List.take_append_drop n log]
  rw [List.filter_append, List.filter_eq_self.mpr, List.filter_eq_nil_iff.mpr, List.append_nil]
  · intro ev hev hle
    obtain ⟨i, hi⟩ := List.mem_iff_getElem?.mp hev
    rw [List.getElem?_drop] at hi
    have := (h.le_iff hnum hi).mp (of_decide_eq_true hle)
    omega
  · intro ev hev
    obtain ⟨i, hi⟩ := List.mem_iff_getElem?.mp hev
    rw [List.getElem?_take] at hi
    split at hi
    · next hlt => exact decide_eq_true ((h.le_iff hnum hi).mpr hlt)
    · cases hi

theorem mem_dirtyRows {c : State} {row : StepExecutionRow} :
    row ∈ c.takeDirtyRows.2 ↔ row.key ∈ c.dirty ∧ c.rows.get? row.key = some row := by
  show row ∈ c.dirty.filterMap c.rows.get? ↔ _
  rw [List.mem_filterMap]
  constructor
  · rintro ⟨key, hkey, hrow⟩
    rw [KeyedList.key_of_get? hrow]
    exact ⟨hkey, hrow⟩
  · exact fun ⟨hkey, hrow⟩ => ⟨_, hkey, hrow⟩

/-- What processing an event comes to, where nothing fails: an entry of the first `m` events, and their rows. -/
structure Processed (registry : InterfaceRegistry) (ctx : InstanceContext) (log : List PersistedEvent) (db : Db)
    (m : Nat) (entry : NetEntry State) (written : List StepExecutionRow) : Prop where
  cached : Cached registry log m entry
  rows : ∀ row ∈ written, rowsOf registry (log.take m) row.key = some row
  behind : Behind ctx db (rowsOf registry (log.take m))
  holds : Holds ctx (written.foldl (Db.upsertRow · ctx ·) db) (rowsOf registry (log.take m))

theorem processed_bootstrap (hnum : Numbered log)
    (hlog : log ≠ []) (hbehind : Behind ctx db (rowsOf registry log))
    (hwritten : ∀ row, row ∈ written ↔ row ∈ (bootstrap registry log).2) :
    Processed registry ctx log db log.length (bootstrap registry log).1 written := by
  obtain ⟨n, hn⟩ : ∃ n, log.length = n + 1 := ⟨log.length - 1, by have := List.length_pos_iff.mpr hlog; omega⟩
  obtain ⟨last, hlast⟩ : ∃ last, log[n]? = some last := ⟨_, List.getElem?_eq_getElem (by omega)⟩
  have hstream := streamEvents_take (p := stepProjection registry) hnum hlast
  rw [← hn, List.take_length] at hstream
  have hboot : bootstrap registry log =
      (⟨last.sequence, (((foldLog (stepProjection registry) log).final registry).takeDirtyRows).1⟩,
        (((foldLog (stepProjection registry) log).final registry).takeDirtyRows).2) := by
    unfold bootstrap
    rw [show streamEvents log (State.absorb (.build registry)) .new = _ from hstream]
    rfl
  rw [hboot] at hwritten ⊢
  -- every row was changed since the empty state
  have htouched : Touched .new ((foldLog (stepProjection registry) log).final registry) :=
    ((Touched.foldl_absorb log .new).trans (.closeOpenRows _)).trans (.finalizeUnreached _ registry)
  have hall : ∀ key row, rowsOf registry log key = some row → row ∈ written ∧ row.key = key := by
    intro key row hrow
    have hkey : row.key = key := KeyedList.key_of_get? hrow
    refine ⟨(hwritten row).mpr (mem_dirtyRows.mpr ⟨?_, ?_⟩), hkey⟩
    · rcases htouched.rows key with hsame | hdirty
      · have hnone : State.new.rows.get? key = none := KeyedList.get?_empty key
        exact absurd (hrow.symm.trans (hsame.trans hnone)) nofun
      · rwa [hkey]
    · rw [hkey]
      exact hrow
  have hrows : ∀ row ∈ written, rowsOf registry log row.key = some row :=
    fun row hrow => (mem_dirtyRows.mp ((hwritten row).mp hrow)).2
  refine ⟨⟨⟨?_, ?_⟩, rfl, ⟨last, ?_, rfl⟩, by omega⟩, ?_, ?_, ?_⟩
  · rw [List.take_length]
    exact fun key => rfl
  · rw [List.take_length]
    exact marks_final _
  · rw [show log.length - 1 = n by omega]
    exact hlast
  · rwa [List.take_length]
  · rwa [List.take_length]
  · rw [List.take_length]
    exact hbehind.upserts_all hrows hall

theorem processed_apply (hnum : Numbered log) (hkeyed : Keyed registry)
    (h : Cached registry log n entry) (hholds : Holds ctx db (rowsOf registry (log.take n)))
    (hev : log[i]? = some ev) (hle : n ≤ i) (hbetween : ∀ e ∈ (log.take i).drop n, ¬ isDelivered e.event)
    (hcompatible : (foldLog (stepProjection registry) (log.take n)).terminated = true →
      Compatible (.build registry) (foldLog (stepProjection registry) (log.take n)) ev)
    (hwritten : ∀ row, row ∈ written ↔ row ∈ (apply registry entry.state ev).2) :
    Processed registry ctx log db (i + 1) (apply registry entry.state ev).1 written := by
  have happly : apply registry entry.state ev =
      (⟨ev.sequence, (((entry.state.absorb (.build registry) ev).final registry).takeDirtyRows).1⟩,
        (((entry.state.absorb (.build registry) ev).final registry).takeDirtyRows).2) := rfl
  rw [happly] at hwritten ⊢
  have hfold : foldLog (stepProjection registry) (log.take (i + 1)) =
      (foldLog (stepProjection registry) (log.take n)).absorb (.build registry) ev := by
    rw [foldLog_take_succ hev, foldLog_take_of_not_delivered hle hbetween]
    rfl
  have hnumTake : ∀ k, Numbered (log.take k) := fun k => hnum.sublist (List.take_sublist k log)
  have hsound : Sound (.build registry) ev.sequence (foldLog (stepProjection registry) (log.take n)) := by
    refine sound_foldLog (hnumTake n) fun e he => ?_
    obtain ⟨j, hj⟩ := List.mem_iff_getElem?.mp he
    rw [List.getElem?_take] at hj
    split at hj
    · exact (hnum.le_iff hj hev).mpr (by omega)
    · cases hj
  have hshows := h.state.absorb hkeyed hsound le_rfl hcompatible
  rw [← hfold] at hshows
  have hnew : ∀ key, rowsOf registry (log.take (i + 1)) key =
      ((entry.state.absorb (.build registry) ev).final registry).rows.get? key := fun key => (hshows.rows key).symm
  have hrows : ∀ row ∈ written, rowsOf registry (log.take (i + 1)) row.key = some row := by
    intro row hrow
    rw [hnew]
    exact (mem_dirtyRows.mp ((hwritten row).mp hrow)).2
  have hlater : ∀ key row, rowsOf registry (log.take n) key = some row →
      ∃ row', rowsOf registry (log.take (i + 1)) key = some row' ∧ row.lastSequence ≤ row'.lastSequence ∧
        row.nodeKind = row'.nodeKind := by
    intro key row hrow
    have hsplit : log.take (i + 1) = log.take n ++ (log.take (i + 1)).drop n := by
      conv_lhs => rw [← List.take_append_drop n (log.take (i + 1)), List.take_take, Nat.min_eq_left (by omega)]
    rw [hsplit]
    exact rowsOf_later hkeyed (hsplit ▸ hnumTake (i + 1)) hrow
  have hbehind := hholds.behind.mono hlater
  have htouched : Touched entry.state ((entry.state.absorb (.build registry) ev).final registry) :=
    ((Touched.absorb entry.state ev).trans (.closeOpenRows _)).trans (.finalizeUnreached _ registry)
  refine ⟨⟨⟨hshows.rows, hshows.marks⟩, rfl, ⟨ev, hev, rfl⟩, Nat.succ_pos i⟩, hrows, hbehind,
    hholds.upserts hbehind hrows fun key => ?_⟩
  rcases htouched.rows key with hsame | hdirty
  · exact Or.inl ((hnew key).trans (hsame.trans (h.state.rows key)))
  · cases hrow : rowsOf registry (log.take (i + 1)) key with
    | none =>
      cases hold : rowsOf registry (log.take n) key with
      | none => exact Or.inl rfl
      | some old =>
        obtain ⟨row', hrow', -⟩ := hlater key old hold
        exact absurd (hrow.symm.trans hrow') nofun
    | some row =>
      have hkey : row.key = key := KeyedList.key_of_get? hrow
      refine Or.inr ⟨row, (hwritten row).mpr (mem_dirtyRows.mpr ⟨by rwa [hkey], ?_⟩), hkey⟩
      rw [hkey, ← hnew]
      exact hrow

/-! ## Runs -/

namespace Ingest

/-- An event that is folded into an entry whose net has ended is compatible with the fold so far. -/
def Meets (registry : InterfaceRegistry) (s : Ingest) : IngestAction → Prop
  | .deliver position _ _ => ∀ ev entry, s.log[position]? = some ev → s.entry = some entry →
      entry.lastApplied < ev.sequence → entry.state.terminated = true →
        Compatible (.build registry)
          ((s.log.filter (·.sequence ≤ entry.lastApplied)).foldl (State.absorb (.build registry)) .new) ev
  | _ => True

/-- The table holds what the fold over the delivered events gives. -/
structure Inv (registry : InterfaceRegistry) (ctx : InstanceContext) (s : Ingest) : Prop where
  numbered : Numbered s.log
  delivered : s.delivered ≤ s.log.length
  seen : ∀ ev ∈ s.acked, ev ∈ s.log.take s.delivered
  cached : ∀ entry ∈ s.entry, ∃ n, s.delivered ≤ n ∧ n ≤ s.log.length ∧ Cached registry s.log n entry ∧
    Holds ctx s.db (rowsOf registry (s.log.take n))
  behind : Behind ctx s.db (rowsOf registry s.log)
  /-- The table has the rows of all that is acknowledged, or not all is. -/
  known : (∃ n, (∀ ev ∈ s.acked, ev ∈ s.log.take n) ∧ Holds ctx s.db (rowsOf registry (s.log.take n))) ∨
    ∃ ev ∈ s.log, isDelivered ev.event = true ∧ ev ∉ s.acked

variable {ctx : InstanceContext} {order : List StepExecutionRow → List StepExecutionRow} {s s' : Ingest}

theorem rowsOf_nil (registry : InterfaceRegistry) (key : String × Nat) : rowsOf registry [] key = none := by
  have hfinal : State.new.final registry = .new := by
    simp [State.final, State.closeOpenRows, State.finalizeUnreached, State.new]
  show (State.new.final registry).rows.get? key = none
  rw [hfinal]
  exact KeyedList.get?_empty key

theorem inv_start (registry : InterfaceRegistry) (ctx : InstanceContext) : Inv registry ctx .start where
  numbered := List.Pairwise.nil
  delivered := le_rfl
  seen ev hev := absurd hev List.not_mem_nil
  cached entry hentry := by cases hentry
  behind r hr := absurd hr List.not_mem_nil
  known := by
    refine Or.inl ⟨0, fun ev hev => absurd hev List.not_mem_nil, fun r => iff_of_false List.not_mem_nil ?_⟩
    rintro ⟨-, -, hrow⟩
    exact absurd (hrow.symm.trans (rowsOf_nil registry r.row.key)) nofun

theorem rowsOf_take_of_delivered (registry : InterfaceRegistry) (hnum : Numbered log) {n : Nat}
    (h : ∀ ev ∈ log, isDelivered ev.event = true → ev ∈ log.take n) :
    rowsOf registry (log.take n) = rowsOf registry log := by
  rcases Nat.le_total log.length n with hle | hle
  · rw [List.take_of_length_le hle]
  · have hrest : ∀ ev ∈ (log.take log.length).drop n, ¬ isDelivered ev.event := by
      intro ev hev hdelivered
      rw [List.take_length] at hev
      have htake := h ev (List.mem_of_mem_drop hev) hdelivered
      have hlt := (List.pairwise_append.mp ((List.take_append_drop n log).symm ▸ hnum)).2.2 ev htake ev hev
      exact lt_irrefl _ hlt
    have hfold : foldLog (stepProjection registry) (log.take log.length) = _ := foldLog_take_of_not_delivered hle hrest
    rw [List.take_length] at hfold
    unfold rowsOf
    rw [hfold]

variable {position : Nat} {ev : PersistedEvent}

theorem processed_of_step (hkeyed : Keyed registry)
    (horder : ∀ rows, (order rows).Perm rows) (h : Inv registry ctx s) (hev : s.log[position]? = some ev)
    (hbetween : ∀ e ∈ (s.log.take position).drop s.delivered, ¬ isDelivered e.event)
    (hmeets : ∀ failsAfter acks, Meets registry s (.deliver position failsAfter acks)) :
    ∃ m entry, (stepEvent registry s.log s.entry ev).1 = cached ev entry ∧ max s.delivered (position + 1) ≤ m ∧
      m ≤ s.log.length ∧
        Processed registry ctx s.log s.db m entry ((stepEvent registry s.log s.entry ev).2.flatMap order) := by
  have hlt : position < s.log.length := (List.getElem?_eq_some_iff.mp hev).1
  have hmem : ∀ rows row, row ∈ [rows].flatMap order ↔ row ∈ rows := by
    intro rows row
    rw [List.flatMap_singleton]
    exact (horder rows).mem_iff
  have hdelivered := h.delivered
  cases hentry : s.entry with
  | none =>
    have hlog : s.log ≠ [] := List.ne_nil_of_mem (List.mem_of_getElem? hev)
    have hprocessed := processed_bootstrap h.numbered hlog h.behind (hmem (bootstrap registry s.log).2)
    have hle : ¬ (bootstrap registry s.log).1.lastApplied < ev.sequence := by
      rw [not_lt, hprocessed.cached.le_iff h.numbered hev]
      exact hlt
    have hstep : stepEvent registry s.log none ev =
        (cached ev (bootstrap registry s.log).1, [(bootstrap registry s.log).2]) := if_neg hle
    rw [hstep]
    exact ⟨s.log.length, _, rfl, by omega, le_rfl, hprocessed⟩
  | some entry =>
    obtain ⟨n, hdn, hnl, hcached, hholds⟩ := h.cached entry hentry
    by_cases hle : ev.sequence ≤ entry.lastApplied
    · have hstep : stepEvent registry s.log (some entry) ev = (cached ev entry, []) := by
        have hskip : classify (some entry.lastApplied) ev.sequence = .skipDup := if_pos hle
        unfold stepEvent
        rw [Option.map_some, hskip]
      rw [hstep]
      have hn := (hcached.le_iff h.numbered hev).mp hle
      refine ⟨n, entry, rfl, by omega, hnl, hcached, fun row hrow => absurd hrow List.not_mem_nil, hholds.behind, hholds⟩
    · have hstep : stepEvent registry s.log (some entry) ev =
          (cached ev (apply registry entry.state ev).1, [(apply registry entry.state ev).2]) := by
        have happly : classify (some entry.lastApplied) ev.sequence = .apply := if_neg hle
        unfold stepEvent
        rw [Option.map_some, happly]
      rw [hstep]
      have hn : ¬ position < n := fun hlt => hle ((hcached.le_iff h.numbered hev).mpr hlt)
      refine ⟨position + 1, _, rfl, by omega, by omega, ?_⟩
      refine processed_apply h.numbered hkeyed hcached hholds hev (by omega) (fun e he => ?_) (fun hterminated => ?_)
        (hmem (apply registry entry.state ev).2)
      · exact hbetween e (List.drop_subset_drop_left _ hdn he)
      · have hcompatible := hmeets none true ev entry hev hentry (Nat.lt_of_not_le hle) ?_
        · rw [hcached.filter_eq h.numbered] at hcompatible
          exact hcompatible
        · rw [show entry.state.terminated = _ from congrArg (·.2.2.2.1) hcached.state.marks]
          exact hterminated

theorem behind_log {db : Db} {n : Nat} (hkeyed : Keyed registry) (hnum : Numbered log)
    (h : Behind ctx db (rowsOf registry (log.take n))) : Behind ctx db (rowsOf registry log) := by
  refine h.mono fun key row hrow => ?_
  have hsplit : Numbered (log.take n ++ log.drop n) := by rwa [List.take_append_drop]
  have hlater := rowsOf_later hkeyed hsplit hrow
  rwa [List.take_append_drop] at hlater

variable {m : Nat} {written : List StepExecutionRow}

theorem inv_delivered {entry : NetEntry State} (hkeyed : Keyed registry) (h : Inv registry ctx s)
    (hev : s.log[position]? = some ev) (hm : max s.delivered (position + 1) ≤ m) (hlength : m ≤ s.log.length)
    (hprocessed : Processed registry ctx s.log s.db m entry written) (acks : Bool) : Inv registry ctx { s with
        entry := cached ev entry
        db := written.foldl (Db.upsertRow · ctx ·) s.db
        acked := if acks then ev :: s.acked else s.acked
        delivered := max s.delivered (position + 1) } := by
  have hacked : ∀ e ∈ (if acks then ev :: s.acked else s.acked), e ∈ s.log.take (max s.delivered (position + 1)) := by
    have hold : ∀ e ∈ s.acked, e ∈ s.log.take (max s.delivered (position + 1)) := fun e he =>
      List.take_subset_take_left s.log (Nat.le_max_left ..) (h.seen e he)
    intro e he
    split at he
    · rcases List.mem_cons.mp he with rfl | he
      · refine List.mem_of_getElem? (i := position) ?_
        rw [List.getElem?_take, if_pos (by omega)]
        exact hev
      · exact hold e he
    · exact hold e he
  constructor
  case numbered => exact h.numbered
  case delivered => exact hm.trans hlength
  case seen => exact hacked
  case cached =>
    intro e he
    have hsome : cached ev entry = some e := he
    unfold cached at hsome
    split at hsome
    · cases hsome
    · cases hsome
      exact ⟨m, hm, hlength, hprocessed.cached, hprocessed.holds⟩
  case behind => exact behind_log hkeyed h.numbered hprocessed.holds.behind
  case known => exact Or.inl ⟨m, fun e he => List.take_subset_take_left s.log hm (hacked e he), hprocessed.holds⟩

theorem inv_failed {entry : NetEntry State}
    (hkeyed : Keyed registry) (h : Inv registry ctx s) (hm : max s.delivered (position + 1) ≤ m)
    (hlength : m ≤ s.log.length) (hprocessed : Processed registry ctx s.log s.db m entry written) (n : Nat) :
    Inv registry ctx { s with
        entry := none
        db := (written.take n).foldl (Db.upsertRow · ctx ·) s.db
        delivered := max s.delivered (position + 1) } := by
  have hrows : ∀ row ∈ written.take n, rowsOf registry (s.log.take m) row.key = some row :=
    fun row hrow => hprocessed.rows row (List.mem_of_mem_take hrow)
  constructor
  case numbered => exact h.numbered
  case delivered => exact hm.trans hlength
  case seen => exact fun e he => List.take_subset_take_left s.log (Nat.le_max_left ..) (h.seen e he)
  case cached => exact fun e he => by cases he
  case behind => exact behind_log hkeyed h.numbered (hprocessed.behind.after_upserts hrows)
  case known =>
    by_cases hpending : ∃ ev ∈ s.log, isDelivered ev.event = true ∧ ev ∉ s.acked
    · exact Or.inr hpending
    · -- all is acknowledged: the rows that were written are those that are there
      have hall : ∀ ev ∈ s.log, isDelivered ev.event = true → ev ∈ s.acked := fun ev hev hdelivered =>
        not_not.mp fun hnot => hpending ⟨ev, hev, hdelivered, hnot⟩
      obtain ⟨k, hacked, hholds⟩ := h.known.resolve_right hpending
      have hk := rowsOf_take_of_delivered registry h.numbered fun ev hev hd => hacked ev (hall ev hev hd)
      have hmrows := rowsOf_take_of_delivered registry (n := m) h.numbered fun ev hev hd =>
        List.take_subset_take_left s.log (by omega) (h.seen ev (hall ev hev hd))
      rw [hk] at hholds
      rw [hmrows] at hrows
      refine Or.inl ⟨k, hacked, ?_⟩
      rw [hk]
      exact hholds.upserts hholds.behind hrows fun key => Or.inl rfl

theorem Inv.write (hkeyed : Keyed registry) (h : Inv registry ctx s)
    (hlt : ∀ e ∈ s.log, e.sequence < ev.sequence) : Inv registry ctx { s with log := s.log ++ [ev] } := by
  have hnum : Numbered (s.log ++ [ev]) := by
    refine List.pairwise_append.mpr ⟨h.numbered, List.pairwise_singleton _ _, fun e he e' he' => ?_⟩
    rw [List.mem_singleton.mp he']
    exact hlt e he
  have htake : ∀ {n}, n ≤ s.log.length → (s.log ++ [ev]).take n = s.log.take n := fun hle =>
    List.take_append_of_le_length hle
  have hmem : ∀ {n e}, e ∈ s.log.take n → e ∈ (s.log ++ [ev]).take n := by
    intro n e he
    rw [List.take_append]
    exact List.mem_append_left _ he
  constructor
  case numbered => exact hnum
  case delivered =>
    rw [List.length_append]
    exact h.delivered.trans (Nat.le_add_right ..)
  case seen => exact fun e he => hmem (h.seen e he)
  case cached =>
    intro entry hentry
    obtain ⟨n, hdn, hnl, hcached, hholds⟩ := h.cached entry hentry
    have hpos := hcached.pos
    refine ⟨n, hdn, ?_, ⟨?_, hcached.clean, ?_, hpos⟩, ?_⟩
    · rw [List.length_append]
      exact hnl.trans (Nat.le_add_right ..)
    · rw [htake hnl]
      exact hcached.state
    · obtain ⟨last, hlast, heq⟩ := hcached.last
      exact ⟨last, (List.getElem?_append_left (by omega)).trans hlast, heq⟩
    · rw [htake hnl]
      exact hholds
  case behind => exact h.behind.mono fun key row hrow => rowsOf_later hkeyed hnum hrow
  case known =>
    rcases h.known with ⟨n, hacked, hholds⟩ | ⟨e, he, hpending⟩
    · rcases Nat.le_total n s.log.length with hle | hle
      · exact Or.inl ⟨n, fun e he => hmem (hacked e he), by rw [htake hle]; exact hholds⟩
      · refine Or.inl ⟨s.log.length, fun e he => ?_, ?_⟩
        · rw [htake le_rfl, List.take_length]
          exact List.mem_of_mem_take (hacked e he)
        · rw [htake le_rfl, List.take_length]
          rwa [List.take_of_length_le hle] at hholds
    · exact Or.inr ⟨e, List.mem_append_left _ he, hpending⟩

/-- **Every action keeps the table in order.** -/
theorem inv_step (hkeyed : Keyed registry) (horder : ∀ rows, (order rows).Perm rows) {act : IngestAction}
    (h : Inv registry ctx s) (hmeets : Meets registry s act) (hs : s.step registry ctx order act = some s') :
    Inv registry ctx s' := by
  cases act with
  | write ev =>
    unfold step at hs
    dsimp only at hs
    split at hs
    · next hlt =>
      cases hs
      exact h.write hkeyed hlt
    · cases hs
  | evict =>
    cases hs
    exact ⟨h.numbered, h.delivered, h.seen, (fun e he => by cases he), h.behind, h.known⟩
  | deliver position failsAfter acks =>
    unfold step at hs
    dsimp only at hs
    cases hev : s.log[position]? with
    | none =>
      rw [hev] at hs
      cases hs
    | some ev =>
      rw [hev] at hs
      dsimp only at hs
      split at hs
      · next hready =>
        cases hs
        obtain ⟨m, entry, hentry, hm, hlength, hprocessed⟩ :=
          processed_of_step hkeyed horder h hev hready.2 fun _ _ => hmeets
        cases failsAfter with
        | none =>
          have hinv := inv_delivered hkeyed h hev hm hlength hprocessed acks
          rw [← hentry] at hinv
          exact hinv
        | some n => exact inv_failed hkeyed h hm hlength hprocessed n
      · cases hs

theorem Inv.complete (h : Inv registry ctx s) (hacked : ∀ ev ∈ s.log, isDelivered ev.event = true → ev ∈ s.acked) :
    s.Complete registry ctx := by
  have hpending : ¬ ∃ ev ∈ s.log, isDelivered ev.event = true ∧ ev ∉ s.acked :=
    fun ⟨ev, hev, hdelivered, hnot⟩ => hnot (hacked ev hev hdelivered)
  obtain ⟨n, hseen, hholds⟩ := h.known.resolve_right hpending
  rw [rowsOf_take_of_delivered registry h.numbered fun ev hev hd => hseen ev (hacked ev hev hd)] at hholds
  have hrows : ∀ row, row ∈ projectStepExecutions s.log registry ↔ rowsOf registry s.log row.key = some row := by
    intro row
    exact ⟨fun hmem => KeyedList.get?_of_mem hmem, fun hget => KeyedList.mem_of_get? hget⟩
  refine (List.perm_ext_iff_of_nodup (s.db.stepExecution.nodup.of_map _) ?_).mpr fun r => ?_
  · refine List.Nodup.map (fun a b hab => ?_) (KeyedList.nodup _).of_map
    exact congrArg StoredRow.row hab
  · rw [hholds r, List.mem_map]
    constructor
    · rintro ⟨hinstance, htemplate, hrow⟩
      refine ⟨r.row, (hrows r.row).mpr hrow, ?_⟩
      rw [← hinstance, ← htemplate]
    · rintro ⟨row, hrow, rfl⟩
      exact ⟨rfl, rfl, (hrows row).mp hrow⟩

end Ingest

/-- **Once every event is acknowledged the table has the rows of the whole log**, whatever was delivered again, lost or
cut short, where no event was folded on closed rows that it should have found open. -/
theorem incremental_complete {ctx : InstanceContext} {order : List StepExecutionRow → List StepExecutionRow}
    {run : List IngestAction} {s : Ingest} (hkeyed : Keyed registry) (horder : ∀ rows, (order rows).Perm rows)
    (hrun : Along (Ingest.step registry ctx order) (Ingest.Meets registry) .start run)
    (hend : exec (Ingest.step registry ctx order) .start run = some s)
    (hacked : ∀ ev ∈ s.log, isDelivered ev.event = true → ev ∈ s.acked) : s.Complete registry ctx :=
  (exec_invariant_along (fun _ _ _ h hmeets hs => Ingest.inv_step hkeyed horder h hmeets hs)
    (Ingest.inv_start registry ctx) hrun hend).complete hacked

end

/-! ## An event after the end -/

namespace StrayRuns

open MapRuns

def ctx : InstanceContext := ⟨0, ⟨0, 1⟩⟩

def netFailed : PersistedEvent := event 1 (.netFailed "n" ⟨"t_other"⟩ "boom" false)

def netCompleted : PersistedEvent := event 2 (.netCompleted "n" "p_body_out" none)

def stray (sequence : Nat) : PersistedEvent :=
  event sequence (.tokenCreated (token 9) ⟨"p_other"⟩ none none none none)

/-- Each event is written, delivered and acknowledged. -/
def inTurn (events : List PersistedEvent) : List IngestAction :=
  events.zipIdx.flatMap fun e => [.write e.1, .deliver e.2 none true]

def endOf (run : List IngestAction) : Ingest := (exec (Ingest.step registry ctx id) .start run).getD .start

end StrayRuns

open MapRuns StrayRuns

theorem keyed_registry : Keyed registry := by
  unfold Keyed
  decide

/-- An event that meets an entry whose net has not ended, or no entry, meets the condition. -/
theorem Ingest.meets_of_running {registry : InterfaceRegistry} {s : Ingest} (a : IngestAction)
    (h : s.entry.all (fun entry => !entry.state.terminated) = true) : Ingest.Meets registry s a := by
  cases a with
  | write ev => trivial
  | evict => trivial
  | deliver position failsAfter acks =>
    intro ev entry _ hentry _ hterminated
    rw [hentry, Option.all_some, hterminated] at h
    cases h

/-- A net completes, a stray token makes a new entry, and the firing for the second item is folded into it: the
rows that it finds are closed as completed. -/
theorem incremental_complete_late : ∃ s, exec (Ingest.step registry ctx id) .start
    (inTurn [scattered, parked 1, netCompleted, stray 3, parked 4]) = some s ∧ s.Complete registry ctx := by
  have hopen : Along (Ingest.step registry ctx id) (fun s a => (a matches .write _) = true ∨
      s.entry.all (fun entry => !entry.state.terminated) = true) .start
        (inTurn [scattered, parked 1, netCompleted, stray 3] ++ [.write (parked 4)]) := by decide
  have hmeets : Along (Ingest.step registry ctx id) (Ingest.Meets registry) .start
      (inTurn [scattered, parked 1, netCompleted, stray 3] ++ [.write (parked 4)] ++ [.deliver 4 none true]) := by
    refine (hopen.mono fun s a h => ?_).append fun t ht => ⟨?_, fun _ _ => trivial⟩
    · rcases h with h | h
      · cases a with
        | write ev => trivial
        | _ => cases h
      · exact Ingest.meets_of_running a h
    · obtain rfl : t = endOf (inTurn [scattered, parked 1, netCompleted, stray 3] ++ [.write (parked 4)]) := by
        rw [endOf, ht, Option.getD_some]
      intro ev entry hev hentry _ _
      obtain rfl : parked 4 = ev := Option.some.inj hev
      have hlast : entry.lastApplied = 3 := by
        have : (endOf (inTurn [scattered, parked 1, netCompleted, stray 3] ++ [.write (parked 4)])).entry.map
          (·.lastApplied) = some 3 := by decide
        rw [hentry] at this
        exact Option.some.inj this
      rw [hlast]
      refine ⟨fun e he nodeId hnode => ?_, fun f hf owner howner => ?_, fun hfailed => absurd hfailed (by decide)⟩
      · obtain rfl := List.mem_singleton.mp he
        have hnone : (Lookups.build registry).entryToNode.lookup "p_body_data" = none := by decide
        exact absurd (hnone.symm.trans hnode) (by simp)
      · obtain rfl := Option.mem_some.mp hf
        obtain rfl : "body" = owner := Option.some.inj howner
        exact ⟨0, by decide⟩
  cases hrun : exec (Ingest.step registry ctx id) .start
      (inTurn [scattered, parked 1, netCompleted, stray 3, parked 4]) with
  | none => exact absurd (congrArg Option.isSome hrun) (by decide)
  | some s =>
    have hs : s = endOf (inTurn [scattered, parked 1, netCompleted, stray 3, parked 4]) := by
      rw [endOf, hrun, Option.getD_some]
    refine ⟨s, rfl, incremental_complete keyed_registry List.Perm.refl hmeets hrun ?_⟩
    rw [hs]
    decide

/-- The net fails, a stray token makes a new entry, and the item that is then done stays failed. -/
theorem stray_on_closed_rows : ∃ s, exec (Ingest.step registry ctx id) .start
    (inTurn [scattered, netFailed, stray 2, parked 3]) = some s ∧
      (∀ ev ∈ s.log, isDelivered ev.event = true → ev ∈ s.acked) ∧ ¬ s.Complete registry ctx := by
  cases hrun : exec (Ingest.step registry ctx id) .start (inTurn [scattered, netFailed, stray 2, parked 3]) with
  | none => exact absurd (congrArg Option.isSome hrun) (by decide)
  | some s =>
    have hs : s = endOf (inTurn [scattered, netFailed, stray 2, parked 3]) := by rw [endOf, hrun, Option.getD_some]
    refine ⟨s, rfl, ?_, ?_⟩
    · rw [hs]
      decide
    · rw [hs]
      unfold Ingest.Complete
      decide

end StepExecutions

end Mekhan
