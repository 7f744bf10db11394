import Mekhan.Projections.StepExecutions

/-!
# The outcome of an activation

The projection credits all work of a node to the row of the token that entered it last. So a row shows what
falls into its window, from the arrival of its token to that of the next one, whoever's work it is:
`absorb_tracks` says that this is all it shows.

Two items of a map that are both done after the second one entered are the case that it excludes
(`second_item_takes_both`).
-/

namespace Mekhan

namespace StepExecutions

open Infra

/-! ## What an event is to a node -/

section

variable (l : Lookups) (node : String)

/-- The tokens of an event that the projection looks at. -/
def producedTokens : DomainEvent → List (PlaceId × Token)
  | .tokenCreated token placeId .. => [(placeId, token)]
  | .transitionFired _ _ _ produced .. | .effectCompleted _ _ _ produced .. => produced
  | _ => []

def entersNode (e : PlaceId × Token) : Bool := l.entryToNode.lookup e.1.name = some node

def arrivalsOf (ev : DomainEvent) : List TokenId := ((producedTokens ev).filter (entersNode l node)).map (·.2.id)

def ownedBy : DomainEvent → Bool
  | .transitionFired t .. | .effectCompleted t .. | .effectFailed t .. => l.transitionOwner.lookup t.name = some node
  | _ => false

/-- The outputs that tokens bring to the node's data port. -/
def dataDeposits (tokens : List (PlaceId × Token)) : List Json :=
  (tokens.filter fun e => l.dataPortToNode.lookup e.1.name = some node).map fun e =>
    canonicalOutputPayload (l.kindOf node) (tokenColorToJson e.2.color)

def depositsOf (ev : DomainEvent) : List Json :=
  if ownedBy l node ev then dataDeposits l node (producedTokens ev) else []

def onErrorOutput (e : PlaceId × Token) : Bool := (StepExecutionRow.outputAt l node e.1).any (·.isError)

/-- The event records a failure of the node: a failed effect, or a token on its error output. -/
def failsOf (ev : DomainEvent) : Bool :=
  ownedBy l node ev &&
    match ev with
    | .effectFailed .. => true
    | ev => (producedTokens ev).any (onErrorOutput l node)

end

def terminalStatus : DomainEvent → Option StepStatus
  | .netFailed .. => some .failed
  | .netCompleted .. | .netCancelled .. => some .skipped
  | _ => none

/-! ## Windows -/

/-- What falls between the arrival of an entry token and that of the next one. -/
structure Window where
  token : TokenId
  iteration : Nat
  deposits : List Json
  failed : Bool

namespace Window

/-- The status that the window decides, `none` for an open row. -/
def outcome (w : Window) : Option StepStatus :=
  if w.failed then some .failed else if w.deposits.isEmpty then none else some .completed

def record (w : Window) (deposits : List Json) (failed : Bool) : Window :=
  { w with deposits := w.deposits ++ deposits, failed := w.failed || failed }

end Window

section

variable (l : Lookups) (node : String)

/-- A new token opens a window; the newest comes first. -/
def enter (ws : List Window) (token : TokenId) : List Window :=
  if token ∈ ws.map (·.token) then ws else ⟨token, ws.length, [], false⟩ :: ws

/-- The newest window takes what an event says. -/
def recordLast (ws : List Window) (deposits : List Json) (failed : Bool) : List Window :=
  match ws with
  | [] => []
  | w :: ws => w.record deposits failed :: ws

def windowStep (ws : List Window) (ev : DomainEvent) : List Window :=
  recordLast ((arrivalsOf l node ev).foldl enter ws) (depositsOf l node ev) (failsOf l node ev)

def windows (events : List PersistedEvent) : List Window :=
  events.foldl (fun ws ev => windowStep l node ws ev.event) []

end

/-! ## The logs of a run -/

/-- Each event is tagged with the activation whose work it is: the place of its token among those that
entered the node. An activation has entered before. -/
def Entered (l : Lookups) (node : String) : List Window → List (PersistedEvent × Nat) → Prop
  | _, [] => True
  | ws, (ev, activation) :: log =>
    (ownedBy l node ev.event → activation < ws.length) ∧ Entered l node (windowStep l node ws ev.event) log

instance decidableEntered (l : Lookups) (node : String) : ∀ ws log, Decidable (Entered l node ws log)
  | _, [] => isTrue trivial
  | ws, (ev, _) :: log =>
    have := decidableEntered l node (windowStep l node ws ev.event) log
    inferInstanceAs (Decidable (_ ∧ _))

/-- What an activation deposits on the data port of the node. -/
def depositsBy (l : Lookups) (node : String) (log : List (PersistedEvent × Nat)) (activation : Nat) : List Json :=
  (log.filter (·.2 = activation)).flatMap fun e => depositsOf l node e.1.event

/-- The log of a run that activates a node with a data port. -/
structure ActivationLog (registry : InterfaceRegistry) (node : String) where
  log : List (PersistedEvent × Nat)
  iface : NodeInterface
  registered : registry.lookup node = some iface
  parks : iface.dataPort.isSome
  /-- Workflow terminals belong to nodes without a data port. -/
  noTerminals : ∀ i ∈ registry.values, i.nodeId = node → i.workflowTerminals = []
  entered : Entered (.build registry) node [] log
  activated : windows (.build registry) node (log.map (·.1)) ≠ []
  once : ∀ e ∈ log, (depositsBy (.build registry) node log e.2).length ≤ 1

namespace ActivationLog

variable {registry : InterfaceRegistry} {node : String} (a : ActivationLog registry node)

def events : List PersistedEvent := a.log.map (·.1)

def rows : List StepExecutionRow := (projectStepExecutions a.events registry).filter (·.nodeId = node)

def entryTokens : List TokenId := (a.events.flatMap fun ev => arrivalsOf (.build registry) node ev.event).dedup

/-- All that was deposited on its data port. -/
def deposits : List Json := a.events.flatMap fun ev => depositsOf (.build registry) node ev.event

/-- The first terminal event is a failure of the net. -/
def netFailed : Bool := a.events.findSome? (terminalStatus ·.event) = some .failed

/-- Each activation has a row of its own, with its own outcome. -/
structure OwnOutcomes : Prop where
  oneRow : (a.rows.map (·.iterationIndex)).Perm (List.range a.entryTokens.length)
  completed : ((a.rows.filter (·.status = .completed)).map (·.outputs)).Perm (a.deposits.map some)
  failed : ∀ row ∈ a.rows, row.status = .failed → depositsBy (.build registry) node a.log row.iterationIndex = []

/-- No window has two deposits, or a deposit and a failure, and no activation deposits whose own window has a
failure, or no deposit while the net fails. -/
structure KeptApart : Prop where
  single : ∀ w ∈ windows (.build registry) node a.events, w.deposits.length ≤ 1
  clean : ∀ w ∈ windows (.build registry) node a.events, w.failed → w.deposits = []
  own : ∀ w ∈ windows (.build registry) node a.events, w.failed ∨ (w.deposits = [] ∧ a.netFailed) →
    depositsBy (.build registry) node a.log w.iteration = []

end ActivationLog

/-! ## A row and its window -/

/-- The row says what the window of its activation has shown. -/
structure RowTracks (w : Window) (row : StepExecutionRow) : Prop where
  decided : ∀ status, w.outcome = some status → row.status = status
  undecided : w.outcome = none → row.isOpen
  outputs : row.outputs = w.deposits.getLast?

namespace Window

variable {w : Window}

theorem outcome_eq_failed_iff : w.outcome = some .failed ↔ w.failed := by
  unfold outcome
  split
  · next h => simp [h]
  · next h => split <;> simp [h]

theorem outcome_eq_completed_iff : w.outcome = some .completed ↔ w.deposits ≠ [] ∧ w.failed = false := by
  unfold outcome
  split
  · next h => simp [h]
  · next h => split <;> simp_all

theorem outcome_eq_none_iff : w.outcome = none ↔ w.deposits = [] ∧ w.failed = false := by
  unfold outcome
  split
  · next h => simp [h]
  · next h => split <;> simp_all

end Window

namespace RowTracks

variable {l : Lookups} {node : String} {w : Window} {row row' : StepExecutionRow} {ts : DateTime}

theorem opened (nodeId : String) (iter : Nat) (kind : NodeKind) (ts : Option DateTime) (token : TokenId) :
    RowTracks ⟨token, iter, [], false⟩ (.opened nodeId iter kind ts) where
  decided status hs := by cases hs
  undecided _ := rfl
  outputs := rfl

theorem congr (h : RowTracks w row) (hstatus : row'.status = row.status) (houtputs : row'.outputs = row.outputs) :
    RowTracks w row' where
  decided status hw := hstatus.trans (h.decided status hw)
  undecided hw := by
    rw [StepExecutionRow.isOpen, hstatus]
    exact h.undecided hw
  outputs := houtputs.trans h.outputs

theorem failed_iff (h : RowTracks w row) : row.status = .failed ↔ w.failed := by
  rw [← Window.outcome_eq_failed_iff]
  constructor
  · intro hfailed
    cases hw : w.outcome with
    | none =>
      have hopen := h.undecided hw
      simp [StepExecutionRow.isOpen, hfailed] at hopen
    | some status => rw [← h.decided status hw, hfailed]
  · exact h.decided _

theorem start (h : RowTracks w row) : RowTracks w (row.start ts) := by
  unfold StepExecutionRow.start
  split
  · next hpending =>
    refine ⟨fun status hw => ?_, fun _ => rfl, h.outputs⟩
    have hopen : w.outcome ≠ some .pending := by
      unfold Window.outcome
      split
      · simp
      · split <;> simp
    exact absurd (hw.trans (congrArg some ((h.decided status hw).symm.trans hpending))) hopen
  · exact h

theorem complete {payload : Json} (h : RowTracks w row) (houtputs : row'.outputs = some payload)
    (hstatus : row'.status = row.status) : RowTracks (w.record [payload] false) (row'.complete ts) := by
  have hfailed := h.failed_iff
  have hrecord : (w.record [payload] false).failed = w.failed := Bool.or_false _
  have hne : (w.record [payload] false).deposits ≠ [] := by simp [Window.record]
  have hlast : (w.record [payload] false).deposits.getLast? = some payload := by simp [Window.record]
  unfold StepExecutionRow.complete
  cases hw : w.failed with
  | true =>
    rw [hw] at hfailed
    rw [if_pos (hstatus.trans (hfailed.mpr rfl))]
    have hout : (w.record [payload] false).outcome = some .failed :=
      Window.outcome_eq_failed_iff.mpr (hrecord.trans hw)
    refine ⟨fun status hs => ?_, fun hn => absurd (hout.symm.trans hn) nofun, houtputs.trans hlast.symm⟩
    rw [hstatus, hfailed.mpr rfl]
    exact Option.some.inj (hout.symm.trans hs)
  | false =>
    rw [hw] at hfailed
    have hnot : row'.status ≠ .failed := fun heq => nomatch hfailed.mp (hstatus ▸ heq)
    rw [if_neg hnot]
    have hout : (w.record [payload] false).outcome = some .completed :=
      Window.outcome_eq_completed_iff.mpr ⟨hne, hrecord.trans hw⟩
    exact ⟨fun status hs => Option.some.inj (hout.symm.trans hs), fun hn => absurd (hout.symm.trans hn) nofun,
      houtputs.trans hlast.symm⟩

theorem fail {error : Json} (h : RowTracks w row) : RowTracks (w.record [] true) (row.fail ts error) := by
  have hout : (w.record [] true).outcome = some .failed := Window.outcome_eq_failed_iff.mpr (Bool.or_true _)
  refine ⟨fun status hs => Option.some.inj (hout.symm.trans hs), fun hn => absurd (hout.symm.trans hn) nofun, ?_⟩
  show row.outputs = (w.deposits ++ []).getLast?
  rw [List.append_nil, h.outputs]

variable {iface : NodeInterface}

theorem captureOutput {e : PlaceId × Token} (h : RowTracks w row)
    (hiface : l.interface node = some iface) (hparks : iface.dataPort.isSome)
    (hterminal : l.workflowTerminalToNode.lookup e.1.name ≠ some node) :
    RowTracks (w.record (dataDeposits l node [e]) (onErrorOutput l node e))
      (StepExecutionRow.captureOutput l node ts row e) := by
  have hdata : RowTracks (w.record (dataDeposits l node [e]) false)
      (StepExecutionRow.captureDataPort l node ts row e) := by
    unfold StepExecutionRow.captureDataPort dataDeposits
    by_cases hport : l.dataPortToNode.lookup e.1.name = some node
    · rw [if_pos hport, List.filter_singleton, decide_eq_true hport]
      exact h.complete rfl rfl
    · rw [if_neg hport, List.filter_singleton, decide_eq_false hport]
      simpa [Window.record] using h
  have hsplit : w.record (dataDeposits l node [e]) (onErrorOutput l node e) =
      (w.record (dataDeposits l node [e]) false).record [] (onErrorOutput l node e) := by
    simp [Window.record]
  rw [StepExecutionRow.captureOutput, StepExecutionRow.captureTerminal, if_neg hterminal,
    StepExecutionRow.captureBranch, hiface, hsplit]
  have hnone : ¬ iface.dataPort.isNone := by
    rw [Option.isNone_iff_eq_none]
    exact fun hn => by simp [hn] at hparks
  cases hout : StepExecutionRow.outputAt l node e.1 with
  | none => simpa [onErrorOutput, hout, Window.record] using hdata
  | some key =>
    dsimp only
    rw [if_neg hnone]
    cases hkey : key.isError with
    | false => simpa [onErrorOutput, hout, hkey, Window.record] using hdata
    | true =>
      rw [if_pos rfl, show onErrorOutput l node e = true by rw [onErrorOutput, hout, Option.any_some, hkey]]
      exact hdata.fail

theorem foldl_captureOutput (hiface : l.interface node = some iface)
    (hparks : iface.dataPort.isSome) (hterminal : ∀ place, l.workflowTerminalToNode.lookup place ≠ some node) :
    ∀ (tokens : List (PlaceId × Token)) {w : Window} {row : StepExecutionRow}, RowTracks w row →
      RowTracks (w.record (dataDeposits l node tokens) (tokens.any (onErrorOutput l node)))
        (tokens.foldl (StepExecutionRow.captureOutput l node ts) row) := by
  intro tokens
  induction tokens with
  | nil =>
    intro w row h
    simpa [Window.record, dataDeposits] using h
  | cons e tokens ih =>
    intro w row h
    have hcaptured : RowTracks (w.record (dataDeposits l node [e]) (onErrorOutput l node e))
        (StepExecutionRow.captureOutput l node ts row e) := h.captureOutput hiface hparks (hterminal _)
    have hstep := ih hcaptured
    have hdeposits : dataDeposits l node (e :: tokens) = dataDeposits l node [e] ++ dataDeposits l node tokens := by
      rw [← List.singleton_append, dataDeposits, List.filter_append, List.map_append]
      rfl
    rw [hdeposits, List.any_cons]
    simpa [Window.record, Bool.or_assoc] using hstep

theorem fire (h : RowTracks w row) (hiface : l.interface node = some iface)
    (hparks : iface.dataPort.isSome) (hterminal : ∀ place, l.workflowTerminalToNode.lookup place ≠ some node)
    (produced read : List (PlaceId × Token)) (sequence : Nat) :
    RowTracks (w.record (dataDeposits l node produced) (produced.any (onErrorOutput l node)))
      (row.fire l node produced read sequence ts) := by
  refine foldl_captureOutput hiface hparks hterminal produced ?_
  have hstart : RowTracks w (row.start ts) := h.start
  refine hstart.congr ?_ ?_
  all_goals
    unfold StepExecutionRow.captureInputs StepExecutionRow.captureExecutionId
    split <;> split <;> rfl

end RowTracks

/-! ## The fold and the windows -/

def Counted (ws : List Window) : Prop := ws.map (·.iteration) = (List.range ws.length).reverse

/-- The fold state shows the windows of a node, and nothing else of it. -/
structure Tracks (node : String) (ws : List Window) (s : State) : Prop where
  counted : Counted ws
  seen : ∀ id, id ∈ s.seen node ↔ id ∈ ws.map (·.token)
  next : s.nextOf node = ws.length
  active : s.activeIter.lookup node = ws.head?.map (·.iteration)
  rows : ∀ w ∈ ws, ∃ row, s.rows.get? (node, w.iteration) = some row ∧ RowTracks w row
  only : ∀ iter, ws.length ≤ iter → s.rows.get? (node, iter) = none

variable {w : Window} {ws : List Window}

theorem Counted.lt (h : Counted ws) {w : Window} (hw : w ∈ ws) : w.iteration < ws.length := by
  have hmem : w.iteration ∈ ws.map (·.iteration) := List.mem_map_of_mem hw
  rw [h, List.mem_reverse, List.mem_range] at hmem
  exact hmem

theorem Counted.nodup (h : Counted ws) : (ws.map (·.iteration)).Nodup := by
  rw [h, List.nodup_reverse]
  exact List.nodup_range

theorem Counted.head (h : Counted (w :: ws)) : w.iteration = ws.length := by
  have hcons := h
  rw [Counted, List.map_cons, List.length_cons, List.range_succ, List.reverse_append] at hcons
  exact (List.cons.inj hcons).1

theorem Counted.enter (h : Counted ws) (token : TokenId) : Counted (enter ws token) := by
  unfold StepExecutions.enter
  split
  · exact h
  · rw [Counted, List.map_cons, h, List.length_cons, List.range_succ, List.reverse_append]
    rfl

theorem tracks_new (node : String) : Tracks node [] .new where
  counted := rfl
  seen id := by simp [State.seen, State.new]
  next := rfl
  active := rfl
  rows _ h := absurd h List.not_mem_nil
  only _ _ := rfl

namespace Tracks

variable {l : Lookups} {node : String} {ws : List Window} {s s' : State}

theorem congr (h : Tracks node ws s) (hsame : SameNode node s s') : Tracks node ws s' where
  counted := h.counted
  seen id := by
    rw [State.seen, hsame.seen]
    exact h.seen id
  next := by
    rw [State.nextOf, hsame.next]
    exact h.next
  active := hsame.active.trans h.active
  rows w hw := by
    obtain ⟨row, hrow, htracks⟩ := h.rows w hw
    exact ⟨row, (hsame.rows _).trans hrow, htracks⟩
  only iter hiter := (hsame.rows iter).trans (h.only iter hiter)

theorem iterOf {w : Window} (h : Tracks node (w :: ws) s) : s.iterOf node = w.iteration := by
  rw [State.iterOf, h.active]
  rfl

theorem noteEntryArrival (h : Tracks node ws s) {e : PlaceId × Token} (ts : DateTime) (he : entersNode l node e) :
    Tracks node (enter ws e.2.id) (s.noteEntryArrival l e.1 e.2 ts) := by
  unfold State.noteEntryArrival StepExecutions.enter
  rw [of_decide_eq_true he]
  dsimp only
  by_cases hseen : e.2.id ∈ s.seen node
  · rw [if_pos hseen, if_pos ((h.seen _).mp hseen)]
    exact h
  · rw [if_neg hseen, if_neg fun hmem => hseen ((h.seen _).mpr hmem)]
    have hcounted : Counted (StepExecutions.enter ws e.2.id) := h.counted.enter e.2.id
    rw [StepExecutions.enter, if_neg fun hmem => hseen ((h.seen _).mpr hmem)] at hcounted
    rw [h.next]
    unfold State.openRow
    have hfree : ∀ row : StepExecutionRow, row.key = (node, ws.length) → s.rows.get? row.key = none := by
      intro row hkey
      rw [hkey]
      exact h.only _ le_rfl
    dsimp only [State.touch]
    rw [hfree _ rfl]
    refine ⟨hcounted, fun id => ?_, ?_, ?_, fun w hw => ?_, fun iter hiter => ?_⟩
    · simp only [State.seen, Finmap.lookup_insert, Option.getD_some, List.mem_cons, List.map_cons]
      rw [← h.seen id]
      rfl
    · simp [State.nextOf]
    · simp
    · rcases List.mem_cons.mp hw with rfl | hmem
      · exact ⟨_, (KeyedList.get?_insert ..).trans (if_pos rfl), .opened ..⟩
      · obtain ⟨row, hrow, htracks⟩ := h.rows w hmem
        refine ⟨row, ?_, htracks⟩
        rw [KeyedList.get?_insert, if_neg]
        · exact hrow
        · intro heq
          have := h.counted.lt hmem
          have hiter : w.iteration = ws.length := congrArg (·.2) heq
          omega
    · rw [List.length_cons] at hiter
      rw [KeyedList.get?_insert, if_neg]
      · exact h.only iter (by omega)
      · intro heq
        have : iter = ws.length := congrArg (·.2) heq
        omega

theorem updateRow {w w' : Window} (h : Tracks node (w :: ws) s) {f : StepExecutionRow → StepExecutionRow}
    (hkey : ∀ row, (f row).key = row.key) (htoken : w'.token = w.token) (hiter : w'.iteration = w.iteration)
    (hf : ∀ row, RowTracks w row → RowTracks w' (f row)) :
    Tracks node (w' :: ws) (s.updateRow (node, w.iteration) f) := by
  obtain ⟨row, hrow, htracks⟩ := h.rows w List.mem_cons_self
  have hkey' : (f row).key = (node, w.iteration) := (hkey row).trans (KeyedList.key_of_get? hrow)
  unfold State.updateRow
  rw [hrow]
  refine ⟨?_, fun id => ?_, h.next, ?_, fun v hv => ?_, fun iter hle => ?_⟩
  · have := h.counted
    rw [Counted, List.map_cons] at this ⊢
    rwa [hiter]
  · rw [List.map_cons, htoken]
    exact h.seen id
  · rw [show (w' :: ws).head?.map (·.iteration) = some w.iteration by rw [← hiter]; rfl]
    exact h.active
  · rcases List.mem_cons.mp hv with rfl | hmem
    · refine ⟨f row, ?_, hf row htracks⟩
      rw [KeyedList.get?_insert, hkey', hiter, if_pos rfl]
    · obtain ⟨row', hrow', htracks'⟩ := h.rows v (List.mem_cons_of_mem _ hmem)
      refine ⟨row', ?_, htracks'⟩
      rw [KeyedList.get?_insert, hkey', if_neg]
      · exact hrow'
      · intro heq
        have hlt : v.iteration < ws.length := by
          have hnodup := h.counted.nodup
          rw [List.map_cons, List.nodup_cons] at hnodup
          have := h.counted.lt (List.mem_cons_of_mem _ hmem)
          have hhead := h.counted.head
          have hne : v.iteration ≠ w.iteration := fun heq => hnodup.1 (heq ▸ List.mem_map_of_mem hmem)
          rw [List.length_cons] at this
          omega
        have hhead := h.counted.head
        have : v.iteration = w.iteration := congrArg (·.2) heq
        omega
  · rw [KeyedList.get?_insert, hkey', if_neg]
    · exact h.only iter hle
    · intro heq
      have hhead := h.counted.head
      have : iter = w.iteration := congrArg (·.2) heq
      rw [List.length_cons] at hle
      omega

theorem noteInboundAtEntry {w : Window} (h : Tracks node (w :: ws) s) {e : PlaceId × Token}
    (transitionId : TransitionId) (consumed : List (PlaceId × TokenId)) (he : entersNode l node e) :
    Tracks node (w :: ws) (s.noteInboundAtEntry l e.1 e.2 transitionId consumed) := by
  unfold State.noteInboundAtEntry
  rw [of_decide_eq_true he]
  dsimp only
  rw [h.iterOf]
  split
  · exact h
  · split
    · exact h
    · refine (h.congr (.touch ..)).updateRow (fun _ => rfl) rfl rfl fun row hrow => ?_
      exact hrow.congr rfl rfl

theorem enter_ne_nil (ws : List Window) (token : TokenId) : enter ws token ≠ [] := by
  unfold StepExecutions.enter
  split
  · next hmem => exact fun hnil => by simp [hnil] at hmem
  · exact List.cons_ne_nil _ _

theorem noteArrivals (transitionId : TransitionId) (consumed : List (PlaceId × TokenId)) (ts : DateTime) :
    ∀ (produced : List (PlaceId × Token)) {ws : List Window} {s : State}, Tracks node ws s →
      Tracks node (((produced.filter (entersNode l node)).map (·.2.id)).foldl enter ws)
        (s.noteArrivals l transitionId consumed produced ts) := by
  intro produced
  induction produced with
  | nil => exact fun h => h
  | cons e produced ih =>
    intro ws s h
    by_cases he : entersNode l node e
    · rw [List.filter_cons_of_pos he]
      refine ih ?_
      have harrived := h.noteEntryArrival ts he
      obtain ⟨w, ws', hws⟩ := List.exists_cons_of_ne_nil (enter_ne_nil ws e.2.id)
      rw [hws] at harrived ⊢
      exact harrived.noteInboundAtEntry transitionId consumed he
    · rw [List.filter_cons_of_neg he]
      have hne : l.entryToNode.lookup e.1.name ≠ some node := fun heq => he (decide_eq_true heq)
      exact ih (h.congr ((SameNode.noteEntryArrival hne).trans (SameNode.noteInboundAtEntry hne)))

theorem foldl_enter_ne_nil : ∀ (tokens : List TokenId) {ws : List Window}, ws ≠ [] → tokens.foldl enter ws ≠ [] := by
  intro tokens
  induction tokens with
  | nil => exact fun h => h
  | cons token tokens ih => exact fun _ => ih (enter_ne_nil _ token)

theorem recordLast_nil (ws : List Window) : recordLast ws [] false = ws := by
  cases ws with
  | nil => rfl
  | cons w ws => simp [recordLast, Window.record]

variable {iface : NodeInterface}

theorem handleFire (h : Tracks node ws s) (hiface : l.interface node = some iface) (hparks : iface.dataPort.isSome)
    (hterminal : ∀ place, l.workflowTerminalToNode.lookup place ≠ some node) (transitionId : TransitionId)
    (consumed : List (PlaceId × TokenId)) (produced read : List (PlaceId × Token)) (sequence : Nat) (ts : DateTime)
    (hentered : l.transitionOwner.lookup transitionId.name = some node → ws ≠ []) : Tracks node
      (recordLast (((produced.filter (entersNode l node)).map (·.2.id)).foldl enter ws)
        (if l.transitionOwner.lookup transitionId.name = some node then dataDeposits l node produced else [])
        (decide (l.transitionOwner.lookup transitionId.name = some node) && produced.any (onErrorOutput l node)))
      (s.handleFire l transitionId consumed produced read sequence ts) := by
  have harrived := h.noteArrivals (l := l) transitionId consumed ts produced
  unfold State.handleFire
  cases howner : l.transitionOwner.lookup transitionId.name with
  | none =>
    rw [if_neg nofun, decide_eq_false nofun, Bool.false_and, recordLast_nil]
    exact harrived
  | some owner =>
    by_cases heq : owner = node
    · subst heq
      obtain ⟨w, ws', hws⟩ := List.exists_cons_of_ne_nil
        (foldl_enter_ne_nil ((produced.filter (entersNode l owner)).map (·.2.id)) (hentered howner))
      rw [hws] at harrived ⊢
      rw [if_pos rfl, decide_eq_true rfl, Bool.true_and]
      dsimp only
      obtain ⟨row, hrow, -⟩ := harrived.rows w List.mem_cons_self
      rw [harrived.iterOf, State.openImplicitly, hrow]
      exact (harrived.congr (.touch ..)).updateRow (StepExecutionRow.key_fire l owner produced read sequence ts) rfl rfl
        fun row hrow => hrow.fire hiface hparks hterminal produced read sequence
    · have hne : some owner ≠ some node := fun h => heq (Option.some.inj h)
      rw [if_neg hne, decide_eq_false hne, Bool.false_and, recordLast_nil]
      refine harrived.congr ?_
      exact ((SameNode.openImplicitly heq).trans (.touch ..)).trans
        (.updateRow (StepExecutionRow.key_fire l owner produced read sequence ts) heq)

theorem handleFailure (h : Tracks node ws s) (transitionId : TransitionId) (payload : Json) (sequence : Nat)
    (ts : DateTime) (hentered : l.transitionOwner.lookup transitionId.name = some node → ws ≠ []) :
    Tracks node (recordLast ws [] (decide (l.transitionOwner.lookup transitionId.name = some node)))
      (s.handleFailure l transitionId payload sequence ts) := by
  unfold State.handleFailure
  cases howner : l.transitionOwner.lookup transitionId.name with
  | none =>
    rw [decide_eq_false nofun, recordLast_nil]
    exact h
  | some owner =>
    by_cases heq : owner = node
    · subst heq
      obtain ⟨w, ws', rfl⟩ := List.exists_cons_of_ne_nil (hentered howner)
      rw [decide_eq_true rfl]
      dsimp only
      obtain ⟨row, hrow, -⟩ := h.rows w List.mem_cons_self
      have hopen : ∀ kind, (s.touch (owner, w.iteration)).openRow (.opened owner w.iteration kind none) =
          s.touch (owner, w.iteration) := by
        intro kind
        unfold State.openRow
        rw [show (s.touch (owner, w.iteration)).rows.get? (StepExecutionRow.opened owner w.iteration kind none).key =
          some row from hrow]
      rw [h.iterOf, hopen]
      refine (h.congr (.touch ..)).updateRow (fun _ => rfl) rfl rfl fun row hrow => ?_
      exact RowTracks.fail (hrow.congr rfl rfl)
    · rw [decide_eq_false fun h => heq (Option.some.inj h), recordLast_nil]
      exact h.congr (((SameNode.touch ..).trans (.openRow heq)).trans (.updateRow (fun _ => rfl) heq))

/-- **A fold step shows what the event says of the node's windows.** -/
theorem absorb (h : Tracks node ws s) (hiface : l.interface node = some iface) (hparks : iface.dataPort.isSome)
    (hterminal : ∀ place, l.workflowTerminalToNode.lookup place ≠ some node) (ev : PersistedEvent)
    (hentered : ownedBy l node ev.event → ws ≠ []) :
    Tracks node (windowStep l node ws ev.event) (s.absorb l ev) := by
  unfold State.absorb windowStep depositsOf failsOf arrivalsOf
  cases hev : ev.event with
  | tokenCreated token placeId =>
    show Tracks node (recordLast _ [] false) (s.noteEntryArrival l placeId token ev.timestamp)
    rw [recordLast_nil, producedTokens, List.filter_singleton]
    by_cases he : entersNode l node (placeId, token)
    · rw [he]
      exact h.noteEntryArrival ev.timestamp he
    · rw [Bool.eq_false_iff.mpr he]
      exact h.congr (SameNode.noteEntryArrival fun heq => he (decide_eq_true heq))
  | transitionFired t name consumed produced read =>
    rw [hev] at hentered
    have := h.handleFire hiface hparks hterminal t consumed produced read ev.sequence ev.timestamp
      fun howner => hentered (decide_eq_true howner)
    simpa [ownedBy, producedTokens] using this
  | effectCompleted t name consumed produced handler result read =>
    rw [hev] at hentered
    have := h.handleFire hiface hparks hterminal t consumed produced read ev.sequence ev.timestamp
      fun howner => hentered (decide_eq_true howner)
    simpa [ownedBy, producedTokens] using this
  | effectFailed t name consumed produced handler message tokensConsumed input retryable =>
    rw [hev] at hentered
    have := h.handleFailure t (State.failurePayload message retryable tokensConsumed input) ev.sequence ev.timestamp
      fun howner => hentered (decide_eq_true howner)
    simpa [ownedBy, producedTokens, dataDeposits] using this
  | netCompleted | netCancelled | netFailed =>
    show Tracks node (recordLast ws [] false) _
    rw [recordLast_nil]
    exact h.congr ⟨fun _ => rfl, rfl, rfl, rfl⟩
  | _ =>
    show Tracks node (recordLast ws [] false) s
    rw [recordLast_nil]
    exact h

end Tracks

/-! ## The whole log -/

section

variable {l : Lookups} {node : String} {iface : NodeInterface}

theorem absorb_tracks (hiface : l.interface node = some iface) (hparks : iface.dataPort.isSome)
    (hterminal : ∀ place, l.workflowTerminalToNode.lookup place ≠ some node) :
    ∀ (log : List (PersistedEvent × Nat)) {ws : List Window} {s : State}, Tracks node ws s → Entered l node ws log →
      Tracks node ((log.map (·.1)).foldl (fun ws ev => windowStep l node ws ev.event) ws)
        ((log.map (·.1)).foldl (State.absorb l) s) := by
  intro log
  induction log with
  | nil => exact fun h _ => h
  | cons e log ih =>
    intro ws s h hentered
    refine ih (h.absorb hiface hparks hterminal e.1 fun howned hnil => ?_) hentered.2
    have hlt := hentered.1 howned
    simp [hnil] at hlt

theorem closeWith_absorb (s : State) (ev : PersistedEvent) :
    (s.absorb l ev).closeWith.map (·.1) = (s.closeWith.map (·.1)).or (terminalStatus ev.event) := by
  unfold State.absorb
  cases ev.event with
  | tokenCreated token placeId =>
    simp only [terminalStatus, Option.or_none]
    rw [(SameEnd.noteEntryArrival ..).closeWith]
  | transitionFired | effectCompleted =>
    simp only [terminalStatus, Option.or_none]
    rw [(SameEnd.handleFire ..).closeWith]
  | effectFailed =>
    simp only [terminalStatus, Option.or_none]
    rw [(SameEnd.handleFailure ..).closeWith]
  | netCompleted | netCancelled | netFailed =>
    cases h : s.closeWith <;> simp [State.terminate, terminalStatus, h]
  | _ => simp [terminalStatus]

theorem closeWith_foldl (events : List PersistedEvent) (s : State) :
    (events.foldl (State.absorb l) s).closeWith.map (·.1) =
      (s.closeWith.map (·.1)).or (events.findSome? (terminalStatus ·.event)) := by
  induction events generalizing s with
  | nil => simp
  | cons ev events ih =>
    rw [List.foldl_cons, ih, closeWith_absorb, Option.or_assoc, List.findSome?_cons]
    cases terminalStatus ev.event <;> simp

end

/-! ## The closed rows -/

/-- A row of the projection shows its window and how the net ended. -/
structure RowShows (w : Window) (ended : Option StepStatus) (row : StepExecutionRow) : Prop where
  completed : row.status = .completed ↔ w.outcome = some .completed
  failed : row.status = .failed ↔ w.failed ∨ (w.deposits = [] ∧ ended = some .failed)
  outputs : row.outputs = w.deposits.getLast?

theorem closeWith_ne_completed (events : List PersistedEvent) :
    events.findSome? (terminalStatus ·.event) ≠ some .completed := by
  intro h
  obtain ⟨ev, -, hev⟩ := List.exists_of_findSome?_eq_some h
  cases he : ev.event <;> simp [he, terminalStatus] at hev

variable {row : StepExecutionRow}

theorem RowTracks.shows_open (h : RowTracks w row) : RowShows w none row where
  completed := by
    constructor
    · intro hcompleted
      cases hw : w.outcome with
      | none =>
        have hopen := h.undecided hw
        simp [StepExecutionRow.isOpen, hcompleted] at hopen
      | some status => rw [← h.decided status hw, hcompleted]
    · exact h.decided _
  failed := by simpa using h.failed_iff
  outputs := h.outputs

theorem RowTracks.shows_closed {status : StepStatus} {ts : DateTime}
    (h : RowTracks w row) (hstatus : status ≠ .completed) : RowShows w (some status) (row.close status ts) := by
  unfold StepExecutionRow.close
  cases hw : w.outcome with
  | none =>
    rw [if_pos (h.undecided hw)]
    have hempty := Window.outcome_eq_none_iff.mp hw
    refine ⟨?_, ?_, h.outputs⟩
    · simpa [hw] using hstatus
    · simp [hempty]
  | some decided =>
    have hopen : ¬ row.isOpen := by
      intro hopen
      have hd := h.decided decided hw
      unfold Window.outcome at hw
      split at hw
      · rw [← Option.some.inj hw] at hd
        simp [StepExecutionRow.isOpen, hd] at hopen
      · split at hw
        · cases hw
        · rw [← Option.some.inj hw] at hd
          simp [StepExecutionRow.isOpen, hd] at hopen
    have hshows := h.shows_open
    rw [if_neg hopen]
    refine ⟨hshows.completed, ?_, h.outputs⟩
    rw [hshows.failed]
    constructor
    · rintro (hfailed | ⟨-, hended⟩)
      · exact Or.inl hfailed
      · cases hended
    · rintro (hfailed | ⟨hempty, -⟩)
      · exact Or.inl hfailed
      · left
        by_contra hnot
        rw [Window.outcome_eq_none_iff.mpr ⟨hempty, Bool.eq_false_iff.mpr hnot⟩] at hw
        cases hw

namespace ActivationLog

variable {registry : InterfaceRegistry} {node : String} (a : ActivationLog registry node)

def ended : Option StepStatus := a.events.findSome? (terminalStatus ·.event)

/-- The rows of the whole projection, by key. -/
def projected : State :=
  ((a.events.foldl (State.absorb (.build registry)) .new).closeOpenRows).finalizeUnreached registry

theorem tracks : Tracks node (windows (.build registry) node a.events)
    (a.events.foldl (State.absorb (.build registry)) .new) := by
  have hiface : (Lookups.build registry).interface node = some a.iface := by
    rw [Lookups.interface, Lookups.registry_build]
    exact a.registered
  refine absorb_tracks hiface a.parks ?_ a.log (tracks_new node) a.entered
  · intro place hplace
    obtain ⟨iface, hmem, hnode, hterminal⟩ := Lookups.terminal_of_lookup_build hplace
    rw [a.noTerminals iface hmem hnode] at hterminal
    cases hterminal

theorem get?_projected (iter : Nat) : a.projected.rows.get? (node, iter) =
    (a.events.foldl (State.absorb (.build registry)) .new).closeOpenRows.rows.get? (node, iter) := by
  obtain ⟨w, ws, hws⟩ := List.exists_cons_of_ne_nil a.activated
  obtain ⟨row, hrow, -⟩ := a.tracks.rows w (by rw [events, hws]; exact List.mem_cons_self ..)
  have hclosed := State.get?_closeOpenRows (a.events.foldl (State.absorb (.build registry)) .new) (node, w.iteration)
  rw [hrow] at hclosed
  exact (SameNode.finalizeUnreached registry hclosed).rows iter

theorem shows {w : Window} (hw : w ∈ windows (.build registry) node a.events) :
    ∃ row, a.projected.rows.get? (node, w.iteration) = some row ∧ RowShows w a.ended row := by
  obtain ⟨row, hrow, htracks⟩ := a.tracks.rows w hw
  have hended : (a.events.foldl (State.absorb (.build registry)) .new).closeWith.map (·.1) = a.ended := by
    rw [closeWith_foldl]
    rfl
  rw [a.get?_projected, State.get?_closeOpenRows, hrow]
  refine ⟨_, rfl, ?_⟩
  rw [← hended]
  cases hclose : (a.events.foldl (State.absorb (.build registry)) .new).closeWith with
  | none => exact htracks.shows_open
  | some c =>
    refine htracks.shows_closed fun heq => closeWith_ne_completed a.events ?_
    rw [hclose] at hended
    rw [← heq]
    exact hended.symm

theorem only {row : StepExecutionRow} (hrow : row ∈ a.projected.rows.toList) (hnode : row.nodeId = node) :
    row.iterationIndex < (windows (.build registry) node a.events).length := by
  by_contra hle
  have hget : a.projected.rows.get? (node, row.iterationIndex) = some row :=
    KeyedList.get?_eq_some_iff.mpr ⟨hrow, Prod.ext hnode rfl⟩
  rw [a.get?_projected, State.get?_closeOpenRows, a.tracks.only row.iterationIndex (Nat.le_of_not_lt hle)] at hget
  cases hget

theorem rows_perm : a.rows.Perm
    ((windows (.build registry) node a.events).filterMap fun w => a.projected.rows.get? (node, w.iteration)) := by
  have hperm := KeyedList.filter_perm_filterMap_get? (m := a.projected.rows) (p := fun row => row.nodeId = node)
    (l := (windows (.build registry) node a.events).map fun w => (node, w.iteration)) ?nodup ?keys
  case nodup =>
    have hnodup := a.tracks.counted.nodup.map (f := fun i => (node, i)) fun i j hij => (Prod.mk.inj hij).2
    rwa [List.map_map] at hnodup
  case keys =>
    intro row hrow
    rw [decide_eq_true_iff, List.mem_map]
    constructor
    · intro hnode
      have hlt := a.only hrow hnode
      have hmem : row.iterationIndex ∈ (windows (.build registry) node a.events).map (·.iteration) := by
        rw [a.tracks.counted, List.mem_reverse, List.mem_range]
        exact hlt
      obtain ⟨w, hw, hiter⟩ := List.mem_map.mp hmem
      exact ⟨w, hw, Prod.ext hnode.symm hiter⟩
    · rintro ⟨w, -, heq⟩
      exact (congrArg (·.1) heq).symm
  rwa [List.filterMap_map] at hperm

end ActivationLog

/-! ## Tokens and deposits of the windows -/

section

variable {l : Lookups} {node : String}

theorem tokens_enter (ws : List Window) (token : TokenId) (hnodup : (ws.map (·.token)).Nodup) :
    ((enter ws token).map (·.token)).Nodup ∧
      ∀ id, id ∈ (enter ws token).map (·.token) ↔ id ∈ ws.map (·.token) ∨ id = token := by
  unfold enter
  split
  · next hmem =>
    refine ⟨hnodup, fun id => ⟨Or.inl, ?_⟩⟩
    rintro (hid | rfl)
    · exact hid
    · exact hmem
  · next hnot =>
    refine ⟨List.nodup_cons.mpr ⟨hnot, hnodup⟩, fun id => ?_⟩
    rw [List.map_cons, List.mem_cons]
    exact or_comm

theorem tokens_recordLast (ws : List Window) (deposits : List Json) (failed : Bool) :
    (recordLast ws deposits failed).map (·.token) = ws.map (·.token) := by
  cases ws <;> rfl

theorem tokens_foldl_enter : ∀ (tokens : List TokenId) {ws : List Window}, (ws.map (·.token)).Nodup →
    ((tokens.foldl enter ws).map (·.token)).Nodup ∧
      ∀ id, id ∈ (tokens.foldl enter ws).map (·.token) ↔ id ∈ ws.map (·.token) ∨ id ∈ tokens := by
  intro tokens
  induction tokens with
  | nil => exact fun h => ⟨h, fun id => by simp⟩
  | cons token tokens ih =>
    intro ws h
    obtain ⟨hnodup, hmem⟩ := tokens_enter ws token h
    obtain ⟨hnodup', hmem'⟩ := ih hnodup
    refine ⟨hnodup', fun id => ?_⟩
    rw [List.foldl_cons, hmem', hmem, List.mem_cons, or_assoc]

theorem tokens_windows : ∀ (events : List PersistedEvent) {ws : List Window}, (ws.map (·.token)).Nodup →
    ((events.foldl (fun ws ev => windowStep l node ws ev.event) ws).map (·.token)).Nodup ∧
      ∀ id, id ∈ (events.foldl (fun ws ev => windowStep l node ws ev.event) ws).map (·.token) ↔
        id ∈ ws.map (·.token) ∨ id ∈ events.flatMap fun ev => arrivalsOf l node ev.event := by
  intro events
  induction events with
  | nil => exact fun h => ⟨h, fun id => by simp⟩
  | cons ev events ih =>
    intro ws h
    obtain ⟨hnodup, hmem⟩ := tokens_foldl_enter (arrivalsOf l node ev.event) h
    have hstep : (windowStep l node ws ev.event).map (·.token) =
        ((arrivalsOf l node ev.event).foldl enter ws).map (·.token) := tokens_recordLast ..
    obtain ⟨hnodup', hmem'⟩ := ih (hstep ▸ hnodup)
    refine ⟨hnodup', fun id => ?_⟩
    rw [List.foldl_cons, hmem', hstep, hmem, List.flatMap_cons, List.mem_append, or_assoc]

theorem deposits_foldl_enter : ∀ (tokens : List TokenId) (ws : List Window),
    (tokens.foldl enter ws).flatMap (·.deposits) = ws.flatMap (·.deposits) := by
  intro tokens
  induction tokens with
  | nil => exact fun _ => rfl
  | cons token tokens ih =>
    intro ws
    rw [List.foldl_cons, ih, enter]
    split
    · rfl
    · rw [List.flatMap_cons, List.nil_append]

theorem deposits_recordLast {ws : List Window} (hne : ws ≠ []) (deposits : List Json) (failed : Bool) :
    ((recordLast ws deposits failed).flatMap (·.deposits)).Perm (ws.flatMap (·.deposits) ++ deposits) := by
  obtain ⟨w, ws, rfl⟩ := List.exists_cons_of_ne_nil hne
  show ((w.deposits ++ deposits) ++ ws.flatMap (·.deposits)).Perm _
  rw [List.flatMap_cons, List.append_assoc, List.append_assoc]
  exact List.perm_append_comm.append_left _

theorem deposits_windows : ∀ (log : List (PersistedEvent × Nat)) {ws : List Window}, Entered l node ws log →
    (((log.map (·.1)).foldl (fun ws ev => windowStep l node ws ev.event) ws).flatMap (·.deposits)).Perm
      (ws.flatMap (·.deposits) ++ (log.map (·.1)).flatMap fun ev => depositsOf l node ev.event) := by
  intro log
  induction log with
  | nil => exact fun _ => by simp
  | cons e log ih =>
    intro ws h
    have hstep : ((windowStep l node ws e.1.event).flatMap (·.deposits)).Perm
        (ws.flatMap (·.deposits) ++ depositsOf l node e.1.event) := by
      rw [← deposits_foldl_enter (arrivalsOf l node e.1.event) ws]
      by_cases howned : ownedBy l node e.1.event
      · refine deposits_recordLast (Tracks.foldl_enter_ne_nil _ fun hnil => ?_) ..
        have hlt := h.1 howned
        simp [hnil] at hlt
      · have hnone : depositsOf l node e.1.event = [] := if_neg howned
        have hfails : failsOf l node e.1.event = false := by simp [failsOf, howned]
        rw [windowStep, hnone, hfails, Tracks.recordLast_nil, List.append_nil]
    refine (ih h.2).trans ?_
    rw [List.map_cons, List.flatMap_cons, ← List.append_assoc]
    exact hstep.append_right _

end

/-! ## Counting -/

/-- What a window adds to the outputs of the completed rows. -/
def Window.completedOutput (w : Window) : Option (Option Json) :=
  if w.outcome = some .completed then some w.deposits.getLast? else none

/-- The window decides its deposits: one in a completed row, none elsewhere. -/
def Window.Clear (w : Window) : Prop := w.deposits.length ≤ 1 ∧ (w.failed → w.deposits = [])

theorem Window.completedOutput_of_clear (h : w.Clear) : w.completedOutput.toList = w.deposits.map some := by
  unfold completedOutput
  cases hd : w.deposits with
  | nil =>
    have hne : w.outcome ≠ some .completed := fun heq => (outcome_eq_completed_iff.mp heq).1 hd
    rw [if_neg hne]
    rfl
  | cons d ds =>
    have hnil : ds = [] := by
      have := h.1
      rw [hd, List.length_cons] at this
      exact List.eq_nil_of_length_eq_zero (by omega)
    have hcompleted : w.outcome = some .completed := by
      refine outcome_eq_completed_iff.mpr ⟨by simp [hd], Bool.eq_false_iff.mpr fun hf => ?_⟩
      have := h.2 hf
      rw [hd] at this
      cases this
    rw [if_pos hcompleted, hnil]
    rfl

theorem Window.length_completedOutput_le (w : Window) : w.completedOutput.toList.length ≤ w.deposits.length := by
  unfold completedOutput
  split
  · next h => exact List.length_pos_of_ne_nil (outcome_eq_completed_iff.mp h).1
  · exact Nat.zero_le _

theorem Window.clear_of_length_eq (h : w.completedOutput.toList.length = w.deposits.length) : w.Clear := by
  unfold completedOutput at h
  split at h
  · next hcompleted =>
    refine ⟨h.symm.le, fun hf => ?_⟩
    rw [(outcome_eq_completed_iff.mp hcompleted).2] at hf
    cases hf
  · have hnil : w.deposits = [] := List.eq_nil_of_length_eq_zero h.symm
    exact ⟨by simp [hnil], fun _ => hnil⟩

theorem length_completedOutputs_le (ws : List Window) :
    (ws.flatMap (·.completedOutput.toList)).length ≤ (ws.flatMap (·.deposits)).length := by
  induction ws with
  | nil => exact le_rfl
  | cons w ws ih =>
    rw [List.flatMap_cons, List.flatMap_cons, List.length_append, List.length_append]
    exact Nat.add_le_add w.length_completedOutput_le ih

theorem clear_of_length_eq : ∀ {ws : List Window},
    (ws.flatMap (·.completedOutput.toList)).length = (ws.flatMap (·.deposits)).length → ∀ w ∈ ws, w.Clear := by
  intro ws
  induction ws with
  | nil => exact fun _ _ hw => absurd hw List.not_mem_nil
  | cons v ws ih =>
    intro h w hw
    rw [List.flatMap_cons, List.flatMap_cons, List.length_append, List.length_append] at h
    have hv := v.length_completedOutput_le
    have hws := length_completedOutputs_le ws
    rcases List.mem_cons.mp hw with rfl | hw
    · exact Window.clear_of_length_eq (by omega)
    · exact ih (by omega) w hw

/-- **The completed rows show the deposits exactly where every window is clear.** -/
theorem completedOutputs_perm_iff (ws : List Window) :
    (ws.filterMap (·.completedOutput)).Perm ((ws.flatMap (·.deposits)).map some) ↔ ∀ w ∈ ws, w.Clear := by
  have hfilter : ws.filterMap (·.completedOutput) = ws.flatMap (·.completedOutput.toList) :=
    List.filterMap_eq_flatMap_toList ..
  rw [hfilter]
  constructor
  · intro hperm
    refine clear_of_length_eq ?_
    rw [hperm.length_eq, List.length_map]
  · intro hclear
    have heq : ws.flatMap (·.completedOutput.toList) = ws.flatMap fun w => w.deposits.map some :=
      List.flatMap_congr fun w hw => Window.completedOutput_of_clear (hclear w hw)
    rw [heq, List.map_flatMap]

namespace ActivationLog

variable {registry : InterfaceRegistry} {node : String} (a : ActivationLog registry node)

theorem map_rows_of_shows {β : Type} (f : StepExecutionRow → Option β) (g : Window → Option β)
    (hfg : ∀ w ∈ windows (.build registry) node a.events, ∀ row,
      a.projected.rows.get? (node, w.iteration) = some row → RowShows w a.ended row → f row = g w) :
    (a.rows.filterMap f).Perm ((windows (.build registry) node a.events).filterMap g) := by
  refine (a.rows_perm.filterMap f).trans (List.Perm.of_eq ?_)
  rw [List.filterMap_filterMap]
  refine List.filterMap_congr fun w hw => ?_
  obtain ⟨row, hrow, hshows⟩ := a.shows hw
  rw [hrow, Option.bind_some]
  exact hfg w hw row hrow hshows

theorem iteration_of_get? {iter : Nat} {row : StepExecutionRow}
    (h : a.projected.rows.get? (node, iter) = some row) : row.iterationIndex = iter :=
  congrArg (·.2) (KeyedList.key_of_get? h)

theorem one_row : (a.rows.map (·.iterationIndex)).Perm (List.range a.entryTokens.length) := by
  have hiterations := a.map_rows_of_shows (fun row => some row.iterationIndex) (fun w => some w.iteration)
    fun w _ row hrow _ => congrArg some (a.iteration_of_get? hrow)
  rw [List.filterMap_eq_map', List.filterMap_eq_map', a.tracks.counted] at hiterations
  have hnone : (([] : List Window).map (·.token)).Nodup := List.nodup_nil
  obtain ⟨hnodup, hmem⟩ : ((windows (.build registry) node a.events).map (·.token)).Nodup ∧ _ :=
    tokens_windows a.events hnone
  have htokens : ((windows (.build registry) node a.events).map (·.token)).Perm a.entryTokens := by
    refine (List.perm_ext_iff_of_nodup hnodup (List.nodup_dedup _)).mpr fun id => ?_
    rw [List.mem_dedup]
    exact (hmem id).trans (by simp)
  rw [← htokens.length_eq, List.length_map]
  exact hiterations.trans (List.reverse_perm _)

theorem completed_iff : ((a.rows.filter (·.status = .completed)).map (·.outputs)).Perm (a.deposits.map some) ↔
    ∀ w ∈ windows (.build registry) node a.events, w.Clear := by
  rw [← completedOutputs_perm_iff]
  have houtputs := a.map_rows_of_shows
    (fun row => if row.status = .completed then some row.outputs else none) (·.completedOutput) ?same
  case same =>
    intro w _ row _ hshows
    unfold Window.completedOutput
    by_cases hcompleted : row.status = .completed
    · rw [if_pos hcompleted, if_pos (hshows.completed.mp hcompleted), hshows.outputs]
    · rw [if_neg hcompleted, if_neg fun h => hcompleted (hshows.completed.mpr h)]
  have hfilter : (a.rows.filter (·.status = .completed)).map (·.outputs) =
      a.rows.filterMap fun row => if row.status = .completed then some row.outputs else none := by
    rw [← List.filterMap_eq_map', List.filterMap_filter]
    simp
  have hdeposits : ((windows (.build registry) node a.events).flatMap (·.deposits)).Perm a.deposits :=
    deposits_windows a.log a.entered
  rw [hfilter]
  constructor
  · exact fun h => houtputs.symm.trans (h.trans (hdeposits.symm.map some))
  · exact fun h => houtputs.trans (h.trans (hdeposits.map some))

theorem failed_iff : (∀ row ∈ a.rows, row.status = .failed →
      depositsBy (.build registry) node a.log row.iterationIndex = []) ↔
    ∀ w ∈ windows (.build registry) node a.events, w.failed ∨ (w.deposits = [] ∧ a.netFailed) →
      depositsBy (.build registry) node a.log w.iteration = [] := by
  have hended : a.ended = some .failed ↔ a.netFailed := by
    rw [netFailed, decide_eq_true_iff]
    rfl
  constructor
  · intro h w hw hfailed
    obtain ⟨row, hrow, hshows⟩ := a.shows hw
    have hmem : row ∈ a.rows :=
      a.rows_perm.mem_iff.mpr (List.mem_filterMap.mpr ⟨w, hw, hrow⟩)
    rw [← a.iteration_of_get? hrow]
    exact h row hmem (hshows.failed.mpr (hfailed.imp_right fun h => ⟨h.1, hended.mpr h.2⟩))
  · intro h row hmem hfailed
    obtain ⟨w, hw, hrow⟩ := List.mem_filterMap.mp (a.rows_perm.mem_iff.mp hmem)
    obtain ⟨row', hrow', hshows⟩ := a.shows hw
    obtain rfl := Option.some.inj (hrow'.symm.trans hrow)
    rw [a.iteration_of_get? hrow]
    exact h w hw ((hshows.failed.mp hfailed).imp_right fun h => ⟨h.1, hended.mp h.2⟩)

/-- **Every activation gets its own outcome exactly where the windows keep the activations apart.** -/
theorem own_outcomes_iff : a.OwnOutcomes ↔ a.KeptApart := by
  constructor
  · intro h
    have hclear := a.completed_iff.mp h.completed
    exact ⟨fun w hw => (hclear w hw).1, fun w hw => (hclear w hw).2, a.failed_iff.mp h.failed⟩
  · intro h
    exact ⟨a.one_row, a.completed_iff.mpr fun w hw => ⟨h.single w hw, h.clean w hw⟩, a.failed_iff.mpr h.own⟩

end ActivationLog

/-! ## Two items of a map -/

namespace MapRuns

def body : NodeInterface where
  nodeId := "body"
  kind := .automatedStep
  entry := some "p_body_in"
  outputs := [(.default, "p_body_out")]
  dataPort := some "p_body_data"
  workflowTerminals := []
  ownedPlaces := ["p_body_in", "p_body_data", "p_body_out"]
  ownedTransitions := ["t_body_submit", "t_body_park"]

def registry : InterfaceRegistry := HashMap.ofPairs [("body", body)]

def token (id : Nat) : Token := .new ⟨BitVec.ofNat 128 id⟩ ⟨0⟩ .unit

def event (sequence : Nat) (event : DomainEvent) : PersistedEvent := ⟨sequence, ⟨sequence⟩, event, "", none⟩

def scattered : PersistedEvent :=
  event 0 (.transitionFired ⟨"t_map_scatter"⟩ none [] [(⟨"p_body_in"⟩, token 1), (⟨"p_body_in"⟩, token 2)] [] none none)

def parked (sequence : Nat) : PersistedEvent :=
  event sequence
    (.transitionFired ⟨"t_body_park"⟩ none [] [(⟨"p_body_data"⟩, token (sequence + 2))] [] none none)

def submitFailed (sequence : Nat) : PersistedEvent :=
  event sequence (.effectFailed ⟨"t_body_submit"⟩ none [] [] "executor_submit" "boom" true none false)

def bothParked : ActivationLog registry "body" where
  log := [(scattered, 0), (parked 1, 0), (parked 2, 1)]
  iface := body
  registered := rfl
  parks := rfl
  noTerminals := by decide
  entered := by decide
  activated := by decide
  once := by decide

end MapRuns

open MapRuns in
/-- Both items are done, and one row is completed. -/
theorem second_item_takes_both : ¬ ∀ (registry : InterfaceRegistry) (node : String)
    (a : ActivationLog registry node), a.OwnOutcomes := by
  intro h
  have hlength := (h registry "body" bothParked).completed.length_eq
  revert hlength
  decide

end StepExecutions

end Mekhan
