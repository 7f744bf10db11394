import Mekhan.Infra.Runs
import Mekhan.Infra.Slots
import Mekhan.Triggers.Waiters

/-!
# A waiting caller learns the outcome

The listener commits the terminal row before it asks whether anyone waits; a call registers before it reads
the row again. So one of the two sees the other, and whichever comes second resolves the waiter
(`waiter_resolved`).
-/

namespace Mekhan

namespace WaiterOutcome

open Infra Lifecycle Triggers WaitWorld

/-- The row of an instance is terminal, with this status and result. -/
def Final (w : WaitWorld) (id : Uuid) (outcome : TerminalOutcome) : Prop :=
  ∃ row ∈ w.instances, row.id = id ∧ row.status ≠ .running ∧ outcome = ⟨row.status, row.result⟩

def received (w : WaitWorld) (i : Nat) : List TerminalOutcome := (w.sent.filter (·.1 = i)).map (·.2)

/-! ## What the two paths have done -/

/-- The call's waiter is in the table, or has been. -/
def Registered : FirePhase → Prop
  | .registered | .reread _ | .returned => True
  | .launching | .launched => False

/-- The listener has committed the row and not yet resolved its waiter. -/
def Committed : Triggers.ConsumerPhase → Prop
  | .committed | .tested | .found _ => True
  | .received | .finished => False

/-- What the listener has of the row that it committed. -/
def ConsumerOk (w : WaitWorld) (c : ConsumerCall) : Prop :=
  Committed c.phase → ∃ row ∈ w.instances, row.netId = c.content.netId ∧ row.status ≠ .running ∧
    outcomeOf c.content = ⟨row.status, row.result⟩ ∧ ∀ id, c.phase = .found id → row.id = id

/-- Someone is going to resolve the waiter of the call, as soon as its row is terminal. -/
def Awaited (w : WaitWorld) (call : FireCall) : Prop :=
  (∀ row ∈ w.instances, row.id = call.id → row.status = .running) ∨ call.phase = .registered ∨
    (∃ outcome, call.phase = .reread (some outcome)) ∨
    ∃ c ∈ w.consumers, c.content.netId = call.netId ∧ Committed c.phase

/-- The waiter of the call was resolved once, with what its row has. -/
def Served (w : WaitWorld) (i : Nat) (call : FireCall) : Prop :=
  ∃ outcome, received w i = [outcome] ∧ Final w call.id outcome

/-- A call that waits has its waiter in the map, or was served. -/
def CallOk (w : WaitWorld) (i : Nat) (call : FireCall) : Prop :=
  Registered call.phase → call.wait = true → call.deregistered = false →
    (call.id, i) ∈ w.waiters.toList ∧ Awaited w call ∨ Served w i call

/-- Two calls that launched one instance. -/
def SameInstance (call call' : FireCall) : Prop :=
  call.phase ≠ .launching ∧ call'.phase ≠ .launching ∧ call.id = call'.id

/-- Each waiter belongs to a row, and no waiter is forgotten. -/
structure Inv (w : WaitWorld) : Prop where
  ids : (w.instances.map (·.id)).Nodup
  netIds : (w.instances.map (·.netId)).Nodup
  noResult : ∀ row ∈ w.instances, row.status = .running → row.result = none
  rows : ∀ call ∈ w.fires, call.phase ≠ .launching →
    ∃ row ∈ w.instances, row.id = call.id ∧ row.netId = call.netId
  unique : AtMostOne w.fires SameInstance
  reread : ∀ call ∈ w.fires, ∀ outcome, call.phase = .reread (some outcome) → Final w call.id outcome
  consumers : ∀ c ∈ w.consumers, ConsumerOk w c
  waiters : ∀ p ∈ w.waiters.toList, ∃ call ∈ w.fires[p.2]?, call.id = p.1 ∧ Registered call.phase
  sent : ∀ p ∈ w.sent, ∃ call ∈ w.fires[p.1]?, Registered call.phase ∧ (call.id, p.1) ∉ w.waiters.toList
  calls : ∀ (i : Nat) call, w.fires[i]? = some call → CallOk w i call

theorem inv_new : Inv new where
  ids := List.nodup_nil
  netIds := List.nodup_nil
  noResult _ h := by cases h
  rows _ h := by cases h
  unique _ _ _ _ h := by cases h
  reread _ h := by cases h
  consumers _ h := by cases h
  waiters _ h := by cases h
  sent _ h := by cases h
  calls _ _ h := by cases h

variable {w : WaitWorld} {i : Nat} {call : FireCall} {c : ConsumerCall} {id : Uuid} {outcome : TerminalOutcome}

variable {phase : FirePhase} {row : WaitedRow}

theorem not_launching_of_registered (h : Registered phase) : phase ≠ .launching := by
  rintro rfl
  exact h

theorem Inv.row_eq {row' : WaitedRow} (h : Inv w) (hrow : row ∈ w.instances) (hrow' : row' ∈ w.instances)
    (hid : row.id = row'.id) : row = row' := List.inj_on_of_nodup_map h.ids hrow hrow' hid

theorem Inv.final_unique {outcome' : TerminalOutcome} (h : Inv w) (hfinal : Final w id outcome)
    (hfinal' : Final w id outcome') : outcome = outcome' := by
  obtain ⟨row, hrow, hid, -, rfl⟩ := hfinal
  obtain ⟨row', hrow', hid', -, rfl⟩ := hfinal'
  rw [h.row_eq hrow hrow' (hid.trans hid'.symm)]

theorem Inv.received_eq_nil (h : Inv w) (hcall : w.fires[i]? = some call)
    (hwaiter : (call.id, i) ∈ w.waiters.toList) : received w i = [] := by
  rw [received, List.map_eq_nil_iff, List.filter_eq_nil_iff]
  intro p hp heq
  obtain ⟨call', hcall', -, hgone⟩ := h.sent p hp
  rw [of_decide_eq_true heq] at hcall' hgone
  obtain rfl := Option.some.inj (hcall.symm.trans hcall')
  exact hgone hwaiter

/-! ## A waiter is resolved -/

theorem get?_eq_some {waiters : ResultWaiters} : waiters.get? id = some (id, i) ↔ (id, i) ∈ waiters.toList := by
  rw [KeyedList.get?_eq_some_iff, and_iff_left rfl]

theorem mem_waiters_resolveWaiter {p : Uuid × Nat} :
    p ∈ (w.resolveWaiter id outcome).waiters.toList ↔ p ∈ w.waiters.toList ∧ p.1 ≠ id := by
  unfold resolveWaiter
  split
  · simp
  · rename_i hnone
    rw [KeyedList.get?_eq_none_iff] at hnone
    refine ⟨fun hp => ⟨hp, ?_⟩, And.left⟩
    rintro rfl
    exact hnone (List.mem_map_of_mem hp)

theorem received_resolveWaiter (w : WaitWorld) (id : Uuid) (outcome : TerminalOutcome) (i : Nat) :
    received (w.resolveWaiter id outcome) i =
      received w i ++ if (id, i) ∈ w.waiters.toList then [outcome] else [] := by
  unfold resolveWaiter
  split
  · rename_i id' call hget
    obtain ⟨hmem, hid⟩ := KeyedList.get?_eq_some_iff.mp hget
    obtain rfl : id' = id := hid
    unfold received
    rw [List.filter_append, List.map_append]
    congr 1
    by_cases hi : call = i
    · subst hi
      rw [if_pos hmem]
      simp
    · have hno : (id', i) ∉ w.waiters.toList := by
        intro hmem'
        have := get?_eq_some.mpr hmem'
        rw [hget] at this
        exact hi (congrArg Prod.snd (Option.some.inj this))
      rw [if_neg hno]
      simp [hi]
  · rename_i hnone
    have hno : (id, i) ∉ w.waiters.toList := fun hmem => by
      rw [get?_eq_some.mpr hmem] at hnone
      cases hnone
    rw [if_neg hno, List.append_nil]

/-- **Resolving a waiter with the outcome of its row serves the call that it belongs to.** -/
theorem Inv.resolveWaiter (h : Inv w) (hfinal : Final w id outcome) : Inv (w.resolveWaiter id outcome) := by
  cases hget : w.waiters.get? id with
  | none =>
    have heq : w.resolveWaiter id outcome = w := by
      unfold WaitWorld.resolveWaiter
      rw [hget]
    rw [heq]
    exact h
  | some entry =>
    obtain ⟨id', k⟩ := entry
    obtain ⟨hmem, rfl⟩ := KeyedList.get?_eq_some_iff.mp hget
    have hreceived := received_resolveWaiter w id' outcome
    have hleft : ∀ p, p ∈ (w.resolveWaiter id' outcome).waiters.toList ↔ p ∈ w.waiters.toList ∧ p.1 ≠ id' :=
      fun _ => mem_waiters_resolveWaiter
    have heq : w.resolveWaiter id' outcome =
        { w with waiters := w.waiters.retain (·.1 ≠ id'), sent := w.sent ++ [(k, outcome)] } := by
      unfold WaitWorld.resolveWaiter
      rw [hget]
    rw [heq] at hreceived hleft ⊢
    refine ⟨h.ids, h.netIds, h.noResult, h.rows, h.unique, h.reread, h.consumers, ?_, ?_, ?_⟩
    · exact fun p hp => h.waiters p ((hleft p).mp hp).1
    · intro p hp
      rcases List.mem_append.mp hp with hold | hnew
      · obtain ⟨call, hcall, hregistered, hgone⟩ := h.sent p hold
        exact ⟨call, hcall, hregistered, fun hp => hgone ((hleft _).mp hp).1⟩
      · obtain rfl := List.mem_singleton.mp hnew
        obtain ⟨call, hcall, hid, hregistered⟩ := h.waiters _ hmem
        exact ⟨call, hcall, hregistered, fun hp => ((hleft _).mp hp).2 hid⟩
    · intro i call hcall hregistered hwait hkept
      rcases h.calls i call hcall hregistered hwait hkept with ⟨hwaiter, hawaited⟩ | ⟨o, ho, hfinal'⟩
      · by_cases hid : call.id = id'
        · refine .inr ⟨outcome, ?_, hid ▸ hfinal⟩
          rw [hreceived, h.received_eq_nil hcall hwaiter, if_pos (hid ▸ hwaiter), List.nil_append]
        · exact .inl ⟨(hleft _).mpr ⟨hwaiter, hid⟩, hawaited⟩
      · refine .inr ⟨o, ?_, hfinal'⟩
        rw [hreceived, ho, if_neg ?_, List.append_nil]
        -- a call that was served has no waiter
        intro hwaiter
        obtain ⟨call', hcall', hid, -⟩ := h.waiters _ hwaiter
        obtain rfl := Option.some.inj (hcall.symm.trans hcall')
        rw [h.received_eq_nil hcall (hid ▸ hwaiter)] at ho
        cases ho

/-! ## The paths go on -/

theorem registered_set {c : FireCall} (hcall : w.fires[i]? = some call) (hid : c.id = call.id)
    (hregistered : Registered call.phase → Registered c.phase) (k : Nat) :
    ∀ x ∈ w.fires[k]?, Registered x.phase →
      ∃ y ∈ (w.fires.set i c)[k]?, y.id = x.id ∧ Registered y.phase := by
  intro x hx hreg
  by_cases hik : i = k
  · subst hik
    obtain rfl := Option.some.inj (hcall.symm.trans hx)
    exact ⟨c, List.getElem?_set_self (List.getElem?_eq_some_iff.mp hcall).1, hid, hregistered hreg⟩
  · exact ⟨x, by rw [List.getElem?_set_ne hik]; exact hx, rfl, hreg⟩

theorem calls_set {call' : FireCall} {w' : WaitWorld} (hcall : w.fires[i]? = some call)
    (hset : w'.fires = w.fires.set i call') (hok : CallOk w' i call')
    (hothers : ∀ k x, k ≠ i → w.fires[k]? = some x → CallOk w' k x) :
    ∀ (k : Nat) x, w'.fires[k]? = some x → CallOk w' k x := by
  intro k x hx
  rw [hset] at hx
  by_cases hik : i = k
  · subst hik
    rw [List.getElem?_set_self (List.getElem?_eq_some_iff.mp hcall).1] at hx
    exact Option.some.inj hx ▸ hok
  · rw [List.getElem?_set_ne hik] at hx
    exact hothers k x (fun h => hik h.symm) hx

theorem Inv.setFire (h : Inv w) (hcall : w.fires[i]? = some call)
    (hold : call.phase ≠ .launching) (hregistered : Registered call.phase → Registered phase)
    (hreread : ∀ outcome, phase = .reread (some outcome) → Final w call.id outcome)
    (hok : CallOk w i { call with phase }) : Inv (w.setFire i call phase) := by
  have hmem : call ∈ w.fires := List.mem_of_getElem? hcall
  have hget := registered_set (c := { call with phase }) hcall rfl hregistered
  refine ⟨h.ids, h.netIds, h.noResult, ?_, ?_, ?_, h.consumers, ?_, ?_, ?_⟩
  · exact forall_mem_set h.rows fun _ => h.rows call hmem hold
  · refine h.unique.set hcall ?_ ?_
    · exact fun x _ ⟨_, h₂, h₃⟩ => ⟨hold, h₂, h₃⟩
    · exact fun x _ ⟨h₁, _, h₃⟩ => ⟨h₁, hold, h₃⟩
  · exact forall_mem_set h.reread hreread
  · intro p hp
    obtain ⟨call', hcall', hid, hreg⟩ := h.waiters p hp
    obtain ⟨call'', hcall'', hid', hreg'⟩ := hget _ call' hcall' hreg
    exact ⟨call'', hcall'', hid'.trans hid, hreg'⟩
  · intro p hp
    obtain ⟨call', hcall', hreg, hgone⟩ := h.sent p hp
    obtain ⟨call'', hcall'', hid, hreg'⟩ := hget _ call' hcall' hreg
    exact ⟨call'', hcall'', hreg', by rw [hid]; exact hgone⟩
  · exact calls_set hcall rfl hok fun k x _ hx => h.calls k x hx

theorem Inv.setConsumer {phase : Triggers.ConsumerPhase} (h : Inv w) (hc : w.consumers[i]? = some c)
    (hok : ConsumerOk w { c with phase })
    (hwaiting : ∀ k call, w.fires[k]? = some call → (call.id, k) ∈ w.waiters.toList →
      call.netId = c.content.netId → Registered call.phase → Committed c.phase → Committed phase) :
    Inv (w.setConsumer i c phase) := by
  refine ⟨h.ids, h.netIds, h.noResult, h.rows, h.unique, h.reread, forall_mem_set h.consumers hok, h.waiters,
    h.sent, ?_⟩
  intro k call hcall hregistered hwait hkept
  refine (h.calls k call hcall hregistered hwait hkept).imp ?_ id
  rintro ⟨hwaiter, hawaited⟩
  refine ⟨hwaiter, hawaited.imp id (Or.imp id (Or.imp id ?_))⟩
  rintro ⟨c', hc', hnet, hcommitted⟩
  rcases eq_or_mem_set (b := { c with phase }) hc hc' with rfl | hmem
  · exact ⟨_, mem_set_self hc, hnet, hwaiting k call hcall hwaiter hnet.symm hregistered hcommitted⟩
  · exact ⟨c', hmem, hnet, hcommitted⟩

/-! ## Launch, register and deregister -/

variable {w' : WaitWorld}

theorem Final.mono (h : Final w id outcome)
    (hkept : ∀ row ∈ w.instances, row.status ≠ .running → row ∈ w'.instances) : Final w' id outcome := by
  obtain ⟨row, hrow, hid, hstatus, heq⟩ := h
  exact ⟨row, hkept row hrow hstatus, hid, hstatus, heq⟩

theorem ConsumerOk.mono (h : ConsumerOk w c)
    (hkept : ∀ row ∈ w.instances, row.status ≠ .running → row ∈ w'.instances) : ConsumerOk w' c := by
  intro hcommitted
  obtain ⟨row, hrow, hnet, hstatus, hrest⟩ := h hcommitted
  exact ⟨row, hkept row hrow hstatus, hnet, hstatus, hrest⟩

theorem Inv.launch (h : Inv w) (hcall : w.fires[i]? = some call) (hphase : call.phase = .launching)
    (hfresh : ∀ row ∈ w.instances, row.id ≠ call.id ∧ row.netId ≠ call.netId) :
    Inv { w.setFire i call .launched with
      instances := w.instances ++ [⟨call.id, call.netId, .running, none⟩] } := by
  have hno : ¬ Registered call.phase := by rw [hphase]; exact id
  have hkept : ∀ row ∈ w.instances, row.status ≠ .running →
      row ∈ w.instances ++ [⟨call.id, call.netId, .running, none⟩] := fun row hrow _ => List.mem_append_left _ hrow
  have hget := registered_set (c := { call with phase := .launched }) hcall rfl (fun hreg => absurd hreg hno)
  have hothers : ∀ x ∈ w.fires, x.phase ≠ .launching → x.id ≠ call.id := by
    intro x hx hlaunched hid
    obtain ⟨row, hrow, hrid, -⟩ := h.rows x hx hlaunched
    exact (hfresh row hrow).1 (hrid.trans hid)
  refine ⟨?_, ?_, ?_, ?_, ?_, ?_, ?_, ?_, ?_, ?_⟩
  · rw [List.map_append, List.nodup_append]
    refine ⟨h.ids, List.nodup_singleton _, ?_⟩
    intro x hx y hy heq
    obtain ⟨row, hrow, rfl⟩ := List.mem_map.mp hx
    exact (hfresh row hrow).1 (heq.trans (List.mem_singleton.mp hy))
  · rw [List.map_append, List.nodup_append]
    refine ⟨h.netIds, List.nodup_singleton _, ?_⟩
    intro x hx y hy heq
    obtain ⟨row, hrow, rfl⟩ := List.mem_map.mp hx
    exact (hfresh row hrow).2 (heq.trans (List.mem_singleton.mp hy))
  · intro row hrow hrunning
    rcases List.mem_append.mp hrow with hold | hnew
    · exact h.noResult row hold hrunning
    · rw [List.mem_singleton.mp hnew]
  · refine forall_mem_set ?_ ?_
    · intro x hx hlaunched
      obtain ⟨row, hrow, hrest⟩ := h.rows x hx hlaunched
      exact ⟨row, List.mem_append_left _ hrow, hrest⟩
    · exact fun _ => ⟨_, List.mem_append_right _ (List.mem_singleton.mpr rfl), rfl, rfl⟩
  · refine h.unique.set hcall ?_ ?_
    · exact fun x hx ⟨_, h₂, h₃⟩ => absurd h₃.symm (hothers x hx h₂)
    · exact fun x hx ⟨h₁, _, h₃⟩ => absurd h₃ (hothers x hx h₁)
  · refine forall_mem_set (fun x hx o ho => (h.reread x hx o ho).mono hkept) ?_
    exact fun o ho => by cases ho
  · exact fun c hc => (h.consumers c hc).mono hkept
  · intro p hp
    obtain ⟨call', hcall', hid, hreg⟩ := h.waiters p hp
    obtain ⟨call'', hcall'', hid', hreg'⟩ := hget _ call' hcall' hreg
    exact ⟨call'', hcall'', hid'.trans hid, hreg'⟩
  · intro p hp
    obtain ⟨call', hcall', hreg, hgone⟩ := h.sent p hp
    obtain ⟨call'', hcall'', hid, hreg'⟩ := hget _ call' hcall' hreg
    exact ⟨call'', hcall'', hreg', by rw [hid]; exact hgone⟩
  · refine calls_set hcall rfl (fun hreg => absurd hreg id) fun k x _ hx hreg hwait hkept' => ?_
    have hid := hothers x (List.mem_of_getElem? hx) (not_launching_of_registered hreg)
    refine (h.calls k x hx hreg hwait hkept').imp (And.imp_right ?_) ?_
    · refine Or.imp_left fun hrunning row hrow heq => ?_
      rcases List.mem_append.mp hrow with hold | hnew
      · exact hrunning row hold heq
      · rw [List.mem_singleton.mp hnew]
    · exact fun ⟨o, ho, hfinal⟩ => ⟨o, ho, hfinal.mono hkept⟩

theorem Inv.register (h : Inv w) (hcall : w.fires[i]? = some call) (hphase : call.phase = .launched) :
    Inv { w.setFire i call .registered with waiters := w.waiters.insert (call.id, i) } := by
  have hno : ¬ Registered call.phase := by rw [hphase]; exact id
  have hlaunched : call.phase ≠ .launching := by rw [hphase]; decide
  have hmem : call ∈ w.fires := List.mem_of_getElem? hcall
  have hget := registered_set (c := { call with phase := .registered }) hcall rfl (fun hreg => absurd hreg hno)
  -- no one else waits for this instance
  have hfirst : ∀ p ∈ w.waiters.toList, p.1 ≠ call.id := by
    intro p hp hid
    obtain ⟨x, hx, hxid, hreg⟩ := h.waiters p hp
    obtain rfl : p.2 = i := h.unique p.2 i x call hx hcall
      ⟨not_launching_of_registered hreg, hlaunched, hxid.trans hid⟩
    obtain rfl := Option.some.inj (hcall.symm.trans hx)
    exact hno hreg
  have hwaiters : ∀ p, p ∈ (w.waiters.insert (call.id, i)).toList ↔ p ∈ w.waiters.toList ∨ p = (call.id, i) := by
    intro p
    rw [KeyedList.toList_insert, List.mem_append, List.mem_filter, List.mem_singleton]
    exact or_congr_left ⟨And.left, fun hp => ⟨hp, decide_eq_true (hfirst p hp)⟩⟩
  refine ⟨h.ids, h.netIds, h.noResult, ?_, ?_, ?_, h.consumers, ?_, ?_, ?_⟩
  · exact forall_mem_set h.rows fun _ => h.rows call hmem hlaunched
  · refine h.unique.set hcall ?_ ?_
    · exact fun x _ ⟨_, h₂, h₃⟩ => ⟨hlaunched, h₂, h₃⟩
    · exact fun x _ ⟨h₁, _, h₃⟩ => ⟨h₁, hlaunched, h₃⟩
  · exact forall_mem_set h.reread fun o ho => by cases ho
  · intro p hp
    rcases (hwaiters p).mp hp with hold | rfl
    · obtain ⟨x, hx, hid, hreg⟩ := h.waiters p hold
      obtain ⟨y, hy, hid', hreg'⟩ := hget _ x hx hreg
      exact ⟨y, hy, hid'.trans hid, hreg'⟩
    · exact ⟨_, List.getElem?_set_self (List.getElem?_eq_some_iff.mp hcall).1, rfl, trivial⟩
  · intro p hp
    obtain ⟨x, hx, hreg, hgone⟩ := h.sent p hp
    obtain ⟨y, hy, hid, hreg'⟩ := hget _ x hx hreg
    refine ⟨y, hy, hreg', fun hwaiter => ?_⟩
    rcases (hwaiters _).mp hwaiter with hold | heq
    · exact hgone (hid ▸ hold)
    · -- nothing was sent to a call that had not registered
      have hpi : p.1 = i := congrArg Prod.snd heq
      rw [hpi] at hx
      obtain rfl := Option.some.inj (hcall.symm.trans hx)
      exact hno hreg
  · refine calls_set hcall rfl (fun _ _ _ => ?_) fun k x _ hx hreg hwait hkept => ?_
    · exact .inl ⟨(hwaiters _).mpr (.inr rfl), .inr (.inl rfl)⟩
    · exact (h.calls k x hx hreg hwait hkept).imp (And.imp_left fun hp => (hwaiters _).mpr (.inl hp)) id

theorem Inv.deregister (h : Inv w) (hcall : w.fires[i]? = some call) (hreg : Registered call.phase) :
    Inv { w with
      fires := w.fires.set i { call with deregistered := true }
      waiters := w.waiters.retain (·.1 ≠ call.id) } := by
  have hlaunched := not_launching_of_registered hreg
  have hmem : call ∈ w.fires := List.mem_of_getElem? hcall
  have hget := registered_set (c := { call with deregistered := true }) hcall rfl id
  have hwaiters : ∀ p, p ∈ (w.waiters.retain (·.1 ≠ call.id)).toList ↔ p ∈ w.waiters.toList ∧ p.1 ≠ call.id := by
    intro p
    simp
  refine ⟨h.ids, h.netIds, h.noResult, ?_, ?_, ?_, h.consumers, ?_, ?_, ?_⟩
  · exact forall_mem_set h.rows fun _ => h.rows call hmem hlaunched
  · refine h.unique.set hcall ?_ ?_
    · exact fun x _ h => h
    · exact fun x _ h => h
  · exact forall_mem_set h.reread (h.reread call hmem)
  · intro p hp
    obtain ⟨x, hx, hid, hreg⟩ := h.waiters p ((hwaiters p).mp hp).1
    obtain ⟨y, hy, hid', hreg'⟩ := hget _ x hx hreg
    exact ⟨y, hy, hid'.trans hid, hreg'⟩
  · intro p hp
    obtain ⟨x, hx, hreg, hgone⟩ := h.sent p hp
    obtain ⟨y, hy, hid, hreg'⟩ := hget _ x hx hreg
    exact ⟨y, hy, hreg', fun hwaiter => hgone (hid ▸ ((hwaiters _).mp hwaiter).1)⟩
  · refine calls_set hcall rfl (fun _ _ hkept => by cases hkept) fun k x hki hx hxreg hwait hkept => ?_
    have hne : x.id ≠ call.id := fun hid =>
      hki (h.unique k i x call hx hcall ⟨not_launching_of_registered hxreg, hlaunched, hid⟩)
    exact (h.calls k x hx hxreg hwait hkept).imp (And.imp_left fun hp => (hwaiters _).mpr ⟨hp, hne⟩) id

/-! ## The listener commits -/

theorem matches_iff {netId : String} :
    row.matches netId = true ↔ row.netId = netId ∧ row.status = .running := by
  simp [WaitedRow.matches]

theorem Inv.commit (h : Inv w) (hc : w.consumers[i]? = some c) (hphase : c.phase = .received)
    (hany : w.instances.any (·.matches c.content.netId) = true) : Inv { w.setConsumer i c .committed with
      instances := w.instances.map fun row =>
        if row.matches c.content.netId then row.terminate c.content else row } := by
  let change (row : WaitedRow) : WaitedRow :=
    if row.matches c.content.netId then row.terminate c.content else row
  have hid : ∀ row, (change row).id = row.id := fun row => by simp only [change]; split <;> rfl
  have hnet : ∀ row, (change row).netId = row.netId := fun row => by simp only [change]; split <;> rfl
  have hterminal : ∀ row : WaitedRow, (row.terminate c.content).status ≠ .running := by
    intro row
    show c.content.eventType.toInstance ≠ .running
    cases c.content.eventType <;> simp [TerminalStatus.toInstance]
  have hkept : ∀ row ∈ w.instances, row.status ≠ .running → row ∈ w.instances.map change := by
    intro row hrow hstatus
    have hno : ¬ row.matches c.content.netId = true := fun hm => hstatus (matches_iff.mp hm).2
    exact List.mem_map.mpr ⟨row, hrow, if_neg hno⟩
  refine ⟨?_, ?_, ?_, ?_, h.unique, ?_, ?_, h.waiters, h.sent, ?_⟩
  · show ((w.instances.map change).map (·.id)).Nodup
    rw [List.map_map, show (·.id) ∘ change = (·.id) from funext hid]
    exact h.ids
  · show ((w.instances.map change).map (·.netId)).Nodup
    rw [List.map_map, show (·.netId) ∘ change = (·.netId) from funext hnet]
    exact h.netIds
  · intro row' hrow' hrunning
    obtain ⟨row, hrow, rfl⟩ := List.mem_map.mp hrow'
    by_cases hm : row.matches c.content.netId = true
    · rw [if_pos hm] at hrunning
      exact absurd hrunning (hterminal row)
    · rw [if_neg hm] at hrunning ⊢
      exact h.noResult row hrow hrunning
  · intro call hcall hlaunched
    obtain ⟨row, hrow, hrid, hrnet⟩ := h.rows call hcall hlaunched
    exact ⟨change row, List.mem_map_of_mem hrow, (hid row).trans hrid, (hnet row).trans hrnet⟩
  · exact fun call hcall o ho => (h.reread call hcall o ho).mono hkept
  · refine forall_mem_set (fun c' hc' => (h.consumers c' hc').mono hkept) fun _ => ?_
    obtain ⟨row, hrow, hm⟩ := List.any_eq_true.mp hany
    obtain ⟨hrnet, hrunning⟩ := matches_iff.mp hm
    refine ⟨row.terminate c.content, List.mem_map.mpr ⟨row, hrow, if_pos hm⟩, hrnet, hterminal row, ?_, ?_⟩
    · -- the row had no result, so it has that of the message
      show outcomeOf c.content = ⟨_, c.content.resultEnvelope <|> row.result⟩
      rw [h.noResult row hrow hrunning]
      simp [outcomeOf, WaitedRow.terminate]
    · exact fun id hfound => by cases hfound
  · intro k call hcall hreg hwait hkept'
    refine (h.calls k call hcall hreg hwait hkept').imp (And.imp_right fun hawaited => ?_) ?_
    · by_cases hmine : c.content.netId = call.netId
      · -- this delivery is going to resolve it
        exact .inr (.inr (.inr ⟨{ c with phase := .committed }, mem_set_self hc, hmine, trivial⟩))
      · refine hawaited.imp (fun hrunning row' hrow' heq => ?_) (Or.imp id (Or.imp id ?_))
        · obtain ⟨row, hrow, rfl⟩ := List.mem_map.mp hrow'
          have hrid : row.id = call.id := (hid row).symm.trans heq
          have hno : ¬ row.matches c.content.netId = true := by
            intro hm
            obtain ⟨row₀, hrow₀, hid₀, hnet₀⟩ :=
              h.rows call (List.mem_of_getElem? hcall) (not_launching_of_registered hreg)
            rw [h.row_eq hrow₀ hrow (hid₀.trans hrid.symm)] at hnet₀
            exact hmine ((matches_iff.mp hm).1.symm.trans hnet₀)
          rw [if_neg hno]
          exact hrunning row hrow hrid
        · rintro ⟨c', hc', hnet', hcommitted⟩
          rcases eq_or_mem_set (b := { c with phase := .committed }) hc hc' with rfl | hmem
          · exact absurd hnet' hmine
          · exact ⟨c', hmem, hnet', hcommitted⟩
    · exact fun ⟨o, ho, hfinal⟩ => ⟨o, ho, hfinal.mono hkept⟩

/-! ## One step -/

theorem Inv.fire (h : Inv w) (id : Uuid) (netId : String) (wait : Bool) :
    Inv { w with fires := w.fires ++ [⟨id, netId, wait, .launching, false⟩] } := by
  have hget : ∀ {k : Nat} {x : FireCall}, w.fires[k]? = some x →
      (w.fires ++ [⟨id, netId, wait, .launching, false⟩])[k]? = some x := by
    intro k x hx
    rw [List.getElem?_append_left (List.getElem?_eq_some_iff.mp hx).1]
    exact hx
  have hcases : ∀ {P : FireCall → Prop}, (∀ x ∈ w.fires, P x) → P ⟨id, netId, wait, .launching, false⟩ →
      ∀ x ∈ w.fires ++ [⟨id, netId, wait, .launching, false⟩], P x := by
    intro P hold hnew x hx
    rcases List.mem_append.mp hx with hx | hx
    · exact hold x hx
    · rw [List.mem_singleton.mp hx]
      exact hnew
  refine ⟨h.ids, h.netIds, h.noResult, ?_, ?_, ?_, h.consumers, ?_, ?_, ?_⟩
  · exact hcases h.rows fun hlaunched => absurd rfl hlaunched
  · exact h.unique.concat (fun _ h => h.1 rfl) fun _ h => h.2.1 rfl
  · exact hcases h.reread fun o ho => by cases ho
  · intro p hp
    obtain ⟨x, hx, hrest⟩ := h.waiters p hp
    exact ⟨x, hget hx, hrest⟩
  · intro p hp
    obtain ⟨x, hx, hrest⟩ := h.sent p hp
    exact ⟨x, hget hx, hrest⟩
  · intro k x hx hreg
    change (w.fires ++ [_])[k]? = some x at hx
    rw [List.getElem?_append] at hx
    split at hx
    · exact h.calls k x hx hreg
    · rw [List.mem_singleton.mp (List.mem_of_getElem? hx)] at hreg
      exact absurd hreg fun h => h

theorem Inv.receive (h : Inv w) (content : LifecycleMessage) :
    Inv { w with consumers := w.consumers ++ [⟨content, .received⟩] } := by
  refine ⟨h.ids, h.netIds, h.noResult, h.rows, h.unique, h.reread, ?_, h.waiters, h.sent, ?_⟩
  · intro c hc
    rcases List.mem_append.mp hc with hold | hnew
    · exact h.consumers c hold
    · rw [List.mem_singleton.mp hnew]
      exact fun hcommitted => absurd hcommitted id
  · intro k call hcall hreg hwait hkept
    refine (h.calls k call hcall hreg hwait hkept).imp (And.imp_right (Or.imp id (Or.imp id (Or.imp id ?_)))) id
    exact fun ⟨c, hc, hrest⟩ => ⟨c, List.mem_append_left _ hc, hrest⟩

theorem Inv.rereadRow (h : Inv w) (hcall : w.fires[i]? = some call) (hphase : call.phase = .registered) :
    Inv (w.setFire i call (.reread ((w.instances.find? (·.id = call.id)).bind fun row =>
      if isTerminal row.status then some ⟨row.status, row.result⟩ else none))) := by
  have hreg : Registered call.phase := by rw [hphase]; trivial
  have hmem := List.mem_of_getElem? hcall
  obtain ⟨row, hrow, hid, hnet⟩ := h.rows call hmem (not_launching_of_registered hreg)
  have hfind : w.instances.find? (·.id = call.id) = some row := by
    have hsome : (w.instances.find? (·.id = call.id)).isSome = true :=
      List.find?_isSome.mpr ⟨row, hrow, decide_eq_true hid⟩
    obtain ⟨row', hfind⟩ := Option.isSome_iff_exists.mp hsome
    have hid' : row'.id = call.id := by simpa using List.find?_some hfind
    rw [hfind, h.row_eq (List.mem_of_find?_eq_some hfind) hrow (hid'.trans hid.symm)]
  rw [hfind, Option.bind_some]
  refine h.setFire hcall (not_launching_of_registered hreg) (fun _ => trivial) ?_ fun _ hwait hkept => ?_
  · intro o ho
    split at ho
    · rename_i hterminal
      cases ho
      refine ⟨row, hrow, hid, ?_, rfl⟩
      intro hrunning
      rw [hrunning] at hterminal
      cases hterminal
    · cases ho
  · refine (h.calls i call hcall hreg hwait hkept).imp (And.imp_right fun _ => ?_) id
    by_cases hrunning : row.status = .running
    · exact .inl fun row' hrow' heq => by rw [h.row_eq hrow' hrow (heq.trans hid.symm)]; exact hrunning
    · refine .inr (.inr (.inl ⟨⟨row.status, row.result⟩, ?_⟩))
      have hterminal : isTerminal row.status = true := by
        cases hstatus : row.status with
        | running => exact absurd hstatus hrunning
        | _ => rfl
      show FirePhase.reread _ = _
      rw [if_pos hterminal]

theorem resolveWaiter_frame (w : WaitWorld) (id : Uuid) (outcome : TerminalOutcome) :
    (w.resolveWaiter id outcome).fires = w.fires ∧ (w.resolveWaiter id outcome).consumers = w.consumers ∧
      (w.resolveWaiter id outcome).instances = w.instances := by
  unfold WaitWorld.resolveWaiter
  split <;> exact ⟨rfl, rfl, rfl⟩

theorem resolveWaiter_setFire (w : WaitWorld) (i : Nat) (call : FireCall) (phase : FirePhase) (id : Uuid)
    (outcome : TerminalOutcome) :
    (w.setFire i call phase).resolveWaiter id outcome = (w.resolveWaiter id outcome).setFire i call phase := by
  have hwaiters : (w.setFire i call phase).waiters = w.waiters := rfl
  unfold WaitWorld.resolveWaiter
  rw [hwaiters]
  cases w.waiters.get? id <;> rfl

theorem resolveWaiter_setConsumer (w : WaitWorld) (i : Nat) (c : ConsumerCall) (phase : Triggers.ConsumerPhase) (id : Uuid)
    (outcome : TerminalOutcome) :
    (w.setConsumer i c phase).resolveWaiter id outcome = (w.resolveWaiter id outcome).setConsumer i c phase := by
  have hwaiters : (w.setConsumer i c phase).waiters = w.waiters := rfl
  unfold WaitWorld.resolveWaiter
  rw [hwaiters]
  cases w.waiters.get? id <;> rfl

theorem inv_step {act : WaitAction} (h : Inv w) (hs : step w act = some w') : Inv w' := by
  cases act with
  | fire id netId wait =>
    cases hs
    exact h.fire id netId wait
  | launch i =>
    obtain ⟨call, hcall, hs⟩ := Option.bind_eq_some_iff.mp hs
    split at hs
    case h_2 => cases hs
    case h_1 hphase =>
      split at hs
      · cases hs
      · rename_i hany
        cases hs
        refine h.launch hcall hphase fun row hrow => ?_
        simp only [List.any_eq_true, not_exists, not_and, Bool.or_eq_true, decide_eq_true_eq, not_or] at hany
        exact hany row hrow
  | register i =>
    obtain ⟨call, hcall, hs⟩ := Option.bind_eq_some_iff.mp hs
    split at hs
    case h_2 => cases hs
    case h_1 hphase =>
      split at hs
      · cases hs
        exact h.register hcall hphase
      · rename_i hwait
        cases hs
        exact h.setFire hcall (by rw [hphase]; decide) (fun _ => trivial) (fun _ ho => by cases ho)
          fun _ hwait' => absurd hwait' hwait
  | rereadRow i =>
    obtain ⟨call, hcall, hs⟩ := Option.bind_eq_some_iff.mp hs
    split at hs
    case h_2 => cases hs
    case h_1 hphase =>
      cases hs
      exact h.rereadRow hcall hphase
  | resolveReread i =>
    obtain ⟨call, hcall, hs⟩ := Option.bind_eq_some_iff.mp hs
    split at hs
    case h_2 => cases hs
    case h_1 outcome hphase =>
      have hreg : Registered call.phase := by rw [hphase]; trivial
      cases hs
      cases outcome with
      | none =>
        refine h.setFire hcall (not_launching_of_registered hreg) (fun _ => trivial) (fun _ ho => by cases ho)
          fun _ hwait hkept => ?_
        refine (h.calls i call hcall hreg hwait hkept).imp (And.imp_right ?_) id
        -- the row was running when it was read, so the listener was still to commit
        rintro (hrunning | hregistered | ⟨o, ho⟩ | hconsumer)
        · exact .inl hrunning
        · rw [hphase] at hregistered
          cases hregistered
        · rw [hphase] at ho
          cases ho
        · exact .inr (.inr (.inr hconsumer))
      | some outcome =>
        show Inv ((w.setFire i call .returned).resolveWaiter call.id outcome)
        rw [resolveWaiter_setFire]
        obtain ⟨hfires, -, -⟩ := resolveWaiter_frame w call.id outcome
        have hafter := h.resolveWaiter (h.reread call (List.mem_of_getElem? hcall) outcome hphase)
        rw [← hfires] at hcall
        refine hafter.setFire hcall (not_launching_of_registered hreg) (fun _ => trivial)
          (fun _ ho => by cases ho) fun _ hwait hkept => .inr ?_
        rcases hafter.calls i call hcall hreg hwait hkept with ⟨hwaiter, -⟩ | hserved
        · exact absurd rfl (mem_waiters_resolveWaiter.mp hwaiter).2
        · exact hserved
  | deregister i =>
    obtain ⟨call, hcall, hs⟩ := Option.bind_eq_some_iff.mp hs
    split at hs
    case h_2 => cases hs
    case h_1 hphase =>
      split at hs
      · cases hs
        exact h.deregister hcall (by rw [hphase]; trivial)
      · cases hs
  | receive content =>
    cases hs
    exact h.receive content
  | commit i =>
    obtain ⟨c, hc, hs⟩ := Option.bind_eq_some_iff.mp hs
    split at hs
    case h_2 => cases hs
    case h_1 hphase =>
      dsimp only at hs
      split at hs
      · rename_i hany
        cases hs
        exact h.commit hc hphase hany
      · cases hs
        refine h.setConsumer hc (fun hcommitted => absurd hcommitted id) fun _ _ _ _ _ _ hcommitted => ?_
        rw [hphase] at hcommitted
        exact absurd hcommitted id
  | testWaiters i =>
    obtain ⟨c, hc, hs⟩ := Option.bind_eq_some_iff.mp hs
    split at hs
    case h_2 => cases hs
    case h_1 hphase =>
      cases hs
      have hok := h.consumers c (List.mem_of_getElem? hc)
      refine h.setConsumer hc (fun _ => ?_) fun k call hcall hwaiter _ _ _ => ?_
      · obtain ⟨row, hrow, hnet, hstatus, heq, -⟩ := hok (by rw [hphase]; trivial)
        refine ⟨row, hrow, hnet, hstatus, heq, fun id hfound => ?_⟩
        simp only at hfound
        split at hfound <;> cases hfound
      · -- whoever waits for it is in the map
        have hne : ¬ w.waiters.toList.isEmpty = true := by
          rw [List.isEmpty_iff]
          exact List.ne_nil_of_mem hwaiter
        rw [if_neg hne]
        trivial
  | lookUp i =>
    obtain ⟨c, hc, hs⟩ := Option.bind_eq_some_iff.mp hs
    split at hs
    case h_2 => cases hs
    case h_1 hphase =>
      obtain ⟨row, hrow, hnet, hstatus, heq, -⟩ :=
        h.consumers c (List.mem_of_getElem? hc) (by rw [hphase]; trivial)
      split at hs
      case h_1 row' hfind =>
        cases hs
        have hnet' : row'.netId = c.content.netId := by simpa using List.find?_some hfind
        obtain rfl : row' = row := List.inj_on_of_nodup_map h.netIds (List.mem_of_find?_eq_some hfind) hrow
          (hnet'.trans hnet.symm)
        refine h.setConsumer hc (fun _ => ⟨row', hrow, hnet, hstatus, heq, fun id hfound => ?_⟩)
          fun _ _ _ _ _ _ _ => trivial
        cases hfound
        rfl
      case h_2 hnone => exact absurd (decide_eq_true hnet) (List.find?_eq_none.mp hnone row hrow)
  | resolve i =>
    obtain ⟨c, hc, hs⟩ := Option.bind_eq_some_iff.mp hs
    split at hs
    case h_2 => cases hs
    case h_1 id' hphase =>
      cases hs
      obtain ⟨row, hrow, hnet, hstatus, heq, hid⟩ :=
        h.consumers c (List.mem_of_getElem? hc) (by rw [hphase]; trivial)
      have hid' : row.id = id' := hid id' hphase
      rw [resolveWaiter_setConsumer]
      obtain ⟨hfires, hconsumers, hinstances⟩ := resolveWaiter_frame w id' (outcomeOf c.content)
      have hafter := h.resolveWaiter ⟨row, hrow, hid', hstatus, heq⟩
      rw [← hconsumers] at hc
      refine hafter.setConsumer hc (fun hcommitted => absurd hcommitted fun h => h) ?_
      intro k call hcall hwaiter hcnet hreg _
      -- a call that waits for this net waits for this instance, and was just served
      rw [hfires] at hcall
      obtain ⟨row', hrow', hrid, hrnet⟩ :=
        h.rows call (List.mem_of_getElem? hcall) (not_launching_of_registered hreg)
      obtain rfl : row' = row := List.inj_on_of_nodup_map h.netIds hrow' hrow
        (hrnet.trans (hcnet.trans hnet.symm))
      exact absurd (hrid.symm.trans hid') (mem_waiters_resolveWaiter.mp hwaiter).2

/-- **A call that waits, and has not gone away, is sent the status and the result of its row exactly once,
when the row is terminal and neither path has anything left to do for it.** -/
theorem waiter_resolved {run : List WaitAction} (hend : exec step new run = some w) (hcall : w.fires[i]? = some call)
    (hreturned : call.phase = .returned) (hwait : call.wait = true) (hkept : call.deregistered = false)
    (hfinished : ∀ c ∈ w.consumers, c.content.netId = call.netId → ¬ Committed c.phase) {row : WaitedRow}
    (hrow : row ∈ w.instances) (hid : row.id = call.id) (hterminal : row.status ≠ .running) :
    received w i = [⟨row.status, row.result⟩] := by
  have h : Inv w := exec_invariant (fun _ _ _ h hs => inv_step h hs) inv_new hend
  have hreg : Registered call.phase := by rw [hreturned]; trivial
  rcases h.calls i call hcall hreg hwait hkept with ⟨-, hawaited⟩ | ⟨outcome, hreceived, hfinal⟩
  · rcases hawaited with hrunning | hregistered | ⟨o, ho⟩ | ⟨c, hc, hnet, hcommitted⟩
    · exact absurd (hrunning row hrow hid) hterminal
    · rw [hreturned] at hregistered
      cases hregistered
    · rw [hreturned] at ho
      cases ho
    · exact absurd hcommitted (hfinished c hc hnet)
  · rw [hreceived, h.final_unique hfinal ⟨row, hrow, hid, hterminal, rfl⟩]

/-! ## An instance that completes while it is launched -/

/-- The listener commits and finds no waiter; the call then registers and reads the terminal row. -/
def completesEarly : List WaitAction :=
  [.fire 5 "mekhan-5" true, .launch 0, .receive ⟨"mekhan-5", .cancelled, none⟩, .commit 0, .testWaiters 0,
    .register 0, .rereadRow 0, .resolveReread 0]

theorem waiter_resolved_completesEarly : ∃ w, exec step new completesEarly = some w ∧
    received w 0 = [⟨.cancelled, some (errorEnvelope none)⟩] := by
  refine ⟨_, rfl, ?_⟩
  exact waiter_resolved (rfl : exec step new completesEarly = some _)
    (rfl : _ = some (⟨5, "mekhan-5", true, .returned, false⟩ : FireCall)) rfl rfl rfl
    (fun c hc _ => by rw [List.mem_singleton.mp hc]; exact id)
    (List.mem_singleton.mpr (rfl : (⟨5, "mekhan-5", .cancelled, some (errorEnvelope none)⟩ : WaitedRow) = _)) rfl (by decide)

end WaiterOutcome

end Mekhan
