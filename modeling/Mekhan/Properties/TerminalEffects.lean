import Mekhan.Infra.Runs
import Mekhan.Infra.Slots
import Mekhan.Service.Lifecycle

/-!
# Terminal effects

The status of an instance changes once and its counters count it once, however often its messages are
delivered: both are in one transaction, which finds the row only while it is running. What follows the
transaction is not: a delivery that crashes after its commit leaves the rest undone, since every later one
finds the row changed and gives the message back until it is dropped.
-/

namespace Mekhan

namespace TerminalEffects

open Infra Lifecycle Listener

def runCount (table : KeyedList RunRollup.key) (key : RunKey) : Nat := ((table.get? key).map (·.runCount)).getD 0

def userRunCount (table : KeyedList UserRuns.key) (key : Uuid × Uuid) : Nat :=
  ((table.get? key).map (·.runCount)).getD 0

/-- Nothing was delivered, and the instances of the messages are there and run. -/
structure Start (s : Listener) : Prop where
  deliveries : s.deliveries = []
  flips : s.flips = []
  performed : s.performed = []
  netIds : (s.instances.map (·.netId)).Nodup
  rows : ∀ msg ∈ s.messages, msg.acked = false ∧
    ∃ row ∈ s.instances, row.netId = msg.content.netId ∧ row.status = .running

/-- Every message is acknowledged, and no delivery has anything left to do. -/
def Done (t : Listener) : Prop :=
  (∀ msg ∈ t.messages, msg.acked = true) ∧
    ∀ d ∈ t.deliveries, d.crashed = true ∨ d.phase = .acknowledged ∨ d.phase = .returned

/-- What the messages were to effect since `s`. -/
structure EffectsOnce (s t : Listener) : Prop where
  /-- The instance of a message has changed from `running` once. -/
  flipped : ∀ msg ∈ t.messages, (t.flips.filter (·.row.netId = msg.content.netId)).length = 1
  rows : ∀ flip ∈ t.flips, flip.row ∈ t.instances ∧ flip.row.status ≠ .running
  /-- Each counter has counted each of its runs once. -/
  runs : ∀ key, runCount t.runRollup key =
    runCount s.runRollup key + (t.flips.filter (·.runKey = key)).length
  users : ∀ key, userRunCount t.userRuns key =
    userRunCount s.userRuns key + (t.flips.filter (·.userKey = key)).length
  followed : ∀ msg ∈ t.messages, ∀ next ∈ followUps, (next, msg.content.netId) ∈ t.performed

/-- The transaction has committed and steps are still to come. -/
def InWindow : DeliveryPhase → Prop
  | .following (_ :: _) => True
  | _ => False

/-- No delivery crashes between its commit and the last step that follows. -/
def CrashesOutside (s : Listener) : LifecycleAction → Prop
  | .crash i => ∀ d ∈ s.deliveries[i]?, ¬ InWindow d.phase
  | _ => True

/-! ## Counters -/

theorem runCount_recordRun (table : KeyedList RunRollup.key) (flip : Flip) (key : RunKey) :
    runCount (recordRun table flip) key = runCount table key + if flip.runKey = key then 1 else 0 := by
  unfold runCount recordRun
  dsimp only
  rw [KeyedList.get?_insert]
  by_cases hkey : flip.runKey = key
  · subst hkey
    cases table.get? flip.runKey <;> simp
  · have hne : key ≠ flip.runKey := fun h => hkey h.symm
    cases table.get? flip.runKey <;> simp [hkey, hne]

theorem userRunCount_recordUser (table : KeyedList UserRuns.key) (flip : Flip) (key : Uuid × Uuid) :
    userRunCount (recordUser table flip) key =
      userRunCount table key + if flip.userKey = key then 1 else 0 := by
  unfold userRunCount recordUser
  dsimp only
  rw [KeyedList.get?_insert]
  by_cases hkey : flip.userKey = key
  · subst hkey
    cases table.get? flip.userKey <;> simp
  · have hne : key ≠ flip.userKey := fun h => hkey h.symm
    cases table.get? flip.userKey <;> simp [hkey, hne]

/-! ## The tables -/

/-- The instance of a net has changed from `running`. -/
def Flipped (t : Listener) (netId : String) : Prop := ∃ flip ∈ t.flips, flip.row.netId = netId

/-- The rows and the counters agree about what has ended. -/
structure Tables (s t : Listener) : Prop where
  netIds : (t.instances.map (·.netId)).Nodup
  rows : ∀ flip ∈ t.flips, flip.row ∈ t.instances ∧ flip.row.status ≠ .running
  once : (t.flips.map (·.row.netId)).Nodup
  runs : ∀ key, runCount t.runRollup key =
    runCount s.runRollup key + (t.flips.filter (·.runKey = key)).length
  users : ∀ key, userRunCount t.userRuns key =
    userRunCount s.userRuns key + (t.flips.filter (·.userKey = key)).length
  messages : ∀ msg ∈ t.messages, ∃ row ∈ t.instances, row.netId = msg.content.netId ∧
    (row.status = .running ∨ Flipped t row.netId)
  acked : ∀ msg ∈ t.messages, msg.acked = true → Flipped t msg.content.netId

variable {s t t' : Listener} {i : Nat} {d d' : Lifecycle.Delivery}

variable {row : InstanceRow} {phase : DeliveryPhase}

theorem matches_iff {netId : String} :
    row.matches netId = true ↔ row.netId = netId ∧ row.status = .running := by
  simp [InstanceRow.matches]

/-- Only the messages, the deliveries and what was performed differ, and of the messages nothing that is
read here. -/
theorem Tables.congr (h : Tables s t) (hinstances : t'.instances = t.instances)
    (hruns : t'.runRollup = t.runRollup) (husers : t'.userRuns = t.userRuns) (hflips : t'.flips = t.flips)
    (hmessages : ∀ msg' ∈ t'.messages, ∃ msg ∈ t.messages, msg'.content = msg.content ∧
      (msg'.acked = true → msg.acked = true ∨ Flipped t msg.content.netId)) : Tables s t' := by
  have hflipped : ∀ netId, Flipped t' netId ↔ Flipped t netId := fun netId => by rw [Flipped, hflips, Flipped]
  refine ⟨?_, ?_, ?_, ?_, ?_, ?_, ?_⟩
  · rw [hinstances]
    exact h.netIds
  · rw [hinstances, hflips]
    exact h.rows
  · rw [hflips]
    exact h.once
  · rw [hruns, hflips]
    exact h.runs
  · rw [husers, hflips]
    exact h.users
  · intro msg' hmsg'
    obtain ⟨msg, hmsg, hcontent, -⟩ := hmessages msg' hmsg'
    rw [hinstances, hcontent]
    simp only [hflipped]
    exact h.messages msg hmsg
  · intro msg' hmsg' hacked
    obtain ⟨msg, hmsg, hcontent, hold⟩ := hmessages msg' hmsg'
    rw [hflipped, hcontent]
    exact (hold hacked).elim (h.acked msg hmsg) id

theorem Tables.commit {msg : LifecycleMessage} (h : Tables s t) (hrow : row ∈ t.instances)
    (hmatches : row.matches msg.netId = true) (now : DateTime) : Tables s (t.commit row msg now) := by
  obtain ⟨hnet, hrunning⟩ := matches_iff.mp hmatches
  have hkept : ∀ r ∈ t.instances, r.status ≠ .running → r ∈ (t.commit row msg now).instances := by
    intro r hr hstatus
    have hno : ¬ r.matches msg.netId = true := fun hm => hstatus (matches_iff.mp hm).2
    exact List.mem_map.mpr ⟨r, hr, if_neg hno⟩
  have hnew : row.terminate msg now ∈ (t.commit row msg now).instances :=
    List.mem_map.mpr ⟨row, hrow, if_pos hmatches⟩
  have hterminal : (row.terminate msg now).status ≠ .running := by
    show msg.eventType.toInstance ≠ .running
    cases msg.eventType <;> simp [TerminalStatus.toInstance]
  refine ⟨?_, ?_, ?_, ?_, ?_, ?_, ?_⟩
  · have hmap : (t.commit row msg now).instances.map (·.netId) = t.instances.map (·.netId) := by
      show (t.instances.map _).map _ = _
      rw [List.map_map]
      refine List.map_congr_left fun r _ => ?_
      show (if r.matches msg.netId then r.terminate msg now else r).netId = r.netId
      split <;> rfl
    rw [hmap]
    exact h.netIds
  · intro flip hflip
    rcases List.mem_append.mp hflip with hold | hflip
    · obtain ⟨hmem, hstatus⟩ := h.rows flip hold
      exact ⟨hkept _ hmem hstatus, hstatus⟩
    · obtain rfl := List.mem_singleton.mp hflip
      exact ⟨hnew, hterminal⟩
  · show ((t.flips ++ [_]).map _).Nodup
    rw [List.map_append, List.nodup_append]
    refine ⟨h.once, List.nodup_singleton _, ?_⟩
    intro netId hold netId' hlast heq
    obtain ⟨flip, hflip, rfl⟩ := List.mem_map.mp hold
    obtain rfl := List.mem_singleton.mp hlast
    -- the row of an earlier change is no longer running, and there is one row with this net
    obtain ⟨hmem, hstatus⟩ := h.rows flip hflip
    have hsame : flip.row = row := List.inj_on_of_nodup_map h.netIds hmem hrow heq
    exact hstatus (hsame ▸ hrunning)
  · intro key
    show runCount (recordRun t.runRollup _) key = _ + ((t.flips ++ [_]).filter _).length
    rw [runCount_recordRun, h.runs, List.filter_append, List.length_append, Nat.add_assoc]
    congr 2
    split <;> simp_all
  · intro key
    show userRunCount (recordUser t.userRuns _) key = _ + ((t.flips ++ [_]).filter _).length
    rw [userRunCount_recordUser, h.users, List.filter_append, List.length_append, Nat.add_assoc]
    congr 2
    split <;> simp_all
  · intro msg' hmsg'
    obtain ⟨r, hr, hnet', hcase⟩ := h.messages msg' hmsg'
    by_cases hm : r.matches msg.netId = true
    · refine ⟨_, List.mem_map.mpr ⟨r, hr, if_pos hm⟩, hnet', .inr ?_⟩
      refine ⟨_, List.mem_append_right _ (List.mem_singleton.mpr rfl), ?_⟩
      exact hnet.trans (matches_iff.mp hm).1.symm
    · refine ⟨r, List.mem_map.mpr ⟨r, hr, if_neg hm⟩, hnet', hcase.imp id ?_⟩
      exact fun ⟨flip, hflip, heq⟩ => ⟨flip, List.mem_append_left _ hflip, heq⟩
  · intro msg' hmsg' hacked
    obtain ⟨flip, hflip, heq⟩ := h.acked msg' hmsg' hacked
    exact ⟨flip, List.mem_append_left _ hflip, heq⟩

/-! ## The deliveries -/

/-- The transaction of the delivery has changed the row. -/
def Flips (d : Lifecycle.Delivery) : Prop :=
  match d.phase with
  | .following _ | .acknowledged => True
  | _ => False

def pendingOf (d : Lifecycle.Delivery) : List FollowUp :=
  match d.phase with
  | .following pending => pending
  | _ => []

/-- Two deliveries have changed the row of one net. -/
def BothFlip (d d' : Lifecycle.Delivery) : Prop := Flips d ∧ Flips d' ∧ d.content.netId = d'.content.netId

/-- For each net that was flipped one delivery has done it, and performed what it does not have to do. -/
structure Deliveries (t : Listener) : Prop where
  contents : ∀ d ∈ t.deliveries, ∃ msg ∈ t.messages[d.message]?, msg.content = d.content
  flipped : ∀ netId, Flipped t netId ↔ ∃ d ∈ t.deliveries, Flips d ∧ d.content.netId = netId
  unique : AtMostOne t.deliveries BothFlip
  pending : ∀ d ∈ t.deliveries, pendingOf d <:+ followUps
  performed : ∀ next netId, (next, netId) ∈ t.performed ↔
    ∃ d ∈ t.deliveries, (Flips d ∧ d.content.netId = netId) ∧ next ∉ pendingOf d

theorem mem_followUps (next : FollowUp) : next ∈ followUps := by
  cases next <;> decide

/-- The messages are those of before, but for how often they were delivered and whether they are
acknowledged. -/
def SameContents (t t' : Listener) : Prop :=
  ∀ j : Nat, ∀ msg ∈ t.messages[j]?, ∃ msg' ∈ t'.messages[j]?, msg'.content = msg.content

theorem SameContents.of_eq (h : t'.messages = t.messages) : SameContents t t' :=
  fun _ msg hmsg => ⟨msg, h ▸ hmsg, rfl⟩

theorem contents_advance (hsame : SameContents t t')
    (h : ∃ msg ∈ t.messages[d.message]?, msg.content = d.content) :
    ∃ msg ∈ t'.messages[d.message]?, msg.content = d.content := by
  obtain ⟨msg, hmsg, hcontent⟩ := h
  obtain ⟨msg', hmsg', hsame⟩ := hsame _ msg hmsg
  exact ⟨msg', hmsg', hsame.trans hcontent⟩

theorem Deliveries.replace (h : Deliveries t) (hd : t.deliveries[i]? = some d)
    (hset : t'.deliveries = t.deliveries.set i d') (hflips : t'.flips = t.flips)
    (hperformed : t'.performed = t.performed) (hsame : SameContents t t') (hmessage : d'.message = d.message)
    (hcontent : d'.content = d.content) (hflip : Flips d' ↔ Flips d) (hpending : pendingOf d' = pendingOf d) :
    Deliveries t' := by
  have hmem : d ∈ t.deliveries := List.mem_of_getElem? hd
  refine ⟨?_, ?_, ?_, ?_, ?_⟩
  · rw [hset]
    refine forall_mem_set (fun x hx => contents_advance hsame (h.contents x hx)) ?_
    rw [hmessage, hcontent]
    exact contents_advance hsame (h.contents d hmem)
  · intro netId
    rw [Flipped, hflips, hset, exists_mem_set_congr hd (by rw [hflip, hcontent])]
    exact h.flipped netId
  · rw [hset]
    refine h.unique.set hd ?_ ?_
    · exact fun x _ ⟨h₁, h₂, h₃⟩ => ⟨hflip.mp h₁, h₂, hcontent ▸ h₃⟩
    · exact fun x _ ⟨h₁, h₂, h₃⟩ => ⟨h₁, hflip.mp h₂, hcontent ▸ h₃⟩
  · rw [hset]
    exact forall_mem_set h.pending (hpending ▸ h.pending d hmem)
  · intro next netId
    rw [hperformed, hset, exists_mem_set_congr hd (by rw [hflip, hcontent, hpending])]
    exact h.performed next netId

theorem Deliveries.follow {next : FollowUp} {rest : List FollowUp} (h : Deliveries t)
    (hd : t.deliveries[i]? = some d) (hphase : d.phase = .following (next :: rest)) :
    Deliveries { t.setDelivery i d (.following rest) with
      performed := t.performed ++ [(next, d.content.netId)] } := by
  have hmem : d ∈ t.deliveries := List.mem_of_getElem? hd
  have hflip : Flips d := by rw [Flips, hphase]; trivial
  have hflip' : Flips { d with phase := .following rest } := trivial
  have hpending : pendingOf d = next :: rest := by rw [pendingOf, hphase]
  have hsuffix := h.pending d hmem
  rw [hpending] at hsuffix
  -- no step comes twice, so the one that was performed is not to come again
  have hnext : next ∉ rest := (List.nodup_cons.mp (hsuffix.sublist.nodup (by decide))).1
  refine ⟨?_, ?_, ?_, ?_, ?_⟩
  · exact forall_mem_set h.contents (h.contents d hmem)
  · intro netId
    have := exists_mem_set_congr (b := { d with phase := .following rest })
      (P := fun d => Flips d ∧ d.content.netId = netId) hd (and_congr_left' (iff_of_true hflip' hflip))
    exact (h.flipped netId).trans this.symm
  · refine h.unique.set hd ?_ ?_
    · exact fun x _ ⟨_, h₂, h₃⟩ => ⟨hflip, h₂, h₃⟩
    · exact fun x _ ⟨h₁, _, h₃⟩ => ⟨h₁, hflip, h₃⟩
  · exact forall_mem_set h.pending ((List.suffix_cons next rest).trans hsuffix)
  · intro next' netId
    have := exists_mem_set_iff (b := { d with phase := .following rest })
      (P := fun d => (Flips d ∧ d.content.netId = netId) ∧ next' ∉ pendingOf d)
      (q := next' = next ∧ d.content.netId = netId) hd ?_
    · rw [List.mem_append, h.performed, List.mem_singleton, Prod.mk.injEq, eq_comm (a := netId)]
      exact this.symm
    · show (True ∧ d.content.netId = netId) ∧ next' ∉ rest ↔ _
      rw [hpending, List.mem_cons, not_or]
      by_cases heq : next' = next
      · subst heq
        simp [hnext]
      · simp [heq, hflip]

theorem Deliveries.commit (h : Deliveries t) (hd : t.deliveries[i]? = some d)
    (hphase : d.phase = .received) (hnet : row.netId = d.content.netId) (hfresh : ¬ Flipped t row.netId)
    (now : DateTime) : Deliveries ((t.commit row d.content now).setDelivery i d (.following followUps)) := by
  have hmem : d ∈ t.deliveries := List.mem_of_getElem? hd
  have hno : ¬ Flips d := by rw [Flips, hphase]; exact id
  have hflip : Flips { d with phase := .following followUps } := trivial
  have hothers : ∀ x ∈ t.deliveries, Flips x → x.content.netId ≠ d.content.netId :=
    fun x hx hxf heq => hfresh ((h.flipped row.netId).mpr ⟨x, hx, hxf, heq.trans hnet.symm⟩)
  refine ⟨?_, ?_, ?_, ?_, ?_⟩
  · exact forall_mem_set h.contents (h.contents d hmem)
  · intro netId
    have := exists_mem_set_iff (b := { d with phase := .following followUps })
      (P := fun d => Flips d ∧ d.content.netId = netId) (q := row.netId = netId) hd ?_
    · refine Iff.trans ?_ this.symm
      rw [← h.flipped netId]
      show (∃ flip ∈ t.flips ++ [_], _) ↔ _
      constructor
      · rintro ⟨flip, hflip, rfl⟩
        rcases List.mem_append.mp hflip with hold | hnew
        · exact .inl ⟨flip, hold, rfl⟩
        · rw [List.mem_singleton.mp hnew]
          exact .inr rfl
      · rintro (⟨flip, hflip, heq⟩ | heq)
        · exact ⟨flip, List.mem_append_left _ hflip, heq⟩
        · exact ⟨_, List.mem_append_right _ (List.mem_singleton.mpr rfl), heq⟩
    · rw [hnet]
      exact ⟨fun h => .inr h.2, fun h => ⟨hflip, h.elim (fun h => absurd h.1 hno) id⟩⟩
  · refine h.unique.set hd ?_ ?_
    · exact fun x hx ⟨_, h₂, h₃⟩ => absurd h₃.symm (hothers x hx h₂)
    · exact fun x hx ⟨h₁, _, h₃⟩ => absurd h₃ (hothers x hx h₁)
  · exact forall_mem_set h.pending (List.suffix_refl _)
  · intro next netId
    have := exists_mem_set_congr (b := { d with phase := .following followUps })
      (P := fun d => (Flips d ∧ d.content.netId = netId) ∧ next ∉ pendingOf d) hd ?_
    · exact (h.performed next netId).trans this.symm
    · exact iff_of_false (fun h => h.2 (mem_followUps next)) fun h => hno h.1.1

variable {j : Nat} {act : LifecycleAction}

theorem Deliveries.deliver {msg : StreamMessage} (h : Deliveries t) (hmsg : t.messages[j]? = some msg) :
    Deliveries { t with
      messages := t.messages.set j { msg with delivered := msg.delivered + 1 }
      deliveries := t.deliveries ++ [⟨j, msg.content, msg.delivered + 1, .received, false⟩] } := by
  have hget : (t.messages.set j { msg with delivered := msg.delivered + 1 })[j]? =
      some { msg with delivered := msg.delivered + 1 } := by
    rw [List.getElem?_set_self (List.getElem?_eq_some_iff.mp hmsg).1]
  have hsame : SameContents t { t with messages := t.messages.set j { msg with delivered := msg.delivered + 1 } } := by
    intro k msg' hmsg'
    by_cases hjk : j = k
    · subst hjk
      obtain rfl := Option.some.inj (hmsg.symm.trans hmsg')
      exact ⟨_, hget, rfl⟩
    · exact ⟨msg', by rw [List.getElem?_set_ne hjk]; exact hmsg', rfl⟩
  have hexists : ∀ P : Lifecycle.Delivery → Prop, ¬ P ⟨j, msg.content, msg.delivered + 1, .received, false⟩ →
      ((∃ d ∈ t.deliveries ++ [⟨j, msg.content, msg.delivered + 1, .received, false⟩], P d) ↔
        ∃ d ∈ t.deliveries, P d) := by
    intro P hP
    simp [or_and_right, exists_or, hP]
  refine ⟨?_, ?_, ?_, ?_, ?_⟩
  · intro d hd
    rcases List.mem_append.mp hd with hold | hnew
    · exact contents_advance hsame (h.contents d hold)
    · rw [List.mem_singleton.mp hnew]
      exact ⟨_, hget, rfl⟩
  · intro netId
    exact (h.flipped netId).trans (hexists _ fun h => h.1).symm
  · exact h.unique.concat (fun x h => h.1) fun x h => h.2.1
  · intro d hd
    rcases List.mem_append.mp hd with hold | hnew
    · exact h.pending d hold
    · rw [List.mem_singleton.mp hnew]
      exact List.nil_suffix
  · intro next netId
    exact (h.performed next netId).trans (hexists _ fun h => h.1.1).symm

/-! ## One step -/

/-- The tables, and where each delivery stands. -/
structure Inv (s t : Listener) : Prop where
  tables : Tables s t
  deliveries : Deliveries t

theorem Start.inv (h : Start s) : Inv s s := by
  have hno : ∀ d, d ∉ s.deliveries := by
    intro d
    rw [h.deliveries]
    exact List.not_mem_nil
  have hnone : ∀ netId, ¬ Flipped s netId := by
    rintro netId ⟨flip, hflip, -⟩
    rw [h.flips] at hflip
    cases hflip
  refine ⟨⟨h.netIds, ?_, ?_, ?_, ?_, ?_, ?_⟩, ⟨?_, ?_, ?_, ?_, ?_⟩⟩
  · rw [h.flips]
    exact fun flip hflip => by cases hflip
  · rw [h.flips]
    exact List.nodup_nil
  · rw [h.flips]
    exact fun _ => rfl
  · rw [h.flips]
    exact fun _ => rfl
  · intro msg hmsg
    obtain ⟨row, hrow, hnet, hrunning⟩ := (h.rows msg hmsg).2
    exact ⟨row, hrow, hnet, .inl hrunning⟩
  · intro msg hmsg hacked
    rw [(h.rows msg hmsg).1] at hacked
    cases hacked
  · exact fun d hd => absurd hd (hno d)
  · exact fun netId => iff_of_false (hnone netId) fun ⟨d, hd, _⟩ => hno d hd
  · intro i j a b ha
    exact absurd (List.mem_of_getElem? ha) (hno a)
  · exact fun d hd => absurd hd (hno d)
  · intro next netId
    rw [h.performed]
    exact iff_of_false List.not_mem_nil fun ⟨d, hd, _⟩ => hno d hd

theorem Inv.ack (h : Inv s t) (hflipped : ∀ msg ∈ t.messages[j]?, Flipped t msg.content.netId) :
    Inv s (t.ack j) := by
  have hget : ∀ k : Nat, (t.ack j).messages[k]? =
      (t.messages[k]?).map fun msg => if j = k then { msg with acked := true } else msg := by
    intro k
    show (t.messages.modify j _)[k]? = _
    rw [List.getElem?_modify]
    rfl
  have hsame : SameContents t (t.ack j) := by
    intro k msg hmsg
    refine ⟨_, (hget k).trans (congrArg _ hmsg), ?_⟩
    split <;> rfl
  refine ⟨h.tables.congr rfl rfl rfl rfl ?_, ?_⟩
  · intro msg' hmsg'
    obtain ⟨k, hk⟩ := List.mem_iff_getElem?.mp hmsg'
    rw [hget] at hk
    obtain ⟨msg, hmsg, rfl⟩ := Option.map_eq_some_iff.mp hk
    refine ⟨msg, List.mem_of_getElem? hmsg, ?_⟩
    by_cases hjk : j = k
    · subst hjk
      rw [if_pos rfl]
      exact ⟨rfl, fun _ => .inr (hflipped msg hmsg)⟩
    · rw [if_neg hjk]
      exact ⟨rfl, .inl⟩
  · obtain ⟨hcontents, hflipped, hunique, hpending, hperformed⟩ := h.deliveries
    exact ⟨fun d hd => contents_advance hsame (hcontents d hd), hflipped, hunique, hpending, hperformed⟩

theorem Inv.setDelivery (h : Inv s t) (hd : t.deliveries[i]? = some d)
    (hflip : Flips { d with phase } ↔ Flips d) (hpending : pendingOf { d with phase } = pendingOf d) :
    Inv s (t.setDelivery i d phase) where
  tables := h.tables.congr rfl rfl rfl rfl fun msg hmsg => ⟨msg, hmsg, rfl, .inl⟩
  deliveries := h.deliveries.replace hd rfl rfl rfl (.of_eq rfl) rfl rfl hflip hpending

theorem flipped_of_flips (h : Inv s t) (hd : t.deliveries[i]? = some d) (hflip : Flips d) :
    Flipped t d.content.netId :=
  (h.deliveries.flipped _).mpr ⟨d, List.mem_of_getElem? hd, hflip, rfl⟩

theorem content_of_delivery (h : Inv s t) (hd : t.deliveries[i]? = some d) :
    ∀ msg ∈ t.messages[d.message]?, msg.content = d.content := by
  intro msg hmsg
  obtain ⟨msg', hmsg', hcontent⟩ := h.deliveries.contents d (List.mem_of_getElem? hd)
  rw [Option.some.inj (hmsg.symm.trans hmsg')]
  exact hcontent

theorem flipped_of_find_none (h : Inv s t) (hd : t.deliveries[i]? = some d)
    (hfind : t.instances.find? (·.matches d.content.netId) = none) : Flipped t d.content.netId := by
  obtain ⟨msg, hmsg, hcontent⟩ := h.deliveries.contents d (List.mem_of_getElem? hd)
  obtain ⟨row, hrow, hnet, hcase⟩ := h.tables.messages msg (List.mem_of_getElem? hmsg)
  rw [hcontent] at hnet
  rcases hcase with hrunning | hflipped
  · exact absurd (matches_iff.mpr ⟨hnet, hrunning⟩) (List.find?_eq_none.mp hfind row hrow)
  · exact hnet ▸ hflipped

theorem inv_step (h : Inv s t) (hs : step t act = some t') : Inv s t' := by
  cases act with
  | deliver j =>
    obtain ⟨msg, hmsg, hs⟩ := Option.bind_eq_some_iff.mp hs
    split at hs
    · cases hs
    · cases hs
      refine ⟨h.tables.congr rfl rfl rfl rfl ?_, h.deliveries.deliver hmsg⟩
      intro msg' hmsg'
      rcases List.mem_or_eq_of_mem_set hmsg' with hold | rfl
      · exact ⟨msg', hold, rfl, .inl⟩
      · exact ⟨msg, List.mem_of_getElem? hmsg, rfl, .inl⟩
  | transact i now succeeds =>
    obtain ⟨d, hd, hs⟩ := Option.bind_eq_some_iff.mp hs
    split at hs
    case h_2 => cases hs
    case h_1 _ hphase =>
      have hno : ¬ Flips d := by rw [Flips, hphase]; exact id
      have hreturned : Inv s (t.setDelivery i d .returned) :=
        h.setDelivery hd (iff_of_false id hno) (by rw [pendingOf, pendingOf, hphase])
      cases succeeds with
      | false =>
        cases hs
        exact hreturned
      | true =>
        rw [if_pos rfl] at hs
        split at hs
        case h_1 row hfind =>
          cases hs
          have hrow := List.mem_of_find?_eq_some hfind
          have hmatches := List.find?_some hfind
          obtain ⟨hnet, hrunning⟩ := matches_iff.mp hmatches
          have hfresh : ¬ Flipped t row.netId := by
            rintro ⟨flip, hflip, heq⟩
            obtain ⟨hmem, hstatus⟩ := h.tables.rows flip hflip
            rw [List.inj_on_of_nodup_map h.tables.netIds hmem hrow heq] at hstatus
            exact hstatus hrunning
          refine ⟨?_, h.deliveries.commit hd hphase hnet hfresh now⟩
          exact (h.tables.commit hrow hmatches now).congr rfl rfl rfl rfl fun msg hmsg => ⟨msg, hmsg, rfl, .inl⟩
        case h_2 hfind =>
          have hflipped := flipped_of_find_none h hd hfind
          cases hs
          split
          · refine hreturned.ack fun msg hmsg => ?_
            rw [content_of_delivery h hd msg hmsg]
            exact hflipped
          · exact hreturned
  | follow i =>
    obtain ⟨d, hd, hs⟩ := Option.bind_eq_some_iff.mp hs
    split at hs
    case h_2 => cases hs
    case h_1 next rest _ hphase =>
      cases hs
      exact ⟨h.tables.congr rfl rfl rfl rfl fun msg hmsg => ⟨msg, hmsg, rfl, .inl⟩,
        h.deliveries.follow hd hphase⟩
  | acknowledge i arrives =>
    obtain ⟨d, hd, hs⟩ := Option.bind_eq_some_iff.mp hs
    split at hs
    case h_2 => cases hs
    case h_1 _ hphase =>
      have hflip : Flips d := by rw [Flips, hphase]; trivial
      have hflipped := flipped_of_flips h hd hflip
      have hacked : Inv s (t.setDelivery i d .acknowledged) :=
        h.setDelivery hd (iff_of_true trivial hflip) (by rw [pendingOf, pendingOf, hphase])
      cases hs
      split
      · refine hacked.ack fun msg hmsg => ?_
        rw [content_of_delivery h hd msg hmsg]
        exact hflipped
      · exact hacked
  | crash i =>
    obtain ⟨d, hd, hs⟩ := Option.bind_eq_some_iff.mp hs
    split at hs
    · cases hs
    · cases hs
      exact ⟨h.tables.congr rfl rfl rfl rfl fun msg hmsg => ⟨msg, hmsg, rfl, .inl⟩,
        h.deliveries.replace hd rfl rfl rfl (.of_eq rfl) rfl rfl Iff.rfl rfl⟩

/-! ## Crashes -/

/-- The delivery has crashed and left steps undone. -/
def Stranded (d : Lifecycle.Delivery) : Prop := d.crashed = true ∧ InWindow d.phase

/-- Some delivery has crashed and left steps undone. -/
def AnyStranded (t : Listener) : Prop := ∃ d ∈ t.deliveries, Stranded d

theorem anyStranded_set (hd : t.deliveries[i]? = some d) (hcrashed : d.crashed = false)
    (hset : t'.deliveries = t.deliveries.set i { d with phase }) : AnyStranded t' ↔ AnyStranded t := by
  unfold AnyStranded
  rw [hset]
  refine exists_mem_set_congr (P := Stranded) hd (iff_of_false ?_ ?_)
  · exact fun h => by simp [Stranded, hcrashed] at h
  · exact fun h => by simp [Stranded, hcrashed] at h

theorem stranded_step (hs : step t act = some t') :
    ¬ AnyStranded t' ↔ ¬ AnyStranded t ∧ CrashesOutside t act := by
  cases act with
  | deliver j =>
    obtain ⟨msg, hmsg, hs⟩ := Option.bind_eq_some_iff.mp hs
    split at hs
    · cases hs
    · cases hs
      refine Iff.trans (not_congr ?_) (and_iff_left trivial).symm
      simp [AnyStranded, Stranded, or_and_right, exists_or]
  | transact i now succeeds =>
    obtain ⟨d, hd, hs⟩ := Option.bind_eq_some_iff.mp hs
    split at hs
    case h_2 => cases hs
    case h_1 hcrashed _ =>
      refine Iff.trans (not_congr ?_) (and_iff_left trivial).symm
      cases succeeds with
      | false =>
        cases hs
        exact anyStranded_set hd hcrashed rfl
      | true =>
        rw [if_pos rfl] at hs
        split at hs
        · cases hs
          exact anyStranded_set hd hcrashed rfl
        · cases hs
          split
          · exact anyStranded_set hd hcrashed rfl
          · exact anyStranded_set hd hcrashed rfl
  | follow i =>
    obtain ⟨d, hd, hs⟩ := Option.bind_eq_some_iff.mp hs
    split at hs
    case h_2 => cases hs
    case h_1 hcrashed _ =>
      cases hs
      exact Iff.trans (not_congr (anyStranded_set hd hcrashed rfl)) (and_iff_left trivial).symm
  | acknowledge i arrives =>
    obtain ⟨d, hd, hs⟩ := Option.bind_eq_some_iff.mp hs
    split at hs
    case h_2 => cases hs
    case h_1 hcrashed _ =>
      cases hs
      refine Iff.trans (not_congr ?_) (and_iff_left trivial).symm
      split
      · exact anyStranded_set hd hcrashed rfl
      · exact anyStranded_set hd hcrashed rfl
  | crash i =>
    obtain ⟨d, hd, hs⟩ := Option.bind_eq_some_iff.mp hs
    split at hs
    · cases hs
    · rename_i hcrashed
      cases hs
      have hcond : CrashesOutside t (.crash i) ↔ ¬ InWindow d.phase := by
        simp [CrashesOutside, hd]
      have hstranded : Stranded { d with crashed := true } ↔ Stranded d ∨ InWindow d.phase := by
        simp [Stranded, hcrashed]
      rw [hcond, ← not_or]
      exact not_congr (exists_mem_set_iff (P := Stranded) hd hstranded)

/-! ## The end of a schedule -/

theorem inWindow_iff : InWindow phase ↔ ∃ next rest, phase = .following (next :: rest) := by
  unfold InWindow
  split
  · simp
  · rename_i h
    exact iff_of_false id fun ⟨next, rest, heq⟩ => h next rest heq

/-- Where a schedule is done, a delivery that changed a row has performed everything, or is stranded. -/
theorem pendingOf_of_done (hdone : Done t) (hd : d ∈ t.deliveries) (hflip : Flips d) :
    Stranded d ∨ pendingOf d = [] := by
  rcases hdone.2 d hd with hcrashed | hphase | hphase
  · unfold Flips at hflip
    split at hflip
    · rename_i pending hphase
      cases pending with
      | nil => exact .inr (by rw [pendingOf, hphase])
      | cons next rest => exact .inl ⟨hcrashed, inWindow_iff.mpr ⟨next, rest, hphase⟩⟩
    · rename_i hphase
      exact .inr (by rw [pendingOf, hphase])
    · cases hflip
  · exact .inr (by rw [pendingOf, hphase])
  · rw [Flips, hphase] at hflip
    cases hflip

theorem Inv.flipped_once (h : Inv s t) (hdone : Done t) :
    ∀ msg ∈ t.messages, (t.flips.filter (·.row.netId = msg.content.netId)).length = 1 := by
  intro msg hmsg
  obtain ⟨flip, hflip, hnet⟩ := h.tables.acked msg hmsg (hdone.1 msg hmsg)
  have hcount : (t.flips.map (·.row.netId)).count msg.content.netId = 1 :=
    List.count_eq_one_of_mem h.tables.once (List.mem_map.mpr ⟨flip, hflip, hnet⟩)
  rw [List.count_eq_countP, List.countP_map, List.countP_eq_length_filter] at hcount
  rw [← hcount]
  congr 2

theorem Inv.followed_iff (h : Inv s t) (hdone : Done t) :
    (∀ msg ∈ t.messages, ∀ next ∈ followUps, (next, msg.content.netId) ∈ t.performed) ↔ ¬ AnyStranded t := by
  constructor
  · rintro hall ⟨d, hd, -, hwindow⟩
    obtain ⟨next, rest, hphase⟩ := inWindow_iff.mp hwindow
    obtain ⟨msg, hmsg, hcontent⟩ := h.deliveries.contents d hd
    have hperformed := hall msg (List.mem_of_getElem? hmsg) next (mem_followUps next)
    rw [hcontent, h.deliveries.performed] at hperformed
    obtain ⟨d', hd', ⟨hflip, hnet⟩, hnext⟩ := hperformed
    -- only one delivery has changed this row
    have hflips : Flips d := by rw [Flips, hphase]; trivial
    obtain ⟨i, hi⟩ := List.mem_iff_getElem?.mp hd
    obtain ⟨j, hj⟩ := List.mem_iff_getElem?.mp hd'
    obtain rfl : j = i := h.deliveries.unique j i d' d hj hi ⟨hflip, hflips, hnet⟩
    obtain rfl := Option.some.inj (hi.symm.trans hj)
    rw [pendingOf, hphase] at hnext
    exact hnext List.mem_cons_self
  · intro hnone msg hmsg next _
    have hflipped := h.tables.acked msg hmsg (hdone.1 msg hmsg)
    obtain ⟨d, hd, hflip, hnet⟩ := (h.deliveries.flipped _).mp hflipped
    refine (h.deliveries.performed _ _).mpr ⟨d, hd, ⟨hflip, hnet⟩, ?_⟩
    rcases pendingOf_of_done hdone hd hflip with hstranded | hpending
    · exact absurd ⟨d, hd, hstranded⟩ hnone
    · rw [hpending]
      exact List.not_mem_nil

/-- **When every message is acknowledged and nothing is left to do, each status has changed once and each
counter has counted its runs once; the steps that follow were all performed exactly if no delivery crashed
between its commit and the last of them.** -/
theorem effects_once_iff {run : List LifecycleAction} (hstart : Start s) (hend : exec step s run = some t)
    (hdone : Done t) : EffectsOnce s t ↔ Along step CrashesOutside s run := by
  have hinv : Inv s t := exec_invariant (fun _ _ _ h hs => inv_step h hs) hstart.inv hend
  have hnone : ¬ AnyStranded s := by
    rw [AnyStranded, hstart.deliveries]
    simp
  have hlast := last_iff_along (P := fun t => ¬ AnyStranded t) (fun _ _ _ hs => stranded_step hs) hend
  rw [and_iff_right hnone] at hlast
  rw [← hlast, ← hinv.followed_iff hdone]
  constructor
  · exact fun h => h.followed
  · exact fun h => ⟨hinv.flipped_once hdone, hinv.tables.rows, hinv.tables.runs, hinv.tables.users, h⟩

/-! ## An instance that completes -/

instance (t : Listener) : Decidable (Done t) :=
  inferInstanceAs (Decidable ((∀ msg ∈ t.messages, _) ∧ ∀ d ∈ t.deliveries, _))

instance (phase : DeliveryPhase) : Decidable (InWindow phase) := by
  unfold InWindow
  split <;> infer_instance

instance (s : Listener) (act : LifecycleAction) : Decidable (CrashesOutside s act) := by
  cases act <;> unfold CrashesOutside <;> infer_instance

/-- An instance that runs, and the message that its net has completed. -/
def completing : Listener where
  instances := [⟨"mekhan-1", 7, 2, "live", 3, ⟨0⟩, some ⟨1000000⟩, none, .running, none⟩]
  runRollup := .empty
  userRuns := .empty
  messages := [⟨⟨"mekhan-1", .completed, none⟩, 0, false⟩]
  deliveries := []
  flips := []
  performed := []

theorem start_completing : Start completing where
  deliveries := rfl
  flips := rfl
  performed := rfl
  netIds := by decide
  rows := by decide

/-- The first delivery crashes before it begins; the next goes through. -/
def crashesBefore : List LifecycleAction :=
  [.deliver 0, .crash 0, .deliver 0, .transact 1 ⟨5000000⟩ true, .follow 1, .follow 1, .follow 1, .follow 1,
    .acknowledge 1 true]

/-- The first delivery crashes when it has committed; the others find no running instance, and the tenth
drops the message. -/
def crashesAfter : List LifecycleAction :=
  [.deliver 0, .transact 0 ⟨5000000⟩ true, .crash 0] ++
    (List.range 9).flatMap fun k => [.deliver 0, .transact (k + 1) ⟨6000000⟩ true]

/-- **No status changes twice, and each counter counts each change once, at every moment of a run.** -/
theorem tables_throughout (hstart : Start s) (run : List LifecycleAction) : Throughout step (Tables s) s run :=
  throughout_of_invariant (fun _ _ _ => inv_step) (fun _ h => h.tables) run hstart.inv

theorem tables_throughout_crashesAfter : Throughout step (Tables completing) completing crashesAfter :=
  tables_throughout start_completing crashesAfter

theorem effects_once_iff_crashesBefore : ∃ t, exec step completing crashesBefore = some t ∧
    EffectsOnce completing t := by
  have hrun : Along step CrashesOutside completing crashesBefore := by decide
  exact ⟨_, rfl, (effects_once_iff start_completing rfl (by decide)).mpr hrun⟩

/-- The waiter is not resolved and the policy is not told. -/
theorem effects_lost_crashesAfter : ∃ t, exec step completing crashesAfter = some t ∧ Start completing ∧ Done t ∧
    ¬ EffectsOnce completing t := by
  refine ⟨_, rfl, start_completing, by decide, fun h => ?_⟩
  have := h.followed ⟨⟨"mekhan-1", .completed, none⟩, 10, true⟩ (by decide) .resolveWaiter (by decide)
  revert this
  decide

end TerminalEffects

end Mekhan
