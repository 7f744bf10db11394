import Mekhan.Properties.PresenceCapacity

/-!
# Expiry of a runner

When a runner misses its time to live, the sweep injects as many signals as the registry entry has
slots. A signal names the runner only and reaps whichever of its units it meets. The entry holds the
concurrency the runner last advertised, the units are in the net. A hold that was registered over a
plain bridge (`human_task.rs`) has no fail channel: its reap fails, and the pool's evaluation with it.
-/

namespace Mekhan

open Infra Rhai

/-- A presence pool, with the ids of the units minted for one runner since its last sweep. -/
structure WatchedPool where
  pool : RunnerPool
  fresh : Multiset Json

namespace WatchedPool

open RunnerPool

def init (cap : Nat) : WatchedPool := ⟨.init cap, 0⟩

/-- Counting a heartbeat mints, and a sweep starts over. -/
def freshAfter (r : String) (w : WatchedPool) : RunnerAction → Multiset Json
  | .count readable capabilities epoch =>
    match w.pool.handler with
    | .counting runnerId concurrency edge =>
      w.fresh + unitIds r (acquireTokens
        (w.pool.missingSlots runnerId concurrency readable (edge.or capabilities) epoch))
    | _ => w.fresh
  | .sweep runnerId _ => if runnerId = r then 0 else w.fresh
  | _ => w.fresh

def step (acceptance : Acceptance) (r : String) (w : WatchedPool) (a : RunnerAction) :
    Option WatchedPool :=
  (w.pool.step acceptance a).map fun pool => ⟨pool, w.freshAfter r a⟩

/-! ## The condition -/

/-- The signals for the runner that are still to reap something. -/
def pendingSignals (r : String) (s : RunnerPool) : Nat := signals r s.marking + signals r s.away

/-- The signal is for a hold, or the registration of one, whose claimant cannot be told. -/
def clash (exp held : PoolPlace × RhaiMap) : Bool :=
  exp.1 = .presenceExpired && held.1 ∈ [PoolPlace.registerInbox, .inUse] &&
    PoolNet.correlate "runner_id" [exp.2, held.2] && prop held.2 PoolNet.failChannel == .null

/-- The sweep sends as many signals as the runner has units, all of them in the net and none
already under a signal. -/
def SweepsAll (r : String) (s : RunnerPool) (entry : PresenceEntry) : Prop :=
  (expireEntry r entry 0).length = (unitIds r s.marking).card ∧ unitIds r s.away = 0 ∧
    pendingSignals r s = 0

instance (r : String) (s : RunnerPool) (entry : PresenceEntry) :
    Decidable (SweepsAll r s entry) :=
  inferInstanceAs (Decidable (_ ∧ _ ∧ _))

/-- A sweep of the runner finds all its units; a heartbeat mints none under a signal; a signal that
is published reaches the stream. No hold of a swept runner is without a fail channel, and none is
registered while a signal is pending: that goes for every runner, for a reap that fails stops the
whole pool. -/
def reapsExactly (r : String) (s : RunnerPool) : RunnerAction → Bool
  | .sweep runnerId _ =>
    match s.entries.lookup runnerId with
    | some entry => (runnerId ≠ r || SweepsAll r s entry) &&
        s.marking.countP (clash (PoolMessage.expire (expireSignal runnerId 0)).token ·) = 0
    | none => true
  | .count readable capabilities _ =>
    match s.handler with
    | .counting runnerId concurrency edge =>
      !readable || (edge.or capabilities).isNone || runnerId ≠ r ||
        concurrency ≤ countUnitsInMarking s.marking r || pendingSignals r s = 0
    | _ => true
  | .expire stored =>
    match s.expiring with
    | sig :: _ => stored || prop sig.payload "runner_id" ≠ .str r
    | [] => true
  | .pool (.register _ reg) => (s.marking + s.away).countP (clash · (.registerInbox, reg)) = 0
  | _ => true

/-! ## The invariant -/

/-- Either no signal is pending and every unit is fresh, or there is a signal for every unit and no
unit is on its way. -/
def Accounted (r : String) (w : WatchedPool) : Prop :=
  (pendingSignals r w.pool = 0 ∧
    unitIds r w.pool.marking + unitIds r w.pool.away ≤ w.fresh) ∨
  (pendingSignals r w.pool = (unitIds r w.pool.marking).card ∧ unitIds r w.pool.away = 0)

/-- No reap will want for a fail channel. -/
def Unhindered (s : RunnerPool) : Prop :=
  ∀ exp ∈ s.marking + s.away, ∀ held ∈ s.marking, ¬ clash exp held

theorem accounted_init (r : String) (cap : Nat) : (init cap).Accounted r :=
  Or.inl ⟨rfl, le_rfl⟩

theorem unhindered_init (cap : Nat) : Unhindered (init cap).pool := fun _ _ held hheld =>
  absurd hheld (Multiset.notMem_zero held)

variable {acceptance : Acceptance} {r : String} {w w' : WatchedPool} {a : RunnerAction}

theorem signals_add (m m' : PoolMarking) : signals r (m + m') = signals r m + signals r m' :=
  total_add _ m m'

theorem unitIds_cons (x : PoolPlace × RhaiMap) (m : PoolMarking) :
    unitIds r (x ::ₘ m) = idIn unitPlaces r x + unitIds r m :=
  total_cons _ x m

theorem signals_cons (x : PoolPlace × RhaiMap) (m : PoolMarking) :
    signals r (x ::ₘ m) = signalAt r x + signals r m :=
  total_cons _ x m

theorem signals_acquires (r : String) (found : List PoolInjection) : signals r (acquireTokens found) = 0 := by
  by_contra hne
  obtain ⟨x, hx, hsignal⟩ := exists_mem_of_total_ne_zero hne
  obtain ⟨inj, -, rfl⟩ := List.mem_map.mp (Multiset.mem_coe.mp hx)
  simp [signalAt, PoolMessage.token, PoolMessage.place] at hsignal

theorem signals_expireEntry (r runnerId : String) (entry : PresenceEntry) (nowMs : Int) :
    signals r ↑((expireEntry runnerId entry nowMs).map fun sig => (PoolMessage.expire sig).token) =
      if runnerId = r then (expireEntry r entry 0).length else 0 := by
  have hsignal : signalAt r (PoolMessage.expire (expireSignal runnerId nowMs)).token =
      if runnerId = r then 1 else 0 := by
    have hrunner : prop (expireSignal runnerId nowMs).payload "runner_id" = .str runnerId := rfl
    simp [signalAt, PoolMessage.token, PoolMessage.place, PoolMessage.color, hrunner]
  rw [signals, total_coe, expireEntry, expireEntry]
  cases entry.pooled with
  | false => simp
  | true =>
    simp only [if_true, List.map_replicate, List.sum_replicate, List.length_replicate, hsignal]
    split <;> simp

/-! ## One step -/

theorem Accounted.move (hw : w.Accounted r) {moved lost : Multiset Json}
    (hfresh : w'.fresh = w.fresh) (hsignals : pendingSignals r w'.pool = pendingSignals r w.pool)
    (hmarking : unitIds r w'.pool.marking = moved + unitIds r w.pool.marking)
    (haway : unitIds r w.pool.away = moved + lost + unitIds r w'.pool.away) : w'.Accounted r := by
  rcases hw with ⟨hzero, hle⟩ | ⟨hcount, hnone⟩
  · refine Or.inl ⟨hsignals.trans hzero, ?_⟩
    rw [hfresh, hmarking]
    refine le_trans ?_ hle
    rw [haway, add_comm moved (unitIds r w.pool.marking), add_assoc, add_assoc]
    gcongr
    exact Multiset.le_add_left _ _
  · have hcard : (moved + lost + unitIds r w'.pool.away).card = 0 := by
      rw [← haway, hnone, Multiset.card_zero]
    rw [Multiset.card_add, Multiset.card_add] at hcard
    have hmoved : moved = 0 := Multiset.card_eq_zero.mp (by omega)
    refine Or.inr ⟨?_, Multiset.card_eq_zero.mp (by omega)⟩
    rw [hsignals, hcount, hmarking, hmoved, zero_add]

theorem accounted_same (hw : w.Accounted r) (hfresh : w'.fresh = w.fresh)
    (hmarking : w'.pool.marking = w.pool.marking) (haway : w'.pool.away = w.pool.away) : w'.Accounted r := by
  refine @Accounted.move r w w' hw 0 0 hfresh ?_ ?_ ?_
  · rw [pendingSignals, pendingSignals, hmarking, haway]
  · rw [hmarking, zero_add]
  · rw [haway, zero_add, zero_add]

theorem accounted_lost (hw : w.Accounted r) (hfresh : w'.fresh = w.fresh)
    (hmarking : w'.pool.marking = w.pool.marking) {x : PoolPlace × RhaiMap}
    (haway : w.pool.away = x ::ₘ w'.pool.away) (hsignal : signalAt r x = 0) : w'.Accounted r := by
  refine @Accounted.move r w w' hw 0 (idIn unitPlaces r x) hfresh ?_ ?_ ?_
  · rw [pendingSignals, pendingSignals, hmarking, haway, signals_cons, hsignal, zero_add]
  · rw [hmarking, zero_add]
  · rw [haway, unitIds_cons, zero_add]

theorem accounted_arrived (hw : w.Accounted r) (hfresh : w'.fresh = w.fresh)
    {x : PoolPlace × RhaiMap} (hmarking : w'.pool.marking = x ::ₘ w.pool.marking)
    (haway : w.pool.away = x ::ₘ w'.pool.away) : w'.Accounted r := by
  refine @Accounted.move r w w' hw (idIn unitPlaces r x) 0 hfresh ?_ ?_ ?_
  · rw [pendingSignals, pendingSignals, hmarking, haway, signals_cons, signals_cons]
    omega
  · rw [hmarking, unitIds_cons]
  · rw [haway, unitIds_cons, add_zero]

theorem accounted_minted (hw : w.Accounted r) {found : List PoolInjection}
    (hfresh : w'.fresh = w.fresh + unitIds r (acquireTokens found))
    (hmarking : w'.pool.marking = w.pool.marking) (haway : w'.pool.away = w.pool.away + acquireTokens found)
    (hmint : unitIds r (acquireTokens found) = 0 ∨ pendingSignals r w.pool = 0) : w'.Accounted r := by
  have hsignals : pendingSignals r w'.pool = pendingSignals r w.pool := by
    rw [pendingSignals, pendingSignals, hmarking, haway, signals_add, signals_acquires, add_zero]
  rcases hw with ⟨hzero, hle⟩ | ⟨hcount, hnone⟩
  · refine Or.inl ⟨hsignals.trans hzero, ?_⟩
    rw [hfresh, hmarking, haway, unitIds_add, ← add_assoc]
    gcongr
  · rcases hmint with hmint | hzero
    · refine Or.inr ⟨by rw [hsignals, hcount, hmarking], ?_⟩
      rw [haway, unitIds_add, hnone, hmint, add_zero]
    · -- With the last signal the last of the old units is gone.
      have hempty : unitIds r w.pool.marking = 0 := Multiset.card_eq_zero.mp (hcount ▸ hzero)
      refine Or.inl ⟨hsignals.trans hzero, ?_⟩
      rw [hfresh, hmarking, haway, unitIds_add, hempty, hnone, zero_add, zero_add]
      exact Multiset.le_add_left _ _

theorem accounted_swept {entry : PresenceEntry} (hsweep : SweepsAll r w.pool entry) {nowMs : Int}
    (hmarking : w'.pool.marking = w.pool.marking) (haway : w'.pool.away = w.pool.away +
      ↑((expireEntry r entry nowMs).map fun sig => (PoolMessage.expire sig).token)) :
    w'.Accounted r := by
  obtain ⟨hlength, hnone, hzero⟩ := hsweep
  refine Or.inr ⟨?_, ?_⟩
  · rw [pendingSignals, hmarking, haway, signals_add, signals_expireEntry, if_pos rfl, hlength,
      ← add_assoc, ← pendingSignals, hzero, zero_add]
  · rw [haway, unitIds_add, unitIds_expires, hnone, add_zero]

theorem accounted_pool (hw : w.Accounted r) (hfresh : w'.fresh = w.fresh) {a : PoolNet.Action}
    (hothers : ofOthers a = true)
    (hmarking : PoolNet.step (.presence acceptance) w.pool.marking a = some w'.pool.marking)
    (haway : w'.pool.away = w.pool.away) : w'.Accounted r := by
  obtain ⟨reaped, hids, hsignals⟩ := units_poolStep (r := r) hothers hmarking
  unfold Accounted pendingSignals at *
  rw [haway, hfresh]
  rw [← hids, Multiset.card_add] at hw
  rcases hw with ⟨hzero, hle⟩ | ⟨hcount, hnone⟩
  · refine Or.inl ⟨by omega, le_trans ?_ hle⟩
    gcongr
    exact Multiset.le_add_right _ _
  · exact Or.inr ⟨by omega, hnone⟩

variable {s : RunnerPool}

theorem mints_or_quiet {runnerId : String} {concurrency : Nat} {edge : Option Json}
    (hcounting : s.handler = .counting runnerId concurrency edge)
    {readable : Bool} {capabilities : Option Json} {epoch : Int}
    (hc : reapsExactly r s (.count readable capabilities epoch) = true) : unitIds r (acquireTokens
        (s.missingSlots runnerId concurrency readable (edge.or capabilities) epoch)) = 0 ∨
      pendingSignals r s = 0 := by
  rw [or_iff_not_imp_right]
  intro hpending
  refine Multiset.card_eq_zero.mp ?_
  cases hcaps : edge.or capabilities with
  | none => rfl
  | some caps =>
    simp only [missingSlots, card_mintSlots, slotsToReconcile_eq]
    by_cases hr : runnerId = r
    · subst hr
      cases readable with
      | false => simp
      | true =>
        have hfull : concurrency ≤ countUnitsInMarking s.marking runnerId := by
          simpa [reapsExactly, hcounting, hcaps, hpending] using hc
        simp only [if_true]
        omega
    · rw [if_neg hr]

theorem accounted_step (hw : w.Accounted r) (hc : reapsExactly r w.pool a = true)
    (h : step acceptance r w a = some w') : w'.Accounted r := by
  obtain ⟨pool, hpool, rfl⟩ := Option.map_eq_some_iff.mp h
  cases stepped hpool with
  | heartbeat hmarking haway => exact accounted_same hw rfl hmarking haway
  | commit hmarking haway => exact accounted_same hw rfl hmarking haway
  | count hcounting hfound hmarking haway hhandler =>
    refine accounted_minted hw ?_ hmarking haway (hfound ▸ mints_or_quiet hcounting hc)
    rw [hfound]
    simp only [freshAfter, hcounting]
  | acquire hmarking haway hhandler =>
    rcases haway with haway | haway
    · exact accounted_same hw rfl hmarking haway
    · exact accounted_lost hw rfl hmarking haway (by
        simp [signalAt, PoolMessage.token, PoolMessage.place])
  | sweep hentry hmarking haway hhandler =>
    rename_i runnerId nowMs entry
    by_cases hr : runnerId = r
    · subst hr
      have hsweep : SweepsAll runnerId w.pool entry := by
        have hsweep := hc
        simp only [reapsExactly, hentry, Bool.and_eq_true] at hsweep
        simpa using hsweep.1
      exact accounted_swept hsweep hmarking haway
    · -- The signals are for another runner.
      refine @Accounted.move r w _ hw 0 0 (if_neg hr) ?_ ?_ ?_
      · simp only [pendingSignals, hmarking, haway]
        rw [signals_add, signals_expireEntry, if_neg hr, add_zero]
      · simp only [hmarking, zero_add]
      · simp only [haway, unitIds_add, unitIds_expires, add_zero, zero_add]
  | expire hexpiring hmarking haway hhandler =>
    rename_i stored sig rest
    rcases haway with haway | ⟨rfl, haway⟩
    · exact accounted_same hw rfl hmarking haway
    · have hother : prop sig.payload "runner_id" ≠ .str r := by
        simpa [reapsExactly, hexpiring] using hc
      exact accounted_lost hw rfl hmarking haway (by
        simp [signalAt, PoolMessage.token, PoolMessage.color, hother])
  | deliver hmarking haway hhandler =>
    rename_i message
    rcases hmarking with hmarking | ⟨hmarking, hdedup⟩
    · exact accounted_arrived hw rfl hmarking haway
    · -- The filter drops by dedup id, and a signal has none.
      refine accounted_lost hw rfl hmarking haway ?_
      cases message with
      | expire sig => exact absurd rfl hdedup
      | _ => simp [signalAt, PoolMessage.token, PoolMessage.place]
  | pool hothers hmarking haway hhandler => exact accounted_pool hw rfl hothers hmarking haway

/-! ## Failing reaps -/

variable {s s' : RunnerPool}

theorem not_clash_of_place {exp held : PoolPlace × RhaiMap}
    (h : exp.1 ≠ .presenceExpired ∨ held.1 ∉ [PoolPlace.registerInbox, .inUse]) : ¬ clash exp held := by
  intro hclash
  simp only [clash, Bool.and_eq_true, decide_eq_true_eq] at hclash
  rcases h with h | h
  · exact h hclash.1.1.1
  · exact h hclash.1.1.2

theorem Unhindered.mono (hs : Unhindered s) (haway : s'.away ≤ s.away)
    (hmarking : s'.marking = s.marking) : Unhindered s' := by
  intro exp hexp held hheld
  rw [hmarking] at hexp hheld
  exact hs exp (Multiset.mem_of_le (by gcongr) hexp) held hheld

theorem Unhindered.add (hs : Unhindered s) {added : PoolMarking} (haway : s'.away = s.away + added)
    (hmarking : s'.marking = s.marking)
    (hadded : ∀ exp ∈ added, ∀ held ∈ s.marking, ¬ clash exp held) : Unhindered s' := by
  intro exp hexp held hheld
  rw [hmarking] at hexp hheld
  rw [haway, ← add_assoc] at hexp
  rcases Multiset.mem_add.mp hexp with hexp | hexp
  · exact hs exp hexp held hheld
  · exact hadded exp hexp held hheld

/-- A firing makes no signal, and a hold only of its registration. -/
theorem Fires.not_clash {consumed produced : List (PoolPlace × RhaiMap)}
    (h : PoolNet.Fires (.presence acceptance) consumed produced) :
    (∀ exp ∈ produced, exp.1 ≠ .presenceExpired) ∧
      ∀ exp, ∀ held ∈ produced, clash exp held → ∃ reg ∈ consumed, clash exp reg := by
  cases h with
  | register =>
    rename_i reg
    refine ⟨by simp, fun exp held hheld hclash => ⟨(.registerInbox, reg), by simp, ?_⟩⟩
    obtain rfl := List.mem_singleton.mp hheld
    simpa [clash, PoolNet.correlate] using hclash
  | _ =>
    refine ⟨by simp, fun exp held hheld hclash => absurd hclash (not_clash_of_place (Or.inr ?_))⟩
    simp only [List.mem_cons, List.not_mem_nil, or_false] at hheld
    rcases hheld with rfl | rfl <;> simp

theorem clash_poolStep {m m' : PoolMarking} {a : PoolNet.Action} (hothers : ofOthers a = true)
    (h : PoolNet.step (.presence acceptance) m a = some m') :
    (∀ exp ∈ m', exp.1 = .presenceExpired → exp ∈ m) ∧
      ∀ exp, ∀ held ∈ m', clash exp held → (∃ held' ∈ m, clash exp held') ∨
        ∃ grant reg, a = .register grant reg ∧ clash exp (.registerInbox, reg) := by
  cases PoolNet.stepped h with
  | fire hfires _ hm =>
    obtain ⟨hsignals, hholds⟩ := Fires.not_clash hfires
    subst hm
    refine ⟨fun exp hexp hplace => ?_, fun exp held hheld hclash => Or.inl ?_⟩
    · rcases Multiset.mem_add.mp hexp with hexp | hexp
      · exact Multiset.mem_add.mpr (Or.inl hexp)
      · exact absurd hplace (hsignals exp hexp)
    · rcases Multiset.mem_add.mp hheld with hheld | hheld
      · exact ⟨held, Multiset.mem_add.mpr (Or.inl hheld), hclash⟩
      · obtain ⟨reg, hreg, hclash⟩ := hholds exp held hheld hclash
        exact ⟨reg, Multiset.mem_add.mpr (Or.inr hreg), hclash⟩
  | arrive hplace =>
    rename_i place token
    have hothers' : place ≠ .presenceExpired ∧ place ∉ [PoolPlace.registerInbox, .inUse] := by
      cases acceptance <;> cases place <;> simp [ofOthers, PoolNet.inboxes] at hothers hplace ⊢
    refine ⟨fun exp hexp hexp' => ?_, fun exp held hheld hclash => ?_⟩
    · rcases Multiset.mem_cons.mp hexp with rfl | hexp
      · exact absurd hexp' hothers'.1
      · exact hexp
    · rcases Multiset.mem_cons.mp hheld with rfl | hheld
      · exact absurd hclash (not_clash_of_place (Or.inr hothers'.2))
      · exact Or.inl ⟨held, hheld, hclash⟩
  | register hm hreg =>
    rename_i grant reg rest
    subst hm
    refine ⟨fun exp hexp hplace => ?_, fun exp held hheld hclash => ?_⟩
    · rcases Multiset.mem_cons.mp hexp with rfl | hexp
      · cases hplace
      · exact Multiset.mem_cons_of_mem hexp
    · rcases Multiset.mem_cons.mp hheld with rfl | hheld
      · exact Or.inr ⟨grant, reg, rfl, hclash⟩
      · exact Or.inl ⟨held, Multiset.mem_cons_of_mem hheld, hclash⟩

theorem unhindered_pool (hs : Unhindered s) {a : PoolNet.Action} (hothers : ofOthers a = true)
    (hc : reapsExactly r s (.pool a) = true)
    (hmarking : PoolNet.step (.presence acceptance) s.marking a = some s'.marking)
    (haway : s'.away = s.away) : Unhindered s' := by
  obtain ⟨hsignals, hholds⟩ := clash_poolStep hothers hmarking
  intro exp hexp held hheld hclash
  have hsignal : exp.1 = .presenceExpired := by
    by_contra hne
    exact not_clash_of_place (Or.inl hne) hclash
  have hexp' : exp ∈ s.marking + s.away := by
    rw [haway] at hexp
    exact Multiset.mem_add.mpr
      ((Multiset.mem_add.mp hexp).imp (fun hexp => hsignals exp hexp hsignal) id)
  rcases hholds exp held hheld hclash with ⟨held', hheld', hclash⟩ | ⟨grant, reg, rfl, hclash⟩
  · exact hs exp hexp' held' hheld' hclash
  · simp only [reapsExactly, decide_eq_true_eq] at hc
    exact Multiset.countP_eq_zero.mp hc exp hexp' hclash

theorem unhindered_step (hs : Unhindered w.pool) (hc : reapsExactly r w.pool a = true)
    (h : step acceptance r w a = some w') : Unhindered w'.pool := by
  obtain ⟨pool, hpool, rfl⟩ := Option.map_eq_some_iff.mp h
  cases stepped hpool with
  | heartbeat hmarking haway => exact hs.mono haway.le hmarking
  | commit hmarking haway => exact hs.mono haway.le hmarking
  | count hcounting hfound hmarking haway =>
    refine hs.add haway hmarking fun exp hexp held _ => not_clash_of_place (Or.inl ?_)
    obtain ⟨inj, -, rfl⟩ := List.mem_map.mp (Multiset.mem_coe.mp hexp)
    simp [PoolMessage.token, PoolMessage.place]
  | acquire hmarking haway =>
    refine hs.mono ?_ hmarking
    rcases haway with haway | haway
    · exact haway.le
    · exact haway ▸ Multiset.le_cons_self _ _
  | sweep hentry hmarking haway hhandler =>
    rename_i runnerId nowMs entry
    simp only [reapsExactly, hentry, Bool.and_eq_true, decide_eq_true_eq] at hc
    have hnone := Multiset.countP_eq_zero.mp hc.2
    refine hs.add haway hmarking fun exp hexp held hheld hclash => hnone held hheld ?_
    obtain ⟨sig, hsig, rfl⟩ := List.mem_map.mp (Multiset.mem_coe.mp hexp)
    obtain rfl : sig = expireSignal runnerId nowMs := by
      rw [expireEntry] at hsig
      split at hsig
      · exact List.eq_of_mem_replicate hsig
      · cases hsig
    exact hclash
  | expire hexpiring hmarking haway =>
    refine hs.mono ?_ hmarking
    rcases haway with haway | ⟨-, haway⟩
    · exact haway.le
    · exact haway ▸ Multiset.le_cons_self _ _
  | deliver hmarking haway hhandler =>
    rename_i message
    rcases hmarking with hmarking | ⟨hmarking, -⟩
    · intro exp hexp held hheld
      rw [hmarking, Multiset.cons_add, ← Multiset.add_cons, ← haway] at hexp
      rw [hmarking] at hheld
      rcases Multiset.mem_cons.mp hheld with rfl | hheld
      · refine not_clash_of_place (Or.inr ?_)
        cases message <;> simp [PoolMessage.token, PoolMessage.place]
      · exact hs exp hexp held hheld
    · exact hs.mono (haway ▸ Multiset.le_cons_self _ _) hmarking
  | pool hothers hmarking haway => exact unhindered_pool hs hothers hc hmarking haway

/-! ## The settled pool -/

/-- The reap of a hold is next, and it fails. -/
def Wedged (m : PoolMarking) : Prop :=
  ∃ exp ∈ m, ∃ held ∈ m, held.1 = .inUse ∧ clash exp held

/-- Everything that was on its way has been processed: nothing is to be published or delivered, no
grant of the runner is out, and the net is at rest, for there is nothing to fire or the reap that is
next fails. -/
structure Settled (acceptance : Acceptance) (r : String) (s : RunnerPool) : Prop where
  inFlight : s.inFlight = []
  minting : s.minting = []
  expiring : s.expiring = []
  grants : total (idIn [.grantOutbox] r) s.marking = 0
  rest : Quiescent (PoolNet.buildPoolNet (.presence acceptance)) s.marking ∨ Wedged s.marking

theorem Settled.away_eq_zero (h : Settled acceptance r s) : s.away = 0 := by
  rw [away, h.inFlight, h.minting, h.expiring]
  rfl

theorem Settled.no_unit (hsettled : Settled acceptance r s) (hs : Unhindered s)
    (hsignal : signals r s.marking ≠ 0) : unitIds r s.marking = 0 := by
  have hquiet := hsettled.rest.resolve_right fun ⟨exp, hexp, held, hheld, _, hclash⟩ =>
    hs exp (Multiset.mem_add.mpr (Or.inl hexp)) held hheld hclash
  by_contra hunits
  obtain ⟨⟨place, exp⟩, hexp, hpos⟩ := exists_mem_of_total_ne_zero hsignal
  have hexp' : place = .presenceExpired ∧ prop exp "runner_id" = .str r := by
    by_contra hne
    simp [signalAt, hne] at hpos
  obtain ⟨rfl, hexpr⟩ := hexp'
  obtain ⟨⟨place, unit⟩, hunit, hid⟩ := exists_mem_of_total_ne_zero hunits
  have hunit' : place ∈ unitPlaces ∧ prop unit "runner_id" = .str r := by
    by_contra hne
    simp [idIn, hne] at hid
  obtain ⟨hplace, hunitr⟩ := hunit'
  -- Wherever the unit is, a transition takes it up, unless it is granted.
  simp only [unitPlaces, List.mem_cons, List.not_mem_nil, or_false] at hplace
  rcases hplace with rfl | rfl | rfl | rfl | rfl
  · have hguard := hquiet.guard_eq_false (t := .tPresenceAcquire) rfl (List.nodup_singleton _) [unit]
      rfl (by simpa [PoolNet.tPresenceAcquire] using hunit)
    exact absurd hguard (by simp [PoolNet.tPresenceAcquire])
  · have hguard := hquiet.guard_eq_false (t := .tReapFree) rfl (by decide) [exp, unit] rfl
      (by simpa [PoolNet.tReapFree] using ⟨hexp, hunit⟩)
    simp [PoolNet.tReapFree, PoolNet.correlate, hexpr, hunitr] at hguard
  · obtain ⟨rest, hrest⟩ := Multiset.exists_cons_of_mem hunit
    have hgrants := hsettled.grants
    rw [hrest, total_cons] at hgrants
    simp [idIn, hunitr] at hgrants
  · have hguard := hquiet.guard_eq_false (t := .tRegister) rfl (List.nodup_singleton _) [unit]
      rfl (by simpa [PoolNet.tRegister] using hunit)
    exact absurd hguard (by simp [PoolNet.tRegister])
  · have hguard := hquiet.guard_eq_false (t := .tReapHeld) rfl (by decide) [exp, unit] rfl
      (by simpa [PoolNet.tReapHeld] using ⟨hexp, hunit⟩)
    have hclash := hs _ (Multiset.mem_add.mpr (Or.inl hexp)) _ hunit
    simp [clash, PoolNet.correlate, hexpr, hunitr] at hclash
    simp [PoolNet.tReapHeld, PoolNet.correlate, hexpr, hunitr, hclash] at hguard

/-- The ids of the runner's free and held units. -/
def poolAndHeld (r : String) (m : PoolMarking) : Multiset Json := total (idIn [.pool, .inUse] r) m

theorem poolAndHeld_le (r : String) (m : PoolMarking) : poolAndHeld r m ≤ unitIds r m := by
  induction m using Multiset.induction with
  | empty => exact le_rfl
  | cons x m ih =>
    rw [poolAndHeld, unitIds] at ih ⊢
    rw [total_cons, total_cons]
    refine add_le_add ?_ ih
    by_cases hx : x.1 ∈ [PoolPlace.pool, .inUse] ∧ prop x.2 "runner_id" = .str r
    · have hplace : x.1 ∈ unitPlaces := by
        rcases List.mem_pair.mp hx.1 with h | h <;> simp [h, unitPlaces]
      rw [idIn, idIn, if_pos hx, if_pos ⟨hplace, hx.2⟩]
    · rw [idIn, if_neg hx]
      exact Multiset.zero_le _

/-- **Presence expiry reaps all of a runner's units and nothing else.** In every run whose sweeps
and heartbeats of the runner meet the condition, a settled pool holds units of the runner only as
far as they were minted after its last sweep, and no signal for it. -/
theorem expiry_reaps_all (acceptance : Acceptance) (cap : Nat) (r : String)
    {run : List RunnerAction} {w : WatchedPool}
    (hreaps : Along (step acceptance r) (fun w a => reapsExactly r w.pool a = true) (init cap) run)
    (h : exec (step acceptance r) (init cap) run = some w) (hsettled : Settled acceptance r w.pool) :
    poolAndHeld r w.pool.marking ≤ w.fresh ∧ signals r w.pool.marking = 0 := by
  have hw : w.Accounted r := exec_invariant_along (fun _ _ _ hw hc h => accounted_step hw hc h)
    (accounted_init r cap) hreaps h
  have hs : Unhindered w.pool := exec_invariant_along
    (fun _ _ _ hs hc h => unhindered_step hs hc h) (unhindered_init cap) hreaps h
  have haway := hsettled.away_eq_zero
  unfold Accounted pendingSignals at hw
  rw [haway] at hw
  rcases hw with ⟨hzero, hle⟩ | ⟨hcount, -⟩
  · exact ⟨(poolAndHeld_le r _).trans ((Multiset.le_add_right _ _).trans hle), hzero⟩
  · have hnone : signals r w.pool.marking = 0 := by
      by_contra hsignal
      rw [hsettled.no_unit hs hsignal] at hcount
      exact hsignal hcount
    have hempty : unitIds r w.pool.marking = 0 := Multiset.card_eq_zero.mp (hcount ▸ hnone)
    refine ⟨?_, hnone⟩
    have hle := poolAndHeld_le r w.pool.marking
    rw [hempty] at hle
    exact hle.trans (Multiset.zero_le _)

/-- The sweep of a runner, up to the reap by its first signal. -/
def sweepOnce (r : String) (reap : PoolTransition) (unit : RhaiMap) : List RunnerAction :=
  [.sweep r 5, .expire true, .deliver (.expire (expireSignal r 5)),
    .pool (.fire reap [(expireSignal r 5).payload, unit])]

/-- What the claimant registers: the grant, over a bridge with a fail channel. -/
def stepHold (r : String) : RhaiMap :=
  PoolNet.grant (.presence .auto) anyClaim (slotOf r 0 1).tokenColor ++
    [(PoolNet.failChannel, .str "p_step_lease_failed")]

/-- The runner's unit is granted and registered, and reaped as the runner is swept. -/
def holdAndExpire (r : String) : List RunnerAction :=
  [.pool (.arrive .claimInbox anyClaim),
    .pool (.fire .tGrant [anyClaim, (slotOf r 0 1).tokenColor]),
    .pool (.register (PoolNet.grant (.presence .auto) anyClaim (slotOf r 0 1).tokenColor) (stepHold r)),
    .pool (.fire .tRegister [stepHold r])] ++
    sweepOnce r .tReapHeld (PoolNet.copy (PoolNet.holdKeys (.presence .auto)) (stepHold r))

theorem expiry_reaps_all_held :
    ∃ w, exec (step .auto "a") (init 100) (checkIn "a" ++ holdAndExpire "a") = some w ∧
      poolAndHeld "a" w.pool.marking ≤ w.fresh ∧ signals "a" w.pool.marking = 0 :=
  ⟨_, rfl, @expiry_reaps_all .auto 100 "a" (checkIn "a" ++ holdAndExpire "a") _ (by decide) rfl
    ⟨rfl, rfl, rfl, by decide, Or.inl (by decide)⟩⟩

/-- A runner checks in with two slots, advertises one from then on, and is swept. -/
def shrinkAndExpire : List RunnerAction :=
  [.heartbeat "a" 2 (.pooled (.obj [])), .count true none 1, .acquire true, .acquire true, .commit,
    .deliver (.acquire (slotOf "a" 0 1)), .deliver (.acquire (slotOf "a" 1 1)),
    .pool (.fire .tPresenceAcquire [(slotOf "a" 0 1).tokenColor]),
    .pool (.fire .tPresenceAcquire [(slotOf "a" 1 1).tokenColor])] ++
    renew "a" ++ [.commit] ++ sweepOnce "a" .tReapFree (slotOf "a" 0 1).tokenColor

/-- The sweep has been processed, and a unit minted before it is free to be granted. -/
theorem expiry_leaves_unit :
    ∃ w, exec (step .auto "a") (init 100) shrinkAndExpire = some w ∧ Settled .auto "a" w.pool ∧
      w.fresh = 0 ∧ poolAndHeld "a" w.pool.marking = {.str "a#1@1"} :=
  ⟨_, rfl, ⟨rfl, rfl, rfl, by decide, Or.inl (by decide)⟩, rfl, by decide⟩

end WatchedPool

end Mekhan
