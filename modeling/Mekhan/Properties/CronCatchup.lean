import Mekhan.Triggers.Cron

/-!
# Missed occurrences of a cron trigger

The loop goes on from the last fire that the bucket has, whatever the trigger's policy, and each turn
takes the next occurrence after it. So after an outage it fires every occurrence that was missed, one a
second, with `SkipMissed` too; with `FireMissed` the replay takes the oldest of them.
-/

namespace Mekhan

namespace CronCatchup

open Triggers CronLoop

variable {parseCron : CronTrigger → Except String Schedule} {cron : CronTrigger} {start : Int}

/-- The last occurrence before the loop started. -/
def MostRecentMissed (parseCron : CronTrigger → Except String Schedule) (cron : CronTrigger) (start o : Int) :
    Prop :=
  o < start ∧ ∀ schedule, parseCron cron = .ok schedule → ∀ s, schedule.Occurs s → s < start → s ≤ o

/-- What a loop fired keeps to the trigger's policy: nothing twice and in order, and of the occurrences
before the start none, or the last alone. -/
structure CatchupPolicy (parseCron : CronTrigger → Except String Schedule) (cron : CronTrigger) (start : Int)
    (fires : List Fire) : Prop where
  increasing : (fires.map Fire.scheduledTime).Pairwise (· < ·)
  skipped : cron.catchup = .skipMissed → ∀ f ∈ fires, start ≤ f.scheduledTime
  replayed : cron.catchup = .fireMissed → (fires.filter (·.scheduledTime < start)).length ≤ 1 ∧
    ∀ f ∈ fires, f.scheduledTime < start → MostRecentMissed parseCron cron start f.scheduledTime

/-! ## What is fired -/

/-- No fire is past the last one, which is where the loop goes on. -/
structure InOrder (task : CronLoop) : Prop where
  increasing : (task.fires.map Fire.scheduledTime).Pairwise (· < ·)
  last : ∀ f ∈ task.fires, ∃ lf, task.lastFire = some lf ∧ f.scheduledTime ≤ lf

variable {after next : Int} {kv : Option (Option Int)} {b : Boot}

theorem lt_of_nextFireAfter (h : nextFireAfter parseCron cron after = .ok (some next)) : after < next := by
  unfold nextFireAfter at h
  cases hparse : parseCron cron with
  | error e => simp [hparse, Except.map] at h
  | ok schedule =>
    have hafter : schedule.after after = some next := by simpa [hparse, Except.map] using h
    exact (schedule.after_some after next hafter).1.2

variable {task task' : CronLoop} {t : Tick} {o : Int} {ts : List Tick}

theorem turn_eq_some (h : task.turn parseCron cron t = some task') :
    ∃ next fireTime, nextFireAfter parseCron cron (task.lastFire.getD task.now) = .ok (some next) ∧
      t.registered = true ∧ task.now ≤ task'.now ∧ task'.lastFire = some next ∧
        task'.fires = task.fires ++ [⟨next, fireTime⟩] := by
  unfold turn at h
  split at h
  case h_2 => cases h
  case h_1 next hnext =>
    dsimp only at h
    cases hreg : t.registered with
    | false => simp [hreg] at h
    | true =>
      rw [hreg, if_pos rfl] at h
      cases h
      refine ⟨next, _, hnext, rfl, ?_, rfl, rfl⟩
      show task.now ≤ task.now + (if task.now ≤ next then next - task.now else second) + t.overshoot + t.firing
      have hsecond : (0 : Int) ≤ second := by decide
      split <;> omega

theorem InOrder.fired {fireTime : Int} (h : InOrder task)
    (hnext : ∀ lf, task.lastFire = some lf → lf < next) (hlast : task'.lastFire = some next)
    (hfires : task'.fires = task.fires ++ [⟨next, fireTime⟩]) : InOrder task' := by
  constructor
  case increasing =>
    rw [hfires, List.map_append, List.pairwise_append]
    refine ⟨h.increasing, List.pairwise_singleton _ _, ?_⟩
    intro a ha b hb
    obtain ⟨f, hf, rfl⟩ := List.mem_map.mp ha
    obtain ⟨lf, hlf, hle⟩ := h.last f hf
    obtain rfl := List.mem_singleton.mp hb
    exact lt_of_le_of_lt hle (hnext lf hlf)
  case last =>
    intro f hf
    refine ⟨next, hlast, ?_⟩
    rw [hfires] at hf
    rcases List.mem_append.mp hf with hold | hnew
    · obtain ⟨lf, hlf, hle⟩ := h.last f hold
      exact hle.trans (hnext lf hlf).le
    · rw [List.mem_singleton.mp hnew]

theorem InOrder.turn (h : InOrder task) (ht : task.turn parseCron cron t = some task') : InOrder task' := by
  obtain ⟨next, fireTime, hnext, -, -, hlast, hfires⟩ := turn_eq_some ht
  refine h.fired (fun lf hlf => ?_) hlast hfires
  have hlt := lt_of_nextFireAfter hnext
  rwa [hlf] at hlt

theorem InOrder.loop : ∀ {ts : List Tick} {task : CronLoop}, InOrder task →
    InOrder (loop parseCron cron task ts)
  | [], _, h => h
  | t :: ts, task, h => by
    unfold CronLoop.loop
    split
    · next ht => exact InOrder.loop (h.turn ht)
    · exact h

theorem boot_cases (parseCron : CronTrigger → Except String Schedule) (cron : CronTrigger) (start : Int)
    (kv : Option (Option Int)) (b : Boot) :
    (boot parseCron cron start kv b = ⟨start + b.reading, kv.join, kv, []⟩ ∧
      (cron.catchup = .fireMissed → ∀ lf ∈ kv.join, ∀ o, nextFireAfter parseCron cron lf = .ok (some o) →
        start ≤ o)) ∨
    ∃ lf o, cron.catchup = .fireMissed ∧ lf ∈ kv.join ∧ nextFireAfter parseCron cron lf = .ok (some o) ∧
      (boot parseCron cron start kv b).lastFire = some o ∧ start ≤ (boot parseCron cron start kv b).now ∧
          (boot parseCron cron start kv b).fires = [⟨o, o⟩] := by
  unfold boot
  dsimp only
  split
  case h_1 lf hcatchup hstored =>
    split
    case h_1 next hnext =>
      split
      case isTrue hmissed =>
        refine .inr ⟨lf, next, hcatchup, hstored, hnext, rfl, ?_, rfl⟩
        show start ≤ start + b.reading + b.firing
        omega
      case isFalse hahead =>
        refine .inl ⟨rfl, fun _ lf' hlf' o ho => ?_⟩
        obtain rfl : lf = lf' := Option.some.inj (hstored.symm.trans hlf')
        obtain rfl : next = o := by simpa using hnext.symm.trans ho
        omega
    case h_2 hnone =>
      refine .inl ⟨rfl, fun _ lf' hlf' o ho => ?_⟩
      obtain rfl : lf = lf' := Option.some.inj (hstored.symm.trans hlf')
      exact absurd ho (hnone o)
  case h_2 hother =>
    refine .inl ⟨rfl, fun hcatchup lf hlf => ?_⟩
    exact absurd hlf (hother lf hcatchup)

/-- **Fired occurrences are strictly increasing, whatever was stored.** -/
theorem fires_increasing (kv : Option (Option Int)) (b : Boot) (ts : List Tick) :
    ((spawnLoop parseCron cron start kv b ts).fires.map Fire.scheduledTime).Pairwise (· < ·) := by
  refine (InOrder.loop ?_).increasing
  rcases boot_cases parseCron cron start kv b with
    ⟨hboot, -⟩ | ⟨lf, o, -, -, -, hlast, -, hfires⟩
  · rw [hboot]
    exact ⟨List.Pairwise.nil, fun f hf => absurd hf List.not_mem_nil⟩
  · constructor
    case increasing =>
      rw [hfires]
      exact List.pairwise_singleton _ _
    case last =>
      intro f hf
      rw [hfires] at hf
      exact ⟨o, hlast, (List.mem_singleton.mp hf) ▸ le_rfl⟩

/-! ## Nothing left behind -/

/-- What the loop takes next is not from before the start. -/
def Ahead (parseCron : CronTrigger → Except String Schedule) (cron : CronTrigger) (start : Int)
    (task : CronLoop) : Prop :=
  ∀ o, nextFireAfter parseCron cron (task.lastFire.getD task.now) = .ok (some o) → start ≤ o

theorem Ahead.turn (h : Ahead parseCron cron start task)
    (ht : task.turn parseCron cron t = some task') : Ahead parseCron cron start task' ∧
      ∃ f, start ≤ f.scheduledTime ∧ task'.fires = task.fires ++ [f] := by
  obtain ⟨next, fireTime, hnext, -, -, hlast, hfires⟩ := turn_eq_some ht
  have hstart : start ≤ next := h next hnext
  refine ⟨fun o ho => ?_, ⟨next, fireTime⟩, hstart, hfires⟩
  rw [hlast] at ho
  exact hstart.trans (lt_of_nextFireAfter ho).le

theorem Ahead.loop : ∀ (ts : List Tick) {task : CronLoop}, Ahead parseCron cron start task →
    ∃ more, (loop parseCron cron task ts).fires = task.fires ++ more ∧ ∀ f ∈ more, start ≤ f.scheduledTime
  | [], task, _ => ⟨[], (List.append_nil _).symm, fun f hf => absurd hf List.not_mem_nil⟩
  | t :: ts, task, h => by
    unfold CronLoop.loop
    split
    case h_2 => exact ⟨[], (List.append_nil _).symm, fun f hf => absurd hf List.not_mem_nil⟩
    case h_1 task' ht =>
      obtain ⟨hahead, f, hf, hfires⟩ := h.turn ht
      obtain ⟨more, hmore, hall⟩ := Ahead.loop ts hahead
      refine ⟨f :: more, by rw [hmore, hfires, List.append_assoc]; rfl, ?_⟩
      intro g hg
      rcases List.mem_cons.mp hg with rfl | hg
      · exact hf
      · exact hall g hg

theorem Ahead.of_none (h : start ≤ task.now) (hnone : task.lastFire = none) :
    Ahead parseCron cron start task := by
  intro o ho
  rw [hnone] at ho
  exact h.trans (lt_of_nextFireAfter ho).le

theorem Ahead.of_some {lf : Int} (hlast : task.lastFire = some lf)
    (h : ∀ o, nextFireAfter parseCron cron lf = .ok (some o) → start ≤ o) :
    Ahead parseCron cron start task := by
  intro o ho
  rw [hlast] at ho
  exact h o ho

/-! ## What is missed -/

/-- Where an occurrence was missed, the loop with `SkipMissed` is told to stop when it first wakes, or
has not woken yet; with `FireMissed` no second one was missed. -/
def Missed (parseCron : CronTrigger → Except String Schedule) (cron : CronTrigger) (start : Int)
    (stored : Option Int) (ts : List Tick) : Prop :=
  ∀ lf ∈ stored, ∀ o, nextFireAfter parseCron cron lf = .ok (some o) → o < start →
    match cron.catchup with
    | .skipMissed => ∀ t ∈ ts.head?, t.registered = false
    | .fireMissed => ∀ o', nextFireAfter parseCron cron o = .ok (some o') → start ≤ o'

theorem parsed_of_nextFireAfter (h : nextFireAfter parseCron cron after = .ok (some o)) :
    ∃ schedule, parseCron cron = .ok schedule ∧ schedule.Occurs o := by
  unfold nextFireAfter at h
  cases hparse : parseCron cron with
  | error e => simp [hparse, Except.map] at h
  | ok schedule =>
    have hafter : schedule.after after = some o := by simpa [hparse, Except.map] using h
    exact ⟨schedule, rfl, (schedule.after_some after o hafter).1.1⟩

theorem mostRecentMissed_iff (ho : o < start) : MostRecentMissed parseCron cron start o ↔
    ∀ o', nextFireAfter parseCron cron o = .ok (some o') → start ≤ o' := by
  constructor
  · rintro ⟨-, hlast⟩ o' ho'
    obtain ⟨schedule, hparse, hoccurs⟩ := parsed_of_nextFireAfter ho'
    have hlt := lt_of_nextFireAfter ho'
    by_contra hmissed
    have hle := hlast schedule hparse o' hoccurs (by omega)
    omega
  · intro hnext
    refine ⟨ho, fun schedule hparse s hs hstart => ?_⟩
    by_contra hlater
    cases hafter : schedule.after o with
    | none => exact hlater (schedule.after_none o hafter s hs)
    | some o' =>
      have hle : o' ≤ s := (schedule.after_some o o' hafter).2 ⟨hs, by omega⟩
      have hfire : nextFireAfter parseCron cron o = .ok (some o') := by
        unfold nextFireAfter
        rw [hparse]
        exact congrArg Except.ok hafter
      have := hnext o' hfire
      omega

theorem mem_fires_loop {f : Fire} : ∀ {ts : List Tick} {task : CronLoop}, f ∈ task.fires →
    f ∈ (loop parseCron cron task ts).fires
  | [], _, h => h
  | t :: ts, task, h => by
    unfold CronLoop.loop
    split
    case h_2 => exact h
    case h_1 task' ht =>
      obtain ⟨next, fireTime, -, -, -, -, hfires⟩ := turn_eq_some ht
      exact mem_fires_loop (hfires ▸ List.mem_append_left _ h)

theorem exists_fire_of_registered (ts : List Tick)
    (hnext : nextFireAfter parseCron cron (task.lastFire.getD task.now) = .ok (some o))
    (hreg : t.registered = true) : ∃ f ∈ (loop parseCron cron task (t :: ts)).fires, f.scheduledTime = o := by
  have hturn : ∃ task', task.turn parseCron cron t = some task' := by
    unfold turn
    rw [hnext]
    dsimp only
    rw [if_pos hreg]
    exact ⟨_, rfl⟩
  obtain ⟨task', hturn⟩ := hturn
  obtain ⟨next, fireTime, hnext', -, -, -, hfires⟩ := turn_eq_some hturn
  obtain rfl : o = next := by simpa using hnext.symm.trans hnext'
  refine ⟨⟨o, fireTime⟩, ?_, rfl⟩
  unfold CronLoop.loop
  rw [hturn]
  exact mem_fires_loop (hfires ▸ List.mem_append_right _ (List.mem_singleton_self _))

theorem loop_of_unregistered (h : ∀ t ∈ ts.head?, t.registered = false) :
    loop parseCron cron task ts = task := by
  cases ts with
  | nil => rfl
  | cons t ts =>
    have hreg := h t rfl
    unfold CronLoop.loop
    split
    case h_2 => rfl
    case h_1 task' ht =>
      obtain ⟨_, _, -, htrue, -⟩ := turn_eq_some ht
      exact absurd (hreg.symm.trans htrue) (by decide)

theorem missed_of_policy
    (h : CatchupPolicy parseCron cron start (spawnLoop parseCron cron start kv b ts).fires) :
    Missed parseCron cron start kv.join ts := by
  intro lf hlf o ho hmissed
  unfold spawnLoop at h
  rcases boot_cases parseCron cron start kv b with
    ⟨hboot, hahead⟩ | ⟨lf', o', hcatchup, hlf', ho', -, -, hfires⟩
  · split
    case h_2 hcatchup =>
      have := hahead hcatchup lf hlf o ho
      omega
    case h_1 hcatchup =>
      intro t ht
      cases ts with
      | nil => cases ht
      | cons first rest =>
        obtain rfl : first = t := Option.some.inj ht
        rw [Bool.eq_false_iff]
        intro hreg
        have hnext : nextFireAfter parseCron cron ((boot parseCron cron start kv b).lastFire.getD
            (boot parseCron cron start kv b).now) = .ok (some o) := by
          rw [hboot]
          rw [Option.mem_def] at hlf
          show nextFireAfter parseCron cron (kv.join.getD _) = _
          rw [hlf]
          exact ho
        obtain ⟨f, hf, rfl⟩ := exists_fire_of_registered rest hnext hreg
        have := h.skipped hcatchup f hf
        omega
  · obtain rfl : lf' = lf := Option.some.inj (hlf'.symm.trans hlf)
    obtain rfl : o' = o := by simpa using ho'.symm.trans ho
    rw [hcatchup]
    have hmem : (⟨o', o'⟩ : Fire) ∈ (loop parseCron cron (boot parseCron cron start kv b) ts).fires :=
      mem_fires_loop (hfires ▸ List.mem_singleton_self _)
    exact (mostRecentMissed_iff hmissed).mp ((h.replayed hcatchup).2 _ hmem hmissed)

theorem policy_of_missed (h : Missed parseCron cron start kv.join ts) :
    CatchupPolicy parseCron cron start (spawnLoop parseCron cron start kv b ts).fires := by
  rcases boot_cases parseCron cron start kv b with
    ⟨hboot, hahead⟩ | ⟨lf, o, hcatchup, hlf, ho, hlast, hnow, hfires⟩
  · -- nothing was replayed: what the loop fires is ahead of the start, or it fires nothing
    have hall : ∀ f ∈ (spawnLoop parseCron cron start kv b ts).fires, start ≤ f.scheduledTime := by
      unfold spawnLoop
      by_cases hnext : Ahead parseCron cron start (boot parseCron cron start kv b)
      · obtain ⟨more, hmore, hlater⟩ := Ahead.loop ts hnext
        rw [hmore, hboot]
        exact hlater
      · have hstop : ∀ t ∈ ts.head?, t.registered = false := by
          rw [hboot] at hnext
          cases hstored : kv.join with
          | none =>
            refine absurd (Ahead.of_none ?_ ?_) hnext
            · show start ≤ start + b.reading
              omega
            · exact hstored
          | some lf =>
            by_contra hrun
            refine hnext (Ahead.of_some hstored fun o ho => ?_)
            by_contra hmissed
            have hcase := h lf hstored o ho (by omega)
            split at hcase
            case h_1 => exact hrun hcase
            case h_2 hcatchup => exact hmissed (hahead hcatchup lf hstored o ho)
        rw [loop_of_unregistered hstop, hboot]
        exact fun f hf => absurd hf List.not_mem_nil
    refine ⟨fires_increasing kv b ts, fun _ => hall, fun _ => ⟨?_, fun f hf hlt => ?_⟩⟩
    · have hnil : (spawnLoop parseCron cron start kv b ts).fires.filter (·.scheduledTime < start) = [] :=
        List.filter_eq_nil_iff.mpr fun f hf => by simpa using hall f hf
      rw [hnil]
      exact Nat.zero_le 1
    · have := hall f hf
      omega
  · have hnext : Ahead parseCron cron start (boot parseCron cron start kv b) := by
      refine Ahead.of_some hlast fun o' ho' => ?_
      by_cases hmissed : o < start
      · have hcase := h lf hlf o ho hmissed
        rw [hcatchup] at hcase
        exact hcase o' ho'
      · have := lt_of_nextFireAfter ho'
        omega
    obtain ⟨more, hmore, hlater⟩ := Ahead.loop ts hnext
    have heq : (spawnLoop parseCron cron start kv b ts).fires = ⟨o, o⟩ :: more := by
      rw [spawnLoop, hmore, hfires]
      rfl
    refine ⟨fires_increasing kv b ts, fun hskip => ?_, fun _ => ⟨?_, fun f hf hlt => ?_⟩⟩
    · exact absurd (hskip.symm.trans hcatchup) (by decide)
    · have hnil : more.filter (·.scheduledTime < start) = [] :=
        List.filter_eq_nil_iff.mpr fun f hf => by simpa using hlater f hf
      rw [heq, List.filter_cons, hnil]
      split <;> simp
    · rw [heq] at hf
      rcases List.mem_cons.mp hf with rfl | hf
      · refine (mostRecentMissed_iff hlt).mpr fun o' ho' => hnext o' ?_
        rw [hlast]
        exact ho'
      · have := hlater f hf
        omega

/-- **A cron loop keeps its policy exactly when nothing was missed, or one occurrence that it is to
replay.** -/
theorem catchup_iff (parseCron : CronTrigger → Except String Schedule) (cron : CronTrigger) (start : Int)
    (kv : Option (Option Int)) (b : Boot) (ts : List Tick) :
    CatchupPolicy parseCron cron start (spawnLoop parseCron cron start kv b ts).fires ↔
      Missed parseCron cron start kv.join ts := ⟨missed_of_policy, policy_of_missed⟩

/-! ## After an outage -/

def hour : Int := 3600000000000

def hourly : Schedule where
  Occurs s := s % hour = 0
  after t := some ((t / hour + 1) * hour)
  after_some t o h := by
    cases h
    unfold hour
    refine ⟨⟨by omega, by omega⟩, ?_⟩
    rintro s ⟨hs, hlt⟩
    omega
  after_none t h := by cases h

/-- The service was down from midnight until after three, and missed three hours. -/
def firesAfterOutage (catchup : CronCatchup) : List Fire :=
  (spawnLoop (fun _ => .ok hourly) ⟨"0 0 * * * *", "UTC", 0, catchup⟩ (3 * hour + 1) (some (some 0))
    ⟨0, 0, true⟩ [⟨0, true, 0, true⟩, ⟨0, true, 0, true⟩]).fires

/-- Each policy fires missed hours one after the other, a second apart. -/
theorem fires_missed :
    (¬ CatchupPolicy (fun _ => .ok hourly) ⟨"0 0 * * * *", "UTC", 0, .skipMissed⟩ (3 * hour + 1)
      (firesAfterOutage .skipMissed)) ∧
    ¬ CatchupPolicy (fun _ => .ok hourly) ⟨"0 0 * * * *", "UTC", 0, .fireMissed⟩ (3 * hour + 1)
      (firesAfterOutage .fireMissed) := by
  constructor
  · intro h
    exact absurd (h.skipped rfl ⟨hour, 3 * hour + 1 + second⟩ (by decide)) (by decide)
  · intro h
    exact absurd (h.replayed rfl).1 (by decide)

end CronCatchup

end Mekhan
