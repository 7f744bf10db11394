import Mathlib.Order.Bounds.Basic

/-!
# The cron source

`service/src/triggers/sources/cron.rs`. One task per cron trigger reads the time that it last fired,
replays a missed occurrence where the trigger asks for it, and then fires one occurrence after the other,
each the next one after the last that it fired.

Times are nanoseconds. What the world decides is in a `Boot` and in one `Tick` for each turn of the loop:
what the clock has moved on by, whether the trigger is still registered, and whether the bucket took what
was written to it.
-/

namespace Mekhan

namespace Triggers

/-- One second, the sleep where the next occurrence has passed. -/
def second : Int := 1000000000

/-- A parsed cron expression in its timezone: when it occurs, and the first occurrence after a time. -/
structure Schedule where
  Occurs : Int → Prop
  after : Int → Option Int
  after_some : ∀ t o, after t = some o → IsLeast {s | Occurs s ∧ t < s} o
  after_none : ∀ t, after t = none → ∀ s, Occurs s → s ≤ t

/-- What to do after a service restart with missed fire windows. -/
inductive CronCatchup where
  | fireMissed
  | skipMissed
  deriving DecidableEq

structure CronTrigger where
  schedule : String
  timezone : String
  jitterSecs : Nat
  catchup : CronCatchup

/-- The next fire time after `after`; `none` where the schedule has no future occurrence. -/
def nextFireAfter (parseCron : CronTrigger → Except String Schedule) (trigger : CronTrigger) (after : Int) :
    Except String (Option Int) :=
  (parseCron trigger).map fun schedule => schedule.after after

structure Fire where
  scheduledTime : Int
  fireTime : Int
  deriving DecidableEq

/-- The variables of the task, what it has fired, and the record of the last fire in the bucket, where
there is a bucket. -/
structure CronLoop where
  now : Int
  lastFire : Option Int
  kv : Option (Option Int)
  fires : List Fire

/-- The time that the bucket took to answer, and what a replay took. -/
structure Boot where
  reading : Nat
  firing : Nat
  stores : Bool

structure Tick where
  overshoot : Nat
  /-- `dispatcher.get` still finds the trigger. -/
  registered : Bool
  firing : Nat
  stores : Bool

namespace CronLoop

-- `parse_cron`, which is the work of two libraries.
variable (parseCron : CronTrigger → Except String Schedule)

/-- `fire_once`, which takes its time, and `write_last_fire`. -/
def fireOnce (task : CronLoop) (scheduled fireTime : Int) (firing : Nat) (stores : Bool) : CronLoop where
  now := task.now + firing
  lastFire := some scheduled
  kv := if stores then task.kv.map fun _ => some scheduled else task.kv
  fires := task.fires ++ [⟨scheduled, fireTime⟩]

/-- What comes before the loop. The replay gives the scheduled time as the fire time. -/
def boot (cron : CronTrigger) (start : Int) (kv : Option (Option Int)) (b : Boot) : CronLoop :=
  let task : CronLoop := ⟨start + b.reading, kv.join, kv, []⟩
  match cron.catchup, task.lastFire with
  | .fireMissed, some lf =>
    match nextFireAfter parseCron cron lf with
    | .ok (some next) =>
      if next ≤ task.now then task.fireOnce next next b.firing b.stores else task
    | _ => task
  | _, _ => task

/-- One turn of the loop; `none` where it returns. -/
def turn (cron : CronTrigger) (task : CronLoop) (t : Tick) : Option CronLoop :=
  match nextFireAfter parseCron cron (task.lastFire.getD task.now) with
  | .ok (some next) =>
    let sleepFor := if task.now ≤ next then next - task.now else second
    let fireTime := task.now + sleepFor + t.overshoot
    if t.registered then some ({ task with now := fireTime }.fireOnce next fireTime t.firing t.stores)
    else none
  | _ => none

/-- The loop, for as many turns as there are ticks. -/
def loop (cron : CronTrigger) : CronLoop → List Tick → CronLoop
  | task, [] => task
  | task, t :: ts =>
    match task.turn parseCron cron t with
    | some task' => loop cron task' ts
    | none => task

def spawnLoop (cron : CronTrigger) (start : Int) (kv : Option (Option Int)) (b : Boot) (ts : List Tick) :
    CronLoop := loop parseCron cron (boot parseCron cron start kv b) ts

end CronLoop

end Triggers

end Mekhan
