import Mekhan.Infra.Runs

/-!
# Crawling a tree

`executor/crates/executor-file-ops/src/ops/crawl.rs`: the walk loop of `execute` with its in-flight window, its
batches, the cursor it resumes from and its exits. A cancellation can arrive between any two steps; the waits of the
loop are on the lister, on the oldest probe and on the emitter.

A path is as the user sees it. What is observed of a file besides its path, the sampler and the logs are left out, and
so are the errors of `stat`, of the emitter and of the lister other than an unreadable directory.
-/

namespace Mekhan

namespace Crawl

open Infra

/-- What the lister yields. -/
inductive Entry where
  | file (path : String)
  | directory (path : String)
  | unreadable
  deriving DecidableEq

def Entry.path? : Entry → Option String
  | file path => some path
  | directory _ | unreadable => none

/-- The files of a listing in its order. -/
def filesOf (entries : List Entry) : List String := entries.filterMap Entry.path?

/-- An unchanged tree, as the lister enumerates it. -/
structure Tree where
  entries : List Entry
  nodup : (filesOf entries).Nodup
  named : "" ∉ filesOf entries

def Tree.files (tree : Tree) : List String := filesOf tree.entries

/-- The options of a crawl. -/
structure CrawlConfig where
  batchSize : Nat
  maxBatches : Option Nat
  probeConcurrency : Nat
  /-- `list_with_start_after` of the storage. -/
  listWithStartAfter : Bool

namespace CrawlConfig

def batchCap (cfg : CrawlConfig) : Nat := max cfg.batchSize 1

def concurrency (cfg : CrawlConfig) : Nat := max cfg.probeConcurrency 1

end CrawlConfig

def maxConsecutiveListErrors : Nat := 100

/-- Whether the loop fills its window or drains it. -/
inductive Stage where
  | filling
  | draining
  | flushing
  | broken (cancelled stoppedByMax : Bool)
  | returned (cancelled exhausted : Bool)
  /-- An error: too many directories in a row could not be listed. -/
  | aborted
  /-- An error: the listing does not have the cursor, or it was left before the cursor came. -/
  | cursorNotFound (cancelled : Bool)
  deriving DecidableEq

/-- The state of the walk loop. -/
structure Walk where
  /-- `resume_from`, where it is not empty. -/
  resume : Option String
  lister : List Entry
  listerDone : Bool
  resumePassed : Bool
  consecutiveListErrors : Nat
  inflight : List String
  batch : List String
  total : Nat
  batchIdx : Nat
  lastPath : Option String
  cancelRequested : Bool
  emitted : List (List String)
  stage : Stage

inductive Action where
  | cancel
  | proceed

/-- A listing that starts after a path of it. Of a path that has vanished it lists nothing, where S3 goes on behind its
place: the tree is taken not to change between the runs of a crawl. -/
def startAfter (path : String) (entries : List Entry) : List Entry := (entries.dropWhile (· ≠ .file path)).tail

namespace Walk

/-- A walk from the cursor, or from the beginning where it is empty. -/
def start (cfg : CrawlConfig) (entries : List Entry) (resumeFrom : Option String) : Walk :=
  let resume := resumeFrom.filter (· ≠ "")
  { resume := resume
    lister :=
      match resume, cfg.listWithStartAfter with
      | some path, true => startAfter path entries
      | _, _ => entries
    listerDone := false
    resumePassed := resume.isNone || cfg.listWithStartAfter
    consecutiveListErrors := 0
    inflight := []
    batch := []
    total := 0
    batchIdx := 0
    lastPath := none
    cancelRequested := false
    emitted := []
    stage := .filling }

/-- One entry of the lister. -/
def pull (w : Walk) : Walk :=
  match w.lister with
  | [] => { w with listerDone := true }
  | .unreadable :: rest =>
    if maxConsecutiveListErrors < w.consecutiveListErrors + 1 then { w with stage := .aborted }
    else { w with lister := rest, consecutiveListErrors := w.consecutiveListErrors + 1 }
  | .directory _ :: rest => { w with lister := rest, consecutiveListErrors := 0 }
  | .file path :: rest =>
    if w.resumePassed then
      { w with lister := rest, consecutiveListErrors := 0, inflight := w.inflight ++ [path] }
    -- Skips up to and including the cursor.
    else { w with lister := rest, consecutiveListErrors := 0, resumePassed := decide (some path = w.resume) }

/-- The oldest probe is done, and its file joins the batch. -/
def drain (cfg : CrawlConfig) (w : Walk) (path : String) (inflight : List String) : Walk :=
  { w with
    inflight := inflight
    batch := w.batch ++ [path]
    total := w.total + 1
    lastPath := some path
    stage := if cfg.batchCap ≤ w.batch.length + 1 then .flushing else .filling }

/-- A full batch is handed over. -/
def emit (w : Walk) : Walk :=
  { w with emitted := w.emitted ++ [w.batch], batch := [], batchIdx := w.batchIdx + 1 }

/-- A full batch is emitted; then the cap and the cancellation are looked at. -/
def flush (cfg : CrawlConfig) (w : Walk) : Walk :=
  let w := w.emit
  if cfg.maxBatches.any (· ≤ w.batchIdx) then { w with stage := .broken false true }
  else if w.cancelRequested then { w with stage := .broken true false }
  else { w with stage := .filling }

/-- The rest is handed over, unless the walk was stopped. -/
def finish (w : Walk) (cancelled stoppedByMax : Bool) : Walk :=
  if w.resumePassed then
    let w := if !cancelled && !stoppedByMax && w.batch ≠ [] then w.emit else w
    { w with stage := .returned cancelled (!cancelled && !stoppedByMax) }
  else { w with stage := .cursorNotFound cancelled }

/-- One round of the loop. -/
def proceed (cfg : CrawlConfig) (w : Walk) : Option Walk :=
  match w.stage with
  | .filling =>
    if !w.listerDone && decide (w.inflight.length < cfg.concurrency) && !w.cancelRequested then some w.pull
    else if w.inflight = [] then some { w with stage := .broken w.cancelRequested false }
    else some { w with stage := .draining }
  | .draining =>
    -- The cancellation is looked at first.
    if w.cancelRequested then some { w with stage := .broken true false }
    else
      match w.inflight with
      | [] => some { w with stage := .filling }
      | path :: inflight => some (w.drain cfg path inflight)
  | .flushing => some (w.flush cfg)
  | .broken cancelled stoppedByMax => some (w.finish cancelled stoppedByMax)
  | .returned _ _ | .aborted | .cursorNotFound _ => none

def step (cfg : CrawlConfig) (w : Walk) : Action → Option Walk
  | .cancel => some { w with cancelRequested := true }
  | .proceed => w.proceed cfg

/-- The files that were handed over. -/
def items (w : Walk) : List String := w.emitted.flatten

end Walk

/-! ## Campaigns -/

/-- A crawl with the moments at which it is cancelled. -/
structure Run where
  cfg : CrawlConfig
  actions : List Action

/-- The run from a cursor on, if it comes to its end and reports. -/
def Run.report (tree : Tree) (resumeFrom : Option String) (r : Run) : Option Walk :=
  (exec (Walk.step r.cfg) (.start r.cfg tree.entries resumeFrom) r.actions).filter fun w =>
    match w.stage with
    | .returned _ _ => true
    | _ => false

/-- Every run goes on from the `last_path` of the one before, until one reports `exhausted`. -/
def campaign (tree : Tree) : Option String → List Run → Option (List Walk)
  | _, [] => none
  | resumeFrom, [r] => do
    let w ← r.report tree resumeFrom
    if w.stage = .returned false true then some [w] else none
  | resumeFrom, r :: rs => do
    let w ← r.report tree resumeFrom
    if w.stage = .returned false true then none
    else
      let ws ← campaign tree w.lastPath rs
      some (w :: ws)

end Crawl

end Mekhan
