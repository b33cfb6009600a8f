import Patchbay.Engine

/-!
Submitting documents to an engine, one run at a time in the order of arrival. Seeds are advanced after
every accepted run, so that each run of a request gets its own.
-/
set_option autoImplicit false

namespace Patchbay

/-- A document to be compiled and run so many times. -/
structure SubmitRequest where
  number : Int64
  batchCount : Nat
  document : Document

/-- What became of a request. -/
structure SubmitOutcome where
  receipts : List Receipt
  refusal : Option Refusal
  /-- The document with its seeds advanced past every accepted run. -/
  document : Document
  missing : List String

/-- An engine answers a prompt; it may remember the prompts before it. -/
abbrev Engine := List PromptRequest → PromptRequest → Except Refusal Receipt

/-- What lasts from run to run: the prompts sent so far, the source of random words, and the texts that
were to be kept as snapshots. -/
structure WorkerState where
  sent : List PromptRequest
  source : WordSource
  snapshots : List String

structure Worker where
  compiler : Compiler
  engine : Engine

namespace Worker

def keepSnapshot (w : Worker) (compiled : CompiledPrompt) (snapshots : List String) : List String :=
  if w.compiler.settings.snapshotPath.isSome then snapshots ++ [compiled.workflow.render]
  else snapshots

/-- One run: compile, send, and on acceptance keep a snapshot and advance the seeds. The flag says
whether the run was accepted. -/
def run (w : Worker) (number : Int64) (state : WorkerState) (outcome : SubmitOutcome) :
    WorkerState × SubmitOutcome × Bool :=
  match (w.compiler.compile outcome.document).result with
  | .error failure => (state, { outcome with refusal := some (.uncompiled failure) }, false)
  | .ok compiled =>
    let outcome := { outcome with missing := compiled.missing }
    let request := compiled.toRequest number
    let sent := state.sent ++ [request]
    match w.engine state.sent request with
    | .error refusal => ({ state with sent := sent }, { outcome with refusal := some refusal }, false)
    | .ok receipt =>
      let (document, _, source) := w.compiler.advanceSeeds outcome.document state.source
      (⟨sent, source, w.keepSnapshot compiled state.snapshots⟩,
        { outcome with receipts := outcome.receipts ++ [receipt], document := document }, true)

/-- Runs of one request, up to the first that is not accepted. -/
def runBatch (w : Worker) (number : Int64) :
    Nat → WorkerState → SubmitOutcome → WorkerState × SubmitOutcome
  | 0, state, outcome => (state, outcome)
  | count + 1, state, outcome =>
    match w.run number state outcome with
    | (state, outcome, true) => runBatch w number count state outcome
    | (state, outcome, false) => (state, outcome)

def process (w : Worker) (state : WorkerState) (request : SubmitRequest) :
    WorkerState × SubmitOutcome :=
  w.runBatch request.number request.batchCount state ⟨[], none, request.document, []⟩

/-- Requests in the order of their arrival. -/
def processAll (w : Worker) : WorkerState → List SubmitRequest → WorkerState × List SubmitOutcome
  | state, [] => (state, [])
  | state, request :: rest =>
    let (state, outcome) := w.process state request
    let (state, outcomes) := processAll w state rest
    (state, outcome :: outcomes)

end Worker

/-- Requests that wait for the worker. A queue whose worker has stopped takes no more. -/
structure SubmissionQueue where
  waiting : List SubmitRequest
  hasWorker : Bool

namespace SubmissionQueue

def empty : SubmissionQueue := ⟨[], true⟩

def stopWorker (queue : SubmissionQueue) : SubmissionQueue := { queue with hasWorker := false }

/-- Puts a request at the end of the queue. -/
def submit (queue : SubmissionQueue) (request : SubmitRequest) : Except Refusal SubmissionQueue :=
  if queue.hasWorker then .ok { queue with waiting := queue.waiting ++ [request] }
  else .error (.transport "submission worker has stopped")

end SubmissionQueue
end Patchbay
