import Patchbay.Submission
import Patchbay.Proofs.Compiler.Normalization
import Patchbay.Proofs.Submission.Seeds

/-!
What becomes of submitted requests, whatever the engine answers. Each is handled to its end before the next one
begins: its runs are sent one by one with the seeds advanced in between, up to the first run that is not accepted.
What a request leaves to the later ones is the source of random words: `processAll_handles`.
-/
set_option autoImplicit false

namespace Patchbay
namespace Worker

/-- What is sent for a document. -/
def prompt (w : Worker) (number : Int64) (doc : Document) : Except Failure PromptRequest :=
  (w.compiler.compile doc).result.map (·.toRequest number)

/-- Why there are no more runs after `accepted` of them, the calls of the engine that were not accepted, and what is
reported. `sent` are the prompts before, and `doc` the document then. -/
inductive Ending (w : Worker) (request : SubmitRequest) (sent : List PromptRequest) (doc : Document)
    (accepted : Nat) : List PromptRequest → Option Refusal → Prop where
  | complete (all : accepted = request.batchCount) : Ending w request sent doc accepted [] none
  | uncompiled (failure : Failure) (fewer : accepted < request.batchCount)
      (failed : (w.compiler.compile doc).result = .error failure) :
      Ending w request sent doc accepted [] (some (.uncompiled failure))
  | refused (prompt : PromptRequest) (refusal : Refusal) (fewer : accepted < request.batchCount)
      (compiled : w.prompt request.number doc = .ok prompt) (answer : w.engine sent prompt = .error refusal) :
      Ending w request sent doc accepted [prompt] (some refusal)

/-- A request was handled by these calls of the engine, of which the first `accepted` were accepted. -/
structure Handled (w : Worker) (request : SubmitRequest) (before after : WorkerState) (outcome : SubmitOutcome)
    (calls : List PromptRequest) (accepted : Nat) : Prop where
  accepted_le : accepted ≤ request.batchCount
  submitted : ∀ run < accepted, ∃ prompt receipt,
    w.prompt request.number (w.compiler.advanced request.document before.source run).1 = .ok prompt ∧
      calls[run]? = some prompt ∧ w.engine (before.sent ++ calls.take run) prompt = .ok receipt ∧
        outcome.receipts[run]? = some receipt
  receipts : outcome.receipts.length = accepted
  document : outcome.document = (w.compiler.advanced request.document before.source accepted).1
  source : after.source = (w.compiler.advanced request.document before.source accepted).2
  sent : after.sent = before.sent ++ calls
  ended : w.Ending request (before.sent ++ calls.take accepted) outcome.document accepted (calls.drop accepted)
    outcome.refusal

/-- Requests were handled one after the other, each by calls of its own. -/
inductive HandledAll (w : Worker) :
    WorkerState → List SubmitRequest → WorkerState → List SubmitOutcome → List (List PromptRequest) → Prop where
  | nil (state : WorkerState) : HandledAll w state [] state [] []
  | cons {before between after : WorkerState} {request : SubmitRequest} {rest : List SubmitRequest}
      {outcome : SubmitOutcome} {outcomes : List SubmitOutcome} {own : List PromptRequest}
      {calls : List (List PromptRequest)} {accepted : Nat}
      (first : w.Handled request before between outcome own accepted)
      (later : HandledAll w between rest after outcomes calls) :
      HandledAll w before (request :: rest) after (outcome :: outcomes) (own :: calls)

theorem Ending.refusal_eq_none_iff {w : Worker} {request : SubmitRequest} {sent calls : List PromptRequest}
    {doc : Document} {accepted : Nat} {refusal : Option Refusal}
    (ended : w.Ending request sent doc accepted calls refusal) : refusal = none ↔ accepted = request.batchCount := by
  cases ended with
  | complete all => exact iff_of_true rfl all
  | uncompiled failure fewer failed => exact iff_of_false (fun h => nomatch h) (Nat.ne_of_lt fewer)
  | refused prompt refusal fewer compiled answer => exact iff_of_false (fun h => nomatch h) (Nat.ne_of_lt fewer)

/-- One more run, and one more accepted. -/
theorem Ending.again {w : Worker} {number : Int64} {count accepted : Nat} {start doc : Document}
    {sent calls : List PromptRequest} {refusal : Option Refusal}
    (ended : w.Ending ⟨number, count, start⟩ sent doc accepted calls refusal) (first : Document) :
    w.Ending ⟨number, count + 1, first⟩ sent doc (accepted + 1) calls refusal := by
  cases ended with
  | complete all => exact .complete (congrArg (· + 1) all)
  | uncompiled failure fewer failed => exact .uncompiled failure (Nat.succ_lt_succ fewer) failed
  | refused prompt refusal fewer compiled answer =>
    exact .refused prompt refusal (Nat.succ_lt_succ fewer) compiled answer

/-! ### One run -/

section Runs

variable (w : Worker) (number : Int64) (state : WorkerState) (outcome : SubmitOutcome)

/-- What a run leaves behind if it is accepted. -/
def accept (compiled : CompiledPrompt) (receipt : Receipt) : WorkerState × SubmitOutcome :=
  let next := w.compiler.advanceSeeds outcome.document state.source
  (⟨state.sent ++ [compiled.toRequest number], next.2.2, w.keepSnapshot compiled state.snapshots⟩,
    { outcome with missing := compiled.missing, receipts := outcome.receipts ++ [receipt], document := next.1 })

theorem run_of_uncompiled {failure : Failure} (failed : (w.compiler.compile outcome.document).result = .error failure) :
    w.run number state outcome = (state, { outcome with refusal := some (.uncompiled failure) }, false) := by
  rw [run, failed]

theorem run_of_refused {compiled : CompiledPrompt} {refusal : Refusal}
    (ok : (w.compiler.compile outcome.document).result = .ok compiled)
    (answer : w.engine state.sent (compiled.toRequest number) = .error refusal) :
    w.run number state outcome = ({ state with sent := state.sent ++ [compiled.toRequest number] },
      { outcome with missing := compiled.missing, refusal := some refusal }, false) := by
  rw [run, ok]
  dsimp only
  rw [answer]

theorem run_of_accepted {compiled : CompiledPrompt} {receipt : Receipt}
    (ok : (w.compiler.compile outcome.document).result = .ok compiled)
    (answer : w.engine state.sent (compiled.toRequest number) = .ok receipt) :
    w.run number state outcome = ((w.accept number state outcome compiled receipt).1,
      (w.accept number state outcome compiled receipt).2, true) := by
  rw [run, ok]
  dsimp only
  rw [answer]
  rfl

theorem prompt_of_compiled {doc : Document} {compiled : CompiledPrompt}
    (ok : (w.compiler.compile doc).result = .ok compiled) : w.prompt number doc = .ok (compiled.toRequest number) := by
  rw [prompt, ok]
  rfl

end Runs

/-! ### The runs of a request -/

/-- Nothing was accepted. -/
theorem Ending.handled {w : Worker} {request : SubmitRequest} {before after : WorkerState} {missing : List String}
    {calls : List PromptRequest} {refusal : Option Refusal}
    (ended : w.Ending request before.sent request.document 0 calls refusal) (sent : after.sent = before.sent ++ calls)
    (source : after.source = before.source) :
    w.Handled request before after ⟨[], refusal, request.document, missing⟩ calls 0 where
  accepted_le := Nat.zero_le _
  submitted run below := absurd below (Nat.not_lt_zero run)
  receipts := rfl
  document := rfl
  source := source
  sent := sent
  ended := by
    rw [List.take_zero, List.append_nil]
    exact ended

/-- An accepted run, and what becomes of the others. -/
theorem Handled.accepted {w : Worker} {number : Int64} {count accepted : Nat} {state after : WorkerState}
    {first last : SubmitOutcome} {compiled : CompiledPrompt} {receipt : Receipt} {calls : List PromptRequest}
    (ok : (w.compiler.compile first.document).result = .ok compiled)
    (answer : w.engine state.sent (compiled.toRequest number) = .ok receipt)
    (later : w.Handled ⟨number, count, (w.accept number state first compiled receipt).2.document⟩
      (w.accept number state first compiled receipt).1 after last calls accepted) :
    w.Handled ⟨number, count + 1, first.document⟩ state after { last with receipts := receipt :: last.receipts }
      (compiled.toRequest number :: calls) (accepted + 1) where
  accepted_le := Nat.succ_le_succ later.accepted_le
  submitted run below := by
    cases run with
    | zero =>
      refine ⟨_, receipt, w.prompt_of_compiled number ok, rfl, ?_, rfl⟩
      rw [List.take_zero, List.append_nil]
      exact answer
    | succ run =>
      obtain ⟨prompt, other, prompted, called, answered, received⟩ := later.submitted run (Nat.lt_of_succ_lt_succ below)
      refine ⟨prompt, other, ?_, called, ?_, received⟩
      · rw [← Compiler.advanced_succ]
        exact prompted
      · rw [List.take_succ_cons, List.append_cons]
        exact answered
  receipts := congrArg (· + 1) later.receipts
  document := by
    rw [← Compiler.advanced_succ]
    exact later.document
  source := by
    rw [← Compiler.advanced_succ]
    exact later.source
  sent := by
    rw [later.sent, List.append_cons]
    rfl
  ended := by
    rw [List.take_succ_cons, List.drop_succ_cons, List.append_cons]
    exact later.ended.again first.document

theorem runBatch_handled (w : Worker) (number : Int64) (count : Nat) (state : WorkerState) (outcome : SubmitOutcome)
    (clear : outcome.refusal = none) :
    ∃ receipts calls accepted,
      (w.runBatch number count state outcome).2.receipts = outcome.receipts ++ receipts ∧
        w.Handled ⟨number, count, outcome.document⟩ state (w.runBatch number count state outcome).1
          { (w.runBatch number count state outcome).2 with receipts := receipts } calls accepted := by
  induction count generalizing state outcome with
  | zero =>
    refine ⟨[], [], 0, (List.append_nil _).symm, ?_⟩
    rw [runBatch]
    have ended : w.Ending ⟨number, 0, outcome.document⟩ state.sent outcome.document 0 [] outcome.refusal := by
      rw [clear]
      exact .complete rfl
    exact ended.handled (List.append_nil _).symm rfl
  | succ count ih =>
    cases ok : (w.compiler.compile outcome.document).result with
    | error failure =>
      rw [runBatch, w.run_of_uncompiled number state outcome ok]
      exact ⟨[], [], 0, (List.append_nil _).symm,
        (Ending.uncompiled failure (Nat.succ_pos count) ok).handled (List.append_nil _).symm rfl⟩
    | ok compiled =>
      cases answer : w.engine state.sent (compiled.toRequest number) with
      | error refusal =>
        rw [runBatch, w.run_of_refused number state outcome ok answer]
        exact ⟨[], [compiled.toRequest number], 0, (List.append_nil _).symm,
          (Ending.refused _ refusal (Nat.succ_pos count) (w.prompt_of_compiled number ok) answer).handled rfl rfl⟩
      | ok receipt =>
        rw [runBatch, w.run_of_accepted number state outcome ok answer]
        obtain ⟨receipts, calls, accepted, received, later⟩ := ih (w.accept number state outcome compiled receipt).1
          (w.accept number state outcome compiled receipt).2 clear
        refine ⟨receipt :: receipts, compiled.toRequest number :: calls, accepted + 1, ?_, .accepted ok answer later⟩
        rw [received, List.append_cons]
        rfl

theorem process_handled (w : Worker) (state : WorkerState) (request : SubmitRequest) :
    ∃ calls accepted,
      w.Handled request state (w.process state request).1 (w.process state request).2 calls accepted := by
  obtain ⟨receipts, calls, accepted, received, handled⟩ :=
    w.runBatch_handled request.number request.batchCount state ⟨[], none, request.document, []⟩ rfl
  rw [List.nil_append] at received
  rw [← received] at handled
  exact ⟨calls, accepted, handled⟩

/-! ### All requests -/

theorem processAll_handled (w : Worker) (state : WorkerState) (requests : List SubmitRequest) :
    ∃ calls, w.HandledAll state requests (w.processAll state requests).1 (w.processAll state requests).2 calls := by
  induction requests generalizing state with
  | nil => exact ⟨[], .nil state⟩
  | cons request rest ih =>
    obtain ⟨own, accepted, first⟩ := w.process_handled state request
    obtain ⟨calls, later⟩ := ih (w.process state request).1
    exact ⟨own :: calls, .cons first later⟩

theorem HandledAll.sent {w : Worker} {before after : WorkerState} {requests : List SubmitRequest}
    {outcomes : List SubmitOutcome} {calls : List (List PromptRequest)}
    (handled : w.HandledAll before requests after outcomes calls) : after.sent = before.sent ++ calls.flatten := by
  induction handled with
  | nil state => exact (List.append_nil _).symm
  | cons first later ih => rw [ih, first.sent, List.flatten_cons, List.append_assoc]

/-- What an outcome says of its request: only seeds have moved, and no refusal means that all runs were accepted. -/
structure Settles (w : Worker) (request : SubmitRequest) (outcome : SubmitOutcome) : Prop where
  document : request.document.SameUnseeded w.compiler.registry outcome.document
  refusal : outcome.refusal = none ↔ outcome.receipts.length = request.batchCount

theorem Handled.settles {w : Worker} {request : SubmitRequest} {before after : WorkerState} {outcome : SubmitOutcome}
    {calls : List PromptRequest} {accepted : Nat}
    (handled : w.Handled request before after outcome calls accepted) : w.Settles request outcome where
  document := by
    rw [handled.document]
    exact w.compiler.sameUnseeded_advanced request.document before.source accepted
  refusal := by
    rw [handled.receipts]
    exact handled.ended.refusal_eq_none_iff

theorem HandledAll.settles {w : Worker} {before after : WorkerState} {requests : List SubmitRequest}
    {outcomes : List SubmitOutcome} {calls : List (List PromptRequest)}
    (handled : w.HandledAll before requests after outcomes calls) : List.Forall₂ w.Settles requests outcomes := by
  induction handled with
  | nil state => exact .nil
  | cons first later ih => exact .cons first.settles ih

/-! ### What a request leaves to the others -/

/-- Two states from which two engines answer alike, whatever was sent before. -/
structure Alike (first second : Engine) (a b : WorkerState) : Prop where
  source : a.source = b.source
  answers : ∀ more prompt, first (a.sent ++ more) prompt = second (b.sent ++ more) prompt

/-- From `a` to `a'` and from `b` to `b'` the same was sent, kept and drawn. -/
structure SameSteps (a b a' b' : WorkerState) : Prop where
  source : a'.source = b'.source
  sent : ∃ calls, a'.sent = a.sent ++ calls ∧ b'.sent = b.sent ++ calls
  snapshots : ∃ texts, a'.snapshots = a.snapshots ++ texts ∧ b'.snapshots = b.snapshots ++ texts

theorem SameSteps.refl {a b : WorkerState} (source : a.source = b.source) : SameSteps a b a b :=
  ⟨source, ⟨[], (List.append_nil _).symm, (List.append_nil _).symm⟩,
    [], (List.append_nil _).symm, (List.append_nil _).symm⟩

theorem SameSteps.trans {a b c d e f : WorkerState} (first : SameSteps a b c d) (second : SameSteps c d e f) :
    SameSteps a b e f := by
  obtain ⟨_, ⟨calls, leftSent, rightSent⟩, texts, leftKept, rightKept⟩ := first
  obtain ⟨source, ⟨moreCalls, leftMore, rightMore⟩, moreTexts, leftLater, rightLater⟩ := second
  refine ⟨source, ⟨calls ++ moreCalls, ?_, ?_⟩, texts ++ moreTexts, ?_, ?_⟩
  · rw [leftMore, leftSent, List.append_assoc]
  · rw [rightMore, rightSent, List.append_assoc]
  · rw [leftLater, leftKept, List.append_assoc]
  · rw [rightLater, rightKept, List.append_assoc]

theorem Alike.after {first second : Engine} {a b a' b' : WorkerState} (alike : Alike first second a b)
    (steps : SameSteps a b a' b') : Alike first second a' b' := by
  obtain ⟨source, ⟨calls, left, right⟩, _⟩ := steps
  refine ⟨source, fun more prompt => ?_⟩
  rw [left, right, List.append_assoc, List.append_assoc]
  exact alike.answers (calls ++ more) prompt

theorem sameSteps_accept (c : Compiler) (first second : Engine) (number : Int64) {a b : WorkerState}
    (source : a.source = b.source) (outcome : SubmitOutcome) (compiled : CompiledPrompt) (receipt : Receipt) :
    (accept ⟨c, first⟩ number a outcome compiled receipt).2 = (accept ⟨c, second⟩ number b outcome compiled receipt).2 ∧
      SameSteps a b (accept ⟨c, first⟩ number a outcome compiled receipt).1
        (accept ⟨c, second⟩ number b outcome compiled receipt).1 := by
  refine ⟨by rw [accept, accept, source], by rw [accept, accept, source], ⟨_, rfl, rfl⟩, ?_⟩
  unfold accept keepSnapshot
  split
  · exact ⟨_, rfl, rfl⟩
  · exact ⟨[], (List.append_nil _).symm, (List.append_nil _).symm⟩

theorem runBatch_alike (c : Compiler) {first second : Engine} (number : Int64) (count : Nat) {a b : WorkerState}
    (alike : Alike first second a b) (outcome : SubmitOutcome) :
    (runBatch ⟨c, first⟩ number count a outcome).2 = (runBatch ⟨c, second⟩ number count b outcome).2 ∧
      SameSteps a b (runBatch ⟨c, first⟩ number count a outcome).1 (runBatch ⟨c, second⟩ number count b outcome).1 := by
  induction count generalizing a b outcome with
  | zero => exact ⟨rfl, .refl alike.source⟩
  | succ count ih =>
    rw [runBatch, runBatch]
    cases ok : (c.compile outcome.document).result with
    | error failure =>
      rw [run_of_uncompiled ⟨c, first⟩ number a outcome ok, run_of_uncompiled ⟨c, second⟩ number b outcome ok]
      exact ⟨rfl, .refl alike.source⟩
    | ok compiled =>
      have answers := alike.answers [] (compiled.toRequest number)
      rw [List.append_nil, List.append_nil] at answers
      cases answer : second b.sent (compiled.toRequest number) with
      | error refusal =>
        rw [answer] at answers
        rw [run_of_refused ⟨c, first⟩ number a outcome ok answers,
          run_of_refused ⟨c, second⟩ number b outcome ok answer]
        exact ⟨rfl, alike.source, ⟨_, rfl, rfl⟩, [], (List.append_nil _).symm, (List.append_nil _).symm⟩
      | ok receipt =>
        rw [answer] at answers
        rw [run_of_accepted ⟨c, first⟩ number a outcome ok answers,
          run_of_accepted ⟨c, second⟩ number b outcome ok answer]
        obtain ⟨same, steps⟩ := sameSteps_accept c first second number alike.source outcome compiled receipt
        obtain ⟨outcomes, later⟩ :=
          ih (alike.after steps) (accept ⟨c, second⟩ number b outcome compiled receipt).2
        dsimp only
        rw [same]
        exact ⟨outcomes, steps.trans later⟩

theorem processAll_alike (c : Compiler) {first second : Engine} {a b : WorkerState} (alike : Alike first second a b)
    (requests : List SubmitRequest) :
    (processAll ⟨c, first⟩ a requests).2 = (processAll ⟨c, second⟩ b requests).2 ∧
      SameSteps a b (processAll ⟨c, first⟩ a requests).1 (processAll ⟨c, second⟩ b requests).1 := by
  induction requests generalizing a b with
  | nil => exact ⟨rfl, .refl alike.source⟩
  | cons request rest ih =>
    obtain ⟨same, steps⟩ :=
      runBatch_alike c request.number request.batchCount alike ⟨[], none, request.document, []⟩
    obtain ⟨outcomes, later⟩ := ih (alike.after steps)
    exact ⟨congrArg₂ List.cons same outcomes, steps.trans later⟩

theorem processAll_append (w : Worker) (state : WorkerState) (before after : List SubmitRequest) :
    w.processAll state (before ++ after) = ((w.processAll (w.processAll state before).1 after).1,
      (w.processAll state before).2 ++ (w.processAll (w.processAll state before).1 after).2) := by
  induction before generalizing state with
  | nil => rfl
  | cons request rest ih =>
    have later := ih (w.process state request).1
    rw [List.cons_append, processAll]
    dsimp only
    rw [later]
    rfl

/-- The state that requests leave. -/
def left (w : Worker) (start : WorkerState) (requests : List SubmitRequest) : WorkerState :=
  (w.processAll start requests).1

def outcomes (w : Worker) (start : WorkerState) (requests : List SubmitRequest) : List SubmitOutcome :=
  (w.processAll start requests).2

theorem outcomes_append (w : Worker) (start : WorkerState) (before after : List SubmitRequest) :
    w.outcomes start (before ++ after) = w.outcomes start before ++ w.outcomes (w.left start before) after := by
  rw [outcomes, processAll_append]
  rfl

/-- A request makes no difference to the others but by the random words that it takes. Those before it do not notice
it; those after it come to the same outcomes, calls and snapshots as they would have done without it, had only the
words been taken, from an engine that answers them alike. -/
structure Isolated (w : Worker) (start : WorkerState) (before : List SubmitRequest) (request : SubmitRequest)
    (after : List SubmitRequest) : Prop where
  outcomes : w.outcomes start (before ++ request :: after) =
    w.outcomes start before ++ w.outcomes (w.left start before) [request] ++
      w.outcomes (w.left start (before ++ [request])) after
  sourceOnly : ∀ engine : Engine,
    (∀ more prompt, engine ((w.left start before).sent ++ more) prompt =
      w.engine ((w.left start (before ++ [request])).sent ++ more) prompt) →
      let spared := { w.left start before with source := (w.left start (before ++ [request])).source }
      Worker.outcomes ⟨w.compiler, engine⟩ spared after = w.outcomes (w.left start (before ++ [request])) after ∧
        SameSteps spared (w.left start (before ++ [request])) (Worker.left ⟨w.compiler, engine⟩ spared after)
          (w.left (w.left start (before ++ [request])) after)

theorem isolated (w : Worker) (start : WorkerState) (before : List SubmitRequest) (request : SubmitRequest)
    (after : List SubmitRequest) : w.Isolated start before request after where
  outcomes := by
    rw [List.append_cons, outcomes_append, outcomes_append]
  sourceOnly engine answers := by
    have alike : Alike engine w.engine
        { w.left start before with source := (w.left start (before ++ [request])).source }
        (w.left start (before ++ [request])) := ⟨rfl, answers⟩
    exact processAll_alike w.compiler alike after

theorem foldlM_submit (requests waiting : List SubmitRequest) :
    requests.foldlM SubmissionQueue.submit ⟨waiting, true⟩ = .ok ⟨waiting ++ requests, true⟩ := by
  induction requests generalizing waiting with
  | nil => rw [List.append_nil]; rfl
  | cons request rest ih =>
    rw [List.append_cons]
    exact ih (waiting ++ [request])

-- One operation with a seed; the engine takes no second run of request 2.
def lottery : Compiler :=
  let sampler := (Operation.named "Sampler").addRequired "seed" (.text "INT")
  ⟨Registry.standard.insert (sampler.addOutput "LATENT" "latent"), .standard, []⟩

def wary : Engine := fun sent prompt =>
  if prompt.number = 2 ∧ sent.any (·.number = 2) then .error (.rejected "full" "" .empty)
  else .ok ⟨"prompt-" ++ toString sent.length, prompt.number, .empty⟩

def drawing (number : Int64) (batchCount : Nat) (seed : Nat) (control : String) : SubmitRequest where
  number := number
  batchCount := batchCount
  document := { Document.empty with
    nodes := [{ Node.plain (.number 1) "Sampler" with widgets := some [.ofNat seed, .text control] }]
    supportsFlow := true }

def idle : WorkerState := ⟨[], .zeros, []⟩

def drawings : List SubmitRequest :=
  [drawing 1 2 5 "increment", drawing 2 3 7 "decrement", drawing 3 1 9 "randomize"]

/-- Answers as the wary engine does where it has seen request 2 as well. -/
def wise : Engine := fun sent prompt =>
  wary ((left ⟨lottery, wary⟩ idle (drawings.take 2)).sent ++ sent.drop 2) prompt

end Worker
end Patchbay
