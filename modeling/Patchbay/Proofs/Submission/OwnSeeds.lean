import Patchbay.Proofs.Submission.Bounds
import Patchbay.Proofs.Submission.Runs

/-!
The seeds that the runs of one request get while a control steps them up. They are numbered on from the stored one up to
a cap, and from there on they repeat: `Worker.process_seeds`.
-/
set_option autoImplicit false

namespace Patchbay

/-! ### One document -/

namespace SeedPass

theorem getElem?_step_of_none {layout : List WidgetSpec} {pass : SeedPass} {place : Nat} (index : Nat)
    (plain : (pass.values[place]?).bind Json.int64? = none) :
    (pass.step layout index).values[place]? = pass.values[place]? := by
  by_cases here : index = place
  · subst here
    unfold step
    split
    · next current => rw [plain] at current; cases current
    · rfl
  · exact getElem?_step_ne layout pass here

-- What is no signed word is no seed, wherever it stands.
theorem getElem?_foldl_step_of_none {layout : List WidgetSpec} (indices : List Nat) {pass : SeedPass} {place : Nat}
    (plain : (pass.values[place]?).bind Json.int64? = none) :
    (indices.foldl (step layout) pass).values[place]? = pass.values[place]? := by
  induction indices generalizing pass with
  | nil => rfl
  | cons head rest ih =>
    have kept : (step layout pass head).values[place]? = pass.values[place]? := getElem?_step_of_none head plain
    rw [List.foldl_cons, ih (by rw [kept, plain]), kept]

end SeedPass

namespace Node

variable {op : Operation} {r : Registry} {node : Node} {index : Nat} {spec : WidgetSpec} {value control : Json}

-- The control is still there, even where its own place is followed by another one.
theorem Controlled.advanceSeeds (controlled : node.Controlled (op.layout r) index spec value control)
    (plain : control.int64? = none) (source : WordSource) :
    ∃ drawn, (node.advanceSeeds op r source).1.Controlled (op.layout r) index spec
      (SeedPass.settled spec value control drawn) control := by
  obtain ⟨drawn, final⟩ := controlled.settled source
  refine ⟨drawn, controlled.place, controlled.marked, final, ?_⟩
  obtain ⟨values, widgets, follows⟩ := Option.bind_eq_some_iff.1 controlled.control
  rw [Node.advanceSeeds, widgets]
  have still : ((SeedPass.mk values source false).values[index + 1]?).bind Json.int64? = none := by
    rw [follows, Option.bind_some, plain]
  exact (SeedPass.getElem?_foldl_step_of_none _ still).trans follows

end Node

namespace Compiler

theorem getElem?_foldl_advanceNode {defs : Definitions} {nodes : List Node} (run : SeedRun) {place : Nat} {node : Node}
    {op : Operation} (found : nodes[place]? = some node) (known : defs.operation? node.type = some op) :
    ∃ source, (nodes.foldl (advanceNode defs) run).nodes[run.nodes.length + place]? =
      some (node.advanceSeeds op defs.registry source).1 := by
  induction nodes generalizing run place with
  | nil => cases found
  | cons head rest ih =>
    rw [List.foldl_cons]
    cases place with
    | zero =>
      obtain rfl : head = node := Option.some.inj found
      have here : (advanceNode defs run head).nodes = run.nodes ++ [(head.advanceSeeds op defs.registry run.source).1] := by
        rw [advanceNode, known]
      obtain ⟨later, final, _⟩ := nodes_foldl_advanceNode defs rest (advanceNode defs run head)
      refine ⟨run.source, ?_⟩
      rw [final, here, List.append_assoc, Nat.add_zero, List.getElem?_append_right (Nat.le_refl _), Nat.sub_self]
      rfl
    | succ place =>
      have one : (advanceNode defs run head).nodes.length = run.nodes.length + 1 := by
        unfold advanceNode
        split <;> exact List.length_append
      have later : rest[place]? = some node := found
      obtain ⟨source, there⟩ := ih (advanceNode defs run head) later
      rw [one, Nat.add_right_comm, Nat.add_assoc] at there
      exact ⟨source, there⟩

end Compiler

namespace Document

/-- The definitions by which the seeds of a document are advanced. -/
def seedDefinitions (doc : Document) (r : Registry) : Definitions := .withGroups r doc.extra.groups

/-- A node of a document holds an integer that is stepped up after every run. -/
structure Counts (r : Registry) (doc : Document) (place index : Nat) (spec : WidgetSpec) (node : Node) (value : Json)
    (seed : Int) : Prop where
  found : doc.nodes[place]? = some node
  controlled : node.Controlled ((doc.seedDefinitions r).layout node) index spec value (.text "increment")
  holds : value.integer? = some seed
  narrow : seed < 2 ^ 63

-- The integer at a place among the widget values of the node at a place.
def seed? (doc : Document) (place index : Nat) : Option Int :=
  ((doc.nodes[place]?).bind (·.widgets.bind (·[index]?))).bind Json.integer?

theorem Counts.seed?_eq {r : Registry} {doc : Document} {place index : Nat} {spec : WidgetSpec} {node : Node}
    {value : Json} {seed : Int} (counts : doc.Counts r place index spec node value seed) :
    doc.seed? place index = some seed := by
  rw [seed?, counts.found, Option.bind_some, counts.controlled.value, Option.bind_some, counts.holds]

end Document

-- Steps go no further than this, unless the lower bound lies higher.
def WidgetSpec.cap (spec : WidgetSpec) : Int := max spec.declaredLow (min spec.declaredHigh (2 ^ 50))

theorem Document.Counts.advanceSeeds {c : Compiler} {doc : Document} {place index : Nat} {spec : WidgetSpec} {node : Node}
    {value : Json} {seed : Int} (counts : doc.Counts c.registry place index spec node value seed) (source : WordSource) :
    ∃ node value, (c.advanceSeeds doc source).1.Counts c.registry place index spec node value
      (min (seed + 1) spec.cap) := by
  have controlled := counts.controlled
  cases known : (doc.seedDefinitions c.registry).operation? node.type with
  | none =>
    have place := controlled.place
    rw [Definitions.layout, known] at place
    cases place
  | some op =>
    rw [Definitions.layout, known] at controlled
    obtain ⟨drawn, there⟩ := Compiler.getElem?_foldl_advanceNode ⟨[], 0, source⟩ counts.found known
    rw [List.length_nil, Nat.zero_add] at there
    obtain ⟨other, advanced⟩ := controlled.advanceSeeds rfl drawn
    have type := (node.sameUnseeded_advanceSeeds op (doc.seedDefinitions c.registry).registry drawn).type_eq
    obtain ⟨word, read⟩ : ∃ word, value.int64? = some word := by
      cases read : value.int64? with
      | none => exact absurd (Json.le_of_int64?_eq_none counts.holds read) (by have := counts.narrow; omega)
      | some word => exact ⟨word, rfl⟩
    have same := Json.int64?_eq_some_iff.1 read
    rw [counts.holds, Option.some.injEq] at same
    obtain ⟨next, reached, leads⟩ := SeedPass.settled_leads read spec (.text "increment") other
    obtain ⟨low, high⟩ := spec.toInt_seedBounds
    have step : next.toInt = min (seed + 1) spec.cap := by
      rw [low, high, ← same] at leads
      exact leads
    refine ⟨_, SeedPass.settled spec value (.text "increment") other, there, ?_, ?_, step ▸ next.toInt_lt⟩
    · have layout : (doc.seedDefinitions c.registry).layout
          (node.advanceSeeds op (doc.seedDefinitions c.registry).registry drawn).1 =
          op.layout (doc.seedDefinitions c.registry).registry := by
        rw [Definitions.layout, type, known]
      exact layout.symm ▸ advanced
    · rw [← step]
      exact Json.int64?_eq_some_iff.1 reached

/-! ### The runs of a request -/

-- The seed of a run where steps go up to a cap. Only the stored seed may lie above it.
def numbered (seed cap : Int) (run : Nat) : Int := if run = 0 then seed else min (seed + run) cap

theorem numbered_succ (seed cap : Int) (run : Nat) :
    numbered seed cap (run + 1) = min (numbered seed cap run + 1) cap := by
  unfold numbered
  rw [if_neg (Nat.succ_ne_zero run)]
  split <;> omega

theorem numbered_consecutive_iff (seed cap : Int) (runs : Nat) :
    (∀ run < runs, numbered seed cap run = seed + run) ↔ runs ≤ 1 ∨ seed + runs ≤ cap + 1 := by
  unfold numbered
  constructor
  · intro all
    by_cases few : runs ≤ 1
    · exact .inl few
    · have last := all (runs - 1) (by omega)
      rw [if_neg (by omega)] at last
      omega
  · intro room run below
    split <;> omega

theorem nodup_numbered_iff (seed cap : Int) (runs : Nat) :
    ((List.range runs).map (numbered seed cap)).Nodup ↔
      (runs ≤ 1 ∨ seed + runs ≤ cap + 1) ∨ runs = 2 ∧ cap < seed := by
  rw [List.nodup_map_iff_inj_on List.nodup_range]
  simp only [List.mem_range]
  constructor
  · intro distinct
    by_contra full
    -- the last two runs are both at the cap
    have same := distinct (runs - 2) (by omega) (runs - 1) (by omega) (by unfold numbered; split <;> split <;> omega)
    omega
  · intro room x xs y ys same
    unfold numbered at same
    split at same <;> split at same <;> omega

theorem Document.Counts.advanced {c : Compiler} {doc : Document} {place index : Nat} {spec : WidgetSpec} {node : Node}
    {value : Json} {seed : Int} (counts : doc.Counts c.registry place index spec node value seed) (source : WordSource)
    (run : Nat) : ∃ node value, (c.advanced doc source run).1.Counts c.registry place index spec node value
      (numbered seed spec.cap run) := by
  induction run with
  | zero => exact ⟨node, value, counts⟩
  | succ run ih =>
    obtain ⟨_, _, before⟩ := ih
    rw [numbered_succ]
    exact before.advanceSeeds _

namespace Worker

-- The documents that are compiled for the runs of a request as long as all are accepted.
def runDocuments (w : Worker) (state : WorkerState) (request : SubmitRequest) : List Document :=
  (List.range request.batchCount).map fun run => (w.compiler.advanced request.document state.source run).1

theorem Ending.calls_eq_nil {w : Worker} {request : SubmitRequest} {sent calls : List PromptRequest} {doc : Document}
    {accepted : Nat} {refusal : Option Refusal} (ended : w.Ending request sent doc accepted calls refusal)
    (all : accepted = request.batchCount) : calls = [] := by
  cases ended with
  | complete => rfl
  | uncompiled failure fewer => omega
  | refused prompt refusal fewer => omega

theorem Handled.runDocuments {w : Worker} {request : SubmitRequest} {before after : WorkerState} {outcome : SubmitOutcome}
    {calls : List PromptRequest} {accepted : Nat} (handled : w.Handled request before after outcome calls accepted)
    (all : accepted = request.batchCount) :
    List.Forall₂ (fun doc prompt => w.prompt request.number doc = .ok prompt) (w.runDocuments before request) calls := by
  subst all
  have most : calls.length ≤ request.batchCount := List.drop_eq_nil_iff.1 (handled.ended.calls_eq_nil rfl)
  have least : request.batchCount ≤ calls.length := by
    by_contra fewer
    obtain ⟨_, _, _, called, _⟩ := handled.submitted calls.length (by omega)
    rw [List.getElem?_eq_none (Nat.le_refl _)] at called
    cases called
  rw [List.forall₂_iff_get]
  refine ⟨by rw [Worker.runDocuments, List.length_map, List.length_range]; omega, fun run below within => ?_⟩
  obtain ⟨prompt, _, prompted, called, _⟩ := handled.submitted run (by omega)
  rw [List.getElem?_eq_getElem within, Option.some.injEq] at called
  simp only [Worker.runDocuments, List.get_eq_getElem, List.getElem_map, List.getElem_range, called, prompted]

/-- The seeds of the runs of a request that are all accepted, where a control steps them up: they are numbered on from
the stored one exactly as far as the cap, which is 2^50 for every seed that may be declared to go further. -/
theorem process_seeds (w : Worker) (state : WorkerState) (request : SubmitRequest) {place index : Nat} {spec : WidgetSpec}
    {node : Node} {value : Json} {seed : Int}
    (counts : request.document.Counts w.compiler.registry place index spec node value seed)
    (accepted : (w.process state request).2.refusal = none) :
    let runs := request.batchCount
    let seeds := (w.runDocuments state request).map (·.seed? place index)
    (∃ calls, (w.process state request).1.sent = state.sent ++ calls ∧
      List.Forall₂ (fun doc prompt => w.prompt request.number doc = .ok prompt) (w.runDocuments state request) calls) ∧
      seeds = (List.range runs).map (fun run => some (numbered seed spec.cap run)) ∧
      (seeds = (List.range runs).map (fun run : Nat => some (seed + (run : Int))) ↔ runs ≤ 1 ∨ seed + runs ≤ spec.cap + 1) ∧
      (seeds.Nodup ↔ (runs ≤ 1 ∨ seed + runs ≤ spec.cap + 1) ∨ runs = 2 ∧ spec.cap < seed) ∧
      (seed + runs ≤ spec.declaredHigh →
        (seed + runs ≤ spec.cap + 1 ↔ seed + runs ≤ max spec.declaredLow (2 ^ 50) + 1)) := by
  intro runs seeds
  obtain ⟨calls, count, handled⟩ := w.process_handled state request
  have found : seeds = (List.range runs).map (fun run => some (numbered seed spec.cap run)) := by
    refine List.map_map.trans (List.map_congr_left fun run _ => ?_)
    obtain ⟨_, _, later⟩ := counts.advanced state.source run
    exact later.seed?_eq
  refine ⟨⟨calls, handled.sent, handled.runDocuments (handled.ended.refusal_eq_none_iff.1 accepted)⟩, found, ?_, ?_, ?_⟩
  · rw [found, List.map_inj_left, ← numbered_consecutive_iff]
    simp only [List.mem_range, Option.some.injEq, runs]
  · rw [found, ← nodup_numbered_iff, ← List.nodup_map_iff (Option.some_injective Int), List.map_map]
    rfl
  · intro room
    rw [WidgetSpec.cap]
    omega

-- A seed that may go as far as signed words do, and an engine that takes every run.
def farSampler : Operation :=
  (Operation.named "Sampler").addRequired "seed"
    (.array [.text "INT", .object [("max", .ofNat 9223372036854775807)]])

def farSpec : WidgetSpec :=
  ⟨"seed", true, some ⟨"seed", "INT", none, [("max", .ofNat 9223372036854775807)], true⟩⟩

def farLottery : Worker where
  compiler := ⟨Registry.standard.insert farSampler, .standard, []⟩
  engine sent prompt := .ok ⟨"prompt-" ++ toString sent.length, prompt.number, .empty⟩

def farNode : Node :=
  { Node.plain (.number 1) "Sampler" with widgets := some [.ofNat (2 ^ 50), .text "increment"] }

def farDrawing (batchCount : Nat) : SubmitRequest where
  number := 1
  batchCount := batchCount
  document := { Document.empty with nodes := [farNode], supportsFlow := true }

theorem farDrawing_counts (batchCount : Nat) : (farDrawing batchCount).document.Counts farLottery.compiler.registry
    0 0 farSpec farNode (.ofNat (2 ^ 50)) (2 ^ 50) where
  found := rfl
  controlled := by
    change farNode.Controlled (((farDrawing 0).document.seedDefinitions farLottery.compiler.registry).layout farNode) ..
    exact ⟨by decide +kernel, by decide +kernel, rfl, rfl⟩
  holds := by decide +kernel
  narrow := by decide

-- Both runs get the seed 2^50, which may go on to 2^63 - 1.
theorem process_seeds_repeated :
    (farDrawing 2).document.Counts farLottery.compiler.registry 0 0 farSpec farNode (.ofNat (2 ^ 50)) (2 ^ 50) ∧
      (2 ^ 50 : Int) + 2 ≤ farSpec.declaredHigh ∧ (farLottery.process idle (farDrawing 2)).2.refusal = none ∧
      (farLottery.runDocuments idle (farDrawing 2)).map (·.seed? 0 0) = [some (2 ^ 50), some (2 ^ 50)] ∧
      [some (2 ^ 50), some (2 ^ 50)] ≠ (List.range 2).map (fun run : Nat => some ((2 ^ 50 : Int) + (run : Int))) :=
  ⟨farDrawing_counts 2, by decide +kernel, by decide +kernel, by decide +kernel, by decide +kernel⟩

theorem process_seeds_far :
    (farDrawing 3).document.Counts farLottery.compiler.registry 0 0 farSpec farNode (.ofNat (2 ^ 50)) (2 ^ 50) ∧
      (farLottery.process idle (farDrawing 3)).2.refusal = none ∧
      (farLottery.runDocuments idle (farDrawing 3)).map (·.seed? 0 0) = List.replicate 3 (some (2 ^ 50)) ∧
      ¬ ((farLottery.runDocuments idle (farDrawing 3)).map (·.seed? 0 0)).Nodup := by
  have accepted : (farLottery.process idle (farDrawing 3)).2.refusal = none := by decide +kernel
  have cap : farSpec.cap = 2 ^ 50 := by decide +kernel
  obtain ⟨_, seeds, _, distinct, _⟩ := farLottery.process_seeds idle (farDrawing 3) (farDrawing_counts 3) accepted
  rw [cap] at seeds distinct
  refine ⟨farDrawing_counts 3, accepted, seeds.trans (by decide +kernel), fun all => ?_⟩
  exact absurd (distinct.1 all) (by decide +kernel)

end Worker
end Patchbay
