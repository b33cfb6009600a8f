import Patchbay.Extension
import Patchbay.Graph.Schedule
import Patchbay.Group.Expansion
import Patchbay.Primitive
import Patchbay.Prompt
import Patchbay.Seed
import Patchbay.Sequencing.Forms
import Patchbay.Sequencing.Successors
import Patchbay.Settings

/-!
From a stored document to a prompt: types are brought up to date, the document takes its runtime form,
primitives and groups are resolved, and what is left is put in order and written as instructions.
-/
set_option autoImplicit false

namespace Patchbay

structure CompiledPrompt where
  output : Prompt
  flows : SuccessorTable
  /-- The compact form of the document as it was compiled. -/
  workflow : Document
  missing : List String
deriving DecidableEq

namespace CompiledPrompt

def shape : Shape CompiledPrompt where
  title := "struct CompiledPrompt"
  blank := ⟨.empty, ⟨.empty⟩, .empty, []⟩
  fields := [
    .needed "output" Prompt.codec (·.output) ({ · with output := · }),
    .needed "flows" SuccessorTable.codec (·.flows) ({ · with flows := · }),
    .needed "workflow" Document.codec (·.workflow) ({ · with workflow := · }),
    .needed "missing_types" (.list .string) (·.missing) ({ · with missing := · })]
  surplus := .ignored

def codec : Codec CompiledPrompt := shape.codec

end CompiledPrompt

/-- A document in runtime form that has not been compiled. -/
structure LoadedDocument where
  document : Document
  missing : List String
  groups : List GroupDef

structure Compiler where
  registry : Registry
  settings : Settings
  extensions : ExtensionSet

/-- A result, or the failure that prevented it, with the notes that extensions have made. -/
structure Outcome (α : Type) where
  result : Except Failure α
  notes : List Json

/-! ### Types -/

def Node.renamed (r : Registry) (node : Node) : Node := { node with type := r.currentName node.type }

def GroupConfig.renamed (r : Registry) (config : GroupConfig) : GroupConfig :=
  { config with nodes := config.nodes.map (·.renamed r) }

namespace Document

/-- Renames the types of all nodes, group members included. -/
def renamed (doc : Document) (r : Registry) : Document :=
  { doc with
    nodes := doc.nodes.map (·.renamed r)
    extra := { doc.extra with groups := doc.extra.groups.map fun _ config => config.renamed r } }

/-- The types of top-level nodes that nothing defines. -/
def unknownTypes (doc : Document) (defs : Definitions) : List String :=
  (doc.nodes.filter fun node => !defs.isKnown node.type).map (·.type)

/-- Takes unsafe characters out of unknown types. -/
def sanitized (doc : Document) (defs : Definitions) : Document :=
  { doc with nodes := doc.nodes.map fun node =>
      if defs.isKnown node.type then node else { node with type := sanitizeType node.type } }

end Document

/-- A document in runtime form with the definitions that it is compiled by. -/
structure Prepared where
  definitions : Definitions
  runtime : Document
  missing : List String

namespace Compiler

/-- A compiler with checked extensions, whose settings have been applied to the registry. -/
def build (r : Registry) (settings : Settings) (extensions : List Extension) :
    Except Failure Compiler := do
  return ⟨settings.apply r, settings, ← ExtensionSet.ofList extensions⟩

def runHooks (c : Compiler) (phase : HookPhase) (doc : Document) (missing : List String) :
    Document × List Json :=
  let state := c.extensions.invoke phase doc missing
  (state.document, state.notes)

/-- Brings the types up to date and the document into runtime form. -/
def normalize (c : Compiler) (doc : Document) : Except Failure Prepared :=
  let doc := doc.renamed c.registry
  let defs := Definitions.withGroups c.registry doc.extra.groups
  match (doc.sanitized defs).expand c.registry with
  | .ok runtime => .ok ⟨defs, runtime, doc.unknownTypes defs⟩
  | .error cause => .error (.invalidDocument cause c.extensions.hint?)

/-- Runs the first extensions and normalizes what they leave. -/
def prepare (c : Compiler) (doc : Document) : Outcome Prepared :=
  let (doc, notes) := c.runHooks .beforeMigration doc []
  ⟨c.normalize doc, notes⟩

/-- A graph with its primitives resolved. -/
def resolvePrimitives (g : Graph) (defs : Definitions) : Graph :=
  (g.applyPrimitives defs g.executionOrder).graph

/-- What is fixed about a compile before extensions see the expanded graph. -/
structure Draft where
  workflow : Document
  expansion : ExpansionState

/-- The compact form to keep, and the graph with all groups expanded. -/
def draft (p : Prepared) : Except Failure Draft :=
  let g := resolvePrimitives (.ofDocument p.runtime) p.definitions
  match (g.toDocument p.runtime).compact with
  | .error cause => .error (.inconsistent cause)
  | .ok workflow =>
    let state := g.expandGroups p.definitions p.missing
    let graph := if 0 < state.expanded then resolvePrimitives state.graph p.definitions else state.graph
    .ok ⟨workflow, { state with graph := graph }⟩

/-- The prompt of a draft, from the graph that the extensions leave. -/
def finish (c : Compiler) (p : Prepared) (d : Draft) : CompiledPrompt × List Json :=
  let missing := d.expansion.missing.eraseDups
  let (graph, notes) :=
    if c.extensions.isEmpty then (d.expansion.graph, [])
    else
      let (doc, notes) := c.runHooks .afterExpansion (d.expansion.graph.toDocument p.runtime) missing
      (.ofDocument doc, notes)
  (⟨graph.serialize p.definitions graph.executionOrder, .ofDocument d.workflow, d.workflow, missing⟩,
    notes)

/-- Compiles a document in either form. Unknown types do not fail a compile, they are listed. -/
def compile (c : Compiler) (doc : Document) : Outcome CompiledPrompt :=
  let prepared := c.prepare doc
  match prepared.result with
  | .error failure => ⟨.error failure, prepared.notes⟩
  | .ok p =>
    match draft p with
    | .error failure => ⟨.error failure, prepared.notes⟩
    | .ok d =>
      let (compiled, notes) := c.finish p d
      ⟨.ok compiled, prepared.notes ++ notes⟩

/-- Brings a document into runtime form without compiling it. -/
def load (c : Compiler) (doc : Document) : Outcome LoadedDocument :=
  let prepared := c.prepare doc
  match prepared.result with
  | .error failure => ⟨.error failure, prepared.notes⟩
  | .ok p =>
    let missing := p.missing.eraseDups
    let (doc, notes) := c.runHooks .afterLoad p.runtime missing
    ⟨.ok ⟨doc, missing, p.definitions.groups.values⟩, prepared.notes ++ notes⟩

/-- A pass over the nodes of a document that advances their seeds. -/
structure SeedRun where
  nodes : List Node
  changed : Nat
  source : WordSource

def advanceNode (defs : Definitions) (run : SeedRun) (node : Node) : SeedRun :=
  match defs.operation? node.type with
  | none => { run with nodes := run.nodes ++ [node] }
  | some op =>
    let (node, changed, source) := node.advanceSeeds op defs.registry run.source
    ⟨run.nodes ++ [node], if changed then run.changed + 1 else run.changed, source⟩

/-- Applies the seed controls of all nodes, group instances included. Counts the nodes that changed. -/
def advanceSeeds (c : Compiler) (doc : Document) (source : WordSource) :
    Document × Nat × WordSource :=
  let defs := Definitions.withGroups c.registry doc.extra.groups
  let run := doc.nodes.foldl (advanceNode defs) ⟨[], 0, source⟩
  ({ doc with nodes := run.nodes }, run.changed, run.source)

end Compiler
end Patchbay
