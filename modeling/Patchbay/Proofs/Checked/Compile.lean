import Patchbay.Proofs.Checked.Expansion
import Patchbay.Proofs.Checked.Lookup
import Patchbay.Proofs.Compiler.Extensions

/-!
A compile with a check at every step that not every slot number, id or counter allows. It ends without a result for two
reasons only, and both are slot numbers near the end of the range: a sequencing link whose origin slot has no row in
the successor table, and a virtual node that counts its inputs beyond the last word. Main statement: `compile_checked`.
-/
set_option autoImplicit false

namespace Patchbay

namespace Graph

/-! ### Primitives -/

def storedNode? (g : Graph) (defs : Definitions) (value : Json) (target : NodeId × Nat) : Option (Option Node) :=
  match g.node? target.1 with
  | none => some none
  | some node =>
    match defs.operation? node.type, node.inputs[target.2]?.bind (·.widget) with
    | some op, some widget => node.storeWidget? op defs.registry widget.name value
    | _, _ => some none

theorem storedNode?_eq (g : Graph) (defs : Definitions) (value : Json) (target : NodeId × Nat) :
    g.storedNode? defs value target = some (g.writtenNode? defs value target) := by
  rw [storedNode?, writtenNode?]
  cases g.node? target.1 with
  | none => rfl
  | some node =>
    simp only [Option.bind_eq_bind, Option.bind_some]
    cases defs.operation? node.type with
    | none => rfl
    | some op =>
      cases node.inputs[target.2]? with
      | none => rfl
      | some input =>
        cases held : input.widget with
        | none => simp [held]
        | some widget => simp [held, Node.storeWidget?_eq]

end Graph

namespace PrimitivePass

def write? (defs : Definitions) (value : Json) (pass : PrimitivePass) (target : NodeId × Nat) : Option PrimitivePass :=
  (pass.graph.storedNode? defs value target).map fun
    | some node => ⟨pass.graph.modifyNode target.1 fun _ => node, pass.written + 1⟩
    | none => pass

theorem write?_eq (defs : Definitions) (value : Json) :
    write? defs value = fun pass target => some (write defs value pass target) := by
  funext pass target
  rw [write?, Graph.storedNode?_eq, write]
  cases pass.graph.writtenNode? defs value target <;> rfl

def visit? (defs : Definitions) (pass : PrimitivePass) (id : NodeId) : Option PrimitivePass :=
  match pass.graph.primitive? defs.registry id with
  | some (value, targets) => targets.foldlM (write? defs value) pass
  | none => some pass

theorem visit?_eq (defs : Definitions) : visit? defs = fun pass id => some (visit defs pass id) := by
  funext pass id
  rw [visit?, visit]
  cases pass.graph.primitive? defs.registry id with
  | none => rfl
  | some found =>
    simp only [write?_eq]
    exact List.foldlM_pure

end PrimitivePass

namespace Graph

def applyPrimitives? (g : Graph) (defs : Definitions) (order : List NodeId) : Option PrimitivePass :=
  order.foldlM (PrimitivePass.visit? defs) ⟨g, 0⟩

theorem applyPrimitives?_eq (g : Graph) (defs : Definitions) (order : List NodeId) :
    g.applyPrimitives? defs order = some (g.applyPrimitives defs order) := by
  rw [applyPrimitives?, PrimitivePass.visit?_eq]
  exact List.foldlM_pure

-- The counter is noted as the id below it.
def toDocument? (g : Graph) (template : Document) : Option Document :=
  if 0 < g.nextLinkId then
    (g.nextLinkId.lower? 1).map fun last =>
      { template with nodes := g.nodes, links := g.links, lastLinkId := some last }
  else some { template with nodes := g.nodes, links := g.links }

theorem toDocument?_eq (g : Graph) (template : Document) : g.toDocument? template = some (g.toDocument template) := by
  rw [toDocument?, toDocument]
  by_cases pos : 0 < g.nextLinkId
  · have room : 1 ≤ g.nextLinkId.toNat := UInt64.lt_iff_toNat_lt.1 pos
    simp only [if_pos pos, Word.lower?_eq room, Option.map_some]
  · simp only [if_neg pos]

end Graph

namespace Compiler

/-! ### The steps of a compile -/

def resolvePrimitives? (g : Graph) (defs : Definitions) : Option Graph := do
  let order ← g.executionOrder?
  (g.applyPrimitives? defs order).map (·.graph)

theorem resolvePrimitives?_eq (g : Graph) (defs : Definitions) :
    resolvePrimitives? g defs = some (resolvePrimitives g defs) := by
  simp only [resolvePrimitives?, Graph.executionOrder?_eq, Graph.applyPrimitives?_eq, Option.bind_eq_bind,
    Option.bind_some, Option.map_some]
  rfl

def normalize? (c : Compiler) (doc : Document) : Option (Except Failure Prepared) :=
  let doc := doc.renamed c.registry
  let defs := Definitions.withGroups c.registry doc.extra.groups
  ((doc.sanitized defs).expand? c.registry).map fun
    | .ok runtime => .ok ⟨defs, runtime, doc.unknownTypes defs⟩
    | .error cause => .error (.invalidDocument cause c.extensions.hint?)

theorem normalize?_eq (c : Compiler) (doc : Document) : c.normalize? doc = some (c.normalize doc) := by
  simp only [normalize?, Document.expand?_eq, Option.map_some]
  rfl

-- Members may hold primitives of their own.
def resolveExpanded? (defs : Definitions) (state : ExpansionState) : Option Graph :=
  if 0 < state.expanded then resolvePrimitives? state.graph defs else some state.graph

theorem resolveExpanded?_eq (defs : Definitions) (state : ExpansionState) : resolveExpanded? defs state =
    some (if 0 < state.expanded then resolvePrimitives state.graph defs else state.graph) := by
  rw [resolveExpanded?, resolvePrimitives?_eq]
  split <;> rfl

def draft? (p : Prepared) : Option (Except Failure Draft) := do
  let g ← resolvePrimitives? (.ofDocument p.runtime) p.definitions
  let written ← g.toDocument? p.runtime
  match ← written.compact? with
  | .error cause => return .error (.inconsistent cause)
  | .ok workflow =>
    let state ← g.expandGroups? p.definitions p.missing
    let graph ← resolveExpanded? p.definitions state
    return .ok ⟨workflow, { state with graph := graph }⟩

theorem draft?_eq (p : Prepared) : draft? p = some (draft p) := by
  simp only [draft?, resolvePrimitives?_eq, resolveExpanded?_eq, Graph.toDocument?_eq, Document.compact?_eq,
    Graph.expandGroups?_eq, Option.bind_eq_bind, Option.bind_some, draft]
  cases ((resolvePrimitives (.ofDocument p.runtime) p.definitions).toDocument p.runtime).compact <;> rfl

section Through

variable (capacity : Nat) (c : Compiler) (hooks : HookPhase → Document → List String → Document)

-- What comes behind a draft: the table first, then the document that the extensions have left.
def emit? (p : Prepared) (d : Draft) : Option CompiledPrompt := do
  let flows ← SuccessorTable.ofDocument? capacity d.workflow
  let handed ← d.expansion.graph.toDocument? p.runtime
  let graph := if c.extensions.isEmpty then d.expansion.graph
    else .ofDocument (hooks .afterExpansion handed d.expansion.missing.eraseDups)
  let order ← graph.executionOrder?
  let output ← graph.serialize? p.definitions order
  return ⟨output, flows, d.workflow, d.expansion.missing.eraseDups⟩

-- The slot numbers of a draft for which there is no room.
def Overfills (p : Prepared) (d : Draft) : Prop :=
  (∃ link ∈ SuccessorTable.flowLinksOf d.workflow, ¬ link.originSlot.IsRowSlot capacity) ∨
    (c.handOver hooks p d).Stumbles p.definitions (c.handOver hooks p d).executionOrder

def compileThrough? (doc : Document) : Option (Except Failure CompiledPrompt) := do
  match ← c.normalize? (hooks .beforeMigration doc []) with
  | .error failure => return .error failure
  | .ok p =>
    match ← draft? p with
    | .error failure => return .error failure
    | .ok d => (c.emit? capacity hooks p d).map .ok

/-- The document is brought as far as a draft, and a slot number of the draft has no room. -/
def Traps (doc : Document) : Prop :=
  ∃ p d, c.normalize (hooks .beforeMigration doc []) = .ok p ∧ draft p = .ok d ∧ c.Overfills capacity hooks p d

variable {capacity c hooks} {p : Prepared} {d : Draft}

theorem emit?_eq_none (overfull : c.Overfills capacity hooks p d) : c.emit? capacity hooks p d = none := by
  simp only [emit?, SuccessorTable.ofDocument?_eq, Graph.toDocument?_eq, Graph.executionOrder?_eq, Option.bind_eq_bind,
    Option.bind_some]
  rcases overfull with ⟨link, member, beyond⟩ | stumbles
  · rw [if_neg fun all => beyond (all link member)]
    rfl
  · have failed := Graph.serialize?_eq_none stumbles
    rw [handOver] at failed
    simp only [failed, Option.bind_none, Option.bind_fun_none]

theorem emit?_eq (within : ¬ c.Overfills capacity hooks p d) : c.emit? capacity hooks p d =
    some ⟨(c.handOver hooks p d).serialize p.definitions (c.handOver hooks p d).executionOrder, .ofDocument d.workflow,
      d.workflow, d.expansion.missing.eraseDups⟩ := by
  rw [Overfills, not_or] at within
  have rows : ∀ link ∈ SuccessorTable.flowLinksOf d.workflow, link.originSlot.IsRowSlot capacity := by
    intro link member
    by_contra beyond
    exact within.1 ⟨link, member, beyond⟩
  have made := Graph.serialize?_eq within.2
  rw [handOver] at made
  simp only [emit?, SuccessorTable.ofDocument?_eq, if_pos rows, Graph.toDocument?_eq, Graph.executionOrder?_eq,
    Option.bind_eq_bind, Option.bind_some, made]
  rfl

variable {doc : Document}

theorem compileThrough?_eq_none (traps : c.Traps capacity hooks doc) : c.compileThrough? capacity hooks doc = none := by
  obtain ⟨p, d, normal, drafted, overfull⟩ := traps
  simp only [compileThrough?, normalize?_eq, draft?_eq, normal, drafted, emit?_eq_none overfull, Option.bind_eq_bind,
    Option.bind_some, Option.map_none]

theorem compileThrough?_eq (clear : ¬ c.Traps capacity hooks doc) :
    c.compileThrough? capacity hooks doc = some (c.compileThrough hooks doc) := by
  simp only [compileThrough?, compileThrough, normalize?_eq, Option.bind_eq_bind, Option.bind_some]
  cases normal : c.normalize (hooks .beforeMigration doc []) with
  | error failure => rfl
  | ok p =>
    simp only [draft?_eq, Option.bind_some]
    cases drafted : draft p with
    | error failure => rfl
    | ok d =>
      have within : ¬ c.Overfills capacity hooks p d := fun overfull => clear ⟨p, d, normal, drafted, overfull⟩
      simp only [emit?_eq within, Option.map_some]

end Through

instance (capacity : Nat) (c : Compiler) (hooks : HookPhase → Document → List String → Document) (doc : Document) :
    Decidable (c.Traps capacity hooks doc) :=
  decidable_of_iff (c.compileThrough? capacity hooks doc = none) (eq_none_iff compileThrough?_eq_none compileThrough?_eq)

/-- The document that the extensions of a compiler leave. -/
def scripted (c : Compiler) (phase : HookPhase) (doc : Document) (missing : List String) : Document :=
  (c.runHooks phase doc missing).1

-- A reroute with a sequencing input, left by the last slot there is.
def roundabout : Document :=
  { Document.empty with
    nodes := [
      { Node.plain (.number 1) "Load" with
        outputs := [{ OutputSlot.plain "TO" flowType with links := some [1] }, .plain "IMAGE" "IMAGE"] },
      { Node.plain (.number 2) "Reroute" with
        inputs := [{ InputSlot.plain "FROM" flowType with link := some 1 }, .plain "" InputDef.anyType]
        outputs := [.plain "" "IMAGE"] },
      { Node.plain (.number 3) "Save" with inputs := [{ InputSlot.plain "image" "IMAGE" with link := some 2 }] }]
    links := [⟨1, .number 1, 0, .number 2, 0, flowType⟩, ⟨2, .number 2, 18446744073709551615, .number 3, 0, "IMAGE"⟩]
    supportsFlow := true }

-- The same slot, left by a sequencing link.
def overlong : Document :=
  { roundabout with links := [⟨1, .number 1, 18446744073709551615, .number 2, 0, flowType⟩] }

end Compiler
end Patchbay
