import Patchbay.Proofs.Compiler.Snapshot
import Patchbay.Proofs.Extension.Interleaving
import Patchbay.Proofs.Graph.Keyed

/-!
A compile with extensions, in whatever order they have their accesses. Main statement: `compile_interleaved`.
-/
set_option autoImplicit false

namespace Patchbay

/-- What each extension does in a phase, told which types are missing. -/
abbrev Behaviour := Extension → HookPhase → List String → HookRun

def Extension.scripted : Behaviour := fun e phase missing => .ofSteps (e.steps phase missing)

/-- The order of the accesses in each phase, for the document and the missing types that it begins with. -/
abbrev AccessPlan := HookPhase → Document → List String → List Nat

def Failure.withoutHint : Failure → Failure
  | .invalidDocument cause _ => .invalidDocument cause none
  | other => other

namespace Compiler

section Interplay

variable (c : Compiler) (behaviour : Behaviour)

def interplay (phase : HookPhase) (doc : Document) (missing : List String) : Interplay :=
  ⟨doc, c.extensions.map fun e => behaviour e phase missing⟩

/-- The document that the extensions leave in a phase. -/
def leave (plan : AccessPlan) (phase : HookPhase) (doc : Document) (missing : List String) : Document :=
  ((c.interplay behaviour phase doc missing).perform (plan phase doc missing)).document

end Interplay

section Through

variable (c : Compiler) (hooks : HookPhase → Document → List String → Document)

/-- The graph of a draft as it is after the extensions. -/
def handOver (p : Prepared) (d : Draft) : Graph :=
  if c.extensions.isEmpty then d.expansion.graph
  else .ofDocument
    (hooks .afterExpansion (d.expansion.graph.toDocument p.runtime) d.expansion.missing.eraseDups)

/-- A compile in which the extensions of a phase are told by the document that they leave. -/
def compileThrough (doc : Document) : Except Failure CompiledPrompt :=
  match c.normalize (hooks .beforeMigration doc []) with
  | .error failure => .error failure
  | .ok p =>
    match draft p with
    | .error failure => .error failure
    | .ok d =>
      let graph := c.handOver hooks p d
      .ok ⟨graph.serialize p.definitions graph.executionOrder, .ofDocument d.workflow, d.workflow,
        d.expansion.missing.eraseDups⟩

theorem compile_result (doc : Document) : (c.compile doc).result =
    c.compileThrough (fun phase doc missing => (c.runHooks phase doc missing).1) doc := by
  rw [compile, prepare, compileThrough]
  cases normal : c.normalize (c.runHooks .beforeMigration doc []).1 with
  | error failure => simp only [normal]
  | ok p =>
    cases drafted : draft p with
    | error failure => simp only [normal, drafted]
    | ok d =>
      simp only [normal, drafted, finish, handOver]
      split <;> rfl

end Through

/-! ### Extensions that change nothing -/

/-- The extensions leave the documents as they are that this compile hands to them. -/
def Undisturbed (c : Compiler) (hooks : HookPhase → Document → List String → Document) (doc : Document) : Prop :=
  hooks .beforeMigration doc [] = doc ∧ ∀ p d, c.normalize doc = .ok p → draft p = .ok d →
    hooks .afterExpansion (d.expansion.graph.toDocument p.runtime) d.expansion.missing.eraseDups =
      d.expansion.graph.toDocument p.runtime

def withoutExtensions (c : Compiler) : Compiler := { c with extensions := [] }

theorem normalize_withoutExtensions (c : Compiler) (doc : Document) :
    c.withoutExtensions.normalize doc = (c.normalize doc).mapError Failure.withoutHint := by
  have registry : c.withoutExtensions.registry = c.registry := rfl
  simp only [normalize, registry]
  cases ((doc.renamed c.registry).sanitized
    (.withGroups c.registry (doc.renamed c.registry).extra.groups)).expand c.registry <;> rfl

theorem withoutHint_of_draft {p : Prepared} {failure : Failure} (failed : draft p = .error failure) :
    failure.withoutHint = failure := by
  simp only [draft] at failed
  split at failed
  · cases failed
    rfl
  · cases failed

section Undisturbed

variable {c : Compiler} {hooks : HookPhase → Document → List String → Document} {doc : Document}
variable (undisturbed : c.Undisturbed hooks doc)

include undisturbed in
-- The graph that was written and loaded again is run in the same order, with the same prompt.
theorem Undisturbed.handOver {p : Prepared} {d : Draft} (normal : c.normalize doc = .ok p)
    (drafted : draft p = .ok d) : (c.handOver hooks p d).executionOrder = d.expansion.graph.executionOrder ∧
      ∀ order, (c.handOver hooks p d).serialize p.definitions order =
        d.expansion.graph.serialize p.definitions order := by
  rw [Compiler.handOver]
  split
  · exact ⟨rfl, fun _ => rfl⟩
  · rw [undisturbed.2 p d normal drafted, (keyed_draft drafted).ofDocument_toDocument p.runtime]
    refine ⟨rfl, fun order => Graph.serialize_congr ?_ ?_ p.definitions order⟩
    · rfl
    · rfl

include undisturbed in
theorem Undisturbed.compileThrough :
    (c.compileThrough hooks doc).mapError Failure.withoutHint = (c.withoutExtensions.compile doc).result := by
  have noExtensions : c.withoutExtensions.extensions = [] := rfl
  rw [Compiler.compileThrough, undisturbed.1, compile, prepare_eq noExtensions, normalize_withoutExtensions]
  cases normal : c.normalize doc with
  | error failure => rfl
  | ok p =>
    cases drafted : draft p with
    | error failure =>
      simp only [drafted, Except.mapError, withoutHint_of_draft drafted]
    | ok d =>
      obtain ⟨order, prompt⟩ := undisturbed.handOver normal drafted
      simp only [drafted, Except.mapError, finish_eq noExtensions, order, prompt]

end Undisturbed

/-! ### Any interleaving -/

section Interleaved

variable (c : Compiler) (behaviour other : Behaviour)

theorem alike_interplay (same : ∀ e phase missing, (behaviour e phase missing).SameAccesses (other e phase missing))
    (phase : HookPhase) (doc : Document) (missing : List String) :
    (c.interplay behaviour phase doc missing).Alike (c.interplay other phase doc missing) := by
  refine ⟨rfl, by rw [interplay, interplay, List.length_map, List.length_map], fun position a b left right => ?_⟩
  rw [interplay, List.getElem?_map] at left right
  obtain ⟨extension, there, rfl⟩ := Option.map_eq_some_iff.1 left
  rw [there] at right
  cases right
  exact same extension phase missing

theorem exists_plan : ∃ plan, (∀ phase doc missing,
      ((c.interplay Extension.scripted phase doc missing).perform (plan phase doc missing)).ended) ∧
    ∀ phase doc missing, (c.runHooks phase doc missing).1 = c.leave Extension.scripted plan phase doc missing := by
  choose plan ended result using fun phase doc missing => c.extensions.invoke_interleaves phase doc missing
  exact ⟨plan, ended, fun phase doc missing => (result phase doc missing).symm⟩

end Interleaved

/-- Whatever the order of their accesses, extensions cannot break a compile. One that fails or crashes has left its
changes, like one that ends in success at that point; whoever gets a turn again and again comes to its end, whatever
becomes of the others; extensions that change nothing make no difference but to the hint of a failure; and a compile
follows one of these orders to the end. -/
theorem compile_interleaved (c : Compiler) (behaviour : Behaviour) (doc : Document) :
    (∀ other : Behaviour, (∀ e phase missing, (behaviour e phase missing).SameAccesses (other e phase missing)) →
      (∀ phase doc missing schedule,
        ((c.interplay behaviour phase doc missing).perform schedule).document =
            ((c.interplay other phase doc missing).perform schedule).document ∧
          (((c.interplay behaviour phase doc missing).perform schedule).ended ↔
            ((c.interplay other phase doc missing).perform schedule).ended)) ∧
        ∀ plan, c.compileThrough (c.leave behaviour plan) doc = c.compileThrough (c.leave other plan) doc) ∧
      (∀ phase doc missing turns position, position < c.extensions.length →
        (∀ time, ∃ later, time ≤ later ∧ turns later = position) →
          ∃ last, ∃ rest : HookRun, rest.ended = true ∧ ∀ later, last ≤ later →
            ((c.interplay behaviour phase doc missing).upTo turns later).runs[position]? = some rest) ∧
      (∀ plan, c.Undisturbed (c.leave behaviour plan) doc →
        (c.compileThrough (c.leave behaviour plan) doc).mapError Failure.withoutHint =
          (c.withoutExtensions.compile doc).result) ∧
      ∃ plan, (∀ phase doc missing,
          ((c.interplay Extension.scripted phase doc missing).perform (plan phase doc missing)).ended) ∧
        (c.compile doc).result = c.compileThrough (c.leave Extension.scripted plan) doc := by
  refine ⟨fun other same => ⟨fun phase doc missing schedule => ?_, fun plan => ?_⟩, ?_, ?_, ?_⟩
  · have alike := (c.alike_interplay behaviour other same phase doc missing).perform schedule
    exact ⟨alike.document, alike.ended_iff⟩
  · have left : c.leave behaviour plan = c.leave other plan := by
      funext phase doc missing
      exact ((c.alike_interplay behaviour other same phase doc missing).perform _).document
    rw [left]
  · intro phase doc missing turns position inside again
    have size : position < (c.interplay behaviour phase doc missing).runs.length := by
      rw [interplay, List.length_map]
      exact inside
    exact Interplay.exists_ended again _ 0 (List.getElem?_eq_getElem size)
  · exact fun plan undisturbed => undisturbed.compileThrough
  · obtain ⟨plan, ended, result⟩ := c.exists_plan
    refine ⟨plan, ended, ?_⟩
    rw [compile_result]
    congr 1
    funext phase doc missing
    exact result phase doc missing

-- One extension takes a node out and crashes in its next turn, the other one only looks.
def hasty : Extension where
  name := "hasty"
  steps phase _ :=
    match phase with
    | .afterExpansion => [.change fun doc => .ok { doc with nodes := doc.nodes.dropLast }, .yield, .crash "lost"]
    | _ => []

def calm : Extension := ⟨"calm", fun _ _ => [.yield, .change .ok, .fail "seen enough"]⟩

def crew : Compiler := { studio with extensions := [hasty, calm] }

def watched : Compiler := { studio with extensions := [calm] }

def forgiving : Behaviour := fun e phase missing => (Extension.scripted e phase missing).excused

theorem compile_interleaved_crew :
    (∃ plan, (crew.compile primed).result = crew.compileThrough (crew.leave Extension.scripted plan) primed ∧
        (crew.compile primed).result = crew.compileThrough (crew.leave forgiving plan) primed) ∧
      (crew.compile primed).result.toOption.map (·.output.keys) = some ["2", "3:0"] ∧
      (∃ last, ∃ rest : HookRun, rest.ended = true ∧ ∀ later, last ≤ later →
        ((crew.interplay Extension.scripted .afterExpansion primed []).upTo (· % 2) later).runs[1]? = some rest) ∧
      (watched.compileThrough (watched.leave Extension.scripted fun _ _ _ => [0]) primed).mapError
        Failure.withoutHint = (watched.withoutExtensions.compile primed).result := by
  obtain ⟨excuse, ends, _, plan, _, followed⟩ := compile_interleaved crew Extension.scripted primed
  have same : ∀ e phase missing, (Extension.scripted e phase missing).SameAccesses (forgiving e phase missing) :=
    fun e phase missing => (Extension.scripted e phase missing).sameAccesses_excused
  have again : ∀ time, ∃ later, time ≤ later ∧ later % 2 = 1 := fun time => ⟨2 * time + 1, by omega, by omega⟩
  have undisturbed : watched.Undisturbed (watched.leave Extension.scripted fun _ _ _ => [0]) primed :=
    ⟨rfl, fun _ _ _ _ => rfl⟩
  refine ⟨⟨plan, followed, followed.trans ((excuse forgiving same).2 plan)⟩, ?_, ?_, ?_⟩
  · decide +kernel
  · exact ends .afterExpansion primed [] (· % 2) 1 (by decide) again
  · exact (compile_interleaved watched Extension.scripted primed).2.2.1 _ undisturbed

end Compiler
end Patchbay
