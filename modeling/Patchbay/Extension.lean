import Patchbay.Document
import Patchbay.Failure
import Patchbay.Text.Blank

/-!
Extensions look at a document between the stages of a compile, and may change it. The extensions of a
phase share the document and take turns; one that fails keeps the changes it has made and holds up nobody.
-/
set_option autoImplicit false

namespace Patchbay

/-- When extensions run: on the stored document, on the runtime document after groups were expanded, and
on the runtime document that a load returns. -/
inductive HookPhase where
  | beforeMigration
  | afterExpansion
  | afterLoad
deriving DecidableEq

namespace HookPhase

def name : HookPhase → String
  | .beforeMigration => "before_migration"
  | .afterExpansion => "after_expansion"
  | .afterLoad => "after_load"

def ofName? : String → Option HookPhase
  | "before_migration" => some .beforeMigration
  | "after_expansion" => some .afterExpansion
  | "after_load" => some .afterLoad
  | _ => none

end HookPhase

/-- One step of an extension. A change may fail and then leaves the document alone; `fail` and `crash` end
the extension's run; `yield` lets the others go on. -/
inductive HookStep where
  | change (edit : Document → Except String Document)
  | note (entry : Json)
  | yield
  | fail (reason : String)
  | crash (reason : String)

/-- A named extension: what it does in a phase, told which types are missing. -/
structure Extension where
  name : String
  steps : HookPhase → List String → List HookStep

/-- What the extensions of a phase share. -/
structure HookState where
  document : Document
  notes : List Json
  failures : Nat

namespace HookState

def failed (state : HookState) : HookState := { state with failures := state.failures + 1 }

/-- One turn of an extension: its steps up to the next `yield`. Returns the steps that are left. -/
def turn (state : HookState) : List HookStep → HookState × List HookStep
  | [] => (state, [])
  | .yield :: rest => (state, rest)
  | .fail _ :: _ => (state.failed, [])
  | .crash _ :: _ => (state.failed, [])
  | .note entry :: rest => turn { state with notes := state.notes ++ [entry] } rest
  | .change edit :: rest =>
    match edit state.document with
    | .ok document => turn { state with document := document } rest
    | .error _ => (state.failed, [])

theorem length_turn_lt (state : HookState) (step : HookStep) (rest : List HookStep) :
    (state.turn (step :: rest)).2.length < (step :: rest).length := by
  induction rest generalizing state step with
  | nil =>
    cases step with
    | change edit => unfold turn; split <;> simp [turn]
    | _ => simp [turn]
  | cons next rest ih =>
    cases step with
    | change edit =>
      unfold turn
      split
      · exact Nat.lt_succ_of_lt (ih _ _)
      · simp
    | note entry =>
      unfold turn
      exact Nat.lt_succ_of_lt (ih _ _)
    | _ => simp [turn]

/-- The extensions take turns in the order of the queue until each has come to its end. -/
def takeTurns (state : HookState) (queue : List (List HookStep)) : HookState :=
  match queue with
  | [] => state
  | [] :: queue => takeTurns state queue
  | (step :: rest) :: queue =>
    let after := state.turn (step :: rest)
    takeTurns after.1 (queue ++ [after.2])
termination_by queue.flatten.length + queue.length
decreasing_by
  · simp
  · have shorter := length_turn_lt state step rest
    simp only [List.flatten_append, List.flatten_cons, List.flatten_nil, List.length_append,
      List.length_cons, List.length_nil] at shorter ⊢
    omega

end HookState

/-- Registered extensions, in the order of their registration. -/
abbrev ExtensionSet := List Extension

namespace ExtensionSet

def names (extensions : ExtensionSet) : List String := extensions.map (·.name)

/-- Registers one more. Names must not be blank, and must differ. -/
def register (extensions : ExtensionSet) (extension : Extension) : Except Failure ExtensionSet :=
  if Text.isAllBlank extension.name then
    .error (.invalidExtension "extensions must have a name")
  else if extensions.names.contains extension.name then
    .error (.invalidExtension ("extension '" ++ extension.name ++ "' is already registered"))
  else .ok (extensions ++ [extension])

def ofList (extensions : List Extension) : Except Failure ExtensionSet :=
  extensions.foldlM register []

/-- Runs every extension for a phase. -/
def invoke (extensions : ExtensionSet) (phase : HookPhase) (document : Document)
    (missing : List String) : HookState :=
  HookState.takeTurns ⟨document, [], 0⟩ (extensions.map (·.steps phase missing))

/-- What to point at when a document turns out inconsistent. -/
def hint? (extensions : ExtensionSet) : Option String :=
  if extensions.isEmpty then none
  else some ("extensions: " ++ ", ".intercalate extensions.names)

end ExtensionSet
end Patchbay
