import Patchbay.Settings
import Patchbay.Toml.Value

/-!
Settings as they are written in TOML files. Unknown keys are passed over; a known key with a value of
another kind makes the file invalid.
-/
set_option autoImplicit false

namespace Patchbay

namespace Settings

/-- The members of a section, which can also be written as the list of its values in order. -/
def section? (names : List String) : Toml → Option Toml.Members
  | .array items => some (names.zip items)
  | .tables elements => some (names.zip (elements.map (.table .header ·)))
  | other => other.members?

/-- Reads a member if it is there. -/
def member {α : Type} (members : Toml.Members) (key : String) (standard : α)
    (read : Toml → Option α) : Option α :=
  match Toml.lookup key members with
  | none => some standard
  | some value => read value

def tableOf {α : Type} (read : Toml → Option α) (value : Toml) : Option (Table α) := do
  let entries ← (← value.members?).mapM fun (key, value) => do return (key, ← read value)
  return .ofList entries

/-- A kind of virtual node by its name, or by a table of that one name with nothing in it. -/
def kind? : Toml → Option VirtualKind
  | .text name => VirtualKind.ofName? name
  | other =>
    match other.members? with
    | some [(name, .array [])] => VirtualKind.ofName? name
    | some [(name, .inline [])] => VirtualKind.ofName? name
    | some [(name, .table _ [])] => VirtualKind.ofName? name
    | _ => none

def registryOf (value : Toml) : Option RegistrySettings := do
  let members ← section? ["renames", "widget_types", "virtual_nodes"] value
  let renames ← member members "renames" .empty (tableOf Toml.text?)
  let widgetTypes ← member members "widget_types" [] fun value => do
    (← value.items?).mapM Toml.text?
  let virtualNodes ← member members "virtual_nodes" .empty (tableOf kind?)
  return ⟨renames, widgetTypes, virtualNodes⟩

def snapshotOf (value : Toml) : Option (Option String) := do
  let members ← section? ["path"] value
  member members "path" none fun value => some <$> value.text?

def queueOf (value : Toml) : Option QueueSettings := do
  let members ← section? ["buffer", "seed"] value
  let buffer ← member members "buffer" standard.queue.buffer Toml.natural?
  let seed ← member members "seed" none fun value => some <$> value.natural?
  return ⟨buffer, seed⟩

def logOf (value : Toml) : Option String := do
  let members ← section? ["filter"] value
  member members "filter" standard.logFilter Toml.text?

def ofMembers? (members : Toml.Members) : Option Settings := do
  let registry ← member members "registry" standard.registry registryOf
  let snapshotPath ← member members "snapshot" none snapshotOf
  let queue ← member members "queue" standard.queue queueOf
  let logFilter ← member members "log" standard.logFilter logOf
  return ⟨registry, snapshotPath, queue, logFilter⟩

def ofText (text : String) : Except Failure Settings :=
  match Toml.ofText? text with
  | none => .error (.invalidSettings "the text is not valid TOML")
  | some members =>
    match ofMembers? members with
    | some settings => .ok settings
    | none => .error (.invalidSettings "a setting has a value of the wrong kind")

end Settings
end Patchbay
