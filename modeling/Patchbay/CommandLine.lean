import Patchbay.Storage
import Patchbay.Engine

/-!
The command line: compiling, migrating and compacting documents in files, and listing their groups.
-/
set_option autoImplicit false

namespace Patchbay.CommandLine

inductive Command where
  | compile (workflow registry : String) (output snapshot : Option String)
  | migrate (workflow registry : String)
  | compact (workflow : String)
  | groups (workflow registry : String)
deriving DecidableEq

/-- A call of the program. -/
structure Invocation where
  settings : Option String
  command : Command
deriving DecidableEq

/-! ### Arguments -/

/-- The options that a command knows. -/
inductive Flag where
  | settings
  | registry
  | output
  | snapshot
deriving DecidableEq

def Flag.ofLong? : String → Option Flag
  | "config" => some .settings
  | "registry" => some .registry
  | "output" => some .output
  | "snapshot" => some .snapshot
  | _ => none

def Flag.ofShort? : Char → Option Flag
  | 'c' => some .settings
  | 'r' => some .registry
  | 'o' => some .output
  | 's' => some .snapshot
  | _ => none

inductive Verb where
  | compile
  | migrate
  | compact
  | groups
deriving DecidableEq

def Verb.ofName? : String → Option Verb
  | "compile" => some .compile
  | "migrate" => some .migrate
  | "compact" => some .compact
  | "groups" => some .groups
  | _ => none

def Verb.allows : Verb → Flag → Bool
  | _, .settings => true
  | .compile, _ => true
  | .migrate, flag => flag == .registry
  | .groups, flag => flag == .registry
  | .compact, _ => false

/-- An option at the front of an argument, with the value that is written into the same argument. -/
def flag? (argument : String) : Option (Flag × Option String) :=
  match argument.toList with
  | '-' :: '-' :: long =>
    let name := long.takeWhile (· ≠ '=')
    let value := match long.drop name.length with
      | [] => none
      | _ :: value => some (String.ofList value)
    (Flag.ofLong? (String.ofList name)).map (·, value)
  | '-' :: short :: value =>
    let value := match value with
      | [] => none
      | '=' :: value => some (String.ofList value)
      | value => some (String.ofList value)
    (Flag.ofShort? short).map (·, value)
  | _ => none

/-- An argument that is not a value: a single `-` is one. -/
def looksLikeFlag (argument : String) : Bool :=
  match argument.toList with
  | '-' :: _ :: _ => true
  | _ => false

/-- The option that asks for the version, alone or in front of other letters. -/
def asksVersion (argument : String) : Bool := argument = "--version" || argument.startsWith "-V"

/-- Why there is nothing to run. -/
inductive Interruption where
  | misuse
  | version
deriving DecidableEq

/-- Arguments sorted by what they are for. -/
structure Sorted where
  flags : List (Flag × String)
  values : List String

/-- An option may be given once, and no value is empty. -/
def Sorted.addFlag (sorted : Sorted) (flag : Flag) (value : String) : Except Interruption Sorted :=
  if value = "" ∨ sorted.flags.any (·.1 == flag) then .error .misuse
  else .ok { sorted with flags := sorted.flags ++ [(flag, value)] }

/-- Reads arguments to their end, or those before a verb up to the verb. -/
def sort (allowed : Flag → Bool) (beforeVerb : Bool) :
    List String → Sorted → Except Interruption (Sorted × List String)
  | [], sorted => .ok (sorted, [])
  | argument :: rest, sorted =>
    if argument = "--" then
      if beforeVerb then .error .misuse else .ok ({ sorted with values := sorted.values ++ rest }, [])
    else if looksLikeFlag argument then
      if beforeVerb && asksVersion argument then .error .version
      else match flag? argument with
      | none => .error .misuse
      | some (flag, value) =>
        if !allowed flag then .error .misuse
        else match value, rest with
        | some value, rest => do sort allowed beforeVerb rest (← sorted.addFlag flag value)
        | none, next :: rest =>
          if looksLikeFlag next then .error .misuse
          else do sort allowed beforeVerb rest (← sorted.addFlag flag next)
        | none, [] => .error .misuse
    else if beforeVerb then .ok (sorted, argument :: rest)
    else sort allowed beforeVerb rest { sorted with values := sorted.values ++ [argument] }

def Sorted.flag? (sorted : Sorted) (flag : Flag) : Option String := sorted.flags.lookup flag

def command? (verb : Verb) (sorted : Sorted) : Option Command :=
  match sorted.values with
  | [workflow] =>
    if workflow = "" then none
    else match verb with
    | .compact => some (.compact workflow)
    | .compile => (sorted.flag? .registry).map fun registry =>
      .compile workflow registry (sorted.flag? .output) (sorted.flag? .snapshot)
    | .migrate => (sorted.flag? .registry).map (.migrate workflow)
    | .groups => (sorted.flag? .registry).map (.groups workflow)
  | _ => none

def orMisuse {α : Type} : Option α → Except Interruption α
  | some value => .ok value
  | none => .error .misuse

/-- The call that arguments make. Options of all commands may stand before the verb. -/
def Invocation.ofArguments (arguments : List String) : Except Interruption Invocation := do
  let (before, rest) ← sort (· == .settings) true arguments ⟨[], []⟩
  match rest with
  | [] => .error .misuse
  | name :: rest =>
    let verb ← orMisuse (Verb.ofName? name)
    let (after, _) ← sort verb.allows false rest ⟨[], []⟩
    let command ← orMisuse (command? verb after)
    return ⟨(after.flag? .settings).or (before.flag? .settings), command⟩

/-! ### Running -/

/-- What a call leaves behind besides files. -/
structure Report where
  code : Nat
  output : String
  notes : List String
deriving DecidableEq

namespace Report

def success (output : String) (notes : List String) : Report := ⟨0, output, notes⟩

def failed (message : String) (notes : List String) (output : String) : Report :=
  ⟨1, output, notes ++ ["", "Error: " ++ message]⟩

/-- Wrong arguments are not run, and a question for the version is answered at once. -/
def ofInterruption : Interruption → Report
  | .misuse => ⟨2, "", ["error: invalid arguments"]⟩
  | .version => .success "kumitate 0.1.0\n" []

end Report

def line (text : String) : String := text ++ "\n"

def prettyLine (value : Json) : String := line value.pretty

variable {m : Type → Type} [Monad m]

/-- Reads what every command but `compact` needs. -/
def prepare (files : FileAccess m) (settings : Settings) (registry workflow : String) :
    m (Except String (Compiler × Document)) := do
  match ← files.readRegistry registry with
  | .error failure => return .error ("Failed to load registry: " ++ failure.message)
  | .ok registry =>
    match Compiler.build registry settings [] with
    | .error failure => return .error ("Failed to build compiler: " ++ failure.message)
    | .ok compiler =>
      match ← files.readDocument workflow with
      | .error failure =>
        return .error ("Failed to load workflow '" ++ workflow ++ "': " ++ failure.message)
      | .ok doc => return .ok (compiler, doc)

def missingText (missing : List String) : String :=
  if missing.isEmpty then "none" else ", ".intercalate missing

def summary (compiled : CompiledPrompt) : List String := [
  "",
  "--- Compilation Summary ---",
  "Instructions:         " ++ toString compiled.output.size,
  "Flow Entries:         " ++ toString compiled.flows.size,
  "Missing Node Types:   " ++ missingText compiled.missing]

/-- Writes the request to a file, or gives it as output. -/
def deliver (files : FileAccess m) (path : Option String) (request : Json) :
    m (Except String String) := do
  match path with
  | none => return .ok (prettyLine request)
  | some path =>
    match ← files.write path request.pretty with
    | .ok _ => return .ok ""
    | .error problem => return .error ("Failed to write '" ++ path ++ "': " ++ problem.message)

def keepSnapshot (files : FileAccess m) (path : Option String) (workflow : Document) :
    m (Except String Unit) := do
  match path with
  | none => return .ok ()
  | some path =>
    match ← files.save path workflow with
    | .ok _ => return .ok ()
    | .error failure => return .error ("Failed to write snapshot: " ++ failure.message)

def runCompile (files : FileAccess m) (settings : Settings) (workflow registry : String)
    (output snapshot : Option String) : m Report := do
  match ← prepare files settings registry workflow with
  | .error message => return .failed message [] ""
  | .ok (compiler, doc) =>
    let notes := ["Compiling workflow (" ++ toString doc.nodes.length ++ " nodes)..."]
    match (compiler.compile doc).result with
    | .error failure => return .failed ("Compilation failed: " ++ failure.message) notes ""
    | .ok compiled =>
      match ← deliver files output (PromptRequest.codec.write (compiled.toRequest 0)) with
      | .error message => return .failed message notes ""
      | .ok text =>
        match ← keepSnapshot files (snapshot.or settings.snapshotPath) compiled.workflow with
        | .error message => return .failed message notes text
        | .ok _ => return .success text (notes ++ summary compiled)

def runMigrate (files : FileAccess m) (settings : Settings) (workflow registry : String) :
    m Report := do
  match ← prepare files settings registry workflow with
  | .error message => return .failed message [] ""
  | .ok (compiler, doc) =>
    match (compiler.load doc).result with
    | .error failure => return .failed ("Migration failed: " ++ failure.message) [] ""
    | .ok loaded =>
      let notes := if loaded.missing.isEmpty then []
        else ["Missing node types: " ++ missingText loaded.missing]
      return .success (prettyLine loaded.document.toJson) notes

def runCompact (files : FileAccess m) (workflow : String) : m Report := do
  match ← files.readDocument workflow with
  | .error failure =>
    return .failed ("Failed to load workflow '" ++ workflow ++ "': " ++ failure.message) [] ""
  | .ok doc =>
    match doc.compact with
    | .error cause =>
      return .failed ("Compaction failed: " ++ (Failure.inconsistent cause).message) [] ""
    | .ok compact => return .success (prettyLine compact.toJson) []

/-- A group with its inputs and outputs. -/
def groupText (group : GroupDef) : String :=
  line (group.type ++ " (" ++ toString group.config.nodes.length ++ " members)") ++
    String.join (group.operation.input.required.map fun e => line ("  in:  " ++ e.1)) ++
    String.join (group.operation.outputNames.map fun name => line ("  out: " ++ name))

def runGroups (files : FileAccess m) (settings : Settings) (workflow registry : String) :
    m Report := do
  match ← prepare files settings registry workflow with
  | .error message => return .failed message [] ""
  | .ok (compiler, doc) =>
    match (compiler.load doc).result with
    | .error failure => return .failed ("Loading failed: " ++ failure.message) [] ""
    | .ok loaded =>
      if loaded.groups.isEmpty then return .success (line "No group nodes defined.") []
      else return .success (String.join (loaded.groups.map groupText)) []

def readSettings (files : FileAccess m) (path : Option String) : m (Except Failure Settings) :=
  match path with
  | none => return .ok .standard
  | some path => files.readSettings path

def runCommand (files : FileAccess m) (settings : Settings) : Command → m Report
  | .compile workflow registry output snapshot =>
    runCompile files settings workflow registry output snapshot
  | .migrate workflow registry => runMigrate files settings workflow registry
  | .compact workflow => runCompact files workflow
  | .groups workflow registry => runGroups files settings workflow registry

/-- Runs the program on its arguments. -/
def run (files : FileAccess m) (arguments : List String) : m Report := do
  match Invocation.ofArguments arguments with
  | .error interruption => return .ofInterruption interruption
  | .ok call =>
    match ← readSettings files call.settings with
    | .error failure => return .failed ("Failed to load config: " ++ failure.message) [] ""
    | .ok settings => runCommand files settings call.command

end Patchbay.CommandLine
