import Patchbay.Document
import Patchbay.Settings.Reading

/-!
Files, by what reading and writing them gives. The same code runs on the file system and on a storage that
is a plain value.
-/
set_option autoImplicit false

namespace Patchbay

/-- Why a file cannot be read or written. -/
inductive AccessProblem where
  | notFound
  | notDirectory
  | isDirectory
  | nameTooLong
  | unusableName
  | notText
  | other (description : String)
deriving DecidableEq

def AccessProblem.message : AccessProblem → String
  | .notFound => "No such file or directory (os error 2)"
  | .notDirectory => "Not a directory (os error 20)"
  | .isDirectory => "Is a directory (os error 21)"
  | .nameTooLong => "File name too long (os error 36)"
  | .unusableName => "file name contained an unexpected NUL byte"
  | .notText => "stream did not contain valid UTF-8"
  | .other description => description

/-- Access to files by path. Both operations say why they fail. -/
structure FileAccess (m : Type → Type) where
  read : String → m (Except AccessProblem String)
  write : String → String → m (Except AccessProblem Unit)

namespace FileAccess

variable {m : Type → Type} [Monad m] {α : Type}

/-- Reads a file and makes something of its text. -/
def readAs (files : FileAccess m) (path : String) (parse : String → Except Failure α) :
    m (Except Failure α) := do
  match ← files.read path with
  | .ok text => return parse text
  | .error problem => return .error (.inaccessible path problem.message)

def readDocument (files : FileAccess m) (path : String) : m (Except Failure Document) :=
  files.readAs path fun text => (Document.codec.ofText text).mapError (Failure.ofTrouble · text)

def readRegistry (files : FileAccess m) (path : String) : m (Except Failure Registry) :=
  files.readAs path Registry.ofText

def readSettings (files : FileAccess m) (path : String) : m (Except Failure Settings) :=
  files.readAs path Settings.ofText

/-- Writes the stored text of a document. -/
def save (files : FileAccess m) (path : String) (doc : Document) : m (Except Failure Unit) := do
  match ← files.write path doc.render with
  | .ok _ => return .ok ()
  | .error problem => return .error (.inaccessible path problem.message)

end FileAccess

/-! ### A storage as a value -/

inductive FileContent where
  | text (value : String)
  | bytes (value : List UInt8)
deriving DecidableEq

def FileContent.read : FileContent → Except AccessProblem String
  | .text value => .ok value
  | .bytes value =>
    match String.fromUTF8? ⟨value.toArray⟩ with
    | some value => .ok value
    | none => .error .notText

/-- Where a walk has come to: names one inside the other, from the root or from the working directory. -/
structure Place where
  absolute : Bool
  names : List String
deriving DecidableEq

namespace Place

def text (p : Place) : String :=
  (if p.absolute then "/" else "") ++ "/".intercalate p.names

def inside (p : Place) (name : String) : Place := { p with names := p.names ++ [name] }

/-- The directory around a place. The root lies in itself. -/
def above (p : Place) : Place :=
  if p.names.getLast?.any (· ≠ "..") then { p with names := p.names.dropLast }
  else if p.absolute then p
  else p.inside ".."

end Place

/-- What a path leads to. -/
inductive Target where
  | directory
  /-- A name in a directory; a closed one has a separator behind it. -/
  | entry (place : Place) (closed : Bool)
deriving DecidableEq

/-- Files and directories by the text of their place. -/
structure Storage where
  files : Table FileContent
  directories : List String
  /-- Files that stay empty, whatever is written to them. -/
  sinks : List String
deriving DecidableEq

namespace Storage

def empty : Storage :=
  ⟨.empty, ["/bin", "/dev", "/etc", "/home", "/lib", "/opt", "/tmp", "/usr", "/var"], ["/dev/null"]⟩

/-- Every directory has one above it, and the walk begins in one. -/
def hasDirectory (s : Storage) (place : Place) : Bool :=
  place.names.all (· == "..") || s.directories.contains place.text

def content? (s : Storage) (place : Place) : Option FileContent :=
  if s.sinks.contains place.text then some (.text "") else s.files.get? place.text

def longestName : Nat := 255
def longestPath : Nat := 4095

def isTooLong (name : String) : Bool := longestName < name.utf8ByteSize

/-- One step of a walk. It must come to a directory. -/
def step (s : Storage) (place : Place) (name : String) : Except AccessProblem Place :=
  if name = "" ∨ name = "." then .ok place
  else if name = ".." then .ok place.above
  else if isTooLong name then .error .nameTooLong
  else if s.hasDirectory (place.inside name) then .ok (place.inside name)
  else if (s.content? (place.inside name)).isSome then .error .notDirectory
  else .error .notFound

/-- Follows a path up to its last name. -/
def target (s : Storage) (path : String) : Except AccessProblem Target :=
  if path.toList.contains '\x00' then .error .unusableName
  else if path = "" then .error .notFound
  else if longestPath < path.utf8ByteSize then .error .nameTooLong
  else
    match (path.splitOn "/").reverse.dropWhile (· = "") with
    | [] => .ok .directory
    | last :: before => do
      let place ← before.reverse.foldlM s.step ⟨path.startsWith "/", []⟩
      if last = "." ∨ last = ".." then return .directory
      else return .entry (place.inside last) (path.endsWith "/")

def read (s : Storage) (path : String) : Except AccessProblem String := do
  match ← s.target path with
  | .directory => .error .isDirectory
  | .entry place closed =>
    if place.names.getLast?.any isTooLong then .error .nameTooLong
    else if s.hasDirectory place then .error .isDirectory
    else match s.content? place with
    | none => .error .notFound
    | some content => if closed then .error .notDirectory else content.read

def put (s : Storage) (path : String) (content : FileContent) : Except AccessProblem Storage := do
  match ← s.target path with
  | .directory => .error .isDirectory
  | .entry place closed =>
    if closed then .error .isDirectory
    else if place.names.getLast?.any isTooLong then .error .nameTooLong
    else if s.hasDirectory place then .error .isDirectory
    else if s.sinks.contains place.text then .ok s
    else .ok { s with files := s.files.insert place.text content }

def text? (s : Storage) (path : String) : Option String :=
  match s.read path with
  | .ok text => some text
  | .error _ => none

/-- File access that works on a storage. -/
def access : FileAccess (StateM Storage) where
  read path := do return (← get).read path
  write path text := do
    match (← get).put path (.text text) with
    | .ok s =>
      set s
      return .ok ()
    | .error problem => return .error problem

end Storage
end Patchbay
