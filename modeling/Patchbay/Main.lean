import Patchbay.CommandLine

/-!
The program: arguments and files come from the operating system.
-/
set_option autoImplicit false

namespace Patchbay

def problemOf : IO.Error → AccessProblem
  | .noFileOrDirectory .. => .notFound
  | .inappropriateType _ code _ => if code = 20 then .notDirectory else .isDirectory
  | error => .other (toString error)

def readFile (path : String) : IO (Except AccessProblem String) := do
  try
    let bytes ← IO.FS.readBinFile path
    match String.fromUTF8? bytes with
    | some text => return .ok text
    | none => return .error .notText
  catch error => return .error (problemOf error)

def writeFile (path text : String) : IO (Except AccessProblem Unit) := do
  try
    IO.FS.writeFile path text
    return .ok ()
  catch error => return .error (problemOf error)

def fileSystem : FileAccess IO := ⟨readFile, writeFile⟩

end Patchbay

def main (arguments : List String) : IO UInt32 := do
  let report ← Patchbay.CommandLine.run Patchbay.fileSystem arguments
  for note in report.notes do
    IO.eprintln note
  IO.print report.output
  return UInt32.ofNat report.code
