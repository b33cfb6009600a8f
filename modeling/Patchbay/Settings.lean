import Patchbay.Json.Codec
import Patchbay.Registry

/-!
Settings of a compiler: additions to the tables of the registry, and what its callers need.
-/
set_option autoImplicit false

namespace Patchbay

structure RegistrySettings where
  renames : Table String
  widgetTypes : List String
  virtualNodes : Table VirtualKind
deriving DecidableEq

structure QueueSettings where
  buffer : Word
  seed : Option Word
deriving DecidableEq

structure Settings where
  registry : RegistrySettings
  /-- Where the compact form of every compiled document is written. -/
  snapshotPath : Option String
  queue : QueueSettings
  logFilter : String
deriving DecidableEq

namespace Settings

def standard : Settings :=
  ⟨⟨.empty, [], .empty⟩, none, ⟨16, none⟩, "kumitate=info,warn"⟩

/-- Adds the configured entries to the tables of a registry. -/
def apply (settings : Settings) (r : Registry) : Registry :=
  { r with
    renames := r.renames.insertAll settings.registry.renames.entries
    widgetTypes := r.widgetTypes ++ settings.registry.widgetTypes
    virtualNodes := r.virtualNodes.insertAll settings.registry.virtualNodes.entries }

def toJson (settings : Settings) : Json :=
  let r := settings.registry
  .object [
    ("registry", .object [
      ("renames", (Codec.table .string).write r.renames),
      ("widget_types", (Codec.list .string).write r.widgetTypes),
      ("virtual_nodes", .object (r.virtualNodes.entries.map fun e => (e.1, .text e.2.name)))]),
    ("snapshot", .object [("path", .ofText? settings.snapshotPath)]),
    ("queue", .object [
      ("buffer", .ofWord settings.queue.buffer),
      ("seed", (Codec.nullable .linkId).write settings.queue.seed)]),
    ("log", .object [("filter", .text settings.logFilter)])]

end Settings
end Patchbay
