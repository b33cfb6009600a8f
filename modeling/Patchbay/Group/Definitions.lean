import Patchbay.Group.Interface

/-!
All definitions that are visible while a document is compiled: the registry and the groups of the
document. A group that contains other groups is described after them.
-/
set_option autoImplicit false

namespace Patchbay

/-- The registry together with groups by their type. -/
structure Definitions where
  registry : Registry
  groups : Table GroupDef
deriving DecidableEq

namespace Definitions

def ofRegistry (r : Registry) : Definitions := ⟨r, .empty⟩

def insert (defs : Definitions) (group : GroupDef) : Definitions :=
  { defs with groups := defs.groups.insert group.type group }

def group? (defs : Definitions) (type : String) : Option GroupDef := defs.groups.get? type

/-- The operation of a type; the registry comes before the groups. -/
def operation? (defs : Definitions) (type : String) : Option Operation :=
  (defs.registry.operation? type).or ((defs.group? type).map (·.operation))

def isKnown (defs : Definitions) (type : String) : Bool :=
  defs.registry.isKnown type || defs.groups.contains type

/-- Describes a group by the definitions at hand. -/
def describe (defs : Definitions) (name : String) (config : GroupConfig) : GroupDef :=
  .build config name defs.registry defs.operation?

def add (defs : Definitions) (entry : String × GroupConfig) : Definitions :=
  defs.insert (defs.describe entry.1 entry.2)

/-- Every member whose type is that of a group is defined already. -/
def covers (defs : Definitions) (config : GroupConfig) : Bool :=
  config.nodes.all fun node =>
    !isGroupType node.type || (defs.operation? node.type).isSome

def ready (defs : Definitions) (pending : List (String × GroupConfig)) :
    List (String × GroupConfig) :=
  pending.filter fun entry => defs.covers entry.2

def waiting (defs : Definitions) (pending : List (String × GroupConfig)) :
    List (String × GroupConfig) :=
  pending.filter fun entry => !defs.covers entry.2

theorem length_waiting_lt {defs : Definitions} {pending : List (String × GroupConfig)}
    (progress : ¬ (defs.ready pending).isEmpty) :
    (defs.waiting pending).length < pending.length := by
  obtain ⟨entry, member⟩ := List.exists_mem_of_ne_nil _ (mt List.isEmpty_iff.2 progress)
  obtain ⟨pendingEntry, covered⟩ := List.mem_filter.1 member
  exact List.length_filter_lt_length_iff_exists.2 ⟨entry, pendingEntry, by simp [covered]⟩

/-- Adds groups in passes: first those that are covered by what there is, then, with them at hand, the
others. If no group is covered, the rest is added as it stands. -/
def addAll (defs : Definitions) (pending : List (String × GroupConfig)) : Definitions :=
  if _stuck : (defs.ready pending).isEmpty then pending.foldl add defs
  else addAll ((defs.ready pending).foldl add defs) (defs.waiting pending)
termination_by pending.length
decreasing_by exact length_waiting_lt _stuck

/-- The definitions of a registry and of all groups of a document. -/
def withGroups (r : Registry) (configs : Table GroupConfig) : Definitions :=
  addAll (ofRegistry r) configs.entries

end Definitions
end Patchbay
