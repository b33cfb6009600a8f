import Patchbay.Proofs.Checked.Planning
import Patchbay.Proofs.Prompt.Idle

/-!
The search for producers with checked steps. A virtual node counts its inputs from its outputs by a plain sum, which
can be larger than the last word; a search fails if it comes to such a node, and at nothing else.
-/
set_option autoImplicit false

namespace Patchbay

theorem eq_none_iff {α : Type} {result : Option α} {value : α} {fails : Prop} (stops : fails → result = none)
    (goes : ¬ fails → result = some value) : result = none ↔ fails := by
  refine ⟨fun failed => ?_, stops⟩
  by_contra fine
  rw [goes fine] at failed
  cases failed

namespace Node

-- The data slot and the number of sequencing inputs make no word.
def Overruns (node : Node) (slot : Word) : Prop :=
  node.flowOutputCount ≤ slot.toNat ∧ UInt64.size ≤ slot.toNat - node.flowOutputCount + node.flowInputCount

instance (node : Node) (slot : Word) : Decidable (node.Overruns slot) := inferInstanceAs (Decidable (_ ∧ _))

def passVirtual? (node : Node) (slot : Word) : Option (Option Nat) :=
  match slot.lower? node.flowOutputCount with
  | none => some none
  | some dataSlot => (dataSlot.add? node.flowInputCount).map fun input => some input.toNat

def passOn? (node : Node) (r : Registry) (type : String) (slot : Word) : Option (Option Nat) :=
  match r.participation node with
  | .virtual => node.passVirtual? slot
  | .bypassed => some (node.bypassInput? type slot)
  | .normal | .muted => some none

theorem passVirtual?_eq_none {node : Node} {slot : Word} (overrun : node.Overruns slot) :
    node.passVirtual? slot = none := by
  rw [passVirtual?, Word.lower?_eq overrun.1]
  simp only [Option.map_eq_none_iff]
  exact Word.add?_eq_none (by rw [Word.toNat_lower]; exact overrun.2)

theorem passVirtual?_eq {node : Node} {slot : Word} (within : ¬ node.Overruns slot) :
    node.passVirtual? slot = some (node.virtualInput? slot) := by
  rw [passVirtual?, virtualInput?]
  by_cases data : node.flowOutputCount ≤ slot.toNat
  · have room : slot.toNat - node.flowOutputCount + node.flowInputCount < UInt64.size :=
      Nat.lt_of_not_le fun overrun => within ⟨data, overrun⟩
    have sum : ((slot.lower node.flowOutputCount).raise node.flowInputCount).toNat =
        (Word.ofCount node.flowInputCount + slot.lower node.flowOutputCount).toNat := by
      rw [UInt64.toNat_add, Word.ofCount, UInt64.toNat_ofNat', Word.toNat_raise, Word.toNat_lower]
      simp only [UInt64.size] at room ⊢
      omega
    rw [Word.lower?_eq data]
    simp only [Word.add?_eq (w := slot.lower node.flowOutputCount) (by rw [Word.toNat_lower]; exact room),
      Option.map_some, sum]
  · rw [(Word.lower?_eq_none_iff slot node.flowOutputCount).2 (Nat.lt_of_not_le data)]
    rfl

theorem passOn?_eq_none {node : Node} {r : Registry} (type : String) {slot : Word}
    (role : r.participation node = .virtual) (overrun : node.Overruns slot) : node.passOn? r type slot = none := by
  rw [passOn?, role]
  exact passVirtual?_eq_none overrun

theorem passOn?_eq {node : Node} {r : Registry} (type : String) {slot : Word}
    (within : r.participation node = .virtual → ¬ node.Overruns slot) :
    node.passOn? r type slot = some (node.passedInput? r type slot) := by
  rw [passOn?, passedInput?]
  cases role : r.participation node with
  | normal => rfl
  | muted => rfl
  | virtual => exact passVirtual?_eq (within role)
  | bypassed => rfl

end Node

namespace Graph

variable {g : Graph} {r : Registry} {type : String}

def follow? (g : Graph) (r : Registry) (type : String) (unvisited : List NodeId) (link : Link) :
    Option (Option Producer) :=
  match g.node? link.origin with
  | none => some none
  | some node =>
    if link.origin ∈ unvisited then
      if r.participation node = .normal then some (some ⟨link.origin, link.originSlot⟩)
      else match node.passOn? r type link.originSlot with
      | none => none
      | some passed =>
        match passed.bind (g.incoming? link.origin) with
        | none => some none
        | some next => follow? g r type (without link.origin unvisited) next
    else some none
termination_by unvisited.length
decreasing_by exact length_without_lt (by assumption)

/-- The search leads to a virtual node that counts beyond the last word. -/
inductive Overshoots (g : Graph) (r : Registry) (type : String) : List NodeId → Link → Prop
  | here {unvisited : List NodeId} {link : Link} {node : Node} (found : g.node? link.origin = some node)
      (unseen : link.origin ∈ unvisited) (role : r.participation node = .virtual)
      (overrun : node.Overruns link.originSlot) : Overshoots g r type unvisited link
  | onward {unvisited : List NodeId} {link next : Link} {node : Node} {input : Nat}
      (found : g.node? link.origin = some node) (unseen : link.origin ∈ unvisited)
      (passed : node.passedInput? r type link.originSlot = some input)
      (fed : g.incoming? link.origin input = some next)
      (later : Overshoots g r type (without link.origin unvisited) next) : Overshoots g r type unvisited link

theorem Overshoots.follow? {unvisited : List NodeId} {link : Link} (overrun : g.Overshoots r type unvisited link) :
    g.follow? r type unvisited link = none := by
  induction overrun with
  | here found unseen role overrun =>
    rw [Graph.follow?]
    simp [found, unseen, role, Node.passOn?_eq_none type role overrun]
  | @onward unvisited link next node input found unseen passed fed later ih =>
    have passes : r.participation node ≠ .normal := by
      intro normal
      simp [Node.passedInput?, normal] at passed
    rw [Graph.follow?]
    by_cases overrun : r.participation node = .virtual ∧ node.Overruns link.originSlot
    · simp [found, unseen, overrun.1, Node.passOn?_eq_none type overrun.1 overrun.2]
    · rw [not_and] at overrun
      simp [found, unseen, passes, Node.passOn?_eq type overrun, passed, fed, ih]

theorem follow?_eq {unvisited : List NodeId} {link : Link} (within : ¬ g.Overshoots r type unvisited link) :
    g.follow? r type unvisited link = some (g.follow r type unvisited link) := by
  fun_induction Graph.follow? g r type unvisited link with
  | case1 unvisited link none =>
    rw [follow_eq, none]
    rfl
  | case2 unvisited link node found unseen normal =>
    rw [follow_eq, found]
    simp [unseen, normal]
  | case3 unvisited link node found unseen passes failed =>
    rw [Node.passOn?_eq type fun role overrun => within (.here found unseen role overrun)] at failed
    cases failed
  | case4 unvisited link node found unseen passes passed passedOn unfed =>
    rw [Node.passOn?_eq type fun role overrun => within (.here found unseen role overrun), Option.some.injEq] at passedOn
    rw [follow_eq, found]
    simp [unseen, passes, passedOn, unfed]
  | case5 unvisited link node found unseen passes passed passedOn next fed ih =>
    rw [Node.passOn?_eq type fun role overrun => within (.here found unseen role overrun), Option.some.injEq] at passedOn
    obtain ⟨input, reached, arrives⟩ := Option.bind_eq_some_iff.1 fed
    rw [ih fun later => within (.onward found unseen (passedOn.trans reached) arrives later),
      follow_eq g r type unvisited link, found]
    simp [unseen, passes, passedOn, fed]
  | case6 unvisited link node found seen =>
    rw [follow_eq, found]
    simp [seen]

-- What an input holds is looked up without a search; only the search can fail.
def resolveInput? (g : Graph) (r : Registry) (id : NodeId) (slot : Nat) : Option (Option Producer) :=
  match g.inputAt? id slot, g.incoming? id slot with
  | some input, some link => g.follow? r input.type g.nodeIds link
  | _, _ => some none

/-- The search from this input fails. -/
def OvershootsAt (g : Graph) (r : Registry) (id : NodeId) (slot : Nat) : Prop :=
  ∃ input link, g.inputAt? id slot = some input ∧ g.incoming? id slot = some link ∧
    g.Overshoots r input.type g.nodeIds link

theorem resolveInput?_eq_none {id : NodeId} {slot : Nat} (overrun : g.OvershootsAt r id slot) :
    g.resolveInput? r id slot = none := by
  obtain ⟨input, link, present, fed, search⟩ := overrun
  rw [resolveInput?, present, fed]
  exact search.follow?

theorem resolveInput?_eq {id : NodeId} {slot : Nat} (within : ¬ g.OvershootsAt r id slot) :
    g.resolveInput? r id slot = some (g.resolveInput r id slot) := by
  rw [resolveInput?, resolveInput_eq]
  cases present : g.inputAt? id slot with
  | none => rfl
  | some input =>
    cases fed : g.incoming? id slot with
    | none => rfl
    | some link => exact follow?_eq fun search => within ⟨input, link, present, fed, search⟩

instance (g : Graph) (r : Registry) (id : NodeId) (slot : Nat) : Decidable (g.OvershootsAt r id slot) :=
  decidable_of_iff (g.resolveInput? r id slot = none) (eq_none_iff resolveInput?_eq_none resolveInput?_eq)

theorem resolveInput?_eq_ite (g : Graph) (r : Registry) (id : NodeId) (slot : Nat) : g.resolveInput? r id slot =
    if g.OvershootsAt r id slot then none else some (g.resolveInput r id slot) := by
  split
  · exact resolveInput?_eq_none ‹_›
  · exact resolveInput?_eq ‹_›

end Graph

/-! ### Prompts -/

section Folds

variable {α β : Type} {step : β → α → Option β} {free : β → α → β} {fails : α → Prop}

-- If the steps that fail are told by the entries alone, one such entry is enough for the whole fold to fail.
theorem foldlM_eq_none (list : List α) (start : β) (stops : ∀ b x, fails x → step b x = none)
    (goes : ∀ b x, ¬ fails x → step b x = some (free b x)) (met : ∃ x ∈ list, fails x) :
    list.foldlM step start = none := by
  induction list generalizing start with
  | nil => simp at met
  | cons x rest ih =>
    rw [List.foldlM_cons]
    by_cases failed : fails x
    · rw [stops start x failed]
      rfl
    · rw [goes start x failed]
      obtain ⟨y, member, there⟩ := met
      rcases List.mem_cons.1 member with rfl | later
      · exact absurd there failed
      · exact ih _ ⟨y, later, there⟩

theorem foldlM_eq_foldl (list : List α) (start : β) (goes : ∀ b x, ¬ fails x → step b x = some (free b x))
    (clear : ∀ x ∈ list, ¬ fails x) : list.foldlM step start = some (list.foldl free start) := by
  induction list generalizing start with
  | nil => rfl
  | cons x rest ih =>
    rw [List.foldlM_cons, goes start x (clear x List.mem_cons_self)]
    exact ih _ fun y member => clear y (List.mem_cons_of_mem _ member)

end Folds

namespace Graph

variable {g : Graph} {defs : Definitions}

def linkInput? (g : Graph) (r : Registry) (node : Node) (i : Instruction) (entry : InputSlot × Nat) :
    Option Instruction :=
  let (slot, index) := entry
  if slot.isFlow || slot.link.isNone then some i
  else (g.resolveInput? r node.id index).map fun
    | none => i
    | some producer =>
      let flowOutputs := ((g.node? producer.node).map (·.flowOutputCount)).getD 0
      i.setLink slot.name producer.node.display (producer.slot.lower flowOutputs)

def instruction? (g : Graph) (defs : Definitions) (node : Node) : Option Instruction :=
  node.inputs.zipIdx.foldlM (g.linkInput? defs.registry node)
    ((literals defs node).foldl (fun i widget => i.setLiteral widget.name widget.value) (Instruction.empty node.type))

def addInstruction? (g : Graph) (defs : Definitions) (prompt : Prompt) (id : NodeId) : Option Prompt :=
  match g.node? id with
  | none => some prompt
  | some node =>
    if defs.registry.participation node = .normal then
      (g.instruction? defs node).map (prompt.insert node.id.display)
    else some prompt

def serialize? (g : Graph) (defs : Definitions) (order : List NodeId) : Option Prompt :=
  (order.foldlM (g.addInstruction? defs) .empty).map Prompt.prune

-- A linked data input from which the search fails.
def LostInput (g : Graph) (r : Registry) (node : Node) (entry : InputSlot × Nat) : Prop :=
  (entry.1.isFlow || entry.1.link.isNone) = false ∧ g.OvershootsAt r node.id entry.2

theorem linkInput?_eq_none {r : Registry} {node : Node} (i : Instruction) {entry : InputSlot × Nat}
    (lost : g.LostInput r node entry) : g.linkInput? r node i entry = none := by
  simp [linkInput?, lost.1, resolveInput?_eq_none lost.2]

theorem linkInput?_eq {r : Registry} {node : Node} (i : Instruction) {entry : InputSlot × Nat}
    (kept : ¬ g.LostInput r node entry) : g.linkInput? r node i entry = some (g.linkInput r node i entry) := by
  rw [linkInput?, linkInput]
  cases idle : entry.1.isFlow || entry.1.link.isNone with
  | true => rfl
  | false =>
    have searched : g.resolveInput? r node.id entry.2 = some (g.resolveInput r node.id entry.2) :=
      resolveInput?_eq fun overrun => kept ⟨idle, overrun⟩
    rw [searched]
    cases g.resolveInput r node.id entry.2 <;> rfl

-- A node that gives an instruction and has such an input.
def LosesInput (g : Graph) (defs : Definitions) (id : NodeId) : Prop :=
  ∃ node, g.node? id = some node ∧ defs.registry.participation node = .normal ∧
    ∃ entry ∈ node.inputs.zipIdx, g.LostInput defs.registry node entry

theorem addInstruction?_eq_none (prompt : Prompt) {id : NodeId} (lost : g.LosesInput defs id) :
    g.addInstruction? defs prompt id = none := by
  obtain ⟨node, found, normal, inputs⟩ := lost
  have failed : g.instruction? defs node = none :=
    foldlM_eq_none _ _ (fun i _ => linkInput?_eq_none i) (fun i _ => linkInput?_eq i) inputs
  simp [addInstruction?, found, normal, failed]

theorem addInstruction?_eq (prompt : Prompt) {id : NodeId} (kept : ¬ g.LosesInput defs id) :
    g.addInstruction? defs prompt id = some (g.addInstruction defs prompt id) := by
  rw [addInstruction?, addInstruction]
  cases found : g.node? id with
  | none => rfl
  | some node =>
    by_cases normal : defs.registry.participation node = .normal
    · have made : g.instruction? defs node = some (g.instruction defs node) :=
        foldlM_eq_foldl _ _ (fun i _ => linkInput?_eq i)
          fun entry member lost => kept ⟨node, found, normal, entry, member, lost⟩
      simp [normal, made]
    · simp [normal]

/-- Some node of the order has an input from which the search fails. -/
def Stumbles (g : Graph) (defs : Definitions) (order : List NodeId) : Prop := ∃ id ∈ order, g.LosesInput defs id

theorem serialize?_eq_none {order : List NodeId} (stumbles : g.Stumbles defs order) : g.serialize? defs order = none := by
  rw [serialize?, foldlM_eq_none _ _ (fun prompt _ => addInstruction?_eq_none prompt)
    (fun prompt _ => addInstruction?_eq prompt) stumbles]
  rfl

theorem serialize?_eq {order : List NodeId} (clear : ¬ g.Stumbles defs order) :
    g.serialize? defs order = some (g.serialize defs order) := by
  rw [serialize?, foldlM_eq_foldl _ _ (fun prompt _ => addInstruction?_eq prompt) fun id member lost =>
    clear ⟨id, member, lost⟩]
  rfl

instance (g : Graph) (defs : Definitions) (order : List NodeId) : Decidable (g.Stumbles defs order) :=
  decidable_of_iff (g.serialize? defs order = none) (eq_none_iff serialize?_eq_none serialize?_eq)

theorem serialize?_eq_ite (g : Graph) (defs : Definitions) (order : List NodeId) : g.serialize? defs order =
    if g.Stumbles defs order then none else some (g.serialize defs order) := by
  split
  · exact serialize?_eq_none ‹_›
  · exact serialize?_eq ‹_›

end Graph
end Patchbay
