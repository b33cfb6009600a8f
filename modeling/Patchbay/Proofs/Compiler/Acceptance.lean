import Patchbay.Proofs.Compiler.Agreement
import Patchbay.Proofs.Sequencing.Migration

/-!
Which documents are refused. Stored sequencing data can be at odds with the nodes that it is for; the chain
that a document from before sequencing is given never is, whatever else is wrong with that document.
-/
set_option autoImplicit false

namespace Patchbay

theorem Node.mixesForms_iff (node : Node) : node.mixesForms = true ↔
    (node.compactInputs ≠ [] ∨ node.compactOutputs ≠ []) ∧
      ((∃ slot ∈ node.inputs, slot.isFlow = true) ∨ ∃ slot ∈ node.outputs, slot.isFlow = true) := by
  have slots : node.hasFlowSlot = true ↔
      (∃ slot ∈ node.inputs, slot.isFlow = true) ∨ ∃ slot ∈ node.outputs, slot.isFlow = true := by
    rw [hasFlowSlot, Bool.or_eq_true, decide_eq_true_eq, decide_eq_true_eq, flowInputCount, flowOutputCount,
      List.countP_pos_iff, List.countP_pos_iff]
  rw [mixesForms, Bool.and_eq_true, slots]
  simp

theorem mem_of_mem_placeQueue (successors : NodeId → List NodeId) (counts : List (NodeId × Nat))
    (waiting queue : List NodeId) {id : NodeId} (member : id ∈ placeQueue successors counts waiting queue) :
    id ∈ waiting := by
  fun_induction placeQueue successors counts waiting queue with
  | case1 => exact member
  | case2 counts waiting first queue inside counts' ready released ih =>
    rcases List.mem_cons.1 member with rfl | later
    · exact inside
    · exact (List.mem_filter.1 (ih later)).1
  | case3 counts waiting first queue absent ih => exact ih member

namespace Document

-- The ways in which stored sequencing data does not fit the nodes of a document.
inductive AtOdds (doc : Document) : Prop where
  | mixed (node : Node) (member : node ∈ doc.nodes)
      (stored : node.compactInputs ≠ [] ∨ node.compactOutputs ≠ [])
      (slot : (∃ slot ∈ node.inputs, slot.isFlow = true) ∨ ∃ slot ∈ node.outputs, slot.isFlow = true)
  | noOrigin (flow : FlowLink) (member : flow ∈ doc.flowLinkList) (absent : flow.origin ∉ doc.nodeIds)
  | noTarget (flow : FlowLink) (member : flow ∈ doc.flowLinkList) (absent : flow.target ∉ doc.nodeIds)
  | noOutput (flow : FlowLink) (member : flow ∈ doc.flowLinkList) (origin : Node) (inside : origin ∈ doc.nodes)
      (same : origin.id = flow.origin) (beyond : origin.compactOutputs.length ≤ flow.originSlot.toNat)
  | noInput (flow : FlowLink) (member : flow ∈ doc.flowLinkList) (target : Node) (inside : target ∈ doc.nodes)
      (same : target.id = flow.target) (beyond : target.compactInputs.length ≤ flow.targetSlot.toNat)

section Stored

variable (doc : Document)

theorem findLast?_startWeave_isSome (id : NodeId) :
    (findLast? doc.startWeave.nodes id).isSome ↔ id ∈ doc.nodeIds := by
  rw [findLast?_isSome_iff, startWeave, List.any_map, List.any_eq_true, nodeIds, List.mem_map]
  simp only [Function.comp, beq_iff_eq]
  rfl

theorem fits_startWeave_iff (flow : FlowLink) : doc.startWeave.Fits doc.compactShifts flow ↔
    flow.origin ∈ doc.nodeIds ∧ flow.target ∈ doc.nodeIds ∧
      flow.originSlot.toNat < (doc.compactShifts flow.origin).2 ∧
        flow.targetSlot.toNat < (doc.compactShifts flow.target).1 := by
  rw [← doc.findLast?_startWeave_isSome, ← doc.findLast?_startWeave_isSome]
  exact ⟨fun fits => ⟨fits.origin, fits.target, fits.originSlot, fits.targetSlot⟩,
    fun ⟨origin, target, originSlot, targetSlot⟩ => ⟨origin, target, originSlot, targetSlot⟩⟩

theorem materialize_ok_iff (compact : doc.hasCompactFlow = true) :
    (∃ runtime, doc.materialize = .ok runtime) ↔
      (∀ node ∈ doc.nodes, node.mixesForms = false) ∧
        ∀ flow ∈ doc.flowLinkList, doc.startWeave.Fits doc.compactShifts flow := by
  simp only [materialize_eq_ok_iff doc _ compact, ← Weave.foldlM_add_ok_iff]
  constructor
  · rintro ⟨_, unmixed, w, run, _⟩
    exact ⟨unmixed, w, run⟩
  · rintro ⟨unmixed, w, run⟩
    exact ⟨_, unmixed, w, run, rfl⟩

-- Which of several nodes with one id counts plays no part where there is only one.
theorem compactShifts_of_distinct (distinct : doc.nodeIds.Nodup) {node : Node} (member : node ∈ doc.nodes) :
    doc.compactShifts node.id = (node.compactInputs.length, node.compactOutputs.length) :=
  shiftsOf_of_mem _ distinct member

variable {doc}

theorem fits_of_not_atOdds (distinct : doc.nodeIds.Nodup) (sound : ¬ doc.AtOdds) {flow : FlowLink}
    (member : flow ∈ doc.flowLinkList) : doc.startWeave.Fits doc.compactShifts flow := by
  have origin : flow.origin ∈ doc.nodeIds := by
    by_contra absent
    exact sound (.noOrigin flow member absent)
  have target : flow.target ∈ doc.nodeIds := by
    by_contra absent
    exact sound (.noTarget flow member absent)
  obtain ⟨first, insideFirst, sameFirst⟩ := List.mem_map.1 origin
  obtain ⟨second, insideSecond, sameSecond⟩ := List.mem_map.1 target
  refine (doc.fits_startWeave_iff flow).2 ⟨origin, target, ?_, ?_⟩
  · rw [← sameFirst, doc.compactShifts_of_distinct distinct insideFirst]
    by_contra beyond
    exact sound (.noOutput flow member first insideFirst sameFirst (Nat.le_of_not_lt beyond))
  · rw [← sameSecond, doc.compactShifts_of_distinct distinct insideSecond]
    by_contra beyond
    exact sound (.noInput flow member second insideSecond sameSecond (Nat.le_of_not_lt beyond))

theorem unmixed_of_not_atOdds (sound : ¬ doc.AtOdds) {node : Node} (member : node ∈ doc.nodes) :
    node.mixesForms = false := by
  by_contra mixes
  obtain ⟨stored, slot⟩ := node.mixesForms_iff.1 (by simpa using mixes)
  exact sound (.mixed node member stored slot)

theorem not_atOdds_of_fits (unmixed : ∀ node ∈ doc.nodes, node.mixesForms = false)
    (fits : ∀ flow ∈ doc.flowLinkList, doc.startWeave.Fits doc.compactShifts flow)
    (distinct : doc.nodeIds.Nodup) : ¬ doc.AtOdds := by
  intro odds
  cases odds with
  | mixed node member stored slot =>
    have mixes := node.mixesForms_iff.2 ⟨stored, slot⟩
    rw [unmixed node member] at mixes
    cases mixes
  | noOrigin flow member absent => exact absent ((doc.fits_startWeave_iff flow).1 (fits flow member)).1
  | noTarget flow member absent => exact absent ((doc.fits_startWeave_iff flow).1 (fits flow member)).2.1
  | noOutput flow member origin inside same beyond =>
    have within := (fits flow member).originSlot
    rw [← same, doc.compactShifts_of_distinct distinct inside] at within
    exact Nat.not_lt_of_le beyond within
  | noInput flow member target inside same beyond =>
    have within := (fits flow member).targetSlot
    rw [← same, doc.compactShifts_of_distinct distinct inside] at within
    exact Nat.not_lt_of_le beyond within

theorem not_atOdds_iff (distinct : doc.nodeIds.Nodup) : ¬ doc.AtOdds ↔
    (∀ node ∈ doc.nodes, node.mixesForms = false) ∧
      ∀ flow ∈ doc.flowLinkList, doc.startWeave.Fits doc.compactShifts flow :=
  ⟨fun sound => ⟨fun _ => unmixed_of_not_atOdds sound, fun _ => fits_of_not_atOdds distinct sound⟩,
    fun ⟨unmixed, fits⟩ => not_atOdds_of_fits unmixed fits distinct⟩

end Stored

/-! ### Documents without stored sequencing data -/

theorem addChain_unmixed (doc : Document) (r : Registry) (plain : ∀ node ∈ doc.nodes, node.hasFlowSlot = false) :
    ∀ node ∈ (doc.addChain r).nodes, node.mixesForms = false := by
  intro node member
  obtain ⟨stored, inside, _, inputs, outputs⟩ := exists_alike (doc.addChain_views r) member
  have bare : node.hasFlowSlot = false := by
    rw [← plain stored inside, Node.hasFlowSlot, Node.hasFlowSlot, Node.flowInputCount, Node.flowOutputCount,
      Node.flowInputCount, Node.flowOutputCount, inputs, outputs]
  rw [Node.mixesForms, bare, Bool.and_false]

theorem addChain_fits (doc : Document) (r : Registry) {flow : FlowLink}
    (member : flow ∈ (doc.addChain r).flowLinkList) :
    (doc.addChain r).startWeave.Fits (doc.addChain r).compactShifts flow := by
  obtain ⟨before, after, order⟩ := exists_of_mem_chainLinks member
  obtain ⟨originSlot, targetSlot⟩ := slots_of_mem_chainLinks member
  have candidate : ∀ id ∈ doc.flowOrder r, id ∈ doc.orderCandidates r :=
    fun id placed => mem_of_mem_placeQueue _ _ _ _ placed
  have origin := candidate flow.origin (by rw [order]; simp)
  have target := candidate flow.target (by rw [order]; simp)
  have ids : (doc.addChain r).nodeIds = doc.nodeIds := by
    have views := congrArg (List.map Prod.fst) (doc.addChain_views r)
    rw [List.map_map, List.map_map] at views
    exact views
  rw [fits_startWeave_iff, ids, compactShifts_addChain origin, compactShifts_addChain target, originSlot, targetSlot]
  exact ⟨(mem_orderCandidates_iff.1 origin).1, (mem_orderCandidates_iff.1 target).1, Nat.zero_lt_one,
    Nat.zero_lt_one⟩

-- Ids may be repeated here: the chain is laid between ids whose last node has the slots of a chain.
theorem expand_ok_of_not_compact (doc : Document) (r : Registry) (plain : doc.hasCompactFlow = false) :
    ∃ runtime, doc.expand r = .ok runtime := by
  by_cases chain : doc.needsChain
  · have bare : ∀ node ∈ doc.nodes, node.hasFlowSlot = false := by
      simp only [needsChain, Bool.and_eq_true, Bool.not_eq_true', List.any_eq_false, Bool.not_eq_true] at chain
      exact chain.2
    rw [expand, if_pos chain]
    exact (materialize_ok_iff _ rfl).2 ⟨doc.addChain_unmixed r bare, fun flow => doc.addChain_fits r⟩
  · rw [expand, if_neg chain]
    exact ⟨doc, materialize_of_not_compact doc plain⟩

/-! ### Which documents are refused -/

theorem expand_of_compact (doc : Document) (r : Registry) (compact : doc.hasCompactFlow = true) :
    doc.expand r = doc.materialize := by
  have chain : doc.needsChain = false := by simp [needsChain, compact]
  rw [expand, chain]
  rfl

theorem expand_error_iff (doc : Document) (r : Registry) (distinct : doc.nodeIds.Nodup) :
    (∃ cause, doc.expand r = .error cause) ↔ doc.hasCompactFlow = true ∧ doc.AtOdds := by
  have failed : (∃ cause, doc.expand r = .error cause) ↔ ¬ ∃ runtime, doc.expand r = .ok runtime := by
    cases doc.expand r <;> simp
  rw [failed]
  cases compact : doc.hasCompactFlow with
  | false => simp [doc.expand_ok_of_not_compact r compact]
  | true =>
    rw [doc.expand_of_compact r compact, doc.materialize_ok_iff compact, ← not_atOdds_iff distinct, not_not]
    exact (and_iff_right rfl).symm

theorem sanitized_dataOnly (doc : Document) (defs : Definitions) (dataOnly : doc.DataOnly) :
    (doc.sanitized defs).DataOnly := by
  refine ⟨?_, dataOnly.links⟩
  intro node member
  obtain ⟨old, inside, rfl⟩ := List.mem_map.1 member
  by_cases known : defs.isKnown old.type
  · rw [if_pos known]
    exact dataOnly.slots old inside
  · rw [if_neg known]
    exact dataOnly.slots old inside

theorem hasCompactFlow_sanitized (doc : Document) (defs : Definitions) :
    (doc.sanitized defs).hasCompactFlow = doc.hasCompactFlow := by
  simp only [hasCompactFlow, sanitized, List.any_map]
  congr 2
  funext node
  by_cases known : defs.isKnown node.type <;> simp [known]

end Document

namespace Compiler

theorem normalize_legacy (c : Compiler) (doc : Document) (legacy : doc.supportsFlow = false)
    (plain : doc.hasCompactFlow = false) (dataOnly : doc.DataOnly) :
    ∃ p start, c.normalize doc = .ok p ∧ Document.RuntimeOf start p.runtime := by
  have bare := (doc.hasCompactFlow_renamed c.registry).trans plain
  rw [← Document.hasCompactFlow_sanitized _ (doc.definitions c.registry)] at bare
  obtain ⟨runtime, expanded⟩ := Document.expand_ok_of_not_compact _ c.registry bare
  have made := Document.runtimeOf_expand c.registry _ runtime
    (Document.sanitized_dataOnly _ _ (doc.renamed_dataOnly c.registry dataOnly)) (.inr legacy) expanded
  have normal : c.normalize doc = .ok ⟨doc.definitions c.registry, runtime,
      (doc.renamed c.registry).unknownTypes (doc.definitions c.registry)⟩ := by
    rw [Document.definitions] at expanded
    simp only [normalize, expanded]
    rfl
  exact ⟨_, _, normal, made⟩

theorem compile_legacy (c : Compiler) (noExtensions : c.extensions = []) (doc : Document)
    (legacy : doc.supportsFlow = false) (plain : doc.hasCompactFlow = false) (dataOnly : doc.DataOnly) :
    (∃ compiled, (c.compile doc).result = .ok compiled) ∧ ∃ loaded, (c.load doc).result = .ok loaded := by
  obtain ⟨p, start, normal, made⟩ := c.normalize_legacy doc legacy plain dataOnly
  obtain ⟨d, drafted⟩ := draft_ok p made
  constructor
  · exact ⟨_, (compile_eq_ok_iff noExtensions doc _).2 ⟨p, d, normal, drafted, rfl⟩⟩
  · rw [load_eq noExtensions, normal]
    exact ⟨_, rfl⟩

/-- Only documents with stored sequencing data are refused, and only for what is at odds in it. -/
theorem migration_error_iff :
    (∀ (r : Registry) (doc : Document), doc.nodeIds.Nodup →
      ((∃ cause, doc.expand r = .error cause) ↔ doc.hasCompactFlow = true ∧ doc.AtOdds)) ∧
    ∀ doc : Document, doc.supportsFlow = false → doc.hasCompactFlow = false → doc.DataOnly →
      (∀ r, ∃ runtime, doc.expand r = .ok runtime) ∧
        ∀ c : Compiler, c.extensions = [] →
          (∃ compiled, (c.compile doc).result = .ok compiled) ∧ ∃ loaded, (c.load doc).result = .ok loaded := by
  refine ⟨fun r doc distinct => doc.expand_error_iff r distinct, fun doc legacy plain dataOnly => ?_⟩
  exact ⟨fun r => doc.expand_ok_of_not_compact r plain,
    fun c noExtensions => c.compile_legacy noExtensions doc legacy plain dataOnly⟩

-- The second entry wants the output that the first one has, and a slot that is not there.
def overreaching : Document :=
  let sampler (id : Int64) : Node :=
    { Node.plain (.number id) "Sampler" with
      flowInputs := some [.plain "FROM"]
      flowOutputs := some [.plain "TO"] }
  { Document.empty with
    nodes := [sampler 1, sampler 2]
    flowLinks := some [⟨3, .number 1, 0, .number 2, 0, []⟩, ⟨4, .number 1, 0, .number 2, 1, []⟩] }

-- Two nodes feed each other, an id is repeated, one link ends nowhere, and no type is known.
def snarled : Document :=
  let mixer (id : Int64) (type : String) : Node :=
    { Node.plain (.number id) type with
      inputs := [{ InputSlot.plain "latent" "LATENT" with link := some 2 }]
      outputs := [{ OutputSlot.plain "LATENT" "LATENT" with links := some [1, 2], index := some 0 }] }
  { Document.empty with
    nodes := [mixer 1 "Mixer", mixer 2 "Fader", mixer 2 "Mixer"]
    links := [⟨1, .number 1, 0, .number 2, 0, "LATENT"⟩, ⟨2, .number 2, 0, .number 1, 0, "LATENT"⟩,
      ⟨2, .number 2, 0, .number 9, 7, "LATENT"⟩] }

theorem migration_error_iff_overreaching_snarled :
    (∃ cause, overreaching.expand .standard = .error cause) ∧ ¬ snarled.nodeIds.Nodup ∧ snarled.DataOnly ∧
      (∃ runtime, snarled.expand .standard = .ok runtime) ∧
        (∃ compiled, (studio.compile snarled).result = .ok compiled) ∧
          ∃ loaded, (studio.load snarled).result = .ok loaded := by
  have dataOnly : snarled.DataOnly := ⟨by decide, by decide⟩
  have odds : overreaching.AtOdds :=
    .noInput ⟨4, .number 1, 0, .number 2, 1, []⟩ (by decide) _ (List.mem_cons_of_mem _ List.mem_cons_self) rfl
      (by decide)
  have refused := (migration_error_iff.1 .standard overreaching (by decide)).2 ⟨rfl, odds⟩
  obtain ⟨expands, compiles⟩ := migration_error_iff.2 snarled rfl rfl dataOnly
  exact ⟨refused, by decide, dataOnly, expands .standard, compiles studio rfl⟩

end Compiler
end Patchbay
