import Mathlib.Data.List.Sigma
import Mathlib.Data.Nat.Find
import Patchbay.Extension

/-!
Extensions whose accesses to the document come in any order. How the run of an extension ends makes no difference
to the others nor to the document, and whoever gets a turn again and again comes to an end. Taking turns in the
order of a queue is one of these orders: `takeTurns_interleaves`.
-/
set_option autoImplicit false

namespace Patchbay

/-- What is left of an extension in a phase. It has the document for one access at a time, and goes on by what it
has seen; between two accesses others may have theirs. -/
inductive HookRun where
  | success
  | fail (reason : String)
  | crash (reason : String)
  | access (edit : Document → Document) (next : Document → HookRun)

namespace HookRun

def ended : HookRun → Bool
  | .access _ _ => false
  | _ => true

/-- The document after the next access, and what is left then. -/
def advance (doc : Document) : HookRun → Document × HookRun
  | .access edit next => (edit doc, next doc)
  | run => (doc, run)

/-- The same accesses, after which one run may fail or crash where the other one does not. -/
inductive SameAccesses : HookRun → HookRun → Prop where
  | ended (a b : HookRun) (left : a.ended) (right : b.ended) : SameAccesses a b
  | access (edit : Document → Document) (next other : Document → HookRun)
      (same : ∀ doc, SameAccesses (next doc) (other doc)) : SameAccesses (.access edit next) (.access edit other)

theorem SameAccesses.refl (run : HookRun) : SameAccesses run run := by
  induction run with
  | success => exact .ended _ _ rfl rfl
  | fail reason => exact .ended _ _ rfl rfl
  | crash reason => exact .ended _ _ rfl rfl
  | access edit next ih => exact .access edit next next ih

theorem SameAccesses.symm {a b : HookRun} (same : SameAccesses a b) : SameAccesses b a := by
  induction same with
  | ended a b left right => exact .ended b a right left
  | access edit next other _ ih => exact .access edit other next ih

theorem SameAccesses.ended_eq {a b : HookRun} (same : SameAccesses a b) : a.ended = b.ended := by
  cases same with
  | ended _ _ left right => rw [left, right]
  | access edit next other same => rfl

theorem advance_of_ended {run : HookRun} (ended : run.ended) (doc : Document) : run.advance doc = (doc, run) := by
  cases run with
  | access edit next => cases ended
  | success => rfl
  | fail reason => rfl
  | crash reason => rfl

theorem SameAccesses.advance {a b : HookRun} (same : SameAccesses a b) (doc : Document) :
    (a.advance doc).1 = (b.advance doc).1 ∧ SameAccesses (a.advance doc).2 (b.advance doc).2 := by
  cases same with
  | ended _ _ left right =>
    rw [advance_of_ended left, advance_of_ended right]
    exact ⟨rfl, .ended _ _ left right⟩
  | access edit next other same => exact ⟨rfl, same doc⟩

/-- The run that ends in success wherever this one comes to an end. -/
def excused : HookRun → HookRun
  | .access edit next => .access edit fun doc => (next doc).excused
  | _ => .success

theorem sameAccesses_excused (run : HookRun) : SameAccesses run run.excused := by
  induction run with
  | success => exact .ended _ _ rfl rfl
  | fail reason => exact .ended _ _ rfl rfl
  | crash reason => exact .ended _ _ rfl rfl
  | access edit next ih => exact .access edit _ _ ih

/-- A script as a run: each change is an access, and a change that fails leaves the document alone. -/
def ofSteps : List HookStep → HookRun
  | [] => .success
  | .yield :: rest => ofSteps rest
  | .note _ :: rest => ofSteps rest
  | .fail reason :: _ => .fail reason
  | .crash reason :: _ => .crash reason
  | .change edit :: rest =>
    .access (fun doc => (edit doc).toOption.getD doc) fun doc =>
      match edit doc with
      | .ok _ => ofSteps rest
      | .error reason => .fail reason

end HookRun

/-- The document of a phase, and what is left of the extensions. -/
structure Interplay where
  document : Document
  runs : List HookRun

namespace Interplay

def ended (s : Interplay) : Prop := ∀ run ∈ s.runs, run.ended = true

/-- The extension at a position has its next access, if there is one. -/
def step (s : Interplay) (position : Nat) : Interplay :=
  match s.runs[position]? with
  | none => s
  | some run => ⟨(run.advance s.document).1, s.runs.set position (run.advance s.document).2⟩

/-- Accesses in the order that a list of positions gives. -/
def perform (s : Interplay) (schedule : List Nat) : Interplay := schedule.foldl step s

section Steps

variable (s : Interplay)

theorem step_of_getElem? {position : Nat} {run : HookRun} (there : s.runs[position]? = some run) :
    s.step position = ⟨(run.advance s.document).1, s.runs.set position (run.advance s.document).2⟩ := by
  rw [step, there]

theorem step_of_length_le {position : Nat} (outside : s.runs.length ≤ position) : s.step position = s := by
  rw [step, List.getElem?_eq_none outside]

theorem getElem?_step (position other : Nat) : (s.step position).runs[other]? =
    if position = other then s.runs[other]?.map fun run => (run.advance s.document).2 else s.runs[other]? := by
  by_cases inside : position < s.runs.length
  · rw [s.step_of_getElem? (List.getElem?_eq_getElem inside)]
    by_cases here : position = other
    · subst here
      rw [if_pos rfl, List.getElem?_set_self inside, List.getElem?_eq_getElem inside]
      rfl
    · rw [if_neg here, List.getElem?_set_ne here]
  · rw [s.step_of_length_le (Nat.le_of_not_lt inside)]
    by_cases here : position = other
    · subst here
      rw [if_pos rfl, List.getElem?_eq_none (Nat.le_of_not_lt inside)]
      rfl
    · rw [if_neg here]

theorem perform_append (a b : List Nat) : s.perform (a ++ b) = (s.perform a).perform b := List.foldl_append

theorem length_step (position : Nat) : (s.step position).runs.length = s.runs.length := by
  rw [step]
  cases s.runs[position]? with
  | none => rfl
  | some run => exact List.length_set

end Steps

/-! ### Ends that make no difference -/

structure Alike (a b : Interplay) : Prop where
  document : a.document = b.document
  size : a.runs.length = b.runs.length
  runs : ∀ (position : Nat) (run other : HookRun), a.runs[position]? = some run → b.runs[position]? = some other →
    HookRun.SameAccesses run other

section Alike

variable {a b : Interplay}

theorem Alike.step (alike : a.Alike b) (position : Nat) : (a.step position).Alike (b.step position) := by
  have runs : ∀ (other : Nat) (x y : HookRun), (a.step position).runs[other]? = some x → (b.step position).runs[other]? = some y →
      HookRun.SameAccesses x y := by
    intro other x y left right
    rw [getElem?_step] at left right
    by_cases here : position = other
    · rw [if_pos here] at left right
      obtain ⟨run, there, rfl⟩ := Option.map_eq_some_iff.1 left
      obtain ⟨twin, thereToo, rfl⟩ := Option.map_eq_some_iff.1 right
      rw [← alike.document]
      exact ((alike.runs other run twin there thereToo).advance a.document).2
    · rw [if_neg here] at left right
      exact alike.runs other x y left right
  refine ⟨?_, by rw [length_step, length_step, alike.size], runs⟩
  by_cases inside : position < a.runs.length
  · have there := List.getElem?_eq_getElem inside
    have thereToo := List.getElem?_eq_getElem (alike.size ▸ inside)
    rw [a.step_of_getElem? there, b.step_of_getElem? thereToo, ← alike.document]
    exact ((alike.runs position _ _ there thereToo).advance a.document).1
  · have outside := Nat.le_of_not_lt inside
    rw [a.step_of_length_le outside, b.step_of_length_le (alike.size ▸ outside), alike.document]

theorem Alike.perform (alike : a.Alike b) (schedule : List Nat) : (a.perform schedule).Alike (b.perform schedule) := by
  induction schedule generalizing a b with
  | nil => exact alike
  | cons position rest ih => exact ih (alike.step position)

theorem Alike.ended (alike : a.Alike b) (done : a.ended) : b.ended := by
  intro run member
  obtain ⟨position, inside, rfl⟩ := List.mem_iff_getElem.1 member
  have there : position < a.runs.length := alike.size ▸ inside
  have same := alike.runs position _ _ (List.getElem?_eq_getElem there) (List.getElem?_eq_getElem inside)
  rw [← same.ended_eq]
  exact done _ (List.getElem_mem there)

theorem Alike.symm (alike : a.Alike b) : b.Alike a :=
  ⟨alike.document.symm, alike.size.symm, fun position run other left right =>
    (alike.runs position other run right left).symm⟩

theorem Alike.ended_iff (alike : a.Alike b) : a.ended ↔ b.ended := ⟨alike.ended, alike.symm.ended⟩

end Alike

/-! ### Coming to an end -/

/-- The accesses up to a time of an endless sequence of turns. -/
def upTo (s : Interplay) (turns : Nat → Nat) (time : Nat) : Interplay := s.perform ((List.range time).map turns)

section Turns

variable (s : Interplay) (turns : Nat → Nat)

theorem upTo_succ (time : Nat) : s.upTo turns (time + 1) = (s.upTo turns time).step (turns time) := by
  rw [upTo, List.range_succ, List.map_append, perform_append]
  rfl

variable {s turns} {position : Nat}

-- Without a turn nothing becomes of a run, and nothing at all once it has ended.
theorem getElem?_upTo_of_idle {time later : Nat} {run : HookRun} (le : time ≤ later)
    (there : (s.upTo turns time).runs[position]? = some run)
    (idle : run.ended ∨ ∀ between, time ≤ between → between < later → turns between ≠ position) :
    (s.upTo turns later).runs[position]? = some run := by
  induction le with
  | refl => exact there
  | @step before le ih =>
    have same : (s.upTo turns before).runs[position]? = some run :=
      ih (idle.imp_right fun none between after earlier => none between after (Nat.lt_succ_of_lt earlier))
    rw [upTo_succ, getElem?_step]
    by_cases here : turns before = position
    · rcases idle with ended | none
      · rw [if_pos here, same, Option.map_some, HookRun.advance_of_ended ended]
      · exact absurd here (none before le (Nat.lt_succ_self before))
    · rw [if_neg here, same]

/-- Whoever gets a turn again and again comes to an end, whatever the others do. -/
theorem exists_ended (again : ∀ time, ∃ later, time ≤ later ∧ turns later = position) (run : HookRun) (time : Nat)
    (there : (s.upTo turns time).runs[position]? = some run) :
    ∃ last, ∃ rest : HookRun, rest.ended = true ∧ ∀ later, last ≤ later →
      (s.upTo turns later).runs[position]? = some rest := by
  induction run generalizing time with
  | success => exact ⟨time, .success, rfl, fun later le => getElem?_upTo_of_idle le there (.inl rfl)⟩
  | fail reason => exact ⟨time, .fail reason, rfl, fun later le => getElem?_upTo_of_idle le there (.inl rfl)⟩
  | crash reason => exact ⟨time, .crash reason, rfl, fun later le => getElem?_upTo_of_idle le there (.inl rfl)⟩
  | access edit next ih =>
    obtain ⟨turn, ⟨le, here⟩, first⟩ : ∃ turn, (time ≤ turn ∧ turns turn = position) ∧
        ∀ between < turn, ¬ (time ≤ between ∧ turns between = position) :=
      ⟨Nat.find (again time), Nat.find_spec (again time), fun _ before => Nat.find_min (again time) before⟩
    have waiting : (s.upTo turns turn).runs[position]? = some (.access edit next) :=
      getElem?_upTo_of_idle le there (.inr fun between after before same => first between before ⟨after, same⟩)
    have moved : (s.upTo turns (turn + 1)).runs[position]? = some (next (s.upTo turns turn).document) := by
      rw [upTo_succ, getElem?_step, if_pos here, waiting]
      rfl
    exact ih _ (turn + 1) moved

end Turns

/-! ### Turns in the order of a queue -/

section Scripts

variable {s : Interplay} {position : Nat} {run : HookRun} (there : s.runs[position]? = some run)

include there in
theorem set_self : s.runs.set position run = s.runs := by
  obtain ⟨inside, rfl⟩ := List.getElem?_eq_some_iff.1 there
  exact List.set_getElem_self inside

include there in
-- One turn of a script is a number of accesses in a row.
theorem exists_turn {steps : List HookStep} (state : HookState) (alike : run.SameAccesses (.ofSteps steps))
    (document : s.document = state.document) :
    ∃ count rest, s.perform (List.replicate count position) =
        ⟨(state.turn steps).1.document, s.runs.set position rest⟩ ∧
      rest.SameAccesses (.ofSteps (state.turn steps).2) := by
  induction steps generalizing state s run with
  | nil =>
    refine ⟨0, run, ?_, alike⟩
    rw [set_self there, HookState.turn, ← document]
    rfl
  | cons step rest ih =>
    cases step with
    | yield =>
      refine ⟨0, run, ?_, alike⟩
      rw [set_self there, HookState.turn, ← document]
      rfl
    | note entry =>
      rw [HookState.turn]
      exact ih there _ alike document
    | fail reason =>
      refine ⟨0, run, ?_, .ended _ _ alike.ended_eq rfl⟩
      rw [set_self there, HookState.turn, HookState.failed, ← document]
      rfl
    | crash reason =>
      refine ⟨0, run, ?_, .ended _ _ alike.ended_eq rfl⟩
      rw [set_self there, HookState.turn, HookState.failed, ← document]
      rfl
    | change edit =>
      rw [HookRun.ofSteps] at alike
      cases alike with
      | ended _ _ left right => cases right
      | access _ next _ same =>
        have after := s.step_of_getElem? there
        have later := same s.document
        simp only [HookRun.advance] at after later
        rw [HookState.turn]
        cases result : edit state.document with
        | error reason =>
          rw [document, result] at after later
          refine ⟨1, next state.document, ?_, .ended _ _ later.ended_eq rfl⟩
          exact after
        | ok changed =>
          rw [document, result] at after later
          have moved : (s.step position).runs[position]? = some (next state.document) := by
            rw [getElem?_step, if_pos rfl, there, ← document]
            rfl
          obtain ⟨count, left, reached, alike⟩ :=
            ih moved { state with document := changed } later (congrArg Interplay.document after)
          refine ⟨count + 1, left, ?_, alike⟩
          rw [after] at reached
          rw [List.replicate_succ, perform, List.foldl_cons, after]
          rw [List.set_set] at reached
          exact reached

end Scripts

-- The queue holds what is left of the runs at some places, and all other runs have ended.
structure Queues (s : Interplay) (queue : List (List HookStep × Nat)) : Prop where
  distinct : (queue.map (·.2)).Nodup
  listed : ∀ entry ∈ queue, ∃ run : HookRun, s.runs[entry.2]? = some run ∧ run.SameAccesses (.ofSteps entry.1)
  others : ∀ position run, position ∉ queue.map (·.2) → s.runs[position]? = some run → run.ended = true

/-- Taking turns is one of the orders in which all come to their end. -/
theorem Queues.takeTurns {s : Interplay} {queue : List (List HookStep × Nat)} (queues : s.Queues queue)
    (state : HookState) (document : s.document = state.document) : ∃ schedule, (s.perform schedule).ended ∧
      (s.perform schedule).document = (state.takeTurns (queue.map (·.1))).document := by
  generalize scripts : queue.map (·.1) = left
  fun_induction HookState.takeTurns state left generalizing s queue with
  | case1 state =>
    rw [List.map_eq_nil_iff] at scripts
    refine ⟨[], fun run member => ?_, document⟩
    obtain ⟨position, there⟩ := List.mem_iff_getElem?.1 member
    exact queues.others position run (by rw [scripts]; exact List.not_mem_nil) there
  | case2 state left ih =>
    obtain ⟨⟨steps, position⟩, queue, rfl, rfl, rfl⟩ := List.map_eq_cons_iff.1 scripts
    have distinct := queues.distinct
    rw [List.map_cons, List.nodup_cons] at distinct
    refine ih ⟨distinct.2, fun entry member => queues.listed entry (List.mem_cons_of_mem _ member), ?_⟩ document rfl
    intro other run outside there
    by_cases here : other = position
    · obtain ⟨twin, same, alike⟩ := queues.listed _ List.mem_cons_self
      rw [here] at there
      cases there.symm.trans same
      rw [alike.ended_eq]
      rfl
    · refine queues.others other run ?_ there
      rw [List.map_cons, List.mem_cons]
      exact not_or.2 ⟨here, outside⟩
  | case3 state step rest left after =>
    rename_i ih
    obtain ⟨⟨steps, position⟩, queue, rfl, same, rfl⟩ := List.map_eq_cons_iff.1 scripts
    obtain ⟨fresh, distinct⟩ : position ∉ queue.map (·.2) ∧ (queue.map (·.2)).Nodup :=
      List.nodup_cons.1 queues.distinct
    obtain ⟨run, there, alike⟩ : ∃ run : HookRun, s.runs[position]? = some run ∧ run.SameAccesses (.ofSteps steps) :=
      queues.listed _ List.mem_cons_self
    rw [show steps = step :: rest from same] at alike
    obtain ⟨count, later, reached, laterAlike⟩ := exists_turn there state alike document
    have inside := (List.getElem?_eq_some_iff.1 there).1
    have moved : (s.perform (List.replicate count position)).Queues
        (queue ++ [((state.turn (step :: rest)).2, position)]) := by
      rw [reached]
      constructor
      · rw [List.map_append, List.nodup_append]
        refine ⟨distinct, List.nodup_singleton position, fun a before b single equal => fresh ?_⟩
        have here : b = position := List.mem_singleton.1 single
        rw [← here, ← equal]
        exact before
      · intro entry member
        rcases List.mem_append.1 member with old | new
        · have apart : position ≠ entry.2 := by
            rintro rfl
            exact fresh (List.mem_map_of_mem old)
          rw [List.getElem?_set_ne apart]
          exact queues.listed entry (List.mem_cons_of_mem _ old)
        · rw [List.mem_singleton.1 new]
          exact ⟨later, List.getElem?_set_self inside, laterAlike⟩
      · intro other run outside there
        rw [List.map_append, List.mem_append, not_or] at outside
        have apart : position ≠ other := fun equal => outside.2 (List.mem_singleton.2 equal.symm)
        rw [List.getElem?_set_ne apart] at there
        refine queues.others other run ?_ there
        rw [List.map_cons, List.mem_cons]
        exact not_or.2 ⟨apart.symm, outside.1⟩
    obtain ⟨schedule, ended, result⟩ := ih moved (by rw [reached]) (by rw [List.map_append]; rfl)
    refine ⟨List.replicate count position ++ schedule, ?_, ?_⟩
    · rw [perform_append]
      exact ended
    · rw [perform_append]
      exact result

end Interplay

theorem ExtensionSet.invoke_interleaves (extensions : ExtensionSet) (phase : HookPhase) (doc : Document)
    (missing : List String) : ∃ schedule,
      (Interplay.perform ⟨doc, extensions.map fun e => .ofSteps (e.steps phase missing)⟩ schedule).ended ∧
        (Interplay.perform ⟨doc, extensions.map fun e => .ofSteps (e.steps phase missing)⟩ schedule).document =
          (extensions.invoke phase doc missing).document := by
  have scripts : (extensions.map (·.steps phase missing)).zipIdx.map (·.1) = extensions.map (·.steps phase missing) :=
    List.zipIdx_map_fst 0 _
  rw [ExtensionSet.invoke, ← scripts]
  refine Interplay.Queues.takeTurns ⟨List.nodup_zipIdx_map_snd _, ?_, ?_⟩ _ rfl
  · rintro ⟨steps, position⟩ member
    have listed := List.mk_mem_zipIdx_iff_getElem?.1 member
    rw [List.getElem?_map] at listed ⊢
    obtain ⟨extension, there, rfl⟩ := Option.map_eq_some_iff.1 listed
    exact ⟨_, by rw [there]; rfl, .refl _⟩
  · intro position run outside there
    have inside := (List.getElem?_eq_some_iff.1 there).1
    rw [List.length_map] at inside
    rw [List.zipIdx_map_snd, List.mem_range'_1, List.length_map, Nat.zero_add] at outside
    exact absurd ⟨Nat.zero_le position, inside⟩ outside

end Patchbay
