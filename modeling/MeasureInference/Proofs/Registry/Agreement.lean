import Mathlib.Data.List.Forall2
import MeasureInference.Proofs.Registry.TableRoundTrip

/-!
Registries that agree cannot be told apart.

Agreement leaves out the order of registration. For registries without repeated identities it comes
to this, that every lookup gives the same in both (`alike_iff_agrees`). Lookups are also all that
the commands go by: what a command changes, announces, refuses and answers follows from what it
finds. So two sessions on registries that agree run side by side. Only two answers let the order be
seen, the list of all descriptors and the table; the lists are the same but for the order, and the
tables load into registries that agree again.

New functions are appended on both sides, behind different lists, so that the sessions stay apart in
their order for good; the argument never speaks of order and need not follow it.
-/

namespace MeasureInference

namespace Registry

/-- Registries without repeated identities in which every lookup gives the same. -/
structure Alike (r s : Registry) : Prop where
  left : r.Distinct
  right : s.Distinct
  find? : ∀ id, r.find? id = s.find? id

/-- Registries are alike as their rosters of functions are. -/
theorem alike_iff_functions {r s : Registry} : r.Alike s ↔ r.functions.Alike s.functions :=
  ⟨fun h => ⟨h.left, h.right, h.find?⟩, fun h => ⟨h.left, h.right, h.find?⟩⟩

theorem alike_iff_agrees {r s : Registry} (hr : r.Distinct) (hs : s.Distinct) :
    r.Alike s ↔ r.agrees s = true :=
  alike_iff_functions.trans (Roster.alike_iff_agrees hr hs)

namespace Alike

variable {r s : Registry}

theorem agrees (h : r.Alike s) : r.agrees s = true := (alike_iff_agrees h.left h.right).mp h

theorem refl (hr : r.Distinct) : r.Alike r := ⟨hr, hr, fun _ => rfl⟩

/-! ### Questions -/

theorem contains (h : r.Alike s) (id : FunctionId) : r.contains id = s.contains id :=
  congrArg Option.isSome (h.find? id)

theorem perm (h : r.Alike s) : r.toList.Perm s.toList := (alike_iff_functions.mp h).perm

theorem size (h : r.Alike s) : r.size = s.size := h.perm.length_eq

theorem isEmpty (h : r.Alike s) : r.isEmpty = s.isEmpty := h.perm.isEmpty_eq

theorem descriptor (h : r.Alike s) : r.descriptor = s.descriptor := by
  funext id
  rw [Registry.descriptor, Registry.descriptor, h.find?]

theorem resolveType (h : r.Alike s) (id : FunctionId) (args : List Argument) :
    r.resolveType id args = s.resolveType id args := by
  rw [Registry.resolveType, Registry.resolveType, h.descriptor]

theorem resolveLevels (h : r.Alike s) (id : FunctionId) (args : List Argument)
    (output : List Cell) : r.resolveLevels id args output = s.resolveLevels id args output := by
  rw [Registry.resolveLevels, Registry.resolveLevels, h.descriptor]

theorem batch (h : r.Alike s) (calls : List ColumnCall) : r.batch calls = s.batch calls := by
  have hprepare : r.prepare = s.prepare := by
    funext call
    rw [prepare, prepare, h.descriptor]
  rw [Registry.batch, Registry.batch, hprepare]

/-- Agreement itself is a question that agreeing registries answer alike. -/
theorem agrees_eq {r' s' : Registry} (h : r.Alike s) (h' : r'.Alike s') :
    r.agrees r' = s.agrees s' :=
  (alike_iff_functions.mp h).agrees_eq (alike_iff_functions.mp h')

end Alike

/-! ### Changes -/

/-- Changes that lead to registries alike and announce the same. -/
structure ChangesAlike (x y : Observed Registry) : Prop where
  value : x.value.Alike y.value
  events : x.events = y.events

namespace ChangesAlike

theorem pure {r s : Registry} (h : r.Alike s) :
    ChangesAlike (Pure.pure r : Observed Registry) (Pure.pure s) := ⟨h, rfl⟩

theorem bind {x y : Observed Registry} {f g : Registry → Observed Registry}
    (h : ChangesAlike x y) (hfg : ∀ {r s : Registry}, r.Alike s → ChangesAlike (f r) (g s)) :
    ChangesAlike (x >>= f) (y >>= g) := by
  refine ⟨(hfg h.value).value, ?_⟩
  rw [Observed.events_bind, Observed.events_bind, h.events, (hfg h.value).events]

variable {r s : Registry}

theorem register (h : r.Alike s) (id : FunctionId) :
    ChangesAlike (r.register id) (s.register id) where
  value := ⟨h.left.register id, h.right.register id, fun k => by
    rw [find?_register, find?_register, h.find?]⟩
  events := by
    rw [Registry.register, Registry.register, h.contains]
    split <;> rfl

theorem edit (h : r.Alike s) (id : FunctionId) (e : Edit) :
    ChangesAlike (r.edit id e) (s.edit id e) where
  value := ⟨h.left.editAll id [e], h.right.editAll id [e], fun k => by
    rw [find?_edit, find?_edit, h.find?]⟩
  events := by
    rw [Registry.edit, Registry.edit, h.find?]
    cases s.find? id <;> rfl

theorem editAll (h : r.Alike s) (id : FunctionId) (edits : List Edit) :
    ChangesAlike (r.editAll id edits) (s.editAll id edits) := by
  induction edits generalizing r s with
  | nil => exact .pure h
  | cons e edits ih => exact (edit h id e).bind ih

theorem establish (h : r.Alike s) (id : FunctionId) (e : Edit) :
    ChangesAlike (r.establish id e) (s.establish id e) :=
  (register h id).bind fun h' => edit h' id e

end ChangesAlike

/-! ### Sessions side by side -/

/-- Answers that differ at most by the order of registration. -/
def Answer.Alike : Answer → Answer → Prop
  | .listed ds, .listed es => ds.Perm es
  | .text x, .text y => ∃ r s, ofTable x = .ok r ∧ ofTable y = .ok s ∧ r.agrees s = true
  | a, b => a = b

namespace Session

/-- Sessions on registries alike, with snapshots alike under every name. -/
structure Alike (s t : Session) : Prop where
  registry : s.registry.Alike t.registry
  snapshots : ∀ slot, (s.snapshots.load slot).Alike (t.snapshots.load slot)

/-- Steps that answer alike, announce the same and lead to sessions alike. -/
structure StepsAlike (x y : Observed (Answer × Session)) : Prop where
  answer : x.value.1.Alike y.value.1
  session : x.value.2.Alike y.value.2
  events : x.events = y.events

variable {s t : Session}

theorem Alike.withRegistry (h : s.Alike t) {r r' : Registry} (hr : r.Alike r') :
    Alike { s with registry := r } { t with registry := r' } :=
  ⟨hr, h.snapshots⟩

theorem Alike.save (h : s.Alike t) (slot : String) :
    Alike { s with snapshots := s.snapshots.save slot s.registry }
      { t with snapshots := t.snapshots.save slot t.registry } :=
  ⟨h.registry, Snapshots.forall_load_save h.snapshots slot h.registry⟩

theorem stepsAlike_reply (h : s.Alike t) {a b : Answer} (hab : a.Alike b) :
    StepsAlike (s.reply a) (t.reply b) := ⟨hab, h, rfl⟩

theorem stepsAlike_thenShow (h : s.Alike t) {x y : Observed Registry} (hxy : ChangesAlike x y)
    (id : FunctionId) : StepsAlike (s.thenShow id x) (t.thenShow id y) where
  answer := congrArg Answer.found (hxy.value.find? id)
  session := h.withRegistry hxy.value
  events := congrArg (· ++ []) hxy.events

theorem stepsAlike_attempt (h : s.Alike t) {α : Type} (outcome : ExceptT Fault Observed α)
    {answer : α → Answer} (hanswer : ∀ a, (answer a).Alike (answer a)) :
    StepsAlike (s.attempt outcome answer) (t.attempt outcome answer) where
  answer := by
    rw [attempt, attempt, Observed.value_bind, Observed.value_bind]
    cases outcome.run.value with
    | error fault => exact rfl
    | ok a => exact hanswer a
  session := by
    rw [session_attempt, session_attempt]
    exact h
  events := by
    rw [attempt, attempt, Observed.events_bind, Observed.events_bind]
    cases outcome.run.value <;> rfl

theorem stepsAlike_configureExisting (h : s.Alike t) (id : FunctionId) (measure : Measure)
    (slots : List UInt64) :
    StepsAlike (s.step (.configureExisting id measure slots))
      (t.step (.configureExisting id measure slots)) := by
  have hmem : id ∈ s.registry.ids ↔ id ∈ t.registry.ids := by
    rw [← contains_iff, ← contains_iff, h.registry.contains]
  by_cases hid : id ∈ t.registry.ids
  · rw [step_configureExisting_of_mem (hmem.mpr hid), step_configureExisting_of_mem hid]
    exact stepsAlike_thenShow h (.edit h.registry id _) id
  · rw [step_configureExisting_of_not_mem (mt hmem.mp hid), step_configureExisting_of_not_mem hid]
    exact stepsAlike_reply h rfl

theorem stepsAlike_fromTable (h : s.Alike t) (text : String) :
    StepsAlike (s.step (.fromTable text)) (t.step (.fromTable text)) := by
  cases htable : ofTable text with
  | error fault =>
      rw [step_fromTable_of_error htable, step_fromTable_of_error htable]
      exact stepsAlike_reply h rfl
  | ok r =>
      rw [step_fromTable_of_ok htable, step_fromTable_of_ok htable]
      exact ⟨rfl, h.withRegistry (.refl (distinct_of_ofTable htable)), rfl⟩

theorem stepsAlike (h : s.Alike t) (c : Command) : StepsAlike (s.step c) (t.step c) := by
  cases c with
  | getOrCreate id => exact stepsAlike_thenShow h (.register h.registry id) id
  | rowWise id => exact stepsAlike_thenShow h (.establish h.registry id .setRowWise) id
  | columnWise id => exact stepsAlike_thenShow h (.establish h.registry id .setColumnWise) id
  | returns id measure slots =>
      exact stepsAlike_thenShow h (.establish h.registry id (.configure measure slots)) id
  | configureExisting id measure slots => exact stepsAlike_configureExisting h id measure slots
  | edit id edits => exact stepsAlike_thenShow h (.editAll h.registry id edits) id
  | get id => exact stepsAlike_reply h (congrArg Answer.found (h.registry.find? id))
  | descriptor id =>
      rw [step_descriptor, step_descriptor, h.registry.descriptor]
      cases t.registry.descriptor id with
      | error fault => exact stepsAlike_reply h rfl
      | ok d => exact stepsAlike_reply h rfl
  | contains id => exact stepsAlike_reply h (congrArg Answer.flag (h.registry.contains id))
  | size =>
      exact stepsAlike_reply h (congrArg₂ Answer.size h.registry.size h.registry.isEmpty)
  | list => exact stepsAlike_reply h h.registry.perm
  | resolveType id args =>
      show StepsAlike (s.attempt (s.registry.resolveType id args) .measure)
        (t.attempt (t.registry.resolveType id args) .measure)
      rw [h.registry.resolveType]
      exact stepsAlike_attempt h _ fun _ => rfl
  | resolveLevels id args output =>
      show StepsAlike (s.attempt (s.registry.resolveLevels id args output) .levels)
        (t.attempt (t.registry.resolveLevels id args output) .levels)
      rw [h.registry.resolveLevels]
      exact stepsAlike_attempt h _ fun _ => rfl
  | batch calls =>
      show StepsAlike (s.attempt (s.registry.batch calls) .columns)
        (t.attempt (t.registry.batch calls) .columns)
      rw [h.registry.batch]
      exact stepsAlike_attempt h _ fun _ => rfl
  | fromTable text => exact stepsAlike_fromTable h text
  | toTable =>
      exact stepsAlike_reply h ⟨_, _, ofTable_toTable h.registry.left,
        ofTable_toTable h.registry.right, h.registry.agrees⟩
  | save slot => exact ⟨rfl, h.save slot, rfl⟩
  | restore slot => exact ⟨rfl, h.withRegistry (h.snapshots slot), rfl⟩
  | agrees slot =>
      exact stepsAlike_reply h (congrArg Answer.flag (h.registry.agrees_eq (h.snapshots slot)))

theorem Alike.run (h : s.Alike t) (commands : List Command) :
    (s.run commands).2.Alike (t.run commands).2 ∧
    List.Forall₂ (fun x y => x.1.Alike y.1 ∧ x.2 = y.2) (s.run commands).1 (t.run commands).1 := by
  induction commands generalizing s t with
  | nil => exact ⟨h, .nil⟩
  | cons c commands ih =>
      have hstep := stepsAlike h c
      obtain ⟨hlast, hanswers⟩ := ih hstep.session
      exact ⟨hlast, .cons ⟨hstep.answer, hstep.events⟩ hanswers⟩

/-- A session that opens on a registry. -/
def opened (r : Registry) : Session := ⟨r, .empty⟩

theorem alike_opened {r r' : Registry} (h : r.Alike r') : (opened r).Alike (opened r') :=
  ⟨h, fun _ => .refl distinct_empty⟩

/-- Two registries that agree, in whatever ways they have been reached, go on to agree behind the
same commands, whatever these are, and each command is answered alike and announces the same on
both: only the order of a list may differ, and a table as far as it loads into a registry that
agrees. -/
theorem agrees_bisimulation (first second : List Command)
    (h : (start.run first).2.registry.agrees (start.run second).2.registry = true)
    (commands : List Command) :
    ((opened (start.run first).2.registry).run commands).2.registry.agrees
      ((opened (start.run second).2.registry).run commands).2.registry = true ∧
    List.Forall₂ (fun x y => x.1.Alike y.1 ∧ x.2 = y.2)
      ((opened (start.run first).2.registry).run commands).1
      ((opened (start.run second).2.registry).run commands).1 := by
  have hfirst : (start.run first).2.Sound := sound_start.run first
  have hsecond : (start.run second).2.Sound := sound_start.run second
  have halike := (alike_iff_agrees hfirst.registry hsecond.registry).mpr h
  obtain ⟨hlast, hanswers⟩ := (alike_opened halike).run commands
  exact ⟨hlast.registry.agrees, hanswers⟩

/-- Two orders of registration. -/
def textFirst : List Command := [.returns ⟨"TEXT"⟩ .ordinal [0, 4], .rowWise ⟨"ABS"⟩]

def textLast : List Command :=
  [.rowWise ⟨"ABS"⟩, .getOrCreate ⟨"TEXT"⟩, .edit ⟨"TEXT"⟩ [.configure .ordinal [0, 4]]]

def goingOn : List Command :=
  [.list, .columnWise ⟨"IF"⟩, .configureExisting ⟨"NOPE"⟩ .nominal [1], .toTable,
    .resolveType ⟨"TEXT"⟩ [.ofMeasure .nominalText], .fromTable "[", .edit ⟨"ABS"⟩ [.setColumnWise],
    .list, .size]

theorem agrees_goingOn :
    (start.run textFirst).2.registry.agrees (start.run textLast).2.registry = true ∧
    (start.run textFirst).2.registry.ids = [⟨"TEXT"⟩, ⟨"ABS"⟩] ∧
    (start.run textLast).2.registry.ids = [⟨"ABS"⟩, ⟨"TEXT"⟩] ∧
    ((opened (start.run textFirst).2.registry).run goingOn).2.registry.agrees
      ((opened (start.run textLast).2.registry).run goingOn).2.registry = true ∧
    List.Forall₂ (fun x y => x.1.Alike y.1 ∧ x.2 = y.2)
      ((opened (start.run textFirst).2.registry).run goingOn).1
      ((opened (start.run textLast).2.registry).run goingOn).1 :=
  ⟨by decide, by decide, by decide, agrees_bisimulation textFirst textLast (by decide) goingOn⟩

end Session

end Registry

end MeasureInference
