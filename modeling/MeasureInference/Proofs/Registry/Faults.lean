import MeasureInference.Proofs.Faults
import MeasureInference.Proofs.Registry.Reachable

/-!
Commands that are refused, and commands that only ask.

Which commands a registry refuses can be said without running them (`Command.fault?`): strict
commands on a function that is not registered, and texts that do not read as a table or declare a
function twice. A command that is refused is answered with its fault and does nothing else. A table
is the one command with a state of its own on the way, the registry that its rows are added to; that
registry is given up together with the table.

Refused commands, questions, and edits of something that is not there can therefore be struck from
any run (`effective`).
-/

namespace MeasureInference

namespace Registry

/-- The fault of a strict lookup. -/
def unknown? (r : Registry) (id : FunctionId) : Option Fault :=
  if r.contains id then none else some (.unknownFunction id)

/-- The first of some identities that is an earlier one or has been seen before. -/
def repeated? (seen : List FunctionId) : List FunctionId → Option FunctionId
  | [] => none
  | id :: ids => if id ∈ seen then some id else repeated? (seen ++ [id]) ids

/-- The fault of a table whose rows have been read, or have not. -/
def rowsFault? : Except Fault (List Descriptor) → Option Fault
  | .error fault => some fault
  | .ok rows => (repeated? [] (rows.map Descriptor.id)).map .duplicateFunction

/-- The fault of a text as a function table. All of it is read before its rows are compared. -/
def tableFault? (text : String) : Option Fault := rowsFault? (Stored.parse text)

/-- The fault that a registry answers a command with, if it refuses it. -/
def Command.fault? (r : Registry) : Command → Option Fault
  | configureExisting id .. | descriptor id | resolveType id _ => r.unknown? id
  | resolveLevels id .. => r.unknown? id
  | batch calls => calls.findSome? fun call => r.unknown? call.function
  | fromTable text => tableFault? text
  | _ => none

/-- Whether a command edits a function that is not registered. -/
def Command.misses (r : Registry) : Command → Bool
  | edit id _ => !r.contains id
  | _ => false

/-- Whether a command has no effect on a registry. -/
def Command.idle (r : Registry) (c : Command) : Bool :=
  c.asks || (c.fault? r).isSome || c.misses r

/-- The fault that an answer reports. -/
def Answer.fault? : Answer → Option Fault
  | failed fault => some fault
  | _ => none

theorem Answer.fault?_eq_some {a : Answer} {fault : Fault} :
    a.fault? = some fault ↔ a = .failed fault := by
  cases a with
  | failed f =>
      constructor
      · intro h
        exact congrArg failed (Option.some.inj h)
      · intro h
        exact congrArg some (failed.inj h)
  | _ => exact ⟨nofun, nofun⟩

/-! ### Strict lookups -/

@[simp] theorem fault_descriptor (r : Registry) (id : FunctionId) :
    Fault.of? (r.descriptor id) = r.unknown? id := by
  rw [descriptor, unknown?, contains, Roster.contains]
  show Fault.of? _ = if (r.find? id).isSome = true then none else _
  cases r.find? id <;> rfl

theorem unknown?_of_mem {r : Registry} {id : FunctionId} (h : id ∈ r.ids) : r.unknown? id = none :=
  if_pos (contains_iff.mpr h)

theorem unknown?_of_not_mem {r : Registry} {id : FunctionId} (h : id ∉ r.ids) :
    r.unknown? id = some (.unknownFunction id) :=
  if_neg (mt contains_iff.mp h)

@[simp] theorem fault_resolveType (r : Registry) (id : FunctionId) (args : List Argument) :
    Fault.of? (r.resolveType id args).run.value = r.unknown? id := by
  rw [(guardedBy_resolveType r id args).of?_value, fault_descriptor]

@[simp] theorem fault_resolveLevels (r : Registry) (id : FunctionId) (args : List Argument)
    (output : List Cell) :
    Fault.of? (r.resolveLevels id args output).run.value = r.unknown? id := by
  rw [(guardedBy_resolveLevels r id args output).of?_value, fault_descriptor]

/-- A batch fails for its first function that is not registered. -/
@[simp] theorem fault_mapM_prepare (r : Registry) (calls : List ColumnCall) :
    Fault.of? (calls.mapM r.prepare) = calls.findSome? fun call => r.unknown? call.function := by
  have hprepare (call : ColumnCall) : Fault.of? (r.prepare call) = r.unknown? call.function := by
    rw [prepare, Fault.of?_bind_pure, fault_descriptor]
  rw [Fault.of?_mapM]
  simp only [hprepare]

/-! ### Tables -/

/-- Identities without a repetition are told apart from each other and from those seen before. -/
theorem repeated?_eq_none {seen ids : List FunctionId} (h : seen.Nodup) :
    repeated? seen ids = none ↔ (seen ++ ids).Nodup := by
  induction ids generalizing seen with
  | nil => simpa [repeated?] using h
  | cons id ids ih =>
      rw [repeated?]
      by_cases hid : id ∈ seen
      · rw [if_pos hid]
        refine ⟨nofun, fun hnodup => ?_⟩
        exact absurd (List.mem_cons_self ..) (List.disjoint_of_nodup_append hnodup hid)
      · have hseen : (seen ++ [id]).Nodup :=
          List.nodup_append'.mpr ⟨h, List.nodup_singleton id, by simpa using hid⟩
        rw [if_neg hid, ih hseen, List.append_assoc, List.singleton_append]

theorem fault_foldlM_addRow (r : Registry) (rows : List Descriptor) :
    Fault.of? (rows.foldlM addRow r) =
      (repeated? r.ids (rows.map Descriptor.id)).map .duplicateFunction := by
  induction rows generalizing r with
  | nil => rfl
  | cons row rows ih =>
      rw [List.foldlM_cons, List.map_cons, repeated?]
      by_cases hrow : row.id ∈ r.ids
      · rw [if_pos hrow, addRow, if_pos (contains_iff.mpr hrow)]
        rfl
      · have hids : ids ⟨⟨r.toList ++ [row]⟩⟩ = r.ids ++ [row.id] := List.map_append
        rw [if_neg hrow, addRow_of_not_mem hrow, ← hids]
        exact ih ⟨⟨r.toList ++ [row]⟩⟩

@[simp] theorem fault_ofTable (text : String) : Fault.of? (ofTable text) = tableFault? text := by
  rw [ofTable, tableFault?]
  cases (Stored.parse text : Except Fault (List Descriptor)) with
  | error fault => rfl
  | ok rows => exact fault_foldlM_addRow empty rows

/-- A text is a table if and only if it reads as rows that declare no function twice. -/
theorem tableFault?_eq_none {text : String} :
    tableFault? text = none ↔
      ∃ rows : List Descriptor, Stored.parse text = .ok rows ∧ (rows.map Descriptor.id).Nodup := by
  rw [tableFault?]
  cases (Stored.parse text : Except Fault (List Descriptor)) with
  | error fault =>
      constructor
      · nofun
      · rintro ⟨_, hrows, _⟩
        cases hrows
  | ok rows =>
      rw [rowsFault?, Option.map_eq_none_iff, repeated?_eq_none List.nodup_nil, List.nil_append]
      constructor
      · exact fun h => ⟨rows, rfl, h⟩
      · rintro ⟨_, hrows, h⟩
        cases hrows
        exact h

/-! ### Edits of something that is not there -/

theorem edit_of_not_mem {r : Registry} {id : FunctionId} (h : id ∉ r.ids) (e : Edit) :
    r.edit id e = pure r := by
  rw [edit, find?_eq_none.mpr h]

theorem editAll_of_not_mem {r : Registry} {id : FunctionId} (h : id ∉ r.ids)
    (edits : List Edit) : r.editAll id edits = pure r := by
  induction edits with
  | nil => rfl
  | cons e edits ih =>
      rw [editAll, edit_of_not_mem h]
      exact ih

namespace Session

/-! ### Single commands -/

/-- A step that is refused with the given fault, or that does not fail when none is given. A refused
command is answered with its fault. It leaves the session, looks at nothing, and announces
nothing. -/
structure Decided (s : Session) (fault? : Option Fault) (x : Observed (Answer × Session)) :
    Prop where
  answer : x.value.1.fault? = fault?
  refused : ∀ fault, fault? = some fault → x = s.reply (.failed fault)

theorem decided_reply_failed (s : Session) (fault : Fault) :
    s.Decided (some fault) (s.reply (.failed fault)) := by
  refine ⟨rfl, fun f hf => ?_⟩
  rw [Option.some.inj hf]

theorem decided_of_accepted {s : Session} {x : Observed (Answer × Session)}
    (h : x.value.1.fault? = none) : s.Decided none x :=
  ⟨h, fun _ hf => nomatch hf⟩

theorem decided_attempt (s : Session) {α β : Type} {outcome : ExceptT Fault Observed β}
    {found : Except Fault α} {f : α → Observed β} (h : Fault.GuardedBy outcome found f)
    {answer : β → Answer} (hanswer : ∀ b, (answer b).fault? = none) :
    s.Decided (Fault.of? found) (s.attempt outcome answer) := by
  cases found with
  | error fault =>
      rw [attempt_of_error h rfl]
      exact decided_reply_failed s fault
  | ok a =>
      rw [attempt_of_ok h rfl]
      exact decided_of_accepted (hanswer _)

theorem decided_step (s : Session) (c : Command) :
    s.Decided (c.fault? s.registry) (s.step c) := by
  cases c with
  | configureExisting id measure slots =>
      rw [Command.fault?]
      by_cases hid : id ∈ s.registry.ids
      · rw [unknown?_of_mem hid, step_configureExisting_of_mem hid]
        exact decided_of_accepted rfl
      · rw [unknown?_of_not_mem hid, step_configureExisting_of_not_mem hid]
        exact decided_reply_failed s (.unknownFunction id)
  | descriptor id =>
      rw [Command.fault?, ← fault_descriptor, step_descriptor]
      cases s.registry.descriptor id with
      | error fault => exact decided_reply_failed s fault
      | ok d => exact decided_of_accepted rfl
  | resolveType id args =>
      rw [Command.fault?, ← fault_descriptor]
      exact decided_attempt s (guardedBy_resolveType s.registry id args) fun _ => rfl
  | resolveLevels id args output =>
      rw [Command.fault?, ← fault_descriptor]
      exact decided_attempt s (guardedBy_resolveLevels s.registry id args output) fun _ => rfl
  | batch calls =>
      rw [Command.fault?, ← fault_mapM_prepare]
      exact decided_attempt s (guardedBy_batch s.registry calls) fun _ => rfl
  | fromTable text =>
      rw [Command.fault?, ← fault_ofTable]
      cases htable : ofTable text with
      | error fault =>
          rw [step_fromTable_of_error htable]
          exact decided_reply_failed s fault
      | ok r =>
          rw [step_fromTable_of_ok htable]
          exact decided_of_accepted rfl
  | getOrCreate | rowWise | columnWise | returns | edit | get | contains | size | list | toTable
  | save | restore | agrees => exact decided_of_accepted rfl

theorem step_failed_iff {s : Session} {c : Command} {fault : Fault} :
    (s.step c).value.1 = .failed fault ↔ c.fault? s.registry = some fault := by
  rw [← Answer.fault?_eq_some, (decided_step s c).answer]

theorem step_of_misses {s : Session} {c : Command} (h : c.misses s.registry = true) :
    s.step c = s.reply (.found none) := by
  cases c with
  | edit id edits =>
      have hid : id ∉ s.registry.ids := by
        rw [← contains_iff]
        simpa [Command.misses] using h
      show s.thenShow id (s.registry.editAll id edits) = _
      rw [editAll_of_not_mem hid]
      show s.reply (.found (s.registry.find? id)) = _
      rw [find?_eq_none.mpr hid]
  | _ => cases h

/-- An idle command leaves the session as it is. -/
theorem session_step_of_idle {s : Session} {c : Command} (h : c.idle s.registry = true) :
    (s.step c).value.2 = s := by
  rw [Command.idle, Bool.or_eq_true, Bool.or_eq_true] at h
  obtain (hasks | hfault) | hmisses := h
  · exact session_step_of_asks hasks s
  · obtain ⟨fault, hfault⟩ := Option.isSome_iff_exists.mp hfault
    rw [(decided_step s c).refused fault hfault]
    rfl
  · rw [step_of_misses hmisses]
    rfl

/-- What a session makes of a command that is refused, only asks, or edits a function that is not
registered. -/
structure Careful (s : Session) (c : Command) : Prop where
  fails : ∀ fault, (s.step c).value.1 = .failed fault ↔ c.fault? s.registry = some fault
  refused : ∀ fault, (s.step c).value.1 = .failed fault →
    s.step c = ⟨(.failed fault, s), [], []⟩
  asked : c.asks = true → (s.step c).value.2 = s
  missed : c.misses s.registry = true → s.step c = ⟨(.found none, s), [], []⟩

theorem careful (s : Session) (c : Command) : s.Careful c where
  fails _ := step_failed_iff
  refused fault h := (decided_step s c).refused fault (step_failed_iff.mp h)
  asked h := session_step_of_asks h s
  missed h := step_of_misses h

/-- A text is refused unless it reads as rows that declare no function twice. -/
theorem exists_failed_fromTable_iff (s : Session) (text : String) :
    (∃ fault, (s.step (.fromTable text)).value.1 = .failed fault) ↔
      ¬∃ rows : List Descriptor, Stored.parse text = .ok rows ∧ (rows.map Descriptor.id).Nodup := by
  rw [← tableFault?_eq_none, ← ne_eq, Option.ne_none_iff_exists']
  exact exists_congr fun _ => step_failed_iff

/-! ### Whole runs -/

theorem oneByOne_run :
    OneByOne (fun s c => (s.step c).value.2) (fun s c => ((s.step c).value.1, (s.step c).events))
      run :=
  ⟨fun _ => rfl, fun _ _ _ => rfl⟩

/-- Commands without those that are idle when their turn comes. -/
def effective (s : Session) (commands : List Command) : List Command :=
  strike (fun s c => (s.step c).value.2) (fun s c => c.idle s.registry) s commands

theorem answer_ne_failed_of_not_idle {s : Session} {c : Command}
    (h : c.idle s.registry = false) (fault : Fault) : (s.step c).value.1 ≠ .failed fault := by
  rw [Command.idle, Bool.or_eq_false_iff, Bool.or_eq_false_iff, Option.isSome_eq_false_iff,
    Option.isNone_iff_eq_none] at h
  rw [ne_eq, step_failed_iff, h.1.2]
  nofun

/-- A run without its idle commands leads to the same session. The other commands are answered and
announced as before, and none of them is refused. -/
theorem run_effective (s : Session) (commands : List Command) :
    (s.run (s.effective commands)).2 = (s.run commands).2 ∧
      (s.run (s.effective commands)).1.Sublist (s.run commands).1 ∧
      ∀ a ∈ (s.run (s.effective commands)).1, ∀ fault, a.1 ≠ .failed fault := by
  have hstep (s : Session) (c : Command) (h : c.idle s.registry = true) :
      (s.step c).value.2 = s := session_step_of_idle h
  have hanswer (s : Session) (c : Command) (h : c.idle s.registry = false) :
      ∀ fault, (s.step c).value.1 ≠ .failed fault := answer_ne_failed_of_not_idle h
  obtain ⟨hlast, hanswers⟩ := oneByOne_run.run_strike hstep s commands
  exact ⟨hlast, hanswers, oneByOne_run.forall_mem_run_strike hanswer s commands⟩

end Session

end Registry

end MeasureInference
