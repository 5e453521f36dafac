import MeasureInference.Proofs.Registry.Reachable

/-!
A registry as its history tells it.

As long as no command replaces the registry as a whole, what is registered at the end can be read
off the list of commands without running them: which functions were ever named by a command that
registers, in the order of their first naming; and, for each of them, the last configuration and
the last mode among the edits that reached it. An edit reaches a function when its command runs
while the function is registered, so a strict command that comes too early leaves no trace.

What a command may do to a registry is said once, by `Effect`; what it does to the lookup of one
function and to the list of identities follows from that, and both are carried through a run by
induction on the commands.
-/

namespace MeasureInference

namespace Edit

/-- The measure and the return slots that an edit declares. -/
def configuration? : Edit → Option (Measure × List UInt64)
  | configure measure returns => some (measure, returns)
  | setMode _ => none

/-- The mode that an edit sets. -/
def mode? : Edit → Option EvalMode
  | configure .. => none
  | setMode mode => some mode

end Edit

namespace Descriptor

theorem configuration_editedAll (d : Descriptor) (edits : List Edit) :
    ((d.editedAll edits).measure, (d.editedAll edits).returns) =
      (edits.filterMap Edit.configuration?).getLast?.getD (d.measure, d.returns) := by
  induction edits generalizing d with
  | nil => rfl
  | cons e edits ih =>
      rw [editedAll_cons, ih]
      cases e with
      | configure measure returns =>
          simp only [List.filterMap_cons, Edit.configuration?, List.getLast?_cons, edited,
            Option.getD_some]
      | setMode mode => simp only [List.filterMap_cons, Edit.configuration?, edited]

theorem mode_editedAll (d : Descriptor) (edits : List Edit) :
    (d.editedAll edits).mode = (edits.filterMap Edit.mode?).getLast?.getD d.mode := by
  induction edits generalizing d with
  | nil => rfl
  | cons e edits ih =>
      rw [editedAll_cons, ih]
      cases e with
      | configure measure returns => simp only [List.filterMap_cons, Edit.mode?, edited]
      | setMode mode =>
          simp only [List.filterMap_cons, Edit.mode?, List.getLast?_cons, edited,
            Option.getD_some]

end Descriptor

namespace Registry

namespace Command

/-- The function that a command registers, unless it is registered already. -/
def registers? : Command → Option FunctionId
  | getOrCreate id => some id
  | rowWise id => some id
  | columnWise id => some id
  | returns id _ _ => some id
  | _ => none

/-- The edits that a command asks for on a function. -/
def editsOf (id : FunctionId) : Command → List Edit
  | rowWise f => if f = id then [.setRowWise] else []
  | columnWise f => if f = id then [.setColumnWise] else []
  | returns f measure slots => if f = id then [.configure measure slots] else []
  | configureExisting f measure slots => if f = id then [.configure measure slots] else []
  | edit f edits => if f = id then edits else []
  | _ => []

/-- Whether a command may put another registry in the place of the present one. -/
def replaces : Command → Bool
  | fromTable _ => true
  | restore _ => true
  | _ => false

end Command

/-- The edits of some commands that reach a function: those of each command that finds it registered
or registers it. -/
def reachingEdits (id : FunctionId) (registered : Bool) : List Command → List Edit
  | [] => []
  | c :: commands =>
    let registered := registered || c.registers? = some id
    (if registered then c.editsOf id else []) ++ reachingEdits id registered commands

/-- The descriptor that commands leave of a function which was not registered in front of them. -/
def recounted (commands : List Command) (id : FunctionId) : Descriptor :=
  let edits := reachingEdits id false commands
  let configuration := (edits.filterMap Edit.configuration?).getLast?.getD (.continuous, [])
  ⟨id, configuration.1, configuration.2,
    (edits.filterMap Edit.mode?).getLast?.getD .unspecified⟩

theorem editedAll_reachingEdits (commands : List Command) (id : FunctionId) :
    (Descriptor.new id).editedAll (reachingEdits id false commands) = recounted commands id := by
  have hid := (Descriptor.new id).id_editedAll (reachingEdits id false commands)
  have hconfiguration :=
    (Descriptor.new id).configuration_editedAll (reachingEdits id false commands)
  have hmeasure := congrArg Prod.fst hconfiguration
  have hreturns := congrArg Prod.snd hconfiguration
  have hmode := (Descriptor.new id).mode_editedAll (reachingEdits id false commands)
  exact (Descriptor.mk.injEq ..).mpr ⟨hid, hmeasure, hreturns, hmode⟩

/-! ### One command -/

/-- The ways in which a command may change a registry, each with what the command registers and
which edits it asks for. -/
inductive Effect (r : Registry) (c : Command) : Registry → Prop
  | none : c.registers? = .none → (∀ id, c.editsOf id = []) → Effect r c r
  | register {f : FunctionId} : c.registers? = some f → (∀ id, c.editsOf id = []) →
      Effect r c (r.register f).value
  | establish {f : FunctionId} {e : Edit} : c.registers? = some f →
      (∀ id, c.editsOf id = if f = id then [e] else []) → Effect r c (r.establish f e).value
  | edit {f : FunctionId} {edits : List Edit} : c.registers? = .none →
      (∀ id, c.editsOf id = if f = id then edits else []) → Effect r c (r.editAll f edits).value

namespace Effect

/-- Seen from one function, a command registers it or not, and then edits it if it is there. -/
theorem find?_eq {r r' : Registry} {c : Command} (h : Effect r c r') (id : FunctionId) :
    r'.find? id =
      if c.registers? = some id then
        some (((r.find? id).getD (.new id)).editedAll (c.editsOf id))
      else (r.find? id).map (Descriptor.editedAll · (c.editsOf id)) := by
  cases h with
  | none hregisters hedits =>
      rw [hregisters, hedits, if_neg (by simp)]
      exact Option.map_id_apply.symm
  | @register f hregisters hedits =>
      rw [find?_register, hregisters, hedits]
      by_cases hf : f = id
      · simp [hf]
      · simp [hf, Ne.symm hf]
  | @establish f e hregisters hedits =>
      rw [find?_establish, hregisters, hedits]
      by_cases hf : f = id
      · simp [hf]
      · simp [hf, Ne.symm hf]
  | @edit f edits hregisters hedits =>
      rw [find?_editAll, hregisters, hedits]
      by_cases hf : f = id
      · simp [hf]
      · simp [hf, Ne.symm hf]

theorem ids_eq {r r' : Registry} {c : Command} (h : Effect r c r') (hr : r.Distinct) :
    r'.ids = (r.ids ++ c.registers?.toList).eraseDups := by
  have hsame : r.ids = (r.ids ++ []).eraseDups := by
    rw [List.append_nil]
    exact (Roster.eraseDups_of_nodup hr).symm
  cases h with
  | none hregisters =>
      rw [hregisters]
      exact hsame
  | register hregisters =>
      rw [hr.ids_register, hregisters]
      rfl
  | establish hregisters =>
      rw [ids_establish, hr.ids_register, hregisters]
      rfl
  | edit hregisters =>
      rw [ids_editAll, hregisters]
      exact hsame

end Effect

namespace Session

theorem effect_step {c : Command} (hc : c.replaces = false) (s : Session) :
    Effect s.registry c (s.step c).value.2.registry := by
  cases c with
  | getOrCreate f => exact .register rfl fun _ => rfl
  | rowWise f => exact .establish rfl fun _ => rfl
  | columnWise f => exact .establish rfl fun _ => rfl
  | returns f measure slots => exact .establish rfl fun _ => rfl
  | configureExisting f measure slots =>
      rw [session_configureExisting]
      exact .edit rfl fun _ => rfl
  | edit f edits => exact .edit rfl fun _ => rfl
  | save slot => exact .none rfl fun _ => rfl
  | fromTable | restore => cases hc
  | get | descriptor | contains | size | list | resolveType | resolveLevels | batch | toTable
  | agrees =>
      rw [session_step_of_asks rfl]
      exact .none rfl fun _ => rfl

/-! ### Whole runs -/

theorem find?_run {commands : List Command} (h : ∀ c ∈ commands, c.replaces = false)
    (s : Session) (id : FunctionId) :
    (s.run commands).2.registry.find? id =
      if id ∈ commands.filterMap Command.registers? then
        some (((s.registry.find? id).getD (.new id)).editedAll
          (reachingEdits id (s.registry.find? id).isSome commands))
      else
        (s.registry.find? id).map
          (Descriptor.editedAll · (reachingEdits id (s.registry.find? id).isSome commands)) := by
  induction commands generalizing s with
  | nil => exact Option.map_id_apply.symm
  | cons c commands ih =>
      obtain ⟨hc, hrest⟩ := List.forall_mem_cons.mp h
      rw [run_cons, ih hrest, (effect_step hc s).find?_eq, reachingEdits]
      by_cases hregisters : c.registers? = some id
      · simp [hregisters, Descriptor.editedAll_append]
      · have hmem : id ∈ (c :: commands).filterMap Command.registers? ↔
            id ∈ commands.filterMap Command.registers? := by
          simp [hregisters]
        rw [if_neg hregisters]
        simp only [hmem]
        -- A function that is not registered yet is reached by none of the edits of `c`.
        cases s.registry.find? id with
        | none => simp [hregisters]
        | some d => simp [Descriptor.editedAll_append]

theorem ids_run {commands : List Command} (h : ∀ c ∈ commands, c.replaces = false) {s : Session}
    (hs : s.Sound) :
    (s.run commands).2.registry.ids =
      (s.registry.ids ++ commands.filterMap Command.registers?).eraseDups := by
  induction commands generalizing s with
  | nil =>
      rw [List.filterMap_nil, List.append_nil]
      exact (Roster.eraseDups_of_nodup hs.registry).symm
  | cons c commands ih =>
      obtain ⟨hc, hrest⟩ := List.forall_mem_cons.mp h
      have hcons : (c :: commands).filterMap Command.registers? =
          c.registers?.toList ++ commands.filterMap Command.registers? := by
        rw [List.filterMap_cons]
        cases c.registers? <;> rfl
      rw [run_cons, ih hrest (hs.step c), (effect_step hc s).ids_eq hs.registry,
        Roster.eraseDups_eraseDups_append, hcons, List.append_assoc]

/-- New identities only ever come behind those that are there. -/
theorem ids_run_extends {commands : List Command} (h : ∀ c ∈ commands, c.replaces = false)
    {s : Session} (hs : s.Sound) : s.registry.ids <+: (s.run commands).2.registry.ids := by
  rw [ids_run h hs, List.eraseDups_append,
    Roster.eraseDups_of_nodup (distinct_iff.mp hs.registry)]
  exact List.prefix_append ..

/-- A run that never replaces the registry leaves exactly what its commands recount: registered are
the functions that some command registers, in the order in which they were first named, each with
the last configuration and the last mode that reached it. -/
theorem run_eq_recounted (commands : List Command) (h : ∀ c ∈ commands, c.replaces = false) :
    (∀ id, (start.run commands).2.registry.contains id = true ↔
      ∃ c ∈ commands, c.registers? = some id) ∧
    (∀ id, (start.run commands).2.registry.contains id = true →
      (start.run commands).2.registry.find? id = some (recounted commands id)) ∧
    (start.run commands).2.registry.toList =
      (commands.filterMap Command.registers?).eraseDups.map (recounted commands) := by
  have hids : (start.run commands).2.registry.ids =
      (commands.filterMap Command.registers?).eraseDups := ids_run h sound_start
  have hmem : ∀ id, (start.run commands).2.registry.contains id = true ↔
      id ∈ commands.filterMap Command.registers? := by
    intro id
    rw [contains_iff, hids, List.mem_eraseDups]
  have hfind : ∀ id, (start.run commands).2.registry.contains id = true →
      (start.run commands).2.registry.find? id = some (recounted commands id) := by
    intro id hid
    rw [find?_run h, if_pos ((hmem id).mp hid)]
    exact congrArg some (editedAll_reachingEdits commands id)
  refine ⟨fun id => (hmem id).trans List.mem_filterMap, hfind, ?_⟩
  have hsound : (start.run commands).2.Sound := sound_start.run commands
  rw [← hids, ← map_id_toList, List.map_map]
  -- Every listed descriptor is the one found under its identity.
  apply Roster.eq_map_of_forall_eq
  intro d hd
  have hd' := find?_of_mem_toList hsound.registry hd
  have hcontains : (start.run commands).2.registry.contains d.id = true :=
    contains_iff.mpr (List.mem_map_of_mem hd)
  exact Option.some.inj (hd'.symm.trans (hfind d.id hcontains))

/-- Strict commands that come before the registration, and later ones that come after it. -/
def strictTooEarly : List Command :=
  [.configureExisting ⟨"F"⟩ .nominal [9], .edit ⟨"F"⟩ [.setColumnWise], .getOrCreate ⟨"G"⟩,
    .rowWise ⟨"F"⟩, .returns ⟨"F"⟩ .nominal [0, 2], .edit ⟨"F"⟩ [.configure .ordinal [1]],
    .getOrCreate ⟨"G"⟩, .get ⟨"H"⟩]

theorem run_strictTooEarly :
    (∀ c ∈ strictTooEarly, c.replaces = false) ∧
    (start.run strictTooEarly).2.registry.toList =
      [⟨⟨"G"⟩, .continuous, [], .unspecified⟩, ⟨⟨"F"⟩, .ordinal, [1], .rowWise⟩] :=
  ⟨by decide, (run_eq_recounted strictTooEarly (by decide)).2.2.trans (by decide)⟩

end Session

end Registry

end MeasureInference
