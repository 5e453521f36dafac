import MeasureInference.Proofs.Announcements
import MeasureInference.Proofs.Faults
import MeasureInference.Proofs.Registry.History

/-!
The journal of setup is complete: a reader who has nothing but its texts can rebuild the registry.

Every change to a registry is announced where it is made, the registration of a function by the
registry and each edit by the descriptor. So an operation and its events are followed side by side:
`Journaled r events r'` says that the events replay `r` into `r'`, that they name no function before
it is registered, and that they register exactly the functions by which the two registries differ.
It composes like the operations do, and a whole session is one long composition. Inference announces
itself too, but nothing that a replay would take for setup.
-/

namespace MeasureInference

namespace Registry

/-! ### Replaying -/

/-- What an event does to a registry that follows the journal. -/
def replayed (r : Registry) : Event → Registry
  | .registered f => ⟨⟨r.toList ++ [.new f]⟩⟩
  | .configured f measure returns =>
    ⟨⟨r.toList.map fun d => if d.id = f then { d with measure, returns } else d⟩⟩
  | .modeSet f mode => ⟨⟨r.toList.map fun d => if d.id = f then { d with mode } else d⟩⟩
  | _ => r

theorem replayed_editEvent (r : Registry) (f : FunctionId) (e : Edit) :
    replayed r (Descriptor.editEvent f e) =
      ⟨⟨r.toList.map fun d => if d.id = f then d.edited e else d⟩⟩ := by
  cases e <;> rfl

theorem edits?_editEvent (f : FunctionId) (e : Edit) :
    (Descriptor.editEvent f e).edits? = some f := by
  cases e <;> rfl

theorem registers?_editEvent (f : FunctionId) (e : Edit) :
    (Descriptor.editEvent f e).registers? = none := by
  cases e <;> rfl

/-- Whether events edit none but known functions, those that they register included. -/
def EditsKnown (known : List FunctionId) : List Event → Prop
  | [] => True
  | e :: events => (∀ f ∈ e.edits?, f ∈ known) ∧ EditsKnown (known ++ e.registers?.toList) events

/-- The events of a change from one registry to another tell all of it. -/
structure Journaled (r : Registry) (events : List Event) (r' : Registry) : Prop where
  replay : events.foldl replayed r = r'
  known : EditsKnown r.ids events
  ids : r'.ids = r.ids ++ events.filterMap Event.registers?

theorem EditsKnown.append {known : List FunctionId} {events events' : List Event}
    (h : EditsKnown known events)
    (h' : EditsKnown (known ++ events.filterMap Event.registers?) events') :
    EditsKnown known (events ++ events') := by
  induction events generalizing known with
  | nil => simpa using h'
  | cons e events ih =>
      refine ⟨h.1, ih h.2 ?_⟩
      rw [List.filterMap_cons] at h'
      cases hregisters : e.registers? with
      | none => simpa [hregisters] using h'
      | some f => simpa [hregisters] using h'

theorem EditsKnown.mem_of_append {known : List FunctionId} {before after : List Event} {e : Event}
    (h : EditsKnown known (before ++ e :: after)) {f : FunctionId} (hf : f ∈ e.edits?) :
    f ∈ known ++ before.filterMap Event.registers? := by
  induction before generalizing known with
  | nil =>
      rw [List.filterMap_nil, List.append_nil]
      exact h.1 f hf
  | cons first before ih =>
      have hmem := ih h.2
      rw [List.filterMap_cons]
      cases hregisters : first.registers? with
      | none => simpa [hregisters] using hmem
      | some g => simpa [hregisters] using hmem

/-! What is no setup can be left out of the events. -/

theorem replayed_of_not_isSetup {e : Event} (h : e.isSetup = false) (r : Registry) :
    replayed r e = r := by
  cases e with
  | registered | configured | modeSet => cases h
  | tableLoaded | columnsResolving | measureResolved | usageTallied => rfl

theorem registers?_of_not_isSetup {e : Event} (h : e.isSetup = false) : e.registers? = none := by
  cases e with
  | registered => cases h
  | configured | modeSet | tableLoaded | columnsResolving | measureResolved | usageTallied => rfl

theorem foldl_replayed_filter (r : Registry) (events : List Event) :
    (events.filter Event.isSetup).foldl replayed r = events.foldl replayed r := by
  induction events generalizing r with
  | nil => rfl
  | cons e events ih =>
      cases he : e.isSetup with
      | true => rw [List.filter_cons_of_pos he, List.foldl_cons, List.foldl_cons, ih]
      | false =>
          rw [List.filter_cons_of_neg (by simp [he]), ih, List.foldl_cons,
            replayed_of_not_isSetup he]

theorem EditsKnown.filter {known : List FunctionId} {events : List Event}
    (h : EditsKnown known events) : EditsKnown known (events.filter Event.isSetup) := by
  induction events generalizing known with
  | nil => exact h
  | cons e events ih =>
      cases he : e.isSetup with
      | true =>
          rw [List.filter_cons_of_pos he]
          exact ⟨h.1, ih h.2⟩
      | false =>
          have hrest := h.2
          rw [registers?_of_not_isSetup he, Option.toList_none, List.append_nil] at hrest
          rw [List.filter_cons_of_neg (by simp [he])]
          exact ih hrest

theorem filterMap_registers?_filter (events : List Event) :
    (events.filter Event.isSetup).filterMap Event.registers? =
      events.filterMap Event.registers? := by
  rw [List.filterMap_filter]
  congr 1
  funext e
  cases he : e.isSetup with
  | true => rfl
  | false => rw [registers?_of_not_isSetup he]; rfl

namespace Journaled

/-- Only setup counts. -/
theorem filter_isSetup {r r' : Registry} {events : List Event} (h : Journaled r events r') :
    Journaled r (events.filter Event.isSetup) r' where
  replay := by rw [foldl_replayed_filter, h.replay]
  known := h.known.filter
  ids := by rw [filterMap_registers?_filter, h.ids]

theorem refl (r : Registry) : Journaled r [] r := ⟨rfl, trivial, (List.append_nil _).symm⟩

theorem trans {r r' r'' : Registry} {events events' : List Event} (h : Journaled r events r')
    (h' : Journaled r' events' r'') : Journaled r (events ++ events') r'' where
  replay := by rw [List.foldl_append, h.replay, h'.replay]
  known := h.known.append (h.ids ▸ h'.known)
  ids := by rw [h'.ids, h.ids, List.filterMap_append, List.append_assoc]

theorem of_silent (r : Registry) {events : List Event} (h : Silent events) :
    Journaled r events r := by
  induction events with
  | nil => exact refl r
  | cons e events ih =>
      obtain ⟨he, hevents⟩ := List.forall_mem_cons.mp h
      have hone : Journaled r [e] r := by
        cases e with
        | registered | configured | modeSet => cases he
        | tableLoaded | columnsResolving | measureResolved | usageTallied =>
            exact ⟨rfl, ⟨fun _ hf => absurd hf (Option.not_mem_none _), trivial⟩,
              (List.append_nil _).symm⟩
      exact hone.trans (ih hevents)

theorem register (r : Registry) (id : FunctionId) :
    Journaled r (r.register id).events (r.register id).value := by
  rw [Registry.register]
  by_cases hid : r.contains id = true
  · rw [if_pos hid]
    exact refl r
  · have hmem : id ∉ r.ids := mt contains_iff.mpr hid
    rw [if_neg hid]
    exact
      { replay := congrArg Registry.mk (Roster.put_of_not_mem hmem).symm
        known := ⟨fun _ hf => absurd hf (Option.not_mem_none _), trivial⟩
        ids := Roster.keys_put_of_not_mem hmem }

theorem edit {r : Registry} (hr : r.Distinct) (id : FunctionId) (e : Edit) :
    Journaled r (r.edit id e).events (r.edit id e).value := by
  cases hfind : r.find? id with
  | none =>
      rw [Registry.edit, hfind]
      exact refl r
  | some d =>
      have hid : d.id = id := id_of_find? hfind
      have hmem : id ∈ r.ids := contains_iff.mp (Option.isSome_iff_exists.mpr ⟨d, hfind⟩)
      have hevents : (r.edit id e).events = [Descriptor.editEvent id e] := by
        rw [Registry.edit, hfind, ← hid]
        rfl
      rw [hevents]
      refine ⟨?replay, ⟨?known, trivial⟩, ?ids⟩
      case replay =>
        show replayed r (Descriptor.editEvent id e) = _
        rw [replayed_editEvent, ← hr.toList_edit]
        rfl
      case known =>
        intro f hf
        rw [edits?_editEvent] at hf
        rwa [← Option.some.inj hf]
      case ids =>
        rw [ids_edit, List.filterMap_cons, registers?_editEvent]
        exact (List.append_nil _).symm

theorem editAll {r : Registry} (hr : r.Distinct) (id : FunctionId) (edits : List Edit) :
    Journaled r (r.editAll id edits).events (r.editAll id edits).value := by
  induction edits generalizing r with
  | nil => exact refl r
  | cons e edits ih => exact (edit hr id e).trans (ih (hr.editAll id [e]))

theorem establish {r : Registry} (hr : r.Distinct) (id : FunctionId) (e : Edit) :
    Journaled r (r.establish id e).events (r.establish id e).value :=
  (register r id).trans (edit (hr.register id) id e)

end Journaled

namespace Session

/-! ### Whole sessions -/

theorem silent_attempt {α β : Type} {outcome : ExceptT Fault Observed β} {found : Except Fault α}
    {f : α → Observed β} (h : Fault.GuardedBy outcome found f) (s : Session) (answer : β → Answer)
    (hf : ∀ a, Silent (f a).events) : Silent (s.attempt outcome answer).events := by
  cases found with
  | error fault =>
      rw [attempt_of_error h rfl]
      exact silent_nil
  | ok a =>
      rw [attempt_of_ok h rfl, Observed.events_map]
      exact hf a

theorem silent_step_of_asks {c : Command} (hc : c.asks = true) (s : Session) :
    Silent (s.step c).events := by
  cases c with
  | descriptor id =>
      rw [step_descriptor]
      cases s.registry.descriptor id with
      | error fault => exact silent_nil
      | ok d => exact silent_nil
  | resolveType id args =>
      exact silent_attempt (guardedBy_resolveType s.registry id args) s .measure
        fun d => silent_resolveType d args
  | resolveLevels id args output =>
      exact silent_attempt (guardedBy_resolveLevels s.registry id args output) s .levels
        fun d => silent_resolveLevels d args output
  | batch calls =>
      refine silent_attempt (guardedBy_batch s.registry calls) s .columns fun columns => ?_
      rw [ComputedColumn.resolveAll_eq]
      exact silent_singleton rfl
  | get | contains | size | list | toTable | agrees => exact silent_nil
  | getOrCreate | rowWise | columnWise | returns | configureExisting | edit => cases hc
  | fromTable | save | restore => cases hc

/-- Every event of a run, in order. -/
def journal (s : Session) (commands : List Command) : List Event :=
  (s.run commands).1.flatMap Prod.snd

theorem journaled_thenShow {s : Session} {changed : Observed Registry}
    (h : Journaled s.registry changed.events changed.value) (id : FunctionId) :
    Journaled s.registry (s.thenShow id changed).events
      (s.thenShow id changed).value.2.registry := by
  have hevents : (s.thenShow id changed).events = changed.events := List.append_nil _
  rw [hevents]
  exact h

theorem journaled_step {c : Command} (hc : c.replaces = false) {s : Session} (hs : s.Sound) :
    Journaled s.registry (s.step c).events (s.step c).value.2.registry := by
  cases c with
  | getOrCreate f => exact journaled_thenShow (.register s.registry f) f
  | rowWise f => exact journaled_thenShow (.establish hs.registry f .setRowWise) f
  | columnWise f => exact journaled_thenShow (.establish hs.registry f .setColumnWise) f
  | returns f measure slots =>
      exact journaled_thenShow (.establish hs.registry f (.configure measure slots)) f
  | configureExisting f measure slots =>
      by_cases hf : f ∈ s.registry.ids
      · rw [step_configureExisting_of_mem hf]
        exact journaled_thenShow (.edit hs.registry f (.configure measure slots)) f
      · rw [step_configureExisting_of_not_mem hf]
        exact .refl s.registry
  | edit f edits => exact journaled_thenShow (.editAll hs.registry f edits) f
  | save slot => exact .refl s.registry
  | fromTable | restore => cases hc
  | get | descriptor | contains | size | list | resolveType | resolveLevels | batch | toTable
  | agrees =>
      rw [session_step_of_asks rfl]
      exact .of_silent s.registry (silent_step_of_asks rfl s)

theorem journaled_run {commands : List Command} (h : ∀ c ∈ commands, c.replaces = false)
    {s : Session} (hs : s.Sound) :
    Journaled s.registry (s.journal commands) (s.run commands).2.registry := by
  induction commands generalizing s with
  | nil => exact .refl _
  | cons c commands ih =>
      obtain ⟨hc, hrest⟩ := List.forall_mem_cons.mp h
      exact (journaled_step hc hs).trans (ih hrest (hs.step c))

/-- The lines of a run that are reported for debugging. -/
def debugLines (s : Session) (commands : List Command) : List Line :=
  ((s.journal commands).filter fun e => e.severity = .debug).map Event.line

/-- The setup that these lines tell of. -/
def retold (s : Session) (commands : List Command) : List Event :=
  (s.debugLines commands).filterMap Event.ofLine?

theorem retold_eq (s : Session) (commands : List Command) :
    s.retold commands = (s.journal commands).filter Event.isSetup := by
  rw [retold, debugLines, List.filterMap_map, List.filterMap_filter, ← List.filterMap_eq_filter]
  congr 1
  funext e
  rw [Function.comp_apply, Event.ofLine?_line]
  cases e <;> rfl

theorem journaled_retold {commands : List Command} (h : ∀ c ∈ commands, c.replaces = false) :
    Journaled empty (start.retold commands) (start.run commands).2.registry := by
  rw [retold_eq]
  exact (journaled_run h sound_start).filter_isSetup

theorem count_registered (f : FunctionId) (events : List Event) :
    events.count (.registered f) = (events.filterMap Event.registers?).count f := by
  induction events with
  | nil => rfl
  | cons e events ih =>
      cases e with
      | registered g => simp [Event.registers?, List.count_cons, ih]
      | configured | modeSet | tableLoaded | columnsResolving | measureResolved | usageTallied =>
          rw [List.count_cons_of_ne (by simp), ih]
          rfl

/-- The lines that a session reports for debugging tell all of its setup. Read back and followed in
order, they rebuild the registry; none of them edits a function that no line in front of it has
registered; and each registered function is registered by one line, the others by none. -/
theorem replay_debugLines (commands : List Command) (h : ∀ c ∈ commands, c.replaces = false) :
    (start.retold commands).foldl replayed empty = (start.run commands).2.registry ∧
    (∀ before e after, start.retold commands = before ++ e :: after →
      ∀ f ∈ e.edits?, .registered f ∈ before) ∧
    (∀ f, (start.retold commands).count (.registered f) =
      if (start.run commands).2.registry.contains f then 1 else 0) ∧
    ((start.retold commands).filterMap Event.registers?).length =
      (start.run commands).2.registry.size := by
  have hjournaled := journaled_retold h
  have hsound : (start.run commands).2.Sound := sound_start.run commands
  have hids : (start.run commands).2.registry.ids =
      (start.retold commands).filterMap Event.registers? := hjournaled.ids
  refine ⟨hjournaled.replay, ?known, ?once, ?length⟩
  case known =>
    intro before e after hsplit f hf
    have hknown := hjournaled.known
    rw [hsplit] at hknown
    obtain ⟨e', he', hregisters⟩ := List.mem_filterMap.mp (hknown.mem_of_append hf)
    obtain rfl : e' = .registered f := by
      cases e' <;> cases hregisters
      rfl
    exact he'
  case once =>
    intro f
    have hnodup : (start.run commands).2.registry.ids.Nodup := hsound.registry
    rw [count_registered, ← hids, hnodup.count]
    simp only [contains_iff]
  case length =>
    rw [← hids]
    exact List.length_map _

theorem replay_strictTooEarly :
    (∀ c ∈ strictTooEarly, c.replaces = false) ∧
    (start.retold strictTooEarly).foldl replayed empty =
      ⟨⟨[⟨⟨"G"⟩, .continuous, [], .unspecified⟩, ⟨⟨"F"⟩, .ordinal, [1], .rowWise⟩]⟩⟩ :=
  ⟨by decide, (replay_debugLines strictTooEarly (by decide)).1.trans (by decide)⟩

end Session

end Registry

end MeasureInference
