import MeasureInference.Proofs.Registry.Operations
import MeasureInference.Registry.Session

/-!
Reachable registries: no session ever holds a registry with two descriptors of one function.

Commands reach a registry by editing the present one, by reading a table, and by going back to a
snapshot. The invariant therefore covers the snapshots of a session too. A table is the one place
where descriptors arrive in bulk; its rows are added one by one and refused at the first repeated
identity, so what it builds is distinct however it ends.
-/

namespace MeasureInference

namespace Registry

/-! ### Rows of a table -/

theorem Distinct.addRow {r r' : Registry} {row : Descriptor} (hr : r.Distinct)
    (h : r.addRow row = .ok r') : r'.Distinct := by
  rw [Registry.addRow] at h
  split at h
  · cases h
  · cases h
    exact Roster.Distinct.put hr row

theorem addRow_of_not_mem {r : Registry} {row : Descriptor} (h : row.id ∉ r.ids) :
    r.addRow row = .ok ⟨⟨r.toList ++ [row]⟩⟩ := by
  have hcontains : ¬r.contains row.id = true := mt contains_iff.mp h
  rw [addRow, if_neg hcontains, Roster.put_of_not_mem h]
  rfl

theorem Distinct.foldlM_addRow {r r' : Registry} {rows : List Descriptor} (hr : r.Distinct)
    (h : rows.foldlM Registry.addRow r = .ok r') : r'.Distinct := by
  induction rows generalizing r with
  | nil =>
      cases h
      exact hr
  | cons row rows ih =>
      rw [List.foldlM_cons] at h
      cases hrow : r.addRow row with
      | error fault =>
          rw [hrow] at h
          cases h
      | ok next =>
          rw [hrow] at h
          exact ih (hr.addRow hrow) h

theorem foldlM_addRow_of_nodup {r : Registry} {rows : List Descriptor}
    (h : (r.ids ++ rows.map Descriptor.id).Nodup) :
    rows.foldlM addRow r = .ok ⟨⟨r.toList ++ rows⟩⟩ := by
  induction rows generalizing r with
  | nil =>
      rw [List.foldlM_nil, List.append_nil]
      rfl
  | cons row rows ih =>
      have hrow : row.id ∉ r.ids := by
        intro hmem
        exact List.disjoint_of_nodup_append h hmem (List.mem_cons_self ..)
      have hnext : (ids ⟨⟨r.toList ++ [row]⟩⟩) = r.ids ++ [row.id] := List.map_append
      rw [List.foldlM_cons, addRow_of_not_mem hrow]
      show rows.foldlM addRow ⟨⟨r.toList ++ [row]⟩⟩ = _
      rw [ih (by rw [hnext, List.append_assoc]; exact h)]
      simp only [toList, List.append_assoc, List.cons_append, List.nil_append]

/-- Rows with distinct identities become the registry that lists them. -/
theorem ofRows_of_nodup {rows : List Descriptor} (h : (rows.map Descriptor.id).Nodup) :
    ofRows rows = .ok ⟨⟨rows⟩⟩ :=
  foldlM_addRow_of_nodup (r := empty) h

theorem ofRows_toList {r : Registry} (hr : r.Distinct) : ofRows r.toList = .ok r :=
  ofRows_of_nodup hr

theorem distinct_of_ofTable {text : String} {r : Registry} (h : ofTable text = .ok r) :
    r.Distinct := by
  rw [ofTable] at h
  cases hrows : (Stored.parse text : Except Fault (List Descriptor)) with
  | error fault =>
      rw [hrows] at h
      cases h
  | ok rows =>
      rw [hrows] at h
      exact distinct_empty.foldlM_addRow h

/-- A table is announced when it has been read and its rows have become a registry. -/
theorem guardedBy_load (text : String) :
    Fault.GuardedBy (load text) (ofTable text)
      fun r => (fun _ => r) <$> Observed.announce (.tableLoaded r.size) := by
  unfold Fault.GuardedBy load
  cases ofTable text <;> rfl

/-- Whether a command only asks. -/
def Command.asks : Command → Bool
  | get _ | descriptor _ | contains _ | size | list | resolveType .. | resolveLevels .. => true
  | batch _ | toTable | agrees _ => true
  | _ => false

namespace Session

/-! ### Single commands -/

@[simp] theorem session_attempt {α : Type} (s : Session) (outcome : ExceptT Fault Observed α)
    (answer : α → Answer) : (s.attempt outcome answer).value.2 = s := by
  rw [attempt, Observed.value_bind]
  cases outcome.run.value <;> rfl

section Attempt

variable {α β : Type} {outcome : ExceptT Fault Observed β} {found : Except Fault α}
  {f : α → Observed β}

theorem attempt_of_error (h : Fault.GuardedBy outcome found f) {fault : Fault}
    (hfound : found = .error fault) (s : Session) (answer : β → Answer) :
    s.attempt outcome answer = s.reply (.failed fault) := by
  rw [attempt, h.run_of_error hfound, pure_bind]

theorem attempt_of_ok (h : Fault.GuardedBy outcome found f) {a : α} (hfound : found = .ok a)
    (s : Session) (answer : β → Answer) :
    s.attempt outcome answer = (fun b => (answer b, s)) <$> f a := by
  rw [attempt, h.run_of_ok hfound, bind_map_left]
  rfl

end Attempt

theorem step_descriptor (s : Session) (id : FunctionId) :
    s.step (.descriptor id) =
      match s.registry.descriptor id with
      | .error fault => s.reply (.failed fault)
      | .ok d => s.reply (.found (some d)) := by
  rfl

/-- A question leaves the session as it is, also one that fails. -/
theorem session_step_of_asks {c : Command} (hc : c.asks = true) (s : Session) :
    (s.step c).value.2 = s := by
  cases c with
  | descriptor id =>
      rw [step_descriptor]
      cases s.registry.descriptor id with
      | error fault => rfl
      | ok d => rfl
  | resolveType id args => exact session_attempt s (s.registry.resolveType id args) _
  | resolveLevels id args output =>
      exact session_attempt s (s.registry.resolveLevels id args output) _
  | batch calls => exact session_attempt s (s.registry.batch calls) _
  | get | contains | size | list | toTable | agrees => rfl
  | getOrCreate | rowWise | columnWise | returns | configureExisting | edit => cases hc
  | fromTable | save | restore => cases hc

section Found

variable {s : Session} {id : FunctionId} {d : Descriptor}

theorem step_resolveType_of_find? (h : s.registry.find? id = some d) (args : List Argument) :
    s.step (.resolveType id args) =
      (fun measure => (.measure measure, s)) <$> d.resolveType args :=
  attempt_of_ok (guardedBy_resolveType s.registry id args) (descriptor_eq_ok.mpr h) s .measure

theorem step_resolveLevels_of_find? (h : s.registry.find? id = some d) (args : List Argument)
    (output : List Cell) :
    s.step (.resolveLevels id args output) =
      (fun levels => (.levels levels, s)) <$> d.resolveLevels args output :=
  attempt_of_ok (guardedBy_resolveLevels s.registry id args output) (descriptor_eq_ok.mpr h) s
    .levels

end Found

theorem step_batch_of_ok {s : Session} {calls : List ColumnCall} {prepared : List ComputedColumn}
    (h : calls.mapM s.registry.prepare = .ok prepared) :
    s.step (.batch calls) =
      ⟨(.columns (prepared.map fun c => c.resolve.value), s), [],
        [.columnsResolving prepared.length]⟩ := by
  have hstep := attempt_of_ok (guardedBy_batch s.registry calls) h s .columns
  rw [ComputedColumn.resolveAll_eq] at hstep
  exact hstep

theorem step_configureExisting_of_mem {s : Session} {id : FunctionId} (h : id ∈ s.registry.ids)
    (measure : Measure) (slots : List UInt64) :
    s.step (.configureExisting id measure slots) =
      s.thenShow id (s.registry.edit id (.configure measure slots)) := by
  rw [step, configureExisting_of_mem h, bind_map_left]
  rfl

theorem step_configureExisting_of_not_mem {s : Session} {id : FunctionId}
    (h : id ∉ s.registry.ids) (measure : Measure) (slots : List UInt64) :
    s.step (.configureExisting id measure slots) = s.reply (.failed (.unknownFunction id)) := by
  rw [step, configureExisting_of_not_mem h, pure_bind]
  rfl

/-- A refused configuration changes as little as an edit of something that is not there. -/
theorem session_configureExisting (s : Session) (id : FunctionId) (measure : Measure)
    (slots : List UInt64) :
    (s.step (.configureExisting id measure slots)).value.2 =
      { s with registry := (s.registry.editAll id [.configure measure slots]).value } := by
  by_cases hid : id ∈ s.registry.ids
  · rw [step_configureExisting_of_mem hid]
    rfl
  · rw [step_configureExisting_of_not_mem hid, value_editAll_cons, value_edit_of_not_mem hid]
    rfl

theorem step_fromTable_of_ok {text : String} {r : Registry} (h : ofTable text = .ok r)
    (s : Session) :
    s.step (.fromTable text) =
      ⟨(.count r.size, { s with registry := r }), [], [.tableLoaded r.size]⟩ := by
  rw [step, (guardedBy_load text).run_of_ok h]
  rfl

theorem step_fromTable_of_error {text : String} {fault : Fault} (h : ofTable text = .error fault)
    (s : Session) : s.step (.fromTable text) = s.reply (.failed fault) := by
  rw [step, (guardedBy_load text).run_of_error h, pure_bind]

/-! ### The invariant -/

/-- Every registry that a session holds, the present one and the saved ones, is distinct. -/
structure Sound (s : Session) : Prop where
  registry : s.registry.Distinct
  snapshots : ∀ slot, (s.snapshots.load slot).Distinct

theorem sound_start : start.Sound := ⟨distinct_empty, fun _ => distinct_empty⟩

theorem Sound.withRegistry {s : Session} (h : s.Sound) {r : Registry} (hr : r.Distinct) :
    Sound { s with registry := r } :=
  ⟨hr, h.snapshots⟩

theorem Sound.step {s : Session} (h : s.Sound) (c : Command) : (s.step c).value.2.Sound := by
  cases c with
  | getOrCreate id => exact h.withRegistry (h.registry.register id)
  | rowWise id => exact h.withRegistry (h.registry.establish id .setRowWise)
  | columnWise id => exact h.withRegistry (h.registry.establish id .setColumnWise)
  | returns id measure slots =>
      exact h.withRegistry (h.registry.establish id (.configure measure slots))
  | configureExisting id measure slots =>
      rw [session_configureExisting]
      exact h.withRegistry (h.registry.editAll id [.configure measure slots])
  | edit id edits => exact h.withRegistry (h.registry.editAll id edits)
  | fromTable text =>
      cases htable : ofTable text with
      | error fault =>
          rw [step_fromTable_of_error htable]
          exact h
      | ok r =>
          rw [step_fromTable_of_ok htable]
          exact h.withRegistry (distinct_of_ofTable htable)
  | save slot =>
      refine ⟨h.registry, fun k => ?_⟩
      -- The new snapshot is the present registry; the others were sound before.
      show ((s.snapshots.save slot s.registry).load k).Distinct
      rw [Snapshots.load_save]
      split
      · exact h.registry
      · exact h.snapshots k
  | restore slot => exact h.withRegistry (h.snapshots slot)
  | get | descriptor | contains | size | list | resolveType | resolveLevels | batch | toTable
  | agrees =>
      rw [session_step_of_asks rfl]
      exact h

/-! ### Runs -/

@[simp] theorem run_cons (s : Session) (c : Command) (commands : List Command) :
    (s.run (c :: commands)).2 = ((s.step c).value.2.run commands).2 := rfl

theorem Sound.run {s : Session} (h : s.Sound) (commands : List Command) :
    (s.run commands).2.Sound := by
  induction commands generalizing s with
  | nil => exact h
  | cons c commands ih =>
      rw [run_cons]
      exact ih (h.step c)

end Session

end Registry

end MeasureInference
