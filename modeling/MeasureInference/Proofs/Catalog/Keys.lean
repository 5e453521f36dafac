import MeasureInference.Catalog.Session
import MeasureInference.Proofs.Registry.Operations

/-!
Every descriptor lies under its own identity.

The key and the identity are two copies of one name and are written in different places. Registering
takes both from the name that is registered, reading a table takes the key from the row, and an edit
changes the descriptor and leaves both. So the copies are equal when a file is made, and no command
ever sets them apart (`WellFiled.step`, `WellFiled.run`). Snapshots are part of the invariant, since
a catalog may be put back at any time.
-/

namespace MeasureInference

namespace Catalog

/-- No key is there twice, and each descriptor lies under its own identity. -/
structure WellFiled (c : Catalog) : Prop where
  distinct : c.files.Distinct
  own : ∀ file ∈ c.files.entries, file.descriptor.id = file.key

theorem wellFiled_empty : empty.WellFiled := ⟨Roster.distinct_empty, List.forall_mem_nil _⟩

namespace WellFiled

variable {c : Catalog}

theorem put (h : c.WellFiled) {file : Filed} (hfile : file.descriptor.id = file.key) :
    WellFiled ⟨c.files.put file⟩ :=
  ⟨h.distinct.put file, Roster.forall_mem_put h.own hfile⟩

theorem keys_eq (h : c.WellFiled) : c.files.keys = c.toList.map Descriptor.id := by
  rw [toList, List.map_map]
  exact (List.map_congr_left h.own).symm

/-! ### Operations -/

theorem register (h : c.WellFiled) (key : FunctionId) : (c.register key).value.WellFiled := by
  rw [Catalog.register]
  split
  · exact h
  · exact h.put (Descriptor.id_new key)

theorem edit (h : c.WellFiled) (key : FunctionId) (e : Edit) : (c.edit key e).value.WellFiled := by
  rw [Catalog.edit]
  cases hfile : c.files.find? key with
  | none => exact h
  | some file =>
      have hown : file.descriptor.id = file.key := h.own file (Roster.mem_of_find? hfile)
      exact h.put ((file.descriptor.id_edited e).trans hown)

theorem editAll (h : c.WellFiled) (key : FunctionId) (edits : List Edit) :
    (c.editAll key edits).value.WellFiled := by
  induction edits generalizing c with
  | nil => exact h
  | cons e edits ih => exact ih (h.edit key e)

theorem establish (h : c.WellFiled) (key : FunctionId) (e : Edit) :
    (c.establish key e).value.WellFiled :=
  (h.register key).edit key e

theorem configureExisting (h : c.WellFiled) (key : FunctionId) (measure : Measure)
    (slots : List UInt64) : (c.configureExisting key measure slots).value.2.WellFiled := by
  rw [Catalog.configureExisting]
  split
  · exact h.edit key (.configure measure slots)
  · exact h

/-! ### Rows of a table -/

theorem addRow (h : c.WellFiled) {row : Descriptor} {c' : Catalog} (hrow : c.addRow row = .ok c') :
    c'.WellFiled := by
  rw [Catalog.addRow] at hrow
  split at hrow
  · cases hrow
  · cases hrow
    exact h.put rfl

theorem foldlM_addRow (h : c.WellFiled) {rows : List Descriptor} {c' : Catalog}
    (hrows : rows.foldlM Catalog.addRow c = .ok c') : c'.WellFiled := by
  induction rows generalizing c with
  | nil =>
      cases hrows
      exact h
  | cons row rows ih =>
      rw [List.foldlM_cons] at hrows
      obtain ⟨next, hnext, hrest⟩ := Fault.exists_of_bind_eq_ok hrows
      exact ih (h.addRow hnext) hrest

end WellFiled

theorem wellFiled_of_ofTable {text : String} {c : Catalog} (h : ofTable text = .ok c) :
    c.WellFiled := by
  rw [ofTable] at h
  obtain ⟨rows, -, hrows⟩ := Fault.exists_of_bind_eq_ok h
  exact wellFiled_empty.foldlM_addRow hrows

theorem guardedBy_load (text : String) :
    Fault.GuardedBy (load text) (ofTable text)
      fun c => (fun _ => c) <$> Observed.announce (.tableLoaded c.size) := by
  unfold Fault.GuardedBy load
  cases ofTable text <;> rfl

namespace Session

open MeasureInference.Registry (Command Answer)

/-! ### Steps -/

/-- Every catalog that a session holds, the present one and the saved ones, is well filed. -/
structure WellFiled (s : Session) : Prop where
  catalog : s.catalog.WellFiled
  snapshots : ∀ slot, (s.snapshots.load slot).WellFiled

theorem wellFiled_start : start.WellFiled := ⟨wellFiled_empty, fun _ => wellFiled_empty⟩

theorem session_attempt {α : Type} (s : Session) (outcome : ExceptT Fault Observed α)
    (answer : α → Answer) : (s.attempt outcome answer).value.2 = s := by
  rw [attempt, Observed.value_bind]
  cases outcome.run.value <;> rfl

theorem session_configureExisting (s : Session) (id : FunctionId) (measure : Measure)
    (slots : List UInt64) :
    (s.step (.configureExisting id measure slots)).value.2 =
      { s with catalog := (s.catalog.configureExisting id measure slots).value.2 } := by
  rw [step, Observed.value_bind]
  obtain ⟨outcome, catalog⟩ := (s.catalog.configureExisting id measure slots).value
  cases outcome <;> rfl

namespace WellFiled

variable {s : Session}

theorem withCatalog (h : s.WellFiled) {c : Catalog} (hc : c.WellFiled) :
    WellFiled { s with catalog := c } :=
  ⟨hc, h.snapshots⟩

theorem save (h : s.WellFiled) (slot : String) :
    WellFiled { s with snapshots := s.snapshots.save slot s.catalog } := by
  refine ⟨h.catalog, fun k => ?_⟩
  -- The new snapshot is the present catalog; the others were well filed before.
  show ((s.snapshots.save slot s.catalog).load k).WellFiled
  rw [Snapshots.load_save]
  split
  · exact h.catalog
  · exact h.snapshots k

theorem fromTable (h : s.WellFiled) (text : String) :
    (s.step (.fromTable text)).value.2.WellFiled := by
  rw [step]
  cases htable : Catalog.ofTable text with
  | error fault =>
      rw [(guardedBy_load text).run_of_error htable]
      exact h
  | ok c =>
      rw [(guardedBy_load text).run_of_ok htable]
      exact h.withCatalog (wellFiled_of_ofTable htable)

theorem step (h : s.WellFiled) (c : Command) : (s.step c).value.2.WellFiled := by
  cases c with
  | getOrCreate id => exact h.withCatalog (h.catalog.register id)
  | rowWise id => exact h.withCatalog (h.catalog.establish id .setRowWise)
  | columnWise id => exact h.withCatalog (h.catalog.establish id .setColumnWise)
  | returns id measure slots =>
      exact h.withCatalog (h.catalog.establish id (.configure measure slots))
  | configureExisting id measure slots =>
      rw [session_configureExisting]
      exact h.withCatalog (h.catalog.configureExisting id measure slots)
  | edit id edits => exact h.withCatalog (h.catalog.editAll id edits)
  | descriptor id =>
      rw [Session.step]
      cases s.catalog.descriptor id <;> exact h
  | resolveType id args =>
      rw [Session.step, session_attempt]
      exact h
  | resolveLevels id args output =>
      rw [Session.step, session_attempt]
      exact h
  | batch calls =>
      rw [Session.step, session_attempt]
      exact h
  | fromTable text => exact h.fromTable text
  | save slot => exact h.save slot
  | restore slot => exact h.withCatalog (h.snapshots slot)
  | get | contains | size | list | toTable | agrees => exact h

/-! ### Runs -/

theorem run (h : s.WellFiled) (commands : List Command) : (s.run commands).2.WellFiled := by
  induction commands generalizing s with
  | nil => exact h
  | cons c commands ih => exact ih (h.step c)

end WellFiled

end Session

end Catalog

end MeasureInference
