import MeasureInference.Proofs.Catalog.Keys
import MeasureInference.Proofs.Registry.Reachable

/-!
The keys may be forgotten.

As long as every descriptor lies under its own identity, a catalog does what the registry does that
lists its descriptors and has no keys: it finds the same, changes in the same way, announces the
same, and is refused the same. For each operation this is one equation (`forget` on both sides of
it), for a command it follows case by case, and for a run by induction, because the sessions that
the commands leave are well filed again.
-/

namespace MeasureInference

namespace Snapshots

variable {α β : Type}

/-- The values in another form, under their names. -/
def map (f : α → β) (s : Snapshots α) : Snapshots β := ⟨s.saved.map fun e => (e.1, f e.2)⟩

theorem lookup_map (f : α → β) (saved : List (String × α)) (slot : String) :
    (saved.map fun e => (e.1, f e.2)).lookup slot = (saved.lookup slot).map f := by
  induction saved with
  | nil => rfl
  | cons e saved ih =>
      rw [List.map_cons, List.lookup_cons, List.lookup_cons, ih]
      cases slot == e.1 <;> rfl

theorem load_map [Inhabited α] [Inhabited β] {f : α → β} (hf : f default = default)
    (s : Snapshots α) (slot : String) : (s.map f).load slot = f (s.load slot) := by
  rw [load, load, map, lookup_map]
  cases s.saved.lookup slot with
  | none => exact hf.symm
  | some a => rfl

end Snapshots

namespace Observed

variable {α β γ δ : Type}

/-- If the beginnings of two things correspond under a function, and so does the rest behind them,
then so do the whole things. -/
theorem map_bind_of_map {p : α → γ} {q : β → δ} {x : Observed α} {y : Observed γ}
    {f : α → Observed β} {g : γ → Observed δ} (hx : p <$> x = y)
    (hf : q <$> f x.value = g (p x.value)) : q <$> (x >>= f) = y >>= g := by
  rw [← hx, map_bind, bind_map_left, bind_eq, bind_eq, hf]

end Observed

namespace Catalog

/-- The registry that lists the descriptors of a catalog. -/
def forget (c : Catalog) : Registry := ⟨c.files.map Filed.descriptor⟩

@[simp] theorem size_forget (c : Catalog) : c.forget.size = c.size := List.length_map _

@[simp] theorem isEmpty_forget (c : Catalog) : c.forget.isEmpty = c.isEmpty :=
  List.isEmpty_map

theorem ids_forget (c : Catalog) : c.forget.ids = c.toList.map Descriptor.id := rfl

namespace WellFiled

variable {c : Catalog}

theorem keepsKeys (h : c.WellFiled) : Roster.KeepsKeys Filed.descriptor c.files := h.own

/-! ### Questions -/

theorem find?_forget (h : c.WellFiled) (id : FunctionId) : c.forget.find? id = c.find? id :=
  h.keepsKeys.find?_map id

theorem contains_forget (h : c.WellFiled) (id : FunctionId) :
    c.forget.contains id = c.contains id :=
  h.keepsKeys.contains_map id

/-- Two files that are well filed and hold the same descriptor have the same key. -/
theorem agrees_forget {c' : Catalog} (h : c.WellFiled) (h' : c'.WellFiled) :
    c.forget.agrees c'.forget = c.agrees c' := by
  apply h.keepsKeys.agrees_map h'.keepsKeys
  intro file hfile file' hfile' hsame
  have hkey : file'.key = file.key := by
    rw [← h.own file hfile, ← h'.own file' hfile', hsame]
  exact congrArg₂ Filed.mk hkey hsame

theorem descriptor_forget (h : c.WellFiled) : c.forget.descriptor = c.descriptor := by
  funext id
  cases hfind : c.find? id with
  | none => rw [Registry.descriptor, Catalog.descriptor, h.find?_forget, hfind]
  | some d => rw [Registry.descriptor, Catalog.descriptor, h.find?_forget, hfind]

theorem resolveType_forget (h : c.WellFiled) (id : FunctionId) (args : List Argument) :
    c.forget.resolveType id args = c.resolveType id args := by
  rw [Registry.resolveType, Catalog.resolveType, h.descriptor_forget]

theorem resolveLevels_forget (h : c.WellFiled) (id : FunctionId) (args : List Argument)
    (output : List Cell) :
    c.forget.resolveLevels id args output = c.resolveLevels id args output := by
  rw [Registry.resolveLevels, Catalog.resolveLevels, h.descriptor_forget]

theorem batch_forget (h : c.WellFiled) (calls : List ColumnCall) :
    c.forget.batch calls = c.batch calls := by
  have hprepare : c.forget.prepare = c.prepare := by
    funext call
    rw [Registry.prepare, Catalog.prepare, h.descriptor_forget]
  rw [Registry.batch, Catalog.batch, hprepare]

/-! ### Changes -/

theorem forget_put (h : c.WellFiled) {key : FunctionId} {d : Descriptor} (hd : d.id = key) :
    forget ⟨c.files.put ⟨key, d⟩⟩ = ⟨c.forget.functions.put d⟩ :=
  congrArg Registry.mk (h.keepsKeys.map_put hd)

theorem forget_register (h : c.WellFiled) (id : FunctionId) :
    forget <$> c.register id = c.forget.register id := by
  rw [Catalog.register, Registry.register, h.contains_forget]
  split
  · rfl
  · rw [map_bind, Observed.bind_eq, Observed.bind_eq, map_pure,
      h.forget_put (Descriptor.id_new id)]

theorem forget_edit (h : c.WellFiled) (id : FunctionId) (e : Edit) :
    forget <$> c.edit id e = c.forget.edit id e := by
  rw [Catalog.edit, Registry.edit, h.find?_forget, find?]
  cases hfile : c.files.find? id with
  | none => rfl
  | some file =>
      have hown : file.descriptor.id = file.key := h.own file (Roster.mem_of_find? hfile)
      have hedited : (file.descriptor.edit e).value.id = file.key :=
        (file.descriptor.id_edited e).trans hown
      dsimp only [Option.map_some]
      rw [map_bind, Observed.bind_eq, Observed.bind_eq, map_pure, h.forget_put hedited]

theorem forget_editAll (h : c.WellFiled) (id : FunctionId) (edits : List Edit) :
    forget <$> c.editAll id edits = c.forget.editAll id edits := by
  induction edits generalizing c with
  | nil => rfl
  | cons e edits ih =>
      exact Observed.map_bind_of_map (h.forget_edit id e) (ih (h.edit id e))

theorem forget_establish (h : c.WellFiled) (id : FunctionId) (e : Edit) :
    forget <$> c.establish id e = c.forget.establish id e :=
  Observed.map_bind_of_map (h.forget_register id) ((h.register id).forget_edit id e)

theorem forget_configureExisting (h : c.WellFiled) (id : FunctionId) (measure : Measure)
    (slots : List UInt64) :
    Prod.map (fun outcome => outcome) forget <$> c.configureExisting id measure slots =
      c.forget.configureExisting id measure slots := by
  rw [Catalog.configureExisting, Registry.configureExisting, h.contains_forget]
  split
  · exact Observed.map_bind_of_map (h.forget_edit id (.configure measure slots)) rfl
  · rfl

/-! ### Rows of a table -/

theorem forget_addRow (h : c.WellFiled) (row : Descriptor) :
    (c.addRow row).map forget = c.forget.addRow row := by
  rw [Catalog.addRow, Registry.addRow, h.contains_forget]
  split
  · rfl
  · exact congrArg Except.ok (h.forget_put rfl)

theorem forget_foldlM_addRow (h : c.WellFiled) (rows : List Descriptor) :
    (rows.foldlM Catalog.addRow c).map forget = rows.foldlM Registry.addRow c.forget := by
  induction rows generalizing c with
  | nil => rfl
  | cons row rows ih =>
      rw [List.foldlM_cons, List.foldlM_cons, ← h.forget_addRow]
      cases hrow : c.addRow row with
      | error fault => rfl
      | ok next => exact ih (h.addRow hrow)

end WellFiled

theorem forget_ofTable (text : String) : (ofTable text).map forget = Registry.ofTable text := by
  rw [ofTable, Registry.ofTable]
  cases (Stored.parse text : Except Fault (List Descriptor)) with
  | error fault => rfl
  | ok rows => exact wellFiled_empty.forget_foldlM_addRow rows

namespace Session

open MeasureInference.Registry (Command Answer)

/-- The session without keys, in which the snapshots have none either. -/
def forget (s : Session) : Registry.Session := ⟨s.catalog.forget, s.snapshots.map Catalog.forget⟩

@[simp] theorem registry_forget (s : Session) : s.forget.registry = s.catalog.forget := rfl

theorem load_snapshots_forget (s : Session) (slot : String) :
    s.forget.snapshots.load slot = (s.snapshots.load slot).forget :=
  Snapshots.load_map (f := Catalog.forget) rfl s.snapshots slot

/-- An answer and the session behind it, without keys. -/
def forgetStep : Answer × Session → Answer × Registry.Session := Prod.map (fun a => a) forget

/-! ### Steps -/

theorem forget_attempt {α : Type} (s : Session) (outcome : ExceptT Fault Observed α)
    (answer : α → Answer) :
    forgetStep <$> s.attempt outcome answer = s.forget.attempt outcome answer := by
  rw [attempt, Registry.Session.attempt, map_bind]
  congr 1
  funext found
  cases found <;> rfl

namespace WellFiled

variable {s : Session}

theorem forget_thenShow {x : Observed Catalog} {y : Observed Registry}
    (hx : Catalog.forget <$> x = y) (hvalue : x.value.WellFiled) (id : FunctionId) :
    forgetStep <$> s.thenShow id x = s.forget.thenShow id y := by
  apply Observed.map_bind_of_map hx
  rw [hvalue.find?_forget]
  rfl

theorem forget_configureExisting (h : s.WellFiled) (id : FunctionId) (measure : Measure)
    (slots : List UInt64) :
    forgetStep <$> s.step (.configureExisting id measure slots) =
      s.forget.step (.configureExisting id measure slots) := by
  apply Observed.map_bind_of_map (h.catalog.forget_configureExisting id measure slots)
  have hwell := h.catalog.configureExisting id measure slots
  generalize (s.catalog.configureExisting id measure slots).value = configured at hwell ⊢
  obtain ⟨outcome, catalog⟩ := configured
  cases outcome with
  | error fault => rfl
  | ok done =>
      dsimp only [Prod.map]
      rw [hwell.find?_forget]
      rfl

theorem forget_fromTable (s : Session) (text : String) :
    forgetStep <$> s.step (.fromTable text) = s.forget.step (.fromTable text) := by
  have htables := forget_ofTable text
  cases htable : Catalog.ofTable text with
  | error fault =>
      rw [htable] at htables
      rw [Registry.Session.step_fromTable_of_error htables.symm, Session.step,
        (guardedBy_load text).run_of_error htable, pure_bind]
      rfl
  | ok c =>
      rw [htable] at htables
      rw [Registry.Session.step_fromTable_of_ok htables.symm, Session.step,
        (guardedBy_load text).run_of_ok htable, size_forget]
      rfl

/-- A step with keys is the step without them. -/
theorem forget_step (h : s.WellFiled) (c : Command) :
    forgetStep <$> s.step c = s.forget.step c := by
  cases c with
  | getOrCreate id =>
      exact forget_thenShow (h.catalog.forget_register id) (h.catalog.register id) id
  | rowWise id =>
      exact forget_thenShow (h.catalog.forget_establish id _) (h.catalog.establish id _) id
  | columnWise id =>
      exact forget_thenShow (h.catalog.forget_establish id _) (h.catalog.establish id _) id
  | returns id measure slots =>
      exact forget_thenShow (h.catalog.forget_establish id _) (h.catalog.establish id _) id
  | configureExisting id measure slots => exact h.forget_configureExisting id measure slots
  | edit id edits =>
      exact forget_thenShow (h.catalog.forget_editAll id edits) (h.catalog.editAll id edits) id
  | get id =>
      rw [Registry.Session.step, registry_forget, h.catalog.find?_forget]
      rfl
  | descriptor id =>
      rw [Registry.Session.step_descriptor, registry_forget, h.catalog.descriptor_forget,
        Session.step]
      cases s.catalog.descriptor id <;> rfl
  | contains id =>
      rw [Registry.Session.step, registry_forget, h.catalog.contains_forget]
      rfl
  | size =>
      rw [Registry.Session.step, registry_forget, size_forget, isEmpty_forget]
      rfl
  | list => rfl
  | resolveType id args =>
      rw [Registry.Session.step, registry_forget, h.catalog.resolveType_forget]
      exact forget_attempt ..
  | resolveLevels id args output =>
      rw [Registry.Session.step, registry_forget, h.catalog.resolveLevels_forget]
      exact forget_attempt ..
  | batch calls =>
      rw [Registry.Session.step, registry_forget, h.catalog.batch_forget]
      exact forget_attempt ..
  | fromTable text => exact forget_fromTable s text
  | toTable => rfl
  | save slot => rfl
  | restore slot =>
      rw [Registry.Session.step, load_snapshots_forget]
      rfl
  | agrees slot =>
      rw [Registry.Session.step, registry_forget, load_snapshots_forget,
        h.catalog.agrees_forget (h.snapshots slot)]
      rfl

/-! ### Runs -/

/-- A run with keys is answered and announces what the run without them does, and the two end in
sessions that differ in nothing but the keys. -/
theorem forget_run (h : s.WellFiled) (commands : List Command) :
    s.forget.run commands = ((s.run commands).1, (s.run commands).2.forget) := by
  induction commands generalizing s with
  | nil => rfl
  | cons c commands ih =>
      have hrest : (forgetStep (s.step c).value).2.run commands =
          (((s.step c).value.2.run commands).1, ((s.step c).value.2.run commands).2.forget) :=
        ih (h.step c)
      rw [Registry.Session.run, ← h.forget_step, Observed.value_map, Observed.events_map, hrest]
      rfl

end WellFiled

end Session

end Catalog

end MeasureInference
