import MeasureInference.Proofs.Faults
import MeasureInference.Proofs.Roster
import MeasureInference.Registry.Batch

/-!
What each operation does to a registry, seen through its list of identities and through lookup.

Registering adds at the end or does nothing; editing keeps all identities where they are and
changes one descriptor. The operations that do both are `register` followed by `edit`, so two pairs
of lemmas answer for all of them, and the strict operations differ only in what they refuse.
-/

namespace MeasureInference

namespace Descriptor

@[simp] theorem id_new (f : FunctionId) : (new f).id = f := rfl

@[simp] theorem id_edited (d : Descriptor) (e : Edit) : (d.edited e).id = d.id := by
  cases e <;> rfl

/-- The descriptor behind some edits. -/
def editedAll (d : Descriptor) (edits : List Edit) : Descriptor := edits.foldl edited d

@[simp] theorem editedAll_nil (d : Descriptor) : d.editedAll [] = d := rfl

@[simp] theorem editedAll_cons (d : Descriptor) (e : Edit) (edits : List Edit) :
    d.editedAll (e :: edits) = (d.edited e).editedAll edits := rfl

theorem editedAll_append (d : Descriptor) (edits edits' : List Edit) :
    d.editedAll (edits ++ edits') = (d.editedAll edits).editedAll edits' :=
  List.foldl_append

@[simp] theorem id_editedAll (d : Descriptor) (edits : List Edit) :
    (d.editedAll edits).id = d.id := by
  induction edits generalizing d with
  | nil => rfl
  | cons e edits ih => rw [editedAll_cons, ih, id_edited]

end Descriptor

/-- Of resolving columns only the beginning is announced. -/
theorem ComputedColumn.resolveAll_eq (columns : List ComputedColumn) :
    resolveAll columns =
      ⟨columns.map fun c => c.resolve.value, [], [.columnsResolving columns.length]⟩ := by
  have hcolumns : (columns.mapM fun c => c.resolve.unfollowed) =
      pure (columns.map fun c => c.resolve.value) := List.mapM_pure ..
  rw [resolveAll, hcolumns]
  rfl

namespace Registry

/-- The identities of the registered functions, in the order of registration. -/
def ids (r : Registry) : List FunctionId := r.functions.keys

theorem map_id_toList (r : Registry) : r.toList.map Descriptor.id = r.ids := rfl

/-- No function has two descriptors. -/
def Distinct (r : Registry) : Prop := r.functions.Distinct

theorem distinct_empty : empty.Distinct := Roster.distinct_empty

theorem distinct_iff {r : Registry} : r.Distinct ↔ r.ids.Nodup := Iff.rfl

theorem contains_iff {r : Registry} {id : FunctionId} : r.contains id = true ↔ id ∈ r.ids :=
  Roster.contains_iff

theorem find?_eq_none {r : Registry} {id : FunctionId} : r.find? id = none ↔ id ∉ r.ids :=
  Roster.find?_eq_none

theorem id_of_find? {r : Registry} {id : FunctionId} {d : Descriptor} (h : r.find? id = some d) :
    d.id = id :=
  Roster.key_of_find? h

theorem descriptor_eq_ok {r : Registry} {id : FunctionId} {d : Descriptor} :
    r.descriptor id = .ok d ↔ r.find? id = some d := by
  rw [descriptor]
  cases r.find? id with
  | none => exact ⟨nofun, nofun⟩
  | some b =>
      constructor
      · intro h
        exact congrArg some (Except.ok.inj h)
      · intro h
        exact congrArg Except.ok (Option.some.inj h)

theorem find?_of_mem_toList {r : Registry} (hr : r.Distinct) {d : Descriptor}
    (hd : d ∈ r.toList) : r.find? d.id = some d :=
  Roster.find?_of_mem hr hd

/-! ### Inference for functions by their identities -/

theorem guardedBy_resolveType (r : Registry) (id : FunctionId) (args : List Argument) :
    Fault.GuardedBy (r.resolveType id args) (r.descriptor id) fun d => d.resolveType args :=
  Fault.guardedBy_bind ..

theorem guardedBy_resolveLevels (r : Registry) (id : FunctionId) (args : List Argument)
    (output : List Cell) :
    Fault.GuardedBy (r.resolveLevels id args output) (r.descriptor id)
      fun d => d.resolveLevels args output :=
  Fault.guardedBy_bind ..

theorem guardedBy_batch (r : Registry) (calls : List ColumnCall) :
    Fault.GuardedBy (r.batch calls) (calls.mapM r.prepare) ComputedColumn.resolveAll :=
  Fault.guardedBy_bind ..

/-! ### Registering -/

theorem value_register (r : Registry) (id : FunctionId) :
    (r.register id).value = ⟨r.functions.add (.new id)⟩ := by
  rw [register]
  by_cases h : r.contains id = true
  · rw [if_pos h, Roster.add_of_mem (contains_iff.mp h)]
    rfl
  · rw [if_neg h, Roster.add_of_not_mem (mt contains_iff.mpr h)]
    rfl

theorem find?_register (r : Registry) (id k : FunctionId) :
    (r.register id).value.find? k =
      if k = id then some ((r.find? k).getD (.new id)) else r.find? k := by
  rw [value_register]
  exact Roster.find?_add r.functions (.new id) k

theorem Distinct.ids_register {r : Registry} (hr : r.Distinct) (id : FunctionId) :
    (r.register id).value.ids = (r.ids ++ [id]).eraseDups := by
  rw [value_register]
  exact Roster.Distinct.keys_add hr (.new id)

theorem Distinct.register {r : Registry} (hr : r.Distinct) (id : FunctionId) :
    (r.register id).value.Distinct := by
  rw [value_register]
  exact Roster.Distinct.add hr (.new id)

/-! ### Editing -/

theorem value_edit_of_find? {r : Registry} {id : FunctionId} {d : Descriptor}
    (h : r.find? id = some d) (e : Edit) :
    (r.edit id e).value = ⟨r.functions.put (d.edited e)⟩ := by
  rw [edit, h]
  rfl

theorem value_edit_of_not_mem {r : Registry} {id : FunctionId} (h : id ∉ r.ids) (e : Edit) :
    (r.edit id e).value = r := by
  rw [edit, find?_eq_none.mpr h]
  rfl

theorem find?_edit (r : Registry) (id : FunctionId) (e : Edit) (k : FunctionId) :
    (r.edit id e).value.find? k =
      if k = id then (r.find? k).map (Descriptor.edited · e) else r.find? k := by
  cases hfind : r.find? id with
  | none =>
      rw [value_edit_of_not_mem (find?_eq_none.mp hfind)]
      split
      · next hk => rw [hk, hfind, Option.map_none]
      · rfl
  | some d =>
      have hid : Keyed.key (d.edited e) = id := (d.id_edited e).trans (id_of_find? hfind)
      rw [value_edit_of_find? hfind, find?, Roster.find?_put, hid]
      split
      · next hk => rw [hk, hfind, Option.map_some]
      · rfl

@[simp] theorem ids_edit (r : Registry) (id : FunctionId) (e : Edit) :
    (r.edit id e).value.ids = r.ids := by
  cases hfind : r.find? id with
  | none => rw [value_edit_of_not_mem (find?_eq_none.mp hfind)]
  | some d =>
      have hid : Keyed.key (d.edited e) = id := (d.id_edited e).trans (id_of_find? hfind)
      have hmem : id ∈ r.ids := by
        by_contra h
        rw [find?_eq_none.mpr h] at hfind
        cases hfind
      rw [value_edit_of_find? hfind]
      exact Roster.keys_put_of_mem (by rw [hid]; exact hmem)

/-- Identities are distinct, so replacing the descriptor that was found edits it where it stands. -/
theorem Distinct.toList_edit {r : Registry} (hr : r.Distinct) (id : FunctionId) (e : Edit) :
    (r.edit id e).value.toList = r.toList.map fun d => if d.id = id then d.edited e else d := by
  cases hfind : r.find? id with
  | none =>
      have hmem : id ∉ r.ids := find?_eq_none.mp hfind
      rw [value_edit_of_not_mem hmem]
      apply Roster.eq_map_of_forall_eq
      intro b hb
      have hbid : b.id ≠ id := fun heq => hmem (heq ▸ List.mem_map_of_mem hb)
      rw [if_neg hbid]
  | some d =>
      have hid : d.id = id := id_of_find? hfind
      have hkey : Keyed.key (d.edited e) = id := (d.id_edited e).trans hid
      have hmem : Keyed.key (d.edited e) ∈ r.functions.keys := by
        rw [hkey]
        exact contains_iff.mp (Option.isSome_iff_exists.mpr ⟨d, hfind⟩)
      rw [value_edit_of_find? hfind, Roster.put_of_mem hmem, hkey]
      apply List.map_congr_left
      intro b hb
      have hkeyb : Keyed.key b = b.id := rfl
      rw [hkeyb]
      by_cases hbid : b.id = id
      · have hbfind := find?_of_mem_toList hr hb
        rw [hbid, hfind] at hbfind
        rw [if_pos hbid, if_pos hbid, Option.some.inj hbfind]
      · rw [if_neg hbid, if_neg hbid]

@[simp] theorem value_editAll_nil (r : Registry) (id : FunctionId) :
    (r.editAll id []).value = r := rfl

@[simp] theorem value_editAll_cons (r : Registry) (id : FunctionId) (e : Edit)
    (edits : List Edit) :
    (r.editAll id (e :: edits)).value = ((r.edit id e).value.editAll id edits).value := rfl

theorem find?_editAll (r : Registry) (id : FunctionId) (edits : List Edit) (k : FunctionId) :
    (r.editAll id edits).value.find? k =
      if k = id then (r.find? k).map (Descriptor.editedAll · edits) else r.find? k := by
  induction edits generalizing r with
  | nil => simp
  | cons e edits ih =>
      rw [value_editAll_cons, ih, find?_edit]
      split
      · rw [Option.map_map]
        rfl
      · rfl

@[simp] theorem ids_editAll (r : Registry) (id : FunctionId) (edits : List Edit) :
    (r.editAll id edits).value.ids = r.ids := by
  induction edits generalizing r with
  | nil => rfl
  | cons e edits ih => rw [value_editAll_cons, ih, ids_edit]

theorem Distinct.editAll {r : Registry} (hr : r.Distinct) (id : FunctionId) (edits : List Edit) :
    (r.editAll id edits).value.Distinct := by
  rw [distinct_iff, ids_editAll]
  exact hr

/-! ### Editing what has to be registered -/

theorem configureExisting_of_mem {r : Registry} {id : FunctionId} (h : id ∈ r.ids)
    (measure : Measure) (slots : List UInt64) :
    r.configureExisting id measure slots =
      (fun configured => (.ok (), configured)) <$> r.edit id (.configure measure slots) := by
  rw [configureExisting, if_pos (contains_iff.mpr h)]
  rfl

/-- A refused configuration has done nothing. -/
theorem configureExisting_of_not_mem {r : Registry} {id : FunctionId} (h : id ∉ r.ids)
    (measure : Measure) (slots : List UInt64) :
    r.configureExisting id measure slots = pure (.error (.unknownFunction id), r) := by
  rw [configureExisting, if_neg (mt contains_iff.mp h)]

/-! ### Editing what is registered first if need be -/

theorem value_establish (r : Registry) (id : FunctionId) (e : Edit) :
    (r.establish id e).value = ((r.register id).value.edit id e).value := rfl

theorem find?_establish (r : Registry) (id : FunctionId) (e : Edit) (k : FunctionId) :
    (r.establish id e).value.find? k =
      if k = id then some (((r.find? k).getD (.new id)).edited e) else r.find? k := by
  rw [value_establish, find?_edit, find?_register]
  split
  · rw [Option.map_some]
  · rfl

@[simp] theorem ids_establish (r : Registry) (id : FunctionId) (e : Edit) :
    (r.establish id e).value.ids = (r.register id).value.ids := by
  rw [value_establish, ids_edit]

theorem Distinct.establish {r : Registry} (hr : r.Distinct) (id : FunctionId) (e : Edit) :
    (r.establish id e).value.Distinct := by
  rw [distinct_iff, ids_establish]
  exact hr.register id

end Registry

end MeasureInference
