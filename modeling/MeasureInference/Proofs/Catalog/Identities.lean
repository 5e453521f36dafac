import Mathlib.Tactic.TFAE
import MeasureInference.Proofs.Catalog.Simulation
import MeasureInference.Proofs.Registry.History

/-!
Functions by their identities.

A catalog is asked for a function by the key, and answers with a descriptor that carries an
identity. That the two never part is what makes all ways of asking come to the same (`Indexed`):
what is found under a name bears the name, and it is the one descriptor that the list has for it.
The other half of the story is that functions stay. Commands append the functions that they register
and edit descriptors in place (`Keeps`); since the keys may be forgotten, this is seen on the
registry without them.
-/

namespace MeasureInference

namespace Catalog

/-- All ways of asking for a function answer alike, and with the descriptors that are listed; the
keys are their identities. -/
structure Indexed (c : Catalog) : Prop where
  keys : c.files.keys = c.toList.map Descriptor.id
  nodup : (c.toList.map Descriptor.id).Nodup
  length : (c.toList.map Descriptor.id).length = c.size
  registered : ∀ id,
    [(c.find? id).isSome = true, c.contains id = true, ∃ d, c.descriptor id = .ok d,
      id ∈ c.toList.map Descriptor.id].TFAE
  found : ∀ id d, c.find? id = some d ↔ d ∈ c.toList ∧ d.id = id
  strict : ∀ id d, c.descriptor id = .ok d ↔ c.find? id = some d
  isEmpty : c.isEmpty = true ↔ ∀ id, c.contains id = false

/-- No function is lost from one catalog to the other: each stays in its place and under its key,
and its descriptor goes on to carry the same identity. -/
structure Keeps (c c' : Catalog) : Prop where
  keys : c.files.keys <+: c'.files.keys
  ids : c.toList.map Descriptor.id <+: c'.toList.map Descriptor.id
  found : ∀ id d, c.find? id = some d → ∃ d', c'.find? id = some d' ∧ d'.id = d.id
  size : c.size ≤ c'.size

theorem contains_iff {c : Catalog} {id : FunctionId} : c.contains id = true ↔ id ∈ c.files.keys :=
  Roster.contains_iff

theorem descriptor_eq_ok {c : Catalog} {id : FunctionId} {d : Descriptor} :
    c.descriptor id = .ok d ↔ c.find? id = some d := by
  rw [descriptor]
  cases c.find? id <;> simp

theorem isEmpty_iff {c : Catalog} : c.isEmpty = true ↔ ∀ id, c.contains id = false := by
  have hkeys : c.isEmpty = true ↔ c.files.keys = [] := by
    rw [Roster.keys, List.map_eq_nil_iff]
    exact List.isEmpty_iff
  simp only [hkeys, List.eq_nil_iff_forall_not_mem, ← contains_iff, Bool.not_eq_true]

namespace WellFiled

variable {c : Catalog}

theorem distinct_forget (h : c.WellFiled) : c.forget.Distinct := by
  rw [Registry.distinct_iff, ids_forget, ← h.keys_eq]
  exact h.distinct

theorem find?_eq_some_iff (h : c.WellFiled) {id : FunctionId} {d : Descriptor} :
    c.find? id = some d ↔ d ∈ c.toList ∧ d.id = id := by
  rw [find?, Option.map_eq_some_iff]
  constructor
  · rintro ⟨file, hfile, rfl⟩
    have hmem := Roster.mem_of_find? hfile
    exact ⟨List.mem_map_of_mem hmem, (h.own file hmem).trans (Roster.key_of_find? hfile)⟩
  · rintro ⟨hd, hid⟩
    obtain ⟨file, hmem, rfl⟩ := List.mem_map.mp hd
    -- The file is found by its key, which is the identity that the descriptor is known by.
    have hkey : file.key = id := (h.own file hmem).symm.trans hid
    exact ⟨file, (Roster.find?_eq_some_iff h.distinct).mpr ⟨hmem, hkey⟩, rfl⟩

theorem tfae_registered (h : c.WellFiled) (id : FunctionId) :
    [(c.find? id).isSome = true, c.contains id = true, ∃ d, c.descriptor id = .ok d,
      id ∈ c.toList.map Descriptor.id].TFAE := by
  tfae_have 1 ↔ 2 := by rw [find?, Option.isSome_map, contains, Roster.contains]
  tfae_have 1 ↔ 3 := by simp only [descriptor_eq_ok, Option.isSome_iff_exists]
  tfae_have 2 ↔ 4 := by rw [contains_iff, h.keys_eq]
  tfae_finish

theorem indexed (h : c.WellFiled) : c.Indexed where
  keys := h.keys_eq
  nodup := h.keys_eq ▸ h.distinct
  length := by rw [toList, List.length_map, List.length_map, size, Roster.size]
  registered := h.tfae_registered
  found _ _ := h.find?_eq_some_iff
  strict _ _ := descriptor_eq_ok
  isEmpty := isEmpty_iff

/-- Where no identity is lost or moved, no function is. -/
theorem keeps {c' : Catalog} (h : c.WellFiled) (h' : c'.WellFiled)
    (hids : c.toList.map Descriptor.id <+: c'.toList.map Descriptor.id) : c.Keeps c' where
  keys := by rwa [h.keys_eq, h'.keys_eq]
  ids := hids
  found id d hd := by
    obtain ⟨hmem, hid⟩ := h.find?_eq_some_iff.mp hd
    have hstays : d.id ∈ c'.toList.map Descriptor.id := hids.subset (List.mem_map_of_mem hmem)
    obtain ⟨d', hmem', hid'⟩ := List.mem_map.mp hstays
    exact ⟨d', h'.find?_eq_some_iff.mpr ⟨hmem', hid'.trans hid⟩, hid'⟩
  size := by
    rw [← h.indexed.length, ← h'.indexed.length]
    exact hids.length_le

end WellFiled

namespace Session

open MeasureInference.Registry (Command)

theorem WellFiled.sound_forget {s : Session} (h : s.WellFiled) : s.forget.Sound where
  registry := h.catalog.distinct_forget
  snapshots slot := by
    rw [load_snapshots_forget]
    exact (h.snapshots slot).distinct_forget

theorem WellFiled.keeps_run {s : Session} (h : s.WellFiled) {commands : List Command}
    (hcommands : ∀ c ∈ commands, c.replaces = false) :
    s.catalog.Keeps (s.run commands).2.catalog := by
  apply h.catalog.keeps (h.run commands).catalog
  have hids := Registry.Session.ids_run_extends hcommands h.sound_forget
  rw [h.forget_run] at hids
  exact hids

/-- Whatever commands lead to a catalog, those that read tables and go back to snapshots included,
the keys are the identities of the descriptors, no two descriptors share one, and all ways of asking
for a function agree with what is listed. From there on, commands that put no other catalog in its
place remove no function, move none and change no identity. A run without keys is answered in the
same way, announces the same, and ends in the same state but for the keys. -/
theorem identities_of_reachable (commands : List Command) :
    (start.run commands).2.catalog.Indexed ∧
    (∀ later : List Command, (∀ c ∈ later, c.replaces = false) →
      (start.run commands).2.catalog.Keeps ((start.run commands).2.run later).2.catalog) ∧
    Registry.Session.start.run commands =
      ((start.run commands).1, (start.run commands).2.forget) := by
  have hwell : (start.run commands).2.WellFiled := wellFiled_start.run commands
  exact ⟨hwell.catalog.indexed, fun later hlater => hwell.keeps_run hlater,
    wellFiled_start.forget_run commands⟩

/-- A strict command that comes too early, a table that takes the place of everything, a catalog
that is put back, and the table again. -/
def refiled : List Command :=
  [.returns ⟨"A"⟩ .ordinal [0], .save "first", .configureExisting ⟨"B"⟩ .nominal [1],
    .fromTable "[\x7b\"id\":\"B\"\x7d,\x7b\"id\":\"A\",\"mode\":\"row_wise\"\x7d]",
    .edit ⟨"B"⟩ [.setColumnWise], .save "table", .restore "first", .rowWise ⟨"C"⟩,
    .restore "table"]

theorem identities_refiled :
    (start.run refiled).2.catalog.files.entries =
        [⟨⟨"B"⟩, ⟨⟨"B"⟩, .continuous, [], .columnWise⟩⟩,
          ⟨⟨"A"⟩, ⟨⟨"A"⟩, .continuous, [], .rowWise⟩⟩] ∧
      (start.run refiled).2.catalog.files.keys =
        (start.run refiled).2.catalog.toList.map Descriptor.id ∧
      (∀ d, (start.run refiled).2.catalog.find? ⟨"A"⟩ = some d ↔
        d ∈ (start.run refiled).2.catalog.toList ∧ d.id = ⟨"A"⟩) ∧
      (start.run refiled).2.catalog.Keeps
        ((start.run refiled).2.run [.getOrCreate ⟨"C"⟩, .columnWise ⟨"A"⟩]).2.catalog := by
  obtain ⟨hindexed, hkeeps, -⟩ := identities_of_reachable refiled
  exact ⟨by rfl, hindexed.keys, hindexed.found ⟨"A"⟩, hkeeps _ (by decide)⟩

end Session

end Catalog

end MeasureInference
