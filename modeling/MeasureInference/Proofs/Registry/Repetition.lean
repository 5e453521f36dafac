import Mathlib.Order.Bounds.Basic
import MeasureInference.Proofs.Registry.Faults
import MeasureInference.Proofs.Registry.TableReading

/-!
Which function a table is refused for.

Rows are added one after another, so the row that is refused is the first one whose function is
declared already, and the rows in front of it are all different. It need not declare the function
that is repeated from further in front. A text is read to its end before any of this, so a table
that cannot be read is not refused for a repetition, wherever the two stand in it.
-/

namespace MeasureInference

open Json (Document)
open Json.Reader (Writes)

namespace Registry

/-! ### The first repetition -/

/-- The identity at a place is one of those in front of it. -/
def RepeatedAt (ids : List FunctionId) (k : Nat) : Prop :=
  ∃ j < k, ∃ id, ids[j]? = some id ∧ ids[k]? = some id

/-- A repetition is found behind identities that are all different. -/
theorem exists_split_of_repeated? {seen ids : List FunctionId} {id : FunctionId}
    (h : seen.Nodup) (hid : repeated? seen ids = some id) :
    ∃ before after, ids = before ++ id :: after ∧ (seen ++ before).Nodup ∧
      id ∈ seen ++ before := by
  induction ids generalizing seen with
  | nil => cases hid
  | cons head ids ih =>
      rw [repeated?] at hid
      by_cases hhead : head ∈ seen
      · rw [if_pos hhead] at hid
        obtain rfl := Option.some.inj hid
        exact ⟨[], ids, rfl, by simpa using h, by simpa using hhead⟩
      · have hseen : (seen ++ [head]).Nodup :=
          List.nodup_append'.mpr ⟨h, List.nodup_singleton head, by simpa using hhead⟩
        rw [if_neg hhead] at hid
        obtain ⟨before, after, rfl, hnodup, hmem⟩ := ih hseen hid
        rw [List.append_assoc, List.singleton_append] at hnodup hmem
        exact ⟨head :: before, after, rfl, hnodup, hmem⟩

/-- Behind identities that are all different, one that is among them is the first repetition. -/
theorem isLeast_repeatedAt {before after : List FunctionId} {id : FunctionId}
    (h : before.Nodup) (hid : id ∈ before) :
    IsLeast {k | RepeatedAt (before ++ id :: after) k} before.length := by
  constructor
  · obtain ⟨j, hj, hget⟩ := List.mem_iff_getElem.mp hid
    refine ⟨j, hj, id, ?_, ?_⟩
    · rw [List.getElem?_append_left hj, List.getElem?_eq_getElem hj, hget]
    · rw [List.getElem?_append_right (le_refl _), Nat.sub_self, List.getElem?_cons_zero]
  · rintro k ⟨j, hj, other, hfirst, hsecond⟩
    -- Further in front there are only identities that differ from each other.
    by_contra hk
    have hlt : k < before.length := Nat.lt_of_not_le hk
    rw [List.getElem?_append_left (hj.trans hlt)] at hfirst
    rw [List.getElem?_append_left hlt] at hsecond
    exact List.nodup_iff_getElem?_ne_getElem?.mp h j k hj hlt (hfirst.trans hsecond.symm)

/-- Identities that are not all different have a first repetition, and it is the one found. -/
theorem exists_isLeast_repeatedAt {ids : List FunctionId} (h : ¬ids.Nodup) :
    ∃ k id, IsLeast {k | RepeatedAt ids k} k ∧ ids[k]? = some id ∧
      repeated? [] ids = some id := by
  have hsome : repeated? [] ids ≠ none := mt (repeated?_eq_none List.nodup_nil).mp h
  obtain ⟨id, hid⟩ := Option.ne_none_iff_exists'.mp hsome
  obtain ⟨before, after, rfl, hnodup, hmem⟩ := exists_split_of_repeated? List.nodup_nil hid
  exact ⟨before.length, id, isLeast_repeatedAt hnodup hmem, by simp, hid⟩

/-! ### Tables -/

theorem exists_malformed_of_parse_ne_ok {text : String}
    (h : ∀ rows : List Descriptor, Stored.parse text ≠ .ok rows) :
    ∃ why, tableFault? text = some (.malformed why) := by
  rw [tableFault?]
  rw [Stored.parse] at h ⊢
  cases hread : Json.Reader.document (Stored.reader (α := List Descriptor)) text with
  | ok rows => exact absurd (by rw [hread]) (h rows)
  | error why => exact ⟨why, rfl⟩

/-- One row that cannot be read keeps the table from being read, whatever the other rows are. -/
theorem parse_ne_ok_of_mem {text : String} {items : List Document} {item : Document}
    (h : Writes text (.array items)) (hmem : item ∈ items)
    (hitem : Descriptor.ofDocument? item = none) (rows : List Descriptor) :
    Stored.parse text ≠ .ok rows := by
  obtain ⟨why, hwhy⟩ := (Stored.parse_of_writes h).2 (Document.arrayOf?_eq_none_of_mem hmem hitem)
  rw [hwhy]
  nofun

theorem ofTable_of_nodup {text : String} {rows : List Descriptor}
    (hrows : Stored.parse text = .ok rows) (h : (rows.map Descriptor.id).Nodup) :
    ofTable text = .ok ⟨⟨rows⟩⟩ := by
  rw [ofTable, hrows]
  exact ofRows_of_nodup h

theorem tableFault?_of_repeated? {text : String} {rows : List Descriptor} {id : FunctionId}
    (hrows : Stored.parse text = .ok rows)
    (h : repeated? [] (rows.map Descriptor.id) = some id) :
    tableFault? text = some (.duplicateFunction id) := by
  rw [tableFault?, hrows, rowsFault?, h, Option.map_some]

namespace Session

/-- A text is refused as a table. It is answered with its fault, and nothing is announced. -/
structure Refuses (s : Session) (text : String) (fault : Fault) : Prop where
  ofTable : ofTable text = .error fault
  step : s.step (.fromTable text) = ⟨(.failed fault, s), [], []⟩

/-- A text becomes the present registry, and this is announced. -/
structure Loads (s : Session) (text : String) (r : Registry) : Prop where
  ofTable : ofTable text = .ok r
  step : s.step (.fromTable text) =
    ⟨(.count r.size, { s with registry := r }), [], [.tableLoaded r.size]⟩

theorem refuses_of_fault (s : Session) {text : String} {fault : Fault}
    (h : tableFault? text = some fault) : s.Refuses text fault where
  ofTable := Fault.of?_eq_some.mp (by rw [fault_ofTable, h])
  step := (decided_step s (.fromTable text)).refused fault h

theorem loads_of_ofTable (s : Session) {text : String} {r : Registry}
    (h : Registry.ofTable text = .ok r) : s.Loads text r where
  ofTable := h
  step := step_fromTable_of_ok h s

/-- What is read from a text is loaded if no function is declared twice, and loaded as it is. -/
theorem loads_iff (s : Session) {text : String} {rows : List Descriptor}
    (hrows : Stored.parse text = .ok rows) {r : Registry} :
    s.Loads text r ↔ (rows.map Descriptor.id).Nodup ∧ r = ⟨⟨rows⟩⟩ := by
  constructor
  · intro h
    have haccepted : tableFault? text = none := by
      rw [← fault_ofTable, h.ofTable]
      rfl
    obtain ⟨_, hrows', hnodup⟩ := tableFault?_eq_none.mp haccepted
    cases hrows.symm.trans hrows'
    exact ⟨hnodup, Except.ok.inj (h.ofTable.symm.trans (ofTable_of_nodup hrows hnodup))⟩
  · rintro ⟨hnodup, rfl⟩
    exact s.loads_of_ofTable (ofTable_of_nodup hrows hnodup)

theorem exists_refuses_of_repetition (s : Session) {text : String} {rows : List Descriptor}
    (hrows : Stored.parse text = .ok rows) (h : ¬(rows.map Descriptor.id).Nodup) :
    ∃ k id, IsLeast {k | RepeatedAt (rows.map Descriptor.id) k} k ∧
      (rows.map Descriptor.id)[k]? = some id ∧ s.Refuses text (.duplicateFunction id) := by
  obtain ⟨k, id, hleast, hid, hrepeated⟩ := exists_isLeast_repeatedAt h
  exact ⟨k, id, hleast, hid, s.refuses_of_fault (tableFault?_of_repeated? hrows hrepeated)⟩

theorem exists_refuses_of_parse_ne_ok (s : Session) {text : String}
    (h : ∀ rows : List Descriptor, Stored.parse text ≠ .ok rows) :
    ∃ why, s.Refuses text (.malformed why) := by
  obtain ⟨why, hwhy⟩ := exists_malformed_of_parse_ne_ok h
  exact ⟨why, s.refuses_of_fault hwhy⟩

/-- Rows that are read from a text become the registry that lists them, in their order, if no two
of them declare the same function, and only then. Otherwise the text is refused for the function of
the first row that declares one again. A text that rows cannot be read from is refused as malformed;
a row that cannot be read is enough for this, wherever it stands and whatever else is repeated. -/
theorem fromTable_decided (s : Session) (text : String) :
    (∀ rows : List Descriptor, Stored.parse text = .ok rows →
      ((∃ r, s.Loads text r) ↔ (rows.map Descriptor.id).Nodup) ∧
      (∀ r, s.Loads text r → r.toList = rows) ∧
      (¬(rows.map Descriptor.id).Nodup → ∃ k id,
        IsLeast {k | RepeatedAt (rows.map Descriptor.id) k} k ∧
          (rows.map Descriptor.id)[k]? = some id ∧ s.Refuses text (.duplicateFunction id))) ∧
    ((∀ rows : List Descriptor, Stored.parse text ≠ .ok rows) →
      ∃ why, s.Refuses text (.malformed why)) ∧
    ∀ items, Writes text (.array items) →
      (∃ item ∈ items, Descriptor.ofDocument? item = none) →
        ∃ why, s.Refuses text (.malformed why) := by
  refine ⟨fun rows hrows => ⟨⟨?_, ?_⟩, ?_, s.exists_refuses_of_repetition hrows⟩,
    s.exists_refuses_of_parse_ne_ok, ?_⟩
  · rintro ⟨r, h⟩
    exact ((s.loads_iff hrows).mp h).1
  · intro h
    exact ⟨_, (s.loads_iff hrows).mpr ⟨h, rfl⟩⟩
  · intro r h
    obtain ⟨-, rfl⟩ := (s.loads_iff hrows).mp h
    rfl
  · rintro items hwrites ⟨item, hmem, hitem⟩
    exact s.exists_refuses_of_parse_ne_ok (parse_ne_ok_of_mem hwrites hmem hitem)

/-- A row that gives nothing but its function. -/
def bareRow (name : String) : Descriptor := ⟨⟨name⟩, .continuous, [], .unspecified⟩

def repeatingText : String :=
  "[\x7b\"id\":\"A\"\x7d,\x7b\"id\":\"B\"\x7d,\x7b\"id\":\"B\"\x7d,\x7b\"id\":\"A\"\x7d]"

/-- The third row is refused, although it is the first row that is repeated by the last. Repetitions
do not matter where something behind them cannot be read. -/
theorem fromTable_repeatingText :
    Stored.parse repeatingText = .ok (["A", "B", "B", "A"].map bareRow) ∧
      start.Refuses repeatingText (.duplicateFunction ⟨"B"⟩) ∧
      ∃ why, start.Refuses "[\x7b\"id\":\"A\"\x7d,\x7b\"id\":\"A\"\x7d,7]" (.malformed why) := by
  have hrows : Stored.parse repeatingText = .ok (["A", "B", "B", "A"].map bareRow) := rfl
  refine ⟨hrows, ?_, (fromTable_decided start _).2.1 nofun⟩
  obtain ⟨k, id, hleast, hid, hrefused⟩ :=
    ((fromTable_decided start repeatingText).1 _ hrows).2.2 (by decide)
  have hthird : IsLeast {k | RepeatedAt ([⟨"A"⟩, ⟨"B"⟩] ++ ⟨"B"⟩ :: [⟨"A"⟩]) k} 2 :=
    isLeast_repeatedAt (by decide) (by decide)
  obtain rfl : k = 2 := hleast.unique hthird
  obtain rfl : ⟨"B"⟩ = id := Option.some.inj hid
  exact hrefused

end Session

end Registry

end MeasureInference
