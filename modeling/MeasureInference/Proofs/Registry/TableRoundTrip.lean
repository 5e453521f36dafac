import MeasureInference.Proofs.Registry.Reachable
import MeasureInference.Proofs.StoredForms

/-!
A registry survives being written as a table and read again.

Two independent facts meet here. Writing and reading rows is a round trip for any rows at all; and
rows become the registry that lists them when no function is declared twice, which holds of every
registry that a session can reach.
-/

namespace MeasureInference.Registry

theorem ofTable_toTable {r : Registry} (hr : r.Distinct) : ofTable r.toTable = .ok r := by
  have hparse : Stored.parse r.toTable = .ok r.toList :=
    Stored.parse_render_table Json.Style.loose_pretty r.toList
  rw [ofTable, hparse]
  exact ofRows_toList hr

/-- Whatever commands lead to a registry, its table is written, is read again, and gives back the
same descriptors in the same order; reading it in the session changes nothing at all. -/
theorem table_roundTrip_of_reachable (commands : List Command) :
    ∃ text,
      ((Session.start.run commands).2.step .toTable).value =
        (.text text, (Session.start.run commands).2) ∧
      ofTable text = .ok (Session.start.run commands).2.registry ∧
      ((Session.start.run commands).2.step (.fromTable text)).value =
        (.count (Session.start.run commands).2.registry.size,
          (Session.start.run commands).2) := by
  have hsound : (Session.start.run commands).2.Sound := Session.sound_start.run commands
  have htable := ofTable_toTable hsound.registry
  exact ⟨_, rfl, htable, congrArg Observed.value (Session.step_fromTable_of_ok htable _)⟩

/-- Names that need escapes or are empty, and a slot as far out as slots can be. -/
def escaped : List Command :=
  [.returns ⟨"say \"\\é\n"⟩ .nominalText [18446744073709551615, 0], .rowWise ⟨"\x00"⟩,
    .columnWise ⟨""⟩]

theorem table_roundTrip_escaped :
    (Session.start.run escaped).2.registry =
        ⟨⟨[⟨⟨"say \"\\é\n"⟩, .nominalText, [18446744073709551615, 0], .unspecified⟩,
          ⟨⟨"\x00"⟩, .continuous, [], .rowWise⟩, ⟨⟨""⟩, .continuous, [], .columnWise⟩]⟩⟩ ∧
      ∃ text,
        ((Session.start.run escaped).2.step .toTable).value =
          (.text text, (Session.start.run escaped).2) ∧
        ofTable text = .ok (Session.start.run escaped).2.registry := by
  obtain ⟨text, hwritten, hread, -⟩ := table_roundTrip_of_reachable escaped
  exact ⟨by rfl, text, hwritten, hread⟩

end MeasureInference.Registry
