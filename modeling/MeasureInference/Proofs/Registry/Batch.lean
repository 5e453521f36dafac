import MeasureInference.Proofs.Narrowing
import MeasureInference.Proofs.Registry.Faults

/-!
A batch answers as so many single commands would.

The functions of all calls are looked up first, and the first that is not registered is what the
batch fails for; no call has been resolved by then. Otherwise every call stands with the descriptor
of its function, and is resolved by that alone, in two separate inferences for the measure and for
the levels. The single commands go through the same lookup and then do one of the two, so a column
of the batch is what two of them answer, whatever stands beside it.
-/

namespace MeasureInference

/-- Levels belong to texts, and each is a label that is its own code and stands there once. -/
structure ResolvedColumn.Consistent (c : ResolvedColumn) : Prop where
  isText : c.levels ≠ [] → c.measure = .nominalText
  codes : ∀ level ∈ c.levels, level.code = level.label
  distinct : (c.levels.map ResolvedLevel.label).Nodup

namespace ComputedColumn

theorem value_resolve (c : ComputedColumn) :
    c.resolve.value =
      ⟨c.descriptor.id, (c.descriptor.resolveType c.args).value,
        (c.descriptor.resolveLevels c.args c.output).value⟩ := rfl

theorem consistent_resolve (c : ComputedColumn) : c.resolve.value.Consistent where
  isText := by
    rw [value_resolve, Descriptor.value_resolveLevels_eq_ite]
    split
    · next htext => exact fun _ => htext
    · exact fun h => absurd rfl h
  codes := by
    rw [value_resolve, Descriptor.value_resolveLevels_eq_map]
    intro level hlevel
    obtain ⟨label, -, rfl⟩ := List.mem_map.mp hlevel
    rfl
  distinct := Descriptor.nodup_resolvedLabels c.descriptor c.args c.output

end ComputedColumn

namespace Registry

theorem prepare_eq_ok {r : Registry} {call : ColumnCall} {c : ComputedColumn} :
    r.prepare call = .ok c ↔
      ∃ d, r.find? call.function = some d ∧ c = ⟨d, call.args, call.output⟩ := by
  constructor
  · intro h
    obtain ⟨d, hd, hc⟩ := Fault.exists_of_bind_eq_ok h
    cases hc
    exact ⟨d, descriptor_eq_ok.mp hd, rfl⟩
  · rintro ⟨d, hd, rfl⟩
    rw [prepare, descriptor_eq_ok.mpr hd]
    rfl

/-- The fault of the first call whose function is not registered. -/
theorem findSome?_unknown? (r : Registry) (calls : List ColumnCall) :
    (calls.findSome? fun call => r.unknown? call.function) =
      (calls.find? fun call => !r.contains call.function).map
        fun call => .unknownFunction call.function := by
  induction calls with
  | nil => rfl
  | cons call calls ih =>
      rw [List.findSome?_cons, List.find?_cons, unknown?, ih]
      cases r.contains call.function <;> rfl

namespace Session

/-- A column is what single commands answer for the call: the function by name, its measure, and its
levels. -/
structure AnsweredAlone (s : Session) (call : ColumnCall) (c : ResolvedColumn) : Prop where
  function : c.function = call.function
  measure : (s.step (.resolveType call.function call.args)).value = (.measure c.measure, s)
  levels : (s.step (.resolveLevels call.function call.args call.output)).value = (.levels c.levels, s)

theorem answeredAlone_resolve {s : Session} {call : ColumnCall} {c : ComputedColumn}
    (h : s.registry.prepare call = .ok c) : s.AnsweredAlone call c.resolve.value := by
  obtain ⟨d, hd, rfl⟩ := prepare_eq_ok.mp h
  refine ⟨id_of_find? hd, ?_, ?_⟩
  · rw [step_resolveType_of_find? hd]
    rfl
  · rw [step_resolveLevels_of_find? hd]
    rfl

/-- The thread that resolves a column looks at and announces, one after the other, what the two
single commands do. -/
theorem looks_events_resolve {s : Session} {call : ColumnCall} {c : ComputedColumn}
    (h : s.registry.prepare call = .ok c) :
    c.resolve.looks =
        (s.step (.resolveType call.function call.args)).looks ++
          (s.step (.resolveLevels call.function call.args call.output)).looks ∧
      c.resolve.events =
        (s.step (.resolveType call.function call.args)).events ++
          (s.step (.resolveLevels call.function call.args call.output)).events := by
  obtain ⟨d, hd, rfl⟩ := prepare_eq_ok.mp h
  rw [step_resolveType_of_find? hd, step_resolveLevels_of_find? hd, ComputedColumn.resolve]
  constructor
  · simp only [Observed.looks_bind, Observed.looks_map, Observed.looks_pure, List.append_nil]
  · simp only [Observed.events_bind, Observed.events_map, Observed.events_pure, List.append_nil]

/-- A batch is refused for the first call whose function is not registered, and then it has looked
at nothing and changes nothing. If there is no such call it has one column for each call, in their
order: the one that single commands answer for that call. -/
theorem batch_answered_alone (s : Session) (calls : List ColumnCall) :
    match calls.find? fun call => !s.registry.contains call.function with
    | some call => s.step (.batch calls) = s.reply (.failed (.unknownFunction call.function))
    | none =>
      ∃ columns, (s.step (.batch calls)).value = (.columns columns, s) ∧
        List.Forall₂ s.AnsweredAlone calls columns ∧ ∀ c ∈ columns, c.Consistent := by
  have hfault := findSome?_unknown? s.registry calls
  split
  · next call hcall =>
    rw [hcall] at hfault
    exact (decided_step s (.batch calls)).refused _ hfault
  · next hnone =>
    -- Looking up is all that can fail, so the batch has prepared every call.
    rw [hnone, ← fault_mapM_prepare] at hfault
    obtain ⟨prepared, hprepared⟩ := Fault.of?_eq_none.mp hfault
    refine ⟨prepared.map fun c => c.resolve.value, ?_, ?_, ?_⟩
    · rw [step_batch_of_ok hprepared]
    · rw [List.forall₂_map_right_iff]
      exact (Fault.forall₂_of_mapM_eq_ok hprepared).imp fun call c => answeredAlone_resolve
    · intro c hc
      obtain ⟨prepared, -, rfl⟩ := List.mem_map.mp hc
      exact prepared.consistent_resolve

/-- A function whose second argument decides, and one that takes what comes. -/
def stocked : Session := (start.run [.returns ⟨"IF"⟩ .nominal [1], .rowWise ⟨"ABS"⟩]).2

def choice : List Argument :=
  [.ofMeasure .nominal, ⟨.nominalText, true, Level.ofLabels ["Low", "High"]⟩]

/-- One function is called twice, on the same arguments and with another output. -/
def repeatedCalls : List ColumnCall :=
  [⟨⟨"IF"⟩, choice, [.text "High", .missing]⟩, ⟨⟨"ABS"⟩, [.ofMeasure .ordinal], []⟩,
    ⟨⟨"IF"⟩, choice, [.text "High", .text "Low"]⟩]

theorem batch_repeatedCalls :
    (stocked.step (.batch repeatedCalls)).value =
        (.columns [⟨⟨"IF"⟩, .nominalText, [⟨"High", "High"⟩]⟩, ⟨⟨"ABS"⟩, .continuous, []⟩,
          ⟨⟨"IF"⟩, .nominalText, [⟨"Low", "Low"⟩, ⟨"High", "High"⟩]⟩], stocked) ∧
      (∃ columns, (stocked.step (.batch repeatedCalls)).value = (.columns columns, stocked) ∧
        List.Forall₂ stocked.AnsweredAlone repeatedCalls columns) ∧
      stocked.step (.batch (repeatedCalls ++ [⟨⟨"SUM"⟩, [], []⟩, ⟨⟨"MAX"⟩, [], []⟩])) =
        stocked.reply (.failed (.unknownFunction ⟨"SUM"⟩)) := by
  obtain ⟨columns, hcolumns, halone, -⟩ := batch_answered_alone stocked repeatedCalls
  have hrefused :=
    batch_answered_alone stocked (repeatedCalls ++ [⟨⟨"SUM"⟩, [], []⟩, ⟨⟨"MAX"⟩, [], []⟩])
  exact ⟨by rfl, ⟨columns, hcolumns, halone⟩, hrefused⟩

end Session

end Registry

end MeasureInference
