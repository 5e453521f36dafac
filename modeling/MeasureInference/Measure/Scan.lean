import MeasureInference.Measure

/-!
The merge of argument measures into one. It is an ordered scan with a state, not a ranking:
`ordinal` only lifts the `nominal` baseline, `continuous` overrides what came before, and
`nominalText` absorbs everything and ends the scan.
-/

namespace MeasureInference.Measure

/-- The state of a scan after one measure has been consumed. -/
inductive Step where
  | proceed (state : Measure)
  | halt (state : Measure)
  deriving DecidableEq, Repr

/-- Feeds the measure `next` to a scan in state `state`. -/
def step (state next : Measure) : Step :=
  match next, state with
  | nominalText, _ => .halt nominalText
  | continuous, _ => .proceed continuous
  | ordinal, nominal => .proceed ordinal
  | _, _ => .proceed state

/-- The steps of a scan over a list of measures, up to and including the first halt. -/
def steps (state : Measure) : List Measure → List Step
  | [] => []
  | next :: rest =>
    match step state next with
    | .proceed state' => .proceed state' :: steps state' rest
    | .halt last => [.halt last]

end MeasureInference.Measure
