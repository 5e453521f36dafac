import MeasureInference.Json.Reader

/-!
How a reader's success on a text is stated and composed.

A reader is a function from the text that is left to a result and the text it leaves, so what it
does to a longer text is said with an arbitrary rest behind the part that it takes: `Reads r t a`.
The rest may be anything that does not go on a number, because a number is the one kind of value
whose end is only seen from what follows; white space may stand in front, because every value
leaves it out. Under these two provisos the statements compose by rewriting, part after part.

Loops are fuelled by the length of the text. `Runs` is the run of a loop without the fuel, and says
that every round but the last takes something; that is all the fuel is there for.
-/

namespace MeasureInference.Json

/-- Nothing but white space. -/
def Blank (space : List Char) : Prop := ∀ c ∈ space, Reader.isSpace c = true

instance (space : List Char) : Decidable (Blank space) :=
  decidable_of_iff (space.all Reader.isSpace = true) List.all_eq_true

theorem blank_nil : Blank [] := fun _ h => absurd h List.not_mem_nil

/-- A character that may stand inside a number, behind its first digit. -/
def goesOnNumber (c : Char) : Bool := c.isDigit || c = '.' || c = 'e' || c = 'E'

/-- A rest in front of which a number is at its end. -/
def Delimited (rest : List Char) : Prop := ∀ c ∈ rest.head?, goesOnNumber c = false

theorem delimited_nil : Delimited [] := fun _ h => absurd h (Option.not_mem_none _)

theorem delimited_cons {c : Char} {rest : List Char} (h : goesOnNumber c = false) :
    Delimited (c :: rest) := by
  intro d hd
  obtain rfl : c = d := Option.some.inj hd
  exact h

theorem goesOnNumber_of_isSpace {c : Char} (h : Reader.isSpace c = true) :
    goesOnNumber c = false := by
  simp only [Reader.isSpace, Bool.or_eq_true, decide_eq_true_eq] at h
  rcases h with ((rfl | rfl) | rfl) | rfl <;> decide

/-- White space in front keeps a rest delimited. -/
theorem Delimited.blank_append {space rest : List Char} (hrest : Delimited rest)
    (hspace : Blank space) : Delimited (space ++ rest) := by
  cases space with
  | nil => exact hrest
  | cons c space =>
      exact delimited_cons (goesOnNumber_of_isSpace (hspace c (List.mem_cons_self ..)))

theorem delimited_of_blank {space : List Char} (h : Blank space) : Delimited space := by
  have hblank := delimited_nil.blank_append h
  rwa [List.append_nil] at hblank

theorem delimited_blank_cons {space rest : List Char} {c : Char} (hspace : Blank space)
    (h : goesOnNumber c = false) : Delimited (space ++ c :: rest) :=
  (delimited_cons h).blank_append hspace

namespace Reader

variable {α β σ : Type}

/-! ### Single steps -/

theorem bind_of_ok {r : Reader α} {f : α → Reader β} {s rest : List Char} {a : α}
    (h : r s = .ok (a, rest)) : (r >>= f) s = f a rest := by
  show (r s >>= fun x => f x.1 x.2) = _
  rw [h]
  rfl

theorem bind_of_error {r : Reader α} {s : List Char} {failure : Failure}
    (h : r s = .error failure) (f : α → Reader β) : (r >>= f) s = .error failure := by
  show (r s >>= fun x => f x.1 x.2) = _
  rw [h]
  rfl

theorem map_of_ok {r : Reader α} {f : α → β} {s rest : List Char} {a : α}
    (h : r s = .ok (a, rest)) : (f <$> r) s = .ok (f a, rest) := by
  show (r s >>= fun x => .ok (f x.1, x.2)) = _
  rw [h]
  rfl

theorem map_of_error {r : Reader α} {s : List Char} {failure : Failure}
    (h : r s = .error failure) (f : α → β) : (f <$> r) s = .error failure :=
  bind_of_error h fun a => pure (f a)

@[simp] theorem peek_cons (c : Char) (s : List Char) : peek (c :: s) = .ok (some c, c :: s) := rfl

@[simp] theorem skip_cons (c : Char) (s : List Char) : skip (c :: s) = .ok ((), s) := rfl

theorem accept_of_head?_ne {c : Char} {s : List Char} (h : ∀ d ∈ s.head?, d ≠ c) :
    accept c s = .ok (false, s) := by
  cases s with
  | nil => rfl
  | cons d s => rw [accept, if_neg (h d rfl)]

theorem peekToken_of_blank {space s : List Char} (h : Blank space) :
    peekToken (space ++ s) = peekToken s := by
  rw [peekToken, List.dropWhile_append_of_pos h]
  rfl

theorem peekToken_cons {c : Char} {s : List Char} (h : isSpace c = false) :
    peekToken (c :: s) = .ok (some c, c :: s) := by
  rw [peekToken, List.dropWhile_cons_of_neg (by simp [h])]
  rfl

theorem peekToken_blank_cons {space s : List Char} {c : Char} (hspace : Blank space)
    (h : isSpace c = false) : peekToken (space ++ c :: s) = .ok (some c, c :: s) := by
  rw [peekToken_of_blank hspace, peekToken_cons h]

theorem startOfValue_blank_cons {space s : List Char} {c : Char} (hspace : Blank space)
    (h : isSpace c = false) : startOfValue (space ++ c :: s) = .ok (c, c :: s) := by
  rw [startOfValue, bind_of_ok (peekToken_blank_cons hspace h)]
  rfl

theorem colon_blank {space s : List Char} (h : Blank space) :
    colon (space ++ ':' :: s) = .ok ((), s) := by
  rw [colon, bind_of_ok (peekToken_blank_cons h (by decide))]
  rfl

theorem endOfText_blank {space : List Char} (h : Blank space) :
    endOfText space = .ok ((), []) := by
  have hpeek : peekToken space = .ok (none, []) := by
    have happend := peekToken_of_blank (s := []) h
    rwa [List.append_nil] at happend
  rw [endOfText, bind_of_ok hpeek]
  rfl

/-! ### Loops -/

/-- A run of a loop to its result. Every round but the last takes something. -/
inductive Runs (round : σ → Reader (σ ⊕ β)) : σ → List Char → β → List Char → Prop
  | last {state : σ} {s rest : List Char} {result : β} :
      round state s = .ok (.inr result, rest) → Runs round state s result rest
  | next {state state' : σ} {s s' rest : List Char} {result : β} :
      round state s = .ok (.inl state', s') → s'.length < s.length →
      Runs round state' s' result rest → Runs round state s result rest

theorem Runs.rounds {round : σ → Reader (σ ⊕ β)} {state : σ} {s rest : List Char} {result : β}
    (h : Runs round state s result rest) {n : Nat} (hn : s.length < n) :
    Reader.rounds round n state s = .ok (result, rest) := by
  induction h generalizing n with
  | last hround =>
      obtain ⟨n, rfl⟩ := Nat.exists_eq_add_one_of_ne_zero (Nat.ne_zero_of_lt hn)
      rw [Reader.rounds, bind_of_ok hround]
      rfl
  | next hround hshorter _ ih =>
      obtain ⟨n, rfl⟩ := Nat.exists_eq_add_one_of_ne_zero (Nat.ne_zero_of_lt hn)
      rw [Reader.rounds, bind_of_ok hround]
      exact ih (by omega)

theorem Runs.loop {round : σ → Reader (σ ⊕ β)} {state : σ} {s rest : List Char} {result : β}
    (h : Runs round state s result rest) :
    Reader.loop round state s = .ok (result, rest) :=
  h.rounds (Nat.lt_succ_self s.length)

/-- One round of reading one thing after another: one more thing, or the end. -/
def manyRound (next : Reader (Option α)) (read : List α) : Reader (List α ⊕ List α) := do
  match ← next with
  | some a => pure (.inl (a :: read))
  | none => pure (.inr read.reverse)

theorem many_eq (next : Reader (Option α)) : many next = loop (manyRound next) [] := rfl

section Many

variable {γ : Type} {next : Reader (Option α)} {spell : γ → List Char} {f : γ → α}
  {closing rest : List Char}

theorem runs_manyRound (hitem : ∀ c s, next (spell c ++ s) = .ok (some (f c), s))
    (hspell : ∀ c, spell c ≠ []) (hclose : next (closing ++ rest) = .ok (none, rest))
    (cs : List γ) (read : List α) :
    Runs (manyRound next) read (cs.flatMap spell ++ (closing ++ rest)) (read.reverse ++ cs.map f)
      rest := by
  induction cs generalizing read with
  | nil =>
      have hlast : manyRound next read (closing ++ rest) = .ok (.inr read.reverse, rest) := by
        rw [manyRound, bind_of_ok hclose]
        rfl
      rw [List.flatMap_nil, List.nil_append, List.map_nil, List.append_nil]
      exact .last hlast
  | cons c cs ih =>
      have hread : read.reverse ++ (c :: cs).map f = (f c :: read).reverse ++ cs.map f := by simp
      have hlength := List.length_pos_iff.mpr (hspell c)
      rw [hread, List.flatMap_cons, List.append_assoc]
      refine .next (bind_of_ok (hitem c _)) ?_ (ih (f c :: read))
      simp only [List.length_append]
      omega

/-- Reading one thing after another, when each has a text of its own and a last text ends them. -/
theorem many_flatMap (hitem : ∀ c s, next (spell c ++ s) = .ok (some (f c), s))
    (hspell : ∀ c, spell c ≠ []) (hclose : next (closing ++ rest) = .ok (none, rest))
    (cs : List γ) : many next (cs.flatMap spell ++ (closing ++ rest)) = .ok (cs.map f, rest) := by
  rw [many_eq]
  exact (runs_manyRound hitem hspell hclose cs []).loop

end Many

/-! ### Reading back -/

/-- A text whose first character cannot be taken for white space or a closing bracket. -/
def Opens (text : List Char) : Prop :=
  ∃ c t, text = c :: t ∧ isSpace c = false ∧ c ≠ ']' ∧ c ≠ '\x7d'

theorem opens_cons {c : Char} {t : List Char} (hspace : isSpace c = false) (hsquare : c ≠ ']')
    (hcurly : c ≠ '\x7d') : Opens (c :: t) :=
  ⟨c, t, rfl, hspace, hsquare, hcurly⟩

/-- The reader takes exactly this text, behind any white space and in front of any rest that does
not go on a number, and answers with `a`. -/
structure Reads (r : Reader α) (text : List Char) (a : α) : Prop where
  opens : Opens text
  eq_ok : ∀ space rest, Blank space → Delimited rest →
    r (space ++ (text ++ rest)) = .ok (a, rest)

theorem Reads.eq_ok_nil {r : Reader α} {text rest : List Char} {a : α} (h : Reads r text a)
    (hrest : Delimited rest) : r (text ++ rest) = .ok (a, rest) :=
  h.eq_ok [] rest blank_nil hrest

theorem Reads.bind_pure {r : Reader α} {text : List Char} {a : α} (h : Reads r text a)
    (f : α → β) : Reads (r >>= fun x => pure (f x)) text (f a) :=
  ⟨h.opens, fun space rest hspace hrest => bind_of_ok (h.eq_ok space rest hspace hrest)⟩

/-! ### Whole texts

What is made of a value that has been read is decided behind the reading. A verdict against it is
one on the whole text, whatever else stands there. -/

section Whole

variable {r : Reader α} {f : α → Except Cause β} {s rest : List Char} {a : α}

theorem document_map_of_ok {b : β} (h : r s = .ok (a, rest)) (hf : f a = .ok b)
    (hrest : Blank rest) : document (f <$> r) (String.ofList s) = .ok b := by
  have hread : toEnd (f <$> r) s = .ok (.ok b, []) := by
    rw [toEnd, bind_of_ok (map_of_ok h), hf]
    dsimp only
    rw [bind_of_ok (endOfText_blank hrest)]
    rfl
  rw [document, String.toList_ofList, hread]

theorem document_map_of_cause {cause : Cause} (h : r s = .ok (a, rest))
    (hf : f a = .error cause) : document (f <$> r) (String.ofList s) = .error ⟨cause, none⟩ := by
  have hread : toEnd (f <$> r) s = .ok (.error cause, rest) := by
    rw [toEnd, bind_of_ok (map_of_ok h), hf]
    rfl
  rw [document, String.toList_ofList, hread]

theorem document_map_of_error {failure : Failure} (h : r s = .error failure)
    (f : α → Except Cause β) :
    document (f <$> r) (String.ofList s) = .error (failure.within s) := by
  have hread : toEnd (f <$> r) s = .error failure := bind_of_error (map_of_error h f) _
  rw [document, String.toList_ofList, hread]

end Whole

/-- A whole text that is read, with white space around it. -/
theorem document_of_reads {r : Reader α} {text before after : List Char} {a : α}
    (h : Reads r text a) (hbefore : Blank before) (hafter : Blank after) :
    document (.ok <$> r) (String.ofList (before ++ (text ++ after))) = .ok a :=
  document_map_of_ok (h.eq_ok before after hbefore (delimited_of_blank hafter)) rfl hafter

end Reader

end MeasureInference.Json
