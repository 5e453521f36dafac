import MeasureInference.Json.Typed
import MeasureInference.Proofs.Json.Document

/-!
Verdicts of readers on documents.

That a reader accepts exactly the documents of some form is said in one piece: the form is given by
a function that says what a document means, if it means anything, and `Interprets r meaning` holds
when the reader reads every text of a document with a meaning as that meaning and fails on every
text of a document without one. Why and where it fails does not matter, so failing is a property of
the place where it begins and spreads outwards through everything that contains it.
-/

namespace MeasureInference.Json.Reader

variable {α β σ : Type}

/-! ### Failing -/

/-- The reader fails on a text. -/
def Fails (r : Reader α) (s : List Char) : Prop := ∃ failure, r s = .error failure

theorem Fails.bind {r : Reader α} {s : List Char} (h : Fails r s) (f : α → Reader β) :
    Fails (r >>= f) s := by
  obtain ⟨failure, h⟩ := h
  exact ⟨failure, bind_of_error h f⟩

theorem Fails.map {r : Reader α} {s : List Char} (h : Fails r s) (f : α → β) : Fails (f <$> r) s :=
  h.bind fun a => pure (f a)

/-- What follows fails. -/
theorem fails_bind_of_ok {r : Reader α} {f : α → Reader β} {s rest : List Char} {a : α}
    (h : r s = .ok (a, rest)) (hf : Fails (f a) rest) : Fails (r >>= f) s := by
  obtain ⟨failure, hf⟩ := hf
  exact ⟨failure, (bind_of_ok h).trans hf⟩

theorem fails_failHere (cause : Cause) (s : List Char) : Fails (failHere cause : Reader α) s :=
  ⟨_, rfl⟩

theorem fails_failNext (cause : Cause) (s : List Char) : Fails (failNext cause : Reader α) s :=
  ⟨_, rfl⟩

/-- Refusing fails, whether or not what stands there can be read. -/
theorem fails_refuse (expected : Expected) (s : List Char) :
    Fails (refuse expected : Reader α) s := by
  rw [refuse]
  cases hfound : found s with
  | error failure => exact Fails.bind ⟨failure, hfound⟩ _
  | ok result => exact fails_bind_of_ok hfound (fails_failHere _ result.2)

theorem fails_enclosed {body : Reader (Except Cause α)} {s : List Char} (h : Fails body s)
    (close : Reader (Option Failure)) (opening : Char) :
    Fails (enclosed body close) (opening :: s) :=
  fails_bind_of_ok (skip_cons opening s) (h.bind _)

/-- A run of a loop that ends with a failure. -/
inductive Stops (round : σ → Reader (σ ⊕ β)) : σ → List Char → Prop
  | here {state : σ} {s : List Char} : Fails (round state) s → Stops round state s
  | next {state state' : σ} {s s' : List Char} :
      round state s = .ok (.inl state', s') → s'.length < s.length →
      Stops round state' s' → Stops round state s

theorem Stops.rounds {round : σ → Reader (σ ⊕ β)} {state : σ} {s : List Char}
    (h : Stops round state s) {n : Nat} (hn : s.length < n) :
    Fails (Reader.rounds round n state) s := by
  induction h generalizing n with
  | here hfails =>
      obtain ⟨n, rfl⟩ := Nat.exists_eq_add_one_of_ne_zero (Nat.ne_zero_of_lt hn)
      exact hfails.bind _
  | next hround hshorter _ ih =>
      obtain ⟨n, rfl⟩ := Nat.exists_eq_add_one_of_ne_zero (Nat.ne_zero_of_lt hn)
      rw [Reader.rounds]
      exact fails_bind_of_ok hround (ih (by omega))

theorem Stops.loop {round : σ → Reader (σ ⊕ β)} {state : σ} {s : List Char}
    (h : Stops round state s) : Fails (Reader.loop round state) s :=
  h.rounds (Nat.lt_succ_self s.length)

/-! ### Verdicts -/

/-- The reader fails on this text, behind any white space and in front of any rest that does not go
on a number. -/
def Refuses (r : Reader α) (text : List Char) : Prop :=
  ∀ space rest, Blank space → Delimited rest → Fails r (space ++ (text ++ rest))

theorem Refuses.fails_nil {r : Reader α} {text rest : List Char} (h : Refuses r text)
    (hrest : Delimited rest) : Fails r (text ++ rest) :=
  h [] rest blank_nil hrest

/-- The reader takes this text for a result, or refuses it. -/
def Decides (r : Reader α) (text : List Char) : Option α → Prop
  | some a => Reads r text a
  | none => Refuses r text

theorem Refuses.decides {r : Reader α} {text : List Char} (h : Refuses r text)
    {verdict : Option α} (hverdict : verdict = none) : Decides r text verdict := by
  rw [hverdict]
  exact h

theorem Decides.bind_pure {r : Reader α} {text : List Char} {verdict : Option α}
    (h : Decides r text verdict) (f : α → β) :
    Decides (r >>= fun a => pure (f a)) text (verdict.map f) := by
  cases verdict with
  | none => exact fun space rest hspace hrest => (h space rest hspace hrest).bind _
  | some a => exact Reads.bind_pure h f

/-- The reader reads the documents that have a meaning, each as what it means, and no others. -/
def Interprets (r : Reader α) (meaning : Document → Option α) : Prop :=
  ∀ ⦃doc : Document⦄ ⦃text : List Char⦄, Spells doc text → Decides r text (meaning doc)

theorem Interprets.reads {r : Reader α} {meaning : Document → Option α} (h : Interprets r meaning)
    {doc : Document} {text : List Char} {a : α} (hspells : Spells doc text)
    (hmeaning : meaning doc = some a) : Reads r text a := by
  have hdecides := h hspells
  rw [hmeaning] at hdecides
  exact hdecides

theorem Interprets.refuses {r : Reader α} {meaning : Document → Option α} (h : Interprets r meaning)
    {doc : Document} {text : List Char} (hspells : Spells doc text)
    (hmeaning : meaning doc = none) : Refuses r text := by
  have hdecides := h hspells
  rw [hmeaning] at hdecides
  exact hdecides

theorem Interprets.bind_pure {r : Reader α} {meaning : Document → Option α}
    (h : Interprets r meaning) (f : α → β) :
    Interprets (r >>= fun a => pure (f a)) fun doc => (meaning doc).map f :=
  fun _ _ hspells => (h hspells).bind_pure f

theorem Interprets.map {r : Reader α} {meaning : Document → Option α} (h : Interprets r meaning)
    (f : α → β) : Interprets (f <$> r) fun doc => (meaning doc).map f :=
  h.bind_pure f

theorem Interprets.congr {r : Reader α} {meaning meaning' : Document → Option α}
    (h : Interprets r meaning) (heq : ∀ doc, meaning doc = meaning' doc) : Interprets r meaning' :=
  fun doc _ hspells => heq doc ▸ h hspells

/-! ### Whole texts -/

/-- The text is this document, with white space around it. -/
def Writes (text : String) (doc : Document) : Prop :=
  ∃ before body after, text = String.ofList (before ++ (body ++ after)) ∧
    Blank before ∧ Spells doc body ∧ Blank after

theorem Writes.of_spells {text : String} {doc : Document} {body : List Char}
    (h : Spells doc body) (htext : text = String.ofList body) : Writes text doc :=
  ⟨[], body, [], by rw [htext, List.append_nil, List.nil_append], blank_nil, h, blank_nil⟩

/-- A document that has no meaning is refused as a whole text. -/
theorem document_of_refuses {r : Reader α} {text before after : List Char} (h : Refuses r text)
    (hbefore : Blank before) (hafter : Blank after) :
    ∃ why, document (.ok <$> r) (String.ofList (before ++ (text ++ after))) = .error why := by
  obtain ⟨failure, hfails⟩ := h before after hbefore (delimited_of_blank hafter)
  exact ⟨_, document_map_of_error hfails .ok⟩

/-- A whole text is read as what its document means, or not at all. -/
theorem Interprets.document {r : Reader α} {meaning : Document → Option α}
    (h : Interprets r meaning) {text : String} {doc : Document} (hwrites : Writes text doc) :
    (∀ a, meaning doc = some a → Reader.document (.ok <$> r) text = .ok a) ∧
      (meaning doc = none → ∃ why, Reader.document (.ok <$> r) text = .error why) := by
  obtain ⟨before, body, after, rfl, hbefore, hspells, hafter⟩ := hwrites
  exact ⟨fun a ha => document_of_reads (h.reads hspells ha) hbefore hafter,
    fun hnone => document_of_refuses (h.refuses hspells hnone) hbefore hafter⟩

end MeasureInference.Json.Reader
