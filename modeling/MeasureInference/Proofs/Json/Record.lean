import MeasureInference.Json.Record
import MeasureInference.Proofs.Json.Skip
import MeasureInference.Proofs.Json.Typed

/-!
Which documents a record is read from.

A record is read into a draft that its fields fill one after another, in the order of the text. What
a field makes of a document is given as a function, so filling is defined on documents alone, in the
same order; for an array item by item, for an object member by member. The loops over the text are
then followed along the document: they end with the draft that is filled, or they fail, or they end
in a state from which the closing bracket is not reached or not accepted.
-/

namespace MeasureInference.Json

open Reader

variable {Draft α : Type}

namespace Record

/-! ### Filling a draft -/

section Filling

variable (put : Field Draft → Draft → Document → Option Draft)

/-- Fills the fields in their order. There may be fewer items than fields but not more. -/
def fillItems : List (Field Draft) → Draft → List Document → Option Draft
  | _, draft, [] => some draft
  | [], _, _ :: _ => none
  | field :: fields, draft, item :: items =>
    (put field draft item).bind fun draft => fillItems fields draft items

/-- Fills the field that a key names, once. Other members leave the draft as it is. -/
def fillMember (r : Record Draft α) (draft : Draft) (member : List Glyph × Document) :
    Option Draft :=
  (textOf? member.1).bind fun name =>
    match r.fields.find? (·.name = name) with
    | none => some draft
    | some field => if field.given draft then none else put field draft member.2

def fillMembers (r : Record Draft α) : Draft → List (List Glyph × Document) → Option Draft
  | draft, [] => some draft
  | draft, member :: members =>
    (fillMember put r draft member).bind fun draft => fillMembers r draft members

/-- The record that a document stands for. -/
def meaning (r : Record Draft α) : Document → Option α
  | .array items =>
    (fillItems put r.fields r.blank items).bind fun draft => (r.finish draft).toOption
  | .object members =>
    (fillMembers put r r.blank members).bind fun draft => (r.finish draft).toOption
  | _ => none

end Filling

/-! ### Items -/

/-- The closing bracket is not there. -/
def StaysOpen (close : Reader (Option Failure)) (s : List Char) : Prop :=
  ∃ failure left, close s = .ok (some failure, left)

theorem staysOpen_bind_of_ok {β : Type} {peek : Reader β} {f : β → Reader (Option Failure)}
    {s mid : List Char} {b : β} (h : peek s = .ok (b, mid)) (hf : StaysOpen (f b) mid) :
    StaysOpen (peek >>= f) s := by
  obtain ⟨failure, left, hf⟩ := hf
  exact ⟨failure, left, (bind_of_ok h).trans hf⟩

theorem staysOpen_closeArray {c : Char} {s mid : List Char} (h : peekToken s = .ok (some c, mid))
    (hc : c ≠ ']') : StaysOpen closeArray s := by
  refine staysOpen_bind_of_ok h ?_
  split
  · next heq => exact absurd (Option.some.inj heq) hc
  · exact ⟨_, _, rfl⟩
  · exact ⟨_, _, rfl⟩
  · next heq => cases heq

theorem closeArray_of_nil {first : Bool} {body : List Char} (h : SpellsItems first [] body)
    (rest : List Char) : closeArray (body ++ rest) = .ok (none, rest) := by
  cases h with
  | close hspace =>
      rw [List.append_assoc, closeArray]
      exact bind_of_ok (peekToken_blank_cons hspace (by decide))

theorem staysOpen_of_cons {first : Bool} {item : Document} {items : List Document}
    {body : List Char} (h : SpellsItems first (item :: items) body) (rest : List Char) :
    StaysOpen closeArray (body ++ rest) := by
  cases h with
  | @first space text more _ _ hspace hitem =>
      obtain ⟨c, hpeek, hsquare, -⟩ := peekToken_of_opens hspace hitem.opens (more ++ rest)
      rw [List.append_assoc, List.append_assoc]
      exact staysOpen_closeArray hpeek hsquare
  | further hbefore =>
      rw [List.append_assoc]
      exact staysOpen_closeArray (peekToken_blank_cons hbefore (by decide)) (by decide)

/-- Reading items into the fields ends with the filled draft in front of the closing bracket, or it
fails, or it ends where the bracket is missing. -/
def TakesItems (reading : Reader (Nat × Draft)) (s rest : List Char) : Option Draft → Prop
  | some final =>
    ∃ taken mid, reading s = .ok ((taken, final), mid) ∧ closeArray mid = .ok (none, rest)
  | none => Fails reading s ∨ ∃ result mid, reading s = .ok (result, mid) ∧ StaysOpen closeArray mid

theorem TakesItems.of_bind {β : Type} {reading : Reader β} {next : β → Reader (Nat × Draft)}
    {s mid rest : List Char} {b : β} {verdict : Option Draft}
    (h : reading s = .ok (b, mid)) (hnext : TakesItems (next b) mid rest verdict) :
    TakesItems (reading >>= next) s rest verdict := by
  cases verdict with
  | some final =>
      obtain ⟨taken, left, htaken, hclose⟩ := hnext
      exact ⟨taken, left, (bind_of_ok h).trans htaken, hclose⟩
  | none =>
      rcases hnext with hfails | ⟨result, left, htaken, hopen⟩
      · exact .inl (fails_bind_of_ok h hfails)
      · exact .inr ⟨result, left, (bind_of_ok h).trans htaken, hopen⟩

variable {r : Record Draft α} {put : Field Draft → Draft → Document → Option Draft}

theorem takesItems {fields : List (Field Draft)}
    (hput : ∀ field ∈ fields, ∀ draft, Interprets (field.read draft) (put field draft))
    {items : List Document} {body : List Char} {taken : Nat}
    (h : SpellsItems (taken == 0) items body) (draft : Draft) (rest : List Char) :
    TakesItems (elements taken draft fields) (body ++ rest) rest
      (fillItems put fields draft items) := by
  induction fields generalizing items body taken draft with
  | nil =>
      cases items with
      | nil => exact ⟨taken, _, rfl, closeArray_of_nil h rest⟩
      | cons item items => exact .inr ⟨(taken, draft), _, rfl, staysOpen_of_cons h rest⟩
  | cons field fields ih =>
      obtain ⟨hfield, hfields⟩ := List.forall_mem_cons.mp hput
      cases items with
      | nil =>
          refine ⟨taken, ']' :: rest, ?_, closeArray_cons rest⟩
          rw [elements, bind_of_ok (moreElements_of_nil h rest)]
          rfl
      | cons item items =>
          obtain ⟨text, more, hitem, hitems, hmore, -⟩ := moreElements_of_cons h rest
          have hdelimited := hitems.delimited rest
          rw [fillItems]
          cases hdraft : put field draft item with
          | none =>
              refine .inl (fails_bind_of_ok hmore ?_)
              rw [if_pos rfl]
              exact (((hfield draft).refuses hitem hdraft).fails_nil hdelimited).bind _
          | some draft' =>
              have hread := ((hfield draft).reads hitem hdraft).eq_ok_nil hdelimited
              have hnext : TakesItems (elements (taken + 1) draft' fields) (more ++ rest) rest
                  (fillItems put fields draft' items) :=
                ih hfields (show SpellsItems (taken + 1 == 0) items more from hitems) draft'
              refine TakesItems.of_bind hmore ?_
              rw [if_pos rfl]
              exact TakesItems.of_bind hread hnext

/-! ### Members -/

theorem closeObject_cons (rest : List Char) :
    closeObject ('\x7d' :: rest) = .ok (none, rest) := by
  rw [closeObject, bind_of_ok (peekToken_cons (by decide))]
  rfl

theorem moreMembers_close (first : Bool) {space rest : List Char} (hspace : Blank space) :
    moreMembers first (space ++ '\x7d' :: rest) = .ok (false, '\x7d' :: rest) := by
  rw [moreMembers, bind_of_ok (peekToken_blank_cons hspace (by decide))]
  rfl

theorem moreMembers_first {space s : List Char} (hspace : Blank space) :
    moreMembers true (space ++ '"' :: s) = .ok (true, '"' :: s) := by
  rw [moreMembers, bind_of_ok (peekToken_blank_cons hspace (by decide))]
  rfl

theorem moreMembers_comma {before behind s : List Char} (hbefore : Blank before)
    (hbehind : Blank behind) :
    moreMembers false (before ++ ',' :: (behind ++ '"' :: s)) = .ok (true, '"' :: s) := by
  rw [moreMembers, bind_of_ok (peekToken_blank_cons hbefore (by decide))]
  dsimp only
  rw [if_neg (by decide), if_neg Bool.false_ne_true, if_pos rfl, bind_of_ok (skip_cons _ _),
    bind_of_ok (peekToken_blank_cons hbehind (by decide))]
  rfl

/-- One round of reading an object: one more member, or the end. -/
def memberRound (r : Record Draft α) :
    Bool × Draft → Reader ((Bool × Draft) ⊕ Except Cause α) :=
  fun (first, draft) => do
    if ← moreMembers first then
      match ← r.member draft with
      | .ok draft => pure (.inl (false, draft))
      | .error cause => pure (.inr (.error cause))
    else pure (.inr (r.finish draft))

theorem fromMembers_eq (r : Record Draft α) :
    r.fromMembers = loop r.memberRound (true, r.blank) := rfl

theorem memberRound_close {r : Record Draft α} {first : Bool} {draft : Draft}
    {s rest : List Char} (h : moreMembers first s = .ok (false, rest)) :
    r.memberRound (first, draft) s = .ok (.inr (r.finish draft), rest) := by
  rw [memberRound, bind_of_ok h]
  rfl

theorem memberRound_more {r : Record Draft α} {first : Bool} {draft draft' : Draft}
    {s mid rest : List Char} (h : moreMembers first s = .ok (true, mid))
    (hmember : r.member draft mid = .ok (.ok draft', rest)) :
    r.memberRound (first, draft) s = .ok (.inl (false, draft'), rest) := by
  rw [memberRound, bind_of_ok h, if_pos rfl, bind_of_ok hmember]
  rfl

theorem moreMembers_of_nil {first : Bool} {body : List Char} (h : SpellsMembers first [] body)
    (rest : List Char) : moreMembers first (body ++ rest) = .ok (false, '\x7d' :: rest) := by
  cases h with
  | close hspace =>
      rw [List.append_assoc]
      exact moreMembers_close first hspace

theorem moreMembers_of_cons {first : Bool} {member : List Glyph × Document}
    {members : List (List Glyph × Document)} {body : List Char}
    (h : SpellsMembers first (member :: members) body) (rest : List Char) :
    ∃ text more, SpellsMember member text ∧ SpellsMembers false members more ∧
      moreMembers first (body ++ rest) = .ok (true, text ++ (more ++ rest)) ∧
      (more ++ rest).length < (body ++ rest).length := by
  cases h with
  | @first space text more _ _ hspace hmember hmembers =>
      obtain ⟨t, rfl⟩ := hmember.exists_cons
      refine ⟨'"' :: t, more, hmember, hmembers, ?_, ?_⟩
      · rw [List.append_assoc, List.append_assoc]
        exact moreMembers_first hspace
      · simp only [List.length_append, List.length_cons]
        omega
  | @further before behind text more _ _ hbefore hbehind hmember hmembers =>
      obtain ⟨t, rfl⟩ := hmember.exists_cons
      have hsplit : before ++ ',' :: (behind ++ ('"' :: t ++ more)) ++ rest =
          before ++ ',' :: (behind ++ '"' :: (t ++ (more ++ rest))) := by simp
      refine ⟨'"' :: t, more, hmember, hmembers, ?_, ?_⟩
      · rw [hsplit]
        exact moreMembers_comma hbefore hbehind
      · simp only [List.length_append, List.length_cons]
        omega

/-- Reading a member into a draft ends with the draft that it leads to, or it fails, or it ends
with a cause that has no place yet. -/
def TakesMember (reading : Reader (Except Cause Draft)) (s rest : List Char) : Option Draft → Prop
  | some draft => reading s = .ok (.ok draft, rest)
  | none => Fails reading s ∨ ∃ cause mid, reading s = .ok (.error cause, mid)

theorem takesMember
    (hput : ∀ field ∈ r.fields, ∀ draft, Interprets (field.read draft) (put field draft))
    {member : List Glyph × Document} {text : List Char} (h : SpellsMember member text)
    (draft : Draft) {rest : List Char} (hrest : Delimited rest) :
    TakesMember (r.member draft) (text ++ rest) rest (fillMember put r draft member) := by
  cases h with
  | @mk before behind text value key hbefore hbehind hvalue =>
      have hsplit : Glyph.quoted key ++ (before ++ ':' :: (behind ++ text)) ++ rest =
          Glyph.quoted key ++ (before ++ ':' :: (behind ++ (text ++ rest))) := by simp
      rw [hsplit, fillMember]
      cases hname : textOf? key with
      | none => exact .inl ((fails_quotedText hname _).bind _)
      | some name =>
          have hkey := quotedText_of_textOf? hname (before ++ ':' :: (behind ++ (text ++ rest)))
          rw [Option.bind_some]
          cases hfield : r.fields.find? (·.name = name) with
          | none =>
              show r.member draft _ = _
              rw [member, bind_of_ok hkey, hfield]
              dsimp only
              rw [bind_of_ok (colon_blank hbefore),
                bind_of_ok ((reads_skipAny hvalue).eq_ok behind rest hbehind hrest)]
              rfl
          | some field =>
              have hinterprets := hput field (List.mem_of_find?_eq_some hfield) draft
              dsimp only
              cases hgiven : field.given draft with
              | true =>
                  refine .inr
                    ⟨.duplicateField name, before ++ ':' :: (behind ++ (text ++ rest)), ?_⟩
                  rw [member, bind_of_ok hkey, hfield]
                  dsimp only
                  rw [hgiven, if_pos rfl]
                  rfl
              | false =>
                  have hmember : r.member draft (Glyph.quoted key ++
                        (before ++ ':' :: (behind ++ (text ++ rest)))) =
                      (Except.ok <$> field.read draft : Reader (Except Cause Draft))
                        (behind ++ (text ++ rest)) := by
                    rw [member, bind_of_ok hkey, hfield]
                    dsimp only
                    rw [hgiven, if_neg Bool.false_ne_true, bind_of_ok (colon_blank hbefore)]
                  rw [if_neg Bool.false_ne_true]
                  cases hdraft : put field draft value with
                  | none =>
                      refine .inl ?_
                      rw [Fails, hmember]
                      exact (hinterprets.refuses hvalue hdraft behind rest hbehind hrest).map _
                  | some draft' =>
                      show r.member draft _ = _
                      rw [hmember]
                      exact map_of_ok
                        ((hinterprets.reads hvalue hdraft).eq_ok behind rest hbehind hrest)

/-- The run over the members of an object ends with the filled draft in front of the closing
bracket, or it fails, or it ends with a cause that has no place yet. -/
def MembersRun (r : Record Draft α) (first : Bool) (draft : Draft) (s rest : List Char) :
    Option Draft → Prop
  | some final => Runs r.memberRound (first, draft) s (r.finish final) ('\x7d' :: rest)
  | none =>
    Stops r.memberRound (first, draft) s ∨
      ∃ cause mid, Runs r.memberRound (first, draft) s (.error cause) mid

theorem MembersRun.next {first : Bool} {draft draft' : Draft} {s mid rest : List Char}
    {verdict : Option Draft}
    (h : r.memberRound (first, draft) s = .ok (.inl (false, draft'), mid))
    (hshorter : mid.length < s.length) (hrun : MembersRun r false draft' mid rest verdict) :
    MembersRun r first draft s rest verdict := by
  cases verdict with
  | some final => exact Runs.next h hshorter hrun
  | none =>
      rcases hrun with hstops | ⟨cause, left, hrun⟩
      · exact .inl (.next h hshorter hstops)
      · exact .inr ⟨cause, left, .next h hshorter hrun⟩

theorem membersRun
    (hput : ∀ field ∈ r.fields, ∀ draft, Interprets (field.read draft) (put field draft))
    {first : Bool} {members : List (List Glyph × Document)} {body : List Char}
    (h : SpellsMembers first members body) (draft : Draft) (rest : List Char) :
    MembersRun r first draft (body ++ rest) rest (fillMembers put r draft members) := by
  induction members generalizing first body draft with
  | nil => exact Runs.last (memberRound_close (moreMembers_of_nil h rest))
  | cons member members ih =>
      obtain ⟨text, more, hmember, hmembers, hmore, hshorter⟩ := moreMembers_of_cons h rest
      have htakes := takesMember hput hmember draft (hmembers.delimited rest)
      rw [fillMembers]
      cases hdraft : fillMember put r draft member with
      | some draft' =>
          rw [hdraft] at htakes
          exact (ih hmembers draft').next (memberRound_more hmore htakes) hshorter
      | none =>
          rw [hdraft] at htakes
          rcases htakes with hfails | ⟨cause, mid, herror⟩
          · refine .inl (.here (fails_bind_of_ok hmore ?_))
            rw [if_pos rfl]
            exact hfails.bind _
          · refine .inr ⟨cause, mid, .last ?_⟩
            rw [memberRound, bind_of_ok hmore, if_pos rfl, bind_of_ok herror]
            rfl

/-! ### Whole records -/

section Enclosed

variable {body : Reader (Except Cause α)} {close : Reader (Option Failure)} {s mid : List Char}

/-- A cause without a place fails at the bracket, whether or not that is there. -/
theorem fails_enclosed_of_error {cause : Cause} (h : body s = .ok (.error cause, mid))
    (opening : Char) : Fails (enclosed body close) (opening :: s) := by
  refine fails_bind_of_ok (skip_cons opening s) (fails_bind_of_ok h ?_)
  cases hclose : close mid with
  | error failure => exact Fails.bind ⟨failure, hclose⟩ _
  | ok result => exact fails_bind_of_ok hclose (fails_failHere _ _)

theorem fails_enclosed_of_staysOpen {verdict : Except Cause α} (h : body s = .ok (verdict, mid))
    (hopen : StaysOpen close mid) (opening : Char) :
    Fails (enclosed body close) (opening :: s) := by
  obtain ⟨failure, left, hclose⟩ := hopen
  refine fails_bind_of_ok (skip_cons opening s) (fails_bind_of_ok h
    (fails_bind_of_ok hclose ?_))
  cases verdict with
  | error cause => exact fails_failHere _ _
  | ok a => exact ⟨failure, rfl⟩

end Enclosed

theorem fromElements_of_ok {s mid : List Char} {taken : Nat} {draft : Draft}
    (h : elements 0 r.blank r.fields s = .ok ((taken, draft), mid)) :
    r.fromElements s =
      .ok (match r.finish draft with
        | .ok a => .ok a
        | .error _ => .error (.wrongLength taken r.name r.fields.length), mid) := by
  rw [fromElements, bind_of_ok h]
  cases hfinish : r.finish draft <;> simp only [hfinish] <;> rfl

theorem read_square {space s : List Char} (hspace : Blank space) :
    r.read (space ++ '[' :: s) = enclosed r.fromElements closeArray ('[' :: s) := by
  rw [read, bind_of_ok (startOfValue_blank_cons hspace (by decide))]
  rfl

theorem read_curly {space s : List Char} (hspace : Blank space) :
    r.read (space ++ '\x7b' :: s) = enclosed r.fromMembers closeObject ('\x7b' :: s) := by
  rw [read, bind_of_ok (startOfValue_blank_cons hspace (by decide))]
  rfl

theorem decides_array
    (hput : ∀ field ∈ r.fields, ∀ draft, Interprets (field.read draft) (put field draft))
    {items : List Document} {body : List Char} (h : SpellsItems true items body) :
    Decides r.read ('[' :: body) (r.meaning put (.array items)) := by
  have htakes (rest : List Char) : TakesItems (elements 0 r.blank r.fields) (body ++ rest) rest
      (fillItems put r.fields r.blank items) :=
    takesItems hput (show SpellsItems ((0 : Nat) == 0) items body from h) r.blank rest
  rw [meaning]
  cases hfill : fillItems put r.fields r.blank items with
  | none =>
      intro space rest hspace _
      have hitems := htakes rest
      rw [hfill] at hitems
      rw [List.cons_append, Fails, read_square hspace]
      rcases hitems with hfails | ⟨result, mid, hread, hopen⟩
      · exact fails_enclosed (hfails.bind _) _ _
      · exact fails_enclosed_of_staysOpen (fromElements_of_ok hread) hopen _
  | some final =>
      rw [hfill] at htakes
      rw [Option.bind_some]
      cases hfinish : r.finish final with
      | error cause =>
          intro space rest hspace _
          obtain ⟨taken, mid, hread, -⟩ := htakes rest
          have hbody := fromElements_of_ok hread
          rw [hfinish] at hbody
          rw [List.cons_append, Fails, read_square hspace]
          exact fails_enclosed_of_error hbody _
      | ok a =>
          refine ⟨opens_cons (by decide) (by decide) (by decide), fun space rest hspace _ => ?_⟩
          obtain ⟨taken, mid, hread, hclose⟩ := htakes rest
          have hbody := fromElements_of_ok hread
          rw [hfinish] at hbody
          rw [List.cons_append, read_square hspace]
          exact enclosed_of_ok hbody hclose

theorem decides_object
    (hput : ∀ field ∈ r.fields, ∀ draft, Interprets (field.read draft) (put field draft))
    {members : List (List Glyph × Document)} {body : List Char}
    (h : SpellsMembers true members body) :
    Decides r.read ('\x7b' :: body) (r.meaning put (.object members)) := by
  have hruns (rest : List Char) := membersRun hput h r.blank rest
  rw [meaning]
  cases hfill : fillMembers put r r.blank members with
  | none =>
      intro space rest hspace _
      have hmembers := hruns rest
      rw [hfill] at hmembers
      rw [List.cons_append, Fails, read_curly hspace, fromMembers_eq]
      rcases hmembers with hstops | ⟨cause, mid, herror⟩
      · exact fails_enclosed hstops.loop _ _
      · exact fails_enclosed_of_error herror.loop _
  | some final =>
      rw [hfill] at hruns
      rw [Option.bind_some]
      cases hfinish : r.finish final with
      | error cause =>
          intro space rest hspace _
          have hbody := Runs.loop (hruns rest)
          rw [hfinish] at hbody
          rw [List.cons_append, Fails, read_curly hspace, fromMembers_eq]
          exact fails_enclosed_of_error hbody _
      | ok a =>
          refine ⟨opens_cons (by decide) (by decide) (by decide), fun space rest hspace _ => ?_⟩
          have hbody := Runs.loop (hruns rest)
          rw [hfinish] at hbody
          rw [List.cons_append, read_curly hspace, fromMembers_eq]
          exact enclosed_of_ok hbody (closeObject_cons rest)

/-- A record is read from the documents that stand for it, in either notation. -/
theorem interprets_read
    (hput : ∀ field ∈ r.fields, ∀ draft, Interprets (field.read draft) (put field draft)) :
    Interprets r.read (r.meaning put) := by
  intro doc text h
  cases doc with
  | array items =>
      cases h with
      | array hitems => exact decides_array hput hitems
  | object members =>
      cases h with
      | object hmembers => exact decides_object hput hmembers
  | _ =>
      refine refuses_of_opensWith h fun c hc s => ?_
      split
      · obtain ⟨items, hdoc⟩ := Document.eq_array_of_opensWith hc
        cases hdoc
      · obtain ⟨members, hdoc⟩ := Document.eq_object_of_opensWith hc
        cases hdoc
      · exact fails_refuse _ _

end Record

end MeasureInference.Json
