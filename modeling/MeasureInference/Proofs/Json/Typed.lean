import MeasureInference.Proofs.Json.Numeral
import MeasureInference.Proofs.Json.Quoted

/-!
Which documents the readers of a known kind read, and as what.

Each reader looks at the first character and refuses every document of another kind by it; what is
left is one kind of document for each reader. Arrays put the verdicts on their items together, and
stop at the first item that is refused.
-/

namespace MeasureInference.Json

variable {α : Type}

/-! ### Meanings -/

namespace Document

def null? : Document → Option Unit
  | .null => some ()
  | _ => none

/-- The characters of a text. -/
def text? : Document → Option String
  | .text glyphs => textOf? glyphs
  | _ => none

/-- A number that is written as a whole one and lies in a range. -/
def whole? (range : WholeRange) : Document → Option Int
  | .number n => n.whole?.filter fun k => range.least ≤ k ∧ k ≤ range.greatest
  | _ => none

/-- One of some names, as a text or as the key of the only member of an object, whose value is
null. -/
def named? (names : List (String × α)) : Document → Option α
  | .text glyphs => (textOf? glyphs).bind fun name => names.lookup name
  | .object [(key, .null)] => (textOf? key).bind fun name => names.lookup name
  | _ => none

theorem named?_eq_none (names : List (String × α)) (key : List Glyph) {value : Document}
    {members : List (List Glyph × Document)} (h : ¬(value = .null ∧ members = [])) :
    named? names (.object ((key, value) :: members)) = none := by
  unfold named?
  split
  · next heq => cases heq
  · next heq =>
    cases heq
    exact absurd ⟨rfl, rfl⟩ h
  · rfl

def arrayOf? (meaning : Document → Option α) : Document → Option (List α)
  | .array items => items.mapM meaning
  | _ => none

end Document

/-- An array has a meaning if all of its items have one. -/
theorem mapM_cons_eq_bind (meaning : Document → Option α) (item : Document)
    (items : List Document) :
    (item :: items).mapM meaning =
      (meaning item).bind fun a => (items.mapM meaning).map (a :: ·) := by
  rw [List.mapM_cons]
  cases meaning item with
  | none => rfl
  | some a => cases items.mapM meaning <;> rfl

theorem Document.arrayOf?_map {meaning : Document → Option α} {doc : α → Document} {as : List α}
    (h : ∀ a ∈ as, meaning (doc a) = some a) :
    Document.arrayOf? meaning (.array (as.map doc)) = some as := by
  rw [Document.arrayOf?]
  induction as with
  | nil => rfl
  | cons a as ih =>
      obtain ⟨ha, has⟩ := List.forall_mem_cons.mp h
      rw [List.map_cons, mapM_cons_eq_bind, ha, ih has]
      rfl

/-- One item without a meaning keeps an array from having one. -/
theorem Document.arrayOf?_eq_none_of_mem {meaning : Document → Option α} {item : Document}
    {items : List Document} (hmem : item ∈ items) (hitem : meaning item = none) :
    Document.arrayOf? meaning (.array items) = none := by
  rw [Document.arrayOf?]
  induction items with
  | nil => cases hmem
  | cons head items ih =>
      rw [mapM_cons_eq_bind]
      rcases List.mem_cons.mp hmem with rfl | hmem
      · rw [hitem, Option.bind_none]
      · rw [ih hmem]
        cases meaning head <;> rfl

/-! ### Kinds by their first characters -/

section Opening

variable {doc : Document}

theorem Document.eq_null_of_opensWith (h : doc.opensWith 'n' = true) : doc = .null := by
  cases doc with
  | null => rfl
  | flag value => cases value <;> cases h
  | _ => cases h

theorem Document.eq_text_of_opensWith (h : doc.opensWith '"' = true) :
    ∃ glyphs, doc = .text glyphs := by
  cases doc with
  | text glyphs => exact ⟨glyphs, rfl⟩
  | flag value => cases value <;> cases h
  | _ => cases h

theorem Document.eq_array_of_opensWith (h : doc.opensWith '[' = true) :
    ∃ items, doc = .array items := by
  cases doc with
  | array items => exact ⟨items, rfl⟩
  | flag value => cases value <;> cases h
  | _ => cases h

theorem Document.eq_object_of_opensWith (h : doc.opensWith '\x7b' = true) :
    ∃ members, doc = .object members := by
  cases doc with
  | object members => exact ⟨members, rfl⟩
  | flag value => cases value <;> cases h
  | _ => cases h

theorem Document.eq_number_of_opensWith {c : Char} (h : doc.opensWith c = true)
    (hc : opensNumber c = true) : ∃ n, doc = .number n := by
  cases doc with
  | number n => exact ⟨n, rfl⟩
  | flag value => cases value <;> rw [of_decide_eq_true h] at hc <;> cases hc
  | _ => rw [of_decide_eq_true h] at hc; cases hc

end Opening

namespace Reader

section Starts

variable {doc : Document} {text : List Char}

theorem startOfValue_spells (h : Spells doc text) {space : List Char} (hspace : Blank space)
    (rest : List Char) :
    ∃ c, doc.opensWith c = true ∧
      startOfValue (space ++ (text ++ rest)) = .ok (c, text ++ rest) := by
  obtain ⟨c, t, rfl, hc⟩ := h.exists_cons
  exact ⟨c, hc, startOfValue_blank_cons hspace (Document.isSpace_of_opensWith hc)⟩

theorem startOfValue_quoted (glyphs : List Glyph) {space : List Char} (hspace : Blank space)
    (rest : List Char) :
    startOfValue (space ++ (Glyph.quoted glyphs ++ rest)) =
      .ok ('"', Glyph.quoted glyphs ++ rest) :=
  startOfValue_blank_cons hspace (by decide)

/-- A document is refused by its first character. -/
theorem refuses_of_opensWith (h : Spells doc text) {f : Char → Reader α}
    (hf : ∀ c, doc.opensWith c = true → ∀ s, Fails (f c) s) :
    Refuses (startOfValue >>= f) text := by
  intro space rest hspace _
  obtain ⟨c, hc, hstart⟩ := startOfValue_spells h hspace rest
  exact fails_bind_of_ok hstart (hf c hc _)

theorem refuses_null (h : Spells doc text) (hdoc : doc ≠ .null) : Refuses null text := by
  refine refuses_of_opensWith h fun c hc s => ?_
  have hne : c ≠ 'n' := fun heq => hdoc (Document.eq_null_of_opensWith (heq ▸ hc))
  rw [if_neg hne]
  exact fails_refuse _ _

theorem refuses_text (h : Spells doc text) (hdoc : ∀ glyphs, doc ≠ .text glyphs) :
    Refuses Reader.text text := by
  refine refuses_of_opensWith h fun c hc s => ?_
  have hne : c ≠ '"' := fun heq =>
    (Document.eq_text_of_opensWith (heq ▸ hc)).elim fun glyphs => hdoc glyphs
  rw [if_neg hne]
  exact fails_refuse _ _

theorem refuses_whole (range : WholeRange) (h : Spells doc text) (hdoc : ∀ n, doc ≠ .number n) :
    Refuses (whole range) text := by
  refine refuses_of_opensWith h fun c hc s => ?_
  have hne : ¬opensNumber c = true := fun hnumber =>
    (Document.eq_number_of_opensWith hc hnumber).elim fun n => hdoc n
  rw [if_neg hne]
  exact fails_refuse _ _

theorem refuses_arrayOf (element : Reader α) (h : Spells doc text)
    (hdoc : ∀ items, doc ≠ .array items) : Refuses (arrayOf element) text := by
  refine refuses_of_opensWith h fun c hc s => ?_
  have hne : c ≠ '[' := fun heq =>
    (Document.eq_array_of_opensWith (heq ▸ hc)).elim fun items => hdoc items
  rw [if_neg hne]
  exact fails_refuse _ _

theorem refuses_named (names : List (String × α)) (h : Spells doc text)
    (htext : ∀ glyphs, doc ≠ .text glyphs) (hobject : ∀ members, doc ≠ .object members) :
    Refuses (named names) text := by
  refine refuses_of_opensWith h fun c hc s => ?_
  split
  · exact (Document.eq_text_of_opensWith hc).elim fun glyphs heq => (htext glyphs heq).elim
  · exact (Document.eq_object_of_opensWith hc).elim fun members heq => (hobject members heq).elim
  · exact fails_failNext _ _

end Starts

/-! ### Single values -/

theorem interprets_null : Interprets null Document.null? := by
  intro doc text h
  cases doc with
  | null =>
      cases h
      refine ⟨Spells.null.opens, fun space rest hspace hrest => ?_⟩
      have hstart : startOfValue (space ++ (['n', 'u', 'l', 'l'] ++ rest)) =
          .ok ('n', ['n', 'u', 'l', 'l'] ++ rest) :=
        startOfValue_blank_cons hspace (by decide)
      rw [null, bind_of_ok hstart]
      rfl
  | _ => exact (refuses_null h nofun).decides rfl

theorem interprets_text : Interprets text Document.text? := by
  intro doc text h
  cases doc with
  | text glyphs =>
      cases h
      cases hmeaning : textOf? glyphs with
      | none =>
          rw [Document.text?, hmeaning]
          exact fun space rest hspace _ =>
            fails_bind_of_ok (startOfValue_quoted glyphs hspace rest)
              (fails_quotedText hmeaning rest)
      | some s =>
          rw [Document.text?, hmeaning]
          refine ⟨(Spells.text glyphs).opens, fun space rest hspace _ => ?_⟩
          rw [Reader.text, bind_of_ok (startOfValue_quoted glyphs hspace rest)]
          exact quotedText_of_textOf? hmeaning rest
  | _ => exact (refuses_text h nofun).decides rfl

/-- Behind the first character of a number, a whole number is read and its range is checked. -/
theorem whole_numeral (range : WholeRange) (n : Numeral) {space rest : List Char}
    (hspace : Blank space) :
    whole range (space ++ (n.chars ++ rest)) =
      (do
        match ← number with
        | .whole k =>
          if range.least ≤ k ∧ k ≤ range.greatest then pure k
          else failHere (.wrongWhole k range.name)
        | .decimal x => failHere (.wrongKind (.decimal x) (.whole range.name)) : Reader Int)
        (n.chars ++ rest) := by
  obtain ⟨c, hc, hstart⟩ := startOfValue_spells (Spells.number n) hspace rest
  have hnumber : opensNumber c = true := hc
  rw [whole, bind_of_ok hstart]
  exact congrFun (if_pos hnumber) _

theorem interprets_whole (range : WholeRange) :
    Interprets (whole range) (Document.whole? range) := by
  intro doc text h
  cases doc with
  | number n =>
      cases h
      cases hwhole : n.whole? with
      | none =>
          rw [Document.whole?, hwhole]
          intro space rest hspace hrest
          rw [Fails, whole_numeral range n hspace]
          rcases takesDecimal_number hwhole hrest with ⟨x, hread⟩ | ⟨failure, hread, -⟩
          · exact fails_bind_of_ok hread (fails_failHere _ _)
          · exact Fails.bind ⟨failure, hread⟩ _
      | some k =>
          rw [Document.whole?, hwhole]
          by_cases hrange : range.least ≤ k ∧ k ≤ range.greatest
          · rw [Option.filter_some, decide_eq_true hrange, if_pos rfl]
            refine ⟨(Spells.number n).opens, fun space rest hspace hrest => ?_⟩
            rw [whole_numeral range n hspace, bind_of_ok (number_of_whole? hwhole hrest)]
            dsimp only
            rw [if_pos hrange]
            rfl
          · rw [Option.filter_some, decide_eq_false hrange, if_neg Bool.false_ne_true]
            intro space rest hspace hrest
            rw [Fails, whole_numeral range n hspace]
            refine fails_bind_of_ok (number_of_whole? hwhole hrest) ?_
            dsimp only
            rw [if_neg hrange]
            exact fails_failHere _ _
  | _ => exact (refuses_whole range h fun _ heq => Document.noConfusion heq).decides rfl

/-! ### Names -/

theorem lookUp_of_lookup {names : List (String × α)} {name : String} {a : α}
    (h : names.lookup name = some a) (s : List Char) : lookUp names name s = .ok (a, s) := by
  rw [lookUp, h]
  rfl

/-- The lookup of the name that a row of glyphs stands for. -/
theorem lookUp_quoted_of_some {names : List (String × α)} {glyphs : List Glyph} {a : α}
    (h : ((textOf? glyphs).bind fun name => names.lookup name) = some a) (rest : List Char) :
    (quotedText >>= lookUp names) (Glyph.quoted glyphs ++ rest) = .ok (a, rest) := by
  obtain ⟨name, hname, hlookup⟩ := Option.bind_eq_some_iff.mp h
  exact (bind_of_ok (quotedText_of_textOf? hname rest)).trans (lookUp_of_lookup hlookup rest)

theorem fails_lookUp_quoted {names : List (String × α)} {glyphs : List Glyph}
    (h : ((textOf? glyphs).bind fun name => names.lookup name) = none) (rest : List Char) :
    Fails (quotedText >>= lookUp names) (Glyph.quoted glyphs ++ rest) := by
  cases hname : textOf? glyphs with
  | none => exact (fails_quotedText hname rest).bind _
  | some name =>
      rw [hname, Option.bind_some] at h
      refine fails_bind_of_ok (quotedText_of_textOf? hname rest) ?_
      rw [lookUp, h]
      exact fails_failHere _ _

/-- What follows the name in an object. The object has to end behind a null. -/
theorem closeNamed_null {before behind space rest : List Char} (hbefore : Blank before)
    (hbehind : Blank behind) (hspace : Blank space) :
    closeNamed (before ++ ':' :: (behind ++ (['n', 'u', 'l', 'l'] ++ (space ++ '\x7d' :: rest)))) =
      .ok ((), rest) := by
  have hnull : Reads null ['n', 'u', 'l', 'l'] () := interprets_null .null
  rw [closeNamed, bind_of_ok (colon_blank hbefore),
    bind_of_ok (hnull.eq_ok behind _ hbehind (delimited_blank_cons hspace (by decide))),
    bind_of_ok (peekToken_blank_cons hspace (by decide))]
  rfl

theorem fails_closeNamed {before behind text more rest : List Char} {value : Document}
    {members : List (List Glyph × Document)} (hbefore : Blank before) (hbehind : Blank behind)
    (hvalue : Spells value text) (hmembers : SpellsMembers false members more)
    (h : value = .null → members ≠ []) :
    Fails closeNamed (before ++ ':' :: (behind ++ (text ++ (more ++ rest)))) := by
  refine fails_bind_of_ok (colon_blank hbefore) ?_
  have hdelimited := hmembers.delimited rest
  by_cases hnull : value = .null
  · have hreads : Reads null text () := interprets_null.reads hvalue (by rw [hnull]; rfl)
    refine fails_bind_of_ok (hreads.eq_ok behind _ hbehind hdelimited) ?_
    cases hmembers with
    | close hspace => exact absurd rfl (h hnull)
    | further hcomma =>
        rw [List.append_assoc]
        exact fails_bind_of_ok (peekToken_blank_cons hcomma (by decide)) (fails_failHere _ _)
  · exact (refuses_null hvalue hnull behind _ hbehind hdelimited).bind _

/-- The reading of an object with one member, from its first key on. -/
theorem named_object {names : List (String × α)} {space inner rest : List Char} (key : List Glyph)
    (hspace : Blank space) (hinner : Blank inner) :
    named names (space ++ '\x7b' :: (inner ++ (Glyph.quoted key ++ rest))) =
      ((quotedText >>= lookUp names) >>= fun a => closeNamed >>= fun _ => pure a)
        (Glyph.quoted key ++ rest) := by
  have hpeek : peekToken (inner ++ (Glyph.quoted key ++ rest)) =
      .ok (some '"', Glyph.quoted key ++ rest) :=
    peekToken_blank_cons hinner (by decide)
  rw [named, bind_of_ok (startOfValue_blank_cons hspace (by decide)), bind_assoc]
  exact (bind_of_ok (skip_cons _ _)).trans (bind_of_ok hpeek)

theorem named_quoted {names : List (String × α)} {space rest : List Char} (glyphs : List Glyph)
    (hspace : Blank space) :
    named names (space ++ (Glyph.quoted glyphs ++ rest)) =
      (quotedText >>= lookUp names) (Glyph.quoted glyphs ++ rest) := by
  rw [named, bind_of_ok (startOfValue_quoted glyphs hspace rest)]
  rfl

theorem decides_named_text (names : List (String × α)) (glyphs : List Glyph) :
    Decides (named names) (Glyph.quoted glyphs) (Document.named? names (.text glyphs)) := by
  rw [Document.named?]
  cases hlookup : (textOf? glyphs).bind fun name => names.lookup name with
  | none =>
      intro space rest hspace _
      rw [Fails, named_quoted glyphs hspace]
      exact fails_lookUp_quoted hlookup rest
  | some a =>
      refine ⟨(Spells.text glyphs).opens, fun space rest hspace _ => ?_⟩
      rw [named_quoted glyphs hspace]
      exact lookUp_quoted_of_some hlookup rest

theorem refuses_named_emptyObject (names : List (String × α)) {inner : List Char}
    (hinner : Blank inner) : Refuses (named names) ('\x7b' :: (inner ++ ['\x7d'])) := by
  intro space rest hspace _
  have hsplit : space ++ ('\x7b' :: (inner ++ ['\x7d']) ++ rest) =
      space ++ '\x7b' :: (inner ++ '\x7d' :: rest) := by simp
  rw [hsplit]
  refine fails_bind_of_ok (startOfValue_blank_cons hspace (by decide)) ?_
  refine fails_bind_of_ok (skip_cons _ _) ?_
  exact fails_bind_of_ok (peekToken_blank_cons hinner (by decide)) (fails_failNext _ _)

/-- An object with one member, whose value is null, is read by the name of its key. -/
theorem decides_named_member (names : List (String × α)) {inner before behind space : List Char}
    (key : List Glyph) (hinner : Blank inner) (hbefore : Blank before) (hbehind : Blank behind)
    (hspace : Blank space) :
    Decides (named names)
      ('\x7b' :: (inner ++ (Glyph.quoted key ++
        (before ++ ':' :: (behind ++ ['n', 'u', 'l', 'l'])) ++ (space ++ ['\x7d']))))
      ((textOf? key).bind fun name => names.lookup name) := by
  have hsplit (front rest : List Char) : front ++ ('\x7b' :: (inner ++ (Glyph.quoted key ++
        (before ++ ':' :: (behind ++ ['n', 'u', 'l', 'l'])) ++ (space ++ ['\x7d']))) ++ rest) =
      front ++ '\x7b' :: (inner ++ (Glyph.quoted key ++
        (before ++ ':' :: (behind ++ (['n', 'u', 'l', 'l'] ++ (space ++ '\x7d' :: rest)))))) := by
    simp
  cases hlookup : (textOf? key).bind fun name => names.lookup name with
  | none =>
      intro front rest hfront _
      rw [hsplit, Fails, named_object key hfront hinner]
      exact (fails_lookUp_quoted hlookup _).bind _
  | some a =>
      refine ⟨opens_cons (by decide) (by decide) (by decide), fun front rest hfront _ => ?_⟩
      rw [hsplit, named_object key hfront hinner, bind_of_ok (lookUp_quoted_of_some hlookup _),
        bind_of_ok (closeNamed_null hbefore hbehind hspace)]
      rfl

theorem refuses_named_object (names : List (String × α))
    {inner before behind text more : List Char} {value : Document}
    {members : List (List Glyph × Document)} (key : List Glyph) (hinner : Blank inner)
    (hbefore : Blank before) (hbehind : Blank behind) (hvalue : Spells value text)
    (hmembers : SpellsMembers false members more) (h : value = .null → members ≠ []) :
    Refuses (named names) ('\x7b' :: (inner ++ (Glyph.quoted key ++
      (before ++ ':' :: (behind ++ text)) ++ more))) := by
  intro front rest hfront _
  have hsplit : front ++ ('\x7b' :: (inner ++ (Glyph.quoted key ++
        (before ++ ':' :: (behind ++ text)) ++ more)) ++ rest) =
      front ++ '\x7b' :: (inner ++ (Glyph.quoted key ++
        (before ++ ':' :: (behind ++ (text ++ (more ++ rest)))))) := by
    simp
  rw [hsplit, Fails, named_object key hfront hinner]
  cases hlookup : (textOf? key).bind fun name => names.lookup name with
  | none => exact (fails_lookUp_quoted hlookup _).bind _
  | some a =>
      refine fails_bind_of_ok (lookUp_quoted_of_some hlookup _) (Fails.bind ?_ _)
      exact fails_closeNamed hbefore hbehind hvalue hmembers h

theorem interprets_named (names : List (String × α)) :
    Interprets (named names) (Document.named? names) := by
  intro doc text h
  cases doc with
  | text glyphs =>
      cases h
      exact decides_named_text names glyphs
  | object members =>
      cases h with
      | object hmembers =>
          cases hmembers with
          | close hinner => exact refuses_named_emptyObject names hinner
          | @first _ _ _ _ others hinner hmember hmembers =>
              cases hmember with
              | @mk _ _ _ value key hbefore hbehind hvalue =>
                  by_cases hform : value = .null ∧ others = []
                  · obtain ⟨rfl, rfl⟩ := hform
                    cases hvalue
                    cases hmembers with
                    | close hspace =>
                        exact decides_named_member names key hinner hbefore hbehind hspace
                  · rw [Document.named?_eq_none names key hform]
                    exact refuses_named_object names key hinner hbefore hbehind hvalue hmembers
                      fun hnull hothers => hform ⟨hnull, hothers⟩
  | _ => exact (refuses_named names h nofun nofun).decides rfl

/-! ### Arrays -/

theorem enclosed_of_ok {body : Reader (Except Cause α)} {close : Reader (Option Failure)}
    {opening : Char} {s mid rest : List Char} {a : α} (hbody : body s = .ok (.ok a, mid))
    (hclose : close mid = .ok (none, rest)) :
    enclosed body close (opening :: s) = .ok (a, rest) := by
  rw [enclosed, bind_of_ok (skip_cons opening s), bind_of_ok hbody, bind_of_ok hclose]
  rfl

theorem closeArray_cons (rest : List Char) : closeArray (']' :: rest) = .ok (none, rest) := by
  rw [closeArray, bind_of_ok (peekToken_cons (by decide))]
  rfl

theorem peekToken_of_opens {space text : List Char} (hspace : Blank space) (h : Opens text)
    (rest : List Char) :
    ∃ c, peekToken (space ++ (text ++ rest)) = .ok (some c, text ++ rest) ∧ c ≠ ']' ∧
      c ≠ '\x7d' := by
  obtain ⟨c, t, rfl, hc, hsquare, hcurly⟩ := h
  exact ⟨c, peekToken_blank_cons hspace hc, hsquare, hcurly⟩

theorem moreElements_close (first : Bool) {space rest : List Char} (hspace : Blank space) :
    moreElements first (space ++ ']' :: rest) = .ok (false, ']' :: rest) := by
  rw [moreElements, bind_of_ok (peekToken_blank_cons hspace (by decide))]
  rfl

theorem moreElements_first {space text rest : List Char} (hspace : Blank space)
    (h : Opens text) :
    moreElements true (space ++ (text ++ rest)) = .ok (true, text ++ rest) := by
  obtain ⟨c, hpeek, hsquare, -⟩ := peekToken_of_opens hspace h rest
  rw [moreElements, bind_of_ok hpeek]
  dsimp only
  rw [if_neg hsquare, if_pos rfl]
  rfl

theorem moreElements_comma {before behind text rest : List Char} (hbefore : Blank before)
    (hbehind : Blank behind) (h : Opens text) :
    moreElements false (before ++ ',' :: (behind ++ (text ++ rest))) =
      .ok (true, text ++ rest) := by
  obtain ⟨c, hpeek, hsquare, -⟩ := peekToken_of_opens hbehind h rest
  rw [moreElements, bind_of_ok (peekToken_blank_cons hbefore (by decide))]
  dsimp only
  rw [if_neg (by decide), if_neg Bool.false_ne_true, if_pos rfl, bind_of_ok (skip_cons _ _),
    bind_of_ok hpeek]
  simp only
  rfl

/-- In front of the closing bracket there is no item. -/
theorem moreElements_of_nil {first : Bool} {body : List Char} (h : SpellsItems first [] body)
    (rest : List Char) : moreElements first (body ++ rest) = .ok (false, ']' :: rest) := by
  cases h with
  | close hspace =>
      rw [List.append_assoc]
      exact moreElements_close first hspace

/-- The next item is reached, be it the first one or one behind a comma. -/
theorem moreElements_of_cons {first : Bool} {item : Document} {items : List Document}
    {body : List Char} (h : SpellsItems first (item :: items) body) (rest : List Char) :
    ∃ text more, Spells item text ∧ SpellsItems false items more ∧
      moreElements first (body ++ rest) = .ok (true, text ++ (more ++ rest)) ∧
      (more ++ rest).length < (body ++ rest).length := by
  cases h with
  | @first space text more _ _ hspace hitem hitems =>
      have hpos := hitem.length_pos
      refine ⟨text, more, hitem, hitems, ?_, ?_⟩
      · rw [List.append_assoc, List.append_assoc]
        exact moreElements_first hspace hitem.opens
      · simp only [List.length_append]
        omega
  | @further before behind text more _ _ hbefore hbehind hitem hitems =>
      have hsplit : before ++ ',' :: (behind ++ (text ++ more)) ++ rest =
          before ++ ',' :: (behind ++ (text ++ (more ++ rest))) := by simp
      refine ⟨text, more, hitem, hitems, ?_, ?_⟩
      · rw [hsplit]
        exact moreElements_comma hbefore hbehind hitem.opens
      · simp only [List.length_append, List.length_cons]
        omega

/-- One round of reading an array: one more element, or the end. -/
def elementRound (element : Reader α) (read : List α) :
    Reader (List α ⊕ Except Cause (List α)) := do
  if ← moreElements read.isEmpty then return .inl ((← element) :: read)
  else return .inr (.ok read.reverse)

theorem elements_eq (element : Reader α) :
    elements element = enclosed (loop (elementRound element) []) closeArray := rfl

theorem elementRound_close {element : Reader α} {read : List α} {s rest : List Char}
    (h : moreElements read.isEmpty s = .ok (false, rest)) :
    elementRound element read s = .ok (.inr (.ok read.reverse), rest) := by
  rw [elementRound, bind_of_ok h]
  rfl

theorem elementRound_more {element : Reader α} {read : List α} {s mid rest : List Char} {a : α}
    (h : moreElements read.isEmpty s = .ok (true, mid)) (ha : element mid = .ok (a, rest)) :
    elementRound element read s = .ok (.inl (a :: read), rest) := by
  rw [elementRound, bind_of_ok h, if_pos rfl, bind_of_ok ha]
  rfl

theorem arrayOf_blank_cons {element : Reader α} {space s rest : List Char} {as : List α}
    (hspace : Blank space) (h : elements element ('[' :: s) = .ok (as, rest)) :
    arrayOf element (space ++ '[' :: s) = .ok (as, rest) := by
  rw [arrayOf, bind_of_ok (startOfValue_blank_cons hspace (by decide))]
  exact h

section Arrays

variable {element : Reader α} {meaning : Document → Option α}

theorem fails_elementRound {read : List α} {s mid : List Char}
    (h : moreElements read.isEmpty s = .ok (true, mid)) (hfails : Fails element mid) :
    Fails (elementRound element read) s := by
  refine fails_bind_of_ok h ?_
  rw [if_pos rfl]
  exact hfails.bind _

/-- The items in front of a rest, or a failure at the first one that is refused. -/
def ItemsRun (element : Reader α) (read : List α) (s rest : List Char) : Option (List α) → Prop
  | some as => Runs (elementRound element) read s (.ok (read.reverse ++ as)) (']' :: rest)
  | none => Stops (elementRound element) read s

theorem itemsRun (helement : Interprets element meaning) {items : List Document} {read : List α}
    {body : List Char} (h : SpellsItems read.isEmpty items body) (rest : List Char) :
    ItemsRun element read (body ++ rest) rest (items.mapM meaning) := by
  induction items generalizing read body with
  | nil =>
      have hlast : elementRound element read (body ++ rest) = _ :=
        elementRound_close (moreElements_of_nil h rest)
      show Runs _ _ _ (Except.ok (read.reverse ++ [])) _
      rw [List.append_nil]
      exact .last hlast
  | cons item items ih =>
      obtain ⟨text, more, hitem, hitems, hmore, hshorter⟩ := moreElements_of_cons h rest
      have hdelimited := hitems.delimited rest
      rw [mapM_cons_eq_bind]
      cases ha : meaning item with
      | none =>
          exact Stops.here
            (fails_elementRound hmore ((helement.refuses hitem ha).fails_nil hdelimited))
      | some a =>
          have hround := elementRound_more hmore ((helement.reads hitem ha).eq_ok_nil hdelimited)
          have hrest := ih (show SpellsItems (a :: read).isEmpty items more from hitems)
          rw [Option.bind_some]
          cases has : items.mapM meaning with
          | none =>
              rw [has] at hrest
              exact Stops.next hround hshorter hrest
          | some as =>
              have hresult : read.reverse ++ a :: as = (a :: read).reverse ++ as := by simp
              rw [has] at hrest
              show Runs _ _ _ (Except.ok (read.reverse ++ a :: as)) _
              rw [hresult]
              exact .next hround hshorter hrest

theorem interprets_arrayOf (helement : Interprets element meaning) :
    Interprets (arrayOf element) (Document.arrayOf? meaning) := by
  intro doc text h
  cases doc with
  | array items =>
      cases h with
      | @array _ body hitems =>
          have hfirst : SpellsItems ([] : List α).isEmpty items body := hitems
          have hrun (rest : List Char) := itemsRun helement hfirst rest
          rw [Document.arrayOf?]
          cases has : items.mapM meaning with
          | none =>
              rw [has] at hrun
              intro space rest hspace _
              refine fails_bind_of_ok (startOfValue_blank_cons hspace (by decide)) ?_
              rw [if_pos rfl, elements_eq]
              exact fails_enclosed (Stops.loop (hrun rest)) _ _
          | some as =>
              rw [has] at hrun
              refine ⟨opens_cons (by decide) (by decide) (by decide),
                fun space rest hspace _ => arrayOf_blank_cons hspace ?_⟩
              rw [elements_eq]
              exact enclosed_of_ok (Runs.loop (hrun rest)) (closeArray_cons rest)
  | _ => exact (refuses_arrayOf element h nofun).decides rfl

end Arrays

end Reader

end MeasureInference.Json
