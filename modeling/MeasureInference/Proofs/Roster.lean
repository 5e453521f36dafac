import MeasureInference.Roster.Basic
import Mathlib.Data.List.Find
import Mathlib.Data.List.Nodup
import Mathlib.Data.List.Perm.Subperm

/-!
Rosters by their keys.

Two views of a roster determine everything the library asks of it: the list of its keys, which
holds the order of arrival, and the lookup `find?`, which holds the contents. This file says what
`put` and `add` do to each. Lookup needs no assumption. The invariant `Distinct`, that no key
occurs twice, is what makes the two views describe the same entries, and every operation keeps it.
-/

namespace MeasureInference.Roster

/-! ### Order of first arrival

Adding never replaces. Keys that are added one after the other therefore come to stand in the order
of their first arrival, which is what `List.eraseDups` makes of the list of all arrivals. -/

section FirstArrival

variable {κ : Type} [BEq κ] [LawfulBEq κ]

theorem nodup_eraseDups (keys : List κ) : keys.eraseDups.Nodup := by
  match keys with
  | [] => exact List.nodup_nil
  | k :: keys =>
      have hshorter : (keys.filter fun b => !b == k).length < (k :: keys).length :=
        Nat.lt_succ_of_le (List.length_filter_le ..)
      rw [List.eraseDups_cons, List.nodup_cons]
      refine ⟨fun hmem => ?_, nodup_eraseDups _⟩
      simp at hmem
termination_by keys.length
decreasing_by exact hshorter

theorem eraseDups_of_nodup {keys : List κ} (h : keys.Nodup) : keys.eraseDups = keys := by
  induction keys with
  | nil => rfl
  | cons k keys ih =>
      obtain ⟨hk, hkeys⟩ := List.nodup_cons.mp h
      have hfilter : (keys.filter fun b => !b == k) = keys := by
        apply List.filter_eq_self.mpr
        intro b hb
        have hbk : b ≠ k := fun heq => hk (heq ▸ hb)
        simpa using hbk
      rw [List.eraseDups_cons, hfilter, ih hkeys]

/-- Arrivals that have been sorted out already need not be sorted out again. -/
theorem eraseDups_eraseDups_append (keys later : List κ) :
    (keys.eraseDups ++ later).eraseDups = (keys ++ later).eraseDups := by
  have hsame : later.removeAll keys.eraseDups = later.removeAll keys := by
    apply List.filter_congr
    intro k _
    simp
  rw [List.eraseDups_append, List.eraseDups_append, hsame,
    eraseDups_of_nodup (nodup_eraseDups keys)]

/-- Later arrivals leave those before them where they are. -/
theorem eraseDups_isPrefix (keys later : List κ) : keys.eraseDups <+: (keys ++ later).eraseDups := by
  rw [List.eraseDups_append]
  exact List.prefix_append ..

/-- Arrivals that have all been seen before change nothing. -/
theorem eraseDups_append_of_subset {keys later : List κ} (h : later ⊆ keys) :
    (keys ++ later).eraseDups = keys.eraseDups := by
  have hnone : later.removeAll keys = [] := by
    rw [List.removeAll, List.filter_eq_nil_iff]
    intro k hk
    simpa using h hk
  rw [List.eraseDups_append, hnone, List.eraseDups_nil, List.append_nil]

end FirstArrival

/-- A list is its own image under a function that keeps each of its entries. -/
theorem eq_map_of_forall_eq {β : Type} {entries : List β} {f : β → β}
    (h : ∀ b ∈ entries, b = f b) : entries = entries.map f := by
  induction entries with
  | nil => rfl
  | cons b entries ih =>
      obtain ⟨hb, hentries⟩ := List.forall_mem_cons.mp h
      rw [List.map_cons, ← hb, ← ih hentries]

/-! ### Keys and lookup -/

variable {α κ : Type} [Keyed α κ]

/-- No two entries carry the same key. -/
def Distinct (r : Roster α) : Prop := r.keys.Nodup

theorem distinct_empty : (empty : Roster α).Distinct := List.nodup_nil

theorem Distinct.nodup {r : Roster α} (hr : r.Distinct) : r.entries.Nodup := List.Nodup.of_map _ hr

variable [DecidableEq κ]

theorem key_of_find? {r : Roster α} {k : κ} {a : α} (h : r.find? k = some a) :
    Keyed.key a = k := by
  simpa using List.find?_some h

theorem mem_of_find? {r : Roster α} {k : κ} {a : α} (h : r.find? k = some a) : a ∈ r.entries :=
  List.mem_of_find?_eq_some h

theorem find?_eq_none {r : Roster α} {k : κ} : r.find? k = none ↔ k ∉ r.keys := by
  simp [find?, keys, List.find?_eq_none]

theorem contains_iff {r : Roster α} {k : κ} : r.contains k = true ↔ k ∈ r.keys := by
  rw [contains, Option.isSome_iff_ne_none, ne_eq, find?_eq_none, not_not]

/-- In a roster with distinct keys every entry is the one found under its key. -/
theorem find?_of_mem {r : Roster α} (hr : r.Distinct) {a : α} (ha : a ∈ r.entries) :
    r.find? (Keyed.key a) = some a := by
  cases hfind : r.find? (Keyed.key a) with
  | none => exact absurd (List.mem_map_of_mem ha) (find?_eq_none.mp hfind)
  | some b =>
      have hb : b = a :=
        List.inj_on_of_nodup_map hr (mem_of_find? hfind) ha (key_of_find? hfind)
      rw [hb]

theorem find?_eq_some_iff {r : Roster α} (hr : r.Distinct) {k : κ} {a : α} :
    r.find? k = some a ↔ a ∈ r.entries ∧ Keyed.key a = k := by
  constructor
  · intro h
    exact ⟨mem_of_find? h, key_of_find? h⟩
  · rintro ⟨ha, rfl⟩
    exact find?_of_mem hr ha

/-! ### Putting an entry

An entry with a new key goes to the end; one with a known key takes the place of the old one. So
the keys grow at the end or not at all, and the lookup changes at one point. -/

theorem put_of_mem {r : Roster α} {a : α} (h : Keyed.key a ∈ r.keys) :
    r.put a = ⟨r.entries.map fun b => if Keyed.key b = Keyed.key a then a else b⟩ :=
  if_pos (contains_iff.mpr h)

theorem put_of_not_mem {r : Roster α} {a : α} (h : Keyed.key a ∉ r.keys) :
    r.put a = ⟨r.entries ++ [a]⟩ :=
  if_neg (mt contains_iff.mp h)

theorem keys_put_of_mem {r : Roster α} {a : α} (h : Keyed.key a ∈ r.keys) :
    (r.put a).keys = r.keys := by
  rw [put_of_mem h, keys, keys, List.map_map]
  apply List.map_congr_left
  intro b _
  rw [Function.comp_apply]
  split
  · next hkey => exact hkey.symm
  · rfl

theorem keys_put_of_not_mem {r : Roster α} {a : α} (h : Keyed.key a ∉ r.keys) :
    (r.put a).keys = r.keys ++ [Keyed.key a] := by
  rw [put_of_not_mem h, keys, keys, List.map_append]
  rfl

/-- Replacing entries changes the lookup under their key only. -/
theorem find?_replace (entries : List α) (a : α) (k : κ) :
    (⟨entries.map fun b => if Keyed.key b = Keyed.key a then a else b⟩ : Roster α).find? k =
      if k = Keyed.key a then ((⟨entries⟩ : Roster α).find? k).map fun _ => a
      else (⟨entries⟩ : Roster α).find? k := by
  induction entries with
  | nil => simp [find?]
  | cons b entries ih =>
      simp only [find?, List.map_cons, List.find?_cons] at ih ⊢
      by_cases hb : Keyed.key b = Keyed.key a
      -- An entry that is replaced was found under the key of `a` and is found there again.
      · by_cases hk : k = Keyed.key a
        · simp [hb, hk]
        · have hak : Keyed.key a ≠ k := fun h => hk h.symm
          have hbk : Keyed.key b ≠ k := fun h => hak (hb.symm.trans h)
          simp [hb, hak, ih, hk]
      · by_cases hbk : Keyed.key b = k
        · have hk : k ≠ Keyed.key a := fun h => hb (hbk.trans h)
          simp [hbk, hk]
        · simp [hb, hbk, ih]

theorem find?_put (r : Roster α) (a : α) (k : κ) :
    (r.put a).find? k = if k = Keyed.key a then some a else r.find? k := by
  by_cases hmem : Keyed.key a ∈ r.keys
  · rw [put_of_mem hmem, find?_replace]
    split
    · next hk =>
      obtain ⟨b, hb⟩ := Option.isSome_iff_exists.mp (contains_iff.mpr (hk ▸ hmem))
      rw [hb]
      rfl
    · rfl
  · rw [put_of_not_mem hmem, find?, List.find?_append]
    show (r.find? k).or _ = _
    by_cases hk : k = Keyed.key a
    · rw [find?_eq_none.mpr (hk ▸ hmem), if_pos hk, Option.none_or]
      simp [hk]
    · have hak : Keyed.key a ≠ k := fun h => hk h.symm
      simp [hk, hak]

theorem Distinct.put {r : Roster α} (hr : r.Distinct) (a : α) : (r.put a).Distinct := by
  by_cases hmem : Keyed.key a ∈ r.keys
  · rw [Distinct, keys_put_of_mem hmem]
    exact hr
  · rw [Distinct, keys_put_of_not_mem hmem]
    exact hr.append (List.nodup_singleton _) (List.disjoint_singleton.mpr hmem)

theorem forall_mem_put {p : α → Prop} {r : Roster α} (h : ∀ b ∈ r.entries, p b) {a : α}
    (ha : p a) : ∀ b ∈ (r.put a).entries, p b := by
  intro b hb
  by_cases hmem : Keyed.key a ∈ r.keys
  · rw [put_of_mem hmem] at hb
    obtain ⟨old, hold, rfl⟩ := List.mem_map.mp hb
    split
    · exact ha
    · exact h old hold
  · rw [put_of_not_mem hmem] at hb
    rcases List.mem_append.mp hb with hb | hb
    · exact h b hb
    · rwa [List.mem_singleton.mp hb]

/-! ### Adding an entry -/

theorem add_of_mem {r : Roster α} {a : α} (h : Keyed.key a ∈ r.keys) : r.add a = r :=
  if_pos (contains_iff.mpr h)

theorem add_of_not_mem {r : Roster α} {a : α} (h : Keyed.key a ∉ r.keys) : r.add a = r.put a :=
  if_neg (mt contains_iff.mp h)

theorem Distinct.add {r : Roster α} (hr : r.Distinct) (a : α) : (r.add a).Distinct := by
  by_cases hmem : Keyed.key a ∈ r.keys
  · rwa [add_of_mem hmem]
  · rw [add_of_not_mem hmem]
    exact hr.put a

theorem Distinct.keys_add {r : Roster α} (hr : r.Distinct) (a : α) :
    (r.add a).keys = (r.keys ++ [Keyed.key a]).eraseDups := by
  by_cases hmem : Keyed.key a ∈ r.keys
  · have hremoved : [Keyed.key a].removeAll r.keys = [] := by simpa [List.removeAll] using hmem
    rw [add_of_mem hmem, List.eraseDups_append, hremoved, eraseDups_of_nodup hr,
      List.eraseDups_nil, List.append_nil]
  · have hput := hr.put a
    rw [Distinct, keys_put_of_not_mem hmem] at hput
    rw [add_of_not_mem hmem, keys_put_of_not_mem hmem, eraseDups_of_nodup hput]

theorem find?_add (r : Roster α) (a : α) (k : κ) :
    (r.add a).find? k = if k = Keyed.key a then some ((r.find? k).getD a) else r.find? k := by
  by_cases hmem : Keyed.key a ∈ r.keys
  · rw [add_of_mem hmem]
    split
    · next hk =>
      obtain ⟨b, hb⟩ := Option.isSome_iff_exists.mp (contains_iff.mpr (hk ▸ hmem))
      rw [hb, Option.getD_some]
    · rfl
  · rw [add_of_not_mem hmem, find?_put]
    split
    · next hk => rw [find?_eq_none.mpr (hk ▸ hmem), Option.getD_none]
    · rfl

/-! ### Entries in another form

Entries may be turned into others that carry the same keys. As long as this holds of the entries of
a roster, they are looked up and put into place in the one form as in the other. -/

section Map

variable {β : Type} [Keyed β κ] {f : α → β}

/-- The entries in another form, where they stand. -/
def map (f : α → β) (r : Roster α) : Roster β := ⟨r.entries.map f⟩

/-- The other form of each entry carries the key of the entry. -/
def KeepsKeys (f : α → β) (r : Roster α) : Prop := ∀ a ∈ r.entries, Keyed.key (f a) = Keyed.key a

namespace KeepsKeys

variable {r : Roster α}

theorem find?_map (h : KeepsKeys f r) (k : κ) : (r.map f).find? k = (r.find? k).map f := by
  rw [find?, find?, map, List.find?_map]
  congr 1
  apply List.find?_congr
  intro a ha
  rw [Function.comp_apply, h a ha]

theorem contains_map (h : KeepsKeys f r) (k : κ) : (r.map f).contains k = r.contains k := by
  rw [contains, contains, h.find?_map, Option.isSome_map]

theorem mem_keys_map (h : KeepsKeys f r) (k : κ) : k ∈ (r.map f).keys ↔ k ∈ r.keys := by
  rw [← contains_iff, ← contains_iff, h.contains_map]

theorem map_put (h : KeepsKeys f r) {a : α} (ha : Keyed.key (f a) = Keyed.key a) :
    (r.put a).map f = (r.map f).put (f a) := by
  by_cases hmem : Keyed.key a ∈ r.keys
  · have hmem' : Keyed.key (f a) ∈ (r.map f).keys := by rwa [ha, h.mem_keys_map]
    rw [put_of_mem hmem, put_of_mem hmem', map, map, List.map_map, List.map_map]
    congr 1
    apply List.map_congr_left
    intro b hb
    rw [Function.comp_apply, Function.comp_apply, h b hb, ha, apply_ite f]
  · have hmem' : Keyed.key (f a) ∉ (r.map f).keys := by rwa [ha, h.mem_keys_map]
    rw [put_of_not_mem hmem, put_of_not_mem hmem', map, map, List.map_append]
    rfl

end KeepsKeys

end Map

/-! ### Likeness

Two rosters with distinct keys are alike if every lookup gives the same in both. What is done to
rosters alike by key leaves them alike, in whatever order their entries stand. -/

/-- Rosters with distinct keys in which every lookup gives the same. -/
structure Alike (r s : Roster α) : Prop where
  left : r.Distinct
  right : s.Distinct
  find? : ∀ k, r.find? k = s.find? k

theorem Alike.refl {r : Roster α} (hr : r.Distinct) : r.Alike r := ⟨hr, hr, fun _ => rfl⟩

theorem Alike.symm {r s : Roster α} (h : r.Alike s) : s.Alike r :=
  ⟨h.right, h.left, fun k => (h.find? k).symm⟩

theorem Alike.trans {r s t : Roster α} (h : r.Alike s) (h' : s.Alike t) : r.Alike t :=
  ⟨h.left, h'.right, fun k => (h.find? k).trans (h'.find? k)⟩

theorem Alike.put {r s : Roster α} (h : r.Alike s) (a : α) : (r.put a).Alike (s.put a) :=
  ⟨h.left.put a, h.right.put a, fun k => by rw [find?_put, find?_put, h.find?]⟩

theorem Alike.add {r s : Roster α} (h : r.Alike s) (a : α) : (r.add a).Alike (s.add a) :=
  ⟨h.left.add a, h.right.add a, fun k => by rw [find?_add, find?_add, h.find?]⟩

/-! ### Agreement

Agreement is checked by size and by one lookup for each entry, which is less than what it means. For
distinct keys it means that the entries are the same but for their order, or that every lookup gives
the same on both sides. -/

variable [DecidableEq α]

theorem agrees_iff {r s : Roster α} :
    r.agrees s = true ↔
      r.size = s.size ∧ ∀ a ∈ r.entries, s.find? (Keyed.key a) = some a := by
  simp [agrees]

theorem Distinct.agrees_iff_perm {r s : Roster α} (hr : r.Distinct) (hs : s.Distinct) :
    r.agrees s = true ↔ r.entries.Perm s.entries := by
  rw [agrees_iff]
  constructor
  · rintro ⟨hsize, hfind⟩
    have hsub : r.entries.Subperm s.entries :=
      List.subperm_of_subset hr.nodup fun a ha => mem_of_find? (hfind a ha)
    exact hsub.perm_of_length_le (Nat.le_of_eq hsize.symm)
  · intro h
    exact ⟨h.length_eq, fun a ha => find?_of_mem hs (h.mem_iff.mp ha)⟩

theorem Distinct.agrees_iff_find?_eq {r s : Roster α} (hr : r.Distinct) (hs : s.Distinct) :
    r.agrees s = true ↔ ∀ k, r.find? k = s.find? k := by
  rw [hr.agrees_iff_perm hs, List.perm_ext_iff_of_nodup hr.nodup hs.nodup]
  constructor
  · intro h k
    apply Option.ext
    intro a
    rw [find?_eq_some_iff hr, find?_eq_some_iff hs, h]
  · intro h a
    have hmem : r.find? (Keyed.key a) = some a ↔ s.find? (Keyed.key a) = some a := by rw [h]
    rw [find?_eq_some_iff hr, find?_eq_some_iff hs] at hmem
    simpa using hmem

theorem alike_iff_agrees {r s : Roster α} (hr : r.Distinct) (hs : s.Distinct) :
    r.Alike s ↔ r.agrees s = true := by
  rw [hr.agrees_iff_find?_eq hs]
  exact ⟨fun h => h.find?, fun h => ⟨hr, hs, h⟩⟩

theorem Alike.agrees {r s : Roster α} (h : r.Alike s) : r.agrees s = true :=
  (alike_iff_agrees h.left h.right).mp h

theorem Alike.perm {r s : Roster α} (h : r.Alike s) : r.entries.Perm s.entries :=
  (h.left.agrees_iff_perm h.right).mp h.agrees

/-- Agreement itself is a question that rosters alike answer alike. -/
theorem Alike.agrees_eq {r s r' s' : Roster α} (h : r.Alike s) (h' : r'.Alike s') :
    r.agrees r' = s.agrees s' := by
  rw [Bool.eq_iff_iff, ← alike_iff_agrees h.left h'.left, ← alike_iff_agrees h.right h'.right]
  exact ⟨fun hr => h.symm.trans (hr.trans h'), fun hs => h.trans (hs.trans h'.symm)⟩

/-- Rosters agree in the one form if they do in the other, if no two entries have one other form. -/
theorem KeepsKeys.agrees_map {β : Type} [Keyed β κ] [DecidableEq β] {f : α → β} {r s : Roster α}
    (hr : KeepsKeys f r) (hs : KeepsKeys f s)
    (hf : ∀ a ∈ r.entries, ∀ b ∈ s.entries, f b = f a → b = a) :
    (r.map f).agrees (s.map f) = r.agrees s := by
  have hsize (t : Roster α) : (t.map f).size = t.size := List.length_map _
  rw [Bool.eq_iff_iff, agrees_iff, agrees_iff, hsize, hsize]
  refine and_congr_right fun _ => List.forall_mem_map.trans ?_
  refine forall₂_congr fun a ha => ?_
  rw [hr a ha, hs.find?_map, Option.map_eq_some_iff]
  constructor
  · rintro ⟨b, hb, hfb⟩
    rw [hb, hf a ha b (mem_of_find? hb) hfb]
  · intro h
    exact ⟨a, h, rfl⟩

end MeasureInference.Roster
