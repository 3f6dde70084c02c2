import Mathlib.Data.Finset.Card
import Mathlib.Data.List.Basic
import Klingon.Lexicon.Index

/-!
# Lexicons of given entries

Entries are given one after the other, and one with a known identifier replaces the one before it. So
the lexicon has the identifiers in the order in which they appear first, each with the entry that was
given last. Its index knows nothing of entries that were replaced: under a form it has the attested
entries of this form, in the order of the lexicon.
-/

namespace Klingon.Lexicon

variable {lexicon : Lexicon} {entry other : Entry} {entries given : List Entry} {id surface : Text}
  {wordClass : WordClass}

/-! ## Entries of a lexicon -/

/-- An identifier belongs to one entry. -/
theorem eq_of_id_eq (hentry : entry ∈ lexicon.entries) (hother : other ∈ lexicon.entries)
    (h : entry.id = other.id) : entry = other :=
  List.inj_on_of_nodup_map lexicon.distinct hentry hother h

theorem mem_of_get? (h : lexicon.get? id = some entry) :
    entry ∈ lexicon.entries ∧ entry.id = id := by
  have hid := List.find?_some h
  exact ⟨List.mem_of_find?_eq_some h, of_decide_eq_true hid⟩

/-- An entry is found under its identifier. -/
theorem get?_id (h : entry ∈ lexicon.entries) : lexicon.get? entry.id = some entry := by
  have hsome : (lexicon.get? entry.id).isSome = true := by
    rw [get?, List.find?_isSome]
    exact ⟨entry, h, decide_eq_true rfl⟩
  obtain ⟨found, hfound⟩ := Option.isSome_iff_exists.mp hsome
  obtain ⟨hmem, hid⟩ := mem_of_get? hfound
  rw [hfound, eq_of_id_eq hmem h hid]

theorem mem_homographs : entry ∈ lexicon.homographs surface wordClass ↔
    entry ∈ lexicon.entries ∧ entry.name = surface ∧ entry.isHypothetical = false ∧
      entry.wordClass = wordClass := by
  rw [homographs, List.mem_filter, Bool.and_eq_true, Bool.and_eq_true, Bool.not_eq_true',
    decide_eq_true_iff, decide_eq_true_iff]

section FirstAppearances

variable {α : Type} [BEq α] [LawfulBEq α] {items : List α} {a : α}

theorem eraseDups_concat_of_mem (h : a ∈ items) : (items ++ [a]).eraseDups = items.eraseDups := by
  simp [List.eraseDups_append, List.removeAll, h]

theorem eraseDups_concat_of_not_mem (h : a ∉ items) :
    (items ++ [a]).eraseDups = items.eraseDups ++ [a] := by
  simp [List.eraseDups_append, List.removeAll, h, List.eraseDups_cons]

end FirstAppearances

/-! ## Entries in their places -/

theorem ids_place_of_mem (h : entry.id ∈ entries.map (·.id)) :
    (place entry entries).map (·.id) = entries.map (·.id) := by
  induction entries with
  | nil => cases h
  | cons first rest ih =>
    rw [place]
    split
    · next heq => rw [List.map_cons, List.map_cons, heq]
    · next hne => rw [List.map_cons, ih (List.mem_of_ne_of_mem (Ne.symm hne) h), List.map_cons]

theorem place_of_not_mem (h : entry.id ∉ entries.map (·.id)) :
    place entry entries = entries ++ [entry] := by
  induction entries with
  | nil => rfl
  | cons first rest ih =>
    have hfirst : first.id ≠ entry.id := fun heq => h (heq ▸ List.mem_cons_self)
    rw [place, if_neg hfirst, ih fun hin => h (List.mem_cons_of_mem _ hin)]
    rfl

/-- Under its identifier there is the entry that was put into place last. -/
theorem find?_place_self (entry : Entry) (entries : List Entry) :
    (place entry entries).find? (·.id = entry.id) = some entry := by
  induction entries with
  | nil => exact List.find?_cons_of_pos (decide_eq_true rfl)
  | cons first rest ih =>
    rw [place]
    split
    · exact List.find?_cons_of_pos (decide_eq_true rfl)
    · next hne => rwa [List.find?_cons_of_neg (by simpa using hne)]

theorem find?_place_of_ne (h : entry.id ≠ id) (entries : List Entry) :
    (place entry entries).find? (·.id = id) = entries.find? (·.id = id) := by
  induction entries with
  | nil => exact List.find?_cons_of_neg (by simpa using h)
  | cons first rest ih =>
    rw [place]
    split
    · next heq =>
      rw [List.find?_cons_of_neg (by simpa using h), List.find?_cons_of_neg (by simpa [heq] using h)]
    · rw [List.find?_cons, List.find?_cons, ih]

theorem entries_concat (given : List Entry) (entry : Entry) :
    (ofEntries (given ++ [entry])).entries = place entry (ofEntries given).entries :=
  List.foldl_concat ..

/-- The identifiers come in the order of their first appearance, each once. -/
theorem ids_ofEntries (given : List Entry) :
    (ofEntries given).entries.map (·.id) = (given.map (·.id)).eraseDups := by
  induction given using List.reverseRecOn with
  | nil => rfl
  | append_singleton given entry ih =>
    have hmem : entry.id ∈ (ofEntries given).entries.map (·.id) ↔ entry.id ∈ given.map (·.id) := by
      rw [ih, List.mem_eraseDups]
    rw [entries_concat, List.map_append, List.map_singleton]
    by_cases h : entry.id ∈ given.map (·.id)
    · rw [ids_place_of_mem (hmem.mpr h), ih, eraseDups_concat_of_mem h]
    · rw [place_of_not_mem (mt hmem.mp h), eraseDups_concat_of_not_mem h, List.map_append, ih]
      rfl

/-- Under an identifier there is the entry that was given for it last. -/
theorem get?_ofEntries (given : List Entry) (id : Text) :
    (ofEntries given).get? id = given.findRev? (·.id = id) := by
  rw [get?, List.findRev?_eq_find?_reverse]
  induction given using List.reverseRecOn with
  | nil => rfl
  | append_singleton given entry ih =>
    rw [entries_concat, List.reverse_concat]
    by_cases h : entry.id = id
    · rw [← h, find?_place_self, List.find?_cons, decide_eq_true rfl]
    · rw [find?_place_of_ne h, List.find?_cons_of_neg (by simpa using h), ih]

/-- Entries with different identifiers are all kept, in their order. -/
theorem entries_ofEntries (h : (entries.map (·.id)).Nodup) : (ofEntries entries).entries = entries := by
  induction entries using List.reverseRecOn with
  | nil => rfl
  | append_singleton front entry ih =>
    rw [List.map_append, List.map_singleton] at h
    obtain ⟨hfront, _, hnew⟩ := List.nodup_append.mp h
    rw [entries_concat, ih hfront, place_of_not_mem]
    exact fun hin => hnew _ hin _ List.mem_cons_self rfl

/-! ## The index -/

namespace Index

variable {form : Text × WordClass}

theorem lookup_join_self (entry : Entry) (groups : List ((Text × WordClass) × List Entry)) :
    (join entry groups).lookup entry.form =
      some ((groups.lookup entry.form).getD [] ++ [entry]) := by
  induction groups with
  | nil => exact List.lookup_cons_self
  | cons group rest ih =>
    obtain ⟨first, entries⟩ := group
    rw [join]
    split
    · next heq => rw [heq, List.lookup_cons_self, List.lookup_cons_self, Option.getD_some]
    · next hne =>
      have hother : (entry.form == first) = false := beq_false_of_ne (Ne.symm hne)
      rw [List.lookup_cons, List.lookup_cons, hother]
      exact ih

theorem lookup_join_of_ne (h : form ≠ entry.form)
    (groups : List ((Text × WordClass) × List Entry)) :
    (join entry groups).lookup form = groups.lookup form := by
  have hother : (form == entry.form) = false := beq_false_of_ne h
  induction groups with
  | nil => rw [join, List.lookup_cons, hother]
  | cons group rest ih =>
    obtain ⟨first, entries⟩ := group
    rw [join]
    split
    · next heq => rw [List.lookup_cons, List.lookup_cons, heq, hother]
    · rw [List.lookup_cons, List.lookup_cons, ih]

/-- The index has the entries it was made of under their forms, in their order. -/
theorem lookup_foldl_add (entries : List Entry) (surface : Text) (wordClass : WordClass) :
    (entries.foldl add {}).lookup surface wordClass =
      entries.filter fun entry => entry.form = (surface, wordClass) := by
  induction entries using List.reverseRecOn with
  | nil => rfl
  | append_singleton entries entry ih =>
    rw [List.foldl_concat, List.filter_append, ← ih, lookup, lookup, add]
    by_cases h : entry.form = (surface, wordClass)
    · rw [← h, lookup_join_self, Option.getD_some, List.filter_singleton, decide_eq_true rfl]
      rfl
    · rw [lookup_join_of_ne (Ne.symm h), List.filter_singleton, decide_eq_false h]
      exact (List.append_nil _).symm

theorem forms_foldl_add (entries : List Entry) :
    (entries.foldl add {}).groups.map (·.1) = (entries.map Entry.form).eraseDups := by
  induction entries using List.reverseRecOn with
  | nil => rfl
  | append_singleton entries entry ih =>
    have hmem : entry.form ∈ (entries.foldl add {}).groups.map (·.1) ↔
        entry.form ∈ entries.map Entry.form := by
      rw [ih, List.mem_eraseDups]
    rw [List.foldl_concat, List.map_append, List.map_singleton, add]
    by_cases h : entry.form ∈ entries.map Entry.form
    · rw [forms_join_of_mem (hmem.mpr h), ih, eraseDups_concat_of_mem h]
    · rw [forms_join_of_not_mem (mt hmem.mp h), ih, eraseDups_concat_of_not_mem h]

/-- The index finds the homographs of the lexicon. -/
theorem lookup_ofLexicon (lexicon : Lexicon) (surface : Text) (wordClass : WordClass) :
    (ofLexicon lexicon).lookup surface wordClass = lexicon.homographs surface wordClass := by
  rw [ofLexicon, lookup_foldl_add, attested, List.filter_filter, homographs]
  refine List.filter_congr fun entry _ => ?_
  rw [Bool.eq_iff_iff]
  simp only [Entry.form, Prod.mk.injEq, Bool.and_eq_true, decide_eq_true_eq]
  tauto

/-- The groups stand under the forms of the lexicon. -/
theorem forms_ofLexicon (lexicon : Lexicon) :
    (ofLexicon lexicon).groups.map (·.1) = lexicon.forms :=
  forms_foldl_add lexicon.attested

/-- There are as many groups as there are forms of attested entries. -/
theorem size_ofLexicon (lexicon : Lexicon) :
    (ofLexicon lexicon).size = (lexicon.attested.map Entry.form).toFinset.card := by
  have hforms : lexicon.forms.toFinset = (lexicon.attested.map Entry.form).toFinset := by
    ext form
    rw [List.mem_toFinset, List.mem_toFinset, forms, List.mem_eraseDups]
    rfl
  have hnodup : lexicon.forms.Nodup := forms_ofLexicon lexicon ▸ (ofLexicon lexicon).distinct
  calc (ofLexicon lexicon).size
      = lexicon.forms.length := by rw [← forms_ofLexicon, List.length_map, size]
    _ = lexicon.forms.toFinset.card := (List.toFinset_card_of_nodup hnodup).symm
    _ = (lexicon.attested.map Entry.form).toFinset.card := by rw [hforms]

theorem contains_ofLexicon :
    (ofLexicon lexicon).contains surface wordClass = true ↔
      ∃ entry ∈ lexicon.entries, entry.name = surface ∧ entry.isHypothetical = false ∧
        entry.wordClass = wordClass := by
  rw [contains, lookup_ofLexicon, Bool.not_eq_true', List.isEmpty_eq_false_iff_exists_mem]
  exact exists_congr fun entry => mem_homographs

end Index

/-- The lexicon of given entries has each identifier once, in the order of the first appearances, with
the entry that was given for it last, and finds this entry under it. Its index finds under a spelling
and a class the attested entries with them in the order of the lexicon, contains those for which there
is such an entry, and has as many forms as attested entries have spellings with classes. -/
theorem ofEntries_indexed (given : List Entry) :
    ((ofEntries given).entries.map (·.id) = (given.map (·.id)).eraseDups ∧
      (∀ entry ∈ (ofEntries given).entries, given.findRev? (·.id = entry.id) = some entry) ∧
      ∀ id, (ofEntries given).get? id = given.findRev? (·.id = id)) ∧
    (∀ surface wordClass,
      (Index.ofLexicon (ofEntries given)).lookup surface wordClass =
        (ofEntries given).entries.filter (fun entry =>
          entry.name = surface && (!entry.isHypothetical && entry.wordClass = wordClass)) ∧
      ((Index.ofLexicon (ofEntries given)).contains surface wordClass = true ↔
        ∃ entry ∈ (ofEntries given).entries, entry.name = surface ∧ entry.isHypothetical = false ∧
          entry.wordClass = wordClass)) ∧
    (Index.ofLexicon (ofEntries given)).size =
      (((ofEntries given).entries.filter (!·.isHypothetical)).map
        fun entry => (entry.name, entry.wordClass)).toFinset.card := by
  refine ⟨⟨ids_ofEntries given, ?_, get?_ofEntries given⟩, ?_, Index.size_ofLexicon _⟩
  · intro entry hmem
    rw [← get?_ofEntries, get?_id hmem]
  · intro surface wordClass
    exact ⟨Index.lookup_ofLexicon _ surface wordClass, Index.contains_ofLexicon⟩

end Klingon.Lexicon
