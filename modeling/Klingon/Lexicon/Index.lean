import Klingon.Lexicon

/-!
# Index of a lexicon

The index gathers the attested entries of a lexicon under their forms, so that homographs are found
together. The entries are gone through once, and each joins the group of its form.
-/

namespace Klingon

/-- The spelling and the class, which homographs share. -/
def Entry.form (entry : Entry) : Text × WordClass :=
  (entry.name, entry.wordClass)

namespace Lexicon

/-- Entries in groups, each under its form. No two groups have one form. -/
structure Index where
  groups : List ((Text × WordClass) × List Entry) := []
  distinct : (groups.map (·.1)).Nodup := by exact List.nodup_nil
  deriving DecidableEq, Repr

namespace Index

/-- Puts an entry behind those of its form, or into a group of its own at the end. -/
def join (entry : Entry) :
    List ((Text × WordClass) × List Entry) → List ((Text × WordClass) × List Entry)
  | [] => [(entry.form, [entry])]
  | (form, entries) :: rest =>
    if form = entry.form then (form, entries ++ [entry]) :: rest
    else (form, entries) :: join entry rest

/-- An entry whose form is there adds none. -/
theorem forms_join_of_mem {entry : Entry} {groups : List ((Text × WordClass) × List Entry)}
    (h : entry.form ∈ groups.map (·.1)) : (join entry groups).map (·.1) = groups.map (·.1) := by
  induction groups with
  | nil => cases h
  | cons group rest ih =>
    rw [join]
    split
    · rfl
    · next hne => rw [List.map_cons, ih (List.mem_of_ne_of_mem (Ne.symm hne) h), List.map_cons]

theorem forms_join_of_not_mem {entry : Entry} {groups : List ((Text × WordClass) × List Entry)}
    (h : entry.form ∉ groups.map (·.1)) :
    (join entry groups).map (·.1) = groups.map (·.1) ++ [entry.form] := by
  induction groups with
  | nil => rfl
  | cons group rest ih =>
    rw [List.map_cons, List.mem_cons, not_or] at h
    obtain ⟨hne, hrest⟩ := h
    rw [join, if_neg (Ne.symm hne), List.map_cons, ih hrest]
    rfl

theorem distinct_join {entry : Entry} {groups : List ((Text × WordClass) × List Entry)}
    (h : (groups.map (·.1)).Nodup) : ((join entry groups).map (·.1)).Nodup := by
  by_cases hmem : entry.form ∈ groups.map (·.1)
  · rwa [forms_join_of_mem hmem]
  · rw [forms_join_of_not_mem hmem]
    refine List.nodup_append.mpr ⟨h, by simp, fun form hform other hother heq => ?_⟩
    rw [List.mem_singleton.mp hother] at heq
    exact hmem (heq ▸ hform)

def add (index : Index) (entry : Entry) : Index where
  groups := join entry index.groups
  distinct := distinct_join index.distinct

/-- The index of the attested entries. -/
def ofLexicon (lexicon : Lexicon) : Index :=
  lexicon.attested.foldl add {}

/-- The entries with the given spelling and class. -/
def lookup (index : Index) (surface : Text) (wordClass : WordClass) : List Entry :=
  (index.groups.lookup (surface, wordClass)).getD []

def contains (index : Index) (surface : Text) (wordClass : WordClass) : Bool :=
  !(index.lookup surface wordClass).isEmpty

/-- The number of forms. -/
def size (index : Index) : Nat :=
  index.groups.length

def isEmpty (index : Index) : Bool :=
  index.groups.isEmpty

end Index

end Lexicon

end Klingon
