import Klingon.Proofs.Analyzer.Agreement
import Klingon.Proofs.Conllu

/-!
# The persons that a row shows

The features of a verb and the features column of its row take the persons from one table, but a verb
without prefix does not always ask it: where the subject is definite, stative and intransitive verbs
have no object. The row shows the agreement without prefix for these verbs too, so it names the third
person as an object besides the missing one. All other verbs show the persons of their features.
-/

namespace Klingon

instance : Std.LawfulEqOrd Person where
  compare_self {person} := by cases person <;> rfl
  eq_of_compare {person person'} h := by
    cases person <;> cases person' <;> first | rfl | cases h

namespace Conllu

/-! ## Reading features -/

/-- The values of a feature in a column. -/
def valuesOf (name column : Text) : List Text :=
  (column.splitOn '|').filterMap (Text.dropStart? (name ++ "="))

/-- Whether a feature has one value in a column, and this lists the digits of the given persons and
nothing else. -/
def NamesPersons (column name : Text) (persons : List Person) : Prop :=
  ∃ value, valuesOf name column = [value] ∧
    ∀ item, item ∈ value.splitOn ',' ↔ ∃ person ∈ persons, item = Text.decimal person.digit

theorem valuesOf_intercalate {name : Text} {items : List Text} (h : items ≠ []) :
    valuesOf name (List.intercalate "|" items) = items.flatMap (valuesOf name) := by
  show ((List.intercalate ['|'] items).splitOn '|').filterMap _ = _
  rw [Text.splitOn_intercalate h, List.filterMap_flatMap]
  rfl

theorem valuesOf_item {name item : Text} (h : '|' ∉ item) :
    valuesOf name item = (Text.dropStart? (name ++ "=") item).toList := by
  rw [valuesOf, List.splitOn_eq_singleton h, List.filterMap_cons]
  cases Text.dropStart? (name ++ "=") item <;> rfl

/-! ## The agreement in a row -/

open Agreement (personList)

/-- A list of persons is read back at its commas. -/
theorem splitOn_personList {persons : List Person} (h : persons ≠ []) :
    (personList persons).splitOn ',' = persons.map fun person => Text.decimal person.digit := by
  refine List.splitOn_intercalate ',' (fun item hitem => ?_) (mt List.map_eq_nil_iff.mp h)
  obtain ⟨person, _, rfl⟩ := List.mem_map.mp hitem
  cases person <;> decide

theorem bar_not_mem_personList (persons : List Person) : '|' ∉ personList persons := by
  have hcomma : '|' ∉ ",".toList := by decide
  refine Text.not_mem_intercalate hcomma fun item hitem => ?_
  obtain ⟨person, _, rfl⟩ := List.mem_map.mp hitem
  cases person <;> decide

theorem namesPersons_of_valuesOf {column name : Text} {persons : List Person}
    (hvalue : valuesOf name column = [personList persons]) (hne : persons ≠ []) :
    NamesPersons column name persons := by
  refine ⟨personList persons, hvalue, fun item => ?_⟩
  rw [splitOn_personList hne, List.mem_map]
  simp only [eq_comm]

/-- Which persons are listed matters, not in which order. -/
theorem NamesPersons.congr {column name : Text} {persons others : List Person}
    (h : NamesPersons column name persons) (heq : ∀ person, person ∈ persons ↔ person ∈ others) :
    NamesPersons column name others := by
  obtain ⟨value, hvalue, hitems⟩ := h
  refine ⟨value, hvalue, fun item => ?_⟩
  rw [hitems]
  simp only [heq]

theorem valuesOf_persons {name label : Text} (h : '|' ∉ label) (persons : List Person) :
    valuesOf name (label ++ personList persons) =
      (Text.dropStart? (name ++ "=") (label ++ personList persons)).toList :=
  valuesOf_item (List.not_mem_append h (bar_not_mem_personList persons))

/-- The features that name persons. -/
def personFeatures : List Text := ["Person", "ObjPerson"]

theorem valuesOf_numberItem {name label : Text} (hname : name ∈ personFeatures)
    (hlabel : label ∈ ["Number=".toList, "ObjNumber="]) (number : Option GrammaticalNumber) :
    (Agreement.numberItem label number).flatMap (valuesOf name) = [] := by
  have htable : ∀ name ∈ personFeatures, ∀ label ∈ ["Number=".toList, "ObjNumber="],
      (Agreement.numberItem label number).flatMap (valuesOf name) = [] := by
    rcases number with _ | _ | _ <;> decide
  exact htable name hname label hlabel

/-- Of the features of an agreement only two name persons. -/
theorem valuesOf_features {name : Text} (hname : name ∈ personFeatures) (agreement : Agreement) :
    valuesOf name agreement.features =
      valuesOf name ("Person=" ++ personList agreement.subject) ++
        valuesOf name ("ObjPerson=" ++ personList agreement.object) := by
  have hmood : ∀ name ∈ personFeatures,
      (if agreement.imperative then ["Mood=Imp".toList] else []).flatMap (valuesOf name) = [] := by
    cases agreement.imperative <;> decide
  have hsubject := valuesOf_numberItem hname List.mem_cons_self agreement.subjectNumber
  have hobject := valuesOf_numberItem hname (List.mem_cons_of_mem _ List.mem_cons_self)
    agreement.objectNumber
  rw [Agreement.features, valuesOf_intercalate, List.flatMap_append, List.flatMap_append,
    List.flatMap_append, List.flatMap_append, hmood name hname, hsubject, hobject,
    List.flatMap_singleton, List.flatMap_singleton, List.nil_append, List.append_nil,
    List.append_nil]
  apply List.append_ne_nil_of_left_ne_nil
  exact List.append_ne_nil_of_right_ne_nil _ (List.cons_ne_nil _ _)

/-- Either of them has one value. -/
theorem valuesOf_agreement (agreement : Agreement) :
    valuesOf "Person" agreement.features = [personList agreement.subject] ∧
      valuesOf "ObjPerson" agreement.features = [personList agreement.object] := by
  have hmem : "Person".toList ∈ personFeatures ∧ "ObjPerson".toList ∈ personFeatures := by decide
  have hbar : '|' ∉ "Person=".toList ∧ '|' ∉ "ObjPerson=".toList := by decide
  rw [valuesOf_features hmem.1, valuesOf_features hmem.2, valuesOf_persons hbar.1,
    valuesOf_persons hbar.1, valuesOf_persons hbar.2, valuesOf_persons hbar.2]
  exact ⟨rfl, rfl⟩

namespace Row

variable {analysis : Analysis} {agreement : Agreement}

/-- The agreement that the row of an analysis shows. -/
def agreement? (analysis : Analysis) : Option Agreement :=
  (agreeingPrefix? analysis).bind fun dashed => Agreement.find? dashed analysis.voice

theorem features_eq (h : agreement? analysis = some agreement) :
    features analysis =
      agreement.features :: analysis.suffixes.filterMap fun s => suffixFeature? s.1 s.2 := by
  obtain ⟨dashed, hdashed, hfound⟩ := Option.bind_eq_some_iff.mp h
  rw [features, hdashed, Option.bind_some, hfound]
  rfl

/-- Suffixes express other features than the persons of subject and object. -/
theorem valuesOf_suffixFeature {name : Text} (hname : name ∈ personFeatures) {slot : SuffixSlot}
    {text feature : Text} (h : suffixFeature? slot text = some feature) :
    valuesOf name feature = [] := by
  have htable : ∀ name ∈ personFeatures, ∀ entry ∈ suffixFeatures, valuesOf name entry.2.2 = [] := by
    decide +kernel
  obtain ⟨entry, hentry, rfl⟩ := Option.map_eq_some_iff.mp h
  exact htable name hname entry (List.mem_of_find?_eq_some hentry)

/-- The features column names the persons of the agreement and no others. -/
theorem valuesOf_feats {name : Text} (hname : name ∈ personFeatures)
    (h : agreement? analysis = some agreement) (index : Nat) (form : Text) :
    valuesOf name (word index form [analysis]).feats = valuesOf name agreement.features := by
  have hsuffixes : (analysis.suffixes.filterMap fun s => suffixFeature? s.1 s.2).flatMap
      (valuesOf name) = [] := by
    rw [List.flatMap_eq_nil_iff]
    intro feature hfeature
    obtain ⟨suffix, _, hshown⟩ := List.mem_filterMap.mp hfeature
    exact valuesOf_suffixFeature hname hshown
  show valuesOf name (listed (features analysis)) = _
  rw [features_eq h, listed, if_neg (List.cons_ne_nil _ _),
    valuesOf_intercalate (List.cons_ne_nil _ _), List.flatMap_cons, hsuffixes, List.append_nil]

/-- The features column lists the persons of the agreement. -/
theorem namesPersons_feats (h : agreement? analysis = some agreement) (index : Nat) (form : Text) :
    NamesPersons (word index form [analysis]).feats "Person" agreement.subject ∧
      NamesPersons (word index form [analysis]).feats "ObjPerson" agreement.object := by
  have hmem : "Person".toList ∈ personFeatures ∧ "ObjPerson".toList ∈ personFeatures := by decide
  obtain ⟨dashed, _, hfound⟩ := Option.bind_eq_some_iff.mp h
  obtain ⟨hsubject, hobject⟩ := Agreement.persons_ne_nil hfound
  obtain ⟨hperson, hobjPerson⟩ := valuesOf_agreement agreement
  rw [← valuesOf_feats hmem.1 h index form] at hperson
  rw [← valuesOf_feats hmem.2 h index form] at hobjPerson
  exact ⟨namesPersons_of_valuesOf hperson hsubject, namesPersons_of_valuesOf hobjPerson hobject⟩

end Row

/-! ## The persons of the features -/

/-- A verb without prefix, with a definite subject, that cannot have an object. -/
def IsBareIntransitive (analysis : Analysis) : Prop :=
  analysis.verbPrefix = none ∧ analysis.voice = .subject ∧
    (analysis.fine = .stativeVerb ∨ analysis.fine = .intransitiveVerb)

variable {analysis : Analysis} {agreement : Agreement}

/-- A row that shows an agreement looks it up as the features do where they ask for it. -/
theorem find?_of_agreement? (h : Row.agreement? analysis = some agreement) :
    Agreement.find? (analysis.verbPrefix.getD "-") analysis.voice = some agreement := by
  obtain ⟨dashed, hdashed, hfound⟩ := Option.bind_eq_some_iff.mp h
  have heq : analysis.verbPrefix.getD "-" = dashed := by
    rw [Row.agreeingPrefix?] at hdashed
    cases hfront : analysis.verbPrefix with
    | some front =>
      rw [hfront] at hdashed
      exact Option.some.inj hdashed
    | none =>
      rw [hfront, Option.none_or] at hdashed
      split at hdashed
      · exact Option.some.inj hdashed
      · cases hdashed
  rw [heq]
  exact hfound

/-- Without prefix a definite subject is a third person, and so is the object, if there is one. -/
theorem agreement_of_no_front (h : Row.agreement? analysis = some agreement)
    (hfront : analysis.verbPrefix = none) (hvoice : analysis.voice = .subject) :
    agreement.subject = [.third] ∧ agreement.object = [.third, .zero] := by
  have hfound := find?_of_agreement? h
  rw [hfront, hvoice] at hfound
  cases hfound
  exact ⟨rfl, rfl⟩

/-- What the features of a verb have of the agreement that its row shows. -/
theorem mem_verbFeatures (h : Row.agreement? analysis = some agreement) :
    (∀ person, person ∈ agreement.subject ↔ person ∈ analysis.verbFeatures.subjectPersons) ∧
      (¬ IsBareIntransitive analysis →
        ∀ person, person ∈ agreement.object ↔ person ∈ analysis.verbFeatures.objectPersons) ∧
      (IsBareIntransitive analysis →
        agreement.object = [.third, .zero] ∧ analysis.verbFeatures.objectPersons = [.zero]) := by
  by_cases hshown : (analysis.verbPrefix.isSome || analysis.voice = .indefinite) = true
  · have hbare : ¬ IsBareIntransitive analysis := by
      rintro ⟨hfront, hvoice, _⟩
      rw [hfront, hvoice] at hshown
      cases hshown
    rw [Analysis.verbFeatures, if_pos hshown, find?_of_agreement? h]
    exact ⟨fun person => Ordered.mem_ofList.symm, fun _ person => Ordered.mem_ofList.symm,
      fun h => absurd h hbare⟩
  · have hdefinite := hshown
    rw [Bool.or_eq_true, not_or, Option.not_isSome_iff_eq_none, decide_eq_true_iff] at hdefinite
    obtain ⟨hfront, hdefinite⟩ := hdefinite
    have hvoice : analysis.voice = .subject := by
      cases hvoice : analysis.voice with
      | subject => rfl
      | indefinite => exact absurd hvoice hdefinite
    obtain ⟨hsubject, hobject⟩ := agreement_of_no_front h hfront hvoice
    rw [Analysis.verbFeatures, if_neg hshown, hsubject, hobject]
    by_cases hfine : (analysis.fine = .stativeVerb || analysis.fine = .intransitiveVerb) = true
    · have hbare : IsBareIntransitive analysis := ⟨hfront, hvoice, by simpa using hfine⟩
      rw [if_pos hfine]
      exact ⟨fun _ => Iff.rfl, fun h => absurd hbare h, fun _ => ⟨rfl, rfl⟩⟩
    · have hbare : ¬ IsBareIntransitive analysis := fun h => hfine (by simpa using h.2.2)
      rw [if_neg hfine]
      refine ⟨fun _ => Iff.rfl, fun _ person => ?_, fun h => absurd h hbare⟩
      cases person <;> decide

end Conllu

namespace Analyzer

open Conllu (NamesPersons IsBareIntransitive Row)

variable {lexicon : Lexicon} {word : Text} {analysis : Analysis} {features : Features}

/-- If the row of a verb phrase shows an agreement, its features column names the persons of the
subject, and those of the object unless the verb has no prefix, a definite subject and the class of
verbs without object: then the column names the third person besides the missing object. -/
theorem feats_names_persons (hmem : analysis ∈ (ofLexicon lexicon).analyze word)
    (hfeatures : analysis.features = some features) (hrole : features.role = .verbPhrase)
    (hshown : (Row.agreement? analysis).isSome = true) (index : Nat) (form : Text) :
    NamesPersons (Row.word index form [analysis]).feats "Person" features.subjectPersons ∧
      (¬ IsBareIntransitive analysis →
        NamesPersons (Row.word index form [analysis]).feats "ObjPerson" features.objectPersons) ∧
      (IsBareIntransitive analysis → features.objectPersons = [.zero] ∧
        NamesPersons (Row.word index form [analysis]).feats "ObjPerson" [.zero, .third]) := by
  obtain ⟨found, _, rfl⟩ := mem_analyze.mp hmem
  cases hfeatures
  obtain ⟨agreement, hagreement⟩ := Option.isSome_iff_exists.mp hshown
  obtain ⟨hsubject, hobject⟩ := Row.namesPersons_feats hagreement index form
  obtain ⟨hsubjects, hobjects, hbare⟩ := Conllu.mem_verbFeatures hagreement
  have hphrase : found.derivedFeatures.subjectPersons = found.verbFeatures.subjectPersons ∧
      found.derivedFeatures.objectPersons = found.verbFeatures.objectPersons := by
    show found.phrase.subjectPersons = _ ∧ found.phrase.objectPersons = _
    rw [(Analysis.phrase_of_role hrole).1]
    exact ⟨rfl, rfl⟩
  rw [hphrase.1, hphrase.2]
  refine ⟨hsubject.congr hsubjects, fun h => hobject.congr (hobjects h), fun h => ?_⟩
  obtain ⟨hlisted, hmissing⟩ := hbare h
  rw [hlisted] at hobject
  refine ⟨hmissing, hobject.congr fun person => ?_⟩
  cases person <;> decide

/-- The prefix marks the object of a verb with an indefinite subject. -/
theorem feats_names_persons_seeing :
    ∃ analysis ∈ (ofLexicon seeing).analyze "vIleghlu'", ∃ features,
      analysis.features = some features ∧ features.role = .verbPhrase ∧
      (Row.agreement? analysis).isSome = true ∧
      NamesPersons (Row.word 1 "vIleghlu'" [analysis]).feats "Person" features.subjectPersons ∧
      (¬ IsBareIntransitive analysis →
        NamesPersons (Row.word 1 "vIleghlu'" [analysis]).feats "ObjPerson"
          features.objectPersons) ∧
      (IsBareIntransitive analysis → features.objectPersons = [.zero] ∧
        NamesPersons (Row.word 1 "vIleghlu'" [analysis]).feats "ObjPerson" [.zero, .third]) := by
  have hfound : ∃ analysis ∈ (ofLexicon seeing).analyze "vIleghlu'",
      (∃ features ∈ analysis.features, features.role = .verbPhrase) ∧
        (Row.agreement? analysis).isSome = true := by
    decide +kernel
  obtain ⟨analysis, hmem, ⟨features, hfeatures, hrole⟩, hshown⟩ := hfound
  exact ⟨analysis, hmem, features, hfeatures, hrole, hshown,
    feats_names_persons hmem hfeatures hrole hshown 1 "vIleghlu'"⟩

/-- The row of an intransitive verb without prefix names an object that its features do not have. -/
theorem feats_names_more_fighting :
    ∃ analysis ∈ (ofLexicon fighting).analyze "Suv", ∃ features,
      analysis.features = some features ∧ features.role = .verbPhrase ∧
      (Row.agreement? analysis).isSome = true ∧ features.objectPersons = [.zero] ∧
      (Row.word 1 "Suv" [analysis]).feats = "Person=3|ObjPerson=3,0".toList ∧
      ¬ NamesPersons (Row.word 1 "Suv" [analysis]).feats "ObjPerson" features.objectPersons := by
  have hfound : ∃ analysis ∈ (ofLexicon fighting).analyze "Suv",
      (∃ features ∈ analysis.features,
        features.role = .verbPhrase ∧ features.objectPersons = [.zero]) ∧
      (Row.agreement? analysis).isSome = true ∧
      (Row.word 1 "Suv" [analysis]).feats = "Person=3|ObjPerson=3,0".toList := by
    decide +kernel
  obtain ⟨analysis, hmem, ⟨features, hfeatures, hrole, hobject⟩, hshown, hfeats⟩ := hfound
  refine ⟨analysis, hmem, features, hfeatures, hrole, hshown, hobject, hfeats, ?_⟩
  rw [hfeats, hobject]
  rintro ⟨value, hvalue, hitems⟩
  have hthird : Conllu.valuesOf "ObjPerson" "Person=3|ObjPerson=3,0" = ["3,0".toList] := by decide
  cases hthird.symm.trans hvalue
  have hlisted : "3".toList ∈ "3,0".toList.splitOn ',' := by decide
  exact absurd ((hitems _).mp hlisted) (by decide)

end Analyzer

end Klingon
