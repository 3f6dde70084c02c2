import Klingon.Proofs.Analyzer.Entries
import Klingon.Proofs.Analyzer.Headwords

/-!
# Headwords that nothing hides

The name of an attested entry that is no noun or verb, or is neither an affix nor derived, is read as
itself, whatever else it could be read as. One of its analyses shows the entry, and no other one does.
An analysis without entry has a mark for its identifier; an entry with this mark for its own
identifier is still shown once, but the identifier does not tell.
-/

namespace Klingon

theorem TemplateKind.exists_ofClass? {wordClass : WordClass} (h : wordClass ≠ .other) :
    ∃ kind, ofClass? wordClass = some kind := by
  cases wordClass with
  | noun => exact ⟨.noun, rfl⟩
  | verb => exact ⟨.verb, rfl⟩
  | other => exact absurd rfl h

namespace Lexicon

variable {lexicon : Lexicon} {kind : TemplateKind} {word : Text} {d : Division}
  {suffixes : List (PieceRole × Text)} {entry : Entry}

/-- Where the headword is the whole word there is neither a prefix nor a suffix. -/
theorem Reading.eq_of_headword_eq (h : lexicon.Reading kind word d suffixes)
    (heq : d.headword = word) : d.front = [] ∧ suffixes = [] := by
  have hlength := congrArg List.length h.division.word
  rw [List.length_append, List.length_append, heq] at hlength
  have hfront : d.front = [] := List.length_eq_zero_iff.mp (by omega)
  have htail : d.tail = [] := List.length_eq_zero_iff.mp (by omega)
  exact ⟨hfront, h.suffixes_eq_nil htail⟩

/-- The name of a noun or a verb that is neither an affix nor derived is a headword of its class. -/
theorem isHeadword_of_not_isDerived (hmem : entry ∈ lexicon.entries)
    (hordinary : entry.IsOrdinary) (hderived : ¬ entry.IsDerived)
    (hclass : TemplateKind.ofClass? entry.wordClass = some kind) :
    lexicon.IsHeadword kind entry.name := by
  cases hword : entry.wordClass with
  | noun =>
    rw [hword] at hclass
    cases hclass
    exact .inl ⟨entry, hmem, hordinary, hword, hderived, rfl⟩
  | verb =>
    rw [hword] at hclass
    cases hclass
    exact .inl ⟨entry, hmem, hordinary, hword, hderived, rfl⟩
  | other =>
    rw [hword] at hclass
    cases hclass

end Lexicon

namespace Analyzer

variable {lexicon : Lexicon} {kind : TemplateKind} {word : Text} {entry : Entry}
  {analysis other : Analysis}

/-- An analysis that consists of an entry. -/
structure IsBare (analysis : Analysis) (entry : Entry) : Prop where
  entryId : analysis.entryId = entry.id
  broad : analysis.broad = entry.wordClass
  parts : analysis.parts = [entry.id]
  verbPrefix : analysis.verbPrefix = none
  suffixes : analysis.suffixes = []

/-- A template's analysis of the whole name of an entry consists of the entry if it shows it. -/
theorem isBare_of_mem_contribution (hname : entry.name ≠ [])
    (hmem : analysis ∈ contribution lexicon kind entry.name)
    (hshows : analysis.ShowsEntry lexicon entry) : IsBare analysis entry := by
  obtain ⟨d, suffixes, chosen, hreading, hchosen, _, rfl⟩ := exists_reading_of_mem hmem
  have hheadword : entry.name = d.headword := hshows.name
  have hclass : entry.wordClass = kind.headwordClass := hshows.wordClass
  obtain ⟨hfront, rfl⟩ := hreading.eq_of_headword_eq hheadword.symm
  obtain ⟨hentry, hid⟩ := Lexicon.mem_of_get? hshows.found
  cases chosen with
  | none =>
    -- The entry itself is a homograph of the headword.
    have hhomograph : entry ∈ lexicon.homographs d.headword kind.headwordClass :=
      Lexicon.mem_homographs.mpr ⟨hentry, hheadword, hshows.attested, hclass⟩
    rw [hheadword] at hname
    exact absurd ((none_mem_entriesOf hchosen).resolve_left hname) (List.ne_nil_of_mem hhomograph)
  | some chosen =>
    rw [hheadword] at hname
    refine ⟨hid.symm, hclass.symm, ?_, if_pos hfront, rfl⟩
    show (if d.front = [] then [] else _) ++ (if d.headword = [] then [] else [chosen.id]) ++ [] = _
    rw [if_pos hfront, if_neg hname, hid]
    rfl

theorem isBare_of_showsEntry (hname : entry.name ≠ [])
    (hmem : analysis ∈ (ofLexicon lexicon).analyze entry.name)
    (hshows : analysis.ShowsEntry lexicon entry) : IsBare analysis entry := by
  obtain ⟨found, hfound, rfl⟩ := mem_analyze.mp hmem
  have hbefore : found.ShowsEntry lexicon entry := { hshows with }
  rcases of_mem_contributions hfound with ⟨kind, hfound⟩ | ⟨homograph, _, rfl⟩
  · exact { isBare_of_mem_contribution hname hfound hbefore with }
  · have hid := (Lexicon.mem_of_get? hshows.found).2
    exact ⟨hid.symm, hshows.wordClass.symm, congrArg (fun id => [id]) hid.symm, rfl, rfl⟩

/-- Analyses that consist of one entry have the same profile. -/
theorem IsBare.profile_eq (h : IsBare analysis entry) :
    profile analysis = (entry.wordClass, entry.id, []) := by
  rw [profile, slots, h.broad, h.entryId, h.suffixes]
  rfl

/-- A template whose headwords are the words of a class is always tried. -/
theorem mem_contributions {wordClass : WordClass} (hclass : TemplateKind.ofClass? wordClass = some kind)
    (h : analysis ∈ contribution lexicon kind word) : analysis ∈ contributions lexicon word := by
  unfold contributions
  cases wordClass <;> cases hclass <;> simp [h]

/-- One of the analyses of a name shows its entry. -/
theorem exists_showsEntry (hmem : entry ∈ lexicon.entries)
    (hattested : entry.isHypothetical = false) (hname : entry.name ≠ [])
    (hprimary : entry.wordClass = .other ∨ entry.isAffix = false ∧ ¬ entry.IsDerived) :
    ∃ analysis ∈ (ofLexicon lexicon).analyze entry.name, analysis.ShowsEntry lexicon entry := by
  have hhomograph : entry ∈ lexicon.homographs entry.name entry.wordClass :=
    Lexicon.mem_homographs.mpr ⟨hmem, rfl, hattested, rfl⟩
  have hfound : ∃ found ∈ contributions lexicon entry.name, found.ShowsEntry lexicon entry := by
    by_cases hother : entry.wordClass = .other
    · rw [hother] at hhomograph
      refine ⟨ofEntry entry.name entry, ?_, showsEntry_ofEntry hhomograph⟩
      exact List.mem_append_right _ (List.mem_map_of_mem hhomograph)
    · obtain ⟨haffix, hderived⟩ := hprimary.resolve_left hother
      obtain ⟨kind, hkind⟩ := TemplateKind.exists_ofClass? hother
      have hheadword := Lexicon.isHeadword_of_not_isDerived hmem ⟨hattested, haffix⟩ hderived hkind
      have hchosen : some entry ∈ entriesOf lexicon kind entry.name := by
        rw [some_mem_entriesOf, TemplateKind.headwordClass_of_ofClass? hkind,
          TemplateKind.requiredTag_of_ofClass? hkind]
        exact ⟨hname, hhomograph, rfl⟩
      refine ⟨Analysis.ofPieces kind entry.name [] entry.name [] (some entry), ?_,
        showsEntry_ofPieces hchosen⟩
      apply mem_contributions hkind
      rw [contribution_headword hkind hheadword]
      exact List.mem_map_of_mem hchosen
  obtain ⟨found, hfound, hshows⟩ := hfound
  exact ⟨complete found, mem_analyze.mpr ⟨found, hfound, rfl⟩, hshows.complete⟩

/-- Two analyses of a word with one profile are the same. -/
theorem eq_of_profile_eq (hmem : analysis ∈ (ofLexicon lexicon).analyze word)
    (hother : other ∈ (ofLexicon lexicon).analyze word) (h : profile other = profile analysis) :
    other = analysis := by
  have hnodup : (((ofLexicon lexicon).analyze word).map profile).Nodup := by
    rw [analyze_eq, List.map_map]
    exact nodup_contributions lexicon word
  exact List.inj_on_of_nodup_map hnodup hother hmem h

/-- If only one analysis of a word satisfies a condition, the others are left out by it. -/
theorem filter_analyze_eq_singleton {condition : Analysis → Bool}
    (hmem : analysis ∈ (ofLexicon lexicon).analyze word) (h : condition analysis = true)
    (honly : ∀ other ∈ (ofLexicon lexicon).analyze word, condition other = true → other = analysis) :
    ((ofLexicon lexicon).analyze word).filter condition = [analysis] := by
  have hnodup : ((ofLexicon lexicon).analyze word).Nodup := by
    rw [analyze_eq]
    exact nodup_complete lexicon word
  apply List.perm_singleton.mp
  apply (List.perm_ext_iff_of_nodup (hnodup.filter condition) (List.nodup_singleton analysis)).mpr
  intro other
  rw [List.mem_filter, List.mem_singleton]
  constructor
  · rintro ⟨hother, hcondition⟩
    exact honly other hother hcondition
  · rintro rfl
    exact ⟨hmem, h⟩

/-- The name of an attested entry of the other classes, or of a noun or a verb that is neither an
affix nor derived, has exactly one analysis that shows the entry, and this consists of the entry
alone. No other one has its identifier, unless this is the mark of no entry. -/
theorem analyze_name_shows_once (hmem : entry ∈ lexicon.entries)
    (hattested : entry.isHypothetical = false) (hname : entry.name ≠ [])
    (hprimary : entry.wordClass = .other ∨ entry.isAffix = false ∧ ¬ entry.IsDerived) :
    ∃ analysis,
      ((ofLexicon lexicon).analyze entry.name).filter (fun a => a.ShowsEntry lexicon entry) =
        [analysis] ∧
      (entry.id ≠ "?" →
        ((ofLexicon lexicon).analyze entry.name).filter (fun a => a.entryId = entry.id) =
          [analysis]) ∧
      analysis.entryId = entry.id ∧ analysis.parts = [entry.id] ∧ analysis.verbPrefix = none ∧
      analysis.suffixes = [] := by
  obtain ⟨analysis, hanalysis, hshows⟩ := exists_showsEntry hmem hattested hname hprimary
  have hbare := isBare_of_showsEntry hname hanalysis hshows
  have honly : ∀ other ∈ (ofLexicon lexicon).analyze entry.name,
      other.ShowsEntry lexicon entry → other = analysis := by
    intro other hother hothers
    refine eq_of_profile_eq hanalysis hother ?_
    rw [(isBare_of_showsEntry hname hother hothers).profile_eq, hbare.profile_eq]
  have hshown : entry.id ≠ "?" → ∀ other ∈ (ofLexicon lexicon).analyze entry.name,
      other.entryId = entry.id → other.ShowsEntry lexicon entry := by
    intro hmark other hother hid
    rcases showsEntry_or_showsNoEntry hother with ⟨found, hfound⟩ | ⟨hnone, _⟩
    · obtain ⟨hin, hfoundId⟩ := Lexicon.mem_of_get? hfound.found
      rwa [Lexicon.eq_of_id_eq hin hmem (hfoundId.trans hid)] at hfound
    · exact absurd (hid.symm.trans hnone.entryId) hmark
  refine ⟨analysis, ?shown, ?identified, hbare.entryId, hbare.parts, hbare.verbPrefix,
    hbare.suffixes⟩
  case shown =>
    apply filter_analyze_eq_singleton hanalysis (decide_eq_true hshows)
    exact fun other hother h => honly other hother (of_decide_eq_true h)
  case identified =>
    intro hmark
    apply filter_analyze_eq_singleton hanalysis (decide_eq_true hbare.entryId)
    intro other hother h
    exact honly other hother (hshown hmark other hother (of_decide_eq_true h))

/-- A noun that looks like a shorter noun with a plural suffix and like a verb with a prefix, and has
the spelling of an affix. -/
def boots : Entry :=
  ⟨"DaSmey:n", "DaSmey", "n", []⟩

def wardrobe : Lexicon :=
  .ofEntries [⟨"DaS:n", "DaS", "n", []⟩, ⟨"Smey:v", "Smey", "v:t", []⟩,
    ⟨"DaSmey:n:suff", "DaSmey", "n:suff", []⟩, boots, ⟨"DaSmey:adv", "DaSmey", "adv", []⟩]

theorem analyze_name_shows_once_boots :
    boots ∈ wardrobe.entries ∧ boots.isHypothetical = false ∧ boots.name ≠ [] ∧
      (boots.wordClass = .other ∨ boots.isAffix = false ∧ ¬ boots.IsDerived) ∧
      ∃ analysis,
        ((ofLexicon wardrobe).analyze boots.name).filter (fun a => a.ShowsEntry wardrobe boots) =
          [analysis] ∧
        (boots.id ≠ "?" →
          ((ofLexicon wardrobe).analyze boots.name).filter (fun a => a.entryId = boots.id) =
            [analysis]) ∧
        analysis.entryId = boots.id ∧ analysis.parts = [boots.id] ∧ analysis.verbPrefix = none ∧
        analysis.suffixes = [] := by
  have hmem : boots ∈ wardrobe.entries := by decide +kernel
  have hattested : boots.isHypothetical = false := by decide +kernel
  have hname : boots.name ≠ [] := by decide
  have hprimary : boots.wordClass = .other ∨ boots.isAffix = false ∧ ¬ boots.IsDerived := by
    unfold Entry.IsDerived
    decide +kernel
  exact ⟨hmem, hattested, hname, hprimary, analyze_name_shows_once hmem hattested hname hprimary⟩

/-- A noun with the mark of no entry for its identifier. It looks like a number word, and the lexicon
does not have the numeral. -/
def ten : Entry :=
  ⟨"?", "wa'maH", "n", []⟩

/-- Of the two analyses with the identifier of the noun one shows no entry. -/
theorem two_analyses_with_id_ten : ten ∈ (Lexicon.ofEntries [ten]).entries ∧
    ten.isHypothetical = false ∧ ten.name ≠ [] ∧ ten.wordClass = .noun ∧ ten.isAffix = false ∧
      ¬ ten.IsDerived ∧
      (((ofLexicon (.ofEntries [ten])).analyze ten.name).filter
        (fun a => a.entryId = ten.id)).length = 2 := by
  unfold Entry.IsDerived
  decide +kernel

end Analyzer

end Klingon
