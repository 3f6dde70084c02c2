import Klingon.Proofs.Analyzer.Morphemes
import Klingon.Proofs.Analyzer.Recording

/-!
# When words are ungrammatical

The checks ask an analysis for parts, which are texts with a class behind a colon, for the place of
the headword among them, and for a map of suffixes that rovers have been added to. What they find out
can be said of the captures of the template alone: which suffix stands at which position, and which
prefix stands before the headword. This needs that the identifier of the headword's entry does not look
like a prefix or a suffix itself.
-/

namespace Klingon

/-! ## Matches and what they break -/

/-- A match of a template, with an entry for its headword or without. -/
structure Match where
  kind : TemplateKind
  captures : List Capture
  chosen : Option Entry
  deriving DecidableEq, Repr

namespace Match

/-- The text of the captured prefix. -/
def front (m : Match) : Text :=
  Capture.textOf .verbPrefix m.captures

def headword (m : Match) : Text :=
  Capture.textOf .headword m.captures

def fine (m : Match) : FineTag :=
  (m.chosen.map (·.fineTag)).getD .unknown

/-- Whether a suffix is captured at a position. -/
def Has (m : Match) (slot : SuffixSlot) (text : Text) : Prop :=
  ∃ capture ∈ m.captures, capture.role.slot? = some slot ∧ capture.text = text

/-- Whether any suffix is captured at a position. -/
def Fills (m : Match) (slot : SuffixSlot) : Prop :=
  ∃ capture ∈ m.captures, capture.role.slot? = some slot

/-- Whether no suffix is captured between the headword and the given one. -/
def Begins (m : Match) (slot : SuffixSlot) (text : Text) : Prop :=
  ∃ capture ∈ m.captures.find? (·.role.slot?.isSome),
    capture.role.slot? = some slot ∧ capture.text = text

def hasTag (m : Match) (tag : Text) : Bool :=
  m.chosen.any (·.hasTag tag)

/-- The gender of the headword, by its spelling and by the tags of its entry. -/
def gender (m : Match) : Gender :=
  if m.headword ∈ ["qorDu'".toList, "latlh"] then .being
  else if m.hasTag "body" then .bodyPart
  else if m.hasTag "being" || m.hasTag "name" then .being
  else .other

/-- The plural and possessive suffixes that only nouns of one gender take. -/
def reserved : List (Gender × SuffixSlot × Text) :=
  [ (.being, .n4, "wI'"), (.being, .n4, "lI'"), (.being, .n4, "ma'"), (.being, .n4, "ra'"),
    (.being, .n2, "pu'"), (.bodyPart, .n2, "Du'") ]

/-- What a match has that makes its word ungrammatical for a reason. -/
def Breaks (m : Match) : Violation → Prop
  | .genderSuffix => m.kind.headwordClass = .noun ∧ m.headword ∉ ["qor".toList, "chuD"] ∧
      ∃ suffix ∈ reserved, suffix.1 ≠ m.gender ∧ m.Has suffix.2.1 suffix.2.2
  | .missingSuffix suffix required => suffix = "-vIS" ∧ required = "-taH" ∧
      m.Has .v9 "vIS" ∧ ¬ m.Has .v7 "taH"
  | .indefinitePrefix => m.Has .v5 "lu'" ∧
      m.front ∉ [[], "vI".toList, "Da", "wI", "bo", "lu"]
  | .stativePrefix => m.fine = .stativeVerb ∧
      m.front ∉ [[], "yI".toList, "pe", "jI", "bI", "ma", "Su"] ∧ ¬ m.Has .v4 "moH"
  | .bareNominalization => m.headword ∉ ["lo'laH".toList, "lo'laHbe'"] ∧ m.Begins .v9 "ghach"
  | .wishWithAspect => m.Has .v9 "jaj" ∧ m.Fills .v7

instance (m : Match) (slot : SuffixSlot) (text : Text) : Decidable (m.Has slot text) :=
  inferInstanceAs (Decidable (∃ _ ∈ _, _))

instance (m : Match) (slot : SuffixSlot) : Decidable (m.Fills slot) :=
  inferInstanceAs (Decidable (∃ _ ∈ _, _))

instance (m : Match) (slot : SuffixSlot) (text : Text) : Decidable (m.Begins slot text) :=
  inferInstanceAs (Decidable (∃ _ ∈ _, _))

instance (m : Match) : (violation : Violation) → Decidable (m.Breaks violation)
  | .genderSuffix => inferInstanceAs (Decidable (_ ∧ _ ∧ _))
  | .missingSuffix _ _ => inferInstanceAs (Decidable (_ ∧ _ ∧ _ ∧ _))
  | .indefinitePrefix => inferInstanceAs (Decidable (_ ∧ _))
  | .stativePrefix => inferInstanceAs (Decidable (_ ∧ _ ∧ _))
  | .bareNominalization => inferInstanceAs (Decidable (_ ∧ _))
  | .wishWithAspect => inferInstanceAs (Decidable (_ ∧ _))

/-- The reasons in the order in which they count. -/
def reasons : List Violation :=
  [.genderSuffix, .missingSuffix "-vIS" "-taH", .indefinitePrefix, .stativePrefix,
    .bareNominalization, .wishWithAspect]

/-- The first reason for which the word of a match is ungrammatical. -/
def firstBroken? (m : Match) : Option Violation :=
  reasons.find? fun violation => m.Breaks violation

/-- The analysis of a word by a match. -/
def analysis (m : Match) (word : Text) : Analysis :=
  Analysis.ofCaptures m.kind word m.captures m.chosen

end Match

/-- Whether an analysis of a word is made of a match: a euphonic one, with an entry that its headword
may have. -/
structure Match.Yields (m : Match) (lexicon : Lexicon) (word : Text) (analysis : Analysis) : Prop where
  captured : Analyzer.euphonicCaptures? (lexicon.template m.kind) word = some m.captures
  entry : m.chosen ∈ Analyzer.entriesOf lexicon m.kind m.headword
  completed : analysis = Analyzer.complete (m.analysis word)

/-! ## Parts of affixes -/

/-- The shape of the part of a suffix or of a prefix. -/
def IsAffixPart (part : Text) : Prop :=
  ∃ text : Text, part = "-" ++ text ++ ":v" ∨ part = "-" ++ text ++ ":n" ∨ part = text ++ "-:v"

instance (part : Text) : Decidable (IsAffixPart part) :=
  decidable_of_iff
    ((∃ rest ∈ Text.dropStart? "-" part, ":v".toList <:+ rest ∨ ":n".toList <:+ rest) ∨
      "-:v".toList <:+ part) <| by
    simp only [IsAffixPart, Option.mem_def, Text.dropStart?_eq_some_iff, List.IsSuffix]
    constructor
    · rintro (⟨_, rfl, ⟨text, rfl⟩ | ⟨text, rfl⟩⟩ | ⟨text, rfl⟩)
      · exact ⟨text, .inl (List.append_assoc _ _ _).symm⟩
      · exact ⟨text, .inr (.inl (List.append_assoc _ _ _).symm)⟩
      · exact ⟨text, .inr (.inr rfl)⟩
    · rintro ⟨text, rfl | rfl | rfl⟩
      · exact .inl ⟨_, List.append_assoc _ _ _, .inl ⟨text, rfl⟩⟩
      · exact .inl ⟨_, List.append_assoc _ _ _, .inr ⟨text, rfl⟩⟩
      · exact .inr ⟨text, rfl⟩

theorem IsAffixPart.colon_mem {part : Text} (h : IsAffixPart part) : ':' ∈ part := by
  obtain ⟨text, rfl | rfl | rfl⟩ := h <;> simp

namespace Affix

variable {text text' : Text} {wordClass wordClass' : WordClass} {slot slot' : SuffixSlot}

/-- A position belongs to one class. -/
theorem wordClass_eq_of_slot? (h : slot? ("-" ++ text) wordClass = some slot)
    (h' : slot? ("-" ++ text') wordClass' = some slot) : wordClass = wordClass' := by
  have htable : ∀ suffix ∈ suffixes, ∀ other ∈ suffixes,
      suffix.slot = other.slot → suffix.wordClass = other.wordClass := by
    decide +kernel
  exact htable _ (mem_of_slot? h) _ (mem_of_slot? h') rfl

theorem isAffixPart_of_slot? (h : slot? ("-" ++ text) wordClass = some slot) :
    IsAffixPart ("-" ++ text ++ ":" ++ wordClass.key) := by
  have htable : ∀ suffix ∈ suffixes, suffix.wordClass = .verb ∨ suffix.wordClass = .noun := by
    decide +kernel
  refine ⟨text, ?_⟩
  obtain rfl | rfl : wordClass = .verb ∨ wordClass = .noun := htable _ (mem_of_slot? h)
  · exact .inl (List.append_assoc _ _ _)
  · exact .inr (.inl (List.append_assoc _ _ _))

/-- A part names the spelling of its suffix and its class. -/
theorem eq_of_part_eq (htext : ':' ∉ text) (htext' : ':' ∉ text')
    (h : "-" ++ text ++ ":" ++ wordClass.key = "-" ++ text' ++ ":" ++ wordClass'.key) :
    text = text' ∧ wordClass = wordClass' := by
  have hcut : ∀ {text : Text} {wordClass : WordClass}, ':' ∉ text →
      Text.cut? ':' ("-" ++ text ++ ":" ++ wordClass.key) =
        some ("-".toList ++ text, wordClass.key) := by
    intro text wordClass htext
    have hfront : ':' ∉ "-".toList ++ text := List.not_mem_append (by decide) htext
    rw [List.append_assoc]
    exact Text.cut?_append hfront wordClass.key
  have hboth := (hcut htext).symm.trans ((congrArg (Text.cut? ':') h).trans (hcut htext'))
  obtain ⟨hfront, hkey⟩ := Prod.mk.inj (Option.some.inj hboth)
  refine ⟨List.append_cancel_left hfront, ?_⟩
  cases wordClass <;> cases wordClass' <;> first | rfl | cases hkey

end Affix

/-! ## The suffixes of a match -/

section Pieces

variable {pieces : List (PieceRole × Text)} {attached : List Attachment} {wordClass : WordClass}
  {slot : SuffixSlot} {text : Text}

/-- A suffix at any position but that of the rovers is recorded. -/
theorem Recorded.exists_attachment (h : Recorded wordClass pieces attached)
    (hslot : slot ≠ .vr) {piece : PieceRole × Text} (hpiece : piece ∈ pieces)
    (hrole : piece.1.slot? = some slot) :
    ∃ a ∈ attached, a.slot = slot ∧ a.text = piece.2 := by
  induction h with
  | nil => exact absurd hpiece List.not_mem_nil
  | @alone wordClass own fixed text rest attached hown hnext hrest ih =>
    rcases List.mem_cons.mp hpiece with rfl | hpiece
    · exact ⟨_, List.mem_cons_self, Option.some.inj hrole, rfl⟩
    · obtain ⟨a, ha, hfound⟩ := ih hpiece
      exact ⟨a, List.mem_cons_of_mem _ ha, hfound⟩
  | @withRover wordClass own fixed text rover rest attached hown hrover hrest ih =>
    rcases List.mem_cons.mp hpiece with rfl | hpiece
    · exact ⟨_, List.mem_cons_self, Option.some.inj hrole, rfl⟩
    · rcases List.mem_cons.mp hpiece with rfl | hpiece
      · exact absurd (Option.some.inj hrole).symm hslot
      · obtain ⟨a, ha, hfound⟩ := ih hpiece
        exact ⟨a, List.mem_cons_of_mem _ ha, hfound⟩

/-- The suffix behind the headword is recorded first. -/
theorem Recorded.head?_eq (h : Recorded wordClass pieces attached) :
    attached.head?.map (fun a => (some a.slot, a.text)) =
      pieces.head?.map fun piece => (piece.1.slot?, piece.2) := by
  cases h <;> rfl

end Pieces

namespace Match

variable {m : Match} {lexicon : Lexicon} {word : Text} {analysis : Analysis} {slot : SuffixSlot}
  {text part : Text} {wordClass : WordClass}

/-- The suffixes that are recorded of a match. -/
def attached (m : Match) : List Attachment :=
  attachments m.kind.inflectionClass (Capture.suffixPieces m.captures)

/-- The parts before that of the headword. -/
def frontParts (m : Match) : List Text :=
  if m.front = [] then [] else [m.front ++ "-:" ++ m.kind.headwordClass.key]

/-- The part of the headword. -/
def own (m : Match) : Text :=
  (m.chosen.map (·.id)).getD m.headword

theorem own_of_none (h : m.chosen = none) : m.own = m.headword := by
  rw [own, h]
  rfl

theorem own_of_some {entry : Entry} (h : m.chosen = some entry) :
    m.own = (m.analysis word).entryId := by
  show (m.chosen.map (·.id)).getD m.headword = (m.chosen.map (·.id)).getD ("?" : Text)
  rw [h]
  rfl

/-- A match with a headword whose part does not look like that of an affix. -/
structure IsPlain (m : Match) : Prop where
  suffixes : Attached m.kind.inflectionClass (Capture.suffixPieces m.captures)
  front : m.front ∈ m.kind.fronts
  headword : m.headword ≠ []
  own : ¬ IsAffixPart m.own

theorem mem_suffixPieces {piece : PieceRole × Text} :
    piece ∈ Capture.suffixPieces m.captures ↔
      (∃ capture ∈ m.captures, capture.piece = piece) ∧ piece.1.slot?.isSome = true := by
  rw [Capture.suffixPieces, List.mem_filter, List.mem_map]

theorem has_iff_piece : m.Has slot text ↔
    ∃ piece ∈ Capture.suffixPieces m.captures, piece.1.slot? = some slot ∧ piece.2 = text := by
  constructor
  · rintro ⟨capture, hcapture, hslot, htext⟩
    refine ⟨capture.piece, mem_suffixPieces.mpr ⟨⟨capture, hcapture, rfl⟩, ?_⟩, hslot, htext⟩
    exact Option.isSome_of_eq_some hslot
  · rintro ⟨piece, hpiece, hslot, htext⟩
    obtain ⟨⟨capture, hcapture, rfl⟩, _⟩ := mem_suffixPieces.mp hpiece
    exact ⟨capture, hcapture, hslot, htext⟩

theorem IsPlain.has_iff (h : m.IsPlain) (hne : slot ≠ .vr) :
    m.Has slot text ↔ ∃ a ∈ m.attached, a.slot = slot ∧ a.text = text := by
  rw [has_iff_piece]
  constructor
  · rintro ⟨piece, hpiece, hslot, rfl⟩
    exact h.suffixes.recorded.exists_attachment hne hpiece hslot
  · rintro ⟨a, ha, rfl, rfl⟩
    have hmem := (sublist_attachments _ _).subset (List.mem_map_of_mem ha)
    obtain ⟨piece, hpiece, heq⟩ := List.mem_map.mp hmem
    obtain ⟨hslot, htext⟩ := Prod.mk.inj heq
    exact ⟨piece, hpiece, hslot, htext⟩

theorem IsPlain.fills_iff (h : m.IsPlain) (hne : slot ≠ .vr) :
    m.Fills slot ↔ slot ∈ m.attached.map (·.slot) := by
  rw [List.mem_map]
  constructor
  · rintro ⟨capture, hcapture, hslot⟩
    obtain ⟨a, ha, hfound, _⟩ := (h.has_iff hne).mp ⟨capture, hcapture, hslot, rfl⟩
    exact ⟨a, ha, hfound⟩
  · rintro ⟨a, ha, hslot⟩
    obtain ⟨capture, hcapture, hfound, _⟩ := (h.has_iff hne).mpr ⟨a, ha, hslot, rfl⟩
    exact ⟨capture, hcapture, hfound⟩

theorem IsPlain.begins_iff (h : m.IsPlain) :
    m.Begins slot text ↔ ∃ a ∈ m.attached.head?, a.slot = slot ∧ a.text = text := by
  have hfirst : (Capture.suffixPieces m.captures).head? =
      (m.captures.find? (·.role.slot?.isSome)).map (·.piece) := by
    rw [Capture.suffixPieces, List.head?_filter, List.find?_map]
    rfl
  have hhead : m.attached.head?.map (fun a => (some a.slot, a.text)) =
      (m.captures.find? (·.role.slot?.isSome)).map fun capture =>
        (capture.role.slot?, capture.text) := by
    rw [attached, h.suffixes.recorded.head?_eq, hfirst, Option.map_map]
    rfl
  constructor
  · rintro ⟨capture, hcapture, hslot, rfl⟩
    rw [Option.mem_def.mp hcapture] at hhead
    obtain ⟨a, ha, heq⟩ := Option.map_eq_some_iff.mp hhead
    obtain ⟨hsame, htext⟩ := Prod.mk.inj heq
    exact ⟨a, ha, Option.some.inj (hsame.trans hslot), htext⟩
  · rintro ⟨a, ha, rfl, rfl⟩
    rw [Option.mem_def.mp ha] at hhead
    obtain ⟨capture, hcapture, heq⟩ := Option.map_eq_some_iff.mp hhead.symm
    obtain ⟨hslot, htext⟩ := Prod.mk.inj heq
    exact ⟨capture, hcapture, hslot, htext⟩

theorem parts_eq (h : m.headword ≠ []) :
    (m.analysis word).parts = m.frontParts ++ m.own :: m.attached.map (·.part) := by
  show (_ ++ (if m.headword = [] then [] else [_])) ++ _ = _
  rw [if_neg h, List.append_assoc]
  rfl

/-- The part of a prefix has the shape of one, and does not begin as that of a suffix. -/
theorem IsPlain.of_mem_frontParts (h : m.IsPlain) (hpart : part ∈ m.frontParts) :
    IsAffixPart part ∧ part.head? ≠ some '-' := by
  have htable : ∀ front ∈ Affix.prefixes, front.head?.isSome = true ∧ front.head? ≠ some '-' := by
    decide
  rw [frontParts] at hpart
  split at hpart
  · exact absurd hpart List.not_mem_nil
  · next hne =>
    obtain rfl := List.mem_singleton.mp hpart
    have hfront := h.front
    cases hkind : m.kind <;> rw [hkind] at hfront
    case verb =>
      obtain ⟨hsome, hdash⟩ := htable _ ((List.mem_cons.mp hfront).resolve_left hne)
      refine ⟨⟨m.front, .inr (.inr ?_)⟩, ?_⟩
      · exact List.append_assoc _ _ _
      · rw [List.append_assoc, List.head?_append_of_ne_nil _ hne]
        exact hdash
    all_goals exact absurd (List.mem_singleton.mp hfront) hne

theorem IsPlain.isAffixPart_of_mem (h : m.IsPlain) (hpart : part ∈ m.attached.map (·.part)) :
    IsAffixPart part := by
  obtain ⟨a, ha, rfl⟩ := List.mem_map.mp hpart
  exact Affix.isAffixPart_of_slot? (h.suffixes.slot?_eq a ha)

/-! ## What the checks ask -/

/-- A recorded suffix has the part of a suffix exactly if it is that suffix. -/
theorem IsPlain.part_eq_iff {a : Attachment} (h : m.IsPlain) (ha : a ∈ m.attached)
    (hslot : Affix.slot? ("-" ++ text) wordClass = some slot) :
    a.part = "-" ++ text ++ ":" ++ wordClass.key ↔ a.slot = slot ∧ a.text = text := by
  have hfound := h.suffixes.slot?_eq a ha
  constructor
  · intro hpart
    obtain ⟨htext, hclass⟩ := Affix.eq_of_part_eq (Affix.colon_not_mem_of_slot? hfound)
      (Affix.colon_not_mem_of_slot? hslot) hpart
    rw [htext, hclass, hslot] at hfound
    exact ⟨(Option.some.inj hfound).symm, htext⟩
  · rintro ⟨rfl, rfl⟩
    rw [Attachment.part, Affix.wordClass_eq_of_slot? hfound hslot]

/-- Whether the parts name a suffix is whether it is captured. -/
theorem IsPlain.hasPart_iff (h : m.IsPlain)
    (hslot : Affix.slot? ("-" ++ text) wordClass = some slot) (hne : slot ≠ .vr) :
    (m.analysis word).hasPart ("-" ++ text ++ ":" ++ wordClass.key) = true ↔ m.Has slot text := by
  rw [Analysis.hasPart, decide_eq_true_iff, parts_eq h.headword, h.has_iff hne]
  constructor
  · intro hpart
    rcases List.mem_append.mp hpart with hfront | hpart
    · exact absurd rfl (h.of_mem_frontParts hfront).2
    · rcases List.mem_cons.mp hpart with hown | hpart
      · exact absurd (hown ▸ Affix.isAffixPart_of_slot? hslot) h.own
      · obtain ⟨a, ha, hsame⟩ := List.mem_map.mp hpart
        exact ⟨a, ha, (h.part_eq_iff ha hslot).mp hsame⟩
  · rintro ⟨a, ha, hfound⟩
    have hsame := (h.part_eq_iff ha hslot).mpr hfound
    exact List.mem_append_right _ (List.mem_cons_of_mem _ (List.mem_map.mpr ⟨a, ha, hsame⟩))

theorem IsPlain.isSome_suffix?_iff (h : m.IsPlain) (hne : slot ≠ .vr) :
    ((m.analysis word).suffix? slot).isSome = true ↔ m.Fills slot := by
  have hslots : slot ∈ Analyzer.slots (m.analysis word) ↔ slot ∈ m.attached.map (·.slot) :=
    Analyzer.mem_slots_ofPieces
  rw [h.fills_iff hne, ← hslots, Analyzer.slots, List.mem_map, Analysis.suffix?,
    List.lookup_isSome_iff]
  refine exists_congr fun s => and_congr_right fun _ => ?_
  rw [beq_iff_eq, eq_comm]

theorem allowsPrefix_iff (allowed : List Text) :
    (m.analysis word).allowsPrefix (allowed.map (· ++ "-")) = true ↔ m.front ∈ [] :: allowed := by
  show (if m.front = [] then none else some (m.front ++ "-".toList)).all
    (· ∈ allowed.map (· ++ "-".toList)) = true ↔ _
  by_cases hfront : m.front = [] <;> simp [hfront]

/-- Asking the part of speech that the analysis shows for a tag is asking the entry. -/
theorem names_sourceTag {tag : Text} (htag : tag ∈ ["body".toList, "being", "name"]) :
    PartOfSpeech.names (m.analysis word).sourceTag tag = m.hasTag tag := by
  have htable : ∀ tag ∈ ["body".toList, "being", "name"],
      tag ≠ [] ∧ PartOfSpeech.names "?" tag = false := by
    decide
  obtain ⟨hne, hmark⟩ := htable tag htag
  show PartOfSpeech.names ((m.chosen.map (·.pos)).getD ("?" : Text)) tag = m.chosen.any (·.hasTag tag)
  cases m.chosen with
  | none => exact hmark
  | some entry =>
    show PartOfSpeech.names entry.pos tag = entry.hasTag tag
    rw [Bool.eq_iff_iff, PartOfSpeech.names_eq_true_iff hne, Entry.hasTag, decide_eq_true_iff]
    exact Iff.rfl

theorem gender_eq : (m.analysis word).gender = m.gender := by
  rw [Analysis.gender, names_sourceTag (by decide), names_sourceTag (by decide),
    names_sourceTag (by decide)]
  rfl

/-- A part that is no affix part stands where the headword does. -/
theorem IsPlain.findIdx?_parts (h : m.IsPlain) (hpart : ¬ IsAffixPart part) :
    (m.analysis word).parts.findIdx? (· = part) =
      if m.own = part then some m.frontParts.length else none := by
  have hfront : m.frontParts.findIdx? (· = part) = none := by
    rw [List.findIdx?_eq_none_iff]
    intro other hother
    have hne : other ≠ part := fun heq => hpart (heq ▸ (h.of_mem_frontParts hother).1)
    exact decide_eq_false hne
  have hbehind : (m.attached.map (·.part)).findIdx? (· = part) = none := by
    rw [List.findIdx?_eq_none_iff]
    intro other hother
    have hne : other ≠ part := fun heq => hpart (heq ▸ h.isAffixPart_of_mem hother)
    exact decide_eq_false hne
  rw [parts_eq h.headword, List.findIdx?_append, hfront, List.findIdx?_cons, hbehind]
  by_cases hown : m.own = part <;> simp [hown]

theorem IsPlain.headwordIndex?_eq (h : m.IsPlain) :
    (m.analysis word).headwordIndex? = some m.frontParts.length := by
  have hmark : ¬ IsAffixPart "?" := fun hmark => absurd hmark.colon_mem (by decide)
  rw [Analysis.headwordIndex?]
  cases hchosen : m.chosen with
  | none =>
    have hid : (m.analysis word).entryId = "?" := by
      show (m.chosen.map (·.id)).getD ("?" : Text) = _
      rw [hchosen]
      rfl
    have hown : m.own = (m.analysis word).headword := own_of_none hchosen
    rw [hid, h.findIdx?_parts hmark, ← hown, h.findIdx?_parts h.own, if_pos rfl]
    split <;> rfl
  | some entry =>
    have hown : m.own = (m.analysis word).entryId := own_of_some hchosen
    rw [← hown, h.findIdx?_parts h.own, if_pos rfl, Option.some_or]

/-- The part of a suffix stands behind that of the headword. -/
theorem IsPlain.findIdx?_suffix (h : m.IsPlain)
    (hslot : Affix.slot? ("-" ++ text) wordClass = some slot) :
    (m.analysis word).parts.findIdx? (· = "-" ++ text ++ ":" ++ wordClass.key) =
      ((m.attached.map (·.part)).findIdx? (· = "-" ++ text ++ ":" ++ wordClass.key)).map
        (· + (m.frontParts.length + 1)) := by
  have hfront : m.frontParts.findIdx? (· = "-" ++ text ++ ":" ++ wordClass.key) = none := by
    rw [List.findIdx?_eq_none_iff]
    intro other hother
    have hne : other ≠ "-" ++ text ++ ":" ++ wordClass.key :=
      fun heq => (h.of_mem_frontParts hother).2 (heq ▸ rfl)
    exact decide_eq_false hne
  have hown : m.own ≠ "-" ++ text ++ ":" ++ wordClass.key :=
    fun heq => h.own (heq ▸ Affix.isAffixPart_of_slot? hslot)
  rw [parts_eq h.headword, List.findIdx?_append, hfront, Option.none_or, List.findIdx?_cons,
    decide_eq_false hown, if_neg Bool.false_ne_true, Option.map_map]
  congr 1
  funext i
  show i + 1 + m.frontParts.length = i + (m.frontParts.length + 1)
  omega

/-- The nominalizer stands alone exactly if it is the first suffix. -/
theorem IsPlain.nominalizationViolation_eq (h : m.IsPlain) :
    (m.analysis word).nominalizationViolation =
      if m.Breaks .bareNominalization then some .bareNominalization else none := by
  have hslot : Affix.slot? ("-" ++ "ghach") .verb = some .v9 := by decide +kernel
  have hbreaks : m.Breaks .bareNominalization ↔ m.headword ∉ Analysis.nominalizable ∧
      ∃ a ∈ m.attached.head?, a.slot = .v9 ∧ a.text = "ghach" :=
    and_congr_right fun _ => h.begins_iff
  have hplace : (m.analysis word).parts.findIdx? (· = "-ghach:v".toList) =
      ((m.attached.map (·.part)).findIdx? (· = "-ghach:v".toList)).map
        (· + (m.frontParts.length + 1)) :=
    h.findIdx?_suffix hslot
  rw [Analysis.nominalizationViolation, h.headwordIndex?_eq, hplace]
  by_cases hname : m.headword ∈ Analysis.nominalizable
  · rw [if_neg fun hbroken => (hbreaks.mp hbroken).1 hname]
    exact if_pos hname
  · refine (if_neg hname).trans ?_
    cases hattached : m.attached with
    | nil =>
      rw [hattached] at hbreaks
      rw [if_neg fun hbroken => by simpa using (hbreaks.mp hbroken).2]
      rfl
    | cons first rest =>
      have hfirst : first.part = "-ghach:v" ↔ first.slot = .v9 ∧ first.text = "ghach" :=
        h.part_eq_iff (hattached ▸ List.mem_cons_self) hslot
      have honly : m.Breaks .bareNominalization ↔ first.part = "-ghach:v" := by
        rw [hbreaks, hattached, and_iff_right hname, hfirst]
        simp
      simp only [honly, List.map_cons, List.findIdx?_cons]
      by_cases hpart : first.part = "-ghach:v"
      · rw [if_pos hpart, decide_eq_true hpart]
        have hplaced : 0 + (m.frontParts.length + 1) < m.frontParts.length + 2 := by omega
        exact if_pos hplaced
      · rw [if_neg hpart, decide_eq_false hpart]
        cases (rest.map (·.part)).findIdx? (· = "-ghach:v".toList) with
        | none => rfl
        | some i =>
          have hbehind : ¬ i + 1 + (m.frontParts.length + 1) < m.frontParts.length + 2 := by omega
          exact if_neg hbehind

theorem IsPlain.genderViolation_eq (h : m.IsPlain) :
    (m.analysis word).genderViolation =
      if m.Breaks .genderSuffix then some .genderSuffix else none := by
  have hslots : ∀ suffix ∈ reserved, suffix.2.1 ≠ .vr ∧
      Affix.slot? ("-" ++ suffix.2.2) .noun = some suffix.2.1 := by
    decide +kernel
  have htable : Analysis.genderedParts.flatMap (fun g => g.2.map fun part => (g.1, part)) =
      reserved.map fun suffix => (suffix.1, "-".toList ++ suffix.2.2 ++ ":" ++ WordClass.noun.key) := by
    decide
  have hany : (Analysis.genderedParts.any fun g =>
      g.1 ≠ m.gender && g.2.any (m.analysis word).hasPart) = true ↔
        ∃ suffix ∈ reserved, suffix.1 ≠ m.gender ∧ m.Has suffix.2.1 suffix.2.2 := by
    calc (Analysis.genderedParts.any fun g =>
          g.1 ≠ m.gender && g.2.any (m.analysis word).hasPart) = true
      _ ↔ ((Analysis.genderedParts.flatMap fun g => g.2.map fun part => (g.1, part)).any fun p =>
          p.1 ≠ m.gender && (m.analysis word).hasPart p.2) = true := by
        rw [List.any_flatMap]
        refine Eq.congr (congrArg (List.any Analysis.genderedParts) (funext fun g => ?_)) rfl
        rw [List.any_map]
        by_cases hgender : g.1 = m.gender <;> simp [hgender, Function.comp_def]
      _ ↔ ∃ suffix ∈ reserved, suffix.1 ≠ m.gender ∧ m.Has suffix.2.1 suffix.2.2 := by
        rw [htable, List.any_map, List.any_eq_true]
        refine exists_congr fun suffix => and_congr_right fun hmem => ?_
        obtain ⟨hne, hslot⟩ := hslots suffix hmem
        rw [Function.comp_apply, Bool.and_eq_true, h.hasPart_iff hslot hne, decide_eq_true_iff]
  rw [Analysis.genderViolation, gender_eq]
  refine if_congr ?_ rfl rfl
  rw [Bool.and_eq_true, Bool.and_eq_true, hany, decide_eq_true_iff, decide_eq_true_iff, and_assoc]
  exact Iff.rfl

theorem IsPlain.requirementViolation_eq (h : m.IsPlain) :
    (m.analysis word).requirementViolation =
      if m.Breaks (.missingSuffix "-vIS" "-taH") then some (.missingSuffix "-vIS" "-taH")
      else none := by
  have hslot : Affix.slot? ("-" ++ "vIS") .verb = some .v9 := by decide +kernel
  have hslot' : Affix.slot? ("-" ++ "taH") .verb = some .v7 := by decide +kernel
  have hpart : (m.analysis word).hasPart "-vIS:v" = true ↔ m.Has .v9 "vIS" :=
    h.hasPart_iff hslot (by decide)
  have hpart' : (m.analysis word).hasPart "-taH:v" = true ↔ m.Has .v7 "taH" :=
    h.hasPart_iff hslot' (by decide)
  have hbreaks : m.Breaks (.missingSuffix "-vIS" "-taH") ↔ m.Has .v9 "vIS" ∧ ¬ m.Has .v7 "taH" :=
    (and_iff_right rfl).trans (and_iff_right rfl)
  rw [Analysis.requirementViolation, Analysis.requirements, List.findSome?_singleton]
  refine if_congr ?_ rfl rfl
  rw [hbreaks, ← hpart, ← hpart', Bool.not_eq_true, ← Bool.not_eq_true', ← Bool.and_eq_true]
  exact Iff.rfl

theorem IsPlain.indefiniteViolation_eq (h : m.IsPlain) :
    (m.analysis word).indefiniteViolation =
      if m.Breaks .indefinitePrefix then some .indefinitePrefix else none := by
  have hslot : Affix.slot? ("-" ++ "lu'") .verb = some .v5 := by decide +kernel
  have hpart : (m.analysis word).hasPart "-lu':v" = true ↔ m.Has .v5 "lu'" :=
    h.hasPart_iff hslot (by decide)
  have hprefix : (m.analysis word).allowsPrefix Analysis.indefinitePrefixes = true ↔
      m.front ∈ [[], "vI".toList, "Da", "wI", "bo", "lu"] :=
    allowsPrefix_iff ["vI".toList, "Da", "wI", "bo", "lu"]
  rw [Analysis.indefiniteViolation]
  refine if_congr ?_ rfl rfl
  rw [Bool.and_eq_true, Bool.not_eq_true', ← Bool.not_eq_true, hpart, hprefix]
  exact Iff.rfl

theorem IsPlain.stativeViolation_eq (h : m.IsPlain) :
    (m.analysis word).stativeViolation =
      if m.Breaks .stativePrefix then some .stativePrefix else none := by
  have hslot : Affix.slot? ("-" ++ "moH") .verb = some .v4 := by decide +kernel
  have hpart : (m.analysis word).hasPart "-moH:v" = true ↔ m.Has .v4 "moH" :=
    h.hasPart_iff hslot (by decide)
  have hprefix : (m.analysis word).allowsPrefix Analysis.objectlessPrefixes = true ↔
      m.front ∈ [[], "yI".toList, "pe", "jI", "bI", "ma", "Su"] :=
    allowsPrefix_iff ["yI".toList, "pe", "jI", "bI", "ma", "Su"]
  rw [Analysis.stativeViolation]
  refine if_congr ?_ rfl rfl
  rw [Bool.and_eq_true, Bool.and_eq_true, decide_eq_true_iff, Bool.not_eq_true', Bool.not_eq_true',
    ← Bool.not_eq_true, ← Bool.not_eq_true, hpart, hprefix, and_assoc]
  exact Iff.rfl

theorem IsPlain.wishViolation_eq (h : m.IsPlain) :
    (m.analysis word).wishViolation =
      if m.Breaks .wishWithAspect then some .wishWithAspect else none := by
  have hslot : Affix.slot? ("-" ++ "jaj") .verb = some .v9 := by decide +kernel
  have hpart : (m.analysis word).hasPart "-jaj:v" = true ↔ m.Has .v9 "jaj" :=
    h.hasPart_iff hslot (by decide)
  rw [Analysis.wishViolation]
  refine if_congr ?_ rfl rfl
  rw [Bool.and_eq_true, hpart, h.isSome_suffix?_iff (by decide)]
  exact Iff.rfl

/-- The checks find the first reason of a match. -/
theorem IsPlain.violation?_eq (h : m.IsPlain) :
    (m.analysis word).violation? = m.firstBroken? := by
  have hcons : ∀ violation rest,
      List.find? (fun violation => decide (m.Breaks violation)) (violation :: rest) =
        (if m.Breaks violation then some violation else none).or
          (rest.find? fun violation => decide (m.Breaks violation)) := by
    intro violation rest
    rw [List.find?_cons]
    by_cases hbroken : m.Breaks violation <;> simp [hbroken]
  rw [Analysis.violation?, h.genderViolation_eq, h.requirementViolation_eq,
    h.indefiniteViolation_eq, h.stativeViolation_eq, h.nominalizationViolation_eq,
    h.wishViolation_eq, firstBroken?, reasons]
  simp only [hcons, List.find?_nil, Option.or_none, Option.or_assoc]

end Match

/-! ## Headwords without entry -/

/-- The class of the words on a list. -/
def HeadwordList.wordClass : HeadwordList → WordClass
  | .nouns => .noun
  | .verbs | .statives => .verb

namespace Lexicon

variable {lexicon : Lexicon} {kind : TemplateKind} {word : Text}

/-- A listed word is the name of an entry, or it is listed in every lexicon. -/
theorem IsListed.exists_entry {list : HeadwordList} (h : lexicon.IsListed list word)
    (hvalue : word ∉ Affix.valueVerbs) :
    ∃ entry ∈ lexicon.entries, entry.IsOrdinary ∧ entry.wordClass = list.wordClass ∧
      entry.name = word := by
  cases list with
  | nouns =>
    rcases h with ⟨entry, hmem, hordinary, hclass, _, hname⟩ |
      ⟨⟨entry, hmem, hordinary, hclass, _, hname⟩, _⟩ <;>
      exact ⟨entry, hmem, hordinary, hclass, hname⟩
  | verbs =>
    rcases h with ⟨entry, hmem, hordinary, hclass, _, hname⟩ |
      ⟨hlisted | ⟨entry, hmem, hordinary, hclass, _, hname⟩, _⟩
    · exact ⟨entry, hmem, hordinary, hclass, hname⟩
    · exact absurd hlisted hvalue
    · exact ⟨entry, hmem, hordinary, hclass, hname⟩
  | statives =>
    rcases h with (hlisted | ⟨entry, hmem, hordinary, hclass, _, _, hname⟩) |
      ⟨⟨entry, hmem, hordinary, hclass, _, _, hname⟩, _⟩
    · exact absurd hlisted hvalue
    · exact ⟨entry, hmem, hordinary, hclass, hname⟩
    · exact ⟨entry, hmem, hordinary, hclass, hname⟩

/-- A headword without entry is a numeral, a pronoun or a form of lo'. -/
theorem IsHeadword.mem_of_homographs_eq_nil (h : lexicon.IsHeadword kind word)
    (hnone : lexicon.homographs word kind.headwordClass = []) :
    word ∈ Affix.numerals ++ Affix.verbalPronouns ++ Affix.valueVerbs := by
  have hlisted : ∀ list, lexicon.IsListed list word → list.wordClass = kind.headwordClass →
      word ∈ Affix.valueVerbs := by
    intro list hlist hclass
    by_contra hvalue
    obtain ⟨entry, hmem, hordinary, hentry, hname⟩ := hlist.exists_entry hvalue
    have hhomograph : entry ∈ lexicon.homographs word kind.headwordClass :=
      mem_homographs.mpr ⟨hmem, hname, hordinary.1, hentry.trans hclass⟩
    exact List.ne_nil_of_mem hhomograph hnone
  cases kind with
  | noun => exact List.mem_append_right _ (hlisted .nouns h rfl)
  | number => exact List.mem_append_left _ (List.mem_append_left _ h)
  | pronounVerb => exact List.mem_append_left _ (List.mem_append_right _ h)
  | verb => exact List.mem_append_right _ (hlisted .verbs h rfl)
  | stativeVerb => exact List.mem_append_right _ (hlisted .statives h rfl)

end Lexicon

namespace Analyzer

variable {lexicon : Lexicon} {word : Text} {analysis : Analysis} {m : Match}

theorem exists_reading_of_yields (h : m.Yields lexicon word analysis) :
    ∃ d suffixes, lexicon.Reading m.kind word d suffixes ∧ Capture.Holds m.captures d suffixes := by
  obtain ⟨hread, _⟩ := Option.filter_eq_some_iff.mp h.captured
  obtain ⟨d, suffixes, hreading, hcaptures⟩ := exists_reading_of_captures hread
  exact ⟨d, suffixes, hreading, hcaptures ▸ Capture.holds_ofPieces hreading.attached⟩

theorem isPlain_of_yields (h : m.Yields lexicon word analysis) (hheadword : analysis.headword ≠ [])
    (hid : ¬ IsAffixPart analysis.entryId) : m.IsPlain := by
  obtain ⟨d, suffixes, hreading, hholds⟩ := exists_reading_of_yields h
  obtain ⟨_, hentry, rfl⟩ := h
  have hname : m.headword ≠ [] := hheadword
  have hfront := hreading.division.front
  rw [Lexicon.kind_template, ← hholds.front] at hfront
  refine ⟨?suffixes, hfront, hname, ?own⟩
  case suffixes =>
    rw [hholds.suffixes]
    exact hreading.attached
  case own =>
    cases hchosen : m.chosen with
    | none =>
      rw [hchosen] at hentry
      have hnone := (none_mem_entriesOf hentry).resolve_left hname
      have hlisted := hreading.division.headword
      rw [← hholds.headword] at hlisted
      have htable : ∀ word ∈ Affix.numerals ++ Affix.verbalPronouns ++ Affix.valueVerbs,
          ':' ∉ word := by
        decide
      rw [Match.own_of_none hchosen]
      exact fun haffix => htable _ (hlisted.mem_of_homographs_eq_nil hnone) haffix.colon_mem
    | some entry =>
      have hown : m.own = (m.analysis word).entryId := Match.own_of_some hchosen
      rw [hown]
      exact hid

/-- An analysis of a template is made of its match. -/
theorem exists_yields_of_mem {kind : TemplateKind} {found : Analysis}
    (h : found ∈ contribution lexicon kind word) :
    ∃ m : Match, m.Yields lexicon word (complete found) := by
  obtain ⟨d, suffixes, chosen, hreading, hchosen, _, rfl⟩ := exists_reading_of_mem h
  have hholds : Capture.Holds (Capture.ofPieces 0 (Template.piecesOf d suffixes)) d suffixes :=
    Capture.holds_ofPieces hreading.attached
  refine ⟨⟨kind, Capture.ofPieces 0 (Template.piecesOf d suffixes), chosen⟩, ?_, ?_, ?_⟩
  · rw [euphonicCaptures?, hreading.captures, Option.filter_some,
      if_pos (isEuphonic_iff.mpr (isEuphonic_of_mem hreading h))]
  · rw [Match.headword, hholds.headword]
    exact hchosen
  · rw [Match.analysis, hholds.ofCaptures_eq]

/-- Every analysis is made of a match, or of an entry of the other classes. -/
theorem exists_yields_or_ofEntry (hmem : analysis ∈ (ofLexicon lexicon).analyze word) :
    (∃ m : Match, m.Yields lexicon word analysis) ∨
      ∃ entry, analysis = complete (ofEntry word entry) := by
  obtain ⟨found, hfound, rfl⟩ := mem_analyze.mp hmem
  rcases of_mem_contributions hfound with ⟨kind, hfound⟩ | ⟨entry, _, rfl⟩
  · exact .inl (exists_yields_of_mem hfound)
  · exact .inr ⟨entry, rfl⟩

/-- A word of the other classes breaks nothing. -/
theorem violation?_ofEntry {entry : Entry} (hid : ¬ IsAffixPart entry.id) :
    (ofEntry word entry).violation? = none := by
  have hpart : ∀ text : Text, (ofEntry word entry).hasPart ("-" ++ text ++ ":v") = false := by
    intro text
    rw [Analysis.hasPart, decide_eq_false_iff_not]
    intro hpart
    exact hid ⟨text, .inl (List.mem_singleton.mp hpart).symm⟩
  have hprefix : ∀ allowed, (ofEntry word entry).allowsPrefix allowed = true := fun _ => rfl
  have hgender : (ofEntry word entry).genderViolation = none := rfl
  have hrequirement : (ofEntry word entry).requirementViolation = none := by
    rw [Analysis.requirementViolation, Analysis.requirements, List.findSome?_singleton]
    show (if (ofEntry word entry).hasPart "-vIS:v" && _ then _ else none) = none
    rw [show (ofEntry word entry).hasPart "-vIS:v" = false from hpart "vIS", if_neg (by simp)]
  have hindefinite : (ofEntry word entry).indefiniteViolation = none := by
    rw [Analysis.indefiniteViolation, hprefix, if_neg (by simp)]
  have hstative : (ofEntry word entry).stativeViolation = none := by
    rw [Analysis.stativeViolation, hprefix, if_neg (by simp)]
  have hnominalization : (ofEntry word entry).nominalizationViolation = none := by
    have hplace : (ofEntry word entry).parts.findIdx? (· = "-ghach:v".toList) = none := by
      rw [List.findIdx?_eq_none_iff]
      intro part hmem
      have hne : part ≠ "-ghach:v" := by
        rintro rfl
        exact hid ⟨"ghach", .inl (List.mem_singleton.mp hmem).symm⟩
      exact decide_eq_false hne
    rw [Analysis.nominalizationViolation, hplace]
    exact ite_self _
  have hwish : (ofEntry word entry).wishViolation = none := by
    rw [Analysis.wishViolation, show (ofEntry word entry).hasPart "-jaj:v" = false from hpart "jaj",
      if_neg (by simp)]
  rw [Analysis.violation?, hgender, hrequirement, hindefinite, hstative, hnominalization, hwish]
  rfl

/-- The reason for which an analysis with a headword is ungrammatical is the first one that its match
has, if it has any, provided that the identifier of its entry does not look like the part of an
affix. -/
theorem ungrammatical_eq_first (hmem : analysis ∈ (ofLexicon lexicon).analyze word)
    (hheadword : analysis.headword ≠ []) (hid : ¬ IsAffixPart analysis.entryId) :
    analysis.broad = .other ∧ analysis.ungrammatical = none ∨
      (∃ m : Match, m.Yields lexicon word analysis) ∧
        ∀ m : Match, m.Yields lexicon word analysis →
          analysis.ungrammatical = m.firstBroken?.map Violation.message := by
  rcases exists_yields_or_ofEntry hmem with hmatch | ⟨entry, rfl⟩
  · refine .inr ⟨hmatch, fun m h => ?_⟩
    have hplain := isPlain_of_yields h hheadword hid
    rw [h.completed, ← hplain.violation?_eq]
    rfl
  · refine .inl ⟨rfl, ?_⟩
    show (ofEntry word entry).violation?.map Violation.message = none
    rw [violation?_ofEntry hid, Option.map_none]

/-- A noun that is made of a verb with no other suffix, and takes a suffix for another gender. -/
theorem ungrammatical_eq_first_fighting :
    ∃ analysis ∈ (ofLexicon fighting).analyze "SuvghachDu'", analysis.headword ≠ [] ∧
      ¬ IsAffixPart analysis.entryId ∧
      analysis.ungrammatical = some "-ghach WITHOUT OTHER SUFFIX".toList ∧
      (analysis.broad = .other ∧ analysis.ungrammatical = none ∨
        (∃ m : Match, m.Yields fighting "SuvghachDu'" analysis) ∧
          ∀ m : Match, m.Yields fighting "SuvghachDu'" analysis →
            analysis.ungrammatical = m.firstBroken?.map Violation.message) := by
  have hfound : ∃ analysis ∈ (ofLexicon fighting).analyze "SuvghachDu'", analysis.headword ≠ [] ∧
      ¬ IsAffixPart analysis.entryId ∧
      analysis.ungrammatical = some "-ghach WITHOUT OTHER SUFFIX".toList := by
    decide +kernel
  obtain ⟨analysis, hmem, hheadword, hid, hreason⟩ := hfound
  exact ⟨analysis, hmem, hheadword, hid, hreason, ungrammatical_eq_first hmem hheadword hid⟩

end Analyzer

end Klingon
