import Klingon.Analyzer
import Klingon.Json.Writer
import Klingon.Lexicon.Export
import Klingon.Proofs.Json
import Klingon.Proofs.Lexicon
import Klingon.Proofs.Text.Bytes

/-!
# What an export says

An export describes each entry by an object, and an object says the same in whatever order its members
are written. So two exports of one dictionary are one lexicon, whose entries are in the order of the
bytes of their identifiers, and words have the same analyses with it. This is shown in two parts: what
is read of an export does not change with the order of its members, and what is read of it is what it
describes.
-/

namespace Klingon.Lexicon

open Json (HasField IsRecord LacksField Member Reordered)
open Json.Writer (object string null)

variable {value other : Json} {id : Text} {entry : Entry} {fields members glosses : List Member}
  {definition : List (Text × Text)} {version : Option Text} {entries : Json}

/-! ## The order of members -/

theorem glosses?_reordered (h : Reordered 1 value other) : glosses? value = glosses? other := by
  have hread : ∀ (_ : Text) (v w : Json), Reordered 0 v w → glossValue? v = glossValue? w :=
    fun _ _ _ h => congrArg glossValue? h
  rw [glosses?, glosses?, h.members?_eq hread]

theorem entry?_reordered (h : Reordered 2 value other) : entry? id value = entry? id other := by
  have hrecord := h.rel_record? ["entry_name", "part_of_speech", "definition"]
  unfold entry?
  generalize value.record? ["entry_name", "part_of_speech", "definition"] = fields,
    other.record? ["entry_name", "part_of_speech", "definition"] = fields' at hrecord
  -- Both records have the fields that an entry needs, or both lack the same one.
  cases hrecord with
  | none => rfl
  | some hfields =>
    cases hfields with
    | nil => rfl
    | cons hname hfields =>
    cases hname with
    | none => rfl
    | some hname =>
    cases hfields with
    | nil => rfl
    | cons hpos hfields =>
    cases hpos with
    | none => rfl
    | some hpos =>
    cases hfields with
    | nil => rfl
    | cons hdefinition hfields =>
    cases hfields with
    | cons _ _ => rfl
    | nil =>
    simp only [Option.bind_eq_bind, Option.bind_some]
    rw [hname.text?_eq, hpos.text?_eq]
    cases hdefinition with
    | none => rfl
    | some hdefinition => simp only [glosses?_reordered hdefinition]

/-- The entries of an object are the same in whatever order they, their fields and their glosses are
written. -/
theorem entries_reordered (h : Reordered 3 value other) :
    value.members? entry? = other.members? entry? :=
  h.members?_eq fun _ _ _ => entry?_reordered

/-! ## What is described -/

/-- A definition binds the locales of the glosses that are strings. The others have to be sound. -/
structure IsDefinition (glosses : List Member) (definition : List (Text × Text)) : Prop where
  record : IsRecord glosses
  sound : ∀ gloss ∈ glosses, gloss.2.isSound glossDepth = true
  increasing : Ordered.Increasing definition
  mem_iff : ∀ locale text,
    (locale, text) ∈ definition ↔ HasField glosses locale (.string (some text))

/-- The definition that the fields of an entry give. It may be left out. -/
inductive GivesDefinition (fields : List Member) : List (Text × Text) → Prop
  | glosses {glosses : List Member} {definition : List (Text × Text)}
      (field : HasField fields "definition" (.object glosses))
      (binds : IsDefinition glosses definition) : GivesDefinition fields definition
  | absent (lacks : LacksField fields "definition") : GivesDefinition fields []

/-- The fields of an object describe an entry, whose identifier is the key of the object. -/
structure Describes (fields : List Member) (entry : Entry) : Prop where
  record : IsRecord fields
  name : HasField fields "entry_name" (.string (some entry.name))
  pos : HasField fields "part_of_speech" (.string (some entry.pos))
  definition : GivesDefinition fields entry.definition

/-- The version that the fields of an export give. It may be null or left out. -/
inductive GivesVersion (fields : List Member) : Option Text → Prop
  | text {version : Text} (field : HasField fields "version" (.string (some version))) :
      GivesVersion fields (some version)
  | null (field : HasField fields "version" .null) : GivesVersion fields none
  | absent (lacks : LacksField fields "version") : GivesVersion fields none

/-- The fields of an export with this version and these entries. -/
structure IsExport (fields : List Member) (version : Option Text) (entries : Json) : Prop where
  record : IsRecord fields
  version : GivesVersion fields version
  entries : HasField fields "qawHaq" entries

/-- The entries of an export: no identifier is repeated, and each member describes an entry. -/
structure IsDictionary (members : List Member) : Prop where
  distinct : (members.map (·.1)).Nodup
  described : ∀ member ∈ members, ∃ fields entry,
    member = (some entry.id, .object fields) ∧ Describes fields entry

/-! ## What is read -/

/-- The text of a gloss, under its locale. -/
def textGloss? (gloss : Text × Json) : Option (Text × Text) :=
  gloss.2.text?.map fun text => (gloss.1, text)

theorem textGloss?_eq_some_iff {locale text : Text} {gloss : Text × Json} :
    textGloss? gloss = some (locale, text) ↔ gloss = (locale, .string (some text)) := by
  obtain ⟨key, value⟩ := gloss
  simp [textGloss?, Json.text?_eq_some_iff, and_comm]

theorem glosses?_eq_filterMap (value : Json) :
    glosses? value = (value.members? fun _ => glossValue?).map (·.filterMap textGloss?) := by
  rw [glosses?, Option.map_eq_bind]
  rfl

theorem glossValue?_eq_some_iff {found : Json} :
    glossValue? value = some found ↔ value.isSound glossDepth = true ∧ value = found := by
  rw [glossValue?]
  split <;> simp_all

/-- The glosses of a definition are read as what they bind. -/
theorem IsDefinition.glosses?_eq (h : IsDefinition glosses definition) :
    glosses? (.object glosses) = some definition := by
  have hread : ∀ gloss ∈ glosses, ∃ locale value,
      gloss.1 = some locale ∧ glossValue? gloss.2 = some value := by
    intro gloss hmem
    obtain ⟨locale, hlocale⟩ := Option.isSome_iff_exists.mp (h.record.texts gloss hmem)
    exact ⟨locale, gloss.2, hlocale, if_pos (h.sound gloss hmem)⟩
  obtain ⟨values, hvalues⟩ := Json.exists_members?_eq hread
  have hincreasing : Ordered.Increasing (values.filterMap textGloss?) := by
    refine (Json.increasing_of_members? hvalues).filterMap fun gloss pair hpair => ?_
    rw [textGloss?_eq_some_iff.mp hpair]
  rw [glosses?_eq_filterMap, hvalues, Option.map_some, Option.some_inj]
  refine hincreasing.eq_of_mem_iff h.increasing fun ⟨locale, text⟩ => ?_
  simp only [List.mem_filterMap, textGloss?_eq_some_iff, exists_eq_right,
    Json.mem_of_members? h.record.distinct hvalues, h.mem_iff]
  constructor
  · rintro ⟨value, hmem, hvalue⟩
    obtain ⟨_, rfl⟩ := glossValue?_eq_some_iff.mp hvalue
    exact hmem
  · intro hmem
    exact ⟨_, hmem, glossValue?_eq_some_iff.mpr ⟨h.sound _ hmem, rfl⟩⟩

/-- An object is read as the entry that it describes. -/
theorem Describes.reads (h : Describes fields entry) :
    entry? entry.id (.object fields) = some entry := by
  have hname := Json.field?_of_hasField h.record.distinct h.name
  have hpos := Json.field?_of_hasField h.record.distinct h.pos
  unfold entry?
  rw [h.record.record?_eq]
  cases h with
  | mk hrecord _ _ hdefinition =>
  obtain ⟨id, name, pos, definition⟩ := entry
  cases hdefinition with
  | glosses hfield hbinds =>
    have hfield := Json.field?_of_hasField hrecord.distinct hfield
    simp only [List.mapM_cons, List.mapM_nil, hname, hpos, hfield]
    simp [Json.text?, hbinds.glosses?_eq]
  | absent hlacks =>
    have hfield := Json.field?_of_lacksField hlacks
    simp only [List.mapM_cons, List.mapM_nil, hname, hpos, hfield]
    simp [Json.text?]

/-- What an export has for a version is read as it. -/
theorem GivesVersion.optionalText?_eq (hrecord : IsRecord fields) (h : GivesVersion fields version) :
    ∃ field, Json.field? fields "version" = some field ∧
      Json.optionalText? field = some version := by
  cases h with
  | text hfield => exact ⟨_, Json.field?_of_hasField hrecord.distinct hfield, rfl⟩
  | null hfield => exact ⟨_, Json.field?_of_hasField hrecord.distinct hfield, rfl⟩
  | absent hlacks => exact ⟨_, Json.field?_of_lacksField hlacks, rfl⟩

theorem IsExport.ofJson?_eq (h : IsExport fields version entries) :
    ofJson? (.object fields) =
      (entries.members? entry?).map fun found => { ofEntries (found.map (·.2)) with version } := by
  obtain ⟨field, hfield, hversion⟩ := h.version.optionalText?_eq h.record
  have hentries := Json.field?_of_hasField h.record.distinct h.entries
  rw [ofJson?, h.record.record?_eq]
  simp only [List.mapM_cons, List.mapM_nil, hfield, hentries]
  simp [hversion, Option.map_eq_bind]

/-! ## The lexicon of an export -/

theorem IsDictionary.exists_members?_eq (h : IsDictionary members) :
    ∃ found, (Json.object members).members? entry? = some found := by
  refine Json.exists_members?_eq fun member hmem => ?_
  obtain ⟨fields, entry, rfl, hentry⟩ := h.described member hmem
  exact ⟨entry.id, entry, rfl, hentry.reads⟩

/-- What is read under an identifier is the entry that is described there. -/
theorem IsDictionary.mem_iff {found : List (Text × Entry)} (h : IsDictionary members)
    (hfound : (Json.object members).members? entry? = some found) :
    (id, entry) ∈ found ↔ id = entry.id ∧
      ∃ fields, HasField members entry.id (.object fields) ∧ Describes fields entry := by
  rw [Json.mem_of_members? h.distinct hfound]
  constructor
  · rintro ⟨value, hmem, hread⟩
    obtain ⟨fields, described, heq, hdescribed⟩ := h.described _ hmem
    obtain ⟨hid, rfl⟩ := Prod.ext_iff.mp heq
    cases hid
    rw [hdescribed.reads] at hread
    cases hread
    exact ⟨rfl, fields, hmem, hdescribed⟩
  · rintro ⟨rfl, fields, hmem, hdescribed⟩
    exact ⟨.object fields, hmem, hdescribed.reads⟩

/-- The entries that are read are kept, in the order of the bytes of their identifiers. -/
theorem IsDictionary.entries_eq {found : List (Text × Entry)} (h : IsDictionary members)
    (hfound : (Json.object members).members? entry? = some found) :
    (ofEntries (found.map (·.2))).entries = found.map (·.2) ∧
      (found.map (·.2)).Pairwise fun first second => first.id.bytes < second.id.bytes := by
  have hincreasing := Json.increasing_of_members? hfound
  have hids : (found.map (·.2)).map (·.id) = found.map (·.1) := by
    rw [List.map_map]
    exact List.map_congr_left fun (id, entry) hmem => ((h.mem_iff hfound).mp hmem).1.symm
  constructor
  · exact entries_ofEntries (hids ▸ hincreasing.nodup)
  · rw [Ordered.Increasing, ← hids] at hincreasing
    exact (List.pairwise_map.mp hincreasing).imp Text.bytes_lt_of_compare

section Exports

variable {document document' : Text} {fields' : List Member}

/-- Exports of one version with the same entries in any order are read alike, also if some of their
entries cannot be read. -/
theorem ofExport?_reordered (hdocument : Json.ofText? document = some (.object fields))
    (hdocument' : Json.ofText? document' = some (.object fields'))
    (hexport : IsExport fields version value) (hexport' : IsExport fields' version other)
    (hreordered : Reordered 3 value other) : ofExport? document = ofExport? document' := by
  rw [ofExport?, ofExport?, hdocument, hdocument', Option.bind_some, Option.bind_some,
    hexport.ofJson?_eq, hexport'.ofJson?_eq, entries_reordered hreordered]

/-- The lexicon of an export has its version and the entries that it describes, in the order of the
bytes of their identifiers. -/
theorem exists_ofExport?_eq (hdocument : Json.ofText? document = some (.object fields))
    (hexport : IsExport fields version (.object members)) (hdictionary : IsDictionary members) :
    ∃ lexicon, ofExport? document = some lexicon ∧ lexicon.version = version ∧
      lexicon.entries.Pairwise (fun first second => first.id.bytes < second.id.bytes) ∧
      ∀ entry, entry ∈ lexicon.entries ↔
        ∃ fields, HasField members entry.id (.object fields) ∧ Describes fields entry := by
  obtain ⟨found, hfound⟩ := hdictionary.exists_members?_eq
  obtain ⟨hentries, hpairwise⟩ := hdictionary.entries_eq hfound
  refine ⟨{ ofEntries (found.map (·.2)) with version }, ?_, rfl, ?_, fun entry => ?_⟩
  · rw [ofExport?, hdocument, Option.bind_some, hexport.ofJson?_eq, hfound]
    rfl
  · rw [hentries]
    exact hpairwise
  · rw [hentries, List.mem_map]
    constructor
    · rintro ⟨⟨id, _⟩, hmem, rfl⟩
      exact ((hdictionary.mem_iff hfound).mp hmem).2
    · exact fun h => ⟨(entry.id, entry), (hdictionary.mem_iff hfound).mpr ⟨rfl, h⟩, rfl⟩

/-- Two exports of one version whose entries are the same, in whatever order these, their fields and
their glosses are written, are one lexicon. It has the entries that are described, with the glosses
that are strings, in the order of the bytes of their identifiers. So every word has the same analyses
with both, in the same order. -/
theorem exports_reordered (hdocument : Json.ofText? document = some (.object fields))
    (hdocument' : Json.ofText? document' = some (.object fields'))
    (hexport : IsExport fields version (.object members)) (hexport' : IsExport fields' version other)
    (hdictionary : IsDictionary members) (hreordered : Reordered 3 (.object members) other) :
    ∃ lexicon, ofExport? document = some lexicon ∧ ofExport? document' = some lexicon ∧
      lexicon.version = version ∧
      lexicon.entries.Pairwise (fun first second => first.id.bytes < second.id.bytes) ∧
      (∀ entry, entry ∈ lexicon.entries ↔
        ∃ fields, HasField members entry.id (.object fields) ∧ Describes fields entry) ∧
      ∀ word, (ofExport? document).map (fun lexicon => (Analyzer.ofLexicon lexicon).analyze word) =
        (ofExport? document').map fun lexicon => (Analyzer.ofLexicon lexicon).analyze word := by
  have heq := ofExport?_reordered hdocument hdocument' hexport hexport' hreordered
  obtain ⟨lexicon, hlexicon, hversion, hordered, hmem⟩ :=
    exists_ofExport?_eq hdocument hexport hdictionary
  exact ⟨lexicon, hlexicon, heq ▸ hlexicon, hversion, hordered, hmem, fun word => by rw [heq]⟩

/-! ### Two exports of two entries -/

/-- Glosses in two languages, one of which is missing. -/
def foodGlosses : List Member :=
  [(some "en", .string (some "food")), (some "de", .null)]

def foodFields (glosses : List Member) : List Member :=
  [(some "entry_name", .string (some "Soj")), (some "part_of_speech", .string (some "n")),
    (some "definition", .object glosses)]

def fireFields : List Member :=
  [(some "entry_name", .string (some "qul")), (some "part_of_speech", .string (some "n"))]

def foodAndFire : List Member :=
  [(some "Soj:n", .object (foodFields foodGlosses)), (some "qul:n", .object fireFields)]

/-- The entries with their fields and glosses, written from the last to the first. -/
def fireAndFood : List Member :=
  [(some "qul:n", .object fireFields.reverse),
    (some "Soj:n", .object (foodFields foodGlosses.reverse).reverse)]

def foodAndFireExport : Text :=
  let food := object [("entry_name", string "Soj"), ("part_of_speech", string "n"),
    ("definition", object [("en", string "food"), ("de", null)])]
  let fire := object [("entry_name", string "qul"), ("part_of_speech", string "n")]
  object [("version", string "1"), ("qawHaq", object [("Soj:n", food), ("qul:n", fire)])]

def fireAndFoodExport : Text :=
  let food := object [("definition", object [("de", null), ("en", string "food")]),
    ("part_of_speech", string "n"), ("entry_name", string "Soj")]
  let fire := object [("part_of_speech", string "n"), ("entry_name", string "qul")]
  object [("qawHaq", object [("qul:n", fire), ("Soj:n", food)]), ("version", string "1")]

theorem describes_food : Describes (foodFields foodGlosses)
    { id := "Soj:n", name := "Soj", pos := "n", definition := [("en", "food")] } where
  record := ⟨by decide, by decide⟩
  name := .head _
  pos := .tail _ (.head _)
  definition := by
    refine .glosses (.tail _ (.tail _ (.head _))) ⟨⟨by decide, by decide⟩, by decide, ?_, ?_⟩
    · exact List.pairwise_singleton _ _
    · intro locale text
      simp [HasField, foodGlosses]

theorem describes_fire : Describes fireFields { id := "qul:n", name := "qul", pos := "n" } where
  record := ⟨by decide, by decide⟩
  name := .head _
  pos := .tail _ (.head _)
  definition := .absent (by decide)

theorem isDictionary_foodAndFire : IsDictionary foodAndFire where
  distinct := by decide
  described := by
    simp only [foodAndFire, List.forall_mem_cons]
    exact ⟨⟨_, _, rfl, describes_food⟩, ⟨_, _, rfl, describes_fire⟩, nofun⟩

theorem reordered_foodAndFire : Reordered 3 (.object foodAndFire) (.object fireAndFood) := by
  have hglosses : Reordered 1 (.object foodGlosses) (.object foodGlosses.reverse) :=
    .inr (.intro (by decide) (List.reverse_perm _).symm (List.forall₂_same.mpr fun _ _ => ⟨rfl, rfl⟩))
  have hfood : Reordered 2 (.object (foodFields foodGlosses))
      (.object (foodFields foodGlosses.reverse).reverse) :=
    .inr (.intro (by decide) (List.reverse_perm _).symm
      (.cons ⟨rfl, hglosses⟩ (.cons ⟨rfl, .refl _ _⟩ (.cons ⟨rfl, .refl _ _⟩ .nil))))
  have hfire : Reordered 2 (.object fireFields) (.object fireFields.reverse) :=
    .inr (.intro (by decide) (List.reverse_perm _).symm
      (.cons ⟨rfl, .refl _ _⟩ (.cons ⟨rfl, .refl _ _⟩ .nil)))
  exact .inr (.intro (by decide) (List.reverse_perm _).symm
    (.cons ⟨rfl, hfire⟩ (.cons ⟨rfl, hfood⟩ .nil)))

set_option maxRecDepth 4000 in
theorem exports_reordered_foodAndFire :
    ∃ lexicon, ofExport? foodAndFireExport = some lexicon ∧
      ofExport? fireAndFoodExport = some lexicon ∧ lexicon.version = some "1" ∧
      lexicon.entries.Pairwise (fun first second => first.id.bytes < second.id.bytes) ∧
      { id := "Soj:n", name := "Soj", pos := "n", definition := [("en", "food")] } ∈ lexicon.entries ∧
      { id := "qul:n", name := "qul", pos := "n" } ∈ lexicon.entries := by
  have hdocument : Json.ofText? foodAndFireExport = some (.object
      [(some "version", .string (some "1")), (some "qawHaq", .object foodAndFire)]) := rfl
  have hdocument' : Json.ofText? fireAndFoodExport = some (.object
      [(some "qawHaq", .object fireAndFood), (some "version", .string (some "1"))]) := rfl
  obtain ⟨lexicon, hlexicon, hlexicon', hversion, hordered, hmem, _⟩ :=
    exports_reordered hdocument hdocument'
      ⟨⟨by decide, by decide⟩, .text (.head _), .tail _ (.head _)⟩
      ⟨⟨by decide, by decide⟩, .text (.tail _ (.head _)), .head _⟩
      isDictionary_foodAndFire reordered_foodAndFire
  exact ⟨lexicon, hlexicon, hlexicon', hversion, hordered, (hmem _).mpr ⟨_, .head _, describes_food⟩,
    (hmem _).mpr ⟨_, .tail _ (.head _), describes_fire⟩⟩

end Exports

end Klingon.Lexicon
