import Mathlib.Data.List.Basic
import Klingon.Proofs.Template.Ending

/-!
# The preferred division of a word

A template may divide a word in several ways. The way in which it reads the word has the first
prefix, the empty one before all others, and for this prefix the longest headword that leaves a text
the ending can spell. The captures of the reading follow each other from the start of the word to
its end.
-/

namespace Klingon

/-- A prefix, a headword and the text behind them. -/
structure Division where
  front : Text
  headword : Text
  tail : Text
  deriving DecidableEq, Repr

namespace Division

/-- Whether a division comes before another: its prefix stands earlier in a list of prefixes, or it
has the same prefix and a longer headword. -/
def Before (prefixes : List Text) (d d' : Division) : Prop :=
  prefixes.idxOf d.front < prefixes.idxOf d'.front ∨
    d.front = d'.front ∧ d'.headword.length < d.headword.length

end Division

namespace Template

variable {t : Template} {word : Text} {d d' : Division} {pieces : List (PieceRole × Text)}
  {captures : List Capture}

/-- A template divides a word if the prefix and the headword are among its own and the ending spells
the rest. -/
structure Divides (t : Template) (word : Text) (d : Division) : Prop where
  front : d.front ∈ [] :: t.prefixes
  headword : d.headword ∈ t.headwords
  word : word = d.front ++ (d.headword ++ d.tail)
  tail : ∃ suffixes, t.ending.Spells d.tail suffixes

/-- What stands behind a prefix, read from the headword on. -/
def readBehind? (t : Template) (front rest : Text) : Option (List (PieceRole × Text)) :=
  t.headwords.findSome? fun headword => do
    let tail ← Text.dropStart? headword rest
    let suffixes ← t.ending.read? tail
    return (.verbPrefix, front) :: (.headword, headword) :: suffixes

theorem read?_eq (t : Template) (word : Text) : t.read? word =
    ([] :: t.prefixes).findSome? fun front =>
      (Text.dropStart? front word).bind (t.readBehind? front) := rfl

/-- The way a headword is read behind a prefix. -/
theorem bind_read?_eq_some_iff {front headword rest : Text} :
    (do
      let tail ← Text.dropStart? headword rest
      let suffixes ← t.ending.read? tail
      return (PieceRole.verbPrefix, front) :: (.headword, headword) :: suffixes) = some pieces ↔
      ∃ tail suffixes, rest = headword ++ tail ∧ t.ending.read? tail = some suffixes ∧
        pieces = (.verbPrefix, front) :: (.headword, headword) :: suffixes := by
  simp only [Option.bind_eq_bind, Option.bind_eq_some_iff, Text.dropStart?_eq_some_iff,
    Option.pure_def, Option.some.injEq]
  constructor
  · rintro ⟨tail, hrest, suffixes, hread, rfl⟩
    exact ⟨tail, suffixes, hrest, hread, rfl⟩
  · rintro ⟨tail, suffixes, hrest, hread, rfl⟩
    exact ⟨tail, hrest, suffixes, hread, rfl⟩

/-- No headword of a list begins another one that comes later. -/
def LongestFirst (headwords : List Text) : Prop :=
  headwords.Pairwise fun a b => a <+: b → a = b

/-- Of the headwords that leave a text the ending can read, the longest is read. -/
theorem readBehind?_eq_some {front rest : Text} (hlong : LongestFirst t.headwords)
    (h : t.readBehind? front rest = some pieces) : ∃ headword tail suffixes,
      pieces = (.verbPrefix, front) :: (.headword, headword) :: suffixes ∧
      headword ∈ t.headwords ∧ rest = headword ++ tail ∧ t.ending.read? tail = some suffixes ∧
      ∀ headword' ∈ t.headwords, ∀ tail', rest = headword' ++ tail' →
        (t.ending.read? tail').isSome → headword' = headword ∨ headword'.length < headword.length := by
  rw [readBehind?, List.findSome?_eq_some_iff] at h
  obtain ⟨earlier, headword, later, hsplit, hread, hearlier⟩ := h
  obtain ⟨tail, suffixes, hrest, hsuffixes, hpieces⟩ := bind_read?_eq_some_iff.mp hread
  refine ⟨headword, tail, suffixes, hpieces, by simp [hsplit], hrest, hsuffixes, ?_⟩
  intro headword' hmem tail' hrest' hreads
  have hnot : headword' ∉ earlier := by
    intro hin
    obtain ⟨suffixes', hsuffixes'⟩ := Option.isSome_iff_exists.mp hreads
    have hnone := hearlier headword' hin
    rw [bind_read?_eq_some_iff.mpr ⟨tail', suffixes', hrest', hsuffixes', rfl⟩] at hnone
    cases hnone
  have hrelated : headword' = headword ∨ headword' ∈ later := by
    rw [hsplit] at hmem
    simpa [hnot] using hmem
  rcases hrelated with heq | hlater
  · exact .inl heq
  · rw [LongestFirst, hsplit, List.pairwise_append] at hlong
    have hbegins := List.rel_of_pairwise_cons hlong.2.1 hlater
    rcases List.append_eq_append_iff.mp (hrest.symm.trans hrest') with ⟨more, hmore, _⟩ | hmore
    · exact .inl (hbegins ⟨more, hmore.symm⟩).symm
    · obtain ⟨more, hmore, _⟩ := hmore
      cases more with
      | nil => exact .inl (by rw [hmore, List.append_nil])
      | cons c more =>
        rw [hmore, List.length_append, List.length_cons]
        exact .inr (by omega)

/-- Behind a prefix a template reads what is a headword and a text that the ending spells. -/
theorem isSome_readBehind?_iff {front rest : Text} : (t.readBehind? front rest).isSome = true ↔
    ∃ headword ∈ t.headwords, ∃ tail, rest = headword ++ tail ∧
      ∃ suffixes, t.ending.Spells tail suffixes := by
  rw [readBehind?, List.findSome?_isSome_iff]
  refine exists_congr fun headword => and_congr_right fun _ => ?_
  simp only [Option.isSome_iff_exists, bind_read?_eq_some_iff, ← Ending.isSome_read?_iff]
  constructor
  · rintro ⟨pieces, tail, suffixes, hrest, hsuffixes, _⟩
    exact ⟨tail, hrest, suffixes, hsuffixes⟩
  · rintro ⟨tail, hrest, suffixes, hsuffixes⟩
    exact ⟨_, tail, suffixes, hrest, hsuffixes, rfl⟩

/-- A template accepts the words it divides. -/
theorem accepts_iff : t.accepts word = true ↔ ∃ d, t.Divides word d := by
  rw [accepts, read?_eq, List.findSome?_isSome_iff]
  constructor
  · rintro ⟨front, hfront, h⟩
    obtain ⟨pieces, hpieces⟩ := Option.isSome_iff_exists.mp h
    obtain ⟨rest, hrest, hbehind⟩ := Option.bind_eq_some_iff.mp hpieces
    obtain ⟨headword, hheadword, tail, rfl, htail⟩ :=
      isSome_readBehind?_iff.mp (Option.isSome_of_eq_some hbehind)
    exact ⟨⟨front, headword, tail⟩, hfront, hheadword, Text.dropStart?_eq_some_iff.mp hrest, htail⟩
  · rintro ⟨⟨front, headword, tail⟩, hfront, hheadword, hword, htail⟩
    refine ⟨front, hfront, ?_⟩
    rw [Text.dropStart?_eq_some_iff.mpr hword, Option.bind_some]
    exact isSome_readBehind?_iff.mpr ⟨headword, hheadword, tail, rfl, htail⟩

/-- What comes later in a list and not before has a greater place. -/
theorem idxOf_lt_of_mem_later {earlier later : List Text} {front front' : Text}
    (hfront : front ∉ earlier) (hfront' : front' ∉ earlier) (hne : front' ≠ front) :
    (earlier ++ front :: later).idxOf front < (earlier ++ front :: later).idxOf front' := by
  rw [List.idxOf_append_of_notMem hfront, List.idxOf_append_of_notMem hfront',
    List.idxOf_cons_self, List.idxOf_cons_ne _ hne.symm]
  omega

/-- A template reads a word by the first of its divisions. -/
theorem exists_first_of_read? (hlong : LongestFirst t.headwords) (h : t.read? word = some pieces) :
    ∃ d suffixes, t.Divides word d ∧ t.ending.read? d.tail = some suffixes ∧
      pieces = (.verbPrefix, d.front) :: (.headword, d.headword) :: suffixes ∧
      ∀ d', t.Divides word d' → d' = d ∨ d.Before ([] :: t.prefixes) d' := by
  rw [read?_eq, List.findSome?_eq_some_iff] at h
  obtain ⟨earlier, front, later, hsplit, hread, hearlier⟩ := h
  obtain ⟨rest, hrest, hbehind⟩ := Option.bind_eq_some_iff.mp hread
  obtain ⟨headword, tail, suffixes, hpieces, hmem, rfl, hsuffixes, hlongest⟩ :=
    readBehind?_eq_some hlong hbehind
  rw [Text.dropStart?_eq_some_iff] at hrest
  have hdivides : t.Divides word ⟨front, headword, tail⟩ :=
    ⟨by simp [hsplit], hmem, hrest, suffixes, Ending.spells_of_read? hsuffixes⟩
  refine ⟨⟨front, headword, tail⟩, suffixes, hdivides, hsuffixes, hpieces, ?_⟩
  rintro ⟨front', headword', tail'⟩ ⟨_, hheadword', hword', hspells'⟩
  dsimp only at hheadword' hword' hspells'
  by_cases heq : front' = front
  · subst heq
    have hrest' : headword ++ tail = headword' ++ tail' :=
      List.append_cancel_left (hrest.symm.trans hword')
    rcases hlongest headword' hheadword' tail' hrest' (Ending.isSome_read?_iff.mpr hspells') with
      heq | hlt
    · subst heq
      rw [List.append_cancel_left hrest']
      exact .inl rfl
    · exact .inr (.inr ⟨rfl, hlt⟩)
  · -- A prefix that stands before the one that was read leaves a rest that is not read.
    have hnot' : front' ∉ earlier := by
      intro hin
      have hnone := hearlier front' hin
      rw [Text.dropStart?_eq_some_iff.mpr hword', Option.bind_some] at hnone
      have hsome : (t.readBehind? front' (headword' ++ tail')).isSome = true :=
        isSome_readBehind?_iff.mpr ⟨headword', hheadword', tail', rfl, hspells'⟩
      rw [hnone] at hsome
      cases hsome
    have hnot : front ∉ earlier := by
      intro hin
      have hnone := hearlier front hin
      rw [hread] at hnone
      cases hnone
    refine .inr (.inl ?_)
    rw [hsplit]
    exact idxOf_lt_of_mem_later hnot hnot' heq

end Template

/-! ## Captures in a row -/

namespace Capture

/-- Captures that follow each other, the first of them at the given byte. None is empty. -/
def InRow (start : Nat) : List Capture → Prop
  | [] => True
  | capture :: rest =>
    capture.text ≠ [] ∧ capture.start = start ∧ InRow (start + capture.text.byteLength) rest

theorem inRow_ofPieces (start : Nat) (pieces : List (PieceRole × Text)) :
    InRow start (ofPieces start pieces) := by
  fun_induction ofPieces start pieces with
  | case1 => trivial
  | case2 start role rest ih => exact ih
  | case3 start role text rest htext ih => exact ⟨htext, rfl, ih⟩

theorem flatten_ofPieces (start : Nat) (pieces : List (PieceRole × Text)) :
    ((ofPieces start pieces).map (·.text)).flatten = (pieces.map (·.2)).flatten := by
  fun_induction ofPieces start pieces with
  | case1 => rfl
  | case2 start role rest ih => exact ih
  | case3 start role text rest htext ih =>
    rw [List.map_cons, List.flatten_cons, ih]
    rfl

end Capture

end Klingon
