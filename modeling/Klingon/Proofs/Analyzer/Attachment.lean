import Klingon.Analyzer
import Klingon.Proofs.Template.Grammar

/-!
# How the suffixes of a reading are recorded

A suffix is recorded at its position, with the rover behind it and the class of the word that it is
attached to. The class changes at a nominalizer only. The affix tables agree with the endings: what
they say of a suffix after a word of this class is the position where the ending has it.
-/

namespace Klingon

open Analyzer (classAfter)

/-! ## Recorded suffixes -/

/-- A suffix as it is recorded. -/
structure Attachment where
  slot : SuffixSlot
  wordClass : WordClass
  text : Text
  rover : Text
  deriving DecidableEq, Repr

namespace Attachment

/-- The suffix with its class, as a part of the analysis. -/
def part (a : Attachment) : Text :=
  "-" ++ a.text ++ ":" ++ a.wordClass.key

/-- The suffix as it is written at its position. -/
def written (a : Attachment) : Text :=
  "-" ++ a.text ++ a.rover

end Attachment

/-- The suffixes that are recorded of some pieces behind a word of the given class. A rover behind a
suffix is recorded with it. -/
def attachments : WordClass → List (PieceRole × Text) → List Attachment
  | wordClass, (.suffix slot fixed, text) :: (role, following) :: rest =>
    let suffixClass := fixed.getD wordClass
    if Affix.isRover following then
      ⟨slot, suffixClass, text, following⟩ :: attachments (classAfter suffixClass text) rest
    else
      ⟨slot, suffixClass, text, []⟩ ::
        attachments (classAfter suffixClass text) ((role, following) :: rest)
  | wordClass, [(.suffix slot fixed, text)] => [⟨slot, fixed.getD wordClass, text, []⟩]
  | _, _ => []

/-- Suffixes at the positions that the affix tables give them behind a word of a class. -/
inductive Attached : WordClass → List (PieceRole × Text) → Prop
  | nil {wordClass : WordClass} : Attached wordClass []
  | cons {wordClass : WordClass} {slot : SuffixSlot} {fixed : Option WordClass} {text : Text}
      {rest : List (PieceRole × Text)}
      (hslot : Affix.slot? ("-" ++ text) (fixed.getD wordClass) = some slot)
      (hrover : Affix.isRover text = true → slot = .vr ∧ fixed = none)
      (hrest : Attached (classAfter (fixed.getD wordClass) text) rest) :
      Attached wordClass ((.suffix slot fixed, text) :: rest)

theorem eq_of_isRover {text : Text} (h : Affix.isRover text = true) :
    text = "be'" ∨ text = "qu'" := by
  simpa [Affix.isRover, Affix.rovers] using h

theorem classAfter_of_isRover {wordClass : WordClass} {text : Text} (h : Affix.isRover text = true) :
    classAfter wordClass text = wordClass := by
  unfold classAfter
  rcases eq_of_isRover h with rfl | rfl <;> cases wordClass <;> rfl

namespace Attached

variable {wordClass : WordClass} {pieces : List (PieceRole × Text)}

/-- Behind a rover the class is the same as before it. -/
theorem of_rover {role : PieceRole} {text : Text} {rest : List (PieceRole × Text)}
    (h : Attached wordClass ((role, text) :: rest)) (hrover : Affix.isRover text = true) :
    Attached wordClass rest := by
  cases h with
  | cons hslot hfree hrest =>
    obtain ⟨rfl, rfl⟩ := hfree hrover
    rwa [Option.getD_none, classAfter_of_isRover hrover] at hrest

/-- Where there is neither one suffix nor more of them there is nothing left to record. -/
theorem eq_nil (h : Attached wordClass pieces)
    (hmany : ∀ slot fixed text role following rest,
      pieces = (.suffix slot fixed, text) :: (role, following) :: rest → False)
    (hone : ∀ slot fixed text, pieces = [(.suffix slot fixed, text)] → False) : pieces = [] := by
  cases h with
  | nil => rfl
  | @cons _ slot fixed text rest _ _ _ =>
    rcases rest with _ | ⟨⟨role, following⟩, rest⟩
    · exact absurd rfl (hone slot fixed text)
    · exact absurd rfl (hmany slot fixed text role following rest)

/-- The affix tables know every recorded suffix at its position. -/
theorem slot?_eq (h : Attached wordClass pieces) : ∀ a ∈ attachments wordClass pieces,
    Affix.slot? ("-" ++ a.text) a.wordClass = some a.slot := by
  fun_induction attachments wordClass pieces with
  | case1 wordClass slot fixed text role following rest suffixClass hrover ih =>
    cases h with
    | cons hslot hfree hrest =>
      rw [List.forall_mem_cons]
      exact ⟨hslot, ih (hrest.of_rover hrover)⟩
  | case2 wordClass slot fixed text role following rest suffixClass hrover ih =>
    cases h with
    | cons hslot hfree hrest =>
      rw [List.forall_mem_cons]
      exact ⟨hslot, ih hrest⟩
  | case3 wordClass slot fixed text =>
    cases h with
    | cons hslot hfree hrest =>
      rw [List.forall_mem_singleton]
      exact hslot
  | case4 => exact fun a ha => absurd ha List.not_mem_nil

/-- The recorded suffixes with their rovers are all of the text. -/
theorem flatten_attachments (h : Attached wordClass pieces) :
    ((attachments wordClass pieces).map fun a => a.text ++ a.rover).flatten =
      (pieces.map (·.2)).flatten := by
  fun_induction attachments wordClass pieces with
  | case1 wordClass slot fixed text role following rest suffixClass hrover ih =>
    cases h with
    | cons hslot hfree hrest => simp [ih (hrest.of_rover hrover)]
  | case2 wordClass slot fixed text role following rest suffixClass hrover ih =>
    cases h with
    | cons hslot hfree hrest => simp [ih hrest]
  | case3 wordClass slot fixed text => simp
  | case4 wordClass pieces hmany hone =>
    cases h.eq_nil hmany hone
    rfl

end Attached

/-! ## Positions -/

/-- The position of a suffix. -/
def PieceRole.slot? : PieceRole → Option SuffixSlot
  | .suffix slot _ => some slot
  | _ => none

/-- The positions of the suffixes among some pieces. -/
def slotsOf (pieces : List (PieceRole × Text)) : List SuffixSlot :=
  pieces.filterMap fun piece => piece.1.slot?

/-- Suffixes are recorded in the order of the pieces. -/
theorem sublist_attachments (wordClass : WordClass) (pieces : List (PieceRole × Text)) :
    ((attachments wordClass pieces).map fun a => (some a.slot, a.text)).Sublist
      (pieces.map fun piece => (piece.1.slot?, piece.2)) := by
  fun_induction attachments wordClass pieces with
  | case1 wordClass slot fixed text role following rest suffixClass hrover ih =>
    exact List.Sublist.cons_cons _ (List.Sublist.cons _ ih)
  | case2 wordClass slot fixed text role following rest suffixClass hrover ih =>
    exact List.Sublist.cons_cons _ ih
  | case3 wordClass slot fixed text => exact List.Sublist.refl _
  | case4 => exact List.nil_sublist _

theorem sublist_slotsOf (wordClass : WordClass) (pieces : List (PieceRole × Text)) :
    ((attachments wordClass pieces).map (·.slot)).Sublist (slotsOf pieces) := by
  have h := (sublist_attachments wordClass pieces).filterMap (·.1)
  simpa [List.filterMap_map, slotsOf, Function.comp_def] using h

theorem sublist_texts (wordClass : WordClass) (pieces : List (PieceRole × Text)) :
    ((attachments wordClass pieces).map (·.text)).Sublist (pieces.map (·.2)) := by
  have h := (sublist_attachments wordClass pieces).map (·.2)
  simpa [Function.comp_def] using h

/-- Only rovers are not recorded at their own positions. -/
theorem Attached.mem_slots {wordClass : WordClass} {pieces : List (PieceRole × Text)}
    {slot : SuffixSlot} (h : Attached wordClass pieces) (hmem : slot ∈ slotsOf pieces)
    (hfixed : slot ≠ .vr) : slot ∈ (attachments wordClass pieces).map (·.slot) := by
  fun_induction attachments wordClass pieces with
  | case1 wordClass first fixed text role following rest suffixClass hrover ih =>
    cases h with
    | cons hslot hfree hrest =>
      have hmore := hrest.of_rover hrover
      cases hrest with
      | @cons _ second fixed' _ _ hslot' hfree' hrest' =>
        rw [(hfree' hrover).1] at hmem
        have hrelated : slot = first ∨ slot = .vr ∨ slot ∈ slotsOf rest := by
          simpa [slotsOf, PieceRole.slot?] using hmem
        rw [List.map_cons, List.mem_cons]
        exact hrelated.imp_right fun h => ih hmore (h.resolve_left hfixed)
  | case2 wordClass first fixed text role following rest suffixClass hrover ih =>
    cases h with
    | cons hslot hfree hrest =>
      have hrelated : slot = first ∨ slot ∈ slotsOf ((role, following) :: rest) := by
        simpa [slotsOf, PieceRole.slot?] using hmem
      rw [List.map_cons, List.mem_cons]
      exact hrelated.imp_right (ih hrest)
  | case3 wordClass first fixed text => simpa [slotsOf, PieceRole.slot?] using hmem
  | case4 wordClass pieces hmany hone =>
    cases h.eq_nil hmany hone
    exact absurd hmem List.not_mem_nil

/-! ## What endings hold -/

namespace Ending

variable {ending : Ending} {text : Text} {pieces : List (PieceRole × Text)}

/-- The classes that a word may have behind a position. -/
def classesBehind (p : Position) (required : Bool) (wordClass : WordClass) : List WordClass :=
  ((if required then [] else [wordClass]) ++
    p.spellings.map (classAfter (p.fixed.getD wordClass))).eraseDups

/-- Whether the affix tables agree with an ending behind a word of a class. -/
def fits : Ending → WordClass → Bool
  | stop, _ => true
  | position p required next, wordClass =>
    (p.spellings.all fun spelling =>
      Affix.slot? ("-" ++ spelling) (p.fixed.getD wordClass) = some p.slot &&
        (!Affix.isRover spelling || (p.slot = .vr && p.fixed = none))) &&
    (classesBehind p required wordClass).all next.fits
  | either first second, wordClass => first.fits wordClass && second.fits wordClass

theorem Spells.attached {wordClass : WordClass} (h : ending.Spells text pieces)
    (hfits : ending.fits wordClass = true) : Attached wordClass pieces := by
  induction h generalizing wordClass with
  | stop => exact .nil
  | @fill p required next spelling rest pieces hmem hnext ih =>
    obtain ⟨hall, hnexts⟩ := Bool.and_eq_true_iff.mp hfits
    have hspelling := List.all_eq_true.mp hall spelling hmem
    obtain ⟨hslot, hrover⟩ := Bool.and_eq_true_iff.mp hspelling
    refine .cons (of_decide_eq_true hslot) (fun h => ?_) (ih ?_)
    · simpa [h] using hrover
    · refine List.all_eq_true.mp hnexts _ (List.mem_eraseDups.mpr ?_)
      exact List.mem_append_right _ (List.mem_map_of_mem hmem)
  | @skip p next text pieces hnext ih =>
    obtain ⟨_, hnexts⟩ := Bool.and_eq_true_iff.mp hfits
    refine ih (List.all_eq_true.mp hnexts _ (List.mem_eraseDups.mpr ?_))
    exact List.mem_append_left _ List.mem_cons_self
  | first h ih => exact ih (Bool.and_eq_true_iff.mp hfits).1
  | second h ih => exact ih (Bool.and_eq_true_iff.mp hfits).2

/-- The positions that are found in the divisions without suffixes of the given positions. There may
be no such division. -/
def slotsWithout (avoided : List SuffixSlot) : Ending → Option (List SuffixSlot)
  | stop => some []
  | position p required next =>
    if p.slot ∈ avoided then if required then none else next.slotsWithout avoided
    else (next.slotsWithout avoided).map (p.slot :: ·)
  | either first second =>
    match first.slotsWithout avoided, second.slotsWithout avoided with
    | some slots, some slots' => some (slots ++ slots')
    | some slots, none => some slots
    | none, other => other

theorem Spells.slotsOf_subset {avoided : List SuffixSlot} (h : ending.Spells text pieces)
    (havoid : ∀ slot ∈ slotsOf pieces, slot ∉ avoided) :
    ∃ slots, ending.slotsWithout avoided = some slots ∧ slotsOf pieces ⊆ slots := by
  induction h with
  | stop => exact ⟨[], rfl, List.Subset.refl _⟩
  | @fill p required next spelling rest pieces hmem hnext ih =>
    obtain ⟨hp, hpieces⟩ := List.forall_mem_cons.mp havoid
    obtain ⟨slots, hslots, hsubset⟩ := ih hpieces
    refine ⟨p.slot :: slots, ?_, List.cons_subset_cons _ hsubset⟩
    rw [slotsWithout, if_neg hp, hslots]
    rfl
  | @skip p next text pieces hnext ih =>
    obtain ⟨slots, hslots, hsubset⟩ := ih havoid
    rw [slotsWithout]
    split
    · exact ⟨slots, hslots, hsubset⟩
    · rw [hslots]
      exact ⟨p.slot :: slots, rfl, List.subset_cons_of_subset _ hsubset⟩
  | @first one other text pieces h ih =>
    obtain ⟨slots, hslots, hsubset⟩ := ih havoid
    rw [slotsWithout, hslots]
    cases other.slotsWithout avoided with
    | none => exact ⟨slots, rfl, hsubset⟩
    | some slots' => exact ⟨slots ++ slots', rfl, List.subset_append_of_subset_left _ hsubset⟩
  | @second one other text pieces h ih =>
    obtain ⟨slots, hslots, hsubset⟩ := ih havoid
    rw [slotsWithout, hslots]
    cases one.slotsWithout avoided with
    | none => exact ⟨slots, rfl, hsubset⟩
    | some slots' => exact ⟨slots' ++ slots, rfl, List.subset_append_of_subset_right _ hsubset⟩

end Ending

theorem TemplateKind.fits_ending (kind : TemplateKind) :
    kind.ending.fits kind.inflectionClass = true := by
  cases kind <;> decide +kernel

end Klingon
