import Mathlib.Data.List.Forall2
import Klingon.Pattern.Node
import Klingon.Proofs.Text

/-!
# Condition lists

A condition list has an item between any two commas that are not quoted. An item is a literal if
there is a bit in it: all of it is the bit, unless it begins with an exclamation mark.
-/

namespace Klingon.Pattern

/-! ## Items -/

/-- Whether a position stands between « and », behind a character. -/
def quotedAfter (quoted : Bool) (c : Char) : Bool :=
  if c = '«' then true else if c = '»' then false else quoted

/-- Whether a position stands between « and », behind a text that starts at such a position or
does not. -/
def quotedBehind (quoted : Bool) (text : Text) : Bool :=
  text.foldl quotedAfter quoted

/-- All commas of an item stand between « and ». -/
def IsItem (quoted : Bool) (item : Text) : Prop :=
  ∀ front back, item = front ++ ',' :: back → quotedBehind quoted front = true

/-- The items of a condition list are what stands between its commas, but for those that stand
between « and ». -/
inductive Divides : Bool → Text → List Text → Prop
  | last {quoted : Bool} {item : Text} : IsItem quoted item → Divides quoted item [item]
  | more {quoted : Bool} {item list : Text} {items : List Text} : IsItem quoted item →
    quotedBehind quoted item = false → Divides false list items →
    Divides quoted (item ++ ',' :: list) (item :: items)

variable {quoted : Bool} {c : Char} {item list text : Text} {items : List Text}

theorem isItem_nil : IsItem quoted [] := by
  intro front back h
  cases front <;> cases h

theorem isItem_cons :
    IsItem quoted (c :: item) ↔ (c = ',' → quoted = true) ∧ IsItem (quotedAfter quoted c) item := by
  constructor
  · intro h
    refine ⟨fun hc => h [] item (hc ▸ rfl), fun front back hitem => ?_⟩
    exact h (c :: front) back (hitem ▸ rfl)
  · rintro ⟨hhead, htail⟩ front back h
    cases front with
    | nil =>
      cases h
      exact hhead rfl
    | cons d front =>
      cases h
      exact htail front back rfl

/-- A character that is no separator belongs to the first item. -/
theorem splitItems_cons (h : c = ',' → quoted = true) {first : Text} {more : List Text}
    (hmore : splitItems (quotedAfter quoted c) text = first :: more) :
    splitItems quoted (c :: text) = (c :: first) :: more := by
  have hseparator : ¬ ((decide (c = ',') && !quoted) = true) := by simpa using h
  unfold quotedAfter at hmore
  simp only [splitItems, if_neg hseparator, hmore]

theorem splitItems_append (h : IsItem quoted item) {first : Text} {more : List Text}
    (hmore : splitItems (quotedBehind quoted item) text = first :: more) :
    splitItems quoted (item ++ text) = (item ++ first) :: more := by
  induction item generalizing quoted with
  | nil => exact hmore
  | cons c item ih =>
    obtain ⟨hhead, htail⟩ := isItem_cons.mp h
    exact splitItems_cons hhead (ih htail hmore)

theorem Divides.splitItems_eq (h : Divides quoted list items) : splitItems quoted list = items := by
  induction h with
  | @last quoted item hitem =>
    have hsplit : splitItems quoted (item ++ []) = [item ++ []] := splitItems_append hitem rfl
    rwa [List.append_nil] at hsplit
  | @more quoted item list items hitem hquoted _ ih =>
    have hcomma : splitItems (quotedBehind quoted item) (',' :: list) = [] :: items := by
      rw [hquoted, splitItems, if_pos (by decide), ih]
    rw [splitItems_append hitem hcomma, List.append_nil]

theorem divides_splitItems (quoted : Bool) (list : Text) :
    Divides quoted list (splitItems quoted list) := by
  induction list generalizing quoted with
  | nil => exact .last isItem_nil
  | cons c list ih =>
    by_cases hseparator : c = ',' ∧ quoted = false
    · obtain ⟨rfl, rfl⟩ := hseparator
      exact .more isItem_nil rfl (ih false)
    · have hhead : c = ',' → quoted = true := by simpa using hseparator
      have hrest := ih (quotedAfter quoted c)
      generalize hsplit : splitItems (quotedAfter quoted c) list = items at hrest
      cases hrest with
      | last hitem =>
        rw [splitItems_cons hhead hsplit]
        exact .last (isItem_cons.mpr ⟨hhead, hitem⟩)
      | more hitem hquoted hmore =>
        rw [splitItems_cons hhead hsplit, ← List.cons_append]
        exact .more (isItem_cons.mpr ⟨hhead, hitem⟩) hquoted hmore

/-- A condition list has one row of items. -/
theorem splitItems_eq_iff : splitItems false list = items ↔ Divides false list items := by
  constructor
  · rintro rfl
    exact divides_splitItems false list
  · exact Divides.splitItems_eq

/-! ## Literals -/

/-- How a literal is written. A bit that is asked for does not begin with an exclamation mark. -/
inductive Literal.Writes : Text → Literal → Prop
  | asks {bit : Text} : bit ≠ [] → bit.head? ≠ some '!' → Writes bit ⟨bit, true⟩
  | forbids {bit : Text} : bit ≠ [] → Writes ('!' :: bit) ⟨bit, false⟩

/-- An item without a bit. -/
def IsBare (item : Text) : Prop :=
  item = [] ∨ item = ['!']

theorem literal?_forbids (bit : Text) :
    literal? ('!' :: bit) = if bit = [] then none else some ⟨bit, false⟩ :=
  rfl

theorem literal?_asks (h : item.head? ≠ some '!') :
    literal? item = if item = [] then none else some ⟨item, true⟩ := by
  unfold literal?
  split
  next bit expected heq =>
    split at heq
    · exact absurd rfl h
    · cases heq
      rfl

theorem forbids_or_asks (item : Text) : (∃ bit, item = '!' :: bit) ∨ item.head? ≠ some '!' := by
  cases item with
  | nil => exact .inr (by decide)
  | cons c bit =>
    by_cases hc : c = '!'
    · exact .inl ⟨bit, hc ▸ rfl⟩
    · exact .inr fun h => hc (Option.some.inj h)

theorem literal?_eq_some_iff {literal : Literal} :
    literal? item = some literal ↔ Literal.Writes item literal := by
  constructor
  · intro h
    rcases forbids_or_asks item with ⟨bit, rfl⟩ | hasks
    · rw [literal?_forbids] at h
      split at h
      · cases h
      · next hbit =>
        cases h
        exact .forbids hbit
    · rw [literal?_asks hasks] at h
      split at h
      · cases h
      · next hbit =>
        cases h
        exact .asks hbit hasks
  · intro h
    cases h with
    | asks hbit hasks => rw [literal?_asks hasks, if_neg hbit]
    | forbids hbit => rw [literal?_forbids, if_neg hbit]

theorem literal?_eq_none_iff : literal? item = none ↔ IsBare item := by
  rcases forbids_or_asks item with ⟨bit, rfl⟩ | hasks
  · rw [literal?_forbids, IsBare]
    split <;> simp_all
  · rw [literal?_asks hasks, IsBare]
    have hmark : item ≠ ['!'] := by
      rintro rfl
      exact hasks rfl
    split <;> simp_all

theorem mapM_literal?_eq_some_iff {literals : List Literal} :
    items.mapM literal? = some literals ↔ List.Forall₂ Literal.Writes items literals := by
  induction items generalizing literals with
  | nil => simp [eq_comm]
  | cons item items ih =>
    rw [List.mapM_cons]
    simp only [Option.bind_eq_bind, Option.bind_eq_some_iff, literal?_eq_some_iff, ih]
    constructor
    · rintro ⟨literal, hliteral, more, hmore, heq⟩
      cases heq
      exact .cons hliteral hmore
    · intro h
      cases h with
      | cons hliteral hmore => exact ⟨_, hliteral, _, hmore, rfl⟩

theorem mapM_literal?_eq_none_iff : items.mapM literal? = none ↔ ∃ item ∈ items, IsBare item := by
  induction items with
  | nil => simp
  | cons item items ih =>
    rw [List.mapM_cons]
    simp only [List.mem_cons, exists_eq_or_imp, ← ih, ← @literal?_eq_none_iff item]
    cases literal? item with
    | none => simp
    | some literal => cases items.mapM literal? <;> simp

end Klingon.Pattern
