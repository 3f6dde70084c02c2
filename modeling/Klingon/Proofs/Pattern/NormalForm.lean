import Klingon.Proofs.Pattern.Automaton
import Klingon.Proofs.Pattern.Rearrangement

/-!
# The normal form is a rearrangement

Every step that brings an expression to its normal form rearranges it. The normal form repeats
nothing that is always empty, and its texts are not empty, so its automaton can be followed.
-/

namespace Klingon.Pattern

/-- A piece that covers something. -/
def Piece.Solid (piece : Piece) : Prop :=
  piece ≠ .text []

namespace Expression

variable {L : Expression Piece → Prop} {e item first second body : Expression Piece}
  {l : List (Expression Piece)}

/-- The items that leave the branches of a choice for its common beginning. -/
def liftedFrom (l : List (Expression Piece)) : List (Expression Piece) :=
  match l.flatMap branches with
  | [_] => []
  | several => if (union? several).isSome then [] else commonItems several

/-- The items that are lifted in the branches of an expression. -/
def liftedWithin : Expression Piece → List (Expression Piece)
  | empty => []
  | atom _ => []
  | group _ body => body.liftedWithin ++ liftedFrom body.alternatives
  | sequence first second =>
    first.liftedWithin ++ liftedFrom first.alternatives ++
      (second.liftedWithin ++ liftedFrom second.alternatives)
  | choice first second =>
    first.liftedWithin ++ liftedFrom first.alternatives ++ second.liftedWithin
  | repeated _ _ body => body.liftedWithin ++ liftedFrom body.alternatives

/-- All items that are lifted out of branches on the way to the normal form. -/
def lifted (e : Expression Piece) : List (Expression Piece) :=
  e.liftedWithin ++ liftedFrom e.alternatives

/-! ## Sequences -/

theorem regular_before (hitem : item.Regular Piece.Solid) (he : e.Regular Piece.Solid) :
    (item.before e).Regular Piece.Solid := by
  unfold before
  split
  · exact hitem
  · rename_i front back
    simp only [Regular, Piece.Solid] at hitem ⊢
    simp_all
  · rename_i front back more
    refine ⟨?_, he.2⟩
    simp only [Regular, Piece.Solid] at hitem ⊢
    simp_all
  · exact ⟨hitem, he⟩

theorem rearranges_before (hitem : item.Regular Piece.Solid) (he : e.Regular Piece.Solid) :
    Rearranges L (.sequence item e) (item.before e) := by
  have hne : ∀ {content : Text}, (Expression.atom (.text content)).Regular Piece.Solid →
      content ≠ [] := by
    rintro content h rfl
    exact h rfl
  unfold before
  split
  · exact .emptyBack _
  · exact .fuse (hne hitem) (hne he)
  · exact .trans (.symm (.assoc _ _ _)) (.sequence (.fuse (hne hitem) (hne he.1)) (.refl _))
  · exact .refl _

theorem regular_followedBy (hfirst : first.Regular Piece.Solid)
    (hsecond : second.Regular Piece.Solid) : (first.followedBy second).Regular Piece.Solid := by
  fun_induction followedBy first second with
  | case1 e => exact hsecond
  | case2 first second e ih => exact regular_before hfirst.1 (ih hfirst.2 hsecond)
  | case3 item e => exact regular_before hfirst hsecond

theorem rearranges_followedBy (hfirst : first.Regular Piece.Solid)
    (hsecond : second.Regular Piece.Solid) :
    Rearranges L (.sequence first second) (first.followedBy second) := by
  fun_induction followedBy first second with
  | case1 e => exact .emptyFront e
  | case2 first second e ih =>
    have hmore := regular_followedBy hfirst.2 hsecond
    exact .trans (.assoc _ _ _) (.trans (.sequence (.refl _) (ih hfirst.2 hsecond))
      (rearranges_before hfirst.1 hmore))
  | case3 item e => exact rearranges_before hfirst hsecond

theorem rearranges_inSequence_cons (item : Expression Piece) (l : List (Expression Piece)) :
    Rearranges L (.sequence item (inSequence l)) (inSequence (item :: l)) := by
  cases l with
  | nil => exact .emptyBack item
  | cons next more => exact .refl _

theorem rearranges_inSequence_append (front back : List (Expression Piece)) :
    Rearranges L (.sequence (inSequence front) (inSequence back))
      (inSequence (front ++ back)) := by
  induction front with
  | nil => exact .emptyFront _
  | cons item front ih =>
    refine .trans (.sequence (.symm (rearranges_inSequence_cons item front)) (.refl _)) ?_
    refine .trans (.assoc _ _ _) (.trans (.sequence (.refl _) ih) ?_)
    exact rearranges_inSequence_cons item (front ++ back)

theorem rearranges_items (e : Expression Piece) : Rearranges L (inSequence e.items) e := by
  induction e with
  | sequence first second _ ihs =>
    exact .trans (.symm (rearranges_inSequence_cons first second.items)) (.sequence (.refl _) ihs)
  | empty => exact .refl _
  | atom a => exact .refl _
  | group number body => exact .refl _
  | choice first second => exact .refl _
  | repeated q reluctant body => exact .refl _

theorem regular_inSequence (h : ∀ e ∈ l, e.Regular Piece.Solid) :
    (inSequence l).Regular Piece.Solid := by
  fun_induction inSequence l with
  | case1 => trivial
  | case2 e => exact h e List.mem_cons_self
  | case3 e next more ih =>
    exact ⟨h e List.mem_cons_self, ih fun e he => h e (List.mem_cons_of_mem _ he)⟩

theorem regular_of_mem_items (he : e.Regular Piece.Solid) : ∀ item ∈ e.items,
    item.Regular Piece.Solid := by
  induction e with
  | sequence first second _ ihs =>
    intro item hitem
    rcases List.mem_cons.mp hitem with rfl | hitem
    · exact he.1
    · exact ihs he.2 item hitem
  | empty => exact fun _ h => absurd h List.not_mem_nil
  | atom a => exact fun _ h => List.mem_singleton.mp h ▸ he
  | group number body => exact fun _ h => List.mem_singleton.mp h ▸ he
  | choice first second => exact fun _ h => List.mem_singleton.mp h ▸ he
  | repeated q reluctant body => exact fun _ h => List.mem_singleton.mp h ▸ he

/-! ## Choices -/

theorem rearranges_oneOf_cons (e : Expression Piece) (hne : l ≠ []) :
    Rearranges L (.choice e (oneOf l)) (oneOf (e :: l)) := by
  cases l with
  | nil => exact absurd rfl hne
  | cons next more => exact .refl _

theorem rearranges_oneOf_append {front back : List (Expression Piece)} (hfront : front ≠ [])
    (hback : back ≠ []) :
    Rearranges L (.choice (oneOf front) (oneOf back)) (oneOf (front ++ back)) := by
  induction front with
  | nil => exact absurd rfl hfront
  | cons e front ih =>
    cases front with
    | nil => exact rearranges_oneOf_cons e hback
    | cons next more =>
      refine .trans (.chooseAssoc _ _ _) (.trans (.choice (.refl _) (ih (by simp))) ?_)
      exact rearranges_oneOf_cons e (by simp)

theorem rearranges_oneOf_map {α : Type} {l : List α} {f g : α → Expression Piece}
    (h : ∀ a ∈ l, Rearranges L (f a) (g a)) :
    Rearranges L (oneOf (l.map f)) (oneOf (l.map g)) := by
  induction l with
  | nil => exact .refl _
  | cons a more ih =>
    have hmore := ih fun a ha => h a (List.mem_cons_of_mem _ ha)
    cases more with
    | nil => exact h a List.mem_cons_self
    | cons b more => exact .choice (h a List.mem_cons_self) hmore

theorem branches_ne_nil (e : Expression Piece) : e.branches ≠ [] := by
  cases e <;> simp [branches]

theorem oneOf_branches (e : Expression Piece) : oneOf e.branches = e := by
  induction e with
  | choice first second _ ihs =>
    rw [branches]
    cases hbranches : second.branches with
    | nil => exact absurd hbranches (branches_ne_nil second)
    | cons next more =>
      rw [hbranches] at ihs
      rw [oneOf, ihs]
  | empty => rfl
  | atom a => rfl
  | group number body => rfl
  | sequence first second => rfl
  | repeated q reluctant body => rfl

theorem flatMap_branches_ne_nil (hne : l ≠ []) : l.flatMap branches ≠ [] := by
  cases l with
  | nil => exact absurd rfl hne
  | cons e more =>
    rw [List.flatMap_cons]
    exact fun h => branches_ne_nil e (List.append_eq_nil_iff.mp h).1

theorem rearranges_flatMap_branches (l : List (Expression Piece)) :
    Rearranges L (oneOf l) (oneOf (l.flatMap branches)) := by
  induction l with
  | nil => exact .refl _
  | cons e more ih =>
    cases more with
    | nil =>
      rw [List.flatMap_singleton, oneOf_branches]
      exact .refl _
    | cons next more =>
      have hmore := flatMap_branches_ne_nil (l := next :: more) (by simp)
      rw [List.flatMap_cons]
      refine .trans (.choice (.refl e) ih) ?_
      have hsplit := rearranges_oneOf_append (L := L) (branches_ne_nil e) hmore
      rwa [oneOf_branches] at hsplit

theorem regular_oneOf (h : ∀ e ∈ l, e.Regular Piece.Solid) :
    (oneOf l).Regular Piece.Solid := by
  fun_induction oneOf l with
  | case1 => trivial
  | case2 e => exact h e List.mem_cons_self
  | case3 e next more ih =>
    exact ⟨h e List.mem_cons_self, ih fun e he => h e (List.mem_cons_of_mem _ he)⟩

theorem regular_of_mem_branches (he : e.Regular Piece.Solid) : ∀ branch ∈ e.branches,
    branch.Regular Piece.Solid := by
  induction e with
  | choice first second _ ihs =>
    intro branch hbranch
    rcases List.mem_cons.mp hbranch with rfl | hbranch
    · exact he.1
    · exact ihs he.2 branch hbranch
  | empty => exact fun _ h => List.mem_singleton.mp h ▸ he
  | atom a => exact fun _ h => List.mem_singleton.mp h ▸ he
  | group number body => exact fun _ h => List.mem_singleton.mp h ▸ he
  | sequence first second => exact fun _ h => List.mem_singleton.mp h ▸ he
  | repeated q reluctant body => exact fun _ h => List.mem_singleton.mp h ▸ he

theorem regular_of_mem_flatMap_branches (h : ∀ e ∈ l, e.Regular Piece.Solid) :
    ∀ branch ∈ l.flatMap branches, branch.Regular Piece.Solid := by
  intro branch hbranch
  obtain ⟨e, he, hbranch⟩ := List.mem_flatMap.mp hbranch
  exact regular_of_mem_branches (h e he) branch hbranch

/-! ## Unions -/

/-- The set of some characters covers the characters that are in the set. -/
theorem amongCharacters_eq_atom (characters : Text) : ∃ piece : Piece, piece.Solid ∧
    amongCharacters characters = atom piece ∧
    ∀ rest n, piece.cover? rest = some n ↔
      (∃ c ∈ characters, ∃ more, rest = c :: more) ∧ n = 1 := by
  have hmem : ∀ c, c ∈ (characters.mergeSort (· ≤ ·)).eraseDups ↔ c ∈ characters := by
    intro c
    rw [List.mem_eraseDups, List.mem_mergeSort]
  rw [amongCharacters]
  split
  · rename_i c hone
    have hall : ∀ d, d ∈ characters ↔ d = c := by
      intro d
      rw [← hmem, hone, List.mem_singleton]
    refine ⟨_, by simp [Piece.Solid], rfl, fun rest n => ?_⟩
    rw [Piece.cover?_text]
    simp only [hall, exists_eq_left]
    rfl
  · refine ⟨_, by simp [Piece.Solid], rfl, fun rest n => ?_⟩
    rw [Piece.cover?_among]
    simp only [hmem]

theorem map_of_mapM_character? {characters : Text} (h : l.mapM character? = some characters) :
    l = characters.map fun c => atom (.text [c]) := by
  induction l generalizing characters with
  | nil =>
    cases h
    rfl
  | cons e more ih =>
    rw [List.mapM_cons] at h
    obtain ⟨c, hc, h⟩ := Option.bind_eq_some_iff.mp h
    obtain ⟨rest, hrest, h⟩ := Option.bind_eq_some_iff.mp h
    cases h
    rw [List.map_cons, ← ih hrest]
    unfold character? at hc
    split at hc
    · cases hc
      rfl
    · cases hc

theorem map_of_mapM_characters? {sets : List Text} (h : l.mapM characters? = some sets) :
    l = sets.map fun set => atom (.among set) := by
  induction l generalizing sets with
  | nil =>
    cases h
    rfl
  | cons e more ih =>
    rw [List.mapM_cons] at h
    obtain ⟨set, hset, h⟩ := Option.bind_eq_some_iff.mp h
    obtain ⟨rest, hrest, h⟩ := Option.bind_eq_some_iff.mp h
    cases h
    rw [List.map_cons, ← ih hrest]
    unfold characters? at hset
    split at hset
    · cases hset
      rfl
    · cases hset

/-- The union of branches is one piece, which covers what one of the branches covers. -/
theorem exists_pieces_of_union? (h : union? l = some e) :
    ∃ (pieces : List Piece) (piece : Piece), piece.Solid ∧ e = atom piece ∧ l = pieces.map atom ∧
      ∀ rest n, piece.cover? rest = some n ↔ ∃ b ∈ pieces, b.cover? rest = some n := by
  rw [union?] at h
  split at h
  · rename_i characters hmap
    cases h
    obtain ⟨piece, hsolid, hpiece, hcover⟩ := amongCharacters_eq_atom characters
    refine ⟨characters.map fun c => .text [c], piece, hsolid, hpiece, ?_, fun rest n => ?_⟩
    · rw [map_of_mapM_character? hmap, List.map_map]
      rfl
    · rw [hcover]
      constructor
      · rintro ⟨⟨c, hc, more, rfl⟩, rfl⟩
        exact ⟨_, List.mem_map_of_mem hc, Piece.cover?_text.mpr ⟨⟨more, rfl⟩, rfl⟩⟩
      · rintro ⟨_, hb, hn⟩
        obtain ⟨c, hc, rfl⟩ := List.mem_map.mp hb
        obtain ⟨⟨more, rfl⟩, rfl⟩ := Piece.cover?_text.mp hn
        exact ⟨⟨c, hc, more, rfl⟩, rfl⟩
  · obtain ⟨sets, hmap, rfl⟩ := Option.map_eq_some_iff.mp h
    obtain ⟨piece, hsolid, hpiece, hcover⟩ := amongCharacters_eq_atom sets.flatten
    refine ⟨sets.map .among, piece, hsolid, hpiece, ?_, fun rest n => ?_⟩
    · rw [map_of_mapM_characters? hmap, List.map_map]
      rfl
    · rw [hcover]
      constructor
      · rintro ⟨⟨c, hc, hrest⟩, rfl⟩
        obtain ⟨set, hset, hc⟩ := List.mem_flatten.mp hc
        exact ⟨_, List.mem_map_of_mem hset, Piece.cover?_among.mpr ⟨⟨c, hc, hrest⟩, rfl⟩⟩
      · rintro ⟨_, hb, hn⟩
        obtain ⟨set, hset, rfl⟩ := List.mem_map.mp hb
        obtain ⟨⟨c, hc, hrest⟩, rfl⟩ := Piece.cover?_among.mp hn
        exact ⟨⟨c, List.mem_flatten.mpr ⟨set, hset, hc⟩, hrest⟩, rfl⟩

theorem rearranges_union (hne : l ≠ []) (h : union? l = some e) :
    Rearranges L (oneOf l) e := by
  obtain ⟨pieces, piece, _, rfl, rfl, hcover⟩ := exists_pieces_of_union? h
  exact .atoms (by simpa using hne) hcover

theorem regular_union (h : union? l = some e) : e.Regular Piece.Solid := by
  obtain ⟨_, piece, hsolid, rfl, _, _⟩ := exists_pieces_of_union? h
  exact hsolid

/-! ## Common beginnings -/

theorem isPrefix_left_of_commonStart {α : Type} [DecidableEq α] (front back : List α) :
    commonStart front back <+: front := by
  fun_induction commonStart front back with
  | case1 front b back ih => exact (List.prefix_cons_inj b).mpr ih
  | case2 a front b back hne => exact List.nil_prefix
  | case3 => exact List.nil_prefix

theorem isPrefix_right_of_commonStart {α : Type} [DecidableEq α] (front back : List α) :
    commonStart front back <+: back := by
  fun_induction commonStart front back with
  | case1 front b back ih => exact (List.prefix_cons_inj b).mpr ih
  | case2 a front b back hne => exact List.nil_prefix
  | case3 => exact List.nil_prefix

theorem isPrefix_of_foldl_commonStart {α : Type} [DecidableEq α] (first : List α)
    (others : List (List α)) :
    ∀ l ∈ first :: others, others.foldl commonStart first <+: l := by
  induction others generalizing first with
  | nil =>
    intro l hl
    rw [List.mem_singleton.mp hl]
    exact List.prefix_rfl
  | cons next others ih =>
    intro l hl
    have hstart := ih (commonStart first next) _ List.mem_cons_self
    rcases List.mem_cons.mp hl with rfl | hl
    · exact hstart.trans (isPrefix_left_of_commonStart _ _)
    · rcases List.mem_cons.mp hl with rfl | hl
      · exact hstart.trans (isPrefix_right_of_commonStart _ _)
      · exact ih _ l (List.mem_cons_of_mem _ hl)

/-- All branches begin with the common items. -/
theorem commonItems_isPrefix_items : ∀ e ∈ l, commonItems l <+: e.items := by
  intro e he
  rw [commonItems]
  split
  · have hmem : e.items ∈ l.map items := List.mem_map_of_mem he
    split
    · exact List.nil_prefix
    · rename_i first others heq
      exact isPrefix_of_foldl_commonStart first others e.items (heq ▸ hmem)
  · exact List.nil_prefix

/-- One item in front of all branches. -/
theorem rearranges_distribute (hitem : L item) (hne : l ≠ []) :
    Rearranges L (oneOf (l.map fun e => .sequence item e)) (.sequence item (oneOf l)) := by
  induction l with
  | nil => exact absurd rfl hne
  | cons e more ih =>
    cases more with
    | nil => exact .refl _
    | cons next more => exact .trans (.choice (.refl _) (ih (by simp))) (.distribute hitem _ _)

/-- Some items in front of all branches. -/
theorem rearranges_lift {shared : List (Expression Piece)} (hshared : ∀ item ∈ shared, L item)
    (hne : l ≠ []) :
    Rearranges L (oneOf (l.map fun e => .sequence (inSequence shared) e))
      (.sequence (inSequence shared) (oneOf l)) := by
  induction shared generalizing l with
  | nil =>
    have hmap := rearranges_oneOf_map (L := L) (l := l)
      (f := fun e => sequence (inSequence []) e) (g := id) fun e _ => .emptyFront e
    rw [List.map_id] at hmap
    exact .trans hmap (.symm (.emptyFront _))
  | cons item shared ih =>
    have hitem := hshared item List.mem_cons_self
    have hmore := ih (fun item h => hshared item (List.mem_cons_of_mem _ h)) hne
    have hsplit : Rearranges L
        (oneOf (l.map fun e => .sequence (inSequence (item :: shared)) e))
        (oneOf ((l.map fun e => .sequence (inSequence shared) e).map fun e =>
          .sequence item e)) := by
      rw [List.map_map]
      refine rearranges_oneOf_map fun e _ => ?_
      exact .trans (.sequence (.symm (rearranges_inSequence_cons item shared)) (.refl _))
        (.assoc _ _ _)
    refine .trans hsplit (.trans (rearranges_distribute hitem (by simpa using hne)) ?_)
    refine .trans (.sequence (.refl _) hmore) (.trans (.symm (.assoc _ _ _)) ?_)
    exact .sequence (rearranges_inSequence_cons item shared) (.refl _)

/-- What is left of a branch behind the common beginning. -/
def restBehind (shared : List (Expression Piece)) (e : Expression Piece) : Expression Piece :=
  inSequence (e.items.drop shared.length)

/-- Every branch is the common beginning in front of what is left of it. -/
theorem rearranges_rests {shared : List (Expression Piece)}
    (hshared : ∀ e ∈ l, shared <+: e.items) :
    Rearranges L (oneOf l)
      (oneOf ((l.map (restBehind shared)).map fun e => .sequence (inSequence shared) e)) := by
  have hsplit : ∀ e ∈ l, Rearranges L (id e)
      (.sequence (inSequence shared) (restBehind shared e)) := by
    intro e he
    obtain ⟨rest, hrest⟩ := hshared e he
    have hleft : restBehind shared e = inSequence rest := by
      rw [restBehind, ← hrest, List.drop_left]
    rw [hleft]
    refine .trans (.symm (rearranges_items e)) ?_
    rw [← hrest]
    exact .symm (rearranges_inSequence_append shared rest)
  have hall := rearranges_oneOf_map hsplit
  rw [List.map_id] at hall
  rw [List.map_map]
  exact hall

/-! ## The normal form -/

theorem rearranges_selection (hne : l ≠ []) :
    Rearranges L (oneOf l) (selection l) := by
  have hflat := flatMap_branches_ne_nil hne
  refine .trans (rearranges_flatMap_branches l) ?_
  rw [selection]
  split
  · rename_i e hone
    rw [hone]
    exact .refl _
  · cases hunion : union? (l.flatMap branches) with
    | none => exact .refl _
    | some e => exact rearranges_union hflat hunion

theorem regular_selection (h : ∀ e ∈ l, e.Regular Piece.Solid) :
    (selection l).Regular Piece.Solid := by
  have hflat := regular_of_mem_flatMap_branches h
  rw [selection]
  split
  · rename_i e hone
    exact hflat e (hone ▸ List.mem_cons_self)
  · cases hunion : union? (l.flatMap branches) with
    | none => exact regular_oneOf hflat
    | some e => exact regular_union hunion

theorem regular_rests {shared : List (Expression Piece)} (h : ∀ e ∈ l, e.Regular Piece.Solid) :
    ∀ rest ∈ l.map (restBehind shared), rest.Regular Piece.Solid := by
  intro rest hrest
  obtain ⟨e, he, rfl⟩ := List.mem_map.mp hrest
  exact regular_inSequence fun item hitem =>
    regular_of_mem_items (h e he) item (List.mem_of_mem_drop hitem)

theorem regular_commonItems (h : ∀ e ∈ l, e.Regular Piece.Solid) :
    ∀ item ∈ commonItems l, item.Regular Piece.Solid := by
  intro item hitem
  cases l with
  | nil => cases hitem
  | cons e more =>
    have he := List.mem_cons_self (a := e) (l := more)
    exact regular_of_mem_items (h e he) item ((commonItems_isPrefix_items e he).subset hitem)

theorem regular_factored (h : ∀ e ∈ l, e.Regular Piece.Solid) :
    (factored l).Regular Piece.Solid := by
  have hflat := regular_of_mem_flatMap_branches h
  rw [factored]
  split
  · rename_i e hone
    exact hflat e (hone ▸ List.mem_cons_self)
  · split
    · rename_i e hunion
      exact regular_union hunion
    · split
      · exact regular_oneOf hflat
      · exact regular_followedBy (regular_inSequence (regular_commonItems hflat))
          (regular_selection (regular_rests hflat))

theorem rearranges_factored (h : ∀ e ∈ l, e.Regular Piece.Solid) (hne : l ≠ [])
    (hlift : ∀ item ∈ liftedFrom l, L item) :
    Rearranges L (oneOf l) (factored l) := by
  have hflat := flatMap_branches_ne_nil hne
  have hreg := regular_of_mem_flatMap_branches h
  refine .trans (rearranges_flatMap_branches l) ?_
  rw [liftedFrom] at hlift
  rw [factored]
  split
  · rename_i e hone
    rw [hone]
    exact .refl _
  · rename_i hmany
    split
    · rename_i e hunion
      exact rearranges_union hflat hunion
    · rename_i hunion
      have hlift : ∀ item ∈ commonItems (l.flatMap branches), L item := by
        split at hlift
        · rename_i e hone
          exact absurd hone (hmany e)
        · rw [hunion] at hlift
          exact hlift
      split
      · exact .refl _
      · have hrests : (l.flatMap branches).map (restBehind (commonItems (l.flatMap branches)))
            ≠ [] := by
          simpa using hflat
        refine .trans (rearranges_rests commonItems_isPrefix_items) ?_
        refine .trans (rearranges_lift hlift hrests) ?_
        refine .trans (.sequence (.refl _) (rearranges_selection hrests)) ?_
        exact rearranges_followedBy (regular_inSequence (regular_commonItems hreg))
          (regular_selection (regular_rests hreg))

/-- All atoms of an expression are of one kind. -/
def AllAtoms {α : Type} (P : α → Prop) : Expression α → Prop
  | empty => True
  | atom a => P a
  | group _ body => body.AllAtoms P
  | sequence first second => first.AllAtoms P ∧ second.AllAtoms P
  | choice first second => first.AllAtoms P ∧ second.AllAtoms P
  | repeated _ _ body => body.AllAtoms P

theorem AllAtoms.imp {α : Type} {P Q : α → Prop} {e : Expression α} (h : e.AllAtoms P)
    (hPQ : ∀ a, P a → Q a) : e.AllAtoms Q := by
  induction e with
  | empty => trivial
  | atom a => exact hPQ a h
  | group number body ih => exact ih h
  | sequence first second ihf ihs => exact ⟨ihf h.1, ihs h.2⟩
  | choice first second ihf ihs => exact ⟨ihf h.1, ihs h.2⟩
  | repeated q reluctant body ih => exact ih h

theorem regular_iterated {q : Quantifier} {reluctant : Bool} (h : body.Regular Piece.Solid) :
    (iterated q reluctant body).Regular Piece.Solid := by
  rw [iterated]
  split
  · split
    · exact h
    · exact ⟨.inl rfl, h⟩
  · rename_i hvac
    exact ⟨.inr (Bool.eq_false_iff.mpr hvac), h⟩

theorem rearranges_iterated (q : Quantifier) (reluctant : Bool) (body : Expression Piece) :
    Rearranges L (.repeated q reluctant body) (iterated q reluctant body) := by
  rw [iterated]
  split
  · rename_i hvac
    cases q with
    | plus => exact .vacuousPlus hvac reluctant
    | star => exact .vacuousStar hvac reluctant
    | optional => exact .refl _
  · exact .refl _

theorem alternatives_ne_nil (e : Expression Piece) : e.alternatives ≠ [] := by
  cases e with
  | group number body => cases number <;> simp [alternatives]
  | _ => simp [alternatives]

theorem regular_alternatives (h : e.AllAtoms Piece.Solid) :
    ∀ alternative ∈ e.alternatives, alternative.Regular Piece.Solid := by
  induction e with
  | empty => exact fun _ hmem => List.mem_singleton.mp hmem ▸ trivial
  | atom piece => exact fun _ hmem => List.mem_singleton.mp hmem ▸ h
  | group number body ih =>
    have hbody := regular_factored (ih h)
    cases number with
    | none => exact fun _ hmem => List.mem_singleton.mp hmem ▸ hbody
    | some n => exact fun _ hmem => List.mem_singleton.mp hmem ▸ hbody
  | sequence first second ihf ihs =>
    have hboth := regular_followedBy (regular_factored (ihf h.1)) (regular_factored (ihs h.2))
    exact fun _ hmem => List.mem_singleton.mp hmem ▸ hboth
  | choice first second ihf ihs =>
    intro alternative hmem
    rcases List.mem_cons.mp hmem with rfl | hmem
    · exact regular_factored (ihf h.1)
    · exact ihs h.2 alternative hmem
  | repeated q reluctant body ih =>
    have hbody : (iterated q reluctant (factored body.alternatives)).Regular Piece.Solid :=
      regular_iterated (regular_factored (ih h))
    exact fun _ hmem => List.mem_singleton.mp hmem ▸ hbody

/-- The normal form of an expression whose texts are not empty is regular. -/
theorem regular_normal (h : e.AllAtoms Piece.Solid) : e.normal.Regular Piece.Solid :=
  regular_factored (regular_alternatives h)

theorem rearranges_alternatives (h : e.AllAtoms Piece.Solid)
    (hlift : ∀ item ∈ e.liftedWithin, L item) :
    Rearranges L e (oneOf e.alternatives) := by
  have hfactored : ∀ {e : Expression Piece}, e.AllAtoms Piece.Solid →
      Rearranges L e (oneOf e.alternatives) →
      (∀ item ∈ liftedFrom e.alternatives, L item) →
      Rearranges L e (factored e.alternatives) := by
    intro e h hrearranges hlift
    exact .trans hrearranges
      (rearranges_factored (regular_alternatives h) (alternatives_ne_nil e) hlift)
  induction e with
  | empty => exact .refl _
  | atom piece => exact .refl _
  | group number body ih =>
    obtain ⟨hwithin, hfrom⟩ := List.forall_mem_append.mp hlift
    have hall : body.AllAtoms Piece.Solid := h
    have hbody := hfactored hall (ih hall hwithin) hfrom
    cases number with
    | none => exact .trans (.unnamed body) hbody
    | some n => exact .group (some n) hbody
  | sequence first second ihf ihs =>
    obtain ⟨hfirst, hsecond⟩ := List.forall_mem_append.mp hlift
    obtain ⟨hwithin, hfrom⟩ := List.forall_mem_append.mp hfirst
    obtain ⟨hwithin', hfrom'⟩ := List.forall_mem_append.mp hsecond
    refine .trans (.sequence (hfactored h.1 (ihf h.1 hwithin) hfrom)
      (hfactored h.2 (ihs h.2 hwithin') hfrom')) ?_
    exact rearranges_followedBy (regular_factored (regular_alternatives h.1))
      (regular_factored (regular_alternatives h.2))
  | choice first second ihf ihs =>
    obtain ⟨hfirst, hwithin'⟩ := List.forall_mem_append.mp hlift
    obtain ⟨hwithin, hfrom⟩ := List.forall_mem_append.mp hfirst
    refine .trans (.choice (hfactored h.1 (ihf h.1 hwithin) hfrom) (ihs h.2 hwithin')) ?_
    exact rearranges_oneOf_cons _ (alternatives_ne_nil second)
  | repeated q reluctant body ih =>
    obtain ⟨hwithin, hfrom⟩ := List.forall_mem_append.mp hlift
    exact .trans (.repeated q reluctant (hfactored h (ih h hwithin) hfrom))
      (rearranges_iterated q reluctant _)

/-- The normal form is a rearrangement that takes the lifted items out of their branches. -/
theorem rearranges_normal (h : e.AllAtoms Piece.Solid)
    (hlift : ∀ item ∈ e.lifted, L item) : Rearranges L e e.normal := by
  obtain ⟨hwithin, hfrom⟩ := List.forall_mem_append.mp hlift
  exact .trans (rearranges_alternatives h hwithin)
    (rearranges_factored (regular_alternatives h) (alternatives_ne_nil e) hfrom)

end Expression

end Klingon.Pattern
