import Klingon.Pattern
import Klingon.Proofs.Ordered
import Klingon.Proofs.Pattern.Groups
import Klingon.Proofs.Pattern.NormalForm

/-!
# The expression that nodes build

The atoms of the expression of a pattern are what its conditions and wildcards ask of tokens, one
mark of each bit of the vocabulary. The named groups have the numbers from one on, in the order in
which they open.
-/

namespace Klingon.Pattern

namespace Expression

variable {α β : Type} {f : Expression α → List β}

/-- What is gathered from the parts of a row of expressions, from left to right. -/
theorem flatMap_inSequence (hempty : f empty = [])
    (hsequence : ∀ first second, f (sequence first second) = f first ++ f second)
    (list : List (Expression α)) : f (inSequence list) = list.flatMap f := by
  fun_induction inSequence list with
  | case1 => exact hempty
  | case2 e => rw [List.flatMap_singleton]
  | case3 e next more ih =>
    rw [hsequence, ih]
    rfl

theorem flatMap_oneOf (hempty : f empty = [])
    (hchoice : ∀ first second, f (choice first second) = f first ++ f second)
    (list : List (Expression α)) : f (oneOf list) = list.flatMap f := by
  fun_induction oneOf list with
  | case1 => exact hempty
  | case2 e => rw [List.flatMap_singleton]
  | case3 e next more ih =>
    rw [hchoice, ih]
    rfl

/-- The atoms of an expression, from left to right. -/
def atoms : Expression α → List α
  | empty => []
  | atom a => [a]
  | group _ body => body.atoms
  | sequence first second => first.atoms ++ second.atoms
  | choice first second => first.atoms ++ second.atoms
  | repeated _ _ body => body.atoms

theorem allAtoms_iff {P : α → Prop} {e : Expression α} : e.AllAtoms P ↔ ∀ a ∈ e.atoms, P a := by
  induction e with
  | empty => exact iff_of_true trivial fun a ha => absurd ha List.not_mem_nil
  | atom a => exact (List.forall_mem_singleton (p := P)).symm
  | group number body ih => exact ih
  | sequence first second ihf ihs =>
    rw [AllAtoms, atoms, List.forall_mem_append, ihf, ihs]
  | choice first second ihf ihs =>
    rw [AllAtoms, atoms, List.forall_mem_append, ihf, ihs]
  | repeated q reluctant body ih => exact ih

end Expression

namespace OpenGroup

open Expression

variable {g : OpenGroup} {item : TokenExpression}

/-- The numbers of a group under construction and of the groups in it. -/
def numbers (g : OpenGroup) : List Nat :=
  g.number.toList ++
    (g.branches.reverse.flatMap groupNumbers ++ g.items.reverse.flatMap groupNumbers)

/-- The atoms in a group under construction. -/
def atoms (g : OpenGroup) : List (List (Option Bool)) :=
  g.branches.reverse.flatMap Expression.atoms ++ g.items.reverse.flatMap Expression.atoms

theorem numbers_push : (g.push item).numbers = g.numbers ++ item.groupNumbers := by
  simp [numbers, push, List.flatMap_append]

theorem atoms_push : (g.push item).atoms = g.atoms ++ item.atoms := by
  simp [atoms, push, List.flatMap_append]

theorem groupNumbers_branch : g.branch.groupNumbers = g.items.reverse.flatMap groupNumbers :=
  flatMap_inSequence rfl (fun _ _ => rfl) _

theorem atoms_branch : g.branch.atoms = g.items.reverse.flatMap Expression.atoms :=
  flatMap_inSequence rfl (fun _ _ => rfl) _

theorem numbers_close : g.number.toList ++ g.close.groupNumbers = g.numbers := by
  have hclose : ∀ list : List TokenExpression, (oneOf list).groupNumbers = _ :=
    flatMap_oneOf rfl fun _ _ => rfl
  rw [close, hclose, List.reverse_cons, List.flatMap_append, List.flatMap_singleton,
    groupNumbers_branch, numbers]

theorem atoms_close : g.close.atoms = g.atoms := by
  have hclose : ∀ list : List TokenExpression, (oneOf list).atoms = _ :=
    flatMap_oneOf rfl fun _ _ => rfl
  rw [close, hclose, List.reverse_cons, List.flatMap_append, List.flatMap_singleton, atoms_branch,
    atoms]

end OpenGroup

/-- What a node asks of a token, if it stands for one. -/
def Node.requirements? (vocabulary : List Text) : Node → Option (List (Option Bool))
  | condition _ literals => some (requirements vocabulary literals)
  | wildcard _ => some (requirements vocabulary [])
  | _ => none

variable {vocabulary : List Text} {count : Nat} {inner : OpenGroup} {outer : List OpenGroup}
  {seen : List (List (Option Bool))} {nodes : List Node} {e : TokenExpression}

/-- What holds of a state in which nodes are read: it has the atoms of the nodes so far, and its
groups are numbered in the order in which they opened. -/
structure Building (seen : List (List (Option Bool))) (count : Nat) (inner : OpenGroup)
    (outer : List OpenGroup) : Prop where
  atoms : outer.reverse.flatMap OpenGroup.atoms ++ inner.atoms = seen
  numbers : outer.reverse.flatMap OpenGroup.numbers ++ inner.numbers = List.range' 1 count
  bottom : ((inner :: outer).map OpenGroup.number).getLast? = some none

theorem length_requirements (vocabulary : List Text) (literals : List Literal) :
    (requirements vocabulary literals).length = vocabulary.length :=
  List.length_map _

/-- How many groups there are behind a node, with the node's own. -/
theorem range'_countGroup (count : Nat) (name : Option Text) :
    List.range' 1 (countGroup count name) =
      List.range' 1 count ++ (groupNumber count name).toList := by
  cases name with
  | none => exact (List.append_nil _).symm
  | some name =>
    rw [countGroup, Option.isSome_some, if_pos rfl, List.range'_concat, Nat.one_mul,
      Nat.add_comm]
    rfl

theorem countGroup_add (count : Nat) (node : Node) (rest : List Node) :
    count + (groupNames (node :: rest)).length =
      countGroup count node.name? + (groupNames rest).length := by
  rw [groupNames, List.filterMap_cons, countGroup]
  cases node.name? with
  | none => rfl
  | some name =>
    rw [Option.isSome_some, if_pos rfl, List.length_cons, groupNames]
    omega

namespace Building

/-- A token condition becomes an item of its own. -/
theorem push (h : Building seen count inner outer) (name : Option Text)
    (required : List (Option Bool)) : Building (seen ++ [required]) (countGroup count name)
      (inner.push (.group (groupNumber count name) (.atom required))) outer where
  atoms := by
    rw [OpenGroup.atoms_push, ← List.append_assoc, h.atoms]
    rfl
  numbers := by
    rw [OpenGroup.numbers_push, ← List.append_assoc, h.numbers, range'_countGroup,
      Expression.groupNumbers, Expression.groupNumbers, List.append_nil]
  bottom := h.bottom

theorem enter (h : Building seen count inner outer) (name : Option Text) :
    Building seen (countGroup count name) { number := groupNumber count name }
      (inner :: outer) where
  atoms := by
    rw [List.reverse_cons, List.flatMap_append, List.flatMap_singleton, h.atoms]
    exact List.append_nil seen
  numbers := by
    rw [List.reverse_cons, List.flatMap_append, List.flatMap_singleton, h.numbers,
      range'_countGroup]
    simp [OpenGroup.numbers]
  bottom := h.bottom

theorem leave {parent : OpenGroup} (h : Building seen count inner (parent :: outer)) :
    Building seen count (parent.push (.group inner.number inner.close)) outer where
  atoms := by
    have hatoms := h.atoms
    rw [List.reverse_cons, List.flatMap_append, List.flatMap_singleton, List.append_assoc] at hatoms
    rw [OpenGroup.atoms_push, Expression.atoms, OpenGroup.atoms_close, hatoms]
  numbers := by
    have hnumbers := h.numbers
    rw [List.reverse_cons, List.flatMap_append, List.flatMap_singleton, List.append_assoc]
      at hnumbers
    rw [OpenGroup.numbers_push, Expression.groupNumbers, OpenGroup.numbers_close, hnumbers]
  bottom := h.bottom

theorem bar (h : Building seen count inner outer) : Building seen count
    { inner with branches := inner.branch :: inner.branches, items := [] } outer where
  atoms := by
    rw [← h.atoms]
    simp [OpenGroup.atoms, OpenGroup.atoms_branch, List.flatMap_append]
  numbers := by
    rw [← h.numbers]
    simp [OpenGroup.numbers, OpenGroup.groupNumbers_branch, List.flatMap_append]
  bottom := h.bottom

theorem repeatLast {item : TokenExpression} {items : List TokenExpression}
    (h : Building seen count inner outer) (hitems : inner.items = item :: items)
    (q : Quantifier) (reluctant : Bool) : Building seen count
      { inner with items := .repeated q reluctant item :: items } outer where
  atoms := by
    rw [← h.atoms]
    simp [OpenGroup.atoms, hitems, List.flatMap_append, Expression.atoms]
  numbers := by
    rw [← h.numbers]
    simp [OpenGroup.numbers, hitems, List.flatMap_append, Expression.groupNumbers]
  bottom := h.bottom

/-- Reading nodes adds their atoms and numbers the groups one after the other. -/
theorem of_build (hbuild : build vocabulary count inner outer nodes = some e) :
    ∀ seen, Building seen count inner outer →
      e.atoms = seen ++ nodes.filterMap (Node.requirements? vocabulary) ∧
        e.groupNumbers = List.range' 1 (count + (groupNames nodes).length) := by
  fun_induction build vocabulary count inner outer nodes with
  | case1 count inner =>
    intro seen h
    cases hbuild
    have hnumber : inner.number = none := Option.some.inj h.bottom
    have hnumbers := h.numbers
    rw [← OpenGroup.numbers_close, hnumber] at hnumbers
    refine ⟨?_, hnumbers⟩
    rw [OpenGroup.atoms_close, ← h.atoms]
    exact (List.append_nil _).symm
  | case2 => cases hbuild
  | case3 count inner outer name literals rest item ih =>
    intro seen h
    have hatom : (Node.condition name literals).requirements? vocabulary =
        some (requirements vocabulary literals) := rfl
    rw [countGroup_add, List.filterMap_cons_some hatom, List.append_cons]
    exact ih hbuild _ (h.push name _)
  | case4 count inner outer name rest item ih =>
    intro seen h
    have hatom : (Node.wildcard name).requirements? vocabulary =
        some (requirements vocabulary []) := rfl
    rw [countGroup_add, List.filterMap_cons_some hatom, List.append_cons]
    exact ih hbuild _ (h.push name _)
  | case5 count inner outer name rest ih =>
    intro seen h
    rw [countGroup_add]
    exact ih hbuild seen (h.enter name)
  | case6 => cases hbuild
  | case7 count inner rest parent others ih => exact fun seen h => ih hbuild seen h.leave
  | case8 count inner outer rest ih => exact fun seen h => ih hbuild seen h.bar
  | case9 => cases hbuild
  | case10 count inner outer q rest item items hitems ih =>
    exact fun seen h => ih hbuild seen (h.repeatLast hitems q true)
  | case11 => cases hbuild
  | case12 count inner outer q rest hq item items hitems ih =>
    exact fun seen h => ih hbuild seen (h.repeatLast hitems q false)

end Building

theorem building_start : Building [] 0 { number := none } [] :=
  ⟨rfl, rfl, rfl⟩

/-- The atoms of the expression of a pattern are what its nodes ask of tokens, in their order. -/
theorem atoms_of_expression? (h : expression? vocabulary nodes = some e) :
    e.atoms = nodes.filterMap (Node.requirements? vocabulary) :=
  (Building.of_build h [] building_start).1

/-- The expression of a pattern asks for a mark of each bit of its vocabulary, and its groups are
numbered in the order in which they open. -/
theorem of_expression? (h : expression? vocabulary nodes = some e) :
    e.AllAtoms (fun required => required.length = vocabulary.length) ∧
      e.groupNumbers = List.range' 1 (groupNames nodes).length := by
  have hnumbers := (Building.of_build h [] building_start).2
  rw [Nat.zero_add] at hnumbers
  refine ⟨Expression.allAtoms_iff.mpr fun required hrequired => ?_, hnumbers⟩
  rw [atoms_of_expression? h] at hrequired
  obtain ⟨node, _, hnode⟩ := List.mem_filterMap.mp hrequired
  cases node with
  | condition name literals =>
    cases hnode
    exact length_requirements vocabulary literals
  | wildcard name =>
    cases hnode
    exact length_requirements vocabulary []
  | groupOpen name => cases hnode
  | groupClose => cases hnode
  | bar => cases hnode
  | quantifier q => cases hnode

/-! ## Patterns -/

/-- A pattern that reads well has nodes that make up an expression, and it searches with the normal
form of that. -/
structure Compiles (source : Text) (pattern : Pattern) (nodes : List Node)
    (e : TokenExpression) : Prop where
  reads : readNodes 0 source = .ok nodes
  vocabulary : pattern.vocabulary = vocabularyOf nodes
  expression : expression? pattern.vocabulary nodes = some e
  groups : ∀ name number, (name, number) ∈ pattern.groups ↔
    (name, number) ∈ (groupNames nodes).zipIdx 1
  automaton : pattern.automaton = e.spelled.normal.gathered.automaton

/-- A text that is a pattern reads as nodes that pass the check and make up an expression. -/
theorem exists_of_ofText {source : Text} {pattern : Pattern}
    (h : Pattern.ofText source = .ok pattern) : ∃ nodes e, readNodes 0 source = .ok nodes ∧
      checkGroups [] 0 nodes = .ok () ∧ expression? (vocabularyOf nodes) nodes = some e ∧
      pattern = {
        source
        vocabulary := vocabularyOf nodes
        groups := numberedGroups nodes
        expression := written (vocabularyOf nodes) nodes
        automaton := e.spelled.normal.gathered.automaton } := by
  rw [ofText] at h
  cases hnodes : readNodes 0 source with
  | error fault =>
    rw [hnodes] at h
    cases h
  | ok nodes =>
    rw [hnodes] at h
    simp only [Except.bind, ofNodes] at h
    cases hcheck : checkGroups [] 0 nodes with
    | error fault =>
      rw [hcheck] at h
      cases h
    | ok passed =>
      rw [hcheck] at h
      simp only [bind, Except.bind] at h
      cases hexpression : expression? (vocabularyOf nodes) nodes with
      | none =>
        rw [hexpression] at h
        cases h
      | some e =>
        rw [hexpression] at h
        dsimp only at h
        cases hform : formOf e with
        | error fault =>
          rw [hform] at h
          cases h
        | ok form =>
          rw [hform] at h
          cases h
          have hnormal : form = e.spelled.normal := by
            rw [formOf] at hform
            split at hform
            · cases hform
            · split at hform
              · cases hform
                rfl
              · cases hform
          exact ⟨nodes, e, rfl, hcheck, hexpression, by rw [hnormal]⟩

theorem mem_numberedGroups {entry : Text × Nat} (hcheck : checkGroups [] 0 nodes = .ok ()) :
    entry ∈ numberedGroups nodes ↔ entry ∈ (groupNames nodes).zipIdx 1 := by
  refine Ordered.mem_ofPairs ?_
  rw [List.zipIdx_map_fst]
  exact (checkGroups_eq_ok_iff.mp hcheck).1

theorem compiles_of_ofText {source : Text} {pattern : Pattern}
    (h : Pattern.ofText source = .ok pattern) : ∃ nodes e, Compiles source pattern nodes e := by
  obtain ⟨nodes, e, hreads, hcheck, hexpression, rfl⟩ := exists_of_ofText h
  exact ⟨nodes, e, hreads, rfl, hexpression, fun name number => mem_numberedGroups hcheck, rfl⟩

end Klingon.Pattern
