import Mathlib.Data.List.TakeWhile
import Klingon.Proofs.Pattern.ConditionList

/-!
# The grammar of rule patterns

A pattern is a row of elements: operators and blanks, and atoms, which may have a name in front of
them. Reading a pattern gives the nodes of its elements. A text that is no pattern is at fault
behind its longest beginning that is one.
-/

namespace Klingon

/-! ## Characters -/

namespace Text

/-- A character is not in two classes whose ranges lie apart. -/
theorem inRanges_of_apart {ranges ranges' : List (Nat × Nat)} {c : Char}
    (hapart : ∀ r ∈ ranges, ∀ s ∈ ranges', r.2 < s.1 ∨ s.2 < r.1) (h : inRanges ranges c = true) :
    inRanges ranges' c = false := by
  obtain ⟨r, hr, hin⟩ := List.any_eq_true.mp h
  simp only [Bool.and_eq_true, decide_eq_true_eq] at hin
  refine List.any_eq_false.mpr fun s hs => ?_
  have := hapart r hr s hs
  simp only [Bool.and_eq_true, decide_eq_true_eq]
  omega

/-- No blank belongs to a name. -/
theorem isNameChar_of_isBlank {c : Char} (h : isBlank c = true) : isNameChar c = false := by
  have hapart : ∀ r ∈ blankRanges, ∀ s ∈ alphanumericRanges, r.2 < s.1 ∨ s.2 < r.1 := by
    have hall : (blankRanges.all fun r => alphanumericRanges.all fun s =>
        r.2.blt s.1 || s.2.blt r.1) = true := by
      decide +kernel
    simpa using hall
  have hunderscore : c ≠ '_' := by
    rintro rfl
    exact absurd h (by decide)
  rw [isNameChar, Bool.or_eq_false_iff]
  exact ⟨inRanges_of_apart hapart h, decide_eq_false hunderscore⟩

end Text

namespace Pattern

/-! ## Elements -/

/-- The name in front of an atom, if it has one. -/
def givenName? (name : Text) : Option Text :=
  if name = [] then none else some name

/-- The operators with the nodes that they stand for. -/
def operators : List (Char × Node) :=
  [('*', .quantifier .star), ('+', .quantifier .plus), ('?', .quantifier .optional), ('|', .bar),
    (')', .groupClose)]

/-- What stands behind a name, which may be empty: the first character, the characters that belong
to it, and the node of the name and them. -/
inductive Element (name : Text) : Char → Text → Option Node → Prop
  | condition {list : Text} {items : List Text} {literals : List Literal} : '}' ∉ list →
    Divides false list items → List.Forall₂ Literal.Writes items literals →
    Element name '{' (list ++ ['}']) (some (.condition (givenName? name) literals))
  | opening : Element name '(' [] (some (.groupOpen (givenName? name)))
  | anyToken : Element name '.' [] (some (.wildcard (givenName? name)))
  | blankToken {c : Char} : name ≠ [] → Text.isBlank c = true →
    Element name c [] (some (.wildcard (some name)))
  | blank {c : Char} : name = [] → Text.isBlank c = true → Element name c [] none
  | operator {c : Char} {node : Node} : name = [] → (c, node) ∈ operators →
    Element name c [] (some node)

/-- What is wrong behind a name, at a character with the given offset. -/
inductive Offence (name : Text) (offset : Nat) : Char → Text → PatternFault → Prop
  | unterminated {rest : Text} : '}' ∉ rest →
    Offence name offset '{' rest (.unterminatedCondition offset)
  | bareItem {list rest : Text} {items : List Text} : '}' ∉ list → Divides false list items →
    (∃ item ∈ items, IsBare item) → Offence name offset '{' (list ++ '}' :: rest) (.emptyBit offset)
  | misplaced {c : Char} {rest : Text} : c ∉ ['{', '(', '.'] → Text.isBlank c = false →
    (name = [] → c ∉ operators.map (·.1)) → Offence name offset c rest (.unexpectedChar c offset)

variable {name list rest : Text} {c : Char} {node : Option Node} {offset : Nat}
  {fault : PatternFault}

/-- No blank opens an atom. -/
theorem not_mem_of_isBlank (h : Text.isBlank c = true) : c ∉ ['{', '(', '.'] := by
  intro hc
  simp only [List.mem_cons, List.not_mem_nil, or_false] at hc
  rcases hc with rfl | rfl | rfl
  · exact absurd h (by decide)
  · exact absurd h (by decide)
  · exact absurd h (by decide)

/-- How a character is read that opens no atom. -/
theorem readAtom_other (h : c ∉ ['{', '(', '.']) (name? : Option Text) (offset : Nat)
    (rest : Text) : readAtom name? offset c rest =
      if Text.isBlank c then .ok { node := name?.map fun name => .wildcard (some name), rest }
      else if name?.isSome then .error (.unexpectedChar c offset)
      else
        match operators.lookup c with
        | some node => .ok { node := some node, rest }
        | none => .error (.unexpectedChar c offset) := by
  simp only [List.mem_cons, List.not_mem_nil, or_false, not_or] at h
  obtain ⟨hcondition, hopening, hanyToken⟩ := h
  unfold readAtom
  split
  · exact absurd rfl hcondition
  · exact absurd rfl hopening
  · exact absurd rfl hanyToken
  · split
    · cases name? <;> rfl
    · split
      · rfl
      · split
        · rfl
        · rfl
        · rfl
        · rfl
        · rfl
        · next hstar hplus hoptional hbar hclose =>
          have hnone : operators.lookup c = none := by
            simpa [operators] using ⟨hstar, hplus, hoptional, hbar, hclose⟩
          rw [hnone]

theorem readAtom_of_element (h : Element name c list node) (offset : Nat) (rest : Text) :
    readAtom (givenName? name) offset c (list ++ rest) =
      .ok { node, width := Text.byteLength list, rest } := by
  cases h with
  | @condition list items literals hend hitems hliterals =>
    rw [List.append_assoc, List.singleton_append]
    simp only [readAtom, Text.cut?_append hend, splitItems_eq_iff.mpr hitems,
      mapM_literal?_eq_some_iff.mpr hliterals, Text.byteLength_append]
    rfl
  | opening => rfl
  | anyToken => rfl
  | blankToken hname hblank =>
    rw [List.nil_append, readAtom_other (not_mem_of_isBlank hblank), if_pos hblank, givenName?,
      if_neg hname]
    rfl
  | blank hname hblank =>
    rw [List.nil_append, readAtom_other (not_mem_of_isBlank hblank), if_pos hblank, givenName?,
      if_pos hname]
    rfl
  | @operator c node hname hoperator =>
    have hread : ∀ row ∈ operators, row.1 ∉ ['{', '(', '.'] ∧ Text.isBlank row.1 = false ∧
        operators.lookup row.1 = some row.2 := by
      decide
    obtain ⟨hother, hblank, hlookup⟩ := hread _ hoperator
    rw [List.nil_append, readAtom_other hother, if_neg (by simp [hblank]), givenName?,
      if_pos hname, if_neg (by decide)]
    simp only [hlookup]
    rfl

theorem readAtom_of_offence (h : Offence name offset c rest fault) :
    readAtom (givenName? name) offset c rest = .error fault := by
  cases h with
  | unterminated hend => simp only [readAtom, Text.cut?_eq_none_iff.mpr hend]
  | bareItem hend hitems hbare =>
    simp only [readAtom, Text.cut?_append hend, splitItems_eq_iff.mpr hitems,
      mapM_literal?_eq_none_iff.mpr hbare]
  | misplaced hother hblank hoperator =>
    rw [readAtom_other hother, if_neg (by simp [hblank])]
    by_cases hname : name = []
    · have hlookup : operators.lookup c = none := by
        refine List.lookup_eq_none_iff.mpr fun row hrow => ?_
        have hne : c ≠ row.1 := fun heq => hoperator hname (heq ▸ List.mem_map_of_mem hrow)
        simpa using hne
      rw [givenName?, if_pos hname, if_neg (by decide), hlookup]
    · rw [givenName?, if_neg hname, if_pos Option.isSome_some]

/-- A brace opens a condition list, or something is wrong with it. -/
theorem condition_or_offence (name : Text) (offset : Nat) (rest : Text) :
    (∃ list node more, rest = list ++ more ∧ Element name '{' list node) ∨
      ∃ fault, Offence name offset '{' rest fault := by
  cases hcut : Text.cut? '}' rest with
  | none => exact .inr ⟨_, .unterminated (Text.cut?_eq_none_iff.mp hcut)⟩
  | some parts =>
    obtain ⟨list, more⟩ := parts
    obtain ⟨rfl, hend⟩ := Text.cut?_eq_some_iff.mp hcut
    have hitems := divides_splitItems false list
    cases hliterals : (splitItems false list).mapM literal? with
    | none => exact .inr ⟨_, .bareItem hend hitems (mapM_literal?_eq_none_iff.mp hliterals)⟩
    | some literals =>
      have helement : Element name '{' (list ++ ['}']) _ :=
        .condition hend hitems (mapM_literal?_eq_some_iff.mp hliterals)
      exact .inl ⟨_, _, more, by rw [List.append_assoc, List.singleton_append], helement⟩

/-- Behind a name there is an element, or something is wrong. -/
theorem element_or_offence (name : Text) (offset : Nat) (c : Char) (rest : Text) :
    (∃ list node more, rest = list ++ more ∧ Element name c list node) ∨
      ∃ fault, Offence name offset c rest fault := by
  by_cases hatom : c ∈ ['{', '(', '.']
  · simp only [List.mem_cons, List.not_mem_nil, or_false] at hatom
    rcases hatom with rfl | rfl | rfl
    · exact condition_or_offence name offset rest
    · exact .inl ⟨[], _, rest, rfl, .opening⟩
    · exact .inl ⟨[], _, rest, rfl, .anyToken⟩
  · by_cases hblank : Text.isBlank c = true
    · by_cases hname : name = []
      · exact .inl ⟨[], _, rest, rfl, .blank hname hblank⟩
      · exact .inl ⟨[], _, rest, rfl, .blankToken hname hblank⟩
    · by_cases hoperator : name = [] ∧ c ∈ operators.map (·.1)
      · obtain ⟨hname, hin⟩ := hoperator
        obtain ⟨⟨d, node⟩, hrow, rfl⟩ := List.mem_map.mp hin
        exact .inl ⟨[], _, rest, rfl, .operator hname hrow⟩
      · exact .inr ⟨_, .misplaced hatom (by simpa using hblank) (not_and.mp hoperator)⟩

/-! ## Patterns -/

/-- The characters of a name, which may be empty. -/
def IsName (name : Text) : Prop :=
  ∀ c ∈ name, Text.isNameChar c = true

/-- A row of elements with the nodes that they make. -/
inductive Reads : Text → List Node → Prop
  | nil : Reads [] []
  | element {name list rest : Text} {c : Char} {node : Option Node} {nodes : List Node} :
    IsName name → Element name c list node → Reads rest nodes →
    Reads (name ++ c :: (list ++ rest)) (node.toList ++ nodes)

/-- What is wrong with a text that begins with no element; the text starts at the given offset. -/
inductive Offends (offset : Nat) : Text → PatternFault → Prop
  | dangling {name : Text} : IsName name → name ≠ [] → Offends offset name (.danglingName name)
  | behind {name rest : Text} {c : Char} {fault : PatternFault} : IsName name →
    Text.isNameChar c = false → Offence name (offset + Text.byteLength name) c rest fault →
    Offends offset (name ++ c :: rest) fault

variable {nodes : List Node} {text front : Text}

/-- The first character of an element ends the name before it. -/
theorem Element.isNameChar_eq_false (h : Element name c list node) :
    Text.isNameChar c = false := by
  cases h with
  | condition => decide +kernel
  | opening => decide +kernel
  | anyToken => decide +kernel
  | blankToken hname hblank => exact Text.isNameChar_of_isBlank hblank
  | blank hname hblank => exact Text.isNameChar_of_isBlank hblank
  | operator hname hoperator =>
    have hoperators : ∀ row ∈ operators, Text.isNameChar row.1 = false := by decide +kernel
    exact hoperators _ hoperator

theorem takeWhile_name (hname : IsName name) (hc : Text.isNameChar c = false) (rest : Text) :
    (name ++ c :: rest).takeWhile Text.isNameChar = name := by
  rw [List.takeWhile_append_of_pos hname, List.takeWhile_cons_of_neg (by simp [hc]),
    List.append_nil]

theorem dropWhile_name (hname : IsName name) (hc : Text.isNameChar c = false) (rest : Text) :
    (name ++ c :: rest).dropWhile Text.isNameChar = c :: rest := by
  rw [List.dropWhile_append_of_pos hname, List.dropWhile_cons_of_neg (by simp [hc])]

theorem readNodes_nil (offset : Nat) : readNodes offset [] = .ok [] := by
  unfold readNodes
  rfl

/-- Reading a pattern is reading what stands behind a name, and then the rest. -/
theorem readNodes_behind (hname : IsName name) (hc : Text.isNameChar c = false) (offset : Nat)
    (rest : Text) : readNodes offset (name ++ c :: rest) =
      (readAtom (givenName? name) (offset + Text.byteLength name) c rest).bind fun reading =>
        (readNodes (offset + Text.byteLength name + c.utf8Size + reading.width) reading.rest).map
          (reading.node.toList ++ ·) := by
  have hrun := takeWhile_name hname hc rest
  rw [readNodes]
  split
  · next hmore =>
    rw [dropWhile_name hname hc] at hmore
    cases hmore
  · next d more hmore =>
    rw [dropWhile_name hname hc] at hmore
    cases hmore
    dsimp only
    split
    · next fault hfault =>
      rw [hrun] at hfault
      rw [givenName?, hfault]
      rfl
    · next reading hreading =>
      rw [hrun] at hreading
      rw [givenName?, hreading, hrun]
      rfl

theorem Reads.readNodes_append (h : Reads front nodes) (offset : Nat) (rest : Text) :
    readNodes offset (front ++ rest) =
      (readNodes (offset + Text.byteLength front) rest).map (nodes ++ ·) := by
  induction h generalizing offset with
  | nil =>
    rw [List.nil_append, Text.byteLength, Nat.add_zero]
    cases readNodes offset rest <;> rfl
  | @element name list more c node nodes hname helement _ ih =>
    have hsplit : name ++ c :: (list ++ more) ++ rest =
        name ++ c :: (list ++ (more ++ rest)) := by
      simp
    have hwidth : offset + Text.byteLength (name ++ c :: (list ++ more)) = offset +
        Text.byteLength name + c.utf8Size + Text.byteLength list + Text.byteLength more := by
      simp only [Text.byteLength_append, Text.byteLength, Nat.add_assoc]
    rw [hsplit, readNodes_behind hname helement.isNameChar_eq_false, readAtom_of_element helement,
      hwidth, Except.bind]
    dsimp only
    rw [ih]
    cases readNodes _ rest <;> simp [Except.map]

theorem Offends.readNodes_eq (h : Offends offset text fault) :
    readNodes offset text = .error fault := by
  cases h with
  | dangling hname hne =>
    have hrest : text.dropWhile Text.isNameChar = [] := List.dropWhile_eq_nil_iff.mpr hname
    have hrun : text.takeWhile Text.isNameChar = text := List.takeWhile_eq_self_iff.mpr hname
    rw [readNodes]
    split
    · rw [hrun, if_neg hne]
    · next hmore => cases hrest.symm.trans hmore
  | behind hname hc hoffence =>
    rw [readNodes_behind hname hc, readAtom_of_offence hoffence]
    rfl

/-- A text is a pattern, or it has a beginning that is one and goes on with something wrong. -/
theorem reads_or_offends (text : Text) (offset : Nat) :
    ∃ front rest nodes, text = front ++ rest ∧ Reads front nodes ∧
      (rest = [] ∨ ∃ fault, Offends (offset + Text.byteLength front) rest fault) := by
  -- An element takes any number of characters, so the induction is on the length of the text.
  induction hlength : text.length using Nat.strong_induction_on generalizing text offset with
  | h n ih =>
    have hsplit := List.takeWhile_append_dropWhile (p := Text.isNameChar) (l := text)
    have hname : IsName (text.takeWhile Text.isNameChar) := fun c => List.mem_takeWhile_imp
    generalize text.takeWhile Text.isNameChar = name at hsplit hname
    cases hrest : text.dropWhile Text.isNameChar with
    | nil =>
      rw [hrest, List.append_nil] at hsplit
      subst hsplit
      by_cases hne : name = []
      · exact ⟨[], name, [], rfl, .nil, .inl hne⟩
      · exact ⟨[], name, [], rfl, .nil, .inr ⟨_, .dangling hname hne⟩⟩
    | cons c rest =>
      have hc : Text.isNameChar c = false := by
        have hhead := List.head?_dropWhile_not Text.isNameChar text
        rw [hrest] at hhead
        simpa using hhead
      rw [hrest] at hsplit
      subst hsplit
      rcases element_or_offence name (offset + Text.byteLength name) c rest with
        ⟨list, node, more, rfl, helement⟩ | ⟨fault, hoffence⟩
      · have hless : more.length < n := by
          rw [← hlength]
          simp only [List.length_append, List.length_cons]
          omega
        obtain ⟨front, rest, nodes, rfl, hreads, hend⟩ :=
          ih more.length hless more (offset + Text.byteLength (name ++ c :: list)) rfl
        refine ⟨name ++ c :: (list ++ front), rest, _, by simp, .element hname helement hreads, ?_⟩
        have hwidth : offset + Text.byteLength (name ++ c :: (list ++ front)) =
            offset + Text.byteLength (name ++ c :: list) + Text.byteLength front := by
          simp only [Text.byteLength_append, Text.byteLength, Nat.add_assoc]
        rwa [hwidth]
      · exact ⟨[], _, [], rfl, .nil, .inr ⟨fault, .behind hname hc hoffence⟩⟩

theorem readNodes_of_reads (h : Reads text nodes) (offset : Nat) :
    readNodes offset text = .ok nodes := by
  have hread := h.readNodes_append offset []
  rw [List.append_nil, readNodes_nil] at hread
  rw [hread, Except.map, List.append_nil]

/-- A text that reads as some nodes is a row of elements that make these nodes. -/
theorem readNodes_eq_ok_iff : readNodes offset text = .ok nodes ↔ Reads text nodes := by
  refine ⟨fun h => ?_, fun h => readNodes_of_reads h offset⟩
  obtain ⟨front, rest, nodes', rfl, hreads, rfl | ⟨fault, hoffends⟩⟩ :=
    reads_or_offends text offset
  · rw [List.append_nil, readNodes_of_reads hreads] at h
    cases h
    rwa [List.append_nil]
  · rw [hreads.readNodes_append, hoffends.readNodes_eq] at h
    cases h

theorem Reads.eq {nodes' : List Node} (h : Reads text nodes) (h' : Reads text nodes') :
    nodes = nodes' :=
  Except.ok.inj ((readNodes_of_reads h 0).symm.trans (readNodes_of_reads h' 0))

/-- What is left of a pattern behind a beginning that is one is a pattern. -/
theorem Reads.of_append {nodes' : List Node} (h : Reads (front ++ rest) nodes')
    (hfront : Reads front nodes) : ∃ more, Reads rest more := by
  have hread := readNodes_of_reads h 0
  rw [hfront.readNodes_append] at hread
  cases hmore : readNodes (0 + Text.byteLength front) rest with
  | error fault =>
    rw [hmore] at hread
    cases hread
  | ok more => exact ⟨more, readNodes_eq_ok_iff.mp hmore⟩

/-- A name ends where its first other character stands. -/
theorem behind_inj {name' rest' : Text} {c' : Char} (hname : IsName name)
    (hc : Text.isNameChar c = false) (hname' : IsName name') (hc' : Text.isNameChar c' = false)
    (h : name ++ c :: rest = name' ++ c' :: rest') : name = name' ∧ c = c' ∧ rest = rest' := by
  have hrun := congrArg (List.takeWhile Text.isNameChar) h
  have hmore := congrArg (List.dropWhile Text.isNameChar) h
  rw [takeWhile_name hname hc, takeWhile_name hname' hc'] at hrun
  rw [dropWhile_name hname hc, dropWhile_name hname' hc'] at hmore
  exact ⟨hrun, List.cons.inj hmore⟩

/-- No element stands where something is wrong. -/
theorem Offends.eq_nil_of_reads (h : Offends offset (front ++ rest) fault)
    (hreads : Reads front nodes) : front = [] := by
  cases hreads with
  | nil => rfl
  | @element name list more c node nodes hname helement =>
    have hc := helement.isNameChar_eq_false
    have hsplit : name ++ c :: (list ++ more) ++ rest = name ++ c :: (list ++ (more ++ rest)) := by
      simp
    rw [hsplit] at h
    generalize htext : name ++ c :: (list ++ (more ++ rest)) = text at h
    cases h with
    | dangling hdangling =>
      have hin : c ∈ text := htext ▸ List.mem_append_right _ List.mem_cons_self
      rw [hdangling c hin] at hc
      cases hc
    | behind hname' hc' hoffence =>
      obtain ⟨rfl, rfl, rfl⟩ := behind_inj hname hc hname' hc' htext
      have hread := readAtom_of_offence hoffence
      rw [readAtom_of_element helement] at hread
      cases hread

/-- How a text is no pattern: its longest beginning that is one, and what is wrong behind that. -/
structure Breaks (source front rest : Text) (fault : PatternFault) : Prop where
  split : source = front ++ rest
  reads : ∃ nodes, Reads front nodes
  longest : ∀ other nodes, other <+: source → Reads other nodes → other <+: front
  offends : Offends (Text.byteLength front) rest fault

theorem Offends.breaks (h : Offends (Text.byteLength front) rest fault)
    (hreads : Reads front nodes) : Breaks (front ++ rest) front rest fault where
  split := rfl
  reads := ⟨nodes, hreads⟩
  longest := by
    intro other nodes' hother hreads'
    rcases List.prefix_or_prefix_of_prefix hother (List.prefix_append front rest) with hle | hle
    · exact hle
    · -- What the other beginning has more is a pattern, and it stands where something is wrong.
      obtain ⟨more, rfl⟩ := hle
      obtain ⟨nodes'', hmore⟩ := hreads'.of_append hreads
      obtain ⟨rest', hrest⟩ := hother
      rw [List.append_assoc, List.append_cancel_left_eq] at hrest
      subst hrest
      simp [h.eq_nil_of_reads hmore]
  offends := h

/-- A text that cannot be read has its fault where the first element is missing. -/
theorem readNodes_eq_error_iff :
    readNodes 0 text = .error fault ↔ ∃ front rest, Breaks text front rest fault := by
  constructor
  · intro h
    obtain ⟨front, rest, nodes, rfl, hreads, rfl | ⟨fault', hoffends⟩⟩ := reads_or_offends text 0
    · rw [List.append_nil, readNodes_of_reads hreads] at h
      cases h
    · rw [hreads.readNodes_append, hoffends.readNodes_eq] at h
      cases h
      rw [Nat.zero_add] at hoffends
      exact ⟨front, rest, hoffends.breaks hreads⟩
  · rintro ⟨front, rest, hbreaks⟩
    obtain ⟨nodes, hreads⟩ := hbreaks.reads
    rw [hbreaks.split, hreads.readNodes_append, Nat.zero_add, hbreaks.offends.readNodes_eq]
    rfl

end Pattern

end Klingon
