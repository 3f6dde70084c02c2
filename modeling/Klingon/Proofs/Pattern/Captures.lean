import Klingon.Proofs.Pattern.Parentheses

/-!
# What is captured under a name

A group captures what its body covered in its last round, if it took part at all. The group that is
read back under a name is the one that the named node opens, whatever stands around it.
-/

namespace Klingon.Pattern

variable {α β : Type}

namespace Expression

/-- The numbered groups of an expression with their bodies, in the order in which they open. -/
def groups : Expression α → List (Nat × Expression α)
  | empty => []
  | atom _ => []
  | group none body => body.groups
  | group (some number) body => (number, body) :: body.groups
  | sequence first second => first.groups ++ second.groups
  | choice first second => first.groups ++ second.groups
  | repeated _ _ body => body.groups

theorem map_fst_groups (e : Expression α) : e.groups.map (·.1) = e.groupNumbers := by
  induction e with
  | empty => rfl
  | atom a => rfl
  | group number body ih =>
    cases number with
    | none => exact ih
    | some number => exact congrArg (number :: ·) ih
  | sequence first second ihf ihs => rw [groups, List.map_append, ihf, ihs, groupNumbers]
  | choice first second ihf ihs => rw [groups, List.map_append, ihf, ihs, groupNumbers]
  | repeated q reluctant body ih => exact ih

theorem mem_groupNumbers_of_mem_groups {e body : Expression α} {number : Nat}
    (h : (number, body) ∈ e.groups) : number ∈ e.groupNumbers := by
  rw [← map_fst_groups]
  exact List.mem_map_of_mem h

/-- A group whose number is its own has no other with it inside. -/
theorem not_mem_groupNumbers_of_mem_groups {e body : Expression α} {number : Nat}
    (hnodup : e.groupNumbers.Nodup) (h : (number, body) ∈ e.groups) :
    number ∉ body.groupNumbers := by
  induction e with
  | empty => cases h
  | atom a => cases h
  | group outermost inner ih =>
    cases outermost with
    | none => exact ih hnodup h
    | some outermost =>
      obtain ⟨hout, hinner⟩ := List.nodup_cons.mp hnodup
      rcases List.mem_cons.mp h with heq | h
      · cases heq
        exact hout
      · exact ih hinner h
  | sequence first second ihf ihs =>
    obtain ⟨hfirst, hsecond, _⟩ := List.nodup_append'.mp hnodup
    exact (List.mem_append.mp h).elim (ihf hfirst) (ihs hsecond)
  | choice first second ihf ihs =>
    obtain ⟨hfirst, hsecond, _⟩ := List.nodup_append'.mp hnodup
    exact (List.mem_append.mp h).elim (ihf hfirst) (ihs hsecond)
  | repeated q reluctant body ih => exact ih hnodup h

/-- Where nothing that takes the place of an atom is a group, the groups stay. -/
theorem groups_expand {f : α → Expression β} (hf : ∀ a, (f a).groups = []) (e : Expression α) :
    (e.expand f).groups = e.groups.map fun g => (g.1, g.2.expand f) := by
  induction e with
  | empty => rfl
  | atom a => exact hf a
  | group number body ih =>
    cases number with
    | none => exact ih
    | some number => exact congrArg ((number, body.expand f) :: ·) ih
  | sequence first second ihf ihs => rw [expand, groups, ihf, ihs, groups, List.map_append]
  | choice first second ihf ihs => rw [expand, groups, ihf, ihs, groups, List.map_append]
  | repeated q reluctant body ih => exact ih

theorem groups_spelled (e : TokenExpression) :
    e.spelled.groups = e.groups.map fun g => (g.1, g.2.spelled) := by
  refine groups_expand (fun required => ?_) e
  have hrow : ∀ list : List (Expression Piece), (inSequence list).groups = list.flatMap groups :=
    flatMap_inSequence rfl fun _ _ => rfl
  rw [hrow, List.flatMap_map]
  exact List.flatMap_eq_nil_iff.mpr fun _ _ => rfl

theorem groupNumbers_spelled (e : TokenExpression) : e.spelled.groupNumbers = e.groupNumbers := by
  rw [← map_fst_groups, groups_spelled, List.map_map, ← map_fst_groups]
  rfl

/-- A group stands between its own opening and the parenthesis that closes it. -/
theorem exists_symbols_of_mem_groups {e body : TokenExpression} {number : Nat}
    (h : (number, body) ∈ e.groups) : ∃ front back,
      e.symbols = front ++ .opens number :: (body.symbols ++ .char ')' :: back) := by
  induction e with
  | empty => cases h
  | atom required => cases h
  | group name inner ih =>
    cases name with
    | none =>
      obtain ⟨front, back, heq⟩ := ih h
      exact ⟨Symbol.plain "(?:" ++ front, back ++ [.char ')'], by
        simp [symbols, heq, openingSymbols]⟩
    | some outermost =>
      rcases List.mem_cons.mp h with heq | h
      · cases heq
        exact ⟨[], [], rfl⟩
      · obtain ⟨front, back, heq⟩ := ih h
        exact ⟨.opens outermost :: front, back ++ [.char ')'], by
          simp [symbols, heq, openingSymbols]⟩
  | sequence first second ihf ihs =>
    rcases List.mem_append.mp h with h | h
    · obtain ⟨front, back, heq⟩ := ihf h
      exact ⟨front, back ++ second.symbols, by simp [symbols, heq]⟩
    · obtain ⟨front, back, heq⟩ := ihs h
      exact ⟨first.symbols ++ front, back, by simp [symbols, heq]⟩
  | choice first second ihf ihs =>
    rcases List.mem_append.mp h with h | h
    · obtain ⟨front, back, heq⟩ := ihf h
      exact ⟨front, back ++ .char '|' :: second.symbols, by simp [symbols, heq]⟩
    · obtain ⟨front, back, heq⟩ := ihs h
      exact ⟨first.symbols ++ .char '|' :: front, back, by simp [symbols, heq]⟩
  | repeated q reluctant inner ih =>
    obtain ⟨front, back, heq⟩ := ih h
    exact ⟨front, back ++ .char q.symbol :: if reluctant then [.char '?'] else [],
      by simp [symbols, heq]⟩

end Expression

/-! ## The last round of a group -/

/-- Nothing among the saved positions is of a group. -/
def Clear (number : Nat) (saved : List (Nat × Nat)) : Prop :=
  ∀ entry ∈ saved, entry.1 ≠ 2 * number ∧ entry.1 ≠ 2 * number + 1

/-- The extent of a group by what was saved last for it. -/
def extent? (saved : List (Nat × Nat)) (number : Nat) : Option (Nat × Nat) := do
  let start ← saved.lookup (2 * number)
  let stop ← saved.lookup (2 * number + 1)
  return (start, stop)

/-- A round of a group, from the position that its opening saved to the one that its end saved, and
what was saved since is of other groups. -/
inductive LastRound (t : Track α) (number : Nat) (body : Expression α) :
    Nat × Nat → List (Nat × Nat) → Prop where
  | mk {start stop : Nat} {before inside since : List (Nat × Nat)}
    (hbody : body.Matches t (start, (2 * number, start) :: before) (stop, inside))
    (hsince : Clear number since) :
    LastRound t number body (start, stop) (since ++ (2 * number + 1, stop) :: inside)

/-- What a group leaves behind: nothing if it took no part, or else its last round. -/
inductive Leaves (t : Track α) (number : Nat) (body : Expression α) (before : List (Nat × Nat)) :
    List (Nat × Nat) → Prop where
  | nothing {since} (h : Clear number since) : Leaves t number body before (since ++ before)
  | round {extent saved} (h : LastRound t number body extent saved) :
    Leaves t number body before saved

section Rounds

variable {t : Track α} {e body : Expression α} {x y : Standing} {number : Nat}
  {before between since saved : List (Nat × Nat)} {extent : Nat × Nat}

theorem clear_nil (number : Nat) : Clear number [] :=
  fun _ h => absurd h List.not_mem_nil

theorem Clear.append (h : Clear number before) (h' : Clear number since) :
    Clear number (before ++ since) :=
  List.forall_mem_append.mpr ⟨h, h'⟩

theorem LastRound.append (h : LastRound t number body extent saved) (hsince : Clear number since) :
    LastRound t number body extent (since ++ saved) := by
  obtain ⟨hbody, hclear⟩ := h
  rw [← List.append_assoc]
  exact .mk hbody (hsince.append hclear)

theorem LastRound.le (h : LastRound t number body extent saved) (hstart : extent.1 ≤ t.length) :
    extent.1 ≤ extent.2 := by
  obtain ⟨hbody, _⟩ := h
  exact (hbody.le hstart).1

namespace Leaves

theorem append (h : Leaves t number body before saved) (hsince : Clear number since) :
    Leaves t number body before (since ++ saved) := by
  cases h with
  | nothing hclear =>
    rw [← List.append_assoc]
    exact .nothing (hsince.append hclear)
  | round hround => exact .round (hround.append hsince)

theorem trans (h : Leaves t number body before between)
    (h' : Leaves t number body between saved) : Leaves t number body before saved := by
  cases h' with
  | nothing hclear => exact h.append hclear
  | round hround => exact .round hround

theorem refl : Leaves t number body before before :=
  .nothing (clear_nil number)

theorem clear_or_round (h : Leaves t number body before saved) :
    (∃ since, Clear number since ∧ saved = since ++ before) ∨
      ∃ extent, LastRound t number body extent saved := by
  cases h with
  | nothing hclear => exact .inl ⟨_, hclear, rfl⟩
  | round hround => exact .inr ⟨_, hround⟩

end Leaves

/-- One entry that is of another group. -/
theorem clear_singleton {slot position m : Nat} (hslot : slot = 2 * m ∨ slot = 2 * m + 1)
    (hne : number ≠ m) : Clear number [(slot, position)] := by
  intro entry hentry
  cases List.mem_singleton.mp hentry
  omega

namespace Expression

/-- A match saves positions for its own groups only. -/
theorem Matches.leaves_of_not_mem (h : e.Matches t x y) (hnumber : number ∉ e.groupNumbers) :
    Leaves t number body x.2 y.2 := by
  induction h with
  | empty => exact .refl
  | atom _ => exact .refl
  | unnamed _ ih => exact ih hnumber
  | @named m inner p q saved saved' _ ih =>
    obtain ⟨hne, hinner⟩ := not_or.mp (mt List.mem_cons.mpr hnumber)
    have hopen : Leaves t number body saved ((2 * m, p) :: saved) :=
      Leaves.refl.append (clear_singleton (.inl rfl) hne)
    exact (hopen.trans (ih hinner)).append (clear_singleton (.inr rfl) hne)
  | sequence _ _ ihf ihs =>
    obtain ⟨hfirst, hsecond⟩ := not_or.mp (mt List.mem_append.mpr hnumber)
    exact (ihf hfirst).trans (ihs hsecond)
  | left _ ih => exact ih fun hin => hnumber (List.mem_append_left _ hin)
  | right _ ih => exact ih fun hin => hnumber (List.mem_append_right _ hin)
  | leave _ => exact .refl
  | once _ ih => exact ih hnumber
  | again _ _ _ _ ih ihm => exact (ih hnumber).trans (ihm hnumber)

/-- A group whose number is its own leaves its last round behind, or nothing. -/
theorem Matches.leaves (h : e.Matches t x y) (hnodup : e.groupNumbers.Nodup)
    (hgroup : (number, body) ∈ e.groups) : Leaves t number body x.2 y.2 := by
  -- The group is in one part of the expression only; any other part saves nothing for it.
  induction h with
  | empty => cases hgroup
  | atom _ => cases hgroup
  | unnamed _ ih => exact ih hnodup hgroup
  | @named m inner p q saved saved' hbody ih =>
    obtain ⟨hm, hinner⟩ := List.nodup_cons.mp hnodup
    rcases List.mem_cons.mp hgroup with heq | hgroup
    · cases heq
      have hround : LastRound t number body (p, q) ([] ++ (2 * number + 1, q) :: saved') :=
        .mk hbody (clear_nil number)
      exact .round hround
    · have hin : number ∈ inner.groupNumbers := mem_groupNumbers_of_mem_groups hgroup
      have hne : number ≠ m := fun heq => hm (heq ▸ hin)
      have hopen : Leaves t number body saved ((2 * m, p) :: saved) :=
        Leaves.refl.append (clear_singleton (.inl rfl) hne)
      exact (hopen.trans (ih hinner hgroup)).append (clear_singleton (.inr rfl) hne)
  | sequence hf hs ihf ihs =>
    obtain ⟨hfirst, hsecond, hdisjoint⟩ := List.nodup_append'.mp hnodup
    rcases List.mem_append.mp hgroup with hgroup | hgroup
    · have hout := hdisjoint (mem_groupNumbers_of_mem_groups hgroup)
      exact (ihf hfirst hgroup).trans (hs.leaves_of_not_mem hout)
    · have hout := fun hin => hdisjoint hin (mem_groupNumbers_of_mem_groups hgroup)
      exact (hf.leaves_of_not_mem hout).trans (ihs hsecond hgroup)
  | left h ih =>
    obtain ⟨hfirst, _, hdisjoint⟩ := List.nodup_append'.mp hnodup
    rcases List.mem_append.mp hgroup with hgroup | hgroup
    · exact ih hfirst hgroup
    · have hout := fun hin => hdisjoint hin (mem_groupNumbers_of_mem_groups hgroup)
      exact h.leaves_of_not_mem hout
  | right h ih =>
    obtain ⟨_, hsecond, hdisjoint⟩ := List.nodup_append'.mp hnodup
    rcases List.mem_append.mp hgroup with hgroup | hgroup
    · exact h.leaves_of_not_mem (hdisjoint (mem_groupNumbers_of_mem_groups hgroup))
    · exact ih hsecond hgroup
  | leave _ => exact .refl
  | once _ ih => exact ih hnodup hgroup
  | again _ _ _ _ ih ihm => exact (ih hnodup hgroup).trans (ihm hnodup hgroup)

end Expression

theorem lookup_append_of_clear {slot : Nat} (hslot : slot = 2 * number ∨ slot = 2 * number + 1)
    (h : Clear number since) (before : List (Nat × Nat)) :
    (since ++ before).lookup slot = before.lookup slot := by
  induction since with
  | nil => rfl
  | cons entry since ih =>
    obtain ⟨⟨hopen, hclose⟩, hsince⟩ := List.forall_mem_cons.mp h
    have hne : (slot == entry.1) = false := beq_false_of_ne (by omega)
    rw [List.cons_append, List.lookup_cons, hne, ← ih hsince]

/-- What is read off for a group that left nothing behind is what was there before. -/
theorem extent?_append_of_clear (h : Clear number since) (before : List (Nat × Nat)) :
    extent? (since ++ before) number = extent? before number := by
  rw [extent?, extent?, lookup_append_of_clear (.inl rfl) h, lookup_append_of_clear (.inr rfl) h]

/-- What is read off for a group that took part is the extent of its last round. -/
theorem LastRound.extent?_eq (h : LastRound t number body extent saved)
    (hnumber : number ∉ body.groupNumbers) : extent? saved number = some extent := by
  obtain @⟨start, stop, before, inside, since, hbody, hclear⟩ := h
  have hstart : inside.lookup (2 * number) = some start := by
    have hslot : ∀ m ∈ body.groupNumbers, 2 * number ≠ 2 * m ∧ 2 * number ≠ 2 * m + 1 := by
      intro m hm
      have hne : number ≠ m := fun heq => hnumber (heq ▸ hm)
      omega
    rw [hbody.lookup_eq hslot, List.lookup_cons_self]
  have hne : (2 * number == 2 * number + 1) = false := beq_false_of_ne (by omega)
  rw [extent?_append_of_clear hclear, extent?, List.lookup_cons, hne, List.lookup_cons_self, hstart]
  rfl

end Rounds

end Klingon.Pattern
