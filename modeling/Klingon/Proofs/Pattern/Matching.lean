import Klingon.Proofs.Pattern.Track

/-!
# What an expression matches

Apart from any preference, an expression matches from one standing to another: positions, with what
was saved on the way. Every reading is a match. A match saves no position outside itself, and what
it saves for a group is in order.
-/

namespace Klingon.Pattern

variable {α : Type}

/-- A position and the positions saved before, latest first. -/
abbrev Standing := Nat × List (Nat × Nat)

def Reading.standing (r : Reading) : Standing :=
  (r.position, r.saved)

/-- The expression matches between two standings. What is always empty is not repeated. -/
inductive Expression.Matches (t : Track α) : Expression α → Standing → Standing → Prop where
  | empty {x} : Matches t .empty x x
  | atom {a p q saved} (h : t.consume a p = some q) : Matches t (.atom a) (p, saved) (q, saved)
  | unnamed {body x y} (h : Matches t body x y) : Matches t (.group none body) x y
  | named {m body p q saved saved'} (h : Matches t body (p, (2 * m, p) :: saved) (q, saved')) :
      Matches t (.group (some m) body) (p, saved) (q, (2 * m + 1, q) :: saved')
  | sequence {first second x y z} (hf : Matches t first x y) (hs : Matches t second y z) :
      Matches t (.sequence first second) x z
  | left {first second x y} (h : Matches t first x y) : Matches t (.choice first second) x y
  | right {first second x y} (h : Matches t second x y) : Matches t (.choice first second) x y
  | leave {q reluctant body x} (hq : q ≠ .plus) : Matches t (.repeated q reluctant body) x x
  | once {q reluctant body x y} (h : Matches t body x y) :
      Matches t (.repeated q reluctant body) x y
  | again {q reluctant body x y z} (hq : q ≠ .optional) (hvac : body.isVacuous = false)
      (h : Matches t body x y) (hmore : Matches t (.repeated q reluctant body) y z) :
      Matches t (.repeated q reluctant body) x z

namespace Expression

variable {t : Track α} {e first second body : Expression α} {x y z : Standing}
  {q : Quantifier} {reluctant : Bool}

/-! ## The ways to match -/

theorem matches_empty : Matches t .empty x y ↔ y = x := by
  constructor
  · rintro ⟨⟩
    rfl
  · rintro rfl
    exact .empty

theorem matches_atom {a : α} :
    Matches t (.atom a) x y ↔ t.consume a x.1 = some y.1 ∧ y.2 = x.2 := by
  constructor
  · rintro ⟨⟩
    exact ⟨by assumption, rfl⟩
  · obtain ⟨p, saved⟩ := x
    obtain ⟨q, saved'⟩ := y
    rintro ⟨h, rfl⟩
    exact .atom h

theorem matches_unnamed : Matches t (.group none body) x y ↔ Matches t body x y := by
  constructor
  · rintro ⟨⟩
    assumption
  · exact .unnamed

theorem matches_named {m : Nat} : Matches t (.group (some m) body) x y ↔
    ∃ saved, Matches t body (x.1, (2 * m, x.1) :: x.2) (y.1, saved) ∧
      y.2 = (2 * m + 1, y.1) :: saved := by
  constructor
  · rintro ⟨⟩
    exact ⟨_, by assumption, rfl⟩
  · obtain ⟨p, saved⟩ := x
    obtain ⟨q, saved'⟩ := y
    rintro ⟨inside, h, heq⟩
    have heq : saved' = (2 * m + 1, q) :: inside := heq
    rw [heq]
    exact .named h

theorem matches_sequence :
    Matches t (.sequence first second) x z ↔ ∃ y, Matches t first x y ∧ Matches t second y z := by
  constructor
  · rintro ⟨⟩
    exact ⟨_, by assumption, by assumption⟩
  · rintro ⟨y, hf, hs⟩
    exact .sequence hf hs

theorem matches_choice :
    Matches t (.choice first second) x y ↔ Matches t first x y ∨ Matches t second x y := by
  constructor
  · rintro (_ | _)
    · exact .inl (by assumption)
    · exact .inr (by assumption)
  · rintro (h | h)
    · exact .left h
    · exact .right h

/-- What is matched once at most. -/
theorem matches_repeated_once (hq : q = .optional ∨ body.isVacuous = true) :
    Matches t (.repeated q reluctant body) x y ↔ q ≠ .plus ∧ y = x ∨ Matches t body x y := by
  constructor
  · intro h
    cases h with
    | leave h => exact .inl ⟨h, rfl⟩
    | once h => exact .inr h
    | again hopt hvac =>
      rcases hq with hq | hq
      · exact absurd hq hopt
      · rw [hq] at hvac
        cases hvac
  · rintro (⟨h, rfl⟩ | h)
    · exact .leave h
    · exact .once h

theorem matches_oneOf {list : List (Expression α)} (hne : list ≠ []) :
    Matches t (oneOf list) x y ↔ ∃ e ∈ list, Matches t e x y := by
  induction list with
  | nil => exact absurd rfl hne
  | cons e more ih =>
    cases more with
    | nil => simp [oneOf]
    | cons e' more =>
      rw [oneOf, matches_choice, ih (by simp)]
      simp

/-- A repetition matches as often as its body does. -/
theorem Matches.repeated_mono {body' : Expression α} (hvac : body.isVacuous = body'.isVacuous)
    (hbody : ∀ {x y}, Matches t body x y → Matches t body' x y)
    (h : Matches t (.repeated q reluctant body) x y) :
    Matches t (.repeated q reluctant body') x y := by
  generalize he : Expression.repeated q reluctant body = e at h
  induction h with
  | leave hq =>
    cases he
    exact .leave hq
  | once h =>
    cases he
    exact .once (hbody h)
  | again hq hv h _ _ ih =>
    cases he
    exact .again hq (hvac ▸ hv) (hbody h) (ih rfl)
  | _ => cases he

/-! ## Readings are matches -/

/-- After a round a body may be repeated as if it were starred. -/
theorem Matches.then_star (hq : q ≠ .optional) (hvac : body.isVacuous = false)
    (h : Matches t body x y) (hmore : Matches t (.repeated .star reluctant body) y z) :
    Matches t (.repeated q reluctant body) x z := by
  generalize he : Expression.repeated .star reluctant body = e at hmore
  induction hmore generalizing x with
  | leave _ =>
    cases he
    exact .once h
  | once h' =>
    cases he
    exact .again hq hvac h (.once h')
  | again _ _ h' _ _ ih =>
    cases he
    exact .again hq hvac h (ih h' rfl)
  | _ => cases he

theorem matches_of_mem_rounds {d left : Nat} {ways : Reading → List Reading} {r s : Reading}
    (hvac : body.isVacuous = false)
    (hbody : ∀ {r s}, s ∈ ways r → Matches t body r.standing s.standing)
    (h : s ∈ Reading.rounds d reluctant ways left r) :
    Matches t (.repeated .star reluctant body) r.standing s.standing := by
  induction left generalizing r with
  | zero => cases h
  | succ left ih =>
    obtain ⟨_, hs⟩ := Reading.mem_facing.mp h
    rcases Reading.mem_preferring.mp hs with hs | hs
    · obtain ⟨u, hu, hs⟩ := List.mem_flatMap.mp hs
      have hround : Matches t body r.standing u.standing := hbody (r := r.face d) hu
      exact .again (by decide) hvac hround (ih hs)
    · rw [List.mem_singleton.mp hs]
      exact .leave (by decide)

/-- Going through the body once, if at all. -/
theorem matches_of_mem_once {d : Nat} {ways : Reading → List Reading} {r s : Reading}
    (hq : q ≠ .plus) (hbody : ∀ {r s}, s ∈ ways r → Matches t body r.standing s.standing)
    (h : s ∈ Reading.facing d (fun r => Reading.preferring reluctant (ways r) [r]) r) :
    Matches t (.repeated q reluctant body) r.standing s.standing := by
  obtain ⟨_, hs⟩ := Reading.mem_facing.mp h
  rcases Reading.mem_preferring.mp hs with hs | hs
  · have hround : Matches t body r.standing s.standing := hbody (r := r.face d) hs
    exact .once hround
  · rw [List.mem_singleton.mp hs]
    exact .leave hq

theorem matches_of_mem_repetition {d limit : Nat} {ways : Reading → List Reading} {r s : Reading}
    (hbody : ∀ {r s}, s ∈ ways r → Matches t body r.standing s.standing)
    (h : s ∈ Reading.repetition q body.isVacuous body.isNullable reluctant limit d ways r) :
    Matches t (.repeated q reluctant body) r.standing s.standing := by
  cases q with
  | optional => exact matches_of_mem_once (by decide) hbody h
  | plus =>
    cases hvac : body.isVacuous with
    | true =>
      rw [hvac] at h
      exact .once (hbody h)
    | false =>
      rw [hvac] at h
      obtain ⟨u, hu, hs⟩ := List.mem_flatMap.mp h
      exact .then_star (by decide) hvac (hbody hu) (matches_of_mem_rounds hvac hbody hs)
  | star =>
    cases hvac : body.isVacuous with
    | true =>
      rw [hvac] at h
      exact matches_of_mem_once (by decide) hbody h
    | false =>
      cases hnull : body.isNullable with
      | false =>
        rw [hvac, hnull] at h
        exact matches_of_mem_rounds hvac hbody h
      | true =>
        rw [hvac, hnull, Reading.repetition, if_pos rfl] at h
        obtain ⟨_, hs⟩ := Reading.mem_facing.mp h
        rcases Reading.mem_preferring.mp hs with hs | hs
        · obtain ⟨u, hu, hs⟩ := List.mem_flatMap.mp hs
          have hround : Matches t body r.standing u.standing := hbody (r := r.face d) hu
          exact .again (by decide) hvac hround (matches_of_mem_rounds hvac hbody hs)
        · rw [List.mem_singleton.mp hs]
          exact .leave (by decide)

/-- Every reading of an expression is a match. -/
theorem matches_of_mem_readings {n : Nat} {r s : Reading} (h : s ∈ e.readingsOn t n r) :
    Matches t e r.standing s.standing := by
  induction e generalizing n r s with
  | empty =>
    rw [List.mem_singleton.mp h]
    exact .empty
  | atom a =>
    obtain ⟨position, hconsume, rfl⟩ := Option.map_eq_some_iff.mp (Option.mem_toList.mp h)
    exact .atom hconsume
  | group number body ih =>
    cases number with
    | none => exact .unnamed (ih h)
    | some m =>
      rw [readingsOn_group] at h
      obtain ⟨u, hu, rfl⟩ := List.mem_map.mp h
      exact .named (ih hu)
  | sequence first second ihf ihs =>
    obtain ⟨u, hu, hs⟩ := List.mem_flatMap.mp h
    exact .sequence (ihf hu) (ihs hs)
  | choice first second ihf ihs =>
    rw [readingsOn_choice] at h
    obtain ⟨_, hs⟩ := Reading.mem_facing.mp h
    rcases List.mem_append.mp hs with hs | hs
    · have hfirst : Matches t first r.standing s.standing := ihf (r := r.face n) hs
      exact .left hfirst
    · have hsecond : Matches t second r.standing s.standing := ihs (r := r.face n) hs
      exact .right hsecond
  | repeated q reluctant body ih => exact matches_of_mem_repetition ih h

/-! ## What a match saves -/

/-- A match goes forward on its track. -/
theorem Matches.le (h : Matches t e x y) (hle : x.1 ≤ t.length) : x.1 ≤ y.1 ∧ y.1 ≤ t.length := by
  induction h with
  | empty => exact ⟨Nat.le_refl _, hle⟩
  | atom h => exact ⟨Nat.le_of_lt (t.forward h), t.within h⟩
  | unnamed _ ih => exact ih hle
  | named _ ih => exact ih hle
  | sequence _ _ ihf ihs =>
    obtain ⟨hxy, hy⟩ := ihf hle
    obtain ⟨hyz, hz⟩ := ihs hy
    exact ⟨Nat.le_trans hxy hyz, hz⟩
  | left _ ih => exact ih hle
  | right _ ih => exact ih hle
  | leave _ => exact ⟨Nat.le_refl _, hle⟩
  | once _ ih => exact ih hle
  | again _ _ _ _ ih ihm =>
    obtain ⟨hxy, hy⟩ := ih hle
    obtain ⟨hyz, hz⟩ := ihm hy
    exact ⟨Nat.le_trans hxy hyz, hz⟩

/-- What a match saves lies between its ends. -/
theorem Matches.saved_between (h : Matches t e x y) (hle : x.1 ≤ t.length) :
    ∀ entry ∈ y.2, entry ∈ x.2 ∨ (x.1 ≤ entry.2 ∧ entry.2 ≤ y.1) := by
  induction h with
  | empty => exact fun entry h => .inl h
  | atom h => exact fun entry h => .inl h
  | unnamed _ ih => exact ih hle
  | named h ih =>
    have hpq := (h.le hle).1
    intro entry hin
    rcases List.mem_cons.mp hin with rfl | hin
    · exact .inr ⟨hpq, Nat.le_refl _⟩
    · rcases ih hle entry hin with hin | hbetween
      · rcases List.mem_cons.mp hin with rfl | hin
        · exact .inr ⟨Nat.le_refl _, hpq⟩
        · exact .inl hin
      · exact .inr hbetween
  | sequence hf hs ihf ihs =>
    obtain ⟨hxy, hy⟩ := hf.le hle
    have hyz := (hs.le hy).1
    intro entry hin
    rcases ihs hy entry hin with hin | hbetween
    · rcases ihf hle entry hin with hin | hbetween
      · exact .inl hin
      · exact .inr (by omega)
    · exact .inr (by omega)
  | left _ ih => exact ih hle
  | right _ ih => exact ih hle
  | leave _ => exact fun entry h => .inl h
  | once _ ih => exact ih hle
  | again _ _ h hm ih ihm =>
    obtain ⟨hxy, hy⟩ := h.le hle
    have hyz := (hm.le hy).1
    intro entry hin
    rcases ihm hy entry hin with hin | hbetween
    · rcases ih hle entry hin with hin | hbetween
      · exact .inl hin
      · exact .inr (by omega)
    · exact .inr (by omega)

theorem Matches.saved_le (h : Matches t e x y) (hle : x.1 ≤ t.length)
    (hsaved : ∀ entry ∈ x.2, entry.2 ≤ x.1) : ∀ entry ∈ y.2, entry.2 ≤ y.1 := by
  intro entry hin
  rcases h.saved_between hle entry hin with hold | hnew
  · exact Nat.le_trans (hsaved entry hold) (h.le hle).1
  · exact hnew.2

/-- The positions saved for a group are in order. -/
def InOrder (m : Nat) (saved : List (Nat × Nat)) : Prop :=
  ∀ start stop, saved.lookup (2 * m) = some start → saved.lookup (2 * m + 1) = some stop →
    start ≤ stop

/-- A match leaves the groups in order. While a group is open its positions may be out of order,
but closing it puts them in order again. -/
theorem Matches.inOrder (h : Matches t e x y) (hle : x.1 ≤ t.length)
    (hsaved : ∀ entry ∈ x.2, entry.2 ≤ x.1) {m : Nat} (hm : InOrder m x.2) : InOrder m y.2 := by
  induction h with
  | empty => exact hm
  | atom _ => exact hm
  | unnamed _ ih => exact ih hle hsaved hm
  | @named k body p q saved saved' h ih =>
    have hopen : ∀ entry ∈ (2 * k, p) :: saved, entry.2 ≤ p := by
      intro entry hin
      rcases List.mem_cons.mp hin with rfl | hin
      · exact Nat.le_refl _
      · exact hsaved entry hin
    intro start stop hstart hstop
    have hne : (2 * m == 2 * k + 1) = false := by simp only [beq_eq_false_iff_ne]; omega
    rw [List.lookup_cons, hne] at hstart
    by_cases hmk : m = k
    · subst hmk
      rw [List.lookup_cons, beq_self_eq_true] at hstop
      cases hstop
      have hmem : (2 * m, start) ∈ saved' := by
        obtain ⟨front, back, rfl, _⟩ := List.lookup_eq_some_iff.mp hstart
        exact List.mem_append_right _ List.mem_cons_self
      exact h.saved_le hle hopen _ hmem
    · have hne' : (2 * m + 1 == 2 * k + 1) = false := by simp only [beq_eq_false_iff_ne]; omega
      rw [List.lookup_cons, hne'] at hstop
      refine ih hle hopen ?_ start stop hstart hstop
      intro start stop hstart hstop
      have hne : (2 * m == 2 * k) = false := by simp only [beq_eq_false_iff_ne]; omega
      have hne' : (2 * m + 1 == 2 * k) = false := by simp only [beq_eq_false_iff_ne]; omega
      rw [List.lookup_cons, hne] at hstart
      rw [List.lookup_cons, hne'] at hstop
      exact hm start stop hstart hstop
  | sequence hf hs ihf ihs =>
    exact ihs (hf.le hle).2 (hf.saved_le hle hsaved) (ihf hle hsaved hm)
  | left _ ih => exact ih hle hsaved hm
  | right _ ih => exact ih hle hsaved hm
  | leave _ => exact hm
  | once _ ih => exact ih hle hsaved hm
  | again _ _ h hmore ih ihm =>
    exact ihm (h.le hle).2 (h.saved_le hle hsaved) (ih hle hsaved hm)

/-- The numbers of the groups, in the order in which they open. -/
def groupNumbers : Expression α → List Nat
  | empty => []
  | atom _ => []
  | group number body => number.toList ++ body.groupNumbers
  | sequence first second => first.groupNumbers ++ second.groupNumbers
  | choice first second => first.groupNumbers ++ second.groupNumbers
  | repeated _ _ body => body.groupNumbers

/-- What must consume something moves on. -/
theorem Matches.lt_of_not_nullable (h : e.Matches t x y) (hle : x.1 ≤ t.length)
    (hnull : e.isNullable = false) : x.1 < y.1 := by
  induction h with
  | empty => cases hnull
  | atom h => exact t.forward h
  | unnamed _ ih => exact ih hle hnull
  | named _ ih => exact ih hle hnull
  | sequence hf hs ihf ihs =>
    have hxy := hf.le hle
    have hyz := hs.le hxy.2
    rcases Bool.and_eq_false_iff.mp hnull with hnull | hnull
    · exact Nat.lt_of_lt_of_le (ihf hle hnull) hyz.1
    · exact Nat.lt_of_le_of_lt hxy.1 (ihs hxy.2 hnull)
  | left _ ih => exact ih hle (Bool.or_eq_false_iff.mp hnull).1
  | right _ ih => exact ih hle (Bool.or_eq_false_iff.mp hnull).2
  | @leave q _ _ _ hq =>
    cases q with
    | plus => exact absurd rfl hq
    | star => cases hnull
    | optional => cases hnull
  | @once q _ _ _ _ _ ih =>
    cases q with
    | plus => exact ih hle hnull
    | star => cases hnull
    | optional => cases hnull
  | @again q _ _ _ _ _ _ _ h hmore ih _ =>
    cases q with
    | plus =>
      have hxy := h.le hle
      exact Nat.lt_of_lt_of_le (ih hle hnull) (hmore.le hxy.2).1
    | star => cases hnull
    | optional => cases hnull

/-- What may be empty matches the empty sequence everywhere. -/
theorem exists_matches_of_nullable (hnull : e.isNullable = true) (x : Standing) :
    ∃ y, e.Matches t x y := by
  have hempty : ∀ x : Standing, ∃ saved, e.Matches t x (x.1, saved) := by
    induction e with
    | empty => exact fun x => ⟨x.2, .empty⟩
    | atom a => cases hnull
    | group number body ih =>
      intro x
      cases number with
      | none =>
        obtain ⟨saved, h⟩ := ih hnull x
        exact ⟨saved, .unnamed h⟩
      | some m =>
        obtain ⟨saved, h⟩ := ih hnull (x.1, (2 * m, x.1) :: x.2)
        exact ⟨_, .named h⟩
    | sequence first second ihf ihs =>
      intro x
      obtain ⟨hf, hs⟩ := Bool.and_eq_true_iff.mp hnull
      obtain ⟨saved, hfirst⟩ := ihf hf x
      obtain ⟨saved', hsecond⟩ := ihs hs (x.1, saved)
      exact ⟨saved', .sequence hfirst hsecond⟩
    | choice first second ihf ihs =>
      intro x
      rcases Bool.or_eq_true_iff.mp hnull with hnull | hnull
      · obtain ⟨saved, h⟩ := ihf hnull x
        exact ⟨saved, .left h⟩
      · obtain ⟨saved, h⟩ := ihs hnull x
        exact ⟨saved, .right h⟩
    | repeated q reluctant body ih =>
      intro x
      cases q with
      | star => exact ⟨x.2, .leave (by decide)⟩
      | optional => exact ⟨x.2, .leave (by decide)⟩
      | plus =>
        obtain ⟨saved, h⟩ := ih hnull x
        exact ⟨saved, .once h⟩
  obtain ⟨saved, h⟩ := hempty x
  exact ⟨_, h⟩

/-- A slot that belongs to no group of an expression is left alone. -/
theorem Matches.lookup_eq (h : e.Matches t x y) {slot : Nat}
    (hslot : ∀ m ∈ e.groupNumbers, slot ≠ 2 * m ∧ slot ≠ 2 * m + 1) :
    y.2.lookup slot = x.2.lookup slot := by
  induction h with
  | empty => rfl
  | atom _ => rfl
  | unnamed _ ih => exact ih hslot
  | @named m body p q saved saved' _ ih =>
    obtain ⟨hopen, hclose⟩ := hslot m (List.mem_append_left _ List.mem_cons_self)
    have hbody := ih fun k hk => hslot k (List.mem_append_right _ hk)
    have hne : (slot == 2 * m) = false := beq_eq_false_iff_ne.mpr hopen
    have hne' : (slot == 2 * m + 1) = false := beq_eq_false_iff_ne.mpr hclose
    rw [List.lookup_cons, hne']
    rw [List.lookup_cons, hne] at hbody
    exact hbody
  | sequence _ _ ihf ihs =>
    rw [ihs fun m hm => hslot m (List.mem_append_right _ hm),
      ihf fun m hm => hslot m (List.mem_append_left _ hm)]
  | left _ ih => exact ih fun m hm => hslot m (List.mem_append_left _ hm)
  | right _ ih => exact ih fun m hm => hslot m (List.mem_append_right _ hm)
  | leave _ => rfl
  | once _ ih => exact ih hslot
  | again _ _ _ _ ih ihm => rw [ihm hslot, ih hslot]

end Expression

end Klingon.Pattern
