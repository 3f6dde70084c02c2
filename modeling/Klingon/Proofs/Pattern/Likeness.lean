import Klingon.Proofs.Pattern.Track

/-!
# Expressions that read alike

Two expressions read alike if corresponding readings come to the same, whatever is to follow. The
expressions may be read on different tracks, one of which is laid into the other, and their
decisions may be different ones: what a reading has faced matters only as far as it decides which
ways are still open.
-/

namespace Klingon.Pattern

variable {α β γ : Type}

/-! ## Lists of ways with the same first outcome -/

/-- Whatever becomes of the ways, the first of them that comes to something comes to the same in
both lists if corresponding ways do. -/
structure SameFirst (R : Reading → Reading → Prop) (l l' : List Reading) : Prop where
  first : ∀ {δ : Type} (K K' : Reading → Option δ),
    (∀ s ∈ l, ∀ s' ∈ l', R s s' → K s = K' s') → l.findSome? K = l'.findSome? K'
  total : ∀ s ∈ l, ∃ s' ∈ l', R s s'
  onto : ∀ s' ∈ l', ∃ s ∈ l, R s s'

namespace SameFirst

variable {R R' : Reading → Reading → Prop} {l l' more more' : List Reading} {s s' : Reading}

theorem nil : SameFirst R [] [] where
  first _ _ _ := rfl
  total _ h := absurd h List.not_mem_nil
  onto _ h := absurd h List.not_mem_nil

theorem singleton (h : R s s') : SameFirst R [s] [s'] where
  first K K' hK := by
    rw [findSome?_singleton, findSome?_singleton]
    exact hK s List.mem_cons_self s' List.mem_cons_self h
  total u hu := by
    rw [List.mem_singleton.mp hu]
    exact ⟨s', List.mem_cons_self, h⟩
  onto u hu := by
    rw [List.mem_singleton.mp hu]
    exact ⟨s, List.mem_cons_self, h⟩

/-- A list of one way over and over, and that way alone. -/
theorem ofOne (hmem : s ∈ l) (hall : ∀ u ∈ l, u = s) (h : R s s') : SameFirst R l [s'] where
  first K K' hK := by
    have hs := hK s hmem s' List.mem_cons_self h
    rw [findSome?_singleton, ← hs]
    cases hcome : K s with
    | none => exact List.findSome?_eq_none_iff.mpr fun u hu => hall u hu ▸ hcome
    | some result =>
      cases l with
      | nil => cases hmem
      | cons u more =>
        have hu : K u = some result := hall u List.mem_cons_self ▸ hcome
        rw [List.findSome?_cons, hu]
  total u hu := ⟨s', List.mem_cons_self, hall u hu ▸ h⟩
  onto u hu := by
    rw [List.mem_singleton.mp hu]
    exact ⟨s, hmem, h⟩

theorem append (h : SameFirst R l l') (hmore : SameFirst R more more') :
    SameFirst R (l ++ more) (l' ++ more') where
  first K K' hK := by
    rw [List.findSome?_append, List.findSome?_append]
    rw [h.first K K' fun s hs s' hs' => hK s (List.mem_append_left _ hs) s'
      (List.mem_append_left _ hs')]
    rw [hmore.first K K' fun s hs s' hs' => hK s (List.mem_append_right _ hs) s'
      (List.mem_append_right _ hs')]
  total s hs := by
    rcases List.mem_append.mp hs with hs | hs
    · obtain ⟨s', hs', hR⟩ := h.total s hs
      exact ⟨s', List.mem_append_left _ hs', hR⟩
    · obtain ⟨s', hs', hR⟩ := hmore.total s hs
      exact ⟨s', List.mem_append_right _ hs', hR⟩
  onto s' hs' := by
    rcases List.mem_append.mp hs' with hs' | hs'
    · obtain ⟨s, hs, hR⟩ := h.onto s' hs'
      exact ⟨s, List.mem_append_left _ hs, hR⟩
    · obtain ⟨s, hs, hR⟩ := hmore.onto s' hs'
      exact ⟨s, List.mem_append_right _ hs, hR⟩

theorem flatMap {f f' : Reading → List Reading} (h : SameFirst R l l')
    (hf : ∀ s ∈ l, ∀ s' ∈ l', R s s' → SameFirst R' (f s) (f' s')) :
    SameFirst R' (l.flatMap f) (l'.flatMap f') where
  first K K' hK := by
    rw [findSome?_flatMap, findSome?_flatMap]
    refine h.first _ _ fun s hs s' hs' hR => ?_
    refine (hf s hs s' hs' hR).first K K' fun t ht t' ht' hR' => ?_
    exact hK t (List.mem_flatMap.mpr ⟨s, hs, ht⟩) t' (List.mem_flatMap.mpr ⟨s', hs', ht'⟩) hR'
  total t ht := by
    obtain ⟨s, hs, ht⟩ := List.mem_flatMap.mp ht
    obtain ⟨s', hs', hR⟩ := h.total s hs
    obtain ⟨t', ht', hR'⟩ := (hf s hs s' hs' hR).total t ht
    exact ⟨t', List.mem_flatMap.mpr ⟨s', hs', ht'⟩, hR'⟩
  onto t' ht' := by
    obtain ⟨s', hs', ht'⟩ := List.mem_flatMap.mp ht'
    obtain ⟨s, hs, hR⟩ := h.onto s' hs'
    obtain ⟨t, ht, hR'⟩ := (hf s hs s' hs' hR).onto t' ht'
    exact ⟨t, List.mem_flatMap.mpr ⟨s, hs, ht⟩, hR'⟩

theorem map {f f' : Reading → Reading} (h : SameFirst R l l')
    (hf : ∀ s s', R s s' → R' (f s) (f' s')) : SameFirst R' (l.map f) (l'.map f') := by
  rw [List.map_eq_flatMap, List.map_eq_flatMap]
  exact h.flatMap fun s _ s' _ hR => singleton (hf s s' hR)

theorem mono (h : SameFirst R l l') (hR : ∀ s ∈ l, ∀ s' ∈ l', R s s' → R' s s') :
    SameFirst R' l l' where
  first K K' hK := h.first K K' fun s hs s' hs' hr => hK s hs s' hs' (hR s hs s' hs' hr)
  total s hs := by
    obtain ⟨s', hs', hr⟩ := h.total s hs
    exact ⟨s', hs', hR s hs s' hs' hr⟩
  onto s' hs' := by
    obtain ⟨s, hs, hr⟩ := h.onto s' hs'
    exact ⟨s, hs, hR s hs s' hs' hr⟩

theorem preferring {reluctant : Bool} (h : SameFirst R l l') (hmore : SameFirst R more more') :
    SameFirst R (Reading.preferring reluctant l more) (Reading.preferring reluctant l' more') := by
  cases reluctant with
  | true => exact hmore.append h
  | false => exact h.append hmore

theorem facing {d d' : Nat} {ways ways' : Reading → List Reading}
    (hiff : d ∈ s.faced ↔ d' ∈ s'.faced)
    (h : d ∉ s.faced → SameFirst R (ways (s.face d)) (ways' (s'.face d'))) :
    SameFirst R (s.facing d ways) (s'.facing d' ways') := by
  by_cases hin : d ∈ s.faced
  · rw [Reading.facing, if_pos hin, Reading.facing, if_pos (hiff.mp hin)]
    exact .nil
  · rw [Reading.facing, if_neg hin, Reading.facing, if_neg fun h => hin (hiff.mpr h)]
    exact h hin

theorem symm (h : SameFirst R l l') : SameFirst (fun s' s => R s s') l' l where
  first K' K hK := (h.first K K' fun s hs s' hs' hr => (hK s' hs' s hs hr).symm).symm
  total := h.onto
  onto := h.total

/-- What becomes of a way of the list in the middle is what becomes of the ways it corresponds to,
which is the same for all of them. -/
theorem trans (h : SameFirst R l l') (h' : SameFirst R' l' more) :
    SameFirst (fun s t => ∃ u, R s u ∧ R' u t) l more where
  first {δ} K K' hK := by
    classical
    let middle (u : Reading) : Option δ := if hu : ∃ s ∈ l, R s u then K hu.choose else none
    have hmiddle : ∀ u t, R' u t → t ∈ more → (∃ s ∈ l, R s u) → middle u = K' t := by
      intro u t hut ht hu
      have hchosen := hu.choose_spec
      rw [show middle u = K hu.choose from dif_pos hu]
      exact hK _ hchosen.1 t ht ⟨u, hchosen.2, hut⟩
    have hleft : l.findSome? K = l'.findSome? middle := by
      refine h.first K middle fun s hs u hu hsu => ?_
      obtain ⟨t, ht, hut⟩ := h'.total u hu
      rw [hmiddle u t hut ht ⟨s, hs, hsu⟩]
      exact hK s hs t ht ⟨u, hsu, hut⟩
    rw [hleft]
    exact h'.first middle K' fun u hu t ht hut => hmiddle u t hut ht (h.onto u hu)
  total s hs := by
    obtain ⟨u, hu, hsu⟩ := h.total s hs
    obtain ⟨t, ht, hut⟩ := h'.total u hu
    exact ⟨t, ht, u, hsu, hut⟩
  onto t ht := by
    obtain ⟨u, hu, hut⟩ := h'.onto t ht
    obtain ⟨s, hs, hsu⟩ := h.onto u hu
    exact ⟨s, hs, u, hsu, hut⟩

end SameFirst

/-! ## Corresponding readings -/

/-- A track laid into another one. -/
structure Laying (t : Track α) (t' : Track β) where
  place : Nat → Nat
  increasing : ∀ {p q}, p < q → place p < place q
  within : ∀ {p}, p ≤ t.length → place p ≤ t'.length

namespace Laying

variable {t : Track α} {t' : Track β}

/-- A track as it lies in itself. -/
def self (t : Track α) : Laying t t where
  place p := p
  increasing h := h
  within h := h

theorem place_inj (m : Laying t t') {p q : Nat} (h : m.place p = m.place q) : p = q := by
  rcases Nat.lt_trichotomy p q with hlt | heq | hlt
  · have := m.increasing hlt
    omega
  · exact heq
  · have := m.increasing hlt
    omega

/-- The saved positions as they lie in the other track. -/
def saves (m : Laying t t') (saved : List (Nat × Nat)) : List (Nat × Nat) :=
  saved.map fun entry => (entry.1, m.place entry.2)

theorem saves_self (saved : List (Nat × Nat)) : (self t).saves saved = saved :=
  List.map_id _

end Laying

/-- A relation between what two readings have faced that looks at some decisions only. -/
structure Concerns (own own' : Nat → Prop) (C : List Nat → List Nat → Prop) : Prop where
  blank : C [] []
  same : ∀ {F F' G G'}, C F F' → (∀ d, own d → (d ∈ F ↔ d ∈ G)) →
    (∀ d, own' d → (d ∈ F' ↔ d ∈ G')) → C G G'

namespace Concerns

variable {own own' own₁ own₁' : Nat → Prop} {C C₁ : List Nat → List Nat → Prop}

theorem both (h : Concerns own own' C) (h₁ : Concerns own₁ own₁' C₁) :
    Concerns (fun d => own d ∨ own₁ d) (fun d => own' d ∨ own₁' d)
      fun F F' => C F F' ∧ C₁ F F' where
  blank := ⟨h.blank, h₁.blank⟩
  same hC hF hF' :=
    ⟨h.same hC.1 (fun d hd => hF d (.inl hd)) fun d hd => hF' d (.inl hd),
      h₁.same hC.2 (fun d hd => hF d (.inr hd)) fun d hd => hF' d (.inr hd)⟩

theorem mono (h : Concerns own own' C) (hown : ∀ d, own d → own₁ d)
    (hown' : ∀ d, own' d → own₁' d) : Concerns own₁ own₁' C where
  blank := h.blank
  same hC hF hF' := h.same hC (fun d hd => hF d (hown d hd)) fun d hd => hF' d (hown' d hd)

/-- The decisions of a run stand for those of another run, one for one. -/
theorem run (n n' k : Nat) :
    Concerns (fun d => n ≤ d ∧ d < n + k) (fun d => n' ≤ d ∧ d < n' + k)
      fun F F' => ∀ i < k, n + i ∈ F ↔ n' + i ∈ F' where
  blank _ _ := iff_of_false List.not_mem_nil List.not_mem_nil
  same hC hF hF' i hi := by
    rw [← hF (n + i) (by omega), ← hF' (n' + i) (by omega), hC i hi]

theorem run_face {n n' k i : Nat} {F F' : List Nat}
    (h : ∀ j < k, n + j ∈ F ↔ n' + j ∈ F') :
    ∀ j < k, n + j ∈ (n + i) :: F ↔ n' + j ∈ (n' + i) :: F' := by
  intro j hj
  rw [List.mem_cons, List.mem_cons, h j hj, Nat.add_left_cancel_iff, Nat.add_left_cancel_iff]

/-- Facing decisions that are of no concern. -/
theorem faceAll (h : Concerns own own' C) {more more' : List Nat} (hmore : ∀ d ∈ more, ¬ own d)
    (hmore' : ∀ d ∈ more', ¬ own' d) {F F' : List Nat} (hC : C F F') :
    C (more ++ F) (more' ++ F') := by
  refine h.same hC (fun d hd => ?_) fun d hd => ?_
  · rw [List.mem_append, or_iff_right fun hin => hmore d hin hd]
  · rw [List.mem_append, or_iff_right fun hin => hmore' d hin hd]

theorem face (h : Concerns own own' C) {d d' : Nat} (hd : ¬ own d) (hd' : ¬ own' d')
    {F F' : List Nat} (hC : C F F') : C (d :: F) (d' :: F') :=
  h.faceAll (List.forall_mem_singleton.mpr hd) (List.forall_mem_singleton.mpr hd') hC

end Concerns

/-- A reading on a track and a reading on another track in which it lies. -/
structure Corresponds {t : Track α} {t' : Track β} (m : Laying t t')
    (C : List Nat → List Nat → Prop) (r r' : Reading) : Prop where
  within : r.position ≤ t.length
  position : r'.position = m.place r.position
  saved : r'.saved = m.saves r.saved
  faced : C r.faced r'.faced

namespace Corresponds

variable {t : Track α} {t' : Track β} {m : Laying t t'} {C C₁ : List Nat → List Nat → Prop}
  {r r' s s' : Reading}

theorem within' (h : Corresponds m C r r') : r'.position ≤ t'.length := by
  rw [h.position]
  exact m.within h.within

theorem refacing (h : Corresponds m C r r') (hC : C₁ r.faced r'.faced) : Corresponds m C₁ r r' :=
  ⟨h.within, h.position, h.saved, hC⟩

theorem flip (h : Corresponds (.self t) C r r') :
    Corresponds (.self t) (fun F F' => C F' F) r' r where
  within := h.within'
  position := h.position.symm
  saved := by rw [Laying.saves_self, h.saved, Laying.saves_self]
  faced := h.faced

theorem save (h : Corresponds m C r r') (slot : Nat) :
    Corresponds m C (r.save slot) (r'.save slot) where
  within := h.within
  position := h.position
  saved := by
    rw [Reading.save, h.saved, h.position]
    rfl
  faced := h.faced

theorem face (h : Corresponds m C r r') {d d' : Nat}
    (hface : ∀ F F', C F F' → C (d :: F) (d' :: F')) :
    Corresponds m C (r.face d) (r'.face d') :=
  ⟨h.within, h.position, h.saved, hface _ _ h.faced⟩

/-- What is of no concern to the decisions that are faced on the way stays as it is. -/
theorem carry {own own' : Nat → Prop} (hC : Concerns own own' C) {own₁ own₁' : Nat → Prop}
    (hown : ∀ d, own d → ¬ own₁ d) (hown' : ∀ d, own' d → ¬ own₁' d)
    (h : Corresponds m C r r') (h₁ : Corresponds m C₁ s s')
    (hreach : r.Reaches own₁ t.length s) (hreach' : r'.Reaches own₁' t'.length s') :
    C s.faced s'.faced := by
  by_cases hpos : s.position = r.position
  · have hpos' : s'.position = r'.position := by rw [h₁.position, h.position, hpos]
    refine hC.same h.faced (fun d hd => ?_) fun d hd => ?_
    · rw [hreach.others d (hown d hd)]
      simp [hpos]
    · rw [hreach'.others d (hown' d hd)]
      simp [hpos']
  · have hpos' : s'.position ≠ r'.position := by
      intro heq
      rw [h₁.position, h.position] at heq
      exact hpos (m.place_inj heq)
    refine hC.same hC.blank (fun d hd => ?_) fun d hd => ?_
    · rw [hreach.others d (hown d hd)]
      simp [hpos]
    · rw [hreach'.others d (hown' d hd)]
      simp [hpos']

end Corresponds

/-- Corresponding readings go on in ways that correspond. -/
def GoOnAlike {t : Track α} {t' : Track β} (m : Laying t t') (C : List Nat → List Nat → Prop)
    (ways ways' : Reading → List Reading) : Prop :=
  ∀ r r', Corresponds m C r r' → SameFirst (Corresponds m C) (ways r) (ways' r')

namespace GoOnAlike

variable {t : Track α} {t' : Track β} {m : Laying t t'} {C : List Nat → List Nat → Prop}
  {ways ways' more more' : Reading → List Reading} {d d' : Nat} {reluctant : Bool}

theorem stay : GoOnAlike m C (fun r => [r]) fun r => [r] :=
  fun _ _ h => .singleton h

theorem andThen (h : GoOnAlike m C ways ways') (hmore : GoOnAlike m C more more') :
    GoOnAlike m C (fun r => (ways r).flatMap more) fun r => (ways' r).flatMap more' :=
  fun r r' hr => (h r r' hr).flatMap fun s _ s' _ hs => hmore s s' hs

theorem either (h : GoOnAlike m C ways ways') (hmore : GoOnAlike m C more more') :
    GoOnAlike m C (fun r => ways r ++ more r) fun r => ways' r ++ more' r :=
  fun r r' hr => (h r r' hr).append (hmore r r' hr)

theorem preferring (h : GoOnAlike m C ways ways') (hmore : GoOnAlike m C more more') :
    GoOnAlike m C (fun r => Reading.preferring reluctant (ways r) (more r))
      fun r => Reading.preferring reluctant (ways' r) (more' r) :=
  fun r r' hr => (h r r' hr).preferring (hmore r r' hr)

theorem facing (hd : ∀ F F', C F F' → (d ∈ F ↔ d' ∈ F'))
    (hface : ∀ F F', C F F' → C (d :: F) (d' :: F')) (h : GoOnAlike m C ways ways') :
    GoOnAlike m C (Reading.facing d ways) (Reading.facing d' ways') :=
  fun _ _ hr => .facing (hd _ _ hr.faced) fun _ => h _ _ (hr.face hface)

/-- The measure of the rounds is what is left of either track. -/
theorem rounds (hd : ∀ F F', C F F' → (d ∈ F ↔ d' ∈ F'))
    (hface : ∀ F F', C F F' → C (d :: F) (d' :: F')) (h : GoOnAlike m C ways ways')
    {own : Nat → Prop} (hown : ¬ own d)
    (hreach : ∀ r s, r.position ≤ t.length → s ∈ ways r → r.Reaches own t.length s) :
    GoOnAlike m C (Reading.rounds d reluctant ways (t.length + 1))
      (Reading.rounds d' reluctant ways' (t'.length + 1)) := by
  have hleft : ∀ left left' r r', t.length + 1 ≤ r.position + left →
      t'.length + 1 ≤ r'.position + left' → Corresponds m C r r' →
      SameFirst (Corresponds m C) (Reading.rounds d reluctant ways left r)
        (Reading.rounds d' reluctant ways' left' r') := by
    intro left
    induction left with
    | zero =>
      intro left' r r' hle _ hr
      have := hr.within
      omega
    | succ left ih =>
      intro left' r r' hle hle' hr
      cases left' with
      | zero =>
        have := hr.within'
        omega
      | succ left' =>
        refine .facing (hd _ _ hr.faced) fun _ => ?_
        have hr := hr.face hface
        refine .preferring ((h _ _ hr).flatMap fun s hs s' hs' hR => ?_) (.singleton hr)
        have hfrom := hreach _ s hr.within hs
        by_cases hlt : (r.face d).position < s.position
        · have hlt' := m.increasing hlt
          rw [← hr.position, ← hR.position] at hlt'
          have hpos : (r.face d).position = r.position := rfl
          have hpos' : (r'.face d').position = r'.position := rfl
          exact ih left' s s' (by omega) (by omega) hR
        · have heq : s.position = (r.face d).position := by
            have := hfrom.ordered
            omega
          have hin : d ∈ s.faced := (hfrom.others d hown).mpr ⟨List.mem_cons_self, heq⟩
          rw [Reading.rounds_of_faced hin, Reading.rounds_of_faced ((hd _ _ hR.faced).mp hin)]
          exact .nil
  intro r r' hr
  exact hleft _ _ r r' (by omega) (by omega) hr

/-- A repetition faces two decisions at most besides those of its body. -/
theorem repetition {q : Quantifier} {vacuous nullable : Bool} {n n' : Nat}
    (hd : ∀ i < Expression.loopDecisions q vacuous nullable, ∀ F F', C F F' →
      (n + i ∈ F ↔ n' + i ∈ F'))
    (hface : ∀ i < Expression.loopDecisions q vacuous nullable, ∀ F F', C F F' →
      C ((n + i) :: F) ((n' + i) :: F'))
    (h : GoOnAlike m C ways ways') {own : Nat → Prop}
    (hown : ∀ i < Expression.loopDecisions q vacuous nullable, ¬ own (n + i))
    (hreach : ∀ r s, r.position ≤ t.length → s ∈ ways r → r.Reaches own t.length s) :
    GoOnAlike m C (Reading.repetition q vacuous nullable reluctant t.length n ways)
      (Reading.repetition q vacuous nullable reluctant t'.length n' ways') :=
  match q, vacuous, nullable with
  | .plus, true, _ => h
  | .plus, false, _ =>
    h.andThen (.rounds (hd 0 Nat.one_pos) (hface 0 Nat.one_pos) h (hown 0 Nat.one_pos) hreach)
  | .optional, _, _ => .facing (hd 0 Nat.one_pos) (hface 0 Nat.one_pos) (h.preferring .stay)
  | .star, true, _ => .facing (hd 0 Nat.one_pos) (hface 0 Nat.one_pos) (h.preferring .stay)
  | .star, false, false =>
    .rounds (hd 0 Nat.one_pos) (hface 0 Nat.one_pos) h (hown 0 Nat.one_pos) hreach
  | .star, false, true =>
    .facing (hd 0 Nat.two_pos) (hface 0 Nat.two_pos) <| .preferring
      (h.andThen (.rounds (hd 1 Nat.one_lt_two) (hface 1 Nat.one_lt_two) h
        (hown 1 Nat.one_lt_two) hreach)) .stay

end GoOnAlike

/-! ## Expressions -/

/-- The expressions read alike, whatever numbers their decisions have. -/
structure ReadsLike {t : Track α} {t' : Track β} (m : Laying t t') (e : Expression α)
    (e' : Expression β) : Prop where
  nullable : e.isNullable = e'.isNullable
  vacuous : e.isVacuous = e'.isVacuous
  readings : ∀ n n', ∃ C, Concerns (e.Owns n) (e'.Owns n') C ∧
    GoOnAlike m C (e.readingsOn t n) (e'.readingsOn t' n')

section Beside

variable {t : Track α} {t' : Track β} {m : Laying t t'} {C C₀ C₁ : List Nat → List Nat → Prop}
  {e : Expression α} {e' : Expression β} {n n' : Nat}

/-- An expression leaves alone what concerns other decisions than its own. -/
theorem GoOnAlike.beside (h : GoOnAlike m C₁ (e.readingsOn t n) (e'.readingsOn t' n'))
    {own own' : Nat → Prop} (hC₀ : Concerns own own' C₀) (hown : ∀ d, own d → ¬ e.Owns n d)
    (hown' : ∀ d, own' d → ¬ e'.Owns n' d) (hiff : ∀ F F', C F F' ↔ C₁ F F' ∧ C₀ F F') :
    GoOnAlike m C (e.readingsOn t n) (e'.readingsOn t' n') := by
  intro r r' hr
  have hboth := (hiff _ _).mp hr.faced
  refine (h r r' (hr.refacing hboth.1)).mono fun s hs s' hs' hR => ?_
  have hcarry : C₀ s.faced s'.faced :=
    Corresponds.carry hC₀ hown hown' (hr.refacing hboth.2) hR
      (reaches_of_mem_readings hs hr.within) (reaches_of_mem_readings hs' hr.within')
  exact hR.refacing ((hiff _ _).mpr ⟨hR.faced, hcarry⟩)

end Beside

namespace ReadsLike

variable {t : Track α} {t' : Track β} {m : Laying t t'} {e first second body : Expression α}
  {e' first' second' body' : Expression β}

theorem empty : ReadsLike m (.empty : Expression α) (.empty : Expression β) where
  nullable := rfl
  vacuous := rfl
  readings _ _ := ⟨fun _ _ => True, ⟨trivial, fun _ _ _ => trivial⟩, .stay⟩

theorem group (h : ReadsLike m body body') (number : Option Nat) :
    ReadsLike m (.group number body) (.group number body') where
  nullable := h.nullable
  vacuous := h.vacuous
  readings n n' := by
    obtain ⟨C, hC, hbody⟩ := h.readings n n'
    refine ⟨C, hC, ?_⟩
    cases number with
    | none => exact hbody
    | some number =>
      intro r r' hr
      rw [Expression.readingsOn_group, Expression.readingsOn_group]
      exact (hbody _ _ (hr.save (2 * number))).map fun s s' hs => hs.save (2 * number + 1)

theorem sequence (hf : ReadsLike m first first') (hs : ReadsLike m second second') :
    ReadsLike m (.sequence first second) (.sequence first' second') where
  nullable := by rw [Expression.isNullable, hf.nullable, hs.nullable]; rfl
  vacuous := by rw [Expression.isVacuous, hf.vacuous, hs.vacuous]; rfl
  readings n n' := by
    obtain ⟨C₁, hC₁, hf⟩ := hf.readings n n'
    obtain ⟨C₂, hC₂, hs⟩ := hs.readings (n + first.decisions) (n' + first'.decisions)
    refine ⟨fun F F' => C₁ F F' ∧ C₂ F F', (hC₁.both hC₂).mono ?_ ?_, .andThen ?_ ?_⟩
    · simp only [Expression.Owns, Expression.decisions]
      omega
    · simp only [Expression.Owns, Expression.decisions]
      omega
    · refine hf.beside hC₂ ?_ ?_ fun F F' => Iff.rfl
      · simp only [Expression.Owns]
        omega
      · simp only [Expression.Owns]
        omega
    · refine hs.beside hC₁ ?_ ?_ fun F F' => And.comm
      · simp only [Expression.Owns]
        omega
      · simp only [Expression.Owns]
        omega

theorem choice (hf : ReadsLike m first first') (hs : ReadsLike m second second') :
    ReadsLike m (.choice first second) (.choice first' second') where
  nullable := by rw [Expression.isNullable, hf.nullable, hs.nullable]; rfl
  vacuous := by rw [Expression.isVacuous, hf.vacuous, hs.vacuous]; rfl
  readings n n' := by
    obtain ⟨C₁, hC₁, hf⟩ := hf.readings (n + 1) (n' + 1)
    obtain ⟨C₂, hC₂, hs⟩ := hs.readings (n + 1 + first.decisions) (n' + 1 + first'.decisions)
    have hd := Concerns.run n n' 1
    have hone : ∀ {F F'}, C₁ F F' → C₁ (n :: F) (n' :: F') :=
      hC₁.face (by simp only [Expression.Owns]; omega) (by simp only [Expression.Owns]; omega)
    have htwo : ∀ {F F'}, C₂ F F' → C₂ (n :: F) (n' :: F') :=
      hC₂.face (by simp only [Expression.Owns]; omega) (by simp only [Expression.Owns]; omega)
    refine ⟨fun F F' => (∀ i < 1, n + i ∈ F ↔ n' + i ∈ F') ∧ C₁ F F' ∧ C₂ F F',
      (hd.both (hC₁.both hC₂)).mono ?_ ?_, .facing (fun F F' h => h.1 0 Nat.one_pos)
        (fun F F' h => ⟨Concerns.run_face (i := 0) h.1, hone h.2.1, htwo h.2.2⟩) (.either ?_ ?_)⟩
    · simp only [Expression.Owns, Expression.decisions]
      omega
    · simp only [Expression.Owns, Expression.decisions]
      omega
    · refine hf.beside (hd.both hC₂) ?_ ?_ fun F F' => and_left_comm
      · simp only [Expression.Owns]
        omega
      · simp only [Expression.Owns]
        omega
    · refine hs.beside (hd.both hC₁) ?_ ?_ fun F F' => ?_
      · simp only [Expression.Owns]
        omega
      · simp only [Expression.Owns]
        omega
      · rw [← and_assoc, and_comm]

theorem repeated (h : ReadsLike m body body') (q : Quantifier) (reluctant : Bool) :
    ReadsLike m (.repeated q reluctant body) (.repeated q reluctant body') where
  nullable := by
    cases q with
    | plus => exact h.nullable
    | star => rfl
    | optional => rfl
  vacuous := h.vacuous
  readings n n' := by
    let k := Expression.loopDecisions q body.isVacuous body.isNullable
    have hk : Expression.loopDecisions q body'.isVacuous body'.isNullable = k := by
      rw [← h.vacuous, ← h.nullable]
    obtain ⟨C₁, hC₁, hbody⟩ := h.readings (n + k) (n' + k)
    have hd := Concerns.run n n' k
    have hface : ∀ i < k, ∀ F F', C₁ F F' → C₁ ((n + i) :: F) ((n' + i) :: F') := by
      intro i hi F F'
      refine hC₁.face ?_ ?_
      · simp only [Expression.Owns]
        omega
      · simp only [Expression.Owns]
        omega
    have hbeside := hbody.beside hd (by simp only [Expression.Owns]; omega)
      (by simp only [Expression.Owns]; omega) fun F F' => And.comm
    have hways' : (Expression.repeated q reluctant body').readingsOn t' n' =
        Reading.repetition q body.isVacuous body.isNullable reluctant t'.length n'
          (body'.readingsOn t' (n' + k)) := by
      funext r
      rw [Expression.readingsOn_repeated, hk, h.vacuous, h.nullable]
    refine ⟨_, (hd.both hC₁).mono ?_ ?_, ?_⟩
    · simp only [Expression.Owns, Expression.decisions, k]
      omega
    · simp only [Expression.Owns, Expression.decisions, hk]
      omega
    · rw [hways']
      refine .repetition (fun i hi F F' h => h.1 i hi)
        (fun i hi F F' h => ⟨Concerns.run_face h.1, hface i hi F F' h.2⟩) hbeside
        (fun i hi => (?_ : ¬ body.Owns (n + k) (n + i)))
        fun r s hle hs => reaches_of_mem_readings hs hle
      simp only [Expression.Owns, k] at hi ⊢
      omega

/-- An atom and what consumes the same. -/
theorem atom {a : α} (consume : Nat → Option Nat)
    (hconsume : ∀ p ≤ t.length, consume (m.place p) = (t.consume a p).map m.place)
    (hnull : e'.isNullable = false) (hvac : e'.isVacuous = false)
    (h : ∀ n r, e'.readingsOn t' n r =
      ((consume r.position).map fun position => r.moveTo position).toList) :
    ReadsLike m (.atom a) e' where
  nullable := hnull.symm
  vacuous := hvac.symm
  readings n n' := by
    refine ⟨fun _ _ => True, ⟨trivial, fun _ _ _ => trivial⟩, fun r r' hr => ?_⟩
    rw [h, Expression.readingsOn_atom, hr.position, hconsume _ hr.within]
    cases hp : t.consume a r.position with
    | none => exact .nil
    | some p => exact .singleton ⟨t.within hp, rfl, hr.saved, trivial⟩

/-- An expression reads like itself when its decisions are numbered anew. -/
theorem refl : ∀ e : Expression α, ReadsLike (.self t) e e
  | .empty => .empty
  | .atom a => .atom (t.consume a) (fun _ _ => Option.map_id'.symm) rfl rfl fun _ _ => rfl
  | .group number body => (refl body).group number
  | .sequence first second => (refl first).sequence (refl second)
  | .choice first second => (refl first).choice (refl second)
  | .repeated q reluctant body => (refl body).repeated q reluctant

/-- Expressions with the same readings. -/
theorem of_readings_eq {e e' : Expression α} (hnull : e.isNullable = e'.isNullable)
    (hvac : e.isVacuous = e'.isVacuous) (hdec : e.decisions = e'.decisions)
    (h : ∀ n, e.readingsOn t n = e'.readingsOn t n) : ReadsLike (.self t) e e' where
  nullable := hnull
  vacuous := hvac
  readings n n' := by
    obtain ⟨C, hC, hways⟩ := (refl (t := t) e').readings n n'
    refine ⟨C, hC.mono (fun d hd => ?_) fun d hd => hd, h n ▸ hways⟩
    rwa [Expression.Owns, hdec]

theorem symm {e e' : Expression α} (h : ReadsLike (.self t) e e') :
    ReadsLike (.self t) e' e where
  nullable := h.nullable.symm
  vacuous := h.vacuous.symm
  readings n n' := by
    obtain ⟨C, hC, hways⟩ := h.readings n' n
    refine ⟨fun F F' => C F' F, ⟨hC.blank, fun hc hF hF' => hC.same hc hF' hF⟩, fun r r' hr => ?_⟩
    exact (hways r' r hr.flip).symm.mono fun s _ s' _ hs => hs.flip

theorem trans {e'' : Expression β} (h : ReadsLike m e e') (h' : ReadsLike (.self t') e' e'') :
    ReadsLike m e e'' where
  nullable := h.nullable.trans h'.nullable
  vacuous := h.vacuous.trans h'.vacuous
  readings n n' := by
    obtain ⟨C, hC, hways⟩ := h.readings n 0
    obtain ⟨C', hC', hways'⟩ := h'.readings 0 n'
    refine ⟨fun F F' => ∃ G, C F G ∧ C' G F', ⟨⟨[], hC.blank, hC'.blank⟩, ?_⟩, fun r r' hr => ?_⟩
    · rintro F F' G G' ⟨H, hH, hH'⟩ hF hF'
      exact ⟨H, hC.same hH hF fun _ _ => Iff.rfl, hC'.same hH' (fun _ _ => Iff.rfl) hF'⟩
    · obtain ⟨G, hG, hG'⟩ := hr.faced
      let u : Reading := ⟨r'.position, r'.saved, G⟩
      have hu : Corresponds m C r u := ⟨hr.within, hr.position, hr.saved, hG⟩
      have hu' : Corresponds (.self t') C' u r' :=
        ⟨hr.within', rfl, (Laying.saves_self _).symm, hG'⟩
      refine ((hways r u hu).trans (hways' u r' hu')).mono fun s _ s' _ hs => ?_
      obtain ⟨v, hv, hv'⟩ := hs
      have hsaved := hv'.saved
      rw [Laying.saves_self, hv.saved] at hsaved
      exact ⟨hv.within, hv'.position.trans hv.position, hsaved, v.faced, hv.faced, hv'.faced⟩

end ReadsLike

end Klingon.Pattern
