import Klingon.Proofs.Pattern.Likeness
import Klingon.Proofs.Pattern.Matching
import Klingon.Proofs.Pattern.Pieces

/-!
# Rearranged expressions

The steps in which an expression over pieces comes to its normal form. Each of them leaves alone
what the expression matches; what a choice prefers it leaves alone as long as nothing but single
pieces is taken out of its branches. A choice between branches that begin with the same piece has
nothing to decide before that piece is consumed, and afterwards it decides as before.
-/

namespace Klingon.Pattern

variable {α : Type}

namespace ReadsLike

variable {t : Track α}

theorem assoc (a b c : Expression α) :
    ReadsLike (.self t) (.sequence (.sequence a b) c) (.sequence a (.sequence b c)) := by
  refine of_readings_eq (Bool.and_assoc _ _ _) (Bool.and_assoc _ _ _) (Nat.add_assoc _ _ _) ?_
  intro n
  funext r
  rw [Expression.readingsOn_sequence, Expression.readingsOn_sequence,
    Expression.readingsOn_sequence, Expression.decisions, List.flatMap_assoc, ← Nat.add_assoc]
  rfl

theorem emptyFront (e : Expression α) : ReadsLike (.self t) (.sequence .empty e) e := by
  refine of_readings_eq (Bool.true_and _) (Bool.true_and _) (Nat.zero_add _) fun n => ?_
  funext r
  rw [Expression.readingsOn_sequence]
  exact List.append_nil _

theorem emptyBack (e : Expression α) : ReadsLike (.self t) (.sequence e .empty) e := by
  refine of_readings_eq (Bool.and_true _) (Bool.and_true _) rfl fun n => ?_
  funext r
  exact List.flatMap_singleton' _

theorem unnamed (e : Expression α) : ReadsLike (.self t) (.group none e) e :=
  of_readings_eq rfl rfl rfl fun _ => rfl

theorem vacuousStar {body : Expression α} (hvac : body.isVacuous = true) (reluctant : Bool) :
    ReadsLike (.self t) (.repeated .star reluctant body) (.repeated .optional reluctant body) := by
  have hown : ∀ q, q ≠ .plus →
      Expression.loopDecisions q body.isVacuous body.isNullable = 1 := by
    intro q hq
    rw [hvac]
    cases q with
    | plus => exact absurd rfl hq
    | star => rfl
    | optional => rfl
  refine of_readings_eq rfl rfl ?_ fun n => ?_
  · rw [Expression.decisions, Expression.decisions, hown _ (by decide), hown _ (by decide)]
  · funext r
    rw [Expression.readingsOn_repeated, Expression.readingsOn_repeated, hown _ (by decide),
      hown _ (by decide), hvac]
    rfl

theorem vacuousPlus {body : Expression α} (hvac : body.isVacuous = true) (reluctant : Bool) :
    ReadsLike (.self t) (.repeated .plus reluctant body) body := by
  have hown : Expression.loopDecisions .plus body.isVacuous body.isNullable = 0 := by rw [hvac]; rfl
  refine of_readings_eq rfl rfl ?_ fun n => ?_
  · rw [Expression.decisions, hown, Nat.zero_add]
  · funext r
    rw [Expression.readingsOn_repeated, hown, hvac]
    rfl

/-- How the decisions of two nested choices stand: the outer ones stand for each other, and where
they are not faced the inner ones are not faced either. -/
def Nested (n inner n' inner' : Nat) (F F' : List Nat) : Prop :=
  (n ∈ F ↔ n' ∈ F') ∧ (n ∉ F → inner ∉ F ∧ inner' ∉ F')

theorem concerns_nested (n inner n' inner' : Nat) :
    Concerns (fun d => d = n ∨ d = inner) (fun d => d = n' ∨ d = inner')
      (Nested n inner n' inner') where
  blank := ⟨iff_of_false List.not_mem_nil List.not_mem_nil,
    fun _ => ⟨List.not_mem_nil, List.not_mem_nil⟩⟩
  same hC hF hF' := by
    rwa [Nested, ← hF n (.inl rfl), ← hF inner (.inr rfl), ← hF' n' (.inl rfl),
      ← hF' inner' (.inr rfl)]

theorem nested_of_faced {n inner n' inner' : Nat} {F F' : List Nat} (h : n ∈ F) (h' : n' ∈ F') :
    Nested n inner n' inner' F F' :=
  ⟨iff_of_true h h', fun hnot => absurd h hnot⟩

/-- The decision of the inner choice is faced only right behind that of the outer one. -/
theorem chooseAssoc (a b c : Expression α) :
    ReadsLike (.self t) (.choice (.choice a b) c) (.choice a (.choice b c)) where
  nullable := Bool.or_assoc _ _ _
  vacuous := Bool.and_assoc _ _ _
  readings n n' := by
    let inner := n' + 1 + a.decisions
    obtain ⟨Ca, hCa, ha⟩ := (refl (t := t) a).readings (n + 2) (n' + 1)
    obtain ⟨Cb, hCb, hb⟩ := (refl (t := t) b).readings (n + 2 + a.decisions) (inner + 1)
    obtain ⟨Cc, hCc, hc⟩ := (refl (t := t) c).readings (n + 1 + (1 + a.decisions + b.decisions))
      (inner + 1 + b.decisions)
    have hD := concerns_nested n (n + 1) n' inner
    let C (F F' : List Nat) : Prop :=
      Nested n (n + 1) n' inner F F' ∧ Ca F F' ∧ Cb F F' ∧ Cc F F'
    have hbranches := hCa.both (hCb.both hCc)
    -- No branch owns a decision of the two choices.
    have hfaced : ∀ {F F'}, C F F' → ∀ more more', (∀ d ∈ more, d = n ∨ d = n + 1) →
        (∀ d ∈ more', d = n' ∨ d = inner) → n ∈ more → n' ∈ more' → C (more ++ F) (more' ++ F') := by
      rintro F F' ⟨_, hF⟩ more more' hmore hmore' hn hn'
      refine ⟨nested_of_faced (List.mem_append_left F hn) (List.mem_append_left F' hn'),
        hbranches.faceAll (fun d hd => ?_) (fun d hd => ?_) hF⟩
      · have := hmore d hd
        simp only [Expression.Owns]
        omega
      · have := hmore' d hd
        simp only [Expression.Owns, inner] at this ⊢
        omega
    have ha : GoOnAlike (.self t) C (a.readingsOn t (n + 2)) (a.readingsOn t (n' + 1)) := by
      refine ha.beside (hD.both (hCb.both hCc)) ?_ ?_ fun F F' => and_left_comm
      · simp only [Expression.Owns]
        omega
      · simp only [Expression.Owns, inner]
        omega
    have hb : GoOnAlike (.self t) C (b.readingsOn t (n + 2 + a.decisions))
        (b.readingsOn t (inner + 1)) := by
      refine hb.beside (hD.both (hCa.both hCc)) ?_ ?_ fun F F' => ?_
      · simp only [Expression.Owns]
        omega
      · simp only [Expression.Owns, inner]
        omega
      · constructor
        · rintro ⟨hd, ha, hb, hc⟩
          exact ⟨hb, hd, ha, hc⟩
        · rintro ⟨hb, hd, ha, hc⟩
          exact ⟨hd, ha, hb, hc⟩
    have hc : GoOnAlike (.self t) C (c.readingsOn t (n + 1 + (1 + a.decisions + b.decisions)))
        (c.readingsOn t (inner + 1 + b.decisions)) := by
      refine hc.beside (hD.both (hCa.both hCb)) ?_ ?_ fun F F' => ?_
      · simp only [Expression.Owns]
        omega
      · simp only [Expression.Owns, inner]
        omega
      · constructor
        · rintro ⟨hd, ha, hb, hc⟩
          exact ⟨hc, hd, ha, hb⟩
        · rintro ⟨hc, hd, ha, hb⟩
          exact ⟨hd, ha, hb, hc⟩
    refine ⟨C, (hD.both hbranches).mono ?_ ?_, fun r r' hr => ?_⟩
    · simp only [Expression.Owns, Expression.decisions]
      omega
    · simp only [Expression.Owns, Expression.decisions, inner]
      omega
    · rw [Expression.readingsOn_choice, Expression.readingsOn_choice]
      refine .facing hr.faced.1.1 fun hn => ?_
      have hinner := hr.faced.1.2 hn
      have hfresh : n + 1 ∉ (r.face n).faced := by
        simp [Reading.face, hinner.1]
      have hfresh' : inner ∉ (r'.face n').faced := by
        simp only [Reading.face, List.mem_cons, not_or, inner]
        exact ⟨by omega, hinner.2⟩
      rw [Expression.readingsOn_choice, Expression.readingsOn_choice, Reading.facing,
        if_neg hfresh, Reading.facing, if_neg hfresh', List.append_assoc]
      refine (ha _ _ ?_).append ((hb _ _ ?_).append (hc _ _ ?_))
      · exact ⟨hr.within, hr.position, hr.saved, hfaced hr.faced [n + 1, n] [n'] (by simp) (by simp)
          (by simp) (by simp)⟩
      · exact ⟨hr.within, hr.position, hr.saved, hfaced hr.faced [n + 1, n] [inner, n'] (by simp)
          (by simp) (by simp) (by simp)⟩
      · exact ⟨hr.within, hr.position, hr.saved, hfaced hr.faced [n] [inner, n'] (by simp) (by simp)
          (by simp) (by simp)⟩

/-- What the branches begin with is consumed at once, so the decision is never faced again before
something is consumed, on either side. -/
theorem distribute (a : α) (first second : Expression α) :
    ReadsLike (.self t) (.choice (.sequence (.atom a) first) (.sequence (.atom a) second))
      (.sequence (.atom a) (.choice first second)) where
  nullable := by simp [Expression.isNullable]
  vacuous := by simp [Expression.isVacuous]
  readings n n' := by
    obtain ⟨C₁, hC₁, hf⟩ := (refl (t := t) first).readings (n + 1) (n' + 1)
    obtain ⟨C₂, hC₂, hs⟩ := (refl (t := t) second).readings (n + 1 + first.decisions)
      (n' + 1 + first.decisions)
    refine ⟨fun F _ => n ∉ F, ⟨List.not_mem_nil, fun hC hF _ => ?_⟩, fun r r' hr => ?_⟩
    · rwa [← hF n ⟨Nat.le_refl _, by simp only [Expression.decisions]; omega⟩]
    · have hposition : r'.position = r.position := hr.position
      rw [Expression.readingsOn_choice, Expression.readingsOn_sequence, Reading.facing,
        if_neg hr.faced, Expression.readingsOn_sequence, Expression.readingsOn_sequence,
        Expression.readingsOn_atom, Expression.readingsOn_atom, Expression.readingsOn_atom]
      simp only [Expression.decisions, Nat.add_zero, hposition, Reading.face]
      cases hp : t.consume a r.position with
      | none => exact .nil
      | some p =>
        simp only [Option.map_some, Option.toList_some, List.flatMap_cons, List.flatMap_nil,
          List.append_nil]
        have hfresh : n' ∉ (r'.moveTo p).faced := List.not_mem_nil
        rw [Expression.readingsOn_choice, Reading.facing, if_neg hfresh, Nat.zero_add]
        have hle := t.within hp
        have hmoved : ∀ {C own own'}, Concerns own own' C → ¬ own' n' →
            Corresponds (.self t) C (r.moveTo p) ((r'.moveTo p).face n') := by
          intro C own own' hC hown'
          refine ⟨hle, rfl, hr.saved, hC.same hC.blank (fun _ _ => Iff.rfl) fun d hd => ?_⟩
          have hne : d ≠ n' := by
            rintro rfl
            exact hown' hd
          simp [Reading.face, Reading.moveTo, hne]
        have hone := hf _ _ (hmoved hC₁ (by simp only [Expression.Owns]; omega))
        have htwo := hs _ _ (hmoved hC₂ (by simp only [Expression.Owns]; omega))
        refine .append (hone.mono fun s hs s' _ hR => hR.refacing fun hin => ?_)
          (htwo.mono fun s hs s' _ hR => hR.refacing fun hin => ?_)
        · have hown : ¬ first.Owns (n + 1) n := by simp only [Expression.Owns]; omega
          have hreach := reaches_of_mem_readings hs hle
          exact absurd ((hreach.others n hown).mp hin).1 List.not_mem_nil
        · have hown : ¬ second.Owns (n + 1 + first.decisions) n := by
            simp only [Expression.Owns]
            omega
          have hreach := reaches_of_mem_readings hs hle
          exact absurd ((hreach.others n hown).mp hin).1 List.not_mem_nil

end ReadsLike

namespace Expression

/-- A choice between atoms: each of them that consumes something gives a reading. -/
theorem mem_readingsOn_atoms {t : Track α} {atoms : List α} (hne : atoms ≠ []) {n : Nat}
    {r s : Reading} (hfaced : ∀ d, (oneOf (atoms.map atom)).Owns n d → d ∉ r.faced) :
    s ∈ (oneOf (atoms.map atom)).readingsOn t n r ↔
      ∃ a ∈ atoms, ∃ p, t.consume a r.position = some p ∧ s = r.moveTo p := by
  have hatom : ∀ (a : α) n (u : Reading), s ∈ (atom a).readingsOn t n u ↔
      ∃ p, t.consume a u.position = some p ∧ s = u.moveTo p := by
    intro a n u
    rw [readingsOn_atom, Option.mem_toList, Option.map_eq_some_iff]
    simp only [eq_comm]
  induction atoms generalizing n r with
  | nil => exact absurd rfl hne
  | cons a more ih =>
    cases more with
    | nil =>
      rw [List.map_cons, List.map_nil, oneOf, hatom]
      simp
    | cons b more =>
      have hown : ¬ n ∈ r.faced := by
        refine hfaced n ⟨Nat.le_refl _, ?_⟩
        simp only [List.map_cons, oneOf, decisions]
        omega
      have hrest : ∀ d, (oneOf ((b :: more).map atom)).Owns (n + 1) d → d ∉ (r.face n).faced := by
        intro d hd hin
        rw [Owns] at hd
        rcases List.mem_cons.mp hin with rfl | hin
        · omega
        · refine hfaced d ?_ hin
          simp only [List.map_cons, oneOf, Owns, decisions] at hd ⊢
          omega
      have hmore : s ∈ (oneOf ((b :: more).map atom)).readingsOn t (n + 1) (r.face n) ↔ _ :=
        ih (by simp) hrest
      rw [List.map_cons] at hmore
      rw [List.map_cons, List.map_cons, oneOf, readingsOn_choice, Reading.facing, if_neg hown,
        List.mem_append, hatom]
      rw [decisions, Nat.add_zero, hmore]
      simp [Reading.face, Reading.moveTo]

theorem isNullable_atoms {atoms : List α} (hne : atoms ≠ []) :
    (oneOf (atoms.map atom)).isNullable = false := by
  induction atoms with
  | nil => exact absurd rfl hne
  | cons a more ih =>
    cases more with
    | nil => rfl
    | cons b more => exact ih (by simp)

theorem isVacuous_atoms {atoms : List α} (hne : atoms ≠ []) :
    (oneOf (atoms.map atom)).isVacuous = false := by
  cases atoms with
  | nil => exact absurd rfl hne
  | cons a more =>
    cases more with
    | nil => rfl
    | cons b more => rfl

end Expression

/-- Wherever it leads, a choice between atoms leads to one place only if one atom stands for all of
them. -/
theorem ReadsLike.atoms {t : Track α} {atoms : List α} (hne : atoms ≠ []) {a : α}
    (h : ∀ p q, t.consume a p = some q ↔ ∃ b ∈ atoms, t.consume b p = some q) :
    ReadsLike (.self t) (.oneOf (atoms.map .atom)) (.atom a) where
  nullable := Expression.isNullable_atoms hne
  vacuous := Expression.isVacuous_atoms hne
  readings n n' := by
    refine ⟨fun F _ => ∀ d, (Expression.oneOf (atoms.map .atom)).Owns n d → d ∉ F,
      ⟨fun _ _ => List.not_mem_nil, fun hC hF _ d hd => ?_⟩, fun r r' hr => ?_⟩
    · rw [← hF d hd]
      exact hC d hd
    · have hposition : r'.position = r.position := hr.position
      have hmem := fun s => Expression.mem_readingsOn_atoms (t := t) hne (s := s) hr.faced
      rw [Expression.readingsOn_atom, hposition]
      cases hp : t.consume a r.position with
      | none =>
        have hnil : (Expression.oneOf (atoms.map .atom)).readingsOn t n r = [] := by
          refine List.eq_nil_iff_forall_not_mem.mpr fun s hs => ?_
          obtain ⟨b, hb, p, hbp, _⟩ := (hmem s).mp hs
          have := (h _ _).mpr ⟨b, hb, hbp⟩
          rw [hp] at this
          cases this
        rw [hnil]
        exact .nil
      | some p =>
        have hall : ∀ s ∈ (Expression.oneOf (atoms.map .atom)).readingsOn t n r,
            s = r.moveTo p := by
          intro s hs
          obtain ⟨b, hb, q, hbq, rfl⟩ := (hmem s).mp hs
          have := (h _ _).mpr ⟨b, hb, hbq⟩
          rw [hp] at this
          cases this
          rfl
        obtain ⟨b, hb, hbp⟩ := (h _ _).mp hp
        refine .ofOne ((hmem _).mpr ⟨b, hb, p, hbp, rfl⟩) hall ?_
        exact ⟨t.within hp, rfl, hr.saved, fun _ _ => List.not_mem_nil⟩

/-! ## Rearrangements -/

/-- The expressions can be rearranged into each other. An item may be taken out of the branches of a
choice if it is liftable. -/
inductive Rearranges (Liftable : Expression Piece → Prop) :
    Expression Piece → Expression Piece → Prop where
  | refl (e) : Rearranges Liftable e e
  | symm {e e'} (h : Rearranges Liftable e e') : Rearranges Liftable e' e
  | trans {e e' e''} (h : Rearranges Liftable e e') (h' : Rearranges Liftable e' e'') :
      Rearranges Liftable e e''
  | group {body body'} (number) (h : Rearranges Liftable body body') :
      Rearranges Liftable (.group number body) (.group number body')
  | sequence {first first' second second'} (hf : Rearranges Liftable first first')
      (hs : Rearranges Liftable second second') :
      Rearranges Liftable (.sequence first second) (.sequence first' second')
  | choice {first first' second second'} (hf : Rearranges Liftable first first')
      (hs : Rearranges Liftable second second') :
      Rearranges Liftable (.choice first second) (.choice first' second')
  | repeated {body body'} (q reluctant) (h : Rearranges Liftable body body') :
      Rearranges Liftable (.repeated q reluctant body) (.repeated q reluctant body')
  | assoc (a b c) : Rearranges Liftable (.sequence (.sequence a b) c) (.sequence a (.sequence b c))
  | emptyFront (e) : Rearranges Liftable (.sequence .empty e) e
  | emptyBack (e) : Rearranges Liftable (.sequence e .empty) e
  | unnamed (e) : Rearranges Liftable (.group none e) e
  | fuse {front back} (hfront : front ≠ []) (hback : back ≠ []) :
      Rearranges Liftable (.sequence (.atom (.text front)) (.atom (.text back)))
        (.atom (.text (front ++ back)))
  | vacuousStar {body} (hvac : body.isVacuous = true) (reluctant) :
      Rearranges Liftable (.repeated .star reluctant body) (.repeated .optional reluctant body)
  | vacuousPlus {body} (hvac : body.isVacuous = true) (reluctant) :
      Rearranges Liftable (.repeated .plus reluctant body) body
  | chooseAssoc (a b c) : Rearranges Liftable (.choice (.choice a b) c) (.choice a (.choice b c))
  | distribute {item} (hitem : Liftable item) (a b) :
      Rearranges Liftable (.choice (.sequence item a) (.sequence item b))
        (.sequence item (.choice a b))
  | atoms {pieces piece} (hne : pieces ≠ [])
      (h : ∀ rest n, piece.cover? rest = some n ↔ ∃ b ∈ pieces, b.cover? rest = some n) :
      Rearranges Liftable (.oneOf (pieces.map .atom)) (.atom piece)

/-- A single piece. -/
def Expression.IsAtom (e : Expression α) : Prop :=
  ∃ a, e = .atom a

namespace Rearranges

variable {Liftable : Expression Piece → Prop} {e e' : Expression Piece} {encoding : Text}

/-- As long as nothing but single pieces is lifted, rearranged expressions read alike. -/
theorem readsLike (h : Rearranges Expression.IsAtom e e') :
    ReadsLike (.self (pieceTrack encoding)) e e' := by
  induction h with
  | refl e => exact .refl e
  | symm _ ih => exact ih.symm
  | trans _ _ ih ih' => exact ih.trans ih'
  | group number _ ih => exact ih.group number
  | sequence _ _ ihf ihs => exact ihf.sequence ihs
  | choice _ _ ihf ihs => exact ihf.choice ihs
  | repeated q reluctant _ ih => exact ih.repeated q reluctant
  | assoc a b c => exact .assoc a b c
  | emptyFront e => exact .emptyFront e
  | emptyBack e => exact .emptyBack e
  | unnamed e => exact .unnamed e
  | @fuse front back hfront hback =>
    refine .symm (.atom ((pieceTrack encoding).consume (.text (front ++ back)))
      (fun _ _ => Option.map_id'.symm) rfl rfl fun n r => ?_)
    rw [Expression.readingsOn_sequence, Expression.readingsOn_atom,
      consume_text_append hfront hback]
    cases hp : (pieceTrack encoding).consume (.text front) r.position with
    | none => rfl
    | some p =>
      simp only [Option.map_some, Option.toList_some, List.flatMap_cons, List.flatMap_nil,
        List.append_nil, Option.bind_some]
      rfl
  | vacuousStar hvac reluctant => exact .vacuousStar hvac reluctant
  | vacuousPlus hvac reluctant => exact .vacuousPlus hvac reluctant
  | chooseAssoc a b c => exact .chooseAssoc a b c
  | distribute hitem a b =>
    obtain ⟨piece, rfl⟩ := hitem
    exact .distribute piece a b
  | atoms hne h => exact .atoms hne fun p q => consume_of_cover h

theorem isVacuous_eq (h : Rearranges Liftable e e') : e.isVacuous = e'.isVacuous := by
  induction h with
  | refl => rfl
  | symm _ ih => exact ih.symm
  | trans _ _ ih ih' => exact ih.trans ih'
  | group _ _ ih => exact ih
  | sequence _ _ ihf ihs => rw [Expression.isVacuous, ihf, ihs]; rfl
  | choice _ _ ihf ihs => rw [Expression.isVacuous, ihf, ihs]; rfl
  | repeated _ _ _ ih => exact ih
  | assoc => exact Bool.and_assoc _ _ _
  | emptyFront => exact Bool.true_and _
  | emptyBack => exact Bool.and_true _
  | unnamed => rfl
  | fuse => rfl
  | vacuousStar => rfl
  | vacuousPlus => rfl
  | chooseAssoc => exact Bool.and_assoc _ _ _
  | @distribute item _ a b =>
    simp only [Expression.isVacuous]
    cases item.isVacuous <;> rfl
  | atoms hne _ => exact Expression.isVacuous_atoms hne

/-- Rearranged expressions match alike, whatever is lifted. -/
theorem matches_iff (h : Rearranges Liftable e e') {x y : Standing} :
    e.Matches (pieceTrack encoding) x y ↔ e'.Matches (pieceTrack encoding) x y := by
  open Expression in
  induction h generalizing x y with
  | refl => exact Iff.rfl
  | symm _ ih => exact ih.symm
  | trans _ _ ih ih' => exact ih.trans ih'
  | group number _ ih =>
    cases number with
    | none => rw [matches_unnamed, matches_unnamed, ih]
    | some m => simp only [matches_named, ih]
  | sequence _ _ ihf ihs => simp only [matches_sequence, ihf, ihs]
  | choice _ _ ihf ihs => rw [matches_choice, matches_choice, ihf, ihs]
  | repeated q reluctant h ih =>
    exact ⟨.repeated_mono h.isVacuous_eq ih.mp, .repeated_mono h.isVacuous_eq.symm ih.mpr⟩
  | assoc a b c =>
    simp only [matches_sequence]
    constructor
    · rintro ⟨v, ⟨u, ha, hb⟩, hc⟩
      exact ⟨u, ha, v, hb, hc⟩
    · rintro ⟨u, ha, v, hb, hc⟩
      exact ⟨v, ⟨u, ha, hb⟩, hc⟩
  | emptyFront e => simp [matches_sequence, matches_empty]
  | emptyBack e => simp [matches_sequence, matches_empty]
  | unnamed e => exact matches_unnamed
  | fuse hfront hback =>
    rw [matches_sequence, matches_atom, consume_text_append hfront hback, Option.bind_eq_some_iff]
    simp only [matches_atom]
    constructor
    · rintro ⟨u, ⟨hf, hu⟩, hb, hy⟩
      exact ⟨⟨u.1, hf, hb⟩, hy.trans hu⟩
    · rintro ⟨⟨p, hf, hb⟩, hy⟩
      exact ⟨(p, x.2), ⟨hf, rfl⟩, hb, hy⟩
  | vacuousStar hvac reluctant =>
    rw [matches_repeated_once (.inr hvac), matches_repeated_once (.inr hvac)]
    simp
  | vacuousPlus hvac reluctant =>
    rw [matches_repeated_once (.inr hvac)]
    simp
  | chooseAssoc a b c =>
    simp only [matches_choice]
    exact or_assoc
  | distribute _ a b =>
    simp only [matches_choice, matches_sequence]
    rw [← exists_or]
    simp only [and_or_left]
  | atoms hne h =>
    rw [matches_oneOf (by simpa using hne), matches_atom, consume_of_cover h]
    constructor
    · rintro ⟨_, hmem, hatom⟩
      obtain ⟨b, hb, rfl⟩ := List.mem_map.mp hmem
      obtain ⟨hp, hy⟩ := matches_atom.mp hatom
      exact ⟨⟨b, hb, hp⟩, hy⟩
    · rintro ⟨⟨b, hb, hp⟩, hy⟩
      exact ⟨_, List.mem_map_of_mem hb, matches_atom.mpr ⟨hp, hy⟩⟩

end Rearranges

end Klingon.Pattern
