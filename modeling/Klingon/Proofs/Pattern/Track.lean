import Klingon.Proofs.Pattern.Reading

/-!
# Where a reading can go

A track has the positions from zero to its length, and an atom goes forward on it. A reading of an
expression keeps to the track: it never goes back, and it faces no decisions but those of the
expression. What was faced elsewhere stays faced until something is consumed.
-/

namespace Klingon.Pattern

variable {α : Type}

/-- The positions of a sequence and what the atoms consume of it. -/
structure Track (α : Type) where
  length : Nat
  consume : α → Nat → Option Nat
  forward : ∀ {a p q}, consume a p = some q → p < q
  within : ∀ {a p q}, consume a p = some q → q ≤ length

namespace Expression

/-- The readings of an expression on a track. -/
def readingsOn (t : Track α) (e : Expression α) (n : Nat) (r : Reading) : List Reading :=
  e.readings t.consume t.length n r

section Equations

variable {t : Track α} {first second body : Expression α} {n : Nat} {r : Reading}

theorem readingsOn_atom {a : α} : (atom a).readingsOn t n r =
    ((t.consume a r.position).map fun position => r.moveTo position).toList := rfl

theorem readingsOn_group {m : Nat} : (group (some m) body).readingsOn t n r =
    (body.readingsOn t n (r.save (2 * m))).map (Reading.save (2 * m + 1)) := rfl

theorem readingsOn_sequence : (sequence first second).readingsOn t n r =
    (first.readingsOn t n r).flatMap (second.readingsOn t (n + first.decisions)) := rfl

theorem readingsOn_choice : (choice first second).readingsOn t n r =
    r.facing n fun r => first.readingsOn t (n + 1) r ++
      second.readingsOn t (n + 1 + first.decisions) r := rfl

theorem readingsOn_repeated {q : Quantifier} {reluctant : Bool} :
    (repeated q reluctant body).readingsOn t n r =
      Reading.repetition q body.isVacuous body.isNullable reluctant t.length n
        (body.readingsOn t (n + loopDecisions q body.isVacuous body.isNullable)) r := rfl

end Equations

/-- The decisions of an expression, the first of which has the given number. -/
def Owns (e : Expression α) (n d : Nat) : Prop :=
  n ≤ d ∧ d < n + e.decisions

end Expression

namespace Reading

variable {r s t : Reading} {d : Nat} {reluctant : Bool} {own own' : Nat → Prop} {length : Nat}
  {ways : Reading → List Reading} {enter leave : List Reading}

theorem mem_facing : s ∈ r.facing d ways ↔ d ∉ r.faced ∧ s ∈ ways (r.face d) := by
  by_cases hd : d ∈ r.faced
  · simp [facing, hd]
  · simp [facing, hd]

theorem mem_preferring : s ∈ preferring reluctant enter leave ↔ s ∈ enter ∨ s ∈ leave := by
  cases reluctant with
  | true => exact List.mem_append.trans Or.comm
  | false => exact List.mem_append

/-- A reading that comes after another. It may have faced some decisions; of the others it has faced
what the other had, until something is consumed. -/
structure Reaches (own : Nat → Prop) (length : Nat) (r s : Reading) : Prop where
  ordered : r.position ≤ s.position
  within : s.position ≤ length
  others : ∀ d, ¬ own d → (d ∈ s.faced ↔ d ∈ r.faced ∧ s.position = r.position)

namespace Reaches

theorem refl (h : r.position ≤ length) : Reaches own length r r where
  ordered := Nat.le_refl _
  within := h
  others _ _ := by simp

theorem trans (h : Reaches own length r s) (h' : Reaches own length s t) :
    Reaches own length r t where
  ordered := Nat.le_trans h.ordered h'.ordered
  within := h'.within
  others d hd := by
    have hs := h.ordered
    have ht := h'.ordered
    rw [h'.others d hd, h.others d hd]
    constructor
    · rintro ⟨⟨hin, hsr⟩, hts⟩
      exact ⟨hin, hts.trans hsr⟩
    · rintro ⟨hin, htr⟩
      exact ⟨⟨hin, by omega⟩, by omega⟩

theorem mono (h : Reaches own length r s) (hown : ∀ d, own d → own' d) :
    Reaches own' length r s where
  ordered := h.ordered
  within := h.within
  others d hd := h.others d fun hin => hd (hown d hin)

theorem face (h : r.position ≤ length) (hd : own d) : Reaches own length r (r.face d) where
  ordered := Nat.le_refl _
  within := h
  others d' hd' := by
    have hne : d' ≠ d := by
      rintro rfl
      exact hd' hd
    simp [Reading.face, hne]

theorem moveTo {position : Nat} (h : r.position < position) (hle : position ≤ length) :
    Reaches own length r (r.moveTo position) where
  ordered := Nat.le_of_lt h
  within := hle
  others d _ := by
    have hne : position ≠ r.position := Nat.ne_of_gt h
    simp [Reading.moveTo, hne]

end Reaches

section Repetition

variable {R : Reading → Reading → Prop} {body : Reading → List Reading}

/-- What holds from one round to the next holds of all rounds. -/
theorem rel_of_mem_rounds (htrans : ∀ {r s t}, R r s → R s t → R r t)
    (hface : ∀ r, R r (r.face d)) (hbody : ∀ {r s}, s ∈ body r → R r s) (left : Nat)
    (h : s ∈ rounds d reluctant body left r) : R r s := by
  induction left generalizing r with
  | zero => cases h
  | succ left ih =>
    obtain ⟨_, hs⟩ := mem_facing.mp h
    rcases mem_preferring.mp hs with hs | hs
    · obtain ⟨u, hu, hs⟩ := List.mem_flatMap.mp hs
      exact htrans (hface r) (htrans (hbody hu) (ih hs))
    · rw [List.mem_singleton.mp hs]
      exact hface r

/-- What holds from one round to the next holds of a whole repetition, which faces two decisions at
most besides those of its body. -/
theorem rel_of_mem_repetition {q : Quantifier} {vacuous nullable : Bool} {limit decision : Nat}
    (htrans : ∀ {r s t}, R r s → R s t → R r t)
    (hface : ∀ r d, decision ≤ d →
      d < decision + Expression.loopDecisions q vacuous nullable → R r (r.face d))
    (hbody : ∀ {r s}, s ∈ body r → R r s)
    (h : s ∈ repetition q vacuous nullable reluctant limit decision body r) : R r s := by
  have honce : s ∈ facing decision (fun r => preferring reluctant (body r) [r]) r →
      (∀ r, R r (r.face decision)) → R r s := by
    intro h hface
    obtain ⟨_, hs⟩ := mem_facing.mp h
    rcases mem_preferring.mp hs with hs | hs
    · exact htrans (hface r) (hbody hs)
    · rw [List.mem_singleton.mp hs]
      exact hface r
  match q, vacuous with
  | .plus, true => exact hbody h
  | .plus, false =>
    obtain ⟨u, hu, hs⟩ := List.mem_flatMap.mp h
    refine htrans (hbody hu) (rel_of_mem_rounds htrans (fun r => ?_) hbody _ hs)
    exact hface r decision (Nat.le_refl _) (Nat.lt_succ_self _)
  | .optional, _ => exact honce h fun r => hface r decision (Nat.le_refl _) (Nat.lt_succ_self _)
  | .star, true => exact honce h fun r => hface r decision (Nat.le_refl _) (Nat.lt_succ_self _)
  | .star, false =>
    cases nullable with
    | false =>
      refine rel_of_mem_rounds htrans (fun r => ?_) hbody _ h
      exact hface r decision (Nat.le_refl _) (Nat.lt_succ_self _)
    | true =>
      have hown : Expression.loopDecisions .star false true = 2 := rfl
      have hentry : R r (r.face decision) := hface r decision (Nat.le_refl _) (by omega)
      rw [repetition, if_pos rfl] at h
      obtain ⟨_, hs⟩ := mem_facing.mp h
      rcases mem_preferring.mp hs with hs | hs
      · obtain ⟨u, hu, hs⟩ := List.mem_flatMap.mp hs
        refine htrans hentry (htrans (hbody hu) (rel_of_mem_rounds htrans (fun r => ?_) hbody _ hs))
        exact hface r (decision + 1) (by omega) (by omega)
      · rw [List.mem_singleton.mp hs]
        exact hentry

end Repetition

end Reading

/-- The readings of an expression keep to the track and face its own decisions only. -/
theorem reaches_of_mem_readings {t : Track α} {e : Expression α} {n : Nat} {r s : Reading}
    (h : s ∈ e.readingsOn t n r) (hle : r.position ≤ t.length) :
    r.Reaches (e.Owns n) t.length s := by
  induction e generalizing n r s with
  | empty =>
    rw [List.mem_singleton.mp h]
    exact .refl hle
  | atom a =>
    obtain ⟨position, hconsume, rfl⟩ := Option.map_eq_some_iff.mp (Option.mem_toList.mp h)
    exact .moveTo (t.forward hconsume) (t.within hconsume)
  | group number body ih =>
    cases number with
    | none => exact ih h hle
    | some m =>
      obtain ⟨u, hu, rfl⟩ := List.mem_map.mp h
      obtain ⟨ordered, within, others⟩ := ih hu hle
      exact ⟨ordered, within, others⟩
  | sequence first second ihf ihs =>
    obtain ⟨u, hu, hs⟩ := List.mem_flatMap.mp h
    have hfirst := ihf hu hle
    refine (hfirst.mono fun d hd => ?_).trans ((ihs hs hfirst.within).mono fun d hd => ?_)
    · obtain ⟨hlow, hhigh⟩ := hd
      exact ⟨hlow, by rw [Expression.decisions]; omega⟩
    · obtain ⟨hlow, hhigh⟩ := hd
      exact ⟨by omega, by rw [Expression.decisions]; omega⟩
  | choice first second ihf ihs =>
    rw [Expression.readingsOn_choice] at h
    obtain ⟨_, hs⟩ := Reading.mem_facing.mp h
    have hown : (Expression.choice first second).Owns n n :=
      ⟨Nat.le_refl _, by rw [Expression.decisions]; omega⟩
    refine (Reading.Reaches.face hle hown).trans ?_
    rcases List.mem_append.mp hs with hs | hs
    · refine (ihf hs hle).mono fun d hd => ?_
      obtain ⟨hlow, hhigh⟩ := hd
      exact ⟨by omega, by rw [Expression.decisions]; omega⟩
    · refine (ihs hs hle).mono fun d hd => ?_
      obtain ⟨hlow, hhigh⟩ := hd
      exact ⟨by omega, by rw [Expression.decisions]; omega⟩
  | repeated q reluctant body ih =>
    let own := (Expression.repeated q reluctant body).Owns n
    refine Reading.rel_of_mem_repetition
      (R := fun r s => r.position ≤ t.length → r.Reaches own t.length s) ?_ ?_ ?_ h hle
    · intro r s u hrs hsu hle
      exact (hrs hle).trans (hsu (hrs hle).within)
    · intro r d hlow hhigh hle
      exact .face hle ⟨hlow, by rw [Expression.decisions]; omega⟩
    · intro r s hs hle
      refine (ih hs hle).mono fun d hd => ?_
      obtain ⟨hlow, hhigh⟩ := hd
      exact ⟨by omega, by rw [Expression.decisions]; omega⟩

end Klingon.Pattern
