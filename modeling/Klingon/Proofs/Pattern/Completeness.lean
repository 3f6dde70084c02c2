import Klingon.Proofs.Pattern.Automaton
import Klingon.Proofs.Pattern.Matching

/-!
# No match is missed

If an expression matches somewhere, following its automaton comes to an acceptance, although it
gives up wherever it passes a fork a second time. The fewest steps to an acceptance never pass a
fork twice.
-/

namespace Klingon.Pattern

variable {α : Type}

/-- An acceptance can be reached from a place in no more than so many steps. -/
inductive Within (code : Array (Instruction α)) (consume : α → Nat → Option Nat) :
    Nat → Nat × Nat → Prop where
  | accept {k a p} (hcode : code[a]? = some .accept) : Within code consume k (a, p)
  | consume {k a p piece q} (hcode : code[a]? = some (.consume piece))
      (hsome : consume piece p = some q) (next : Within code consume k (a + 1, q)) :
      Within code consume (k + 1) (a, p)
  | jump {k a p target} (hcode : code[a]? = some (.jump target))
      (next : Within code consume k (target, p)) : Within code consume (k + 1) (a, p)
  | save {k a p slot} (hcode : code[a]? = some (.save slot))
      (next : Within code consume k (a + 1, p)) : Within code consume (k + 1) (a, p)
  | preferred {k a p x y} (hcode : code[a]? = some (.fork x y))
      (next : Within code consume k (x, p)) : Within code consume (k + 1) (a, p)
  | other {k a p x y} (hcode : code[a]? = some (.fork x y))
      (next : Within code consume k (y, p)) : Within code consume (k + 1) (a, p)

namespace Within

variable {code : Array (Instruction α)} {consume : α → Nat → Option Nat} {k : Nat}
  {place : Nat × Nat}

theorem succ (h : Within code consume k place) : Within code consume (k + 1) place := by
  induction h with
  | accept hcode => exact .accept hcode
  | consume hcode hsome _ ih => exact .consume hcode hsome ih
  | jump hcode _ ih => exact .jump hcode ih
  | save hcode _ ih => exact .save hcode ih
  | preferred hcode _ ih => exact .preferred hcode ih
  | other hcode _ ih => exact .other hcode ih

/-- Following a thread comes to something if an acceptance is nearer to it than to all forks on the
path. The induction is on the number of steps: where one step less would do there is nothing to
show, and otherwise the place itself is farther from the acceptance than the next one. -/
theorem isSome_of_explores {path : List (Nat × Nat)} {t : Thread} {result : Option Thread}
    (h : Within code consume k (t.address, t.position))
    (hpath : ∀ place ∈ path, ¬ Within code consume k place)
    (hexp : Explores code consume path t result) : result.isSome = true := by
  induction k generalizing path t result with
  | zero =>
    obtain ⟨address, position, saved⟩ := t
    cases h with
    | accept hcode =>
      cases hexp <;> simp_all
  | succ k ih =>
    have hpath' : ∀ place ∈ path, ¬ Within code consume k place :=
      fun place hin hk => hpath place hin hk.succ
    by_cases hless : Within code consume k (t.address, t.position)
    · exact ih hless hpath' hexp
    have hnext : ∀ place ∈ (t.address, t.position) :: path, ¬ Within code consume k place := by
      intro place hin
      rcases List.mem_cons.mp hin with rfl | hin
      · exact hless
      · exact hpath' place hin
    have hsome : ∀ {first second : Option Thread}, first.isSome = true ∨ second.isSome = true →
        (first.or second).isSome = true := by
      intro first second
      rw [Option.isSome_or, Bool.or_eq_true]
      exact id
    obtain ⟨address, position, saved⟩ := t
    dsimp only at h hless hnext
    cases h with
    | accept hcode => exact absurd (.accept hcode) hless
    | consume hcode hconsume next =>
      cases hexp with
      | consume hi hsome' hexp =>
        cases hi.symm.trans hcode
        cases hsome'.symm.trans hconsume
        exact ih next hpath' hexp
      | stuck hi hnone =>
        cases hi.symm.trans hcode
        cases hnone.symm.trans hconsume
      | _ hi => cases hi.symm.trans hcode
    | jump hcode next =>
      cases hexp with
      | jump hi hexp =>
        cases hi.symm.trans hcode
        exact ih next hpath' hexp
      | _ hi => cases hi.symm.trans hcode
    | save hcode next =>
      cases hexp with
      | save hi hexp =>
        cases hi.symm.trans hcode
        exact ih next hpath' hexp
      | _ hi => cases hi.symm.trans hcode
    | preferred hcode next =>
      cases hexp with
      | fork hi hin left right =>
        cases hi.symm.trans hcode
        exact hsome (.inl (ih next hnext left))
      | revisit hi hin => exact absurd (.preferred hcode next) (hpath _ hin)
      | _ hi => cases hi.symm.trans hcode
    | other hcode next =>
      cases hexp with
      | fork hi hin left right =>
        cases hi.symm.trans hcode
        exact hsome (.inr (ih next hnext right))
      | revisit hi hin => exact absurd (.other hcode next) (hpath _ hin)
      | _ hi => cases hi.symm.trans hcode

end Within

/-- An acceptance can be reached from a place. -/
def CanAccept (code : Array (Instruction α)) (consume : α → Nat → Option Nat)
    (place : Nat × Nat) : Prop :=
  ∃ k, Within code consume k place

namespace CanAccept

variable {code : Array (Instruction α)} {consume : α → Nat → Option Nat} {a x y p : Nat}
  {reluctant : Bool}

theorem fork (hcode : code[a]? = some (.fork x y))
    (h : CanAccept code consume (x, p) ∨ CanAccept code consume (y, p)) :
    CanAccept code consume (a, p) := by
  rcases h with ⟨k, h⟩ | ⟨k, h⟩
  · exact ⟨k + 1, .preferred hcode h⟩
  · exact ⟨k + 1, .other hcode h⟩

theorem repetitionFork (hcode : code[a]? = some (Expression.repetitionFork reluctant x y))
    (h : CanAccept code consume (x, p) ∨ CanAccept code consume (y, p)) :
    CanAccept code consume (a, p) := by
  cases reluctant with
  | true => exact fork hcode h.symm
  | false => exact fork hcode h

theorem of_repetitionFork (hcode : code[a]? = some (Expression.repetitionFork reluctant x y))
    (h : CanAccept code consume (a, p)) :
    CanAccept code consume (x, p) ∨ CanAccept code consume (y, p) := by
  obtain ⟨k, h⟩ := h
  have hfork : code[a]? = some (.fork x y) ∨ code[a]? = some (.fork y x) := by
    cases reluctant with
    | true => exact .inr hcode
    | false => exact .inl hcode
  cases h with
  | preferred hi next =>
    rcases hfork with hcode | hcode
    · cases hi.symm.trans hcode
      exact .inl ⟨_, next⟩
    · cases hi.symm.trans hcode
      exact .inr ⟨_, next⟩
  | other hi next =>
    rcases hfork with hcode | hcode
    · cases hi.symm.trans hcode
      exact .inr ⟨_, next⟩
    · cases hi.symm.trans hcode
      exact .inl ⟨_, next⟩
  | _ hi => rcases hfork with hcode | hcode <;> cases hi.symm.trans hcode

/-- A repetition that need not be entered leads on wherever the instructions behind it do. -/
theorem leave {q : Quantifier} {body : Expression α} (hq : q ≠ .plus)
    (hcode : StandsAt code a ((Expression.repeated q reluctant body).instructions a))
    (h : CanAccept code consume
      (a + ((Expression.repeated q reluctant body).instructions a).length, p)) :
    CanAccept code consume (a, p) := by
  cases q with
  | plus => exact absurd rfl hq
  | optional =>
    obtain ⟨stop, hstop, _, hfork, _⟩ := hcode.optional
    exact repetitionFork hfork (.inr (hstop ▸ h))
  | star =>
    obtain ⟨_, stop, _, _, hstop, hfork, _, _⟩ := hcode.star
    exact repetitionFork hfork (.inr (hstop ▸ h))

/-- Behind the body of a star the instructions lead on wherever they do so from its start. -/
theorem behindStar {body : Expression α}
    (hcode : StandsAt code a ((Expression.repeated .star reluctant body).instructions a))
    (h : CanAccept code consume (a, p)) :
    CanAccept code consume (a + 1 + (body.instructions (a + 1)).length, p) := by
  obtain ⟨mid, stop, hmid, _, _, hfork, _, hback⟩ := hcode.star
  rw [← hmid]
  cases hnull : body.isNullable with
  | true =>
    rw [hnull, if_pos rfl] at hback
    exact repetitionFork hback (of_repetitionFork hfork h)
  | false =>
    rw [hnull, if_neg Bool.false_ne_true] at hback
    obtain ⟨k, h⟩ := h
    exact ⟨k + 1, .jump hback h⟩

end CanAccept

/-- Wherever an expression matches, its instructions lead on. -/
theorem canAccept_of_matches {code : Array (Instruction α)} {t : Track α} {e : Expression α}
    {x y : Standing} (h : e.Matches t x y) :
    ∀ start, StandsAt code start (e.instructions start) →
      CanAccept code t.consume (start + (e.instructions start).length, y.1) →
      CanAccept code t.consume (start, x.1) := by
  induction h with
  | empty => exact fun start _ haccept => haccept
  | atom h =>
    intro start hcode haccept
    obtain ⟨k, haccept⟩ := haccept
    exact ⟨k + 1, .consume hcode.head h haccept⟩
  | unnamed _ ih => exact ih
  | named _ ih =>
    intro start hcode haccept
    obtain ⟨hopen, hinside, hclose, hstop⟩ := hcode.group
    rw [hstop] at haccept
    obtain ⟨k, haccept⟩ := haccept
    obtain ⟨k, hbody⟩ := ih (start + 1) hinside ⟨k + 1, .save hclose haccept⟩
    exact ⟨k + 1, .save hopen hbody⟩
  | sequence _ _ ihf ihs =>
    intro start hcode haccept
    rw [Expression.instructions, List.length_append, ← Nat.add_assoc] at haccept
    exact ihf start hcode.left (ihs _ hcode.right haccept)
  | left _ ih =>
    intro start hcode haccept
    obtain ⟨mid, stop, hmid, hstop, _, hfork, hfirst, hjump, _⟩ := hcode.choice
    rw [← hstop] at haccept
    obtain ⟨k, haccept⟩ := haccept
    refine .fork hfork (.inl (ih _ hfirst ?_))
    rw [← hmid]
    exact ⟨k + 1, .jump hjump haccept⟩
  | right _ ih =>
    intro start hcode haccept
    obtain ⟨mid, stop, _, hstop, hend, hfork, _, _, hsecond⟩ := hcode.choice
    rw [← hstop, hend] at haccept
    exact .fork hfork (.inr (ih _ hsecond haccept))
  | leave hq => exact fun start hcode haccept => haccept.leave hq hcode
  | @once q _ body _ _ _ ih =>
    intro start hcode haccept
    cases q with
    | plus =>
      obtain ⟨stop, hstop, _, hinside, hfork⟩ := hcode.plus
      exact ih start hinside (.repetitionFork hfork (.inr (hstop ▸ haccept)))
    | optional =>
      obtain ⟨stop, hstop, hend, hfork, hinside⟩ := hcode.optional
      rw [← hstop, hend] at haccept
      exact .repetitionFork hfork (.inl (ih _ hinside haccept))
    | star =>
      obtain ⟨_, _, _, _, _, hfork, hinside, _⟩ := hcode.star
      have hleave := haccept.leave (by decide) hcode
      exact .repetitionFork hfork (.inl (ih _ hinside (hleave.behindStar hcode)))
  | @again q _ body _ _ _ hq _ _ _ ih ihm =>
    intro start hcode haccept
    have hmore := ihm start hcode haccept
    cases q with
    | optional => exact absurd rfl hq
    | plus =>
      obtain ⟨_, _, _, hinside, hfork⟩ := hcode.plus
      exact ih start hinside (.repetitionFork hfork (.inl hmore))
    | star =>
      obtain ⟨_, _, _, _, _, hfork, hinside, _⟩ := hcode.star
      exact .repetitionFork hfork (.inl (ih _ hinside (hmore.behindStar hcode)))

/-- Where an expression matches it has a reading. -/
theorem readings_ne_nil_of_matches {t : Track α} {e : Expression α} {start : Nat}
    {saved : List (Nat × Nat)} {y : Standing}
    (hreg : e.Regular fun a => ∀ p q, t.consume a p = some q → p < q) (hle : start ≤ t.length)
    (h : e.Matches t (start, saved) y) :
    e.readingsOn t 0 ⟨start, [(0, start)], []⟩ ≠ [] := by
  have hblock := standsAt_automaton e
  have haccept : CanAccept e.automaton t.consume (0 + (e.instructions 0).length, y.1) :=
    ⟨0, .accept hblock.mid⟩
  obtain ⟨k, hwithin⟩ := canAccept_of_matches h 0 hblock.left haccept
  have hexp := explores_automaton (fun a p q h => t.within h) hreg hle
  have hsome := hwithin.isSome_of_explores (t := ⟨0, start, [(0, start)]⟩)
    (fun _ hin => absurd hin List.not_mem_nil) hexp
  intro hnil
  rw [Expression.readingsOn] at hnil
  rw [hnil] at hsome
  cases hsome

end Klingon.Pattern
