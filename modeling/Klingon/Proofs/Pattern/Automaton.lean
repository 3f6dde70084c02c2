import Klingon.Proofs.Pattern.Reading
import Klingon.Proofs.Pattern.Search

/-!
# The automaton of an expression

Following a thread into the instructions of an expression comes to what the first of the readings
comes to that comes to something behind them. The decisions of the expression and the forks among
its instructions stand for each other: a fork is on the path of a thread, at the present position,
when the reading has faced its decision since it consumed something. The leftmost match of an
automaton is therefore the preferred reading of its expression.
-/

namespace Klingon.Pattern

variable {α : Type}

/-- The thread of a reading that has come to an address. -/
def Reading.thread (address : Nat) (r : Reading) : Thread :=
  ⟨address, r.position, r.saved⟩

/-- A reading that comes after another: it has consumed something, or it has faced all decisions
that the other has. -/
def Reading.Follows (r s : Reading) : Prop :=
  r.position < s.position ∨ (s.position = r.position ∧ r.faced ⊆ s.faced)

theorem Reading.Follows.refl (r : Reading) : r.Follows r :=
  .inr ⟨rfl, fun _ h => h⟩

theorem Reading.Follows.trans {r s t : Reading} (h : r.Follows s) (h' : s.Follows t) :
    r.Follows t := by
  rcases h with h | ⟨h, hf⟩ <;> rcases h' with h' | ⟨h', hf'⟩
  · exact .inl (by omega)
  · exact .inl (by omega)
  · exact .inl (by omega)
  · exact .inr ⟨by omega, fun _ hd => hf' (hf hd)⟩

theorem Reading.follows_face (n : Nat) (r : Reading) : r.Follows (r.face n) :=
  .inr ⟨rfl, fun _ h => List.mem_cons_of_mem _ h⟩

namespace Expression

/-- An expression with atoms of one kind in which nothing that is always empty is repeated. -/
def Regular (P : α → Prop) : Expression α → Prop
  | empty => True
  | atom a => P a
  | group _ body => body.Regular P
  | sequence first second => first.Regular P ∧ second.Regular P
  | choice first second => first.Regular P ∧ second.Regular P
  | repeated q _ body => (q = .optional ∨ body.isVacuous = false) ∧ body.Regular P

theorem Regular.imp {P Q : α → Prop} {e : Expression α} (h : e.Regular P)
    (hPQ : ∀ a, P a → Q a) : e.Regular Q := by
  induction e with
  | empty => trivial
  | atom a => exact hPQ a h
  | group number body ih => exact ih h
  | sequence first second ihf ihs => exact ⟨ihf h.1, ihs h.2⟩
  | choice first second ihf ihs => exact ⟨ihf h.1, ihs h.2⟩
  | repeated q reluctant body ih => exact ⟨h.1, ih h.2⟩

/-- The decisions of an expression with the addresses of their forks. -/
def forks : Expression α → Nat → Nat → List (Nat × Nat)
  | empty, _, _ => []
  | atom _, _, _ => []
  | group none body, n, start => body.forks n start
  | group (some _) body, n, start => body.forks n (start + 1)
  | sequence first second, n, start =>
    first.forks n start ++
      second.forks (n + first.decisions) (start + (first.instructions start).length)
  | choice first second, n, start =>
    (n, start) :: first.forks (n + 1) (start + 1) ++
      second.forks (n + 1 + first.decisions)
        (start + (first.instructions (start + 1)).length + 2)
  | repeated .optional _ body, n, start => (n, start) :: body.forks (n + 1) (start + 1)
  | repeated .plus _ body, n, start =>
    if body.isVacuous then body.forks n start
    else (n, start + (body.instructions start).length) :: body.forks (n + 1) start
  | repeated .star _ body, n, start =>
    if body.isNullable && !body.isVacuous then
      (n, start) :: (n + 1, start + (body.instructions (start + 1)).length + 1) ::
        body.forks (n + 2) (start + 1)
    else (n, start) :: body.forks (n + 1) (start + 1)

end Expression

/-- Whether a block of instructions stands at an address. -/
def StandsAt (code : Array (Instruction α)) (start : Nat) (block : List (Instruction α)) : Prop :=
  ∀ i (h : i < block.length), code[start + i]? = some block[i]

namespace StandsAt

variable {code : Array (Instruction α)} {start : Nat} {i : Instruction α}
  {block more : List (Instruction α)}

theorem head (h : StandsAt code start (i :: block)) : code[start]? = some i :=
  h 0 (Nat.succ_pos _)

theorem tail (h : StandsAt code start (i :: block)) : StandsAt code (start + 1) block := by
  intro j hj
  have := h (j + 1) (Nat.succ_lt_succ hj)
  rwa [show start + (j + 1) = start + 1 + j by omega] at this

theorem left (h : StandsAt code start (block ++ more)) : StandsAt code start block := by
  intro j hj
  rw [h j (by rw [List.length_append]; omega), List.getElem_append_left hj]

theorem right (h : StandsAt code start (block ++ more)) :
    StandsAt code (start + block.length) more := by
  intro j hj
  have := h (block.length + j) (by rw [List.length_append]; omega)
  rw [List.getElem_append_right (by omega)] at this
  simpa [Nat.add_assoc] using this

theorem mid (h : StandsAt code start (block ++ i :: more)) :
    code[start + block.length]? = some i :=
  h.right.head

/-! Where the instructions of an expression stand among those of a larger one. -/

section Layout

variable {first second body : Expression α} {reluctant : Bool}

theorem group {m : Nat} (h : StandsAt code start (Expression.instructions start (.group (some m) body))) :
    code[start]? = some (.save (2 * m)) ∧
      StandsAt code (start + 1) (body.instructions (start + 1)) ∧
      code[start + 1 + (body.instructions (start + 1)).length]? = some (.save (2 * m + 1)) ∧
      start + (Expression.instructions start (.group (some m) body)).length =
        start + 1 + (body.instructions (start + 1)).length + 1 := by
  have hclose := h.mid
  rw [List.length_cons, Nat.add_comm _ 1, ← Nat.add_assoc] at hclose
  refine ⟨h.left.head, h.left.tail, hclose, ?_⟩
  simp only [Expression.instructions, List.length_append, List.length_cons, List.length_nil]
  omega

theorem choice (h : StandsAt code start (Expression.instructions start (.choice first second))) :
    ∃ mid stop, mid = start + 1 + (first.instructions (start + 1)).length ∧
      stop = start + (Expression.instructions start (.choice first second)).length ∧
      stop = mid + 1 + (second.instructions (mid + 1)).length ∧
      code[start]? = some (.fork (start + 1) (mid + 1)) ∧
      StandsAt code (start + 1) (first.instructions (start + 1)) ∧
      code[mid]? = some (.jump stop) ∧
      StandsAt code (mid + 1) (second.instructions (mid + 1)) := by
  have hmid : start + ((first.instructions (start + 1)).length + 1) =
      start + 1 + (first.instructions (start + 1)).length := by omega
  have hmiddle : start + (first.instructions (start + 1)).length + 2 =
      start + 1 + (first.instructions (start + 1)).length + 1 := by omega
  rw [Expression.instructions, hmiddle] at h
  have hjump := h.right.head
  have hback := h.right.tail
  rw [List.length_cons, hmid] at hjump hback
  refine ⟨_, _, rfl, ?_, rfl, h.left.head, h.left.tail, hjump, hback⟩
  rw [Expression.instructions, hmiddle]
  simp only [List.length_append, List.length_cons]
  omega

theorem optional
    (h : StandsAt code start (Expression.instructions start (.repeated .optional reluctant body))) :
    ∃ stop, stop = start + (Expression.instructions start (.repeated .optional reluctant body)).length ∧
      stop = start + 1 + (body.instructions (start + 1)).length ∧
      code[start]? = some (Expression.repetitionFork reluctant (start + 1) stop) ∧
      StandsAt code (start + 1) (body.instructions (start + 1)) := by
  refine ⟨_, rfl, ?_, h.head, h.tail⟩
  rw [Expression.instructions, List.length_cons]
  omega

theorem plus
    (h : StandsAt code start (Expression.instructions start (.repeated .plus reluctant body))) :
    ∃ stop, stop = start + (Expression.instructions start (.repeated .plus reluctant body)).length ∧
      stop = start + (body.instructions start).length + 1 ∧
      StandsAt code start (body.instructions start) ∧
      code[start + (body.instructions start).length]? =
        some (Expression.repetitionFork reluctant start stop) := by
  refine ⟨_, ?_, rfl, h.left, h.mid⟩
  rw [Expression.instructions, List.length_append, List.length_singleton]
  omega

/-- Behind the body of a star stands the way back: another fork if the body may be empty, a jump to
the first fork otherwise. -/
theorem star
    (h : StandsAt code start (Expression.instructions start (.repeated .star reluctant body))) :
    ∃ mid stop, mid = start + 1 + (body.instructions (start + 1)).length ∧ stop = mid + 1 ∧
      stop = start + (Expression.instructions start (.repeated .star reluctant body)).length ∧
      code[start]? = some (Expression.repetitionFork reluctant (start + 1) stop) ∧
      StandsAt code (start + 1) (body.instructions (start + 1)) ∧
      code[mid]? = some (if body.isNullable then Expression.repetitionFork reluctant (start + 1) stop
        else .jump start) := by
  have hmid : start + ((body.instructions (start + 1)).length + 1) =
      start + 1 + (body.instructions (start + 1)).length := by omega
  have hstop : start + (body.instructions (start + 1)).length + 2 =
      start + 1 + (body.instructions (start + 1)).length + 1 := by omega
  refine ⟨_, _, rfl, rfl, ?_, ?_⟩
  · rw [Expression.instructions]
    split <;> simp only [List.length_append, List.length_cons, List.length_nil] <;> omega
  · rw [Expression.instructions, hstop] at h
    cases hnull : body.isNullable with
    | true =>
      rw [hnull, if_pos rfl] at h
      have hback := h.mid
      rw [List.length_cons, hmid] at hback
      exact ⟨h.left.head, h.left.tail, hback⟩
    | false =>
      rw [hnull, if_neg Bool.false_ne_true] at h
      have hback := h.mid
      rw [List.length_cons, hmid] at hback
      exact ⟨h.left.head, h.left.tail, hback⟩

end Layout

end StandsAt

/-- Decisions and forks that stand for each other one to one. -/
def OneToOne (pairs : List (Nat × Nat)) : Prop :=
  ∀ p ∈ pairs, ∀ q ∈ pairs, p.1 = q.1 ↔ p.2 = q.2

/-- The forks on a path, and the decisions a reading has faced, that belong together. -/
structure Agrees (pairs : List (Nat × Nat)) (r : Reading) (path : List (Nat × Nat)) : Prop where
  past : ∀ place ∈ path, place.2 ≤ r.position
  faced : ∀ p ∈ pairs, p.1 ∈ r.faced ↔ (p.2, r.position) ∈ path

namespace Agrees

variable {pairs path : List (Nat × Nat)} {r : Reading}

theorem face (hone : OneToOne pairs) (h : Agrees pairs r path) {p : Nat × Nat} (hp : p ∈ pairs) :
    Agrees pairs (r.face p.1) ((p.2, r.position) :: path) where
  past place hplace := by
    rcases List.mem_cons.mp hplace with rfl | hplace
    · exact Nat.le_refl _
    · exact h.past place hplace
  faced q hq := by
    have hiff := hone q hq p hp
    have hold := h.faced q hq
    simp only [Reading.face, List.mem_cons, Prod.mk.injEq, and_true]
    rw [hiff, hold]

theorem moveTo (h : Agrees pairs r path) {position : Nat} (hlt : r.position < position) :
    Agrees pairs (r.moveTo position) path where
  past place hplace := Nat.le_of_lt (Nat.lt_of_le_of_lt (h.past place hplace) hlt)
  faced p _ := by
    constructor
    · intro hin
      cases hin
    · intro hin
      have := h.past _ hin
      exact absurd hlt (Nat.not_lt.mpr this)

theorem save (h : Agrees pairs r path) (slot : Nat) : Agrees pairs (r.save slot) path :=
  ⟨h.past, h.faced⟩

end Agrees

/-- The instructions between two addresses carry out the ways of a reading: following a thread into
them comes to what the first of the ways comes to that comes to something behind them. -/
def CarriesOut (code : Array (Instruction α)) (consume : α → Nat → Option Nat) (length : Nat)
    (pairs : List (Nat × Nat)) (start stop : Nat) (ways : Reading → List Reading) : Prop :=
  ∀ (K : Reading → Option Thread) r path, Agrees pairs r path → r.position ≤ length →
    (∀ s path, r.Follows s → s.position ≤ length → Agrees pairs s path →
      Explores code consume path (s.thread stop) (K s)) →
    Explores code consume path (r.thread start) ((ways r).findSome? K)

namespace CarriesOut

variable {code : Array (Instruction α)} {consume : α → Nat → Option Nat} {length : Nat}
  {pairs : List (Nat × Nat)} {start mid stop x y decision : Nat} {reluctant : Bool}
  {first second : Reading → List Reading}

theorem nothing : CarriesOut code consume length pairs start start fun r => [r] := by
  intro K r path hagrees hle hK
  rw [findSome?_singleton]
  exact hK r path (.refl r) hle hagrees

theorem one {a : α} (hcode : code[start]? = some (.consume a))
    (hlength : ∀ p q, consume a p = some q → q ≤ length)
    (hadvance : ∀ p q, consume a p = some q → p < q) :
    CarriesOut code consume length pairs start (start + 1) fun r =>
      ((consume a r.position).map fun position => r.moveTo position).toList := by
  intro K r path hagrees hle hK
  dsimp only
  cases hconsume : consume a r.position with
  | none => exact .stuck hcode hconsume
  | some position =>
    have hlt := hadvance _ _ hconsume
    rw [Option.map_some, Option.toList_some, findSome?_singleton]
    exact .consume hcode hconsume
      (hK _ path (.inl hlt) (hlength _ _ hconsume) (hagrees.moveTo hlt))

theorem both (hfirst : CarriesOut code consume length pairs start mid first)
    (hsecond : CarriesOut code consume length pairs mid stop second) :
    CarriesOut code consume length pairs start stop fun r => (first r).flatMap second := by
  intro K r path hagrees hle hK
  rw [findSome?_flatMap]
  refine hfirst _ r path hagrees hle fun s path hfollows hles hs => ?_
  refine hsecond K s path hs hles fun t path hst => ?_
  exact hK t path (hfollows.trans hst)

theorem jump (hfirst : CarriesOut code consume length pairs start mid first)
    (hcode : code[mid]? = some (.jump stop)) :
    CarriesOut code consume length pairs start stop first := by
  intro K r path hagrees hle hK
  exact hfirst K r path hagrees hle fun s path hfollows hles hs =>
    .jump hcode (hK s path hfollows hles hs)

theorem group {slot slot' : Nat} (hopen : code[start]? = some (.save slot))
    (hfirst : CarriesOut code consume length pairs (start + 1) mid first)
    (hclose : code[mid]? = some (.save slot')) :
    CarriesOut code consume length pairs start (mid + 1) fun r =>
      (first (r.save slot)).map (Reading.save slot') := by
  intro K r path hagrees hle hK
  rw [List.findSome?_map]
  refine .save hopen (hfirst _ (r.save slot) path (hagrees.save slot) hle ?_)
  intro s path hfollows hles hs
  exact .save hclose (hK (s.save slot') path hfollows hles (hs.save slot'))

/-- A fork comes to what its decision comes to, of which the preferred ways are one target and the
others the other. -/
theorem explores_facing (hone : OneToOne pairs) (hcode : code[start]? = some (.fork x y))
    (hmem : (decision, start) ∈ pairs) {r : Reading} {path : List (Nat × Nat)}
    (hagrees : Agrees pairs r path) {ways : Reading → List Reading}
    {K : Reading → Option Thread} {left right : Option Thread}
    (hways : (ways (r.face decision)).findSome? K = left.or right)
    (hleft : ∀ path, Agrees pairs (r.face decision) path →
      Explores code consume path ((r.face decision).thread x) left)
    (hright : ∀ path, Agrees pairs (r.face decision) path →
      Explores code consume path ((r.face decision).thread y) right) :
    Explores code consume path (r.thread start) ((r.facing decision ways).findSome? K) := by
  have hiff := hagrees.faced _ hmem
  by_cases hin : decision ∈ r.faced
  · rw [Reading.facing, if_pos hin]
    exact .revisit hcode (hiff.mp hin)
  · rw [Reading.facing, if_neg hin, hways]
    have hagrees' := hagrees.face hone hmem
    exact .fork hcode (fun h => hin (hiff.mpr h)) (hleft _ hagrees') (hright _ hagrees')

theorem either (hone : OneToOne pairs) (hcode : code[start]? = some (.fork x y))
    (hmem : (decision, start) ∈ pairs)
    (hfirst : CarriesOut code consume length pairs x stop first)
    (hsecond : CarriesOut code consume length pairs y stop second) :
    CarriesOut code consume length pairs start stop
      (Reading.facing decision fun r => first r ++ second r) := by
  intro K r path hagrees hle hK
  refine explores_facing hone hcode hmem hagrees List.findSome?_append ?_ ?_
  · exact fun path h => hfirst K _ path h hle fun s path hs => hK s path ((r.follows_face _).trans hs)
  · exact fun path h => hsecond K _ path h hle fun s path hs => hK s path ((r.follows_face _).trans hs)

/-- The fork of a repetition: the way into the body and the way to the exit, as preferred. -/
theorem explores_repetition (hone : OneToOne pairs)
    (hcode : code[start]? = some (Expression.repetitionFork reluctant x stop))
    (hmem : (decision, start) ∈ pairs) {r : Reading} {path : List (Nat × Nat)}
    (hagrees : Agrees pairs r path) {ways : Reading → List Reading}
    {K : Reading → Option Thread}
    (henter : ∀ path, Agrees pairs (r.face decision) path → Explores code consume path
      ((r.face decision).thread x) ((ways (r.face decision)).findSome? K))
    (hexit : ∀ path, Agrees pairs (r.face decision) path → Explores code consume path
      ((r.face decision).thread stop) (K (r.face decision))) :
    Explores code consume path (r.thread start)
      ((r.facing decision fun r => Reading.preferring reluctant (ways r) [r]).findSome? K) := by
  cases reluctant with
  | true =>
    exact explores_facing hone hcode hmem hagrees (findSome?_preferring true _ _ K) hexit henter
  | false =>
    exact explores_facing hone hcode hmem hagrees (findSome?_preferring false _ _ K) henter hexit

theorem enter (hone : OneToOne pairs)
    (hcode : code[start]? = some (Expression.repetitionFork reluctant x stop))
    (hmem : (decision, start) ∈ pairs)
    (hfirst : CarriesOut code consume length pairs x stop first) :
    CarriesOut code consume length pairs start stop
      (Reading.facing decision fun r => Reading.preferring reluctant (first r) [r]) := by
  intro K r path hagrees hle hK
  refine explores_repetition hone hcode hmem hagrees ?_ ?_
  · exact fun path h => hfirst K _ path h hle fun s path hs => hK s path ((r.follows_face _).trans hs)
  · exact fun path h => hK _ path (r.follows_face _) hle h

/-- What comes back to the fork of a repetition without having consumed anything is at an end. -/
theorem explores_rounds_of_faced
    (hcode : code[start]? = some (Expression.repetitionFork reluctant x stop))
    (hmem : (decision, start) ∈ pairs) {r : Reading} {path : List (Nat × Nat)}
    (hagrees : Agrees pairs r path) (hin : decision ∈ r.faced) (left : Nat)
    (K : Reading → Option Thread) :
    Explores code consume path (r.thread start)
      ((Reading.rounds decision reluctant first left r).findSome? K) := by
  have hplace := (hagrees.faced _ hmem).mp hin
  rw [Reading.rounds_of_faced hin]
  cases reluctant with
  | true => exact .revisit hcode hplace
  | false => exact .revisit hcode hplace

/-- The measure of the rounds is what is left of the sequence: a round that consumes nothing comes
back to a fork that is on the path. -/
theorem rounds (hone : OneToOne pairs)
    (hcode : code[start]? = some (Expression.repetitionFork reluctant x stop))
    (hmem : (decision, start) ∈ pairs)
    (hbody : CarriesOut code consume length pairs x start first) :
    CarriesOut code consume length pairs start stop
      (Reading.rounds decision reluctant first (length + 1)) := by
  have hleft : ∀ (left : Nat) (K : Reading → Option Thread) r path, length + 1 ≤ r.position + left →
      Agrees pairs r path → r.position ≤ length →
      (∀ s path, r.Follows s → s.position ≤ length → Agrees pairs s path →
        Explores code consume path (s.thread stop) (K s)) →
      Explores code consume path (r.thread start)
        ((Reading.rounds decision reluctant first left r).findSome? K) := by
    intro left K
    induction left with
    | zero =>
      intro r path hleft _ hle
      omega
    | succ left ih =>
      intro r path hleft hagrees hle hK
      refine explores_repetition hone hcode hmem hagrees ?_ ?_
      · intro path hpath
        rw [findSome?_flatMap]
        refine hbody _ (r.face decision) path hpath hle fun s path hfollows hles hs => ?_
        have hback := (r.follows_face decision).trans hfollows
        rcases hfollows with hlt | ⟨_, hfaced⟩
        · have hpos : (r.face decision).position = r.position := rfl
          exact ih s path (by omega) hs hles fun t path hst => hK t path (hback.trans hst)
        · exact explores_rounds_of_faced hcode hmem hs (hfaced List.mem_cons_self) left K
      · exact fun path h => hK _ path (r.follows_face _) hle h
  intro K r path
  exact hleft (length + 1) K r path (by omega)

end CarriesOut

section Repetition

variable {code : Array (Instruction α)} {consume : α → Nat → Option Nat} {length : Nat}
  {pairs : List (Nat × Nat)} {n start mid stop : Nat} {reluctant : Bool} {body : Expression α}

theorem carriesOut_plus (hone : OneToOne pairs) (hvac : body.isVacuous = false)
    (hcode : code[mid]? = some (Expression.repetitionFork reluctant start stop))
    (hmem : (n, mid) ∈ pairs)
    (hbody : CarriesOut code consume length pairs start mid
      (body.readings consume length (n + 1))) :
    CarriesOut code consume length pairs start stop
      (Expression.readings consume length (.repeated .plus reluctant body) n) := by
  have hways : Expression.readings consume length (.repeated .plus reluctant body) n = fun r =>
      (body.readings consume length (n + 1) r).flatMap
        (Reading.rounds n reluctant (body.readings consume length (n + 1)) (length + 1)) := by
    funext r
    rw [Expression.readings, hvac]
    rfl
  rw [hways]
  exact .both hbody (.rounds hone hcode hmem hbody)

/-- A body that may be empty is followed by a second fork. -/
theorem carriesOut_star_of_nullable (hone : OneToOne pairs) (hvac : body.isVacuous = false)
    (hnull : body.isNullable = true)
    (hcode : code[start]? = some (Expression.repetitionFork reluctant (start + 1) stop))
    (hback : code[mid]? = some (Expression.repetitionFork reluctant (start + 1) stop))
    (hentry : (n, start) ∈ pairs) (hagain : (n + 1, mid) ∈ pairs)
    (hbody : CarriesOut code consume length pairs (start + 1) mid
      (body.readings consume length (n + 2))) :
    CarriesOut code consume length pairs start stop
      (Expression.readings consume length (.repeated .star reluctant body) n) := by
  have hways : Expression.readings consume length (.repeated .star reluctant body) n =
      Reading.facing n fun r => Reading.preferring reluctant
        ((body.readings consume length (n + 2) r).flatMap (Reading.rounds (n + 1) reluctant
          (body.readings consume length (n + 2)) (length + 1))) [r] := by
    funext r
    rw [Expression.readings, hvac, hnull]
    rfl
  rw [hways]
  exact .enter hone hcode hentry (.both hbody (.rounds hone hback hagain hbody))

theorem carriesOut_star_of_not_nullable (hone : OneToOne pairs) (hvac : body.isVacuous = false)
    (hnull : body.isNullable = false)
    (hcode : code[start]? = some (Expression.repetitionFork reluctant (start + 1) stop))
    (hback : code[mid]? = some (.jump start)) (hentry : (n, start) ∈ pairs)
    (hbody : CarriesOut code consume length pairs (start + 1) mid
      (body.readings consume length (n + 1))) :
    CarriesOut code consume length pairs start stop
      (Expression.readings consume length (.repeated .star reluctant body) n) := by
  have hways : Expression.readings consume length (.repeated .star reluctant body) n =
      Reading.rounds n reluctant (body.readings consume length (n + 1)) (length + 1) := by
    funext r
    rw [Expression.readings, hvac, hnull]
    rfl
  rw [hways]
  exact .rounds hone hcode hentry (hbody.jump hback)

end Repetition

/-- The instructions of an expression carry out its readings. -/
theorem carriesOut_readings {code : Array (Instruction α)} {consume : α → Nat → Option Nat}
    {length : Nat} {pairs : List (Nat × Nat)} (hone : OneToOne pairs)
    (hlength : ∀ a p q, consume a p = some q → q ≤ length) {e : Expression α} :
    ∀ {n start : Nat}, e.Regular (fun a => ∀ p q, consume a p = some q → p < q) →
      StandsAt code start (e.instructions start) → e.forks n start ⊆ pairs →
      CarriesOut code consume length pairs start (start + (e.instructions start).length)
        (e.readings consume length n) := by
  induction e with
  | empty => exact fun _ _ _ => .nothing
  | atom a => exact fun hreg hcode _ => .one hcode.head (hlength a) hreg
  | group number body ih =>
    intro n start hreg hcode hforks
    cases number with
    | none => exact ih hreg hcode hforks
    | some m =>
      obtain ⟨hopen, hinside, hclose, hstop⟩ := hcode.group
      rw [hstop]
      exact .group hopen (ih hreg hinside hforks) hclose
  | sequence first second ihf ihs =>
    intro n start hreg hcode hforks
    obtain ⟨hf, hs⟩ := List.append_subset.mp hforks
    rw [Expression.instructions, List.length_append, ← Nat.add_assoc]
    exact .both (ihf hreg.1 hcode.left hf) (ihs hreg.2 hcode.right hs)
  | choice first second ihf ihs =>
    intro n start hreg hcode hforks
    obtain ⟨mid, stop, hmid, hstop, hend, hfork, hfirst, hjump, hsecond⟩ := hcode.choice
    have hmiddle : start + (first.instructions (start + 1)).length + 2 = mid + 1 := by omega
    rw [Expression.forks, hmiddle] at hforks
    obtain ⟨hf, hs⟩ := List.append_subset.mp hforks
    obtain ⟨hmem, hf⟩ := List.cons_subset.mp hf
    rw [← hstop]
    have hleft := ihf hreg.1 hfirst hf
    have hright := ihs hreg.2 hsecond hs
    rw [← hmid] at hleft
    rw [← hend] at hright
    exact .either hone hfork hmem (hleft.jump hjump) hright
  | repeated q reluctant body ih =>
    intro n start hreg hcode hforks
    cases q with
    | optional =>
      obtain ⟨stop, hstop, hend, hfork, hinside⟩ := hcode.optional
      obtain ⟨hmem, hforks⟩ := List.cons_subset.mp hforks
      have hbody := ih hreg.2 hinside hforks
      rw [← hend] at hbody
      rw [← hstop]
      exact .enter hone hfork hmem hbody
    | plus =>
      have hvac := hreg.1.resolve_left (by simp)
      obtain ⟨stop, hstop, _, hinside, hfork⟩ := hcode.plus
      rw [Expression.forks, hvac] at hforks
      obtain ⟨hmem, hforks⟩ := List.cons_subset.mp hforks
      rw [← hstop]
      exact carriesOut_plus hone hvac hfork hmem (ih hreg.2 hinside hforks)
    | star =>
      have hvac := hreg.1.resolve_left (by simp)
      obtain ⟨mid, stop, hmid, _, hstop, hfork, hinside, hback⟩ := hcode.star
      have hmiddle : start + (body.instructions (start + 1)).length + 1 = mid := by omega
      rw [← hstop]
      cases hnull : body.isNullable with
      | true =>
        simp only [Expression.forks, hnull, hvac, Bool.not_false, Bool.and_self, if_true,
          List.cons_subset, hmiddle] at hforks
        obtain ⟨hentry, hagain, hforks⟩ := hforks
        have hbody := ih hreg.2 hinside hforks
        rw [← hmid] at hbody
        rw [hnull, if_pos rfl] at hback
        exact carriesOut_star_of_nullable hone hvac hnull hfork hback hentry hagain hbody
      | false =>
        simp only [Expression.forks, hnull, Bool.false_and, Bool.false_eq_true, if_false,
          List.cons_subset] at hforks
        obtain ⟨hentry, hforks⟩ := hforks
        have hbody := ih hreg.2 hinside hforks
        rw [← hmid] at hbody
        rw [hnull, if_neg Bool.false_ne_true] at hback
        exact carriesOut_star_of_not_nullable hone hvac hnull hfork hback hentry hbody

/-! ## Forks and decisions stand for each other one to one -/

/-- Whether the decisions of forks are a part of a run of decisions, and their addresses of a run of
addresses. Both runs end before their second bound. -/
def Among (n m start stop : Nat) (pairs : List (Nat × Nat)) : Prop :=
  ∀ p ∈ pairs, (n ≤ p.1 ∧ p.1 < m) ∧ start ≤ p.2 ∧ p.2 < stop

namespace Among

variable {n m start stop n' m' start' stop' : Nat} {p : Nat × Nat} {pairs more : List (Nat × Nat)}

theorem nil : Among n m start stop [] :=
  List.forall_mem_nil _

theorem cons (hp : (n ≤ p.1 ∧ p.1 < m) ∧ start ≤ p.2 ∧ p.2 < stop)
    (h : Among n m start stop pairs) : Among n m start stop (p :: pairs) :=
  List.forall_mem_cons.mpr ⟨hp, h⟩

theorem append (h : Among n m start stop pairs) (hmore : Among n m start stop more) :
    Among n m start stop (pairs ++ more) :=
  List.forall_mem_append.mpr ⟨h, hmore⟩

theorem mono (h : Among n m start stop pairs)
    (hle : (n' ≤ n ∧ m ≤ m') ∧ start' ≤ start ∧ stop ≤ stop') : Among n' m' start' stop' pairs := by
  intro p hp
  have := h p hp
  omega

end Among

namespace OneToOne

variable {n m start stop n' m' start' stop' : Nat} {p : Nat × Nat} {pairs more : List (Nat × Nat)}

theorem nil : OneToOne [] :=
  List.forall_mem_nil _

theorem singleton (p : Nat × Nat) : OneToOne [p] := by
  intro q hq q' hq'
  rw [List.mem_singleton.mp hq, List.mem_singleton.mp hq']
  exact iff_of_true rfl rfl

/-- Forks among different decisions and different addresses do not meet. -/
theorem append (h : OneToOne pairs) (hmore : OneToOne more) (hamong : Among n m start stop pairs)
    (hamong' : Among n' m' start' stop' more)
    (hapart : (m ≤ n' ∨ m' ≤ n) ∧ (stop ≤ start' ∨ stop' ≤ start)) : OneToOne (pairs ++ more) := by
  have hne : ∀ p ∈ pairs, ∀ q ∈ more, p.1 ≠ q.1 ∧ p.2 ≠ q.2 := by
    intro p hp q hq
    have := hamong p hp
    have := hamong' q hq
    omega
  intro p hp q hq
  rcases List.mem_append.mp hp with hp | hp <;> rcases List.mem_append.mp hq with hq | hq
  · exact h p hp q hq
  · have := hne p hp q hq
    exact iff_of_false this.1 this.2
  · have := hne q hq p hp
    exact iff_of_false (Ne.symm this.1) (Ne.symm this.2)
  · exact hmore p hp q hq

theorem cons (h : OneToOne pairs) (hamong : Among n m start stop pairs)
    (hapart : (p.1 < n ∨ m ≤ p.1) ∧ (p.2 < start ∨ stop ≤ p.2)) : OneToOne (p :: pairs) := by
  have hp : Among p.1 (p.1 + 1) p.2 (p.2 + 1) [p] := .cons (by omega) .nil
  exact (singleton p).append h hp hamong (by omega)

end OneToOne

namespace Expression

theorem length_star (start : Nat) (reluctant : Bool) (body : Expression α) :
    (instructions start (repeated .star reluctant body)).length =
      (body.instructions (start + 1)).length + 2 := by
  rw [instructions]
  split <;> simp

/-- Forks of a star: two if its body may be empty without being so always. -/
theorem loopDecisions_star (vacuous nullable : Bool) :
    loopDecisions .star vacuous nullable = if nullable && !vacuous then 2 else 1 := by
  cases vacuous <;> cases nullable <;> rfl

/-- The forks of an expression stand among its instructions, and decide its decisions. -/
theorem forks_among {e : Expression α} {n start : Nat} :
    Among n (n + e.decisions) start (start + (e.instructions start).length)
      (e.forks n start) := by
  induction e generalizing n start with
  | empty => exact .nil
  | atom a => exact .nil
  | group number body ih =>
    cases number with
    | none => exact ih
    | some m =>
      refine ih.mono ?_
      simp only [instructions, decisions, List.length_append, List.length_cons]
      omega
  | sequence first second ihf ihs =>
    simp only [instructions, decisions, List.length_append]
    exact (ihf.mono (by omega)).append (ihs.mono (by omega))
  | choice first second ihf ihs =>
    simp only [instructions, decisions, List.length_append, List.length_cons]
    exact (Among.cons (by omega) (ihf.mono (by omega))).append (ihs.mono (by omega))
  | repeated q reluctant body ih =>
    cases q with
    | optional =>
      have hown : (repeated .optional reluctant body).decisions = 1 + body.decisions := rfl
      simp only [instructions, hown, List.length_cons]
      exact .cons (by omega) (ih.mono (by omega))
    | plus =>
      rw [forks]
      simp only [instructions, decisions, List.length_append, List.length_singleton]
      cases body.isVacuous with
      | true => exact ih.mono (by omega)
      | false =>
        simp only [loopDecisions]
        exact .cons (by omega) (ih.mono (by omega))
    | star =>
      rw [forks, length_star, decisions, loopDecisions_star]
      split
      · exact .cons (by omega) (.cons (by omega) (ih.mono (by omega)))
      · exact .cons (by omega) (ih.mono (by omega))

theorem oneToOne_forks {e : Expression α} {n start : Nat} : OneToOne (e.forks n start) := by
  induction e generalizing n start with
  | empty => exact .nil
  | atom a => exact .nil
  | group number body ih =>
    cases number with
    | none => exact ih
    | some m => exact ih
  | sequence first second ihf ihs => exact ihf.append ihs forks_among forks_among (by omega)
  | choice first second ihf ihs =>
    have hfirst : Among n (n + 1 + first.decisions) start
        (start + 1 + (first.instructions (start + 1)).length)
        ((n, start) :: first.forks (n + 1) (start + 1)) :=
      .cons (by omega) (forks_among.mono (by omega))
    exact (ihf.cons forks_among (by omega)).append ihs hfirst forks_among (by omega)
  | repeated q reluctant body ih =>
    cases q with
    | optional => exact ih.cons forks_among (by omega)
    | plus =>
      rw [forks]
      split
      · exact ih
      · exact ih.cons forks_among (by omega)
    | star =>
      rw [forks]
      split
      · have hbody : Among (n + 1) (n + 2 + body.decisions) (start + 1)
            (start + (body.instructions (start + 1)).length + 2)
            ((n + 1, start + (body.instructions (start + 1)).length + 1) ::
              body.forks (n + 2) (start + 1)) :=
          .cons (by omega) (forks_among.mono (by omega))
        exact (ih.cons forks_among (by omega)).cons hbody (by omega)
      · exact ih.cons forks_among (by omega)

end Expression

theorem standsAt_automaton (e : Expression α) :
    StandsAt e.automaton 0 (e.instructions 0 ++ [.accept]) := by
  intro i hi
  rw [Nat.zero_add, Expression.automaton, List.getElem?_toArray]
  exact List.getElem?_eq_getElem hi

/-- Following the automaton from its start comes to the first reading. -/
theorem explores_automaton {consume : α → Nat → Option Nat} {length : Nat} {e : Expression α}
    (hlength : ∀ a p q, consume a p = some q → q ≤ length)
    (hreg : e.Regular fun a => ∀ p q, consume a p = some q → p < q) {start : Nat}
    (hle : start ≤ length) :
    Explores e.automaton consume [] ⟨0, start, [(0, start)]⟩
      ((e.readings consume length 0 ⟨start, [(0, start)], []⟩).head?.map
        (Reading.thread (e.instructions 0).length)) := by
  let stop := (e.instructions 0).length
  have hblock := standsAt_automaton e
  have hcarries := carriesOut_readings Expression.oneToOne_forks hlength hreg hblock.left
    (fun _ h => h : e.forks 0 0 ⊆ e.forks 0 0)
  have haccept : ∀ (s : Reading) path, Explores e.automaton consume path (s.thread (0 + stop))
      (some (s.thread stop)) := by
    intro s path
    rw [Nat.zero_add]
    have := hblock.mid
    rw [Nat.zero_add] at this
    exact .accept this
  have hall : Explores e.automaton consume [] ⟨0, start, [(0, start)]⟩
      ((e.readings consume length 0 ⟨start, [(0, start)], []⟩).findSome?
        fun s => some (s.thread stop)) := by
    refine hcarries _ ⟨start, [(0, start)], []⟩ [] ⟨?_, ?_⟩ hle fun s path _ _ _ => haccept s path
    · exact fun place hp => absurd hp List.not_mem_nil
    · exact fun p _ => iff_of_false List.not_mem_nil List.not_mem_nil
  cases hways : e.readings consume length 0 ⟨start, [(0, start)], []⟩ with
  | nil =>
    rw [hways] at hall
    exact hall
  | cons s more =>
    rw [hways] at hall
    exact hall

/-- The leftmost match of an automaton is the preferred reading of its expression from the leftmost
start that has one. -/
theorem leftmost?_automaton {consume : α → Nat → Option Nat} {length : Nat} {e : Expression α}
    (hlength : ∀ a p q, consume a p = some q → q ≤ length)
    (hreg : e.Regular fun a => ∀ p q, consume a p = some q → p < q) :
    leftmost? e.automaton consume length =
      (e.firstReading? consume length).map (Reading.thread (e.instructions 0).length) := by
  rw [leftmost?_eq hlength _ fun start hle => explores_automaton hlength hreg hle,
    Expression.firstReading?, List.map_findSome?]
  rfl

end Klingon.Pattern
