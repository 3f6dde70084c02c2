import Klingon.Proofs.Text
import Klingon.Tool.Arguments

/-!
# Options that are taken out

Arguments are read in one way for an option with a value: an argument that holds the option and its
value, a name of the option with the argument behind it, or any other argument. Taking the option
out leaves the other arguments as they are. Two options whose names differ can be taken out in
either order, unless one is swallowed as the value of the other.
-/

namespace Klingon.Arguments

variable {short long short' long' arg name : Text} {args more : List Text}

/-- A name of an option that stands alone, so that the next argument is its value. -/
structure IsBare (short long arg : Text) : Prop where
  named : arg = long ∨ arg = short
  alone : ¬ long ++ "=".toList <+: arg

/-- An option in one of its three forms. -/
def Occurs (short long arg : Text) : Prop :=
  long ++ "=".toList <+: arg ∨ arg = long ∨ arg = short

instance : Decidable (Occurs short long arg) :=
  inferInstanceAs (Decidable (_ ∨ _ ∨ _))

/-- What arguments are for an option. -/
inductive Role where
  | joined (value : Text)
  | spaced (name value : Text)
  | other (arg : Text)
  deriving DecidableEq, Repr

namespace Role

/-- The arguments that have a role. -/
def written (long : Text) : Role → List Text
  | joined value => [long ++ "=".toList ++ value]
  | spaced name value => [name, value]
  | other arg => [arg]

def value? : Role → Option Text
  | joined value | spaced _ value => some value
  | other _ => none

/-- A value that is an argument of its own. -/
def consumed? : Role → Option Text
  | spaced _ value => some value
  | _ => none

def left? : Role → Option Text
  | other arg => some arg
  | _ => none

end Role

/-- The values of an option, from left to right. -/
def values (roles : List Role) : List Text :=
  roles.filterMap Role.value?

def consumed (roles : List Role) : List Text :=
  roles.filterMap Role.consumed?

/-- The arguments that are left. -/
def left (roles : List Role) : List Text :=
  roles.filterMap Role.left?

/-- How arguments are read for an option, from left to right. -/
inductive Reads (short long : Text) : List Text → List Role → Prop
  | nil : Reads short long [] []
  | joined {value : Text} {args : List Text} {roles : List Role} : Reads short long args roles →
    Reads short long ((long ++ "=".toList ++ value) :: args) (.joined value :: roles)
  | spaced {name value : Text} {args : List Text} {roles : List Role} :
    IsBare short long name → Reads short long args roles →
    Reads short long (name :: value :: args) (.spaced name value :: roles)
  | other {arg : Text} {args : List Text} {roles : List Role} : ¬ Occurs short long arg →
    Reads short long args roles → Reads short long (arg :: args) (.other arg :: roles)

/-- The last argument is a name of the option, and no value follows. -/
def LacksValue (short long : Text) (args : List Text) (name : Text) : Prop :=
  ∃ front roles, args = front ++ [name] ∧ Reads short long front roles ∧ IsBare short long name

variable {roles roles' : List Role}

/-! ## Reading one argument -/

theorem inlineValue?_joined (long value : Text) :
    inlineValue? long (long ++ "=".toList ++ value) = some value :=
  Text.dropStart?_append _ value

theorem inlineValue?_eq_none (h : ¬ long ++ "=".toList <+: arg) : inlineValue? long arg = none := by
  cases hvalue : inlineValue? long arg with
  | none => rfl
  | some value => exact absurd ⟨value, (Text.eq_append_of_dropStart? hvalue).symm⟩ h

theorem IsBare.occurs (h : IsBare short long arg) : Occurs short long arg :=
  .inr h.named

theorem occurs_joined (short long value : Text) :
    Occurs short long (long ++ "=".toList ++ value) :=
  .inl (List.prefix_append _ _)

/-- What is an occurrence holds its value or stands alone. -/
theorem Occurs.joined_or_isBare (h : Occurs short long arg) :
    (∃ value, arg = long ++ "=".toList ++ value) ∨ IsBare short long arg := by
  by_cases hjoined : long ++ "=".toList <+: arg
  · obtain ⟨value, hvalue⟩ := hjoined
    exact .inl ⟨value, hvalue.symm⟩
  · exact .inr ⟨h.resolve_left hjoined, hjoined⟩

theorem extractFrom_joined (short long : Text) (value : Option Text) (found : Text)
    (args : List Text) :
    extractFrom short long value ((long ++ "=".toList ++ found) :: args) =
      extractFrom short long (some found) args := by
  rw [extractFrom.eq_def short long value]
  simp only [inlineValue?_joined]

theorem extractFrom_spaced (h : IsBare short long name) (value : Option Text) (found : Text)
    (args : List Text) :
    extractFrom short long value (name :: found :: args) =
      extractFrom short long (some found) args := by
  rw [extractFrom.eq_def short long value]
  simp only [inlineValue?_eq_none h.alone]
  exact if_pos (by simpa using h.named)

theorem extractFrom_last (h : IsBare short long name) (value : Option Text) :
    extractFrom short long value [name] = .error name := by
  rw [extractFrom.eq_def short long value]
  simp only [inlineValue?_eq_none h.alone]
  exact if_pos (by simpa using h.named)

theorem extractFrom_other (h : ¬ Occurs short long arg) (value : Option Text) (args : List Text) :
    extractFrom short long value (arg :: args) =
      (extractFrom short long value args).map fun taken => (taken.1, arg :: taken.2) := by
  obtain ⟨hjoined, hnamed⟩ := not_or.mp h
  rw [extractFrom.eq_def short long value]
  simp only [inlineValue?_eq_none hjoined]
  rw [if_neg (by simpa using hnamed)]
  cases extractFrom short long value args <;> rfl

/-! ## Reading all arguments -/

/-- Every argument has one role. -/
theorem Reads.written_eq (h : Reads short long args roles) :
    roles.flatMap (Role.written long) = args := by
  induction h with
  | nil => rfl
  | joined _ ih => exact congrArg _ ih
  | spaced _ _ ih => exact congrArg _ ih
  | other _ _ ih => exact congrArg _ ih

/-- Arguments are read in one way. -/
theorem Reads.eq (h : Reads short long args roles) (h' : Reads short long args roles') :
    roles' = roles := by
  induction h generalizing roles' with
  | nil =>
    cases h'
    rfl
  | @joined value args roles _ ih =>
    generalize hjoined : long ++ "=".toList ++ value = arg at h'
    cases h' with
    | joined h' => rw [ih h', List.append_cancel_left hjoined]
    | spaced hbare _ => exact absurd ⟨value, hjoined⟩ hbare.alone
    | other hother _ => exact absurd (.inl ⟨value, hjoined⟩) hother
  | @spaced name value args roles hbare _ ih =>
    generalize htail : value :: args = tail at h'
    cases h' with
    | joined => exact absurd (List.prefix_append _ _) hbare.alone
    | spaced _ h' =>
      cases htail
      rw [ih h']
    | other hother => exact absurd hbare.occurs hother
  | other hother _ ih =>
    cases h' with
    | joined => exact absurd (occurs_joined _ _ _) hother
    | spaced hbare => exact absurd hbare.occurs hother
    | other _ h' => rw [ih h']

/-- Taking an option out of arguments that are read goes on behind them with the last value. -/
theorem Reads.extractFrom_append (h : Reads short long args roles) (value : Option Text)
    (more : List Text) :
    extractFrom short long value (args ++ more) =
      (extractFrom short long ((values roles).getLast?.or value) more).map
        fun taken => (taken.1, left roles ++ taken.2) := by
  have hlast : ∀ (found : Text) (more : List Text) (value : Option Text),
      (found :: more).getLast?.or value = more.getLast?.or (some found) := by
    intro found more value
    rw [List.getLast?_cons]
    cases more.getLast? <;> rfl
  induction h generalizing value with
  | nil =>
    show extractFrom short long value more = (extractFrom short long value more).map _
    cases extractFrom short long value more <;> rfl
  | @joined found args roles _ ih =>
    have hvalues : values (.joined found :: roles) = found :: values roles := rfl
    rw [List.cons_append, extractFrom_joined, ih, hvalues, hlast]
    rfl
  | @spaced name found args roles hbare _ ih =>
    have hvalues : values (.spaced name found :: roles) = found :: values roles := rfl
    rw [List.cons_append, List.cons_append, extractFrom_spaced hbare, ih, hvalues, hlast]
    rfl
  | @other arg args roles hother _ ih =>
    have hvalues : values (.other arg :: roles) = values roles := rfl
    rw [List.cons_append, extractFrom_other hother, ih, hvalues]
    cases extractFrom short long ((values roles).getLast?.or value) more <;> rfl

theorem Reads.extractOption_eq (h : Reads short long args roles) :
    extractOption short long args = .ok ((values roles).getLast?, left roles) := by
  have hrun := h.extractFrom_append none []
  rw [List.append_nil, Option.or_none] at hrun
  rw [extractOption, hrun, extractFrom, Except.map, List.append_nil]

theorem LacksValue.extractOption_eq (h : LacksValue short long args name) :
    extractOption short long args = .error name := by
  obtain ⟨front, roles, rfl, hreads, hbare⟩ := h
  rw [extractOption, hreads.extractFrom_append, extractFrom_last hbare]
  rfl

/-- Arguments are read to their end, or to a name of the option without its value. -/
theorem reads_or_lacksValue (short long : Text) (args : List Text) :
    (∃ roles, Reads short long args roles) ∨ ∃ name, LacksValue short long args name := by
  -- A name takes the next argument with it, so the induction is on the number of arguments.
  induction hlength : args.length using Nat.strongRecOn generalizing args with
  | ind n ih =>
    cases args with
    | nil => exact .inl ⟨[], .nil⟩
    | cons arg args =>
      rw [List.length_cons] at hlength
      by_cases hoccurs : Occurs short long arg
      · rcases hoccurs.joined_or_isBare with ⟨value, rfl⟩ | hbare
        · rcases ih args.length (by omega) args rfl with
            ⟨roles, h⟩ | ⟨name, front, roles, rfl, h, hname⟩
          · exact .inl ⟨_, h.joined⟩
          · exact .inr ⟨name, _, _, rfl, h.joined, hname⟩
        · cases args with
          | nil => exact .inr ⟨arg, [], [], rfl, .nil, hbare⟩
          | cons value args =>
            rw [List.length_cons] at hlength
            rcases ih args.length (by omega) args rfl with
              ⟨roles, h⟩ | ⟨name, front, roles, rfl, h, hname⟩
            · exact .inl ⟨_, h.spaced hbare⟩
            · exact .inr ⟨name, _, _, rfl, h.spaced hbare, hname⟩
      · rcases ih args.length (by omega) args rfl with
          ⟨roles, h⟩ | ⟨name, front, roles, rfl, h, hname⟩
        · exact .inl ⟨_, h.other hoccurs⟩
        · exact .inr ⟨name, _, _, rfl, h.other hoccurs, hname⟩

theorem extractOption_eq_error_iff :
    extractOption short long args = .error name ↔ LacksValue short long args name := by
  refine ⟨fun h => ?_, LacksValue.extractOption_eq⟩
  rcases reads_or_lacksValue short long args with ⟨roles, hreads⟩ | ⟨name', hlacks⟩
  · rw [hreads.extractOption_eq] at h
    cases h
  · rw [hlacks.extractOption_eq] at h
    cases h
    exact hlacks

/-- No occurrence of the option is left. -/
theorem Reads.not_occurs_of_mem_left (h : Reads short long args roles) :
    ∀ arg ∈ left roles, ¬ Occurs short long arg := by
  induction h with
  | nil => exact fun arg harg => absurd harg List.not_mem_nil
  | joined _ ih => exact ih
  | spaced _ _ ih => exact ih
  | other hother _ ih => exact List.forall_mem_cons.mpr ⟨hother, ih⟩

/-- Arguments without the option are all left. -/
theorem reads_of_forall_not_occurs (h : ∀ arg ∈ args, ¬ Occurs short long arg) :
    ∃ roles, Reads short long args roles ∧ values roles = [] ∧ left roles = args := by
  induction args with
  | nil => exact ⟨[], .nil, rfl, rfl⟩
  | cons arg args ih =>
    obtain ⟨hother, hrest⟩ := List.forall_mem_cons.mp h
    obtain ⟨roles, hreads, hvalues, hleft⟩ := ih hrest
    exact ⟨_, hreads.other hother, hvalues, congrArg (arg :: ·) hleft⟩

theorem Reads.extractOption_left (h : Reads short long args roles) :
    extractOption short long (left roles) = .ok (none, left roles) := by
  obtain ⟨again, hagain, hvalues, hleft⟩ := reads_of_forall_not_occurs h.not_occurs_of_mem_left
  rw [hagain.extractOption_eq, hvalues, hleft]
  rfl

/-! ## Two options -/

/-- The names of one option are not those of the other, and no name holds an equals sign. -/
structure Apart (short long short' long' : Text) : Prop where
  differ : ∀ name ∈ [short, long], name ∉ [short', long']
  plain : ∀ name ∈ [short, long, short', long'], '=' ∉ name

theorem Apart.symm (h : Apart short long short' long') : Apart short' long' short long where
  differ name hname hother := h.differ name hother hname
  plain := by simpa [and_assoc, and_comm, and_left_comm] using h.plain

theorem equals_mem_of_joined (h : long ++ "=".toList <+: arg) : '=' ∈ arg :=
  h.subset (List.mem_append_right _ (List.mem_singleton_self '='))

/-- What holds its value stands apart from the names of the other option. -/
theorem Apart.not_occurs_of_joined (h : Apart short long short' long')
    (hjoined : long ++ "=".toList <+: arg) : ¬ Occurs short' long' arg := by
  have hequals := equals_mem_of_joined hjoined
  rintro (hother | rfl | rfl)
  · -- Both long names end at the first equals sign.
    have hlong : '=' ∉ long := h.plain long (by simp)
    have hlong' : '=' ∉ long' := h.plain long' (by simp)
    obtain ⟨value, rfl⟩ := hjoined
    obtain ⟨value', hsame⟩ := hother
    have hcut := congrArg (Text.cut? '=') hsame
    rw [List.append_assoc, List.append_assoc] at hcut
    change Text.cut? '=' (long' ++ '=' :: value') = Text.cut? '=' (long ++ '=' :: value) at hcut
    rw [Text.cut?_append hlong', Text.cut?_append hlong] at hcut
    cases hcut
    exact h.differ long (by simp) (by simp)
  · exact h.plain arg (by simp) hequals
  · exact h.plain arg (by simp) hequals

/-- No argument is an occurrence of both options. -/
theorem Apart.not_occurs (h : Apart short long short' long') (hoccurs : Occurs short long arg) :
    ¬ Occurs short' long' arg := by
  intro hother
  rcases hoccurs with hjoined | hnamed
  · exact h.not_occurs_of_joined hjoined hother
  · rcases hother with hjoined | hnamed'
    · exact h.symm.not_occurs_of_joined hjoined (.inr hnamed)
    · exact h.differ arg (by simpa [or_comm] using hnamed) (by simpa [or_comm] using hnamed')

/-- An argument that is no occurrence of the option is another one. -/
theorem Reads.of_not_occurs (h : Reads short long (arg :: args) roles)
    (hother : ¬ Occurs short long arg) :
    ∃ rest, roles = .other arg :: rest ∧ Reads short long args rest := by
  cases h with
  | joined => exact absurd (occurs_joined _ _ _) hother
  | spaced hbare => exact absurd hbare.occurs hother
  | other _ h => exact ⟨_, rfl, h⟩

/-- The values of an option in some arguments, and the arguments that are left. -/
def Takes (short long : Text) (args found rest : List Text) : Prop :=
  ∃ roles, Reads short long args roles ∧ values roles = found ∧ left roles = rest

namespace Takes

variable {found rest : List Text}

theorem joined (h : Takes short long args found rest) (value : Text) :
    Takes short long ((long ++ "=".toList ++ value) :: args) (value :: found) rest := by
  obtain ⟨roles, hreads, rfl, rfl⟩ := h
  exact ⟨_, hreads.joined, rfl, rfl⟩

theorem spaced (h : Takes short long args found rest) (hbare : IsBare short long name)
    (value : Text) : Takes short long (name :: value :: args) (value :: found) rest := by
  obtain ⟨roles, hreads, rfl, rfl⟩ := h
  exact ⟨_, hreads.spaced hbare, rfl, rfl⟩

theorem other (h : Takes short long args found rest) (hother : ¬ Occurs short long arg) :
    Takes short long (arg :: args) found (arg :: rest) := by
  obtain ⟨roles, hreads, rfl, rfl⟩ := h
  exact ⟨_, hreads.other hother, rfl, rfl⟩

theorem extractOption_eq (h : Takes short long args found rest) :
    extractOption short long args = .ok (found.getLast?, rest) := by
  obtain ⟨roles, hreads, rfl, rfl⟩ := h
  exact hreads.extractOption_eq

end Takes

/-- Neither of two options swallows the other: no argument that one takes as its value is an
occurrence of the other. -/
structure Spares (short long short' long' : Text) (roles roles' : List Role) : Prop where
  first : ∀ value ∈ consumed roles, ¬ Occurs short' long' value
  second : ∀ value ∈ consumed roles', ¬ Occurs short long value

/-- Each option has its values also in what the other one leaves, and then the same is left. -/
theorem exists_takes_left (hapart : Apart short long short' long')
    (h : Reads short long args roles) (h' : Reads short' long' args roles')
    (hspares : Spares short long short' long' roles roles') :
    ∃ rest, Takes short' long' (left roles) (values roles') rest ∧
      Takes short long (left roles') (values roles) rest := by
  induction hlength : args.length using Nat.strongRecOn generalizing args roles roles' with
  | ind n ih =>
    obtain ⟨hfirst, hsecond⟩ := hspares
    cases h with
    | nil =>
      cases h'
      exact ⟨[], ⟨[], .nil, rfl, rfl⟩, ⟨[], .nil, rfl, rfl⟩⟩
    | @joined value args roles h =>
      rw [List.length_cons] at hlength
      have hother := hapart.not_occurs_of_joined ⟨value, rfl⟩
      obtain ⟨roles', rfl, hmore'⟩ := h'.of_not_occurs hother
      obtain ⟨rest, htakes', htakes⟩ := ih _ (by omega) h hmore' ⟨hfirst, hsecond⟩ rfl
      exact ⟨rest, htakes', htakes.joined value⟩
    | @spaced name value args roles hbare h =>
      rw [List.length_cons, List.length_cons] at hlength
      obtain ⟨hvalue, hfirst⟩ := List.forall_mem_cons.mp hfirst
      obtain ⟨_, rfl, hbehind'⟩ := h'.of_not_occurs (hapart.not_occurs hbare.occurs)
      obtain ⟨roles', rfl, hmore'⟩ := hbehind'.of_not_occurs hvalue
      obtain ⟨rest, htakes', htakes⟩ := ih _ (by omega) h hmore' ⟨hfirst, hsecond⟩ rfl
      exact ⟨rest, htakes', htakes.spaced hbare value⟩
    | @other arg args roles hother h =>
      rw [List.length_cons] at hlength
      cases h' with
      | @joined value _ roles' h' =>
        obtain ⟨rest, htakes', htakes⟩ := ih _ (by omega) h h' ⟨hfirst, hsecond⟩ rfl
        exact ⟨rest, htakes'.joined value, htakes⟩
      | @spaced _ value args roles' hbare h' =>
        rw [List.length_cons] at hlength
        obtain ⟨hvalue, hsecond⟩ := List.forall_mem_cons.mp hsecond
        obtain ⟨roles, rfl, hmore⟩ := h.of_not_occurs hvalue
        obtain ⟨rest, htakes', htakes⟩ := ih _ (by omega) hmore h' ⟨hfirst, hsecond⟩ rfl
        exact ⟨rest, htakes'.spaced hbare value, htakes⟩
      | @other _ _ roles' hother' h' =>
        obtain ⟨rest, htakes', htakes⟩ := ih _ (by omega) h h' ⟨hfirst, hsecond⟩ rfl
        exact ⟨arg :: rest, htakes'.other hother', htakes.other hother⟩

/-- Taking out an option fails exactly if its last name lacks a value. Otherwise the arguments are
read in one way. The last value counts and the other arguments are left in their order, without the
option. Another option with other names has the same last value before and after, and what both
leave does not depend on which of them is taken out first, unless one swallows the other. -/
theorem extractOption_accounts_for_all (short long : Text) (args : List Text) :
    (∀ name, extractOption short long args = .error name ↔ LacksValue short long args name) ∧
    ((∀ name, ¬ LacksValue short long args name) → ∃ roles,
      (∀ other, Reads short long args other ↔ other = roles) ∧
      roles.flatMap (Role.written long) = args ∧
      extractOption short long args = .ok ((values roles).getLast?, left roles) ∧
      (∀ arg ∈ left roles, ¬ Occurs short long arg) ∧
      extractOption short long (left roles) = .ok (none, left roles) ∧
      ∀ short' long' roles', Apart short long short' long' → Reads short' long' args roles' →
        Spares short long short' long' roles roles' → ∃ rest,
          extractOption short' long' (left roles) = .ok ((values roles').getLast?, rest) ∧
          extractOption short' long' args = .ok ((values roles').getLast?, left roles') ∧
          extractOption short long (left roles') = .ok ((values roles).getLast?, rest)) := by
  refine ⟨fun name => extractOption_eq_error_iff, fun hlacks => ?_⟩
  rcases reads_or_lacksValue short long args with ⟨roles, hreads⟩ | ⟨name, hname⟩
  · refine ⟨roles, fun other => ⟨hreads.eq, fun hsame => hsame ▸ hreads⟩, hreads.written_eq,
      hreads.extractOption_eq, hreads.not_occurs_of_mem_left, hreads.extractOption_left, ?_⟩
    intro short' long' roles' hapart hreads' hspares
    obtain ⟨rest, htakes', htakes⟩ := exists_takes_left hapart hreads hreads' hspares
    exact ⟨rest, htakes'.extractOption_eq, hreads'.extractOption_eq, htakes.extractOption_eq⟩
  · exact absurd hname (hlacks name)

/-- Arguments in which a name of an option is its own value, and its long name begins that of
another option. -/
def wordArguments : List Text :=
  ["-I", "-w", "--words", "--words-file=x", "in.txt", "--words=a,b", "-W", "f"]

def wordRoles : List Role :=
  [.other "-I", .spaced "-w" "--words", .other "--words-file=x", .other "in.txt", .joined "a,b",
    .other "-W", .other "f"]

def wordFileRoles : List Role :=
  [.other "-I", .other "-w", .other "--words", .joined "x", .other "in.txt", .other "--words=a,b",
    .spaced "-W" "f"]

theorem reads_wordArguments : Reads "-w" "--words" wordArguments wordRoles := by
  have hjoined : "--words=a,b".toList = "--words".toList ++ "=".toList ++ "a,b".toList := by decide
  rw [wordArguments, hjoined]
  exact .other (by decide) (.spaced ⟨by decide, by decide⟩ (.other (by decide) (.other (by decide)
    (.joined (.other (by decide) (.other (by decide) .nil))))))

theorem reads_wordArguments_file : Reads "-W" "--words-file" wordArguments wordFileRoles := by
  have hjoined : "--words-file=x".toList = "--words-file".toList ++ "=".toList ++ "x".toList := by
    decide
  rw [wordArguments, hjoined]
  exact .other (by decide) (.other (by decide) (.other (by decide) (.joined (.other (by decide)
    (.other (by decide) (.spaced ⟨by decide, by decide⟩ .nil))))))

theorem extractOption_accounts_for_all_words :
    (∀ name, ¬ LacksValue "-w" "--words" wordArguments name) ∧
      Apart "-w" "--words" "-W" "--words-file" ∧
      Reads "-W" "--words-file" wordArguments wordFileRoles ∧
      Spares "-w" "--words" "-W" "--words-file" wordRoles wordFileRoles ∧
      extractOption "-w" "--words" wordArguments = .ok (some "a,b".toList, left wordRoles) ∧
      ∃ rest,
        extractOption "-W" "--words-file" (left wordRoles) = .ok (some "f".toList, rest) ∧
        extractOption "-W" "--words-file" wordArguments =
          .ok (some "f".toList, left wordFileRoles) ∧
        extractOption "-w" "--words" (left wordFileRoles) = .ok (some "a,b".toList, rest) := by
  obtain ⟨herror, haccounts⟩ := extractOption_accounts_for_all "-w" "--words" wordArguments
  have hlacks : ∀ name, ¬ LacksValue "-w" "--words" wordArguments name := by
    intro name hname
    have hfails := (herror name).mpr hname
    rw [reads_wordArguments.extractOption_eq] at hfails
    cases hfails
  have hapart : Apart "-w" "--words" "-W" "--words-file" := ⟨by decide, by decide⟩
  have hspares : Spares "-w" "--words" "-W" "--words-file" wordRoles wordFileRoles :=
    ⟨by decide, by decide⟩
  obtain ⟨roles, honly, -, htaken, -, -, hother⟩ := haccounts hlacks
  obtain rfl := (honly _).mp reads_wordArguments
  refine ⟨hlacks, hapart, reads_wordArguments_file, hspares, htaken, ?_⟩
  exact hother _ _ _ hapart reads_wordArguments_file hspares

end Klingon.Arguments
