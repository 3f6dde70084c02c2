import Mathlib.Data.List.Forall2
import Klingon.Json
import Klingon.Proofs.Ordered

/-!
# The members of JSON objects

What is read from an object does not depend on the order of its members if no key is repeated. This
holds of objects read as maps and of objects read as records, and through several levels of objects.
-/

namespace Klingon.Json

/-- A member of an object: its key, unless it spells no text, and its value. -/
abbrev Member := Option Text × Json

variable {α : Type} {read? : Text → Json → Option α} {R : Json → Json → Prop} {value other : Json}
  {members others : List Member} {key : Text} {depth : Nat}

/-- Two objects with the same members in any order, where values correspond. No key is repeated. -/
inductive SameMembers (R : Json → Json → Prop) : Json → Json → Prop
  | intro {members middle others : List Member} (distinct : (members.map (·.1)).Nodup)
      (order : members.Perm middle)
      (values : List.Forall₂ (fun m n => m.1 = n.1 ∧ R m.2 n.2) middle others) :
      SameMembers R (.object members) (.object others)

/-- Values that differ at most in the order of the members of objects, down to the given depth. -/
def Reordered : Nat → Json → Json → Prop
  | 0, value, other => value = other
  | depth + 1, value, other => value = other ∨ SameMembers (Reordered depth) value other

theorem Reordered.refl (depth : Nat) (value : Json) : Reordered depth value value := by
  cases depth with
  | zero => rfl
  | succ depth => exact .inl rfl

theorem Reordered.text?_eq (h : Reordered depth value other) : value.text? = other.text? := by
  cases depth with
  | zero => rw [show value = other from h]
  | succ depth =>
    cases h with
    | inl h => rw [h]
    | inr h =>
      cases h
      rfl

theorem text?_eq_some_iff {text : Text} : value.text? = some text ↔ value = .string (some text) := by
  cases value <;> simp [text?]

/-! ## Objects as maps -/

theorem mapM_eq {β : Type} (f : α → Option β) (items : List α) :
    items.mapM f = if items.all fun item => (f item).isSome then some (items.filterMap f) else none := by
  induction items with
  | nil => rfl
  | cons item rest ih =>
    rw [List.mapM_cons, ih, List.all_cons, List.filterMap_cons]
    cases f item with
    | none => rfl
    | some b =>
      by_cases h : rest.all (fun item => (f item).isSome) = true <;> simp [h]

theorem readMember?_eq_some_iff {member : Member} {pair : Text × α} :
    readMember? read? member = some pair ↔
      member.1 = some pair.1 ∧ read? pair.1 member.2 = some pair.2 := by
  obtain ⟨key, value⟩ := member
  obtain ⟨key', found⟩ := pair
  simp [readMember?, Option.bind_eq_some_iff, Prod.ext_iff]

/-- The keys of what is read are keys of members. -/
theorem keys_filterMap_sublist (members : List Member) :
    (((members.filterMap (readMember? read?)).map (·.1)).map some).Sublist (members.map (·.1)) := by
  induction members with
  | nil => exact List.Sublist.slnil
  | cons member rest ih =>
    rw [List.filterMap_cons, List.map_cons]
    split
    · exact ih.cons _
    · next pair hpair =>
      rw [(readMember?_eq_some_iff.mp hpair).1]
      exact ih.cons_cons _

theorem nodup_keys_filterMap (h : (members.map (·.1)).Nodup) :
    ((members.filterMap (readMember? read?)).map (·.1)).Nodup :=
  (h.sublist (keys_filterMap_sublist members)).of_map some

/-- Everything that is read from an object is read from one of its members. -/
theorem members?_eq_some_iff {found : List (Text × α)} :
    (object members).members? read? = some found ↔
      (∀ member ∈ members, (readMember? read? member).isSome = true) ∧
        Ordered.ofPairs (members.filterMap (readMember? read?)) = found := by
  rw [members?, mapM_eq, ← List.all_eq_true]
  split
  · next h => rw [Option.map_some, Option.some_inj, and_iff_right h]
  · next h => exact ⟨nofun, fun hread => absurd hread.1 h⟩

theorem exists_members?_eq
    (h : ∀ member ∈ members, ∃ key a, member.1 = some key ∧ read? key member.2 = some a) :
    ∃ found, (object members).members? read? = some found := by
  refine ⟨_, members?_eq_some_iff.mpr ⟨fun member hmem => ?_, rfl⟩⟩
  obtain ⟨key, a, hkey, hread⟩ := h member hmem
  have hmember : readMember? read? member = some (key, a) :=
    readMember?_eq_some_iff.mpr ⟨hkey, hread⟩
  exact Option.isSome_iff_exists.mpr ⟨_, hmember⟩

theorem increasing_of_members? {found : List (Text × α)}
    (h : (object members).members? read? = some found) : Ordered.Increasing found := by
  rw [← (members?_eq_some_iff.mp h).2]
  exact Ordered.increasing_ofPairs _

/-- What is read from members with different keys is found under their keys. -/
theorem mem_of_members? {found : List (Text × α)} {a : α} (hdistinct : (members.map (·.1)).Nodup)
    (h : (object members).members? read? = some found) :
    (key, a) ∈ found ↔ ∃ value, (some key, value) ∈ members ∧ read? key value = some a := by
  rw [← (members?_eq_some_iff.mp h).2, Ordered.mem_ofPairs (nodup_keys_filterMap hdistinct),
    List.mem_filterMap]
  constructor
  · rintro ⟨⟨written, value⟩, hmem, hread⟩
    obtain ⟨rfl, hvalue⟩ := readMember?_eq_some_iff.mp hread
    exact ⟨value, hmem, hvalue⟩
  · rintro ⟨value, hmem, hvalue⟩
    exact ⟨(some key, value), hmem, readMember?_eq_some_iff.mpr ⟨rfl, hvalue⟩⟩

theorem members?_perm (hdistinct : (members.map (·.1)).Nodup) (hperm : members.Perm others) :
    (object members).members? read? = (object others).members? read? := by
  rw [members?, members?, mapM_eq, mapM_eq, hperm.all_eq]
  split
  · rw [Option.map_some, Option.map_some,
      Ordered.ofPairs_perm (nodup_keys_filterMap hdistinct) (hperm.filterMap _)]
  · rfl

theorem mapM_readMember?_congr (hread : ∀ key v w, R v w → read? key v = read? key w)
    (h : List.Forall₂ (fun m n => m.1 = n.1 ∧ R m.2 n.2) members others) :
    members.mapM (readMember? read?) = others.mapM (readMember? read?) := by
  induction h with
  | nil => rfl
  | @cons m n _ _ hmember _ ih =>
    have hfirst : readMember? read? m = readMember? read? n := by
      have hkey : ∀ key, read? key m.2 = read? key n.2 := fun key => hread key _ _ hmember.2
      simp only [readMember?, hmember.1, hkey]
    rw [List.mapM_cons, List.mapM_cons, hfirst, ih]

/-- What is read from the members of an object is found whatever their order is. -/
theorem SameMembers.members?_eq (hread : ∀ key v w, R v w → read? key v = read? key w)
    (h : SameMembers R value other) : value.members? read? = other.members? read? := by
  obtain ⟨hdistinct, horder, hvalues⟩ := h
  rw [members?_perm hdistinct horder, members?, members?, mapM_readMember?_congr hread hvalues]

theorem Reordered.members?_eq
    (hread : ∀ key v w, Reordered depth v w → read? key v = read? key w)
    (h : Reordered (depth + 1) value other) : value.members? read? = other.members? read? := by
  cases h with
  | inl h => rw [h]
  | inr h => exact h.members?_eq hread

/-! ## Objects as records -/

/-- A member with this key and value. -/
def HasField (members : List Member) (key : Text) (value : Json) : Prop :=
  (some key, value) ∈ members

/-- No member has this key. -/
def LacksField (members : List Member) (key : Text) : Prop :=
  some key ∉ members.map (·.1)

instance : Decidable (LacksField members key) :=
  inferInstanceAs (Decidable (some key ∉ members.map (·.1)))

/-- The members of an object that can be read as a record: the keys are texts, and none is repeated. -/
structure IsRecord (members : List Member) : Prop where
  texts : ∀ member ∈ members, member.1.isSome = true
  distinct : (members.map (·.1)).Nodup

theorem valuesOf_append (key : Text) (front back : List Member) :
    valuesOf key (front ++ back) = valuesOf key front ++ valuesOf key back := by
  rw [valuesOf, List.filter_append, List.map_append, valuesOf, valuesOf]

theorem valuesOf_cons (key : Text) (member : Member) (rest : List Member) :
    valuesOf key (member :: rest) =
      if member.1 = some key then member.2 :: valuesOf key rest else valuesOf key rest := by
  rw [valuesOf, List.filter_cons]
  by_cases h : member.1 = some key <;> simp [h, valuesOf]

theorem valuesOf_of_lacksField (h : LacksField members key) : valuesOf key members = [] := by
  rw [valuesOf, List.map_eq_nil_iff, List.filter_eq_nil_iff]
  intro member hmem hkey
  exact h (of_decide_eq_true hkey ▸ List.mem_map_of_mem hmem)

theorem valuesOf_of_hasField (hdistinct : (members.map (·.1)).Nodup) (h : HasField members key value) :
    valuesOf key members = [value] := by
  obtain ⟨front, back, rfl⟩ := List.append_of_mem h
  rw [List.map_append, List.map_cons, List.nodup_middle, List.nodup_cons, List.mem_append,
    not_or] at hdistinct
  obtain ⟨⟨hfront, hback⟩, _⟩ := hdistinct
  rw [valuesOf_append, valuesOf_of_lacksField hfront, valuesOf_cons, if_pos rfl,
    valuesOf_of_lacksField hback, List.nil_append]

/-- A field that is not repeated is found. -/
theorem field?_of_hasField (hdistinct : (members.map (·.1)).Nodup) (h : HasField members key value) :
    field? members key = some (some value) := by
  rw [field?, valuesOf_of_hasField hdistinct h]

theorem field?_of_lacksField (h : LacksField members key) : field? members key = some none := by
  rw [field?, valuesOf_of_lacksField h]


theorem IsRecord.record?_eq (h : IsRecord members) (names : List Text) :
    (object members).record? names = names.mapM (field? members) := by
  rw [record?, if_pos (List.all_eq_true.mpr h.texts)]

theorem field?_perm (hdistinct : (members.map (·.1)).Nodup) (hperm : members.Perm others)
    (key : Text) : field? members key = field? others key := by
  have hdistinct' : (others.map (·.1)).Nodup := (hperm.map _).nodup hdistinct
  by_cases hkey : some key ∈ members.map (·.1)
  · obtain ⟨⟨_, value⟩, hmem, rfl⟩ := List.mem_map.mp hkey
    rw [field?_of_hasField hdistinct hmem, field?_of_hasField hdistinct' (hperm.mem_iff.mp hmem)]
  · rw [field?_of_lacksField hkey, field?_of_lacksField ((hperm.map _).mem_iff.not.mp hkey)]

theorem forall₂_valuesOf (h : List.Forall₂ (fun m n => m.1 = n.1 ∧ R m.2 n.2) members others)
    (key : Text) : List.Forall₂ R (valuesOf key members) (valuesOf key others) := by
  induction h with
  | nil => exact .nil
  | cons hmember _ ih =>
    rw [valuesOf_cons, valuesOf_cons, hmember.1]
    split
    · exact .cons hmember.2 ih
    · exact ih

theorem rel_field? (h : List.Forall₂ (fun m n => m.1 = n.1 ∧ R m.2 n.2) members others)
    (key : Text) : Option.Rel (Option.Rel R) (field? members key) (field? others key) := by
  have hvalues := forall₂_valuesOf h key
  rw [field?, field?]
  generalize valuesOf key members = found, valuesOf key others = found' at hvalues
  cases hvalues with
  | nil => exact .some .none
  | cons hvalue hrest =>
    cases hrest with
    | nil => exact .some (.some hvalue)
    | cons _ _ => exact .none

theorem rel_mapM {β γ : Type} {f : α → Option β} {g : α → Option γ} {S : β → γ → Prop}
    (h : ∀ item, Option.Rel S (f item) (g item)) (items : List α) :
    Option.Rel (List.Forall₂ S) (items.mapM f) (items.mapM g) := by
  induction items with
  | nil => exact .some .nil
  | cons item rest ih =>
    have hitem := h item
    rw [List.mapM_cons, List.mapM_cons]
    generalize f item = b, g item = c at hitem
    generalize rest.mapM f = bs, rest.mapM g = cs at ih
    cases hitem with
    | none => exact .none
    | some hfirst =>
      cases ih with
      | none => exact .none
      | some hrest => exact .some (.cons hfirst hrest)

theorem keys_eq (h : List.Forall₂ (fun m n => m.1 = n.1 ∧ R m.2 n.2) members others) :
    members.map (·.1) = others.map (·.1) := by
  rw [← List.forall₂_eq_eq_eq, List.forall₂_map_left_iff, List.forall₂_map_right_iff]
  exact h.imp fun _ _ hmember => hmember.1

/-- Two objects with the same members have corresponding fields. -/
theorem SameMembers.rel_record? (h : SameMembers R value other) (names : List Text) :
    Option.Rel (List.Forall₂ (Option.Rel R)) (value.record? names) (other.record? names) := by
  cases h with
  | @intro members middle others hdistinct horder hvalues =>
    have hkeys : members.all (·.1.isSome) = others.all (·.1.isSome) := by
      have hall : ∀ members : List Member,
          members.all (·.1.isSome) = (members.map (·.1)).all Option.isSome := by
        intro members
        rw [List.all_map]
        rfl
      rw [hall, hall, ← keys_eq hvalues, (horder.map _).all_eq]
    have hfields : names.mapM (field? members) = names.mapM (field? middle) :=
      congrArg names.mapM (funext (field?_perm hdistinct horder))
    rw [record?, record?, hkeys, hfields]
    split
    · exact rel_mapM (rel_field? hvalues) names
    · exact .none

theorem Reordered.rel_record? (h : Reordered (depth + 1) value other) (names : List Text) :
    Option.Rel (List.Forall₂ (Option.Rel (Reordered depth))) (value.record? names)
      (other.record? names) := by
  cases h with
  | inl h =>
    have hfield : ∀ field : Option Json, Option.Rel (Reordered depth) field field := by
      intro field
      cases field with
      | none => exact .none
      | some value => exact .some (Reordered.refl depth value)
    rw [h]
    cases other.record? names with
    | none => exact .none
    | some fields => exact .some (List.forall₂_same.mpr fun field _ => hfield field)
  | inr h => exact h.rel_record? names

end Klingon.Json
