import Klingon.Proofs.Pattern.Refinement
import Klingon.Rule.Builtin

/-!
# The rules of definitions

A list of definitions makes a rule of each definition whose pattern can be read, in their order. The
patterns of the built-in rules all can be read.
-/

namespace Klingon

namespace Pattern

/-- Whether a pattern reads well and its expression certainly has room. -/
def certainlyReads (source : Text) : Bool :=
  match readNodes 0 source with
  | .error _ => false
  | .ok nodes =>
    (checkGroups [] 0 nodes).isOk && (expression? (vocabularyOf nodes) nodes).any fun e =>
      e.depth .none ≤ Expression.depthLimit && e.spelled.normal.room ≤ Layout.limit

theorem isOk_ofText_of_certainlyReads {source : Text} (h : certainlyReads source = true) :
    (ofText source).isOk = true := by
  unfold certainlyReads at h
  cases hread : readNodes 0 source with
  | error fault =>
    rw [hread] at h
    cases h
  | ok nodes =>
    rw [hread] at h
    obtain ⟨hgroups, hany⟩ := (Bool.and_eq_true _ _).mp h
    obtain ⟨e, hexpression, hfits⟩ := (Option.any_eq_true _ _).mp hany
    obtain ⟨hdepth, hroom⟩ := (Bool.and_eq_true _ _).mp hfits
    have hcheck : checkGroups [] 0 nodes = .ok () := by
      cases hgroup : checkGroups [] 0 nodes with
      | error fault =>
        rw [hgroup] at hgroups
        cases hgroups
      | ok _ => rfl
    have hform : formOf e = .ok e.spelled.normal := by
      have hshallow := Nat.not_lt_of_le (of_decide_eq_true hdepth)
      rw [formOf, if_neg hshallow, if_pos (Expression.fits_of_room _ (of_decide_eq_true hroom))]
    rw [ofText, hread, Except.bind, ofNodes_eq_ok hcheck hexpression hform]
    rfl

theorem exists_ofText_of_certainlyReads {source : Text} (h : certainlyReads source = true) :
    ∃ pattern, ofText source = .ok pattern := by
  have hok := isOk_ofText_of_certainlyReads h
  cases hpattern : ofText source with
  | error error =>
    rw [hpattern] at hok
    cases hok
  | ok pattern => exact ⟨pattern, rfl⟩

end Pattern

/-- Whether the pattern of a definition can be read. -/
def RuleDefinition.reads (definition : RuleDefinition) : Bool :=
  (Rule.ofDefinition definition).isOk

namespace Rule

variable {definition : RuleDefinition} {definitions : List RuleDefinition}

theorem reads_eq (definition : RuleDefinition) :
    definition.reads = (Pattern.ofText definition.pattern).isOk := by
  unfold RuleDefinition.reads ofDefinition
  cases Pattern.ofText definition.pattern <;> rfl

theorem exists_rule_of_reads (h : definition.reads = true) :
    ∃ rule, ofDefinition definition = .ok rule ∧ rule.definition = definition := by
  rw [reads_eq] at h
  unfold ofDefinition
  cases hpattern : Pattern.ofText definition.pattern with
  | error fault =>
    rw [hpattern] at h
    cases h
  | ok pattern => exact ⟨⟨definition, pattern⟩, rfl, rfl⟩

theorem exists_error_of_not_reads (h : definition.reads = false) :
    ∃ error, ofDefinition definition = .error error := by
  unfold RuleDefinition.reads at h
  cases hrule : ofDefinition definition with
  | error error => exact ⟨error, rfl⟩
  | ok rule =>
    rw [hrule] at h
    cases h

theorem toOption_of_not_reads (h : definition.reads = false) :
    (ofDefinition definition).toOption = none := by
  obtain ⟨error, herror⟩ := exists_error_of_not_reads h
  rw [herror]
  rfl

theorem ofDefinitions_singleton {rule : Rule} (h : ofDefinition definition = .ok rule) :
    ofDefinitions [definition] = [rule] := by
  rw [ofDefinitions, List.filterMap_cons, h]
  rfl

/-- A list of definitions makes a rule of each that can be read. -/
theorem map_definition_ofDefinitions (definitions : List RuleDefinition) :
    (ofDefinitions definitions).map (·.definition) = definitions.filter (·.reads) := by
  induction definitions with
  | nil => rfl
  | cons definition rest ih =>
    rw [ofDefinitions, List.filterMap_cons]
    cases hreads : definition.reads with
    | false =>
      rw [toOption_of_not_reads hreads, List.filter_cons_of_neg (by simp [hreads])]
      exact ih
    | true =>
      obtain ⟨rule, hrule, hdefinition⟩ := exists_rule_of_reads hreads
      rw [hrule, List.filter_cons_of_pos hreads]
      exact congrArg₂ List.cons hdefinition ih

/-- Definitions that cannot be read are passed over. -/
theorem ofDefinitions_filter (definitions : List RuleDefinition) :
    ofDefinitions (definitions.filter (·.reads)) = ofDefinitions definitions := by
  rw [ofDefinitions, List.filterMap_filter, ofDefinitions]
  refine List.filterMap_congr fun definition _ => ?_
  split
  · rfl
  · next hreads => exact (toOption_of_not_reads (by simpa using hreads)).symm

/-- A rule of some definitions is what its own definition makes. -/
theorem ofDefinition_of_mem {rule : Rule} (h : rule ∈ ofDefinitions definitions) :
    ofDefinition rule.definition = .ok rule := by
  obtain ⟨definition, _, hrule⟩ := List.mem_filterMap.mp h
  cases hreads : definition.reads with
  | false =>
    rw [toOption_of_not_reads hreads] at hrule
    cases hrule
  | true =>
    obtain ⟨made, hmade, rfl⟩ := exists_rule_of_reads hreads
    rw [hmade] at hrule
    cases hrule
    exact hmade

/-- The rules of definitions have patterns that were read. -/
theorem ofText_of_mem {rule : Rule} (h : rule ∈ ofDefinitions definitions) :
    Pattern.ofText rule.definition.pattern = .ok rule.pattern := by
  have hrule := ofDefinition_of_mem h
  unfold ofDefinition at hrule
  cases hpattern : Pattern.ofText rule.definition.pattern with
  | error fault =>
    rw [hpattern] at hrule
    cases hrule
  | ok pattern =>
    rw [hpattern] at hrule
    exact congrArg (fun r : Rule => Except.ok r.pattern) (Except.ok.inj hrule)

/-- The built-in rules can be read. -/
theorem reads_of_mem_builtinDefinitions : ∀ definition ∈ builtinDefinitions,
    definition.reads = true := by
  have hcertain : ∀ definition ∈ builtinDefinitions,
      Pattern.certainlyReads definition.pattern = true := by
    decide +kernel
  intro definition hmem
  rw [reads_eq]
  exact Pattern.isOk_ofText_of_certainlyReads (hcertain definition hmem)

end Rule

end Klingon
