import Klingon.Pattern
import Klingon.Proofs.Pattern.Grammar
import Klingon.Proofs.Pattern.Groups

/-!
# The faults of patterns

A text that is no row of elements is refused for what is wrong behind its longest beginning that is
one. Its groups are checked next, and then the expression over its vocabulary is built.
-/

namespace Klingon.Pattern

variable {nodes : List Node} {fault : PatternFault}

/-! ## The vocabulary -/

/-- The bits that nodes name, each as often as it stands there. -/
def bitsOf (nodes : List Node) : List Text :=
  nodes.flatMap fun node => node.literals.map (·.bit)

/-- A list without repetition has what another list has, in the order of the first appearances. -/
structure FirstAppearances (all distinct : List Text) : Prop where
  mem_iff : ∀ bit, bit ∈ distinct ↔ bit ∈ all
  order : distinct.Pairwise fun bit bit' => all.idxOf bit < all.idxOf bit'

theorem firstAppearances_eraseDups (all : List Text) : FirstAppearances all all.eraseDups where
  mem_iff _ := List.mem_eraseDups
  order := by
    -- A last bit that is new comes after all others; any other changes nothing.
    induction all using List.reverseRecOn with
    | nil => exact List.Pairwise.nil
    | append_singleton front bit ih =>
      have hfront : front.eraseDups.Pairwise fun a b =>
          (front ++ [bit]).idxOf a < (front ++ [bit]).idxOf b := by
        refine ih.imp_of_mem fun ha hb hlt => ?_
        rwa [List.idxOf_append_of_mem (List.mem_eraseDups.mp ha),
          List.idxOf_append_of_mem (List.mem_eraseDups.mp hb)]
      rw [List.eraseDups_append]
      by_cases hin : bit ∈ front
      · have hnone : [bit].removeAll front = [] := by simp [List.removeAll, hin]
        rwa [hnone, List.eraseDups_nil, List.append_nil]
      · have hone : [bit].removeAll front = [bit] := by simp [List.removeAll, hin]
        have hlast : (front ++ [bit]).idxOf bit = front.length := by
          rw [List.idxOf_append_of_notMem hin]
          simp
        rw [hone]
        refine List.pairwise_append.mpr ⟨hfront, List.pairwise_singleton _ _, fun a ha b hb => ?_⟩
        have hmem : a ∈ front := List.mem_eraseDups.mp ha
        have heq : b = bit := by simpa using hb
        rw [heq, hlast, List.idxOf_append_of_mem hmem]
        exact List.idxOf_lt_length_of_mem hmem

/-! ## Patterns -/

theorem ofText_of_reads {source : Text} (h : Reads source nodes) :
    Pattern.ofText source = (ofNodes source nodes).mapError fun fault => ⟨source, fault⟩ := by
  rw [ofText, readNodes_of_reads h]
  rfl

theorem ofText_of_breaks {source front rest : Text} (h : Breaks source front rest fault) :
    Pattern.ofText source = .error ⟨source, fault⟩ := by
  rw [ofText, readNodes_eq_error_iff.mpr ⟨front, rest, h⟩]
  rfl

theorem ofText_of_groupFault {source : Text} (h : Reads source nodes)
    (hfault : GroupFault nodes fault) : Pattern.ofText source = .error ⟨source, fault⟩ := by
  rw [ofText_of_reads h, ofNodes, hfault.checkGroups_eq]
  rfl

theorem formOf_eq_ok_or_error (e : TokenExpression) : (∃ form, formOf e = .ok form) ∨
    ∃ fault ∈ [PatternFault.nestedTooDeep, .tooLarge], formOf e = .error fault := by
  unfold formOf
  split
  · exact .inr ⟨.nestedTooDeep, by decide, rfl⟩
  · split
    · exact .inl ⟨_, rfl⟩
    · exact .inr ⟨.tooLarge, by decide, rfl⟩

/-- The groups of a pattern being right, only its expression can be at fault. -/
theorem ofText_of_balanced {source : Text} (h : Reads source nodes)
    (hnames : (groupNames nodes).Nodup) (hbalanced : Balanced nodes) :
    (∃ pattern, Pattern.ofText source = .ok pattern ∧ pattern.vocabulary = vocabularyOf nodes) ∨
      ∃ fault ∈ [PatternFault.nothingToRepeat, .nestedTooDeep, .tooLarge],
        Pattern.ofText source = .error ⟨source, fault⟩ := by
  rw [ofText_of_reads h, ofNodes, checkGroups_of_balanced hnames hbalanced]
  simp only [bind, Except.bind]
  cases hexpression : expression? (vocabularyOf nodes) nodes with
  | none => exact .inr ⟨.nothingToRepeat, by decide, rfl⟩
  | some e =>
    dsimp only
    rcases formOf_eq_ok_or_error e with ⟨form, hform⟩ | ⟨fault, hfault, hform⟩
    · rw [hform]
      exact .inl ⟨_, rfl, rfl⟩
    · rw [hform]
      exact .inr ⟨fault, List.mem_cons_of_mem _ hfault, rfl⟩

/-- A text reads as the nodes of the one row of elements that it is. If it is none, its fault is
what is wrong behind its longest beginning that is one. The vocabulary has the bits in the order of
their first appearances. Before its expression is built, a pattern is refused exactly if a name
repeats or the parentheses do not balance, for the first such fault. -/
theorem ofText_follows_grammar (source : Text) :
    (∀ nodes, readNodes 0 source = .ok nodes ↔ Reads source nodes) ∧
    (∀ fault, readNodes 0 source = .error fault ↔ ∃ front rest, Breaks source front rest fault) ∧
    (∀ front rest fault, Breaks source front rest fault →
      Pattern.ofText source = .error ⟨source, fault⟩) ∧
    ∀ nodes, Reads source nodes →
      (∀ other, Reads source other → other = nodes) ∧
      FirstAppearances (bitsOf nodes) (vocabularyOf nodes) ∧
      (∀ fault, GroupFault nodes fault → Pattern.ofText source = .error ⟨source, fault⟩) ∧
      ((∃ fault, GroupFault nodes fault) ↔ ¬ ((groupNames nodes).Nodup ∧ Balanced nodes)) ∧
      ((groupNames nodes).Nodup → Balanced nodes →
        (∃ pattern, Pattern.ofText source = .ok pattern ∧
          pattern.vocabulary = vocabularyOf nodes) ∨
        ∃ fault ∈ [PatternFault.nothingToRepeat, .nestedTooDeep, .tooLarge],
          Pattern.ofText source = .error ⟨source, fault⟩) := by
  refine ⟨fun nodes => readNodes_eq_ok_iff, fun fault => readNodes_eq_error_iff,
    fun front rest fault => ofText_of_breaks, fun nodes hreads => ?_⟩
  exact ⟨fun other hother => hother.eq hreads, firstAppearances_eraseDups (bitsOf nodes),
    fun fault => ofText_of_groupFault hreads, exists_groupFault_iff, ofText_of_balanced hreads⟩

theorem ofText_follows_grammar_named :
    (∃ front rest, Breaks "ä{a,!b} y*" front rest (.unexpectedChar '*' 10)) ∧
      Pattern.ofText "ä{a,!b} y*" = .error ⟨"ä{a,!b} y*", .unexpectedChar '*' 10⟩ ∧
      ∃ nodes fault, Reads "ä{a,!b} (ä )" nodes ∧ GroupFault nodes fault ∧
        Pattern.ofText "ä{a,!b} (ä )" = .error ⟨"ä{a,!b} (ä )", fault⟩ := by
  obtain ⟨-, herror, hbreaks, -⟩ := ofText_follows_grammar "ä{a,!b} y*"
  obtain ⟨hok, -, -, hgroups⟩ := ofText_follows_grammar "ä{a,!b} (ä )"
  have hfault : readNodes 0 "ä{a,!b} y*" = .error (.unexpectedChar '*' 10) := by
    decide +kernel
  have hnodes : readNodes 0 "ä{a,!b} (ä )" = .ok
      [.condition (some "ä") [⟨"a", true⟩, ⟨"b", false⟩], .groupOpen none,
        .wildcard (some "ä"), .groupClose] := by
    decide +kernel
  obtain ⟨front, rest, hbreaks'⟩ := (herror _).mp hfault
  have hreads := (hok _).mp hnodes
  obtain ⟨-, -, hrefused, hexists, -⟩ := hgroups _ hreads
  obtain ⟨fault, hgroup⟩ := hexists.mpr fun h => absurd h.1 (by decide)
  exact ⟨⟨front, rest, hbreaks'⟩, hbreaks _ _ _ hbreaks', _, fault, hreads, hgroup,
    hrefused fault hgroup⟩

end Klingon.Pattern
