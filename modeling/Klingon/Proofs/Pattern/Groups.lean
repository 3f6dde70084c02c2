import Mathlib.Data.List.Induction
import Mathlib.Data.List.Nodup
import Klingon.Pattern.Node

/-!
# The groups of a pattern

The nodes of a pattern are checked from left to right. What is wrong with their groups is the first
name that repeats or parenthesis that closes nothing, or else a parenthesis that is left open.
-/

namespace Klingon.Pattern

/-- The groups that nodes open. -/
def openings (nodes : List Node) : Nat :=
  nodes.countP fun node => node matches .groupOpen _

/-- The groups that nodes close. -/
def closings (nodes : List Node) : Nat :=
  nodes.count .groupClose

/-- No parenthesis closes that is not open, and none is left open. -/
structure Balanced (nodes : List Node) : Prop where
  opened : ∀ front, front <+: nodes → closings front ≤ openings front
  closed : closings nodes = openings nodes

/-- No name repeats, and no parenthesis closes that is not open. -/
structure GroupsFit (nodes : List Node) : Prop where
  names : (groupNames nodes).Nodup
  opened : ∀ front, front <+: nodes → closings front ≤ openings front

/-- What is wrong with the groups of a pattern. -/
inductive GroupFault : List Node → PatternFault → Prop
  | repeated {front rest : List Node} {node : Node} {name : Text} : GroupsFit front →
    node.name? = some name → name ∈ groupNames front →
    GroupFault (front ++ node :: rest) (.duplicateName name)
  | unopened {front rest : List Node} : GroupsFit front → closings front = openings front →
    GroupFault (front ++ .groupClose :: rest) .unbalancedParentheses
  | unclosed {nodes : List Node} : GroupsFit nodes → closings nodes < openings nodes →
    GroupFault nodes .unbalancedParentheses

variable {nodes front rest : List Node} {node : Node} {fault : PatternFault}

/-- A node that can stand behind others: its name is new, and it closes nothing that is not open. -/
structure Node.FitsBehind (node : Node) (front : List Node) : Prop where
  name : ∀ name, node.name? = some name → name ∉ groupNames front
  opened : node = .groupClose → closings front < openings front

theorem groupNames_append (front rest : List Node) :
    groupNames (front ++ rest) = groupNames front ++ groupNames rest :=
  List.filterMap_append

theorem groupNames_singleton (node : Node) : groupNames [node] = node.name?.toList := by
  cases hname : node.name? <;> simp [groupNames, hname]

theorem openings_append (front rest : List Node) :
    openings (front ++ rest) = openings front + openings rest :=
  List.countP_append

theorem closings_append (front rest : List Node) :
    closings (front ++ rest) = closings front + closings rest :=
  List.count_append

theorem groupsFit_nil : GroupsFit [] where
  names := List.nodup_nil
  opened front hfront := by
    rw [List.prefix_nil.mp hfront]
    exact Nat.le_refl _

theorem GroupsFit.of_prefix (h : GroupsFit nodes) (hfront : front <+: nodes) : GroupsFit front where
  names := h.names.sublist (hfront.sublist.filterMap _)
  opened other hother := h.opened other (hother.trans hfront)

/-- Nodes fit one by one. -/
theorem groupsFit_concat_iff :
    GroupsFit (front ++ [node]) ↔ GroupsFit front ∧ node.FitsBehind front := by
  constructor
  · intro h
    refine ⟨h.of_prefix (List.prefix_append _ _), fun name hname hin => ?_, ?_⟩
    · have hnodup := h.names
      rw [groupNames_append, groupNames_singleton, hname] at hnodup
      exact List.disjoint_of_nodup_append hnodup hin (List.mem_singleton_self name)
    · rintro rfl
      have hopened := h.opened _ List.prefix_rfl
      rw [openings_append, closings_append] at hopened
      exact hopened
  · rintro ⟨hfront, hnode⟩
    constructor
    · rw [groupNames_append, groupNames_singleton]
      refine hfront.names.append ?_ fun name hin hname => ?_
      · cases node.name? <;> simp
      · exact hnode.name name (Option.mem_toList.mp hname) hin
    · intro other hother
      rcases List.prefix_concat_iff.mp hother with rfl | hother
      · have hopened := hfront.opened _ List.prefix_rfl
        rw [openings_append, closings_append]
        cases node with
        | groupClose => exact hnode.opened rfl
        | groupOpen name => exact Nat.le_succ_of_le hopened
        | condition name literals => exact hopened
        | wildcard name => exact hopened
        | bar => exact hopened
        | quantifier q => exact hopened
      · exact hfront.opened other hother

/-- A node with a new name that closes nothing that is not open passes the check. -/
theorem checkGroups_cons {seen : List Text} {depth : Nat}
    (hname : ∀ name, node.name? = some name → name ∉ seen)
    (hdepth : node = .groupClose → depth ≠ 0) (rest : List Node) :
    checkGroups seen depth (node :: rest) =
      checkGroups (node.name?.toList ++ seen) (depth + openings [node] - closings [node]) rest := by
  cases node with
  | groupClose =>
    rw [checkGroups, if_neg (hdepth rfl)]
    rfl
  | groupOpen name =>
    cases name with
    | none => rfl
    | some name =>
      simp only [checkGroups, Node.name?, if_neg (hname name rfl)]
      rfl
  | condition name literals =>
    cases name with
    | none => rfl
    | some name =>
      simp only [checkGroups, Node.name?, if_neg (hname name rfl)]
      rfl
  | wildcard name =>
    cases name with
    | none => rfl
    | some name =>
      simp only [checkGroups, Node.name?, if_neg (hname name rfl)]
      rfl
  | bar => rfl
  | quantifier q => rfl

/-- Behind nodes that fit, the check goes on with their names and with their open parentheses. -/
theorem GroupsFit.checkGroups_append (h : GroupsFit front) (rest : List Node) :
    checkGroups [] 0 (front ++ rest) =
      checkGroups (groupNames front).reverse (openings front - closings front) rest := by
  induction front using List.reverseRecOn generalizing rest with
  | nil => rfl
  | append_singleton front node ih =>
    obtain ⟨hfront, hnode⟩ := groupsFit_concat_iff.mp h
    have hopened := hfront.opened _ List.prefix_rfl
    have hseen : ∀ name, node.name? = some name → name ∉ (groupNames front).reverse :=
      fun name hname hin => hnode.name name hname (List.mem_reverse.mp hin)
    have hdepth : node = .groupClose → openings front - closings front ≠ 0 := by
      intro hclose
      have := hnode.opened hclose
      omega
    have hnames : (groupNames (front ++ [node])).reverse =
        node.name?.toList ++ (groupNames front).reverse := by
      rw [groupNames_append, groupNames_singleton, List.reverse_append]
      cases node.name? <;> rfl
    have hopen : openings (front ++ [node]) - closings (front ++ [node]) =
        openings front - closings front + openings [node] - closings [node] := by
      rw [openings_append, closings_append]
      omega
    rw [List.append_assoc, List.singleton_append, ih hfront, checkGroups_cons hseen hdepth, hnames,
      hopen]

theorem GroupFault.checkGroups_eq (h : GroupFault nodes fault) :
    checkGroups [] 0 nodes = .error fault := by
  cases h with
  | @repeated front rest node name hfront hname hin =>
    have hseen : name ∈ (groupNames front).reverse := List.mem_reverse.mpr hin
    rw [hfront.checkGroups_append]
    unfold checkGroups
    simp only [hname, if_pos hseen]
  | unopened hfront hclosed =>
    rw [hfront.checkGroups_append, hclosed, Nat.sub_self]
    rfl
  | unclosed hfit hopen =>
    have hcheck := hfit.checkGroups_append []
    rw [List.append_nil] at hcheck
    rw [hcheck, checkGroups, if_neg (by omega)]

theorem checkGroups_of_balanced (hnames : (groupNames nodes).Nodup) (h : Balanced nodes) :
    checkGroups [] 0 nodes = .ok () := by
  have hfit : GroupsFit nodes := ⟨hnames, h.opened⟩
  have hcheck := hfit.checkGroups_append []
  rwa [List.append_nil, h.closed, Nat.sub_self] at hcheck

/-- Nodes that do not fit have a first one that does not fit behind the nodes before it. -/
theorem groupsFit_or_groupFault (nodes : List Node) :
    GroupsFit nodes ∨ ∃ fault, ∀ rest, GroupFault (nodes ++ rest) fault := by
  -- From the end: what is wrong with the nodes before the last one stays wrong.
  induction nodes using List.reverseRecOn with
  | nil => exact .inl groupsFit_nil
  | append_singleton front node ih =>
    rcases ih with hfront | ⟨fault, hfault⟩
    · by_cases hname : ∀ name, node.name? = some name → name ∉ groupNames front
      · by_cases hopened : node = .groupClose → closings front < openings front
        · exact .inl (groupsFit_concat_iff.mpr ⟨hfront, hname, hopened⟩)
        · obtain ⟨rfl, hnot⟩ := Classical.not_imp.mp hopened
          have hle := hfront.opened front List.prefix_rfl
          refine .inr ⟨.unbalancedParentheses, fun rest => ?_⟩
          rw [List.append_assoc]
          exact .unopened hfront (by omega)
      · simp only [not_forall, not_not] at hname
        obtain ⟨name, hname, hin⟩ := hname
        refine .inr ⟨.duplicateName name, fun rest => ?_⟩
        rw [List.append_assoc]
        exact .repeated hfront hname hin
    · refine .inr ⟨fault, fun rest => ?_⟩
      rw [List.append_assoc]
      exact hfault _

/-- Nodes have no fault exactly if no name repeats and the parentheses balance. -/
theorem exists_groupFault_iff :
    (∃ fault, GroupFault nodes fault) ↔ ¬ ((groupNames nodes).Nodup ∧ Balanced nodes) := by
  constructor
  · rintro ⟨fault, hfault⟩ ⟨hnames, hbalanced⟩
    have hcheck := hfault.checkGroups_eq
    rw [checkGroups_of_balanced hnames hbalanced] at hcheck
    cases hcheck
  · intro h
    rcases groupsFit_or_groupFault nodes with hfit | ⟨fault, hfault⟩
    · have hle := hfit.opened nodes List.prefix_rfl
      have hne : closings nodes ≠ openings nodes :=
        fun hclosed => h ⟨hfit.names, hfit.opened, hclosed⟩
      exact ⟨_, .unclosed hfit (by omega)⟩
    · exact ⟨fault, List.append_nil nodes ▸ hfault []⟩

theorem checkGroups_eq_ok_iff :
    checkGroups [] 0 nodes = .ok () ↔ (groupNames nodes).Nodup ∧ Balanced nodes := by
  refine ⟨fun h => ?_, fun ⟨hnames, hbalanced⟩ => checkGroups_of_balanced hnames hbalanced⟩
  by_contra hnot
  obtain ⟨fault, hfault⟩ := exists_groupFault_iff.mpr hnot
  rw [hfault.checkGroups_eq] at h
  cases h

end Klingon.Pattern
