import Klingon.Proofs.Pattern.Captures
import Klingon.Proofs.Pattern.Refinement
import Klingon.Proofs.Rule

/-!
# Groups are found by their names

A name has the number of the parenthesis that its node opens: one more than there are names before
it. So what is read back under the name is what that group captured, whatever stands around it,
while nothing of the name itself is in the written form.
-/

namespace Klingon.Pattern

/-! ## The number of a name -/

section Numbering

variable {nodes front back : List Node} {node : Node} {name : Text} {vocabulary : List Text}
  {count number n : Nat}

theorem getElem?_groupNames_eq_some_iff : (groupNames nodes)[n]? = some name ↔
    ∃ front node back, nodes = front ++ node :: back ∧ node.name? = some name ∧
      (groupNames front).length = n := by
  constructor
  · intro h
    obtain ⟨hn, hname⟩ := List.getElem?_eq_some_iff.mp h
    have hsplit : groupNames nodes =
        (groupNames nodes).take n ++ name :: (groupNames nodes).drop (n + 1) := by
      rw [← hname, List.getElem_cons_drop, List.take_append_drop]
    obtain ⟨before, after, rfl, hbefore, hafter⟩ := List.filterMap_eq_append_iff.mp hsplit
    obtain ⟨unnamed, node, back, rfl, hunnamed, hnode, _⟩ := List.filterMap_eq_cons_iff.mp hafter
    have hnone : groupNames unnamed = [] := List.filterMap_eq_nil_iff.mpr hunnamed
    refine ⟨before ++ unnamed, node, back, (List.append_assoc ..).symm, hnode, ?_⟩
    rw [groupNames_append, hnone, List.append_nil, groupNames, hbefore, List.length_take_of_le]
    omega
  · rintro ⟨front, node, back, rfl, hnode, rfl⟩
    rw [groupNames_append, List.getElem?_append_right (Nat.le_refl _), Nat.sub_self, groupNames,
      List.filterMap_cons_some hnode]
    rfl

/-- The number of a name is one more than the number of the names in front of it. -/
theorem mem_zipIdx_groupNames_iff : (name, number) ∈ (groupNames nodes).zipIdx 1 ↔
    ∃ front node back, nodes = front ++ node :: back ∧ node.name? = some name ∧
      number = (groupNames front).length + 1 := by
  rw [List.mk_mem_zipIdx_iff_le_and_getElem?_sub, getElem?_groupNames_eq_some_iff]
  constructor
  · rintro ⟨hle, front, node, back, hnodes, hnode, hlength⟩
    exact ⟨front, node, back, hnodes, hnode, by omega⟩
  · rintro ⟨front, node, back, hnodes, hnode, rfl⟩
    exact ⟨Nat.le_add_left .., front, node, back, hnodes, hnode, rfl⟩

theorem nodeSymbols_append (front back : List Node) (count : Nat) :
    nodeSymbols vocabulary count (front ++ back) = nodeSymbols vocabulary count front ++
      nodeSymbols vocabulary (count + (groupNames front).length) back := by
  induction front generalizing count with
  | nil => rfl
  | cons node front ih =>
    rw [List.cons_append, nodeSymbols, ih, nodeSymbols, List.append_assoc, countGroup_add]

/-- A named node begins with its own capture. -/
theorem exists_symbols_of_name? (hname : node.name? = some name) (count : Nat) :
    ∃ more, node.symbols vocabulary count = .opens (count + 1) :: more := by
  cases node with
  | condition name literals =>
    cases hname
    exact ⟨_, rfl⟩
  | wildcard name =>
    cases hname
    exact ⟨_, rfl⟩
  | groupOpen name =>
    cases hname
    exact ⟨_, rfl⟩
  | groupClose => cases hname
  | bar => cases hname
  | quantifier q => cases hname

/-- Where the number of a node stands in the symbols of an expression, the node opens. -/
theorem exists_symbols_split {e body : TokenExpression}
    (hexpression : expression? vocabulary (front ++ node :: back) = some e)
    (hname : node.name? = some name)
    (hgroup : ((groupNames front).length + 1, body) ∈ e.groups) : ∃ before after,
      e.symbols = before ++ .opens ((groupNames front).length + 1) ::
        (body.symbols ++ .char ')' :: after) ∧
      before.map Symbol.toChar = written vocabulary front := by
  obtain ⟨before, after, hsplit⟩ := Expression.exists_symbols_of_mem_groups hgroup
  obtain ⟨more, hmore⟩ := exists_symbols_of_name? hname (groupNames front).length
  have hnodes := symbols_of_expression? hexpression
  rw [nodeSymbols_append, Nat.zero_add, nodeSymbols, hmore, List.cons_append] at hnodes
  refine ⟨before, after, hsplit, ?_⟩
  -- No other parenthesis has this number, so both ways to cut the symbols are the same.
  have hnodup : (e.symbols.filterMap Symbol.number?).Nodup := by
    rw [number?_symbols, (of_expression? hexpression).2]
    exact List.nodup_range'
  have hnumber : (Symbol.opens ((groupNames front).length + 1)).number? =
      some ((groupNames front).length + 1) := rfl
  rw [hsplit, List.filterMap_append, List.filterMap_cons_some hnumber] at hnodup
  have hout := (List.nodup_middle.mp hnodup).notMem
  have hunique : ∀ symbols : List Symbol, (groupNames front).length + 1 ∉
      symbols.filterMap Symbol.number? → .opens ((groupNames front).length + 1) ∉ symbols :=
    fun symbols h hin => h (List.mem_filterMap.mpr ⟨_, hin, rfl⟩)
  rw [List.mem_append, not_or] at hout
  obtain ⟨hbefore, -⟩ := (List.append_cons_inj_of_notMem (hunique _ hout.1)
    (hunique _ hout.2)).mp (hsplit.symm.trans hnodes)
  rw [hbefore, map_toChar_nodeSymbols]

end Numbering

/-! ## Reading back by name -/

section Found

variable {source encoding : Text} {pattern : Pattern} {nodes : List Node} {e : TokenExpression}
  {found : PatternMatch}

/-- What is found in any text is a match of the written form, and what is read back under a name is
what was saved for its number. -/
theorem Compiles.exists_matches_of_find? (h : Compiles source pattern nodes e)
    (hgroups : pattern.groups = numberedGroups nodes)
    (hfound : pattern.find? encoding = some found) : ∃ start y, start ≤ encoding.length ∧
      e.spelled.Matches (pieceTrack encoding) (startingAt start) y ∧
      found.tokens = tokenNumbers (slice encoding (start, y.1)) ∧
      ∀ name, found.group? name =
        ((pattern.groups.lookup name).bind (extent? y.2)).map fun extent =>
          tokenNumbers (slice encoding extent) := by
  rw [find?, h.automaton, leftmost?_gathered (Expression.regular_normal (allAtoms_spelled e)),
    Option.map_map, Option.map_eq_some_iff] at hfound
  obtain ⟨s, hs, rfl⟩ := hfound
  obtain ⟨start, hstart, hhead, _⟩ := Expression.firstReading?_eq_some_iff.mp hs
  have hmem := List.mem_of_mem_head? (Option.mem_def.mpr hhead)
  have hmatches : e.spelled.Matches (pieceTrack encoding) (startingAt start) s.standing :=
    normal_matches_iff.mp (Expression.matches_of_mem_readings hmem)
  refine ⟨start, s.standing, hstart, hmatches, ?_, fun name => ?_⟩
  · have hzero : s.saved.lookup 0 = (startingAt start).2.lookup 0 := by
      refine hmatches.lookup_eq fun m hm => ?_
      rw [Expression.groupNumbers_spelled] at hm
      have hpos := h.pos_of_mem_groupNumbers m hm
      omega
    show tokenNumbers (slice encoding ((s.saved.lookup 0).getD 0, s.position)) = _
    rw [hzero]
    rfl
  · have hincreasing : Ordered.Increasing pattern.groups := by
      rw [hgroups]
      exact Ordered.increasing_ofPairs _
    have hread := hincreasing.lookup_filterMap (fun number =>
      (extent? s.saved number).map fun extent => tokenNumbers (slice encoding extent)) name
    simp only [Option.map_map] at hread
    rw [Option.map_bind]
    exact hread

end Found

/-! ## Names and groups -/

/-- Nothing of the names and bits is in the written form. -/
structure HidesNames (nodes : List Node) : Prop where
  alphabet : written (vocabularyOf nodes) nodes ⊆ alphabet
  renamed : ∀ names bits : Text → Text, Function.Injective bits →
    written (vocabularyOf (nodes.map (.rename names bits))) (nodes.map (.rename names bits)) =
      written (vocabularyOf nodes) nodes

/-- The node behind `front` opens the group that has the name. In the written form its parenthesis
stands right behind what is written for the nodes in front, and the body of the group extends to the
parenthesis that closes it. -/
structure OpensGroup (pattern : Pattern) (e : TokenExpression) (front : List Node) (name : Text)
    (body : TokenExpression) : Prop where
  index : pattern.groups.lookup name = some ((groupNames front).length + 1)
  group : ((groupNames front).length + 1, body) ∈ e.groups
  opened : ∃ before after, symbolsOf pattern.expression =
    before ++ .opens ((groupNames front).length + 1) :: (body.symbols ++ .char ')' :: after) ∧
    before.map Symbol.toChar = written pattern.vocabulary front
  closed : heightBehind 0 body.symbols = some 0

/-- What is read back for a group: nothing if it took no part in the match, or else the tokens that
its body matched in its last round. -/
inductive ReadsBack (encoding : Text) (start : Nat) (y : Standing) (number : Nat)
    (body : TokenExpression) : Option (List Nat) → Prop where
  | absent (h : Clear number y.2) : ReadsBack encoding start y number body none
  | last {extent : Nat × Nat}
    (hround : LastRound (pieceTrack encoding) number body.spelled extent y.2)
    (hwithin : start ≤ extent.1 ∧ extent.1 ≤ extent.2 ∧ extent.2 ≤ y.1) :
    ReadsBack encoding start y number body (some (tokenNumbers (slice encoding extent)))

section Names

variable {source encoding : Text} {pattern : Pattern} {nodes front back : List Node} {node : Node}
  {name : Text} {e body : TokenExpression} {start number : Nat} {y : Standing}

theorem lookup_numberedGroups_eq_some_iff (hcheck : checkGroups [] 0 nodes = .ok ()) :
    (numberedGroups nodes).lookup name = some number ↔
      ∃ front node back, nodes = front ++ node :: back ∧ node.name? = some name ∧
        number = (groupNames front).length + 1 := by
  have hincreasing : Ordered.Increasing (numberedGroups nodes) := Ordered.increasing_ofPairs _
  rw [hincreasing.lookup_eq_some_iff, mem_numberedGroups hcheck, mem_zipIdx_groupNames_iff]

theorem exists_opensGroup (h : Compiles source pattern nodes e)
    (hcheck : checkGroups [] 0 nodes = .ok ())
    (hgroups : pattern.groups = numberedGroups nodes)
    (hwritten : pattern.expression = written pattern.vocabulary nodes)
    (hnodes : nodes = front ++ node :: back) (hname : node.name? = some name) :
    ∃ body, OpensGroup pattern e front name body := by
  have hindex : pattern.groups.lookup name = some ((groupNames front).length + 1) := by
    rw [hgroups]
    exact (lookup_numberedGroups_eq_some_iff hcheck).mpr ⟨front, node, back, hnodes, hname, rfl⟩
  have hexpression := h.expression
  rw [hnodes] at hexpression
  have hnumber : (groupNames front).length + 1 ∈ e.groups.map (·.1) := by
    rw [Expression.map_fst_groups, (of_expression? hexpression).2, List.mem_range'_1,
      groupNames_append, groupNames, groupNames, List.filterMap_cons_some hname,
      List.length_append, List.length_cons]
    omega
  obtain ⟨⟨_, body⟩, hgroup, rfl⟩ := List.mem_map.mp hnumber
  refine ⟨body, hindex, hgroup, ?_, ?_⟩
  · rw [hwritten, symbolsOf_written h.expression, ← symbols_of_expression? h.expression]
    exact exists_symbols_split hexpression hname hgroup
  · have hheight := heightBehind_symbols body 0 []
    rwa [List.append_nil] at hheight

/-- What is saved for a group in a match is read back. -/
theorem readsBack_of_matches (h : e.spelled.Matches (pieceTrack encoding) (startingAt start) y)
    (hstart : start ≤ encoding.length) (hnodup : e.groupNumbers.Nodup) (hpos : 0 < number)
    (hgroup : (number, body) ∈ e.groups) :
    ReadsBack encoding start y number body
      ((extent? y.2 number).map fun extent => tokenNumbers (slice encoding extent)) := by
  have hspelled : (number, body.spelled) ∈ e.spelled.groups := by
    rw [Expression.groups_spelled]
    exact List.mem_map.mpr ⟨(number, body), hgroup, rfl⟩
  rw [← Expression.groupNumbers_spelled] at hnodup
  rcases (h.leaves hnodup hspelled).clear_or_round with ⟨since, hsince, hsaved⟩ | ⟨extent, hround⟩
  · have hclear : Clear number y.2 := by
      rw [hsaved]
      exact hsince.append (clear_singleton (.inl rfl) (Nat.ne_of_gt hpos))
    have hnone := extent?_append_of_clear hclear []
    rw [List.append_nil] at hnone
    rw [hnone]
    exact .absent hclear
  · have hout := Expression.not_mem_groupNumbers_of_mem_groups hnodup hspelled
    have hextent := hround.extent?_eq hout
    rw [hextent]
    refine .last hround ?_
    obtain ⟨first, hfirst, hrest⟩ := Option.bind_eq_some_iff.mp hextent
    obtain ⟨last, hlast, hends⟩ := Option.bind_eq_some_iff.mp hrest
    cases hends
    have hopened := between_of_lookup h hstart hfirst
    have hclosed := between_of_lookup h hstart hlast
    have hbound := (h.le hstart).2
    exact ⟨hopened.1, hround.le (Nat.le_trans hopened.2 hbound), hclosed.2⟩

/-- The written form of a pattern whose nodes pass the check shows nothing of their names and bits,
and the number of a name is its place among the names. If the pattern can be searched for, the
written form has one capture for each name, which its node opens, and a search in any text reads
back under a name what this capture took in. -/
theorem written_captures_names (hreads : readNodes 0 source = .ok nodes)
    (hcheck : checkGroups [] 0 nodes = .ok ()) :
    HidesNames nodes ∧
    (∀ name number, (numberedGroups nodes).lookup name = some number ↔
      ∃ front node back, nodes = front ++ node :: back ∧ node.name? = some name ∧
        number = (groupNames front).length + 1) ∧
    ∀ pattern, Pattern.ofText source = .ok pattern →
      pattern.groups = numberedGroups nodes ∧
      pattern.expression = written (vocabularyOf nodes) nodes ∧
      ∃ e, Compiles source pattern nodes e ∧
        symbolsOf pattern.expression = e.symbols ∧
        (symbolsOf pattern.expression).filterMap Symbol.number? =
          List.range' 1 (groupNames nodes).length ∧
        (∀ front node back name, nodes = front ++ node :: back → node.name? = some name →
          ∃ body, OpensGroup pattern e front name body) ∧
        ∀ encoding found, pattern.find? encoding = some found → ∃ start y,
          e.spelled.Matches (pieceTrack encoding) (startingAt start) y ∧
          found.tokens = tokenNumbers (slice encoding (start, y.1)) ∧
          ∀ name number body, pattern.groups.lookup name = some number →
            (number, body) ∈ e.groups →
            ReadsBack encoding start y number body (found.group? name) := by
  refine ⟨⟨subset_alphabet_written nodes, fun names bits hbits => written_rename hbits nodes⟩,
    fun name number => lookup_numberedGroups_eq_some_iff hcheck, fun pattern hpattern => ?_⟩
  obtain ⟨nodes', e, hreads', _, hexpression, hmade⟩ := exists_of_ofText hpattern
  cases hreads.symm.trans hreads'
  have hgroups : pattern.groups = numberedGroups nodes := by rw [hmade]
  have hwritten : pattern.expression = written (vocabularyOf nodes) nodes := by rw [hmade]
  have hcompiles : Compiles source pattern nodes e := by
    rw [hmade]
    exact ⟨hreads, rfl, hexpression, fun name number => mem_numberedGroups hcheck, rfl⟩
  have hsymbols : symbolsOf pattern.expression = e.symbols := by
    rw [hwritten, symbolsOf_written hexpression, symbols_of_expression? hexpression]
  have hnumbers := (of_expression? hexpression).2
  refine ⟨hgroups, hwritten, e, hcompiles, hsymbols, ?_,
    fun front node back name hnodes hname => ?_, fun encoding found hfound => ?_⟩
  · rw [hsymbols, number?_symbols, hnumbers]
  · exact exists_opensGroup hcompiles hcheck hgroups (hcompiles.vocabulary ▸ hwritten) hnodes hname
  · obtain ⟨start, y, hstart, hmatches, htokens, hgroup⟩ :=
      hcompiles.exists_matches_of_find? hgroups hfound
    refine ⟨start, y, hmatches, htokens, fun name number body hindex hbody => ?_⟩
    have hnodup : e.groupNumbers.Nodup := by
      rw [hnumbers]
      exact List.nodup_range'
    have hpos : 0 < number :=
      hcompiles.pos_of_mem_groupNumbers _ (Expression.mem_groupNumbers_of_mem_groups hbody)
    rw [hgroup, hindex]
    exact readsBack_of_matches hmatches hstart hnodup hpos hbody

end Names

/-! ## Names in a repeated choice -/

section RepeatedChoice

/-- Any tokens, the last comma among them by its own name, and a full stop behind them. -/
def lastComma : Text :=
  "all(comma{Comma}|.)+ stop{Period}"

def lastCommaNodes : List Node :=
  [.groupOpen (some "all"), .condition (some "comma") [⟨"Comma", true⟩], .bar, .wildcard none,
    .groupClose, .quantifier .plus, .condition (some "stop") [⟨"Period", true⟩]]

def lastCommaExpression : TokenExpression :=
  .sequence
    (.repeated .plus false (.group (some 1)
      (.choice (.group (some 2) (.atom [some true, none])) (.group none (.atom [none, none])))))
    (.group (some 3) (.atom [none, some true]))

/-- A comma, a question mark and a full stop. -/
def commaQuestionPeriod : List Token :=
  [⟨0, .punct, ",", []⟩, ⟨1, .punct, "?", []⟩, ⟨2, .punct, ".", []⟩]

theorem expression?_lastComma :
    expression? ["Comma", "Period"] lastCommaNodes = some lastCommaExpression := by
  decide +kernel

theorem represents_lastComma :
    Represents ["Comma", "Period"] lastCommaExpression lastCommaExpression where
  atoms := by simp [lastCommaExpression, Expression.AllAtoms]
  normal := rfl
  lifted := by
    have hlifted : lastCommaExpression.spelled.lifted = [] := by decide +kernel
    rw [hlifted]
    exact List.forall_mem_nil _

/-- The comma was taken in the first round, and its group keeps it; the group around it has what the
second round took. -/
theorem written_captures_names_lastComma :
    readNodes 0 lastComma = .ok lastCommaNodes ∧ checkGroups [] 0 lastCommaNodes = .ok () ∧
      ∃ pattern found start y, Pattern.ofText lastComma = .ok pattern ∧
        symbolsOf pattern.expression = lastCommaExpression.symbols ∧
        (∃ body, OpensGroup pattern lastCommaExpression [.groupOpen (some "all")] "comma" body) ∧
        pattern.find? (encode pattern.vocabulary commaQuestionPeriod) = some found ∧
        found.group? "all" = some [1] ∧ found.group? "comma" = some [0] ∧
        found.group? "stop" = some [2] ∧
        ReadsBack (encode pattern.vocabulary commaQuestionPeriod) start y 2
          (.atom [some true, none]) (found.group? "comma") := by
  have hreads : readNodes 0 lastComma = .ok lastCommaNodes := by decide +kernel
  have hcheck : checkGroups [] 0 lastCommaNodes = .ok () := by decide +kernel
  obtain ⟨_, _, hpatterns⟩ := written_captures_names hreads hcheck
  have hcertainly : certainlyReads lastComma = true := by decide +kernel
  obtain ⟨pattern, hpattern⟩ := exists_ofText_of_certainlyReads hcertainly
  obtain ⟨hgroups, _, e, hcompiles, hsymbols, _, hopens, hback⟩ := hpatterns pattern hpattern
  have hvocabulary : pattern.vocabulary = ["Comma".toList, "Period".toList] := by
    rw [hcompiles.vocabulary]
    decide
  have hsame : e = lastCommaExpression := by
    have hexpression := hcompiles.expression
    rw [hvocabulary] at hexpression
    exact Option.some.inj (hexpression.symm.trans expression?_lastComma)
  subst hsame
  have hfound : pattern.find? (encode pattern.vocabulary commaQuestionPeriod) =
      some ⟨[0, 1, 2], [("all", [1]), ("comma", [0]), ("stop", [2])]⟩ := by
    have hrepresents : Represents pattern.vocabulary lastCommaExpression lastCommaExpression := by
      rw [hvocabulary]
      exact represents_lastComma
    rw [hcompiles.find?_eq_firstReading? hrepresents (by decide), hgroups, hvocabulary]
    decide +kernel
  obtain ⟨start, y, _, _, hgroup⟩ := hback _ _ hfound
  have hindex : pattern.groups.lookup ("comma" : Text) = some 2 := by
    rw [hgroups]
    decide +kernel
  exact ⟨hreads, hcheck, pattern, _, start, y, hpattern, hsymbols, hopens _ _ _ _ rfl rfl, hfound,
    by decide, by decide, by decide, hgroup _ _ _ hindex (by decide)⟩

end RepeatedChoice

end Klingon.Pattern
