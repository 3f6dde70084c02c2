import Klingon.Proofs.Analyzer.Order
import Klingon.Proofs.Lexicon
import Klingon.Proofs.Proofreading.Spans

/-!
# Proofreading and the order of the entries

Two lexicons with the same entries find the same faults in the same places, in whatever order the
entries are. What is said about a fault may differ, since it may tell of the first homograph.
-/

namespace Klingon

/-! ## Tokens -/

/-- Two tokens that differ in the order of their analyses only. -/
structure Token.Alike (token token' : Token) : Prop where
  offset : token.offset = token'.offset
  kind : token.kind = token'.kind
  text : token.text = token'.text
  analyses : token.analyses.Perm token'.analyses

namespace Token.Alike

variable {token token' : Token}

theorem refl (token : Token) : token.Alike token :=
  ⟨rfl, rfl, rfl, List.Perm.refl _⟩

theorem stop_eq (h : token.Alike token') : token.stop = token'.stop := by
  rw [stop, h.offset, h.text, stop]

theorem isSpace_eq (h : token.Alike token') : token.isSpace = token'.isSpace := by
  rw [isSpace, h.kind, isSpace]

theorem mark_eq (h : token.Alike token') : token.mark = token'.mark := by
  funext bit
  unfold mark
  rw [h.kind, h.text, h.analyses.countP_eq, h.analyses.length_eq]

end Token.Alike

/-- The tokens of a text by two lexicons with the same entries. -/
theorem Analyzer.tokens_alike {lexicon lexicon' : Lexicon}
    (h : lexicon.entries.Perm lexicon'.entries) (text : Text) :
    List.Forall₂ Token.Alike ((ofLexicon lexicon).tokens text)
      ((ofLexicon lexicon').tokens text) := by
  rw [tokens, tokens, List.forall₂_map_left_iff, List.forall₂_map_right_iff, List.forall₂_same]
  intro token _
  unfold Token.analyzed
  split
  · exact ⟨rfl, rfl, rfl, analyze_perm h token.text⟩
  · exact .refl token

/-! ## Faults -/

/-- Two diagnostics of the same fault, which may be put into different words. -/
structure Diagnostic.SameFault (d d' : Diagnostic) : Prop where
  kind : d.kind = d'.kind
  rule : d.rule = d'.rule
  start : d.start = d'.start
  stop : d.stop = d'.stop

variable {tokens tokens' : List Token}

theorem Token.Alike.fault?_sameFault {token token' : Token} (h : token.Alike token')
    (options : ProofreadingOptions) :
    Option.Rel Diagnostic.SameFault (token.fault? options) (token'.fault? options) := by
  have hword : token.isWord = token'.isWord := by rw [isWord, h.kind, isWord]
  have hanalyses := h.analyses
  unfold fault?
  rw [← hword, h.text]
  split
  · exact .none
  · cases hfound : token.analyses with
    | nil =>
      rw [hfound] at hanalyses
      simp only [← hanalyses.nil_eq]
      split
      · exact .some ⟨rfl, rfl, h.offset, h.stop_eq⟩
      · exact .none
    | cons first others =>
      cases hfound' : token'.analyses with
      | nil =>
        rw [hfound, hfound'] at hanalyses
        cases hanalyses.eq_nil
      | cons first' others' =>
        rw [hfound, hfound'] at hanalyses
        simp only [hanalyses.all_eq]
        split
        · exact .some ⟨rfl, rfl, h.offset, h.stop_eq⟩
        · exact .none

/-- A match is reported at the same place. -/
theorem Rule.report_sameFault (rule : Rule) (h : List.Forall₂ Token.Alike tokens tokens')
    (found : PatternMatch) :
    Option.Rel Diagnostic.SameFault (rule.report tokens found) (rule.report tokens' found) := by
  refine rel_bind (rel_refl (faultTokens found).head?) fun i i' hi => ?_
  subst hi
  refine rel_bind (rel_getElem? h i) fun first first' hfirst => ?_
  refine rel_bind (rel_refl (faultTokens found).getLast?) fun j j' hj => ?_
  subst hj
  refine rel_bind (rel_getElem? h j) fun last last' hlast => ?_
  exact .some ⟨rfl, rfl, hfirst.offset, hlast.stop_eq⟩

theorem visible_alike (h : List.Forall₂ Token.Alike tokens tokens') :
    List.Forall₂ Token.Alike (visible tokens) (visible tokens') := by
  refine List.rel_filter (fun token token' htoken => ?_) h
  show (!token.isSpace) = true ↔ (!token'.isSpace) = true
  rw [htoken.isSpace_eq]

theorem Rule.check_sameFault (rule : Rule) (h : List.Forall₂ Token.Alike tokens tokens') :
    Option.Rel Diagnostic.SameFault (rule.check tokens) (rule.check tokens') := by
  have hencode : encode rule.pattern.vocabulary (visible tokens) =
      encode rule.pattern.vocabulary (visible tokens') := 
      encode_congr _ ((visible_alike h).imp fun _ _ htoken => htoken.mark_eq)
  rw [check_eq, check_eq, hencode]
  cases rule.pattern.find? (encode rule.pattern.vocabulary (visible tokens')) with
  | none => exact .none
  | some found => exact rule.report_sameFault (visible_alike h) found

theorem diagnose_sameFault (options : ProofreadingOptions) (rules : List Rule)
    (h : List.Forall₂ Token.Alike tokens tokens') :
    List.Forall₂ Diagnostic.SameFault (diagnose options rules tokens)
      (diagnose options rules tokens') := by
  refine List.rel_append ?_ ?_
  · exact List.rel_filterMap (fun token token' htoken => htoken.fault?_sameFault options) h
  · refine List.rel_filterMap (fun rule rule' hrule => ?_) (List.forall₂_same.mpr fun _ _ => rfl)
    rw [hrule]
    exact rule'.check_sameFault h

/-! ## Lexicons of the same entries -/

namespace Lexicon

/-- The order in which entries with different identifiers are given changes the order of the analyses
of a word and the wording of diagnostics, and nothing else. -/
theorem entries_in_any_order {entries entries' : List Entry}
    (hdistinct : (entries.map (·.id)).Nodup) (hperm : entries.Perm entries') :
    (∀ word,
      (ofEntries entries).templates.map (fun t => (t.kind, t.captures? word)) =
        (ofEntries entries').templates.map (fun t => (t.kind, t.captures? word)) ∧
      (Analyzer.ofLexicon (ofEntries entries)).morphemes word =
        (Analyzer.ofLexicon (ofEntries entries')).morphemes word ∧
      ((Analyzer.ofLexicon (ofEntries entries)).analyze word).Perm
        ((Analyzer.ofLexicon (ofEntries entries')).analyze word)) ∧
    ∀ options rules text, List.Forall₂ Diagnostic.SameFault
      (diagnose options rules ((Analyzer.ofLexicon (ofEntries entries)).tokens text))
      (diagnose options rules ((Analyzer.ofLexicon (ofEntries entries')).tokens text)) := by
  have h : (ofEntries entries).entries.Perm (ofEntries entries').entries := by
    rw [entries_ofEntries hdistinct, entries_ofEntries ((hperm.map _).nodup hdistinct)]
    exact hperm
  refine ⟨fun word => ⟨?_, Analyzer.morphemes_eq h word, Analyzer.analyze_perm h word⟩,
    fun options rules text => diagnose_sameFault options rules (Analyzer.tokens_alike h text)⟩
  rw [templates_eq, templates_eq, List.map_map, List.map_map]
  refine List.map_congr_left fun kind _ => ?_
  rw [Function.comp_apply, Function.comp_apply, kind_template, kind_template, captures?_template h]

/-- Two homographs. -/
def wonders : List Entry :=
  [⟨"Dun:v:1", "Dun", "v:is", []⟩, ⟨"Dun:v:2", "Dun", "v:t", []⟩]

theorem entries_in_any_order_wonders :
    (wonders.map (·.id)).Nodup ∧ wonders.Perm wonders.reverse ∧
    (∀ word,
      (ofEntries wonders).templates.map (fun t => (t.kind, t.captures? word)) =
        (ofEntries wonders.reverse).templates.map (fun t => (t.kind, t.captures? word)) ∧
      (Analyzer.ofLexicon (ofEntries wonders)).morphemes word =
        (Analyzer.ofLexicon (ofEntries wonders.reverse)).morphemes word ∧
      ((Analyzer.ofLexicon (ofEntries wonders)).analyze word).Perm
        ((Analyzer.ofLexicon (ofEntries wonders.reverse)).analyze word)) ∧
    ∀ options rules text, List.Forall₂ Diagnostic.SameFault
      (diagnose options rules ((Analyzer.ofLexicon (ofEntries wonders)).tokens text))
      (diagnose options rules ((Analyzer.ofLexicon (ofEntries wonders.reverse)).tokens text)) := by
  have hdistinct : (wonders.map (·.id)).Nodup := by decide
  have hperm : wonders.Perm wonders.reverse := (List.reverse_perm wonders).symm
  exact ⟨hdistinct, hperm, entries_in_any_order hdistinct hperm⟩

end Lexicon

end Klingon
