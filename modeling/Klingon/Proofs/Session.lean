import Klingon.Proofs.Ordered
import Klingon.Proofs.Rule
import Klingon.Session

/-!
# What a session has come to

A session is determined by the commands that could be carried out: its analyzer by the last lexicon
that was loaded, its rules by the changes of the rules one after the other, its options by the last
choice and all words that were named. Each command touches one of these and the others are as before.
An analyzer that was taken from a session stays what it was.
-/

namespace Klingon

/-! ## Commands -/

/-- A change of the definitions of the rules. -/
inductive RuleChange where
  | replace (definitions : List RuleDefinition)
  | append (definition : RuleDefinition)

/-- The definitions after a change. Of those that come in place of the others only the ones that can
be read count. -/
def RuleChange.apply (definitions : List RuleDefinition) : RuleChange → List RuleDefinition
  | replace others => others.filter (·.reads)
  | append definition => definitions ++ [definition]

namespace SessionCommand

/-- The lexicon that the command loads, if there is one to load. -/
def lexicon? : SessionCommand → Option Lexicon
  | update source => source.load?
  | _ => none

/-- What the command changes in the rules, if it can be carried out. -/
def ruleChange? : SessionCommand → Option RuleChange
  | setRules definitions => some (.replace definitions)
  | loadRules document => (RuleDefinition.ofDocument? document).map .replace
  | addRule definition => if definition.reads then some (.append definition) else none
  | _ => none

/-- Only a definition that can be read is added. -/
theorem reads_of_append {command : SessionCommand} {definition : RuleDefinition}
    (h : command.ruleChange? = some (.append definition)) : definition.reads = true := by
  cases command with
  | addRule added =>
    rw [ruleChange?] at h
    split at h
    · next hreads =>
      cases h
      exact hreads
    · cases h
  | loadRules document =>
    obtain ⟨_, _, hreplace⟩ := Option.map_eq_some_iff.mp h
    cases hreplace
  | _ => cases h

/-- What the command says about reporting unknown words. -/
def reported? : SessionCommand → Option Bool
  | reportUnknown value => some value
  | _ => none

/-- The words that the command makes known. -/
def known : SessionCommand → List Text
  | addKnown words => words
  | _ => []

end SessionCommand

/-- Whether the command cannot be carried out. -/
def SessionCommand.Fails : SessionCommand → Prop
  | update source => source.load? = none
  | loadRules document => RuleDefinition.ofDocument? document = none
  | addRule definition => definition.reads = false
  | _ => False

/-- The lexicon that was loaded last. -/
def lastLexicon (lexicon : Lexicon) (history : List SessionCommand) : Lexicon :=
  (history.filterMap SessionCommand.lexicon?).getLast?.getD lexicon

/-- The definitions after all changes, which start from the built-in ones. -/
def definitionsAfter (history : List SessionCommand) : List RuleDefinition :=
  (history.filterMap SessionCommand.ruleChange?).foldl RuleChange.apply Rule.builtinDefinitions

/-- The last choice whether unknown words are reported. They are unless it is chosen otherwise. -/
def lastReported (history : List SessionCommand) : Bool :=
  (history.filterMap SessionCommand.reported?).getLast?.getD true

namespace Session

variable {session : Session} {command : SessionCommand} {history : List SessionCommand}
  {fault : SessionError} {lexicon : Lexicon}

theorem after_of_error (h : session.run command = .error fault) : session.after command = session := by
  rw [after, h]

/-- Whether a command fails does not depend on the session. -/
theorem exists_error_iff (session : Session) (command : SessionCommand) :
    (∃ fault, session.run command = .error fault) ↔ command.Fails := by
  cases command with
  | update source => cases hload : source.load? <;> simp [run, SessionCommand.Fails, hload]
  | loadRules document =>
    cases hdocument : RuleDefinition.ofDocument? document <;>
      simp [run, SessionCommand.Fails, hdocument]
  | addRule definition =>
    cases hreads : definition.reads with
    | false =>
      obtain ⟨error, herror⟩ := Rule.exists_error_of_not_reads hreads
      simp [run, SessionCommand.Fails, hreads, herror]
    | true =>
      obtain ⟨rule, hrule, _⟩ := Rule.exists_rule_of_reads hreads
      simp [run, SessionCommand.Fails, hreads, hrule]
  | setRules definitions => simp [run, SessionCommand.Fails]
  | reportUnknown value => simp [run, SessionCommand.Fails]
  | addKnown words => simp [run, SessionCommand.Fails]

/-- What a command makes of a session. -/
theorem after_eq (session : Session) (command : SessionCommand) :
    session.after command =
      { analyzer := (command.lexicon?.map Analyzer.ofLexicon).getD session.analyzer
        rules :=
          match command.ruleChange? with
          | some (.replace definitions) => Rule.ofDefinitions definitions
          | some (.append definition) => session.rules ++ Rule.ofDefinitions [definition]
          | none => session.rules
        options :=
          { reportUnknown := command.reported?.getD session.options.reportUnknown
            knownWords := command.known.foldr Ordered.insert session.options.knownWords } } := by
  cases command with
  | update source =>
    unfold after run
    simp only [SessionCommand.lexicon?]
    cases source.load? <;> rfl
  | setRules definitions => rfl
  | loadRules document =>
    unfold after run
    simp only [SessionCommand.ruleChange?]
    cases RuleDefinition.ofDocument? document <;> rfl
  | addRule definition =>
    unfold after run
    simp only [SessionCommand.ruleChange?]
    cases hreads : definition.reads with
    | false =>
      obtain ⟨error, herror⟩ := Rule.exists_error_of_not_reads hreads
      rw [herror]
      rfl
    | true =>
      obtain ⟨rule, hrule, _⟩ := Rule.exists_rule_of_reads hreads
      rw [hrule, if_pos rfl]
      dsimp only
      rw [Rule.ofDefinitions_singleton hrule]
      rfl
  | reportUnknown value => rfl
  | addKnown words => rfl

/-! ## The lexicon -/

theorem analyzer_foldl_after (history : List SessionCommand)
    (h : session.analyzer = .ofLexicon lexicon) :
    (history.foldl after session).analyzer = .ofLexicon (lastLexicon lexicon history) := by
  induction history generalizing session lexicon with
  | nil => exact h
  | cons command rest ih =>
    have hstep : (session.after command).analyzer =
        .ofLexicon (command.lexicon?.getD lexicon) := by
      rw [after_eq, h]
      cases command.lexicon? <;> rfl
    rw [List.foldl_cons, ih hstep, lastLexicon, lastLexicon, List.filterMap_cons]
    cases command.lexicon? with
    | none => rfl
    | some loaded =>
      rw [List.getLast?_cons]
      rfl

/-! ## The rules -/

/-- A session with the rules of definitions that all can be read. -/
structure HasRules (session : Session) (definitions : List RuleDefinition) : Prop where
  rules : session.rules = Rule.ofDefinitions definitions
  reads : ∀ definition ∈ definitions, definition.reads = true

theorem HasRules.after {definitions : List RuleDefinition} (h : session.HasRules definitions)
    (command : SessionCommand) :
    (session.after command).HasRules
      (command.ruleChange?.elim definitions (RuleChange.apply definitions)) := by
  rw [after_eq]
  cases hchange : command.ruleChange? with
  | none => exact ⟨h.rules, h.reads⟩
  | some change =>
    cases change with
    | replace others =>
      refine ⟨(Rule.ofDefinitions_filter others).symm, fun definition hdefinition => ?_⟩
      exact (List.mem_filter.mp hdefinition).2
    | append added =>
      constructor
      · show session.rules ++ Rule.ofDefinitions [added] = Rule.ofDefinitions (definitions ++ [added])
        rw [h.rules, Rule.ofDefinitions, Rule.ofDefinitions, Rule.ofDefinitions,
          List.filterMap_append]
      · intro definition hdefinition
        rcases List.mem_append.mp hdefinition with hold | hnew
        · exact h.reads definition hold
        · rw [List.mem_singleton.mp hnew]
          exact SessionCommand.reads_of_append hchange

theorem HasRules.foldl_after {definitions : List RuleDefinition} (h : session.HasRules definitions)
    (history : List SessionCommand) :
    (history.foldl Session.after session).HasRules
      ((history.filterMap SessionCommand.ruleChange?).foldl RuleChange.apply definitions) := by
  induction history generalizing session definitions with
  | nil => exact h
  | cons command rest ih =>
    have hrest := ih (h.after command)
    rw [List.foldl_cons, List.filterMap_cons]
    cases hchange : command.ruleChange? with
    | none =>
      rw [hchange] at hrest
      exact hrest
    | some change =>
      rw [hchange] at hrest
      exact hrest

/-- An empty document leaves no rule; a rule that cannot be read and an unfinished document change
nothing. -/
example : definitionsAfter
    [.loadRules "[]", .addRule ⟨"open", "(", "OPEN GROUP", none, [], []⟩, .loadRules "["] = [] := by
  decide +kernel

/-! ## The options -/

theorem reportUnknown_foldl_after (session : Session) (history : List SessionCommand) :
    (history.foldl after session).options.reportUnknown =
      (history.filterMap SessionCommand.reported?).getLast?.getD session.options.reportUnknown := by
  induction history generalizing session with
  | nil => rfl
  | cons command rest ih =>
    rw [List.foldl_cons, ih, after_eq, List.filterMap_cons]
    cases command.reported? with
    | none => rfl
    | some value =>
      rw [List.getLast?_cons]
      rfl

theorem mem_knownWords_foldl_after {word : Text} (session : Session)
    (history : List SessionCommand) :
    word ∈ (history.foldl after session).options.knownWords ↔
      (∃ command ∈ history, word ∈ command.known) ∨ word ∈ session.options.knownWords := by
  induction history generalizing session with
  | nil => simp
  | cons command rest ih =>
    have hstep : word ∈ (session.after command).options.knownWords ↔
        word ∈ command.known ∨ word ∈ session.options.knownWords := by
      rw [after_eq]
      exact Ordered.mem_foldr_insert
    rw [List.foldl_cons, ih, hstep, List.exists_mem_cons_iff, or_assoc, or_left_comm]

end Session

/-! ## Sessions that are shared -/

/-- What happens to a session that is shared: a command, or someone takes its analyzer. -/
inductive SessionEvent where
  | give (command : SessionCommand)
  | take

/-- The commands among some events. -/
def SessionEvent.commands (events : List SessionEvent) : List SessionCommand :=
  events.filterMap fun
    | give command => some command
    | take => none

/-- A session and the analyzers that were taken from it, the first one first. -/
structure SharedSession where
  session : Session
  taken : List Analyzer := []

namespace SharedSession

def after (shared : SharedSession) : SessionEvent → SharedSession
  | .give command => { shared with session := shared.session.after command }
  | .take => { shared with taken := shared.taken ++ [shared.session.analyzer] }

/-- A new session on a lexicon after some events. -/
def afterAll (lexicon : Lexicon) (events : List SessionEvent) : SharedSession :=
  events.foldl after { session := .ofLexicon lexicon }

variable {lexicon : Lexicon} {events front back : List SessionEvent}

theorem afterAll_append (lexicon : Lexicon) (front back : List SessionEvent) :
    afterAll lexicon (front ++ back) = back.foldl after (afterAll lexicon front) :=
  List.foldl_append

/-- Taking the analyzer does nothing to the session. -/
theorem session_foldl_after (shared : SharedSession) (events : List SessionEvent) :
    (events.foldl after shared).session =
      (SessionEvent.commands events).foldl Session.after shared.session := by
  induction events generalizing shared with
  | nil => rfl
  | cons event rest ih =>
    rw [List.foldl_cons, ih]
    cases event <;> rfl

/-- What was taken stays. -/
theorem taken_foldl_after (shared : SharedSession) (events : List SessionEvent) :
    ∃ more, (events.foldl after shared).taken = shared.taken ++ more := by
  induction events generalizing shared with
  | nil => exact ⟨[], (List.append_nil _).symm⟩
  | cons event rest ih =>
    obtain ⟨more, hmore⟩ := ih (shared.after event)
    cases event with
    | give command => exact ⟨more, hmore⟩
    | take =>
      refine ⟨shared.session.analyzer :: more, ?_⟩
      rw [List.foldl_cons, hmore]
      exact List.append_assoc _ _ _

/-- What a session on a lexicon has come to after some events. -/
structure Result (lexicon : Lexicon) (events : List SessionEvent) (shared : SharedSession) :
    Prop where
  /-- Whether a command fails now does not depend on what happened. -/
  fails : ∀ command, (∃ fault, shared.session.run command = .error fault) ↔ command.Fails
  /-- It is the same without a command that failed. -/
  failed : ∀ front command back fault, events = front ++ .give command :: back →
    (afterAll lexicon front).session.run command = .error fault →
      shared = afterAll lexicon (front ++ back)
  /-- Analyses, morphemes, tokens and rows are answers of the analyzer, which is that of a new session
  on the lexicon that was loaded last. -/
  analyzer : shared.session.analyzer =
    (Session.ofLexicon (lastLexicon lexicon (SessionEvent.commands events))).analyzer
  definitions : shared.session.rules.map (·.definition) =
    definitionsAfter (SessionEvent.commands events)
  rules : shared.session.rules =
    Rule.ofDefinitions (definitionsAfter (SessionEvent.commands events))
  reportUnknown : shared.session.options.reportUnknown =
    lastReported (SessionEvent.commands events)
  knownWords : ∀ word, word ∈ shared.session.options.knownWords ↔
    ∃ words, .give (.addKnown words) ∈ events ∧ word ∈ words
  /-- No word that is known is forgotten. -/
  growing : ∀ front back, events = front ++ back →
    (afterAll lexicon front).session.options.knownWords ⊆ shared.session.options.knownWords
  check : ∀ text, shared.session.check text =
    diagnose shared.session.options
      (Rule.ofDefinitions (definitionsAfter (SessionEvent.commands events)))
      ((Analyzer.ofLexicon
        (lastLexicon lexicon (SessionEvent.commands events))).tokens text)
  /-- An analyzer that was taken is still what it was. -/
  taken : ∀ front back, events = front ++ .take :: back →
    shared.taken[(afterAll lexicon front).taken.length]? =
      some (afterAll lexicon front).session.analyzer

theorem analyzer_afterAll (lexicon : Lexicon) (events : List SessionEvent) :
    (afterAll lexicon events).session.analyzer =
      .ofLexicon (lastLexicon lexicon (SessionEvent.commands events)) := by
  rw [afterAll, session_foldl_after]
  exact Session.analyzer_foldl_after _ rfl

theorem hasRules_afterAll (lexicon : Lexicon) (events : List SessionEvent) :
    (afterAll lexicon events).session.HasRules
      (definitionsAfter (SessionEvent.commands events)) := by
  have hbuiltin : (Session.ofLexicon lexicon).HasRules Rule.builtinDefinitions :=
    ⟨rfl, Rule.reads_of_mem_builtinDefinitions⟩
  rw [afterAll, session_foldl_after]
  exact hbuiltin.foldl_after _

theorem mem_knownWords_afterAll {word : Text} :
    word ∈ (afterAll lexicon events).session.options.knownWords ↔
      ∃ words, .give (.addKnown words) ∈ events ∧ word ∈ words := by
  rw [afterAll, session_foldl_after, Session.mem_knownWords_foldl_after]
  constructor
  · rintro (⟨command, hcommand, hword⟩ | hnone)
    · obtain ⟨event, hevent, hsome⟩ := List.mem_filterMap.mp hcommand
      cases event with
      | take => cases hsome
      | give given =>
        cases hsome
        cases command with
        | addKnown words => exact ⟨words, hevent, hword⟩
        | _ => cases hword
    · cases hnone
  · rintro ⟨words, hevent, hword⟩
    exact .inl ⟨.addKnown words, List.mem_filterMap.mpr ⟨_, hevent, rfl⟩, hword⟩

theorem afterAll_of_error {command : SessionCommand} {fault : SessionError}
    (h : (afterAll lexicon front).session.run command = .error fault) (back : List SessionEvent) :
    afterAll lexicon (front ++ .give command :: back) = afterAll lexicon (front ++ back) := by
  have hstep : (afterAll lexicon front).after (.give command) = afterAll lexicon front := by
    rw [after, Session.after_of_error h]
  rw [afterAll_append, List.foldl_cons, hstep, afterAll_append]

theorem getElem?_taken_afterAll (lexicon : Lexicon) (front back : List SessionEvent) :
    (afterAll lexicon (front ++ .take :: back)).taken[(afterAll lexicon front).taken.length]? =
      some (afterAll lexicon front).session.analyzer := by
  obtain ⟨more, hmore⟩ := taken_foldl_after ((afterAll lexicon front).after .take) back
  rw [afterAll_append, List.foldl_cons, hmore]
  simp [after]

end SharedSession

end Klingon
