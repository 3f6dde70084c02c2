import Klingon.Main
import Klingon.Tool.Directory
import Klingon.Proofs.Pattern.Automaton
import Klingon.Proofs.Pattern.Track
import Klingon.Proofs.Pattern.Likeness
import Klingon.Proofs.Pattern.Rearrangement
import Klingon.Proofs.Pattern.Completeness
import Klingon.Proofs.Pattern.Pieces
import Klingon.Proofs.Pattern.NormalForm
import Klingon.Proofs.Pattern.Gathering
import Klingon.Proofs.Pattern.Tokens
import Klingon.Proofs.Pattern.Spelling
import Klingon.Proofs.Ordered
import Klingon.Proofs.Pattern.ConditionList
import Klingon.Proofs.Pattern.Grammar
import Klingon.Proofs.Pattern.Groups
import Klingon.Proofs.Pattern.Faults
import Klingon.Proofs.Pattern.Building
import Klingon.Proofs.Pattern.Numbers
import Klingon.Proofs.Pattern.Refinement
import Klingon.Proofs.Pattern.Room
import Klingon.Proofs.Encoding
import Klingon.Proofs.Rule
import Klingon.Proofs.Rule.Wording
import Klingon.Proofs.Pattern.Conditions
import Klingon.Proofs.Template.Ending
import Klingon.Proofs.Template.Preference
import Klingon.Proofs.Template.Inventory
import Klingon.Proofs.Template.Grammar
import Klingon.Proofs.Analyzer.Attachment
import Klingon.Proofs.Analyzer.Walk
import Klingon.Proofs.Analyzer.Contribution
import Klingon.Proofs.Analyzer.Readings
import Klingon.Proofs.Analyzer.Headwords
import Klingon.Proofs.Analyzer.Spelling
import Klingon.Proofs.Analyzer.Recording
import Klingon.Proofs.Analyzer.Order
import Klingon.Proofs.Analyzer.Agreement
import Klingon.Proofs.Analyzer.Entries
import Klingon.Proofs.Analyzer.Primary
import Klingon.Proofs.Analyzer.Morphemes
import Klingon.Proofs.Analyzer.Grammaticality
import Klingon.Proofs.Analyzer.Affixes
import Klingon.Proofs.Token
import Klingon.Proofs.Token.Splitting
import Klingon.Proofs.Conllu
import Klingon.Proofs.Conllu.Persons
import Klingon.Proofs.Conllu.Suffixes
import Klingon.Proofs.Conllu.FeatureNames
import Klingon.Proofs.Proofreading.Spans
import Klingon.Proofs.Proofreading.Order
import Klingon.Proofs.Proofreading.Blanks
import Klingon.Proofs.Proofreading.Options
import Klingon.Proofs.Encoding.Literals
import Klingon.Proofs.Session
import Klingon.Proofs.Letter
import Klingon.Proofs.Syllable
import Klingon.Proofs.Lexicon
import Klingon.Proofs.Text.Bytes
import Klingon.Proofs.Json
import Klingon.Proofs.Lexicon.Export
import Klingon.Proofs.Tool.Report
import Klingon.Proofs.Tool.Conllu
import Klingon.Proofs.Tool.Arguments
import Klingon.Proofs.Pattern.Naming
