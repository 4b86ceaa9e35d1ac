import SoftMenu.Main
import SoftMenu.Proofs.Parsing
import SoftMenu.Proofs.Padding
import SoftMenu.Session
import SoftMenu.Table.Json
import SoftMenu.Proofs.Numbering
import SoftMenu.Proofs.Names
import SoftMenu.Proofs.Stages
import SoftMenu.Proofs.Acceptance
import SoftMenu.Proofs.Decoding
import SoftMenu.Proofs.Offsets
import SoftMenu.Proofs.Recovery
import SoftMenu.Proofs.Symbols
import SoftMenu.Proofs.Words
import SoftMenu.Proofs.Policies
import SoftMenu.Proofs.SameWords
import SoftMenu.Proofs.Completion
import SoftMenu.Proofs.InsertedText
import SoftMenu.Proofs.Invariants
import SoftMenu.Proofs.RegistryRuns
import SoftMenu.Proofs.ErrorPlaces
import SoftMenu.Proofs.JsonText
import SoftMenu.Proofs.Files
import SoftMenu.Proofs.JsonForms
import SoftMenu.Proofs.ToolRuns
import SoftMenu.Proofs.HybridOrder
import SoftMenu.Proofs.Exploration
import SoftMenu.Proofs.DenseIds
import SoftMenu.Proofs.PassLaws
import SoftMenu.Proofs.Clashes
import SoftMenu.Proofs.FilledMenus
import SoftMenu.Proofs.Growth
import SoftMenu.Proofs.FirstFaults
import SoftMenu.Proofs.WordRuns
import SoftMenu.Proofs.NameGrammar
import SoftMenu.Proofs.NamePool
import SoftMenu.Proofs.RepeatedSettings
import SoftMenu.Proofs.LabelOrder
import SoftMenu.Proofs.LexerRuns
import SoftMenu.Proofs.SourceKept
