import GameCatalog.Text.Blank
import GameCatalog.Number.Style
import GameCatalog.Number.Numeral
import GameCatalog.Json.Basic
import GameCatalog.Json.Printer
import GameCatalog.Json.Parser
import GameCatalog.Trait.Table
import GameCatalog.Fault
import GameCatalog.Catalog.Basic
import GameCatalog.Archive
import GameCatalog.Reference.Parser
import GameCatalog.Reference.Mention
import GameCatalog.Random.ChaCha
import GameCatalog.Rarity
import GameCatalog.Resolution.Validation
import GameCatalog.Generation.Generator
import GameCatalog.Explorer.Session
import GameCatalog.Explorer.Command
import GameCatalog.Explorer.Highlight
import GameCatalog.Explorer.Completion
import GameCatalog.Output
import GameCatalog.Explorer.Answer
import GameCatalog.Explorer.Lines
import GameCatalog.Explorer.Conversation
import GameCatalog.Settings.Document
import GameCatalog.Settings.Basic
import GameCatalog.Settings.LogLevel
import GameCatalog.CommandLine.Arguments
import GameCatalog.CommandLine.Run
import GameCatalog.Main
import GameCatalog.Proofs.FairDraws
import GameCatalog.Proofs.ReferenceGrammar
import GameCatalog.Proofs.ReferenceReading
import GameCatalog.Proofs.ReferencePrinting
import GameCatalog.Proofs.ArchiveFaithfulness
import GameCatalog.Proofs.ComputationRuns
import GameCatalog.Proofs.CatalogSearch
import GameCatalog.Proofs.ArchiveIndependence
import GameCatalog.Proofs.SessionIndependence
import GameCatalog.Proofs.ArchiveAnswers
import GameCatalog.Proofs.ArchiveSnapshots
import GameCatalog.Proofs.Prospects
import GameCatalog.Proofs.ResolutionOutcomes
import GameCatalog.Proofs.MentionPlaces
import GameCatalog.Proofs.DocumentValidation
import GameCatalog.Proofs.SlotDraws
import GameCatalog.Proofs.WildcardDraws
import GameCatalog.Proofs.Compositions
import GameCatalog.Proofs.GenerationOutcomes
import GameCatalog.Proofs.KeyOrder
import GameCatalog.Proofs.ArchiveBookkeeping
import GameCatalog.Proofs.ReferenceRoundTrip
import GameCatalog.Proofs.ReferenceModifiers
import GameCatalog.Proofs.GeneratorReseeding
import GameCatalog.Proofs.ExactSelection
import GameCatalog.Proofs.CategoryPlaces
import GameCatalog.Proofs.CategorySearch
import GameCatalog.Proofs.CandidateBlocks
import GameCatalog.Proofs.NamedItems
import GameCatalog.Proofs.CategoryEntries
import GameCatalog.Proofs.ItemPlaces
import GameCatalog.Proofs.ItemOrder
import GameCatalog.Proofs.RepeatedDraws
import GameCatalog.Proofs.DrawTallies
import GameCatalog.Proofs.TableFilling
import GameCatalog.Proofs.CompositionNames
import GameCatalog.Proofs.PairedDraws
import GameCatalog.Proofs.StatSpelling
import GameCatalog.Proofs.TraitRoundTrip
import GameCatalog.Proofs.DrawConservation
import GameCatalog.Proofs.ClampedTotals
import GameCatalog.Proofs.MentionLocations
import GameCatalog.Proofs.KeyTexts
import GameCatalog.Proofs.FilePaths
import GameCatalog.Proofs.FolderListing
import GameCatalog.Proofs.AbsentDocuments
import GameCatalog.Proofs.TextWords
import GameCatalog.Proofs.TemplateRendering
import GameCatalog.Proofs.WordCompletion
import GameCatalog.Proofs.ReferenceCommands
import GameCatalog.Proofs.LineHighlighting
import GameCatalog.Proofs.ReferenceFlaws
