import ConceptMarkup.CommandLine.Run
import ConceptMarkup.Editor.Hover
import ConceptMarkup.Editor.Outline
import ConceptMarkup.Editor.Protocol
import ConceptMarkup.Generation
import ConceptMarkup.Main
import ConceptMarkup.Proofs.LinePositions
import ConceptMarkup.Proofs.Mentions
import ConceptMarkup.Proofs.LineTokens
import ConceptMarkup.Proofs.Sections
import ConceptMarkup.Proofs.SectionReading
import ConceptMarkup.Proofs.MentionClasses
import ConceptMarkup.Proofs.SectionJoin
import ConceptMarkup.Proofs.CollectedNames
import ConceptMarkup.Proofs.Findings
import ConceptMarkup.Proofs.DocumentTree
import ConceptMarkup.Proofs.WirePlaces
import ConceptMarkup.Proofs.ErrorGates
import ConceptMarkup.Proofs.SymbolPlaces
import ConceptMarkup.Proofs.NameLookup
import ConceptMarkup.Proofs.Navigation
import ConceptMarkup.Proofs.FindingPlaces
import ConceptMarkup.Proofs.OptionChoices
import ConceptMarkup.Proofs.LineEndingFindings
import ConceptMarkup.Proofs.StoreHistory
import ConceptMarkup.Proofs.ColumnPlaces
import ConceptMarkup.Proofs.FrontMatter
import ConceptMarkup.Proofs.MissingConcepts
import ConceptMarkup.Proofs.EditScripts
import ConceptMarkup.Proofs.SuggestionChoice
import ConceptMarkup.Proofs.CategoryFilters
import ConceptMarkup.Proofs.InnermostSymbols
import ConceptMarkup.Proofs.LineSearch
import ConceptMarkup.Proofs.TokenScan
import ConceptMarkup.Proofs.WireClamps
import ConceptMarkup.Proofs.ConceptSlices
import ConceptMarkup.Proofs.HoverNotes
import ConceptMarkup.Proofs.TokenJoin
import ConceptMarkup.Proofs.MixedLineEnds
import ConceptMarkup.Proofs.OpeningEvents
import ConceptMarkup.Proofs.NoStepFails
import ConceptMarkup.Proofs.CategorySelection
import ConceptMarkup.Proofs.ExpectedFindings
import ConceptMarkup.Proofs.LeadingOptions
import ConceptMarkup.Proofs.TestTree
import ConceptMarkup.Proofs.CategoryGroups
import ConceptMarkup.Proofs.SuiteRuns
import ConceptMarkup.Proofs.IndexHistory
