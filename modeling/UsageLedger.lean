import UsageLedger.CommandLine
import UsageLedger.Config.Decode
import UsageLedger.FileMeter
import UsageLedger.Main
import UsageLedger.Scenario.Decode
import UsageLedger.Proofs.Conservation
import UsageLedger.Proofs.CounterReset
import UsageLedger.Proofs.TwoPaths
import UsageLedger.Proofs.Variation
import UsageLedger.Session
import UsageLedger.Snapshot
import UsageLedger.Update
import UsageLedger.Proofs.Turns
import UsageLedger.Proofs.Landing
import UsageLedger.Proofs.Orderly
import UsageLedger.Proofs.Holds
import UsageLedger.Proofs.HoldTime
import UsageLedger.Proofs.HoldBalance
import UsageLedger.Proofs.Reachable
import UsageLedger.Proofs.FamilyFrame
import UsageLedger.Proofs.Families
import UsageLedger.Proofs.OneReading
import UsageLedger.Proofs.Rejection
import UsageLedger.Proofs.BulkLevels
import UsageLedger.Proofs.Orphans
import UsageLedger.Proofs.FamilyUpdate
import UsageLedger.Proofs.Recovery
import UsageLedger.Proofs.Cuts
import UsageLedger.Proofs.TimesGrammar
import UsageLedger.Proofs.Outcome
import UsageLedger.Proofs.Interruption
import UsageLedger.Proofs.JsonLexemes
import UsageLedger.Proofs.JsonGrammar
import UsageLedger.Proofs.JsonPrinting
import UsageLedger.Proofs.Disclosure
import UsageLedger.Proofs.ScenarioForm
import UsageLedger.Proofs.CopyEffect
import UsageLedger.Proofs.Repetition
import UsageLedger.Proofs.Assertions
import UsageLedger.Proofs.OneLevel
import UsageLedger.Proofs.Postings
import UsageLedger.Proofs.HoldState
import UsageLedger.Proofs.Independence
import UsageLedger.Proofs.TimesPrinting
import UsageLedger.Proofs.LineFaults
import UsageLedger.Proofs.FileReadings
import UsageLedger.Proofs.ReplayOutcome
import UsageLedger.Proofs.TableLines
import UsageLedger.Proofs.Inquiries
import UsageLedger.Proofs.TomlIntegers
import UsageLedger.Proofs.TomlKeys
import UsageLedger.Proofs.TomlTables
import UsageLedger.Proofs.TomlGrammar
import UsageLedger.Proofs.ConfigForm
import UsageLedger.Proofs.BandClasses
import UsageLedger.Proofs.Telescoping
import UsageLedger.Proofs.MeasureLaws
