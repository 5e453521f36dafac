import MeasureInference.Catalog.Basic
import MeasureInference.Catalog.Session
import MeasureInference.Host
import MeasureInference.Inspection
import MeasureInference.Registry.Session
import MeasureInference.Usage.Session
import MeasureInference.Proofs.Catalog.Identities
import MeasureInference.Proofs.Column
import MeasureInference.Proofs.Growth
import MeasureInference.Proofs.Host.Faults
import MeasureInference.Proofs.Host.Resolution
import MeasureInference.Proofs.LevelResolution
import MeasureInference.Proofs.Looks
import MeasureInference.Proofs.Narrowing
import MeasureInference.Proofs.Registry.Agreement
import MeasureInference.Proofs.Registry.Batch
import MeasureInference.Proofs.Registry.History
import MeasureInference.Proofs.Registry.Journal
import MeasureInference.Proofs.Registry.Repetition
import MeasureInference.Proofs.Registry.TableReading
import MeasureInference.Proofs.Selection
import MeasureInference.Proofs.Spellings
import MeasureInference.Proofs.StoredRecords
import MeasureInference.Proofs.Summary
import MeasureInference.Proofs.Usage.History
import MeasureInference.Proofs.Usage.Agreement
import MeasureInference.Proofs.LevelCodes
import MeasureInference.Proofs.Registry.Traces
import MeasureInference.Proofs.Json.Content
import MeasureInference.Proofs.Json.Decimals
import MeasureInference.Proofs.StoredCells
import MeasureInference.Proofs.Scan
import MeasureInference.Proofs.StoredDecimals
