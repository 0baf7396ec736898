import WarehouseRows.Avro.Reader
import WarehouseRows.Avro.Schema
import WarehouseRows.Calendar.Civil
import WarehouseRows.Calendar.Instant
import WarehouseRows.Calendar.LocalDate
import WarehouseRows.Calendar.LocalDateTime
import WarehouseRows.Calendar.LocalTime
import WarehouseRows.Command.Arguments
import WarehouseRows.Command.Basic
import WarehouseRows.Command.Run
import WarehouseRows.Converter.Journal
import WarehouseRows.Converter.Request
import WarehouseRows.Converter.Session
import WarehouseRows.Decimal
import WarehouseRows.Error.Conversion
import WarehouseRows.Error.Failure
import WarehouseRows.Error.Issue
import WarehouseRows.Fingerprint.Descriptor
import WarehouseRows.Fingerprint.Murmur3
import WarehouseRows.Fingerprint.SignedHash
import WarehouseRows.Json.Basic
import WarehouseRows.Json.Parent
import WarehouseRows.Json.Reader
import WarehouseRows.Json.Shape
import WarehouseRows.Json.Writer
import WarehouseRows.Log.Level
import WarehouseRows.Log.Logger
import WarehouseRows.Log.Redaction
import WarehouseRows.Log.RunId
import WarehouseRows.Main
import WarehouseRows.Members
import WarehouseRows.Number.Arithmetic
import WarehouseRows.Number.Double
import WarehouseRows.Number.Reading
import WarehouseRows.Number.Shortest
import WarehouseRows.Options
import WarehouseRows.Proofs.AcceptedDates
import WarehouseRows.Proofs.AddressPasswords
import WarehouseRows.Proofs.ArgumentOrder
import WarehouseRows.Proofs.AvroConformance
import WarehouseRows.Proofs.AvroTotality
import WarehouseRows.Proofs.Base64
import WarehouseRows.Proofs.CalendarRange
import WarehouseRows.Proofs.CalendarText
import WarehouseRows.Proofs.Civil
import WarehouseRows.Proofs.ColumnWalks
import WarehouseRows.Proofs.Columns
import WarehouseRows.Proofs.CommandOutcomes
import WarehouseRows.Proofs.CommandPipeline
import WarehouseRows.Proofs.CompactText
import WarehouseRows.Proofs.CompletedDocuments
import WarehouseRows.Proofs.CountedMoments
import WarehouseRows.Proofs.CutInstants
import WarehouseRows.Proofs.DateOrder
import WarehouseRows.Proofs.DateTexts
import WarehouseRows.Proofs.DayCounts
import WarehouseRows.Proofs.DecimalLiterals
import WarehouseRows.Proofs.DecimalReading
import WarehouseRows.Proofs.DecimalText
import WarehouseRows.Proofs.DecimalValue
import WarehouseRows.Proofs.DefaultTexts
import WarehouseRows.Proofs.Digits
import WarehouseRows.Proofs.Entries
import WarehouseRows.Proofs.EnvironmentAnswers
import WarehouseRows.Proofs.EpochSeconds
import WarehouseRows.Proofs.ExactIntegers
import WarehouseRows.Proofs.ExpandedDocuments
import WarehouseRows.Proofs.FailedTranslations
import WarehouseRows.Proofs.FailurePaths
import WarehouseRows.Proofs.FingerprintEdits
import WarehouseRows.Proofs.FingerprintSum
import WarehouseRows.Proofs.FixedInstants
import WarehouseRows.Proofs.FixedLayout
import WarehouseRows.Proofs.FloatText
import WarehouseRows.Proofs.GregorianDays
import WarehouseRows.Proofs.HashedBytes
import WarehouseRows.Proofs.InferredMaps
import WarehouseRows.Proofs.IntegerText
import WarehouseRows.Proofs.JournaledCalls
import WarehouseRows.Proofs.JsonText
import WarehouseRows.Proofs.KeptEntries
import WarehouseRows.Proofs.KeptItems
import WarehouseRows.Proofs.LeafFailures
import WarehouseRows.Proofs.ListedTables
import WarehouseRows.Proofs.LogLines
import WarehouseRows.Proofs.MadeDecimals
import WarehouseRows.Proofs.MaskedSecrets
import WarehouseRows.Proofs.Members
import WarehouseRows.Proofs.NativeForms
import WarehouseRows.Proofs.NativeRecords
import WarehouseRows.Proofs.NormalForm
import WarehouseRows.Proofs.NormalNumbers
import WarehouseRows.Proofs.NumberLiterals
import WarehouseRows.Proofs.NumberText
import WarehouseRows.Proofs.Outcome
import WarehouseRows.Proofs.Overflow
import WarehouseRows.Proofs.PassThroughCells
import WarehouseRows.Proofs.Placeholders
import WarehouseRows.Proofs.PlacelessFailures
import WarehouseRows.Proofs.Plain
import WarehouseRows.Proofs.PositionalCells
import WarehouseRows.Proofs.ReachedPlaces
import WarehouseRows.Proofs.ReaderSoundness
import WarehouseRows.Proofs.RecordNames
import WarehouseRows.Proofs.RepeatedKeys
import WarehouseRows.Proofs.Replacing
import WarehouseRows.Proofs.RoundTrip
import WarehouseRows.Proofs.Rounding
import WarehouseRows.Proofs.ScalarText
import WarehouseRows.Proofs.SchemaDocuments
import WarehouseRows.Proofs.SchemaGrammar
import WarehouseRows.Proofs.SchemaReading
import WarehouseRows.Proofs.SchemaText
import WarehouseRows.Proofs.SchemaWalks
import WarehouseRows.Proofs.SignedBytes
import WarehouseRows.Proofs.SignedHash
import WarehouseRows.Proofs.StableColumns
import WarehouseRows.Proofs.StandardHash
import WarehouseRows.Proofs.StructuralEquality
import WarehouseRows.Proofs.TableConformance
import WarehouseRows.Proofs.TableDocuments
import WarehouseRows.Proofs.TableGrammar
import WarehouseRows.Proofs.TableRows
import WarehouseRows.Proofs.TimeCounts
import WarehouseRows.Proofs.TimestampPolicy
import WarehouseRows.Proofs.TruthWords
import WarehouseRows.Proofs.Typing
import WarehouseRows.Proofs.UsableRows
import WarehouseRows.Proofs.UsableValues
import WarehouseRows.Proofs.Utf8Text
import WarehouseRows.Proofs.Whole
import WarehouseRows.Proofs.WholeDefaults
import WarehouseRows.Proofs.WidenedTypes
import WarehouseRows.Proofs.WrappedCells
import WarehouseRows.Proofs.WrappedItems
import WarehouseRows.Proofs.WrittenMoments
import WarehouseRows.Proofs.WrittenRows
import WarehouseRows.Proofs.WrittenScalars
import WarehouseRows.Row.CellText
import WarehouseRows.Row.Encode
import WarehouseRows.Row.Format
import WarehouseRows.Row.Parse
import WarehouseRows.Row.Scalar
import WarehouseRows.Row.Stage
import WarehouseRows.Schema.Basic
import WarehouseRows.Schema.Definition
import WarehouseRows.Schema.Describe
import WarehouseRows.Schema.Equality
import WarehouseRows.Settings.Document
import WarehouseRows.Settings.Environment
import WarehouseRows.Settings.File
import WarehouseRows.Table.Canonical
import WarehouseRows.Table.Column
import WarehouseRows.Table.Definition
import WarehouseRows.Table.Keyword
import WarehouseRows.Text.Base64
import WarehouseRows.Text.Blank
import WarehouseRows.Text.CaseTable
import WarehouseRows.Text.Digits
import WarehouseRows.Text.LetterCase
import WarehouseRows.Text.Placeholder
import WarehouseRows.Text.Replace
import WarehouseRows.Text.Units
import WarehouseRows.Text.Utf8
import WarehouseRows.Value.Archetype
import WarehouseRows.Value.Assembly
import WarehouseRows.Value.Assignment
import WarehouseRows.Value.Basic
import WarehouseRows.Value.Call
import WarehouseRows.Value.Entries
import WarehouseRows.Value.Making
import WarehouseRows.Value.Member
import WarehouseRows.Value.Operand
import WarehouseRows.Value.Parts
import WarehouseRows.Value.Record
import WarehouseRows.Value.Text
