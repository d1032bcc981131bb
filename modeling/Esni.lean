import Esni.Address
import Esni.Base64
import Esni.Blank
import Esni.Bytes
import Esni.Calendar
import Esni.CipherSuites
import Esni.Dump.Basic
import Esni.Dump.Command
import Esni.Dump.FileSystem
import Esni.Dump.Input
import Esni.Dump.Log
import Esni.Dump.Options
import Esni.Extension.AddressSet
import Esni.Extension.Basic
import Esni.Extension.Kinds
import Esni.Extension.List
import Esni.Extension.Registry
import Esni.Hex
import Esni.HexDump
import Esni.Identifier
import Esni.Items
import Esni.KeyShare
import Esni.Listing
import Esni.Main
import Esni.Record.Basic
import Esni.Record.Decode
import Esni.Record.Describe
import Esni.Record.Encode
import Esni.Sha256
import Esni.Sizes
import Esni.Timestamp
import Esni.TxtValue
import Esni.Update
import Esni.Proofs.AppendedData
import Esni.Proofs.ChecksumGate
import Esni.Proofs.CipherSuiteCodec
import Esni.Proofs.ConfinedReading
import Esni.Proofs.ConfinedSections
import Esni.Proofs.EncodeOutcome
import Esni.Proofs.ExtensionCodec
import Esni.Proofs.ExtensionKinds
import Esni.Proofs.IndexedLoop
import Esni.Proofs.IndexedReading
import Esni.Proofs.IndexedRecord
import Esni.Proofs.IndexedSections
import Esni.Proofs.KeyShareCodec
import Esni.Proofs.Numerals
import Esni.Proofs.Outcome
import Esni.Proofs.Readings
import Esni.Proofs.RecordSections
import Esni.Proofs.RecordWriting
import Esni.Proofs.RoundTrip
import Esni.Proofs.TimestampCodec
import Esni.Proofs.Truncation
import Esni.Proofs.Accounting
import Esni.Proofs.RegistryGrowth
import Esni.Proofs.NameGate
import Esni.Proofs.KeyShareOutcome
import Esni.Proofs.ExtensionBoundaries
import Esni.Proofs.KeyShareRuns
import Esni.Proofs.Base64Codec
import Esni.Proofs.DumpOutcome
import Esni.Proofs.CommandRuns
import Esni.Proofs.PublishedRecords
import Esni.Proofs.BufferWriting
import Esni.Proofs.KeyShareWriting
import Esni.Proofs.CipherSuiteOutcome
import Esni.Proofs.ExtensionListWriting
import Esni.Proofs.AddressSetOutcome
import Esni.Proofs.DistinctKeys
import Esni.Proofs.RegistryRuns
import Esni.Proofs.EqualityOnWire
import Esni.Proofs.QuotedValues
import Esni.Proofs.UnquotedValues
import Esni.Proofs.HexDumpLayout
import Esni.Proofs.LegibleListings
import Esni.Proofs.LosslessListings
