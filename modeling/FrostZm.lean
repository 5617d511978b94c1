import FrostZm.Ceremony.Schedules
import FrostZm.Ceremony.Resharing
import FrostZm.Ceremony.Signatures
import FrostZm.Frozt.KeyShare
import FrostZm.Frozt.Sessions
import FrostZm.Ceremony.Transcript
import FrostZm.Frozt.Tx
import FrostZm.Lib.Worth
import FrostZm.Frozt.TxBalance
import FrostZm.Frozt.ShieldingTx
import FrostZm.Frozt.ShieldingBalance
import FrostZm.Fromt.KeyShare
import FrostZm.Session.Setup
import FrostZm.Fromt.Signers
import FrostZm.Fromt.KeyImage
import FrostZm.Frost.ReferenceKeys
import FrostZm.Fromt.Reference
import FrostZm.Fromt.KeyImages
import FrostZm.Lib.FieldTerms
import FrostZm.Fromt.Ckd
import FrostZm.Fromt.ChildKeys
import FrostZm.Ceremony.Exchange
import FrostZm.Fromt.Dkg
import FrostZm.Ceremony.Importing
import FrostZm.Fromt.KeyImport
import FrostZm.Fromt.KeyImports
import FrostZm.Fromt.Reshare
import FrostZm.Fromt.ViewKeys
import FrostZm.Frozt.Metadata
import FrostZm.Ceremony.ReferenceDeal
import FrostZm.Frozt.Reference
import FrostZm.Ceremony.ReshareSession
import FrostZm.Frozt.Reshare
import FrostZm.Fromt.Resharings
import FrostZm.Ffi.Handle
import FrostZm.Ffi.SignCalls
import FrostZm.Ffi.Blame
import FrostZm.Client.Relay
import FrostZm.Client.Blame
import FrostZm.Client.SpentMarks
import FrostZm.Frozt.Notes
import FrostZm.Frozt.Complete
import FrostZm.Lib.Handover
import FrostZm.Frozt.WasmTx
import FrostZm.Frozt.Signed
import FrostZm.Frozt.Zip244
import FrostZm.Frozt.Sighash
import FrostZm.Lib.Readers
import FrostZm.Frozt.TxBytes
import FrostZm.Client.Witness
import FrostZm.Client.Prepare
import FrostZm.Client.CompactBlocks
import FrostZm.Client.RawTx
import FrostZm.Client.Scan
import FrostZm.Client.Unspent
import FrostZm.Client.ScanExact
import FrostZm.Ffi.Linear
import FrostZm.Lib.Queues
import FrostZm.Session.Driver
import FrostZm.Ffi.SessionCalls
import FrostZm.Session.SetupCodec
import FrostZm.Session.RoundTrip
import FrostZm.Frozt.Bundles
import FrostZm.Client.Parser
import FrostZm.Client.Numbering
import FrostZm.Lib.Firsts
import FrostZm.Client.Collect
import FrostZm.Lib.Polling
import FrostZm.Client.Runner
import FrostZm.Client.Fifo
import FrostZm.Ffi.SignPackages
import FrostZm.Client.Signing
import FrostZm.Client.SignRuns
import FrostZm.Client.SignLaws
import FrostZm.Lib.Selection
import FrostZm.Client.NoteSelection
import FrostZm.Client.Fees
import FrostZm.Fromt.Spend
import FrostZm.Ffi.MapCodec
import FrostZm.Client.Receivers
import FrostZm.Client.PartyOrder
import FrostZm.Ffi.Identifiers
import FrostZm.Fromt.SignerLists
import FrostZm.Lib.Crashes
import FrostZm.Session.SetupWords
import FrostZm.Fromt.UntrustedBytes
import FrostZm.Ceremony.Openings
import FrostZm.Fromt.Sessions
import FrostZm.Ceremony.Contributions
import FrostZm.Frozt.ImportRuns
import FrostZm.Fromt.ImportRuns
import FrostZm.Fromt.ViewKeyRuns
import FrostZm.Fromt.Rings
import FrostZm.Fromt.SpendCodec
import FrostZm.Lib.Scripts
import FrostZm.Frozt.ShieldingBytes
import FrostZm.Client.Readers
import FrostZm.Frozt.Trees
import FrostZm.Frozt.ReferenceTrees
import FrostZm.Frozt.TreeReaders
import FrostZm.Frozt.TreeCalls
import FrostZm.Client.Vault
import FrostZm.Fromt.Address
import FrostZm.Lib.Primality
import FrostZm.Fromt.Ed25519
import FrostZm.Fromt.Seeds
import FrostZm.Ceremony.Quorums
import FrostZm.Ceremony.Agreement
import FrostZm.Ceremony.Writes
import FrostZm.Frozt.MetadataRuns
import FrostZm.Fromt.Thresholds
import FrostZm.Lib.Simulations
import FrostZm.Client.Refinement
import FrostZm.Session.Progress
import FrostZm.Ceremony.Completion
import FrostZm.Client.Ceremonies
import FrostZm.Ceremony.Recipients
import FrostZm.Lib.Posting
import FrostZm.Client.Exchanges
import FrostZm.Client.KeyImport
import FrostZm.Client.KeyImportRuns
import FrostZm.Client.KeyImportLaws
import FrostZm.Client.HonestImports
