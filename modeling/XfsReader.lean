import XfsReader.Config
import XfsReader.Text.Utf8
import XfsReader.Volume.Attributes
import XfsReader.Volume.FileOffset
import XfsReader.Volume.Lookup
import XfsReader.Volume.Preorder
import XfsReader.Proofs.Preorder
import XfsReader.Proofs.DataWindows
import XfsReader.Proofs.DirectoryScan
import XfsReader.Proofs.Lookup
import XfsReader.Proofs.BlockHeaders
import XfsReader.Proofs.ReadSites
import XfsReader.Proofs.TamperEvidence
import XfsReader.Proofs.Truncation
import XfsReader.Proofs.ErrorClasses
import XfsReader.Proofs.AttributePreorder
import XfsReader.Proofs.Encoding
import XfsReader.Proofs.ExtentRecord
import XfsReader.Proofs.MapBlocks
import XfsReader.Proofs.StoredMap
import XfsReader.Proofs.Translation
import XfsReader.Proofs.FileOffsets
import XfsReader.Proofs.BlockCertificates
import XfsReader.Proofs.RelaxedOptions
import XfsReader.Proofs.WorkLists
import XfsReader.Proofs.DecoderReach
import XfsReader.Proofs.ReadFootprint
import XfsReader.Proofs.MachineOperations
import XfsReader.Proofs.IndexPartition
import XfsReader.Proofs.DataBlockOrder
import XfsReader.Proofs.ScanRuns
import XfsReader.Proofs.RegionLayout
import XfsReader.Proofs.BlockAddresses
import XfsReader.Proofs.WalkedOrder
import XfsReader.Proofs.StreamOffsets
import XfsReader.Proofs.LookupVerdicts
import XfsReader.Proofs.BlockOrder
import XfsReader.Proofs.Seals
import XfsReader.Proofs.MapRecords
import XfsReader.Proofs.DirectoryBlocks
import XfsReader.Proofs.AttributeRecords
import XfsReader.Proofs.InlineDirectory
import XfsReader.Proofs.BlockTails
import XfsReader.Proofs.HashChunks
