import FontCatalog.Catalog.Session
import FontCatalog.Loader.Scripted
import FontCatalog.Main
import FontCatalog.Proofs.HeldData
import FontCatalog.Proofs.RelatedLists
import FontCatalog.Proofs.WrittenData
import FontCatalog.Sfnt.Packing
import FontCatalog.Proofs.Collections
import FontCatalog.Proofs.TableSearch
import FontCatalog.Proofs.PackedMembers
import FontCatalog.Proofs.SearchNumbers
import FontCatalog.Proofs.NamedInstances
import FontCatalog.Proofs.SetOrder
import FontCatalog.Proofs.CanonicalNames
import FontCatalog.Proofs.SyntheticNames
import FontCatalog.Proofs.AssembledFonts
import FontCatalog.Proofs.SyntheticMetrics
import FontCatalog.Proofs.SyntheticFonts
import FontCatalog.Proofs.Conversations
import FontCatalog.Proofs.SessionRuns
import FontCatalog.Proofs.SingleBuild
import FontCatalog.Proofs.MemoryBuilds
import FontCatalog.Proofs.LoaderLedger
import FontCatalog.Proofs.FailedBuilds
import FontCatalog.Proofs.ReadableSets
import FontCatalog.Proofs.PackedFonts
import FontCatalog.Proofs.PlainFonts
import FontCatalog.Proofs.MemoryReports
import FontCatalog.Proofs.MemoryCommands
import FontCatalog.Proofs.SharedDeadline
import FontCatalog.Proofs.LongerTimeouts
import FontCatalog.Proofs.DrawnHeights
import FontCatalog.Proofs.PathSteps
import FontCatalog.Proofs.PlainPatterns
import FontCatalog.Proofs.PlainPaths
import FontCatalog.Proofs.FontDirectories
import FontCatalog.Proofs.SameFonts
import FontCatalog.Proofs.PackedContents
import FontCatalog.Proofs.BestMatches
import FontCatalog.Proofs.PropertyValues
import FontCatalog.Proofs.InstanceNames
import FontCatalog.Proofs.LanguageMaps
import FontCatalog.Proofs.ReusedKeys
import FontCatalog.Proofs.LineFields
import FontCatalog.Proofs.HeightBounds
import FontCatalog.Proofs.DetailLines
