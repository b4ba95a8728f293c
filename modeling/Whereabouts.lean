import Whereabouts.Main
import Whereabouts.Once.Script
import Whereabouts.Once.Threads
import Whereabouts.Proofs.Once.ExactlyOnce
import Whereabouts.Proofs.Segments
import Whereabouts.Proofs.FileTree.Growth
import Whereabouts.Proofs.FileTree.Creation
import Whereabouts.Proofs.FileTree.Canonical
import Whereabouts.Proofs.PathText
import Whereabouts.Proofs.TempDir
import Whereabouts.Proofs.TempFile
import Whereabouts.Proofs.Session.Actions
import Whereabouts.Proofs.Session.Faithful
import Whereabouts.Proofs.Session.Lookups
import Whereabouts.Proofs.Session.TempFiles
import Whereabouts.Proofs.Session.Calls
import Whereabouts.Proofs.FileTree.Build
import Whereabouts.Proofs.Session.Validity
import Whereabouts.Proofs.Session.Caching
import Whereabouts.Proofs.Home
import Whereabouts.Proofs.UserDirs
import Whereabouts.Proofs.FileTree.Additions
import Whereabouts.Proofs.FileTree.Refusals
import Whereabouts.Proofs.Session.Outcomes
import Whereabouts.Proofs.Session.Turns
import Whereabouts.Proofs.Session.Directories
import Whereabouts.Proofs.Session.Making
import Whereabouts.Proofs.Session.Privacy
import Whereabouts.Proofs.Session.WorkingDirectory
import Whereabouts.Proofs.Environment
import Whereabouts.Proofs.Session.Peers
import Whereabouts.Proofs.Session.EmptyVariables
import Whereabouts.Proofs.Session.Table
import Whereabouts.Proofs.Session.FreshFiles
import Whereabouts.Proofs.Session.Frame
import Whereabouts.Proofs.Session.CacheLayout
import Whereabouts.Proofs.BuildVersions
import Whereabouts.Proofs.Console
import Whereabouts.Proofs.Session.BuildCaches
import Whereabouts.Proofs.Once.History
import Whereabouts.Proofs.Once.Accounting
import Whereabouts.Proofs.Session.Resolvers
import Whereabouts.Proofs.Session.TableCalls
import Whereabouts.Proofs.Session.Verbosity
import Whereabouts.Proofs.FileTree.Proper
import Whereabouts.Proofs.FileTree.Missing
import Whereabouts.Proofs.FileTree.Passing
import Whereabouts.Proofs.FileTree.Uncanonical
import Whereabouts.Proofs.Session.Ensuring
import Whereabouts.Proofs.Session.ProgramLookups
import Whereabouts.Proofs.Session.ProgramOutcomes
import Whereabouts.Proofs.Session.ProgramPath
import Whereabouts.Proofs.Session.ResourceSearch
import Whereabouts.Proofs.ModuleName
import Whereabouts.Proofs.SegmentShape
import Whereabouts.Proofs.Session.ResourceFallback
import Whereabouts.Proofs.Session.TempFileEnds
import Whereabouts.Proofs.Session.AllOrNothing
import Whereabouts.Proofs.Once.Clearing
import Whereabouts.Proofs.Once.Races
import Whereabouts.Proofs.Once.EqualArguments
import Whereabouts.Proofs.Session.DirectoryReasons
import Whereabouts.Proofs.Session.Overrides
import Whereabouts.Proofs.Session.SystemFlags
import Whereabouts.Proofs.OwnSegments
import Whereabouts.Proofs.Session.NormalPaths
