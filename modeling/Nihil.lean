import Nihil.Library.OrderedMap
import Nihil.Library.Trie
import Nihil.Library.Words
import Nihil.Library.Span
import Nihil.Core.Error
import Nihil.Cli.Command
import Nihil.Cli.CommandTree
import Nihil.Cli.CommandTreeInsert
import Nihil.Cli.CommandTreePaths
import Nihil.Cli.CommandTreeFind
import Nihil.Cli.CommandTreeRegistration
import Nihil.Cli.Registry
import Nihil.Cli.RegistryInvariant
import Nihil.Cli.RegistryBuild
import Nihil.Cli.DispatchCommand
import Nihil.Library.FileStore
import Nihil.Posix.WriteFile
import Nihil.Posix.ReadFile
import Nihil.Posix.FindInPath
import Nihil.Core.Ctype
import Nihil.Core.Integer
import Nihil.Core.ParseSize
import Nihil.Core.Flagset
import Nihil.Core.NextWord
import Nihil.Cli.ParseFlags
import Nihil.Cli.ParseFlagsScan
import Nihil.Cli.ParseFlagsNormalForm
import Nihil.Cli.ParseFlagsAccount
import Nihil.Cli.ParseFlagsInteger
import Nihil.Cli.OptionDecl
import Nihil.Cli.ParseFlagsPositionals
import Nihil.Cli.ParseFlagsOrder
import Nihil.Cli.ParseFlagsDefaults
import Nihil.Ucl.Object
import Nihil.Ucl.ObjectCast
import Nihil.Config.Store
import Nihil.Config.ReadWrite
import Nihil.Library.OutputIterator
import Nihil.Ucl.Emit
import Nihil.Ucl.Parser
import Nihil.Library.ColumnLayout
import Nihil.Core.Tabulate
import Nihil.Core.TabulateLayout
import Nihil.Library.OutputProgram
import Nihil.Core.TabulateOutput
import Nihil.Core.TableSpecGrammar
import Nihil.Library.DescriptorTable
import Nihil.Posix.Spawn
import Nihil.Posix.SpawnTargets
import Nihil.Library.Run
import Nihil.Library.Slots
import Nihil.Library.Scoped
import Nihil.Library.Custody
import Nihil.Posix.Fd
import Nihil.Posix.Process
import Nihil.Ucl.ObjectReferences
import Nihil.Ucl.MapPop
import Nihil.Ucl.String
import Nihil.Ucl.ArrayIterator
import Nihil.Ucl.ArrayIteratorBounds
import Nihil.Ucl.ArrayIteratorLaws
import Nihil.Library.BlockHash
import Nihil.Library.SecureHash
import Nihil.Core.Sha1
import Nihil.Library.Lexicographic
import Nihil.Core.Uuid
import Nihil.Core.UuidText
import Nihil.Library.Progress
import Nihil.Library.Pipe
import Nihil.Posix.SpawnCapture
import Nihil.Posix.SpawnProgress
import Nihil.Library.Heap
import Nihil.Library.CStrings
import Nihil.Core.Monad
import Nihil.Core.CaptureStream
import Nihil.Posix.WriteFileCoroutine
import Nihil.Posix.Tempfile
import Nihil.Posix.Progname
import Nihil.Posix.Argv
import Nihil.Posix.FdFlags
import Nihil.Posix.Getenv
import Nihil.Config.OptionLifetime
import Nihil.Config.OptionStore
import Nihil.Core.Generator
import Nihil.Core.GeneratorLoop
import Nihil.Cli.CommandTreeChildren
import Nihil.Cli.PosixUsage
