import Nloader.Library.Outcome
import Nloader.Library.Lz77
import Nloader.Library.TreePath
import Nloader.Library.PointerTree
import Nloader.Library.ParentTree
import Nloader.Library.PointerRing
import Nloader.Library.Trace
import Nloader.Library.X64
import Nloader.Splay
import Nloader.SplayTree
import Nloader.SplayTable
import Nloader.SplayDelete
import Nloader.SplayRuns
import Nloader.SplayParents
import Nloader.SplayParentRuns
import Nloader.Lznt1
import Nloader.Lznt1Tokens
import Nloader.Lznt1Safety
import Nloader.Lznt1Framing
import Nloader.Lznt1RoundTrip
import Nloader.Lznt1Concat
import Nloader.Loader
import Nloader.LoaderImage
import Nloader.LoaderReads
import Nloader.LoaderSections
import Nloader.LoaderImports
import Nloader.LoaderBinding
import Nloader.Stubs
import Nloader.StubsDispatch
import Nloader.StubsEntry
import Nloader.Library.Runs
import Nloader.Library.Threads
import Nloader.Library.Rounds
import Nloader.Events
import Nloader.Keyboard
import Nloader.KeyboardCalls
import Nloader.KeyboardThreads
import Nloader.KeyboardTaken
import Nloader.KeyboardRaces
import Nloader.Sync
import Nloader.SyncEvents
import Nloader.SyncLoops
import Nloader.SyncTimeouts
import Nloader.SyncPasses
import Nloader.SyncDeadlines
import Nloader.Open
import Nloader.Files
import Nloader.Parameters
import Nloader.CommandLine
import Nloader.Messages
import Nloader.MessageLoops
import Nloader.FormatMessage
import Nloader.Library.ByteMemory
import Nloader.Heap
import Nloader.Ioctl
import Nloader.Library.TreeContext
import Nloader.Library.AvlTree
import Nloader.Library.LinkedTree
import Nloader.Avl
import Nloader.AvlLinks
import Nloader.AvlWalks
import Nloader.AvlInsert
import Nloader.AvlDelete
import Nloader.AvlTable
import Nloader.AvlRuns
import Nloader.Library.Cursor
import Nloader.AvlEnumerate
import Nloader.Library.Scanner
import Nloader.FormatTokens
import Nloader.FormatArguments
import Nloader.Format
import Nloader.FormatScan
import Nloader.Library.ByteBlock
import Nloader.Acl
import Nloader.AclBuild
import Nloader.Library.Terminated
import Nloader.Conversions
import Nloader.WideStrings
import Nloader.WideStringsCase
import Nloader.CountedStrings
import Nloader.CountedEqual
import Nloader.CountedBuilders
import Nloader.Library.CPrintf
import Nloader.FormatPieces
import Nloader.FormatOutput
import Nloader.FormatRoom
import Nloader.Library.Buffered
import Nloader.DbgPrint
import Nloader.DbgConventions
import Nloader.FormatBuffers
import Nloader.WideStringsCopy
import Nloader.ConvertedStrings
import Nloader.Library.CStrto
import Nloader.WideNumbers
import Nloader.Time
import Nloader.VirtualMemory
import Nloader.Handles
import Nloader.Registry
import Nloader.RegistryAnswers
import Nloader.SetValueKey
import Nloader.HandleNames
import Nloader.Directory
import Nloader.Library.Crc
import Nloader.Crc64
import Nloader.Library.BitRuns
import Nloader.Bitmap
import Nloader.BitmapRanges
import Nloader.BitmapSearch
import Nloader.BitmapCount
import Nloader.BitmapRuns
import Nloader.BitmapSelect
import Nloader.SetDirty
import Nloader.SecurityDescriptor
import Nloader.AclAdd
import Nloader.Library.RootedTree
import Nloader.Library.BottomUp
import Nloader.SplayLinks
import Nloader.SplayLinksTurns
import Nloader.SplayLinksSwap
import Nloader.SplayLinksWalks
import Nloader.Library.SplayCost
import Nloader.SplayLinksDelete
import Nloader.SplayLinksRuns
import Nloader.SplayLinksCost
import Nloader.Library.Calendar
import Nloader.TimeFields
import Nloader.Random
import Nloader.Crc32
import Nloader.Library.I386
import Nloader.Aulldvrm
