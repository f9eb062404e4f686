import Asnx.Library.Ownership
import Asnx.Library.Bits
import Asnx.Bionic.Arena
import Asnx.Library.Threads
import Asnx.Bionic.Ledger
import Asnx.Bionic.MmapSteps
import Asnx.Bionic.MmapInvariant
import Asnx.Bionic.MmapBookkeeping
import Asnx.Bionic.Reserve
import Asnx.Bionic.MunmapLive
import Asnx.Bionic.GuestThreads
import Asnx.Bionic.GuestThreadInvariant
import Asnx.Bionic.GuestThreadLife
import Asnx.Bionic.CreatorReads
import Asnx.Bionic.Mutexes
import Asnx.Bionic.MutexOwners
import Asnx.Bionic.MutexGuarantees
import Asnx.Library.Probing
import Asnx.Bionic.Futexes
import Asnx.Bionic.FutexQueues
import Asnx.Bionic.FutexWakes
import Asnx.FakeFd.Calls
import Asnx.FakeFd.Sections
import Asnx.FakeFd.Table
import Asnx.Library.Locking
import Asnx.FakeFd.Locking
import Asnx.FakeFd.Fifo
import Asnx.FakeFd.Failing
import Asnx.Library.Files
import Asnx.Installer.Paths
import Asnx.Installer.Zip
import Asnx.Installer.Extract
import Asnx.Installer.Visiting
import Asnx.Installer.Footprints
import Asnx.Installer.Extraction
import Asnx.Installer.Targets
import Asnx.Input.Pointer
import Asnx.Input.PointerGestures
import Asnx.Library.ByteMemory
import Asnx.Installer.Manifest
import Asnx.Installer.ManifestBounds
import Asnx.Loader.Elf
import Asnx.Loader.Relocate
import Asnx.Loader.Relocation
import Asnx.Library.Gestures
import Asnx.Library.Accesses
import Asnx.Loader.Load
import Asnx.Loader.Bounds
import Asnx.Audio.Streams
import Asnx.Library.Carry
import Asnx.Audio.Resampling
import Asnx.Bionic.WorldStop
import Asnx.Bionic.WorldStopRuns
import Asnx.Bionic.Semaphores
import Asnx.Bionic.SemaphoreTokens
import Asnx.Library.Searching
import Asnx.FileBridge.Translate
import Asnx.FileBridge.Aliases
import Asnx.FileBridge.Settling
import Asnx.FakeFd.Waiting
import Asnx.FakeFd.Messages
import Asnx.Audio.OutputThread
import Asnx.Audio.OneThread
import Asnx.Library.SlotTables
import Asnx.FileBridge.FdNotes
import Asnx.FileBridge.FdTables
import Asnx.FileBridge.FdRuns
import Asnx.Library.Unicode
import Asnx.Imports.WideStrings
import Asnx.Imports.WideRoundTrips
import Asnx.Jni.Objects
import Asnx.Jni.Strings
import Asnx.Jni.Calls
import Asnx.Jni.CallForms
import Asnx.FakeFd.Polling
import Asnx.FakeFd.Readiness
import Asnx.Library.Completion
import Asnx.Installer.Enumeration
import Asnx.Installer.EndRecords
import Asnx.Installer.Soundness
import Asnx.Installer.ValidEntries
import Asnx.Installer.Caches
import Asnx.Installer.Replacing
import Asnx.Bionic.FutexWakeCounts
import Asnx.Bionic.Timeouts
import Asnx.FileBridge.Fallback
import Asnx.Imports.Sendfile
import Asnx.FakeFd.SelectCounts
import Asnx.FakeFd.Courses
import Asnx.FakeFd.Vectored
import Asnx.FileBridge.PositionedReads
import Asnx.Bionic.FileMaps
import Asnx.Installer.ManifestStrings
import Asnx.Installer.Installing
import Asnx.Installer.ManifestTrust
import Asnx.Library.Calling
import Asnx.FileBridge.Operations
import Asnx.Library.Scattered
import Asnx.Bionic.ProcessVm
import Asnx.Imports.FcntlFlags
import Asnx.Ndk.Looper
import Asnx.Ndk.Choreographer
import Asnx.Library.Splitting
import Asnx.Imports.Fnmatch
import Asnx.Imports.WideContinuation
import Asnx.Runtime.Heap
import Asnx.Loader.RelrTables
import Asnx.Library.Sweeping
import Asnx.Loader.Finalize
import Asnx.Library.Blockwise
import Asnx.Textures.Blocks
import Asnx.Textures.Transcode
import Asnx.Library.Palettes
import Asnx.Textures.Palettes
import Asnx.Bionic.ArenaRuns
import Asnx.Bionic.FutexTable
import Asnx.Audio.BufferSizes
import Asnx.Library.Holding
import Asnx.Audio.DeviceOwner
import Asnx.Audio.OneOwner
import Asnx.FileBridge.Bouncing
import Asnx.Bionic.FutexExhaustion
import Asnx.Runtime.TraceAccounts
import Asnx.Installer.SplicedBundle
import Asnx.Installer.PatchSafety
import Asnx.Bionic.MemoryMaps
import Asnx.Jni.StringReads
import Asnx.Installer.Working
import Asnx.Installer.Noting
import Asnx.Installer.Removing
import Asnx.Installer.Patching
import Asnx.Installer.Marking
import Asnx.Library.Room
import Asnx.Installer.Copying
import Asnx.Installer.Planning
import Asnx.Installer.Spacing
import Asnx.Library.A64
import Asnx.Library.Overwriting
import Asnx.Bionic.Jumps
import Asnx.Runtime.GuestStack
import Asnx.Unity.Patches
import Asnx.Unity.Installing
import Asnx.Unity.Attempts
import Asnx.Unity.Replaced
import Asnx.Unity.Regions
import Asnx.Unity.Clock
import Asnx.Unity.ClockOrder
