import Ane.ByteBuffer
import Ane.Driver
import Ane.Tile
import Ane.DriverSteps
import Ane.Mapping
import Ane.Isolation
import Ane.References
import Ane.Leftovers
import Ane.Concurrent
import Ane.ConcurrentFree
import Ane.ConcurrentSubmit
import Ane.Memory
import Ane.Posix
import Ane.PosixLedger
import Ane.Hwx
import Ane.HwxPread
import Ane.HwxFormat
import Ane.HwxCommands
import Ane.HwxOpen
import Ane.HwxReads
import Ane.HwxBounds
import Ane.HwxLedger
import Ane.HwxStates
import Ane.Libane
import Ane.LibaneBuffers
import Ane.LibaneInit
import Ane.Launch
import Ane.Window
import Ane.Power
import Ane.Probe
import Ane.TileLayout
import Ane.Disasm
import Ane.HwxCursor
import Ane.LibaneModel
import Ane.Bootstrap
import Ane.LibaneChannels
import Ane.Mmap
import Ane.Cells
import Ane.Bitfield
import Ane.BooleanBitfield
import Ane.SignedBitfield
import Ane.BinaryFloat
import Ane.F16
import Ane.F16Narrowing
import Ane.Sections
import Ane.EngineRuns
import Ane.ConcurrentEngine
import Ane.ConcurrentProgress
import Ane.Configuration
import Ane.ClientIsolation
import Ane.SharedView
import Ane.Records
import Ane.HwxImage
import Ane.HwxRoundTrip
import Ane.TileFront
import Ane.Transfers
import Ane.Printing
import Ane.TaskDescriptor
import Ane.TaskDump
import Ane.TaskFields
import Ane.Session
