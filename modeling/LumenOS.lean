import LumenOS.AtaDisk
import LumenOS.AtaStore
import LumenOS.BackspaceJoin
import LumenOS.BlockRange
import LumenOS.ByteMemory
import LumenOS.ColourProvenance
import LumenOS.ConsoleModel
import LumenOS.CursorBounds
import LumenOS.CursorTearing
import LumenOS.DescendingStack
import LumenOS.DescriptorTables
import LumenOS.DirectoryTree
import LumenOS.EchoSchedule
import LumenOS.EndOfInterrupt
import LumenOS.Fat32Delivery
import LumenOS.Fat32Failures
import LumenOS.Fat32Geometry
import LumenOS.Fat32Layout
import LumenOS.Fat32Matches
import LumenOS.Fat32Model
import LumenOS.Fat32Navigation
import LumenOS.Fat32ReadBounds
import LumenOS.Fat32Records
import LumenOS.Fat32Rounds
import LumenOS.Fat32Search
import LumenOS.Fat32Slice
import LumenOS.Fat32Stale
import LumenOS.Fat32Stream
import LumenOS.Fat32Termination
import LumenOS.Fat32Trace
import LumenOS.Fat32Volume
import LumenOS.Fat32Wiring
import LumenOS.FieldWidth
import LumenOS.FileScripts
import LumenOS.FileTree
import LumenOS.FirstFit
import LumenOS.FormatReads
import LumenOS.HeapHistory
import LumenOS.HeapModel
import LumenOS.HeapPlacement
import LumenOS.HeapRequests
import LumenOS.IdleLoop
import LumenOS.InterruptControllers
import LumenOS.InterruptDelivery
import LumenOS.InterruptStub
import LumenOS.ItoaBuffer
import LumenOS.KernelBoot
import LumenOS.KernelLoop
import LumenOS.KeyboardModel
import LumenOS.KeyboardRing
import LumenOS.LineWrapping
import LumenOS.LufsAgreement
import LumenOS.LufsConfinement
import LumenOS.LufsLayout
import LumenOS.LufsModel
import LumenOS.LufsMount
import LumenOS.LufsNames
import LumenOS.LufsPaths
import LumenOS.LufsPlacement
import LumenOS.LufsReader
import LumenOS.LufsRepeat
import LumenOS.LufsRoundTrip
import LumenOS.LufsTotality
import LumenOS.LufsTraversal
import LumenOS.LufsWriter
import LumenOS.MemdiskStore
import LumenOS.ModuleLookup
import LumenOS.Numerals
import LumenOS.NumericDirectives
import LumenOS.OrbitCycle
import LumenOS.PrintLength
import LumenOS.PrintedText
import LumenOS.PrintfAgreement
import LumenOS.RecordTable
import LumenOS.ScreenWrites
import LumenOS.ScrollLines
import LumenOS.SectorLedger
import LumenOS.SerialLine
import LumenOS.ShiftTracking
import LumenOS.SilentEcho
import LumenOS.SprintfMemory
import LumenOS.StdioModel
import LumenOS.StepRuns
import LumenOS.StringCopies
import LumenOS.StringModel
import LumenOS.StringOrder
import LumenOS.StringSearch
import LumenOS.StringTokens
import LumenOS.TerminalRefinement
import LumenOS.TerminatedText
import LumenOS.Tiling
import LumenOS.TokenSplitting
import LumenOS.TypingUndo
import LumenOS.UartDevice
import LumenOS.Utf8
import LumenOS.VectorDispatch
import LumenOS.WriteHistory
