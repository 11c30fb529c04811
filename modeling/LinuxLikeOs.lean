import LinuxLikeOs.Library.Trace
import LinuxLikeOs.Library.FillBuffer
import LinuxLikeOs.Library.Blocks
import LinuxLikeOs.Library.ParentStacks
import LinuxLikeOs.Library.Lines
import LinuxLikeOs.Library.Tape
import LinuxLikeOs.Library.Words
import LinuxLikeOs.Console
import LinuxLikeOs.ScreenLaws
import LinuxLikeOs.Terminal
import LinuxLikeOs.Consoles
import LinuxLikeOs.ConsoleCursor
import LinuxLikeOs.ConsoleLayout
import LinuxLikeOs.KernelOutput
import LinuxLikeOs.KeyPresses
import LinuxLikeOs.ModifierKeys
import LinuxLikeOs.LineInput
import LinuxLikeOs.KeyboardBounds
import LinuxLikeOs.LineOwnership
import LinuxLikeOs.LineReads
import LinuxLikeOs.TypedLine
import LinuxLikeOs.Backspace
import LinuxLikeOs.EchoErase
import LinuxLikeOs.Filesystem
import LinuxLikeOs.DirectoryNames
import LinuxLikeOs.FileContents
import LinuxLikeOs.ReadBounds
import LinuxLikeOs.Kernel
import LinuxLikeOs.SystemCall
import LinuxLikeOs.Scheduling
import LinuxLikeOs.Processes
import LinuxLikeOs.ProcessTree
import LinuxLikeOs.ProcessRuns
import LinuxLikeOs.Startup
import LinuxLikeOs.Executables
import LinuxLikeOs.ExecuteName
import LinuxLikeOs.VideoPage
import LinuxLikeOs.RunningContext
import LinuxLikeOs.DescriptorBounds
import LinuxLikeOs.DescriptorTable
import LinuxLikeOs.Devices
import LinuxLikeOs.VirtualRtc
import LinuxLikeOs.LateReads
import LinuxLikeOs.SharedRtc
import LinuxLikeOs.Agreement
import LinuxLikeOs.PidReuse
import LinuxLikeOs.DescriptorCalls
import LinuxLikeOs.SequentialRead
import LinuxLikeOs.DirectoryListing
import LinuxLikeOs.DirectoryRead
import LinuxLikeOs.CommandLine
import LinuxLikeOs.Arguments
import LinuxLikeOs.OpenExits
import LinuxLikeOs.FailedReads
import LinuxLikeOs.Paging
import LinuxLikeOs.AddressSpace
import LinuxLikeOs.Library.Refinement
import LinuxLikeOs.KernelConsole
import LinuxLikeOs.MemoryIsolation
import LinuxLikeOs.FairScheduling
import LinuxLikeOs.ProcessCalls
import LinuxLikeOs.NumberText
import LinuxLikeOs.FormattedOutput
import LinuxLikeOs.MemoryFunctions
import LinuxLikeOs.GrepProgram
import LinuxLikeOs.Library.Gates386
import LinuxLikeOs.SystemCallGate
import LinuxLikeOs.InterruptController
import LinuxLikeOs.InterruptTable
