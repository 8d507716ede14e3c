import RiscvDebug.Foundations.ClockedMachine
import RiscvDebug.Package
import RiscvDebug.DebugModule.DmCsrs
import RiscvDebug.DebugModule.AbstractCommandRom
import RiscvDebug.DebugModule.DebugRom
import RiscvDebug.DebugModule.DmMem
import RiscvDebug.DebugModule.DmSba
import RiscvDebug.DebugModule.DmTop
import RiscvDebug.DebugModule.DmCsrsUpdates
import RiscvDebug.DebugModule.DmTopCycles
import RiscvDebug.RunControl.CommandStart
import RiscvDebug.Foundations.Fifo
import RiscvDebug.DebugModule.DmiHandshake
import RiscvDebug.DebugModule.HartReads
import RiscvDebug.RunControl.ResumeRequests
import RiscvDebug.DebugModule.Inactive
import RiscvDebug.DebugModule.ResponseFifo
import RiscvDebug.SystemBus.BusCycles
import RiscvDebug.SystemBus.RequestStability
import RiscvDebug.Foundations.Temporal
import RiscvDebug.Hart.Instructions
import RiscvDebug.Hart.ParkLoop
import RiscvDebug.RunControl.CommandExecution
import RiscvDebug.DebugModule.HartWords
import RiscvDebug.Hart.AccessRegister
import RiscvDebug.Hart.RomCode
import RiscvDebug.DebugModule.BusyAnswers
import RiscvDebug.RunControl.CommandErrors
import RiscvDebug.RunControl.HartSelection
import RiscvDebug.SystemBus.WriteCompletions
import RiscvDebug.DebugModule.Deactivation
import RiscvDebug.RunControl.ResumeOnce
import RiscvDebug.Foundations.BoundedRun
import RiscvDebug.Hart.RomTransparency
import RiscvDebug.Jtag.DmiJtag
import RiscvDebug.Jtag.DroppedOperations
import RiscvDebug.Jtag.OtherScans
import RiscvDebug.Foundations.Transfers
import RiscvDebug.Jtag.DmiLink
import RiscvDebug.Jtag.ReadPairing
import RiscvDebug.Jtag.PairedOperations
import RiscvDebug.Foundations.ByteMemory
import RiscvDebug.SystemBus.BusLanes
import RiscvDebug.SystemBus.AccessPort
import RiscvDebug.SystemBus.HostAccesses
import RiscvDebug.SystemBus.BusMemory
import RiscvDebug.SystemBus.BlockTransfer
import RiscvDebug.SystemBus.AddressIncrements
import RiscvDebug.SystemBus.ErrorDiscipline
import RiscvDebug.DebugModule.DataLanes
import RiscvDebug.RunControl.ResetAcknowledgements
import RiscvDebug.Hart.CodeRuns
import RiscvDebug.Hart.ExceptionReturn
import RiscvDebug.Hart.ScratchWrites
import RiscvDebug.Hart.TrappedTransfers
import RiscvDebug.RunControl.TrappedCommands
import RiscvDebug.Hart.ProgramBuffer
import RiscvDebug.RunControl.CommandsWithoutTransfer
import RiscvDebug.Hart.ProgramBufferTraps
import RiscvDebug.RunControl.StartedCommands
import RiscvDebug.DebugModule.HaltSummaryExactness
import RiscvDebug.DebugModule.BusWidths
import RiscvDebug.RunControl.FlagBytes
import RiscvDebug.Jtag.LosslessScans
import RiscvDebug.Foundations.BitStreams
import RiscvDebug.DebugModule.DataRegisters
import RiscvDebug.Foundations.Hexadecimal
import RiscvDebug.Generator.GenRom
import RiscvDebug.Generator.GeneratedRoms
import RiscvDebug.Hart.ParkLoopRefinement
import RiscvDebug.Hart.DebugMode
import RiscvDebug.RunControl.StatusHistory
import RiscvDebug.DebugModule.DmObiTop
import RiscvDebug.Jtag.DriverPrograms
import RiscvDebug.RunControl.ResumeCompletion
