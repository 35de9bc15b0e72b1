import TheFirmware.Lib.ByteMemory
import TheFirmware.Lib.Blocks
import TheFirmware.Lib.Ring
import TheFirmware.Lib.Cells
import TheFirmware.Lib.LittleEndian
import TheFirmware.Lib.Proc
import TheFirmware.Lib.CString
import TheFirmware.Lib.Lock
import TheFirmware.Runtime
import TheFirmware.Core.Malloc
import TheFirmware.Core.MallocList
import TheFirmware.Core.MallocRun
import TheFirmware.Core.List
import TheFirmware.Core.ListRun
import TheFirmware.Core.Thread
import TheFirmware.Core.Scheduler
import TheFirmware.Core.SchedulerRun
import TheFirmware.Core.RoundRobin
import TheFirmware.Core.Semaphore
import TheFirmware.Core.SemaphoreCount
import TheFirmware.Core.SemaphoreInterrupt
import TheFirmware.Core.Timer
import TheFirmware.Core.TimerQueue
import TheFirmware.Core.TimerRefinement
import TheFirmware.Core.TimerTick
import TheFirmware.Core.Delay
import TheFirmware.Core.DelayInvariant
import TheFirmware.Core.DelayRun
import TheFirmware.Core.DelayWakeup
import TheFirmware.Core.Punctual
import TheFirmware.Arch.PendSv
import TheFirmware.Arch.ContextSwitch
import TheFirmware.Lib.StableSort
import TheFirmware.Top.Init
import TheFirmware.Platform.CanSend
import TheFirmware.Platform.I2c
import TheFirmware.Platform.Uart
import TheFirmware.Device.Mcp24xx64
import TheFirmware.Config.Config
import TheFirmware.Config.Failure
import TheFirmware.CanNode.Frame
import TheFirmware.CanNode.Node
import TheFirmware.CanNode.Loop
import TheFirmware.Target.Buscontroller
import TheFirmware.Simulator.Mcu
import TheFirmware.Simulator.Registers
import TheFirmware.Simulator.Memory
import TheFirmware.Simulator.Instr16
import TheFirmware.Simulator.Step
import TheFirmware.Simulator.Atomic
import TheFirmware.Simulator.FailsClean
import TheFirmware.Simulator.Multiple
import TheFirmware.Simulator.Elf
import TheFirmware.Simulator.Gdb
import TheFirmware.Simulator.Download
import TheFirmware.Simulator.Receive
import TheFirmware.Core.TimerArm
import TheFirmware.Device.WriteRead
import TheFirmware.CanNode.Announce
import TheFirmware.CanNode.Network
import TheFirmware.CanNode.Quiet
import TheFirmware.Core.String
import TheFirmware.Console.Printf
import TheFirmware.Config.Command
import TheFirmware.Config.Resolve
import TheFirmware.Config.Reentry
import TheFirmware.Core.Readline
import TheFirmware.Core.LineEditing
import TheFirmware.Console.Console
import TheFirmware.Config.Crc
import TheFirmware.Vfs.GenFs
import TheFirmware.Vfs.Tree
import TheFirmware.Vfs.Generated
import TheFirmware.Vfs.Matches
import TheFirmware.Core.ListMemory
import TheFirmware.Sensor.Sensor
import TheFirmware.Sensor.Register
import TheFirmware.Arch.SysTick
import TheFirmware.Arch.SysTickProgress
import TheFirmware.Lib.AddWithCarry
import TheFirmware.Simulator.Flags
import TheFirmware.Simulator.AddSub
import TheFirmware.Simulator.Branch
import TheFirmware.Simulator.Shift
import TheFirmware.Simulator.Operands
import TheFirmware.Core.Memory
import TheFirmware.Console.PrintNumber
import TheFirmware.Core.Strtol
import TheFirmware.Simulator.Block
import TheFirmware.Simulator.Wide
import TheFirmware.Simulator.Special
import TheFirmware.Simulator.Call
import TheFirmware.Simulator.RegisterPackets
import TheFirmware.Simulator.ElfFile
import TheFirmware.Core.Compare
import TheFirmware.Console.FormatPointer
import TheFirmware.Console.Format
import TheFirmware.Core.Test
import TheFirmware.Lib.Receiver
import TheFirmware.Simulator.Debugger
import TheFirmware.Simulator.Session
import TheFirmware.Console.Shell
import TheFirmware.Simulator.Startup
import TheFirmware.Platform.I2cWire
import TheFirmware.Platform.I2cShared
import TheFirmware.Device.EepromWire
import TheFirmware.Vfs.Dump
import TheFirmware.Vfs.GenFsDump
