import RealBoy.Lib.ByteFile
import RealBoy.Lib.NullRows
import RealBoy.Lib.Sm83
import RealBoy.Lib.Runs
import RealBoy.Emu.State
import RealBoy.Emu.Bus
import RealBoy.Emu.Render
import RealBoy.Emu.Refresh
import RealBoy.Emu.Run
import RealBoy.Emu.Write
import RealBoy.Cpu.Handlers
import RealBoy.Cpu.Table
import RealBoy.Cpu.Exec
import RealBoy.Cpu.Decode
import RealBoy.Cpu.Cycles
import RealBoy.Ppu.Compose
import RealBoy.Ppu.Raster
import RealBoy.Ppu.Safety
import RealBoy.Lib.Stutter
import RealBoy.Ppu.Schedule
import RealBoy.Mem.Cartridge
import RealBoy.Ppu.ObjectIndex
import RealBoy.Cpu.Frame
import RealBoy.Lib.Prescaler
import RealBoy.Cpu.Timer
import RealBoy.Lib.Traces
import RealBoy.Server.Control
import RealBoy.Server.Protocol
import RealBoy.Server.Wakeup
import RealBoy.Server.Next
import RealBoy.Server.Flags
import RealBoy.Ppu.Status
import RealBoy.Ppu.Stat
import RealBoy.Lib.Ledger
import RealBoy.Ppu.Drift
import RealBoy.Lib.Contest
import RealBoy.Lib.Tiles
import RealBoy.Ppu.Priority
import RealBoy.Ppu.Picture
import RealBoy.Ppu.Painted
import RealBoy.Lib.Bounded
import RealBoy.Emu.Cells
import RealBoy.Lib.Latest
import RealBoy.Emu.Joypad
import RealBoy.Cpu.Alu
import RealBoy.Ppu.Frame
import RealBoy.Cpu.Clock
import RealBoy.Cpu.Stack
import RealBoy.Cpu.Interrupts
import RealBoy.Cpu.Peek
import RealBoy.Server.Breakpoints
import RealBoy.Lib.Blocks
import RealBoy.Server.Inspect
import RealBoy.Ppu.Bounds
import RealBoy.Lib.Copy
import RealBoy.Emu.Dma
import RealBoy.Mem.After
import RealBoy.Cpu.StoreSp
import RealBoy.Lib.Ripple
import RealBoy.Cpu.Multibyte
import RealBoy.Cpu.Decimal
import RealBoy.Lib.Shift
import RealBoy.Cpu.Regular
import RealBoy.Cpu.Shifts
import RealBoy.Cpu.Wide
import RealBoy.Server.FirstHit
import RealBoy.Lib.Drain
import RealBoy.Backends.Evdev
import RealBoy.Lib.Doubling
import RealBoy.Server.Traversal
import RealBoy.Cpu.TimerSafe
import RealBoy.Lib.Clear
import RealBoy.Cpu.FlagBits
import RealBoy.Ppu.IndexTable
import RealBoy.Lib.Machine
import RealBoy.Cpu.Refines
import RealBoy.Cpu.Simulation
import RealBoy.Lib.Logic
import RealBoy.Lib.Flat
import RealBoy.Cpu.Confined
import RealBoy.Cpu.Programs
import RealBoy.Emu.Loop
import RealBoy.Lib.Canvas
import RealBoy.Ppu.Panel
import RealBoy.Ppu.Shown
import RealBoy.Cpu.Requests
import RealBoy.Ppu.Beam
import RealBoy.Cpu.Halt
import RealBoy.Cpu.Sleep
import RealBoy.Server.Stopped
import RealBoy.Emu.Throttle
import RealBoy.Backends.Iopoll
