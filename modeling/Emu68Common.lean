import Emu68Common.Machinery.Memory
import Emu68Common.Machinery.Blit
import Emu68Common.M68k.Machine
import Emu68Common.M68k.Run
import Emu68Common.M68k.Reads
import Emu68Common.Memory.Memmove
import Emu68Common.Memory.MemmoveUp
import Emu68Common.Memory.MemmoveDown
import Emu68Common.Memory.MemmoveCorrect
import Emu68Common.Memory.Fill
import Emu68Common.Memory.Memcpy
import Emu68Common.Memory.Memset
import Emu68Common.Machinery.Compare
import Emu68Common.Memory.Memcmp
import Emu68Common.Bits.Field
import Emu68Common.Devtree.Tree
import Emu68Common.Devtree.Window
import Emu68Common.Machinery.History
import Emu68Common.Reset.Hooks
import Emu68Common.Reset.Quiet
import Emu68Common.Reset.Through
import Emu68Common.Machinery.Path
import Emu68Common.Reset.Install
import Emu68Common.Reset.Chain
import Emu68Common.Reset.Publish
import Emu68Common.Waitq.Queue
import Emu68Common.Waitq.Wakeup
import Emu68Common.Waitq.Return
import Emu68Common.Waitq.Progress
import Emu68Common.Machinery.Text
import Emu68Common.Text.Strings
import Emu68Common.Claim.Semaphore
import Emu68Common.Claim.Exclusion
import Emu68Common.Claim.Release
import Emu68Common.Timer.Device
import Emu68Common.Timer.Wait
import Emu68Common.Task.Worker
import Emu68Common.Task.Gone
import Emu68Common.Task.Join
import Emu68Common.Task.Fate
import Emu68Common.Task.Progress
import Emu68Common.Machinery.Lines
import Emu68Common.Prefs.Split
import Emu68Common.Prefs.File
import Emu68Common.Machinery.Guarded
import Emu68Common.Prefs.Guarded
import Emu68Common.Prefs.Number
import Emu68Common.Text.Compare
import Emu68Common.Prefs.Bool
import Emu68Common.Machinery.Search
import Emu68Common.Tools.CheckOurs
import Emu68Common.Text.Format
import Emu68Common.Text.Fmt
import Emu68Common.Text.Printf
import Emu68Common.Text.Echo
import Emu68Common.Text.Bounded
import Emu68Common.Machinery.Pattern
import Emu68Common.Perf.Report
import Emu68Common.Perf.Totals
import Emu68Common.Perf.Parse
import Emu68Common.Perf.ReadBack
import Emu68Common.Machinery.Dial
import Emu68Common.Perf.Wall
import Emu68Common.Isr.Check
import Emu68Common.Isr.Insn
import Emu68Common.Isr.Reading
import Emu68Common.Isr.Sound
import Emu68Common.Machinery.Words
import Emu68Common.Dma.Buffer
import Emu68Common.Slab.Cache
import Emu68Common.Slab.Layout
import Emu68Common.Slab.Objects
import Emu68Common.Slab.Sizing
import Emu68Common.Slab.Exec
import Emu68Common.Slab.Align
import Emu68Common.Dma.Exec
import Emu68Common.Dma.Pool
import Emu68Common.Dma.Arenas
import Emu68Common.Dma.Lists
import Emu68Common.Clock.Delay
import Emu68Common.Clock.Poll
import Emu68Common.Devtree.Cells
import Emu68Common.Devtree.Map
import Emu68Common.Machinery.Forest
import Emu68Common.Devtree.Lookup
import Emu68Common.Devtree.Interrupt
import Emu68Common.Devtree.Index
import Emu68Common.Devtree.Null
import Emu68Common.Dma.Scan
import Emu68Common.Dma.Discovery
import Emu68Common.Dma.Calls
import Emu68Common.Dma.Alloc
import Emu68Common.Text.Buffer
import Emu68Common.Text.Numbers
import Emu68Common.Dma.Blocks
import Emu68Common.Dma.Buffers
import Emu68Common.Dma.Lines
import Emu68Common.Dma.Balance
import Emu68Common.Machinery.Cached
import Emu68Common.Cache.Ops
import Emu68Common.Cache.Protocol
import Emu68Common.Cache.Coherent
import Emu68Common.Cache.Buffers
import Emu68Common.Machinery.Held
import Emu68Common.Timer.Lifecycle
import Emu68Common.Prefs.Session
import Emu68Common.Task.Spawn
import Emu68Common.Tools.Emu68Check
import Emu68Common.Tools.Memcheck
import Emu68Common.Perf.Histogram
import Emu68Common.Perf.LockProf
import Emu68Common.Machinery.Fields
import Emu68Common.Gpio.Pins
import Emu68Common.Isr.Map
import Emu68Common.Isr.Build
import Emu68Common.Devtree.Keys
