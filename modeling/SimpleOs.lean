import SimpleOs.Lib.ByteMem
import SimpleOs.Lib.CString
import SimpleOs.Lib.Backed
import SimpleOs.Lib.Bitmap
import SimpleOs.Lib.Transition
import SimpleOs.Lib.Linked
import SimpleOs.Lib.Pursuit
import SimpleOs.Lib.RoundRobin
import SimpleOs.Lib.Ring
import SimpleOs.Lib.Latch
import SimpleOs.Lib.Fat12
import SimpleOs.Lib.RequestReply
import SimpleOs.Lib.Logged
import SimpleOs.Lib.Walk
import SimpleOs.Lib.LittleEndian
import SimpleOs.Lib.Scan
import SimpleOs.Lib.Held
import SimpleOs.Lib.Numeral
import SimpleOs.Lib.Overlay
import SimpleOs.Lib.Segments
import SimpleOs.Lib.Raster
import SimpleOs.Lib.WordSum
import SimpleOs.Lib.WordStack
import SimpleOs.Lib.Layout
import SimpleOs.Io.Stdio
import SimpleOs.Io.Screen
import SimpleOs.Io.Itoa
import SimpleOs.Io.Signed
import SimpleOs.Io.Format
import SimpleOs.Io.Printf
import SimpleOs.Kernel.Process
import SimpleOs.Kernel.Ipc
import SimpleOs.Kernel.Init
import SimpleOs.Kernel.Stacks
import SimpleOs.Kernel.Outcome
import SimpleOs.Kernel.Messages
import SimpleOs.Kernel.Queue
import SimpleOs.Kernel.Deadlock
import SimpleOs.Kernel.Invariant
import SimpleOs.Kernel.Progress
import SimpleOs.Kernel.Rendezvous
import SimpleOs.Kernel.IpcRuns
import SimpleOs.Kernel.Schedule
import SimpleOs.Kernel.Timer
import SimpleOs.Kernel.Interrupts
import SimpleOs.Kernel.IrqMask
import SimpleOs.Kernel.Delivery
import SimpleOs.Kernel.Server
import SimpleOs.Kernel.Vectors
import SimpleOs.Kernel.Nesting
import SimpleOs.Kernel.Paging
import SimpleOs.Kernel.Context
import SimpleOs.Kernel.Switch
import SimpleOs.Kernel.Reenter
import SimpleOs.Kernel.Preempt
import SimpleOs.Sys.Model
import SimpleOs.Sys.Protocol
import SimpleOs.Sys.Replies
import SimpleOs.Mm.Model
import SimpleOs.Mm.Outcome
import SimpleOs.Mm.Queues
import SimpleOs.Mm.IndexSafety
import SimpleOs.Mm.Alloc
import SimpleOs.Mm.Slots
import SimpleOs.Mm.Isolation
import SimpleOs.Mm.Identity
import SimpleOs.Mm.Descriptor
import SimpleOs.Mm.Names
import SimpleOs.Mm.Family
import SimpleOs.Mm.Sound
import SimpleOs.Mm.Duplicate
import SimpleOs.Mm.Translate
import SimpleOs.Mm.ExitIndex
import SimpleOs.Mm.Clients
import SimpleOs.Mm.Handshake
import SimpleOs.Mm.Exec
import SimpleOs.Mm.ForkReplies
import SimpleOs.Mm.Fork
import SimpleOs.Mm.Books
import SimpleOs.Mm.Ledger
import SimpleOs.Mm.Reaping
import SimpleOs.Mm.Wait
import SimpleOs.Fs.Model
import SimpleOs.Fs.Image
import SimpleOs.Fs.Lookup
import SimpleOs.Fs.Data
import SimpleOs.Fs.Elf
import SimpleOs.Fs.Load
import SimpleOs.Fs.Effects
import SimpleOs.Fs.Strings
import SimpleOs.Fs.Walk
import SimpleOs.Fs.Bss
import SimpleOs.Fs.NoTrace
import SimpleOs.Fs.OwnWrites
import SimpleOs.Fs.Genromfs
import SimpleOs.Fs.Placement
import SimpleOs.Fs.Dump
import SimpleOs.Fs.Written
import SimpleOs.Fs.ReadBack
import SimpleOs.Fs.RoundTrip
import SimpleOs.Fs.Packed
import SimpleOs.Mm.Blocks
import SimpleOs.Mm.RealMemory
import SimpleOs.Mm.Memtest
import SimpleOs.Mm.ForkFails
import SimpleOs.Tty.Print
import SimpleOs.Tty.Console
import SimpleOs.Tty.Terminal
import SimpleOs.Tty.VideoMemory
import SimpleOs.Tty.Window
import SimpleOs.Tty.Keyboard
import SimpleOs.Tty.Echo
import SimpleOs.Tty.KeyDisplay
import SimpleOs.Tty.Buffers
import SimpleOs.Tty.Switching
import SimpleOs.Tty.Decode
import SimpleOs.Tty.Selection
import SimpleOs.Vga.Draw
import SimpleOs.Vga.Picture
import SimpleOs.Tty.Graphic
import SimpleOs.Tty.Routing
import SimpleOs.Tty.PanicScreen
import SimpleOs.Loader.Model
import SimpleOs.Loader.Entry
import SimpleOs.Loader.Chain
import SimpleOs.Loader.Search
import SimpleOs.Loader.Names
import SimpleOs.Loader.Relocate
import SimpleOs.Loader.Boot
import SimpleOs.Loader.Ending
import SimpleOs.Loader.Failures
import SimpleOs.Loader.BootSector
