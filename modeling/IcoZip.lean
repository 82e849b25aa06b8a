import IcoZip.Arbitration.Arbiters
import IcoZip.Arbitration.Separation
import IcoZip.Busdelay.Delay
import IcoZip.Busdelay.Transparent
import IcoZip.Console.Receive
import IcoZip.Console.Registers
import IcoZip.Console.Transmit
import IcoZip.Crossbar.Grants
import IcoZip.Crossbar.Ports
import IcoZip.Crossbar.Routed
import IcoZip.Crossbar.Shared
import IcoZip.Crossbar.Wbxbar
import IcoZip.Debouncer.Debouncer
import IcoZip.Disassembly.Branches
import IcoZip.Disassembly.Decoded
import IcoZip.Disassembly.Formats
import IcoZip.Disassembly.Lookup
import IcoZip.Disassembly.Meaning
import IcoZip.Disassembly.Zopcodes
import IcoZip.Dma.Controller
import IcoZip.Dma.Copying
import IcoZip.Dma.Exact
import IcoZip.Dma.Transfer
import IcoZip.Fetch.Bench
import IcoZip.Fetch.Cached
import IcoZip.Fetch.Dblfetch
import IcoZip.Fetch.LineFill
import IcoZip.Fetch.Pfcache
import IcoZip.Fetch.Prefetch
import IcoZip.Fetch.SameStream
import IcoZip.Fetch.Stream
import IcoZip.Fifo.Ufifo
import IcoZip.Fifo.Wbufifo
import IcoZip.Flash.Arrays
import IcoZip.Flash.Contract
import IcoZip.Flash.Device
import IcoZip.Flash.Driver
import IcoZip.Flash.Flashsim
import IcoZip.Flash.Pages
import IcoZip.Flash.Received
import IcoZip.Flash.Refines
import IcoZip.Flash.Shows
import IcoZip.Flash.SpiNor
import IcoZip.Flash.Write
import IcoZip.Hexbus.Coherence
import IcoZip.Hexbus.Decode
import IcoZip.Hexbus.Erring
import IcoZip.Hexbus.Exec
import IcoZip.Hexbus.Faulty
import IcoZip.Hexbus.Host
import IcoZip.Hexbus.Interrupts
import IcoZip.Hexbus.Placement
import IcoZip.Hexbus.Reading
import IcoZip.Hexbus.Reception
import IcoZip.Hexbus.Recovery
import IcoZip.Hexbus.Respond
import IcoZip.Hexbus.Splitting
import IcoZip.Hexbus.Target
import IcoZip.Hexbus.Throwing
import IcoZip.Hexbus.Tokens
import IcoZip.Hexbus.Tops
import IcoZip.Interrupts.Board
import IcoZip.Interrupts.Icontrol
import IcoZip.Interrupts.Ziptimer
import IcoZip.Library.Block
import IcoZip.Library.Bytes
import IcoZip.Library.Calendar
import IcoZip.Library.Circular
import IcoZip.Library.Clocked
import IcoZip.Library.Counter
import IcoZip.Library.Elastic
import IcoZip.Library.Fields
import IcoZip.Library.Latch
import IcoZip.Library.LiftingScheme
import IcoZip.Library.Loop
import IcoZip.Library.Masked
import IcoZip.Library.Patterns
import IcoZip.Library.Pipelined
import IcoZip.Library.RunLength
import IcoZip.Library.Serial
import IcoZip.Library.ShiftAdd
import IcoZip.Library.ShiftRegister
import IcoZip.LoadStore.Accesses
import IcoZip.LoadStore.Agreement
import IcoZip.LoadStore.Memops
import IcoZip.LoadStore.Overlapped
import IcoZip.LoadStore.Pipelining
import IcoZip.LoadStore.Pipemem
import IcoZip.LoadStore.Singly
import IcoZip.LoadStore.Subword
import IcoZip.LoadStore.Transfers
import IcoZip.Loader.Image
import IcoZip.Loader.Loads
import IcoZip.Loader.Sections
import IcoZip.Loader.Zipload
import IcoZip.Port.Comms
import IcoZip.Port.Link
import IcoZip.Rtc.Rtcdate
import IcoZip.Sdram.Acks
import IcoZip.Sdram.Bench
import IcoZip.Sdram.Chip
import IcoZip.Sdram.Commands
import IcoZip.Sdram.Controller
import IcoZip.Sdram.Memory
import IcoZip.Sdram.Refresh
import IcoZip.Sdram.Simulator
import IcoZip.Sdram.Startup
import IcoZip.Spixpress.Controller
import IcoZip.Spixpress.Flash
import IcoZip.Spixpress.Reads
import IcoZip.Spixpress.UserMode
import IcoZip.Sram.Controller
import IcoZip.Sram.Memory
import IcoZip.Uart.Format
import IcoZip.Uart.Link
import IcoZip.Uart.Lite
import IcoZip.Uart.Rxuart
import IcoZip.Uart.Rxuartlite
import IcoZip.Uart.Txuart
import IcoZip.Uart.Txuartlite
import IcoZip.Wavelet.Bands
import IcoZip.Wavelet.Blocks
import IcoZip.Wavelet.Code
import IcoZip.Wavelet.Forward
import IcoZip.Wavelet.Machine
import IcoZip.Wavelet.RoundTrip
import IcoZip.Wavelet.Rows
import IcoZip.Wbscopc.Lossless
import IcoZip.Wbscopc.Readers
import IcoZip.Wbscopc.Recorder
import IcoZip.Wbscopc.Words
import IcoZip.Wbscope.Recorder
import IcoZip.Wbscope.Window
import IcoZip.Wbubus.Characters
import IcoZip.Wbubus.Commands
import IcoZip.Wbubus.Compress
import IcoZip.Wbubus.Decoding
import IcoZip.Wbubus.Exec
import IcoZip.Wbubus.Execution
import IcoZip.Wbubus.Indicators
import IcoZip.Wbubus.Input
import IcoZip.Wbubus.Lossless
import IcoZip.Zipcore.Arithmetic
import IcoZip.Zipcore.Bones
import IcoZip.Zipcore.Core
import IcoZip.Zipcore.Cpuops
import IcoZip.Zipcore.DebugPort
import IcoZip.Zipcore.Debugger
import IcoZip.Zipcore.Div
import IcoZip.Zipcore.Divide
import IcoZip.Zipcore.Halves
import IcoZip.Zipcore.Hazard
import IcoZip.Zipcore.Idecode
import IcoZip.Zipcore.Mpyop
import IcoZip.Zipcore.Multiply
import IcoZip.Zipcore.RegisterFile
import IcoZip.Zipcore.Rest
import IcoZip.Zipcore.Returns
import IcoZip.Zipcore.Slowmpy
import IcoZip.Zipcore.Stages
import IcoZip.Zipcore.Stepping
import IcoZip.Zipcore.Zipjiffies
import IcoZip.Zlib.Crt0
import IcoZip.Zlib.Syscalls
import IcoZip.Zlib.Udiv
