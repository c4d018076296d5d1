import Gracemont.Lib.Links
import Gracemont.Kernel.Scheduler
import Gracemont.Kernel.ReadyList
import Gracemont.Kernel.SchedulerInv
import Gracemont.Lib.Loop
import Gracemont.Lib.Tiling
import Gracemont.Kernel.Heap
import Gracemont.Kernel.HeapBlocks
import Gracemont.Kernel.HeapInv
import Gracemont.Kernel.Sync
import Gracemont.Kernel.SemInv
import Gracemont.Kernel.MsgqInv
import Gracemont.Kernel.MutexInv
import Gracemont.Kernel.DmaAlloc
import Gracemont.Kernel.DmaInv
import Gracemont.Kernel.DmaSafety
import Gracemont.Kernel.EventInv
import Gracemont.Kernel.System
import Gracemont.Lib.ByteMem
import Gracemont.Lib.Path
import Gracemont.Kernel.Timer
import Gracemont.Net.Zbuf
import Gracemont.Net.ZbufInv
import Gracemont.Protocols.Modbus
import Gracemont.Protocols.ModbusRead
import Gracemont.Protocols.ModbusNoninterference
import Gracemont.Kernel.TimerInv
import Gracemont.Kernel.SchedLock
import Gracemont.Kernel.SchedLockInv
import Gracemont.Kernel.ContextSwitch
import Gracemont.Kernel.FirstSwitch
import Gracemont.Kernel.PriorityInv
import Gracemont.Protocols.Profinet
import Gracemont.Protocols.ProfinetAlarm
import Gracemont.Protocols.ProfinetBounds
import Gracemont.Protocols.ProfinetConfig
import Gracemont.Protocols.ProfinetIdentify
import Gracemont.Protocols.ProfinetInput
import Gracemont.Protocols.ProfinetPoll
import Gracemont.Protocols.ProfinetSend
import Gracemont.Kernel.BoostInv
import Gracemont.Kernel.StrictPriority
import Gracemont.Protocols.ModbusWrite
import Gracemont.Lib.OnesComplement
import Gracemont.Net.Checksum
import Gracemont.Net.ZbufQueue
import Gracemont.Net.NetStack
import Gracemont.Net.Socket
import Gracemont.Net.NetInput
import Gracemont.Net.Transmit
import Gracemont.Lib.Ledger
import Gracemont.Net.Ownership
import Gracemont.Net.TxOwnership
import Gracemont.Net.TcpChecksum
import Gracemont.Net.TcpConn
import Gracemont.Net.TcpRun
import Gracemont.Net.TcpDelivery
import Gracemont.Net.TcpFin
import Gracemont.Net.TcpIsolation
import Gracemont.Net.TcpWindow
import Gracemont.Net.SocketRun
import Gracemont.Net.SocketTable
import Gracemont.Net.SocketLists
import Gracemont.Lib.Scan
import Gracemont.Protocols.Opcua
import Gracemont.Protocols.OpcuaServer
import Gracemont.Protocols.OpcuaCodec
import Gracemont.Lib.Forest
import Gracemont.Protocols.OpcuaNodes
import Gracemont.Protocols.OpcuaRequest
import Gracemont.Protocols.OpcuaWriteFrame
import Gracemont.Protocols.OpcuaBounds
import Gracemont.Protocols.OpcuaResponse
import Gracemont.Protocols.OpcuaRun
import Gracemont.Protocols.OpcuaSession
import Gracemont.Protocols.OpcuaPersistence
import Gracemont.Protocols.OpcuaFraming
import Gracemont.Protocols.ModbusClient
import Gracemont.Protocols.ModbusRequests
import Gracemont.Protocols.ModbusResponse
import Gracemont.Protocols.ModbusRemote
import Gracemont.Lib.Window
import Gracemont.Net.ZbufWindow
import Gracemont.Net.ZbufLayout
import Gracemont.Lib.Fifo
import Gracemont.Net.ZbufFifo
import Gracemont.Net.SocketStream
import Gracemont.Net.TcpOpening
import Gracemont.Net.SocketAccept
import Gracemont.Protocols.ModbusTcp
import Gracemont.Net.SocketConnect
import Gracemont.Net.KeptField
import Gracemont.Net.TcpTimer
import Gracemont.Lib.Assoc
import Gracemont.Net.ArpCache
import Gracemont.Lib.Cursor
import Gracemont.Protocols.ProfinetDcp
import Gracemont.Protocols.ProfinetExchange
import Gracemont.Protocols.ProfinetSettings
import Gracemont.Net.EthFrame
import Gracemont.Protocols.DriverFrames
import Gracemont.Lib.Crc
import Gracemont.Protocols.ModbusCrc
import Gracemont.Lib.Dialogue
import Gracemont.Devtools.FlashProtocol
import Gracemont.Devtools.FlashPacket
import Gracemont.Devtools.Flasher
import Gracemont.Devtools.FlashReassembly
import Gracemont.Devtools.FlashMatching
import Gracemont.Lib.FreeList
import Gracemont.Kernel.Mempool
import Gracemont.Kernel.MsgqWake
import Gracemont.Lib.Roster
import Gracemont.Lib.SlotRing
import Gracemont.Drivers.Uart
import Gracemont.Lib.IndexRing
import Gracemont.Drivers.Virtqueue
import Gracemont.Drivers.Eth
import Gracemont.Kernel.X86System
import Gracemont.Kernel.WaitLists
import Gracemont.Kernel.ListExclusive
import Gracemont.Lib.Positions
import Gracemont.Devtools.FbdEditor
import Gracemont.Lib.Extents
import Gracemont.Devtools.HexFile
import Gracemont.Devtools.HexSegments
import Gracemont.Net.InetChecksum
import Gracemont.Net.TcpAcceptance
import Gracemont.Net.IpDelivery
import Gracemont.Net.SendAtomic
import Gracemont.Net.SendLength
import Gracemont.Net.SentFrames
import Gracemont.Net.UdpFrame
import Gracemont.Net.UdpNetwork
import Gracemont.Net.Answers
import Gracemont.Drivers.EthRx
import Gracemont.Kernel.Handoff
import Gracemont.Kernel.TimerDue
import Gracemont.Kernel.IsrStub
import Gracemont.Kernel.LostTasks
import Gracemont.Kernel.SystemInv
import Gracemont.Kernel.SystemStep
import Gracemont.Kernel.SleepTime
import Gracemont.Kernel.RoundRobin
import Gracemont.Kernel.TimerHandler
import Gracemont.Kernel.HeapFit
import Gracemont.Kernel.MempoolRegion
import Gracemont.Lib.Nearest
import Gracemont.Drivers.UartBaud
import Gracemont.Kernel.BootInfo
import Gracemont.Kernel.PageTables
import Gracemont.Lib.Rounding
import Gracemont.Devtools.WriteBlock
import Gracemont.Devtools.ElfFile
import Gracemont.Lib.Stuffing
import Gracemont.Devtools.Serial
import Gracemont.Devtools.NodeId
