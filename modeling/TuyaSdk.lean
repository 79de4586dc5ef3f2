import TuyaSdk.Airkiss.Bounds
import TuyaSdk.Airkiss.Decode
import TuyaSdk.Airkiss.Defs
import TuyaSdk.Airkiss.Window
import TuyaSdk.AppBk.RxCount
import TuyaSdk.BleApp.Advertising
import TuyaSdk.BleApp.Answers
import TuyaSdk.BleApp.Defs
import TuyaSdk.BleApp.Scanning
import TuyaSdk.DhcpServer.Ack
import TuyaSdk.DhcpServer.Cache
import TuyaSdk.DhcpServer.Defs
import TuyaSdk.DhcpServer.Given
import TuyaSdk.DhcpServer.Options
import TuyaSdk.DhcpServer.Received
import TuyaSdk.DhcpServer.Search
import TuyaSdk.DhcpServer.Verdict
import TuyaSdk.DmaRing.Defs
import TuyaSdk.DmaRing.Reading
import TuyaSdk.DmaRing.Writing
import TuyaSdk.DrvModel
import TuyaSdk.DrvModel.Lookup
import TuyaSdk.FakeSocket.Defs
import TuyaSdk.FakeSocket.Elements
import TuyaSdk.FakeSocket.Lists
import TuyaSdk.FakeSocket.Messages
import TuyaSdk.FakeSocket.Refine
import TuyaSdk.Flash.Commands
import TuyaSdk.Flash.Device
import TuyaSdk.Flash.Driver
import TuyaSdk.FlashStores.Defs
import TuyaSdk.FlashStores.FastConnect
import TuyaSdk.FlashStores.Separate
import TuyaSdk.I2c1.Defs
import TuyaSdk.I2c1.Runs
import TuyaSdk.I2c1.Transfer
import TuyaSdk.Intc
import TuyaSdk.Lib.Assoc
import TuyaSdk.Lib.Bytes
import TuyaSdk.Lib.Chain
import TuyaSdk.Lib.Digits
import TuyaSdk.Lib.DoubleLinks
import TuyaSdk.Lib.ExchangeSort
import TuyaSdk.Lib.Heap
import TuyaSdk.Lib.Interleave
import TuyaSdk.Lib.Loop
import TuyaSdk.Lib.Machine
import TuyaSdk.Lib.MinHeap
import TuyaSdk.Lib.Regions
import TuyaSdk.Lib.Ring
import TuyaSdk.Lib.Scaled
import TuyaSdk.Lib.Stacks
import TuyaSdk.Lib.Tlv
import TuyaSdk.Lib.Unwinding
import TuyaSdk.ManualCal.Defs
import TuyaSdk.ManualCal.Groups
import TuyaSdk.ManualCal.Runs
import TuyaSdk.ManualCal.Saves
import TuyaSdk.ManualCal.Store
import TuyaSdk.ManualCal.Update
import TuyaSdk.ManualCal.Values
import TuyaSdk.McuPs
import TuyaSdk.NetParam.Defs
import TuyaSdk.NetParam.KeyValue
import TuyaSdk.NetParam.Store
import TuyaSdk.NetParam.Table
import TuyaSdk.NetParam.Walk
import TuyaSdk.PowerSave.Defs
import TuyaSdk.PowerSave.Lock
import TuyaSdk.PowerSave.Runs
import TuyaSdk.Pwm.Channels
import TuyaSdk.Pwm.Defs
import TuyaSdk.Pwm.Fields
import TuyaSdk.Pwm.Independent
import TuyaSdk.Pwm.Pairs
import TuyaSdk.RingBuffer.Defs
import TuyaSdk.RingBuffer.Fifo
import TuyaSdk.RingBuffer.Interleaved
import TuyaSdk.RingBuffer.Sides
import TuyaSdk.RoleLaunch.Defs
import TuyaSdk.RoleLaunch.Runs
import TuyaSdk.RoleLaunch.Slots
import TuyaSdk.RwMsdu.Runs
import TuyaSdk.RwMsg.Calls
import TuyaSdk.RwMsg.Matching
import TuyaSdk.Saradc.Clients
import TuyaSdk.Saradc.Defs
import TuyaSdk.Saradc.Invariant
import TuyaSdk.Saradc.Sharing
import TuyaSdk.ScanResult.Country
import TuyaSdk.ScanResult.Defs
import TuyaSdk.ScanResult.Frame
import TuyaSdk.ScanResult.Messages
import TuyaSdk.ScanResult.Supplicant
import TuyaSdk.ScanResult.Table
import TuyaSdk.SktTx.Defs
import TuyaSdk.SktTx.Order
import TuyaSdk.SktTx.Steps
import TuyaSdk.SpiMaster.Defs
import TuyaSdk.SpiMaster.Runs
import TuyaSdk.SpiMaster.Transfers
import TuyaSdk.TklAdc.Defs
import TuyaSdk.TklAdc.Median
import TuyaSdk.TklAdc.Reading
import TuyaSdk.TklOta.Buffers
import TuyaSdk.TklOta.Confine
import TuyaSdk.TklOta.Defs
import TuyaSdk.TklOta.Effects
import TuyaSdk.TklOta.Image
import TuyaSdk.TklOta.PowerFail
import TuyaSdk.TklOta.Steps
import TuyaSdk.TklPwm.Calls
import TuyaSdk.TklPwm.Protocol
import TuyaSdk.TklWifi.Defs
import TuyaSdk.TklWifi.Rssi
import TuyaSdk.TklWifi.Stations
import TuyaSdk.TuyaHashmap.Defs
import TuyaSdk.TuyaHashmap.Refine
import TuyaSdk.TuyaHashmap.Traversal
import TuyaSdk.TuyaList
import TuyaSdk.TuyaMemHeap.Accounting
import TuyaSdk.TuyaMemHeap.Allocate
import TuyaSdk.TuyaMemHeap.Client
import TuyaSdk.TuyaMemHeap.Creation
import TuyaSdk.TuyaMemHeap.Deallocate
import TuyaSdk.TuyaMemHeap.Debug
import TuyaSdk.TuyaMemHeap.Defs
import TuyaSdk.TuyaMemHeap.Diagnose
import TuyaSdk.TuyaMemHeap.Fit
import TuyaSdk.TuyaMemHeap.HeapTable
import TuyaSdk.TuyaMemHeap.Heaps
import TuyaSdk.TuyaMemHeap.Invariant
import TuyaSdk.TuyaMemHeap.Isolation
import TuyaSdk.TuyaMemHeap.Layout
import TuyaSdk.TuyaMemHeap.Release
import TuyaSdk.TuyaMemHeap.Runs
import TuyaSdk.TuyaMemHeap.Search
import TuyaSdk.TuyaMemHeap.Sizes
import TuyaSdk.TuyaMemHeap.Steps
import TuyaSdk.TuyaQueue.Defs
import TuyaSdk.TuyaQueue.Refine
import TuyaSdk.TuyaRingbuf
import TuyaSdk.TuyaSmartpointer
import TuyaSdk.TuyaTools.Compare
import TuyaSdk.TuyaTools.Hex
import TuyaSdk.TuyaTools.Numbers
import TuyaSdk.UartBk
import TuyaSdk.Saradc.Table
import TuyaSdk.StationStatus
import TuyaSdk.FakeClock.Defs
import TuyaSdk.FakeClock.Count
import TuyaSdk.FakeClock.Debt
import TuyaSdk.HostapdIntf.Inactivity
import TuyaSdk.BkTimer
import TuyaSdk.ManualCal.Txpwr
import TuyaSdk.ManualCal.TmpPwr
import TuyaSdk.Airkiss.Channels
import TuyaSdk.Flash.Protect
import TuyaSdk.Flash.Adapter
import TuyaSdk.TuyaSlist
import TuyaSdk.SpiSlave
import TuyaSdk.Pwm.Windows
import TuyaSdk.BleApp.AdvData
import TuyaSdk.Gpio.Defs
import TuyaSdk.Gpio.Pins
import TuyaSdk.Cli.Defs
import TuyaSdk.Cli.Input
import TuyaSdk.Cli.Args
import TuyaSdk.Cli.Tokens
import TuyaSdk.Cli.Commands
import TuyaSdk.ManualCal.Loads
import TuyaSdk.Lib.Handles
import TuyaSdk.ManualCal.Handles
import TuyaSdk.TuyaHlist
import TuyaSdk.Lib.BubbleSort
import TuyaSdk.TuyaTools.Sort
import TuyaSdk.ManualCal.Area.Calls
