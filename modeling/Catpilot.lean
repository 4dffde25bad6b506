import Catpilot.RingBuf.Calls
import Catpilot.RingBuf.Wakeups
import Catpilot.Can.Dispatch
import Catpilot.Ublox.Chunks
import Catpilot.Ublox.Resync
import Catpilot.Cubeio.Settings
import Catpilot.Cubeio.Range
import Catpilot.Ms5611.Alignment
import Catpilot.Ms5611.Instances
import Catpilot.Icm.Pipeline
import Catpilot.Cli.InTurn
import Catpilot.Cli.Lines
import Catpilot.Cli.Dispatch
import Catpilot.Fatfs.Slots
import Catpilot.Fatfs.Modes
import Catpilot.Sensor.Startup
import Catpilot.Serial.Pumps
import Catpilot.Usart.Mutexes
import Catpilot.Sd.Locks
import Catpilot.Spi.Completion
import Catpilot.Usb.Receive
import Catpilot.Can.Drain
import Catpilot.Serial.Bridge
import Catpilot.Heap.Areas
import Catpilot.Zynq.Access
import Catpilot.Odrive.Gate
import Catpilot.Ms5611.Compensation
import Catpilot.Stdio.Seek
import Catpilot.Stdio.Items
import Catpilot.Vfs.Map
import Catpilot.Vfs.Shape
import Catpilot.Cubeio.Transfers
import Catpilot.Can.Read
import Catpilot.Cli.Arguments
import Catpilot.Cli.History
import Catpilot.Cli.Names
import Catpilot.Serial.Takeover
import Catpilot.Cubeio.Scaling
import Catpilot.Ms5611.Prom
import Catpilot.Icm.Configure
import Catpilot.Log.Bounds
import Catpilot.Log.Search
import Catpilot.Ctlst.Requests
import Catpilot.Ctlst.Ad7190
import Catpilot.Ctlst.SelfTest
import Catpilot.Zynq.Ranges
import Catpilot.Zynq.Periods
import Catpilot.Can.Table
import Catpilot.Fatfs.Chains
import Catpilot.Fatfs.Mount
import Catpilot.Fatfs.Share
import Catpilot.Posix.Barrier
import Catpilot.Posix.Semaphore
import Catpilot.Ublox.Overrun
