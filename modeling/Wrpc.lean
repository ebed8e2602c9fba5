import Wrpc.Ertm14.UartLinkResync
import Wrpc.Ertm14.Libertm
import Wrpc.Tools.BootloaderBounds
import Wrpc.Dev.W1Eeprom
import Wrpc.Dev.SpiFlash
import Wrpc.Dev.ConsoleUart
import Wrpc.Storage.Format
import Wrpc.Dev.SfpMatch
import Wrpc.Pfilter.Rules
import Wrpc.Net.Latency
import Wrpc.Net.SnmpEcho
import Wrpc.Net.EventsPtp
import Wrpc.Net.SnmpScript
import Wrpc.SoftPll.FromPicos
import Wrpc.SoftPll.Alignment
import Wrpc.SoftPll.LockDetector
import Wrpc.SoftPll.PhaseTracker
import Wrpc.SoftPll.Resampling
import Wrpc.SoftPll.HelperError
import Wrpc.SoftPll.AuxLock
import Wrpc.SoftPll.AuxPhase
import Wrpc.SoftPll.PiController
import Wrpc.SoftPll.DebugQueue
import Wrpc.SoftPll.Monitor
import Wrpc.Dev.MinicBounds
import Wrpc.Dev.PpsGen
import Wrpc.Net.Demux
import Wrpc.Net.ReplyLeaks
import Wrpc.Net.NetconsoleInput
import Wrpc.Dev.DacLogPolls
import Wrpc.Util.Tasks
import Wrpc.Util.FormatTime
import Wrpc.Net.SnmpTemp
import Wrpc.Net.SnmpSet
import Wrpc.Net.SnmpSizes
import Wrpc.Dev.W1Scan
import Wrpc.Dev.AuxClk
import Wrpc.Dev.RxtsCalibrator
import Wrpc.Ertm14.DdsSync
import Wrpc.Ertm14.RfDistr
import Wrpc.Util.WithinRange
import Wrpc.Util.Usleep
import Wrpc.Util.Events
import Wrpc.Tools.LeapSeconds
import Wrpc.Tools.TimeText
import Wrpc.Dev.IuartDirect
