import EspCars.Isotp.Delivery
import EspCars.CanGateway.BusOff
import EspCars.CanGateway.Publication
import EspCars.CanGateway.Reporting
import EspCars.SdLogger.Retention
import EspCars.SdLogger.Stamps
import EspCars.SdLogger.Confirms
import EspCars.SdLogger.GapOnce
import EspCars.SdLogger.ClockFloor
import EspCars.SdLogger.CrashSafety
import EspCars.CanGateway.Observe
import EspCars.CanGateway.RxTaps
import EspCars.Isotp.ErrorReport
import EspCars.Isotp.HeldFlowControl
import EspCars.Isotp.HostReassembler
import EspCars.Portal.Invocation
import EspCars.Portal.Placement
import EspCars.Uds.SameField
import EspCars.Uds.Deadline
import EspCars.Uds.SameNumber
import EspCars.Uds.Agreement
import EspCars.Linbus.Echo
import EspCars.Ccp.Settled
import EspCars.Sdlog.LoadOnce
import EspCars.Sdlog.WrittenFile
import EspCars.Lib.Spool
import EspCars.SdLogger.Counters
import EspCars.CanGateway.E2e
import EspCars.Isotp.Reassembly
import EspCars.Isotp.Sending
import EspCars.Uds.OwnEcu
import EspCars.Portal.Unchanged
import EspCars.CanGateway.Compiled
import EspCars.CanGateway.Snapshot
import EspCars.CanGateway.SubscribedSet
import EspCars.CanGateway.Observation
import EspCars.CanGateway.EndToEnd
import EspCars.CanGateway.Promise
import EspCars.CanGateway.DecodeEntities
import EspCars.CanGateway.Station
import EspCars.CanGateway.StaleBytes
import EspCars.SdLogger.ClockLine
import EspCars.SdLogger.TapAccount
import EspCars.SdLogger.ShutdownLost
import EspCars.SdLogger.StreamLines
import EspCars.SdLogger.TailWindow
import EspCars.SdLogger.BootClock
import EspCars.CanGateway.KeyArray
import EspCars.SdLogger.OldestChunk
import EspCars.CanGateway.DeclaredBits
import EspCars.CanGateway.SharedByte
import EspCars.Uds.Fairness
import EspCars.Uds.Pace
import EspCars.Portal.Reasons
import EspCars.SdLogger.CleanBus
import EspCars.Portal.ChunkWriter
import EspCars.Uds.Promised
import EspCars.Uds.ReadsInside
import EspCars.Uds.ScaleRows
import EspCars.Uds.Expansion
import EspCars.Uds.Filing
import EspCars.Uds.LastAnswer
import EspCars.Portal.Accepts
import EspCars.CanGateway.Backoff
import EspCars.SdLogger.RecoveryPolicy
import EspCars.SdLogger.ChunkReply
import EspCars.Linbus.Discovered
import EspCars.Linbus.Rotation
import EspCars.SdLogger.FileIdent
import EspCars.SdLogger.TraceRing
import EspCars.SdLogger.RecordAccount
import EspCars.Portal.ProvenanceAge
import EspCars.Portal.Performed
import EspCars.Linbus.Corrupt
