import Guillemot.Library.Loop
import Guillemot.Library.Steps
import Guillemot.Library.FixedFrames
import Guillemot.Library.NodeHeap
import Guillemot.Library.Windows
import Guillemot.Library.Splitting
import Guillemot.Library.Bindings
import Guillemot.Library.Keyed
import Guillemot.Library.Search
import Guillemot.Library.Raising
import Guillemot.Library.Covariance
import Guillemot.Library.Extraction
import Guillemot.Library.Truncation
import Guillemot.Library.Log
import Guillemot.Library.Dict
import Guillemot.Library.Lowest
import Guillemot.Library.Script
import Guillemot.Library.Fletcher
import Guillemot.Library.Binary32
import Guillemot.Library.Toward
import Guillemot.Library.StopAndWait
import Guillemot.Library.Watchdog
import Guillemot.Library.Outage
import Guillemot.Library.OnChange
import Guillemot.Library.Refresh
import Guillemot.Library.Conversion
import Guillemot.Library.Circle
import Guillemot.Library.Worklist
import Guillemot.Library.HeapOrder
import Guillemot.Library.Streak
import Guillemot.Library.Circular
import Guillemot.Library.Scanner
import Guillemot.Imu.BufferUtils
import Guillemot.Imu.BufferRoundTrips
import Guillemot.Imu.MipField
import Guillemot.Imu.DataFields
import Guillemot.Imu.MipFieldList
import Guillemot.Imu.MipFieldQueue
import Guillemot.Imu.FieldWalk
import Guillemot.Imu.Payload
import Guillemot.Imu.MipPacket
import Guillemot.Imu.ErrorDetection
import Guillemot.Imu.Receiver
import Guillemot.Imu.PacketHandling
import Guillemot.Imu.Framing
import Guillemot.Mip.RingBuffer
import Guillemot.Mip.RingBufferRuns
import Guillemot.Mip.Packet
import Guillemot.Mip.Interface
import Guillemot.Mip.Parsing
import Guillemot.Mip.Parser
import Guillemot.Mip.Delivery
import Guillemot.Mip.Command
import Guillemot.Mip.ImuWithLib
import Guillemot.Motor.Wire
import Guillemot.Motor.Firmware
import Guillemot.Motor.Resync
import Guillemot.Motor.Host
import Guillemot.Motor.HostFraming
import Guillemot.Motor.HostRuns
import Guillemot.Motor.History
import Guillemot.Motor.System
import Guillemot.Motor.Currents
import Guillemot.Motor.Slew
import Guillemot.Motor.Ramp
import Guillemot.Motor.Thrusters
import Guillemot.Motor.Safety
import Guillemot.Motor.HeartBeat
import Guillemot.Flood.Packet
import Guillemot.Flood.Buffer
import Guillemot.Flood.Main
import Guillemot.Flood.Outages
import Guillemot.Sensor.Line
import Guillemot.Sensor.Commands
import Guillemot.Sensor.Measurement
import Guillemot.Sensor.Topics
import Guillemot.Sensor.PortLock
import Guillemot.Sensor.SensorBoard
import Guillemot.Sensor.NanoBridge
import Guillemot.Sensor.DepthTranslator
import Guillemot.StateMachine.ClassFile
import Guillemot.StateMachine.Values
import Guillemot.StateMachine.Machine
import Guillemot.StateMachine.Loading
import Guillemot.StateMachine.TriggerFormat
import Guillemot.StateMachine.TimerFormat
import Guillemot.StateMachine.Transition
import Guillemot.StateMachine.Lifecycle
import Guillemot.StateMachine.Runs
import Guillemot.StateMachine.Stale
import Guillemot.StateMachine.Unknown
import Guillemot.Attitude.Kalman
import Guillemot.Attitude.Covariance
import Guillemot.Attitude.UnitQuaternion
import Guillemot.Attitude.Sampling
import Guillemot.Trees.Tree
import Guillemot.Trees.Training
import Guillemot.Trees.BestSplit
import Guillemot.Trees.SplitEntropy
import Guillemot.Trees.Loading
import Guillemot.Motion.HighLevelControl
import Guillemot.Motion.Controllers
import Guillemot.Motion.System
import Guillemot.Motion.DepthCommands
import Guillemot.Motion.Heading
import Guillemot.Motion.HeadingWrap
import Guillemot.Motion.DepthRuns
import Guillemot.Motion.Thrusters
import Guillemot.Tasks.BuoysTask
import Guillemot.Tasks.BuoysPlaces
import Guillemot.Tasks.BuoysSilence
import Guillemot.Tasks.PathTask
import Guillemot.Tasks.PathSelection
import Guillemot.Tasks.PathAlignment
import Guillemot.Tasks.TorpedoTask
import Guillemot.Tasks.QualifyTask
import Guillemot.Brain.NewPathTask
import Guillemot.Brain.NewPathCentring
import Guillemot.Brain.CenterOnBuoy
import Guillemot.Brain.NewPathSilence
import Guillemot.Brain.NewPathRestart
import Guillemot.Console.Joystick
import Guillemot.Console.Filter
import Guillemot.Roslite.Core
import Guillemot.Roslite.Value
import Guillemot.Roslite.Registrar
import Guillemot.Roslite.Atlas
import Guillemot.Roslite.Lookups
import Guillemot.Roslite.Naming
import Guillemot.Roslite.Discovery
import Guillemot.Roslite.Forwarding
import Guillemot.Motion.SpeedRange
import Guillemot.Motion.NavigationControl
import Guillemot.Motor.RosThumper
import Guillemot.Vision.FindBlob
import Guillemot.Vision.Components
import Guillemot.Vision.FindBlobs
import Guillemot.Vision.LargestBlobs
import Guillemot.Vision.TrackBlob
import Guillemot.Vision.Publication
import Guillemot.Sim.SimpleMixer
