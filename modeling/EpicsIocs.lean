import EpicsIocs.Lib.Steps
import EpicsIocs.Lib.Bytes
import EpicsIocs.Lib.Packing
import EpicsIocs.Lib.Machine
import EpicsIocs.Lib.Fallible
import EpicsIocs.Lib.Framing
import EpicsIocs.Lib.Bits
import EpicsIocs.Lib.Scatter
import EpicsIocs.Lib.Cbor
import EpicsIocs.Lib.Ieee
import EpicsIocs.Lib.Faults
import EpicsIocs.Lib.Blocks
import EpicsIocs.EtherIp.Cip
import EpicsIocs.EtherIp.Driver
import EpicsIocs.EtherIp.MultiRequest
import EpicsIocs.EtherIp.ScanList
import EpicsIocs.EtherIp.Handshake
import EpicsIocs.TwinCat.Frame
import EpicsIocs.TwinCat.SumUp
import EpicsIocs.TwinCat.Client
import EpicsIocs.OpcUa.Queue
import EpicsIocs.OpcUa.Item
import EpicsIocs.OpcUa.Device
import EpicsIocs.OpcUa.Wake
import EpicsIocs.OpcUa.Session
import EpicsIocs.OpcUa.ConnectionLoss
import EpicsIocs.TwinCat.Shared
import EpicsIocs.TwinCat.Bulk
import EpicsIocs.TwinCat.Publish
import EpicsIocs.TwinCat.Refresh
import EpicsIocs.TwinCat.RefreshInvariant
import EpicsIocs.TwinCat.HandleFreshness
import EpicsIocs.TimePix.Worker
import EpicsIocs.TimePix.Window
import EpicsIocs.TimePix.Accumulate
import EpicsIocs.TimePix.FrameBuffer
import EpicsIocs.TimePix.Stream
import EpicsIocs.TimePix.ChunkInvariance
import EpicsIocs.UrRobot.Rtde
import EpicsIocs.UrRobot.Receive
import EpicsIocs.UrRobot.Control
import EpicsIocs.Eiger.Bitshuffle
import EpicsIocs.Eiger.Bslz4
import EpicsIocs.Eiger.Reader
import EpicsIocs.Eiger.Stream2
import EpicsIocs.Eiger.Progress
import EpicsIocs.Eiger.RoundTrip
import EpicsIocs.Eiger.Checked
import EpicsIocs.Eiger.Frame
import EpicsIocs.Eiger.Geometry
import EpicsIocs.Pixirad.Assembler
import EpicsIocs.Mca.FastSweep
import EpicsIocs.AcsMotion.BinComm
import EpicsIocs.AcsMotion.PutSlices
import EpicsIocs.Pmac.Ethernet
import EpicsIocs.AcsMotion.ProfileRun
import EpicsIocs.AcsMotion.ProfileBuild
import EpicsIocs.QuadEm.Ring
import EpicsIocs.QuadEm.Counted
import EpicsIocs.QuadEm.TetrAmm
import EpicsIocs.EtherIp.TagPath
import EpicsIocs.EtherIp.Accessors
import EpicsIocs.EtherIp.Replies
import EpicsIocs.EtherIp.BitFields
import EpicsIocs.EtherIp.Links
import EpicsIocs.EtherIp.Strings
import EpicsIocs.EtherIp.ListTags
import EpicsIocs.Merlin.Protocol
import EpicsIocs.Merlin.Transactions
import EpicsIocs.Lib.Lfsr
import EpicsIocs.Pixirad.Counter
import EpicsIocs.Pixirad.Decode
import EpicsIocs.Pixirad.Readout
import EpicsIocs.Mythen.Driver
import EpicsIocs.Mythen.Acquisition
import EpicsIocs.Lib.Ints
import EpicsIocs.Lib.Text
import EpicsIocs.TwinCat.Octet
import EpicsIocs.OpcUa.QueueRun
import EpicsIocs.OpcUa.Batches
import EpicsIocs.Lib.Escape
import EpicsIocs.OpcUa.Link
import EpicsIocs.Lib.Fields
import EpicsIocs.OpcUa.Elements
import EpicsIocs.OpcUa.Scalars
import EpicsIocs.OpcUa.ByteStrings
import EpicsIocs.Eiger.Stale
import EpicsIocs.OpcUa.ElementWrites
import EpicsIocs.OpcUa.Assembly
import EpicsIocs.OpcUa.Dispatch
import EpicsIocs.QuadEm.Fx4
import EpicsIocs.Lib.Keyed
import EpicsIocs.QuadEm.Fx4Filter
import EpicsIocs.QuadEm.Fx4Run
import EpicsIocs.Lib.Decimal
import EpicsIocs.Lib.Calendar
import EpicsIocs.Eiger.Rfc3339
import EpicsIocs.Eiger.Timestamp
import EpicsIocs.Eiger.Tiff
import EpicsIocs.Lib.Arith
import EpicsIocs.Lib.Tiles
import EpicsIocs.TimePix.PelIndex
import EpicsIocs.TimePix.BpcFile
import EpicsIocs.Lib.Raster
import EpicsIocs.TimePix.MaskDraw
import EpicsIocs.Lib.Base64
import EpicsIocs.TimePix.PixelConfig
import EpicsIocs.UrRobot.ScriptGate
import EpicsIocs.Lib.Replies
import EpicsIocs.UrRobot.Gripper
import EpicsIocs.Lib.Words
import EpicsIocs.Lib.DigitGen
import EpicsIocs.Lib.Rounding
import EpicsIocs.TimePix.Dtoa
import EpicsIocs.TimePix.DtoaDigits
import EpicsIocs.TimePix.DtoaBoundaries
import EpicsIocs.TimePix.DtoaInterval
import EpicsIocs.Lib.Checksum
import EpicsIocs.Mca.Amptek
import EpicsIocs.Lib.Trailers
import EpicsIocs.QuadEm.Resync
import EpicsIocs.AcsMotion.GetArray
import EpicsIocs.Lib.Transducer
import EpicsIocs.SpecsAnalyser.Codec
import EpicsIocs.Lib.Spaced
import EpicsIocs.AcsMotion.ExactBuild
import EpicsIocs.AcsMotion.PulseWindow
import EpicsIocs.Lib.Motion
import EpicsIocs.AcsMotion.Ramps
import EpicsIocs.Newport.Profile
import EpicsIocs.Newport.Trajectory
import EpicsIocs.Lib.Filling
import EpicsIocs.Pmac.CsGroups
import EpicsIocs.UrRobot.Layout
import EpicsIocs.Lib.Phases
import EpicsIocs.MotorSim.Route
import EpicsIocs.MotorSim.Solver
import EpicsIocs.MotorSim.Trajectory
import EpicsIocs.Lib.Multiples
import EpicsIocs.GenICam.Feature
import EpicsIocs.Lib.Packed
import EpicsIocs.Mythen.Readout
import EpicsIocs.Lib.Utf8
import EpicsIocs.Merlin.MqHeader
import EpicsIocs.Merlin.Image
import EpicsIocs.Lib.Arrivals
import EpicsIocs.Merlin.Resync
import EpicsIocs.Newport.Rpc
import EpicsIocs.Newport.Gathering
import EpicsIocs.Newport.Atof
import EpicsIocs.Newport.Corrector
import EpicsIocs.Lib.BitStream
import EpicsIocs.Mar345.Pck
import EpicsIocs.Mar345.Unpack
import EpicsIocs.Mar345.Header
import EpicsIocs.Mar345.RoundTrip
import EpicsIocs.Lib.Accumulate
import EpicsIocs.SpecsAnalyser.Acquisition
import EpicsIocs.SpecsAnalyser.Scan
import EpicsIocs.SpecsAnalyser.Run
import EpicsIocs.Bruker.Frame
import EpicsIocs.Bruker.Sfrm
import EpicsIocs.Bruker.Writer
import EpicsIocs.MicroEpsilon.Packet
import EpicsIocs.MicroEpsilon.Reader
import EpicsIocs.MicroEpsilon.Stream
import EpicsIocs.TimePix.Acquisition
import EpicsIocs.TimePix.Lifecycle
