import ThingyAccel.Memory
import ThingyAccel.Bits
import ThingyAccel.Lzss
import ThingyAccel.HeatshrinkEncoder
import ThingyAccel.HeatshrinkMatch
import ThingyAccel.HeatshrinkOutput
import ThingyAccel.HeatshrinkPoll
import ThingyAccel.HeatshrinkRounds
import ThingyAccel.HeatshrinkPauses
import ThingyAccel.HeatshrinkCompression
import ThingyAccel.CompressionBounds
import ThingyAccel.NextFit
import ThingyAccel.Cbor
import ThingyAccel.Messages
import ThingyAccel.EmptyFifo
import ThingyAccel.Adxl362
import ThingyAccel.MessageSize
import ThingyAccel.MessagePacking
import ThingyAccel.SampleRuns
import ThingyAccel.MessageContents
import ThingyAccel.SampleConservation
import ThingyAccel.MessageBounds
import ThingyAccel.MessageMetadata
import ThingyAccel.WorkQueue
import ThingyAccel.HandOff
import ThingyAccel.CoapSend
import ThingyAccel.CoapRun
import ThingyAccel.UploadEnds
import ThingyAccel.Executions
import ThingyAccel.Delivery
import ThingyAccel.Rounds
import ThingyAccel.FailurePaths
import ThingyAccel.Adxl362Trigger
import ThingyAccel.SamplingChain
import ThingyAccel.Startup
import ThingyAccel.StartupOrder
import ThingyAccel.CborFormats
import ThingyAccel.MessageReading
import ThingyAccel.SlotReading
import ThingyAccel.Uplink
import ThingyAccel.HeatshrinkClients
import ThingyAccel.RegisterBus
import ThingyAccel.Adxl362Registers
import ThingyAccel.Adxl362Configuration
import ThingyAccel.Adxl362Calls
import ThingyAccel.Adxl362Operation
import ThingyAccel.NetworkAttach
import ThingyAccel.CoapFormats
import ThingyAccel.CoapPackets
import ThingyAccel.Recovery
import ThingyAccel.UplinkRecovery
import ThingyAccel.DeviceSampling
