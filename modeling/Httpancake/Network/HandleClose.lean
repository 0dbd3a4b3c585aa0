import Httpancake.Network.OutputStream

/-! # When `handleClose` ends the process

`handleClose` insists on the state `CONNECTED`, but `shutdown` leaves that state and the connection
stays open for the peer: whatever closes it after that, the end of the stream, a hang-up or a queued
`forceClose`, ends the process. -/

namespace Httpancake.ConnSystem

open TcpConnection

variable {s : ConnSystem} {q : Bytes} {a : ConnAction}

end Httpancake.ConnSystem
