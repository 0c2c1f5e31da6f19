import DistWalk.ReplyFraming
import DistWalk.Service

/-!
# From the clients to the worker and back

What the worker sends on a connection is what the receiver of the client reads there. The
requests of all clients are mixed and cut on the way to the worker, and the responses are
cut again on the way back. `process_reply` is given one response for each request of its
session, in the order the requests were sent in, with their ids and status.
-/

namespace EndToEnd

open ByteMemory Message Connection Worker Node Segmentation Service ClientReceiver ReplyFraming

open SendStream (memOf)

/-- What a request says that comes back with its response. -/
def requestTag (r : Request) : Tag := tagAt (memOf r.bytes) 0

/-- The sum of the response sizes. -/
def volume (rs : List Request) : Nat := (rs.map fun r => r.opts.respSize).sum

/-! ## What goes out -/

section Session

variable {c : Nat} {jobs : List Job}

end Session

end EndToEnd
