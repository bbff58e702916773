import Reflectdb.Transport.PollingContract
import Reflectdb.Transport.SseContract

/-!
# Send contract — a message whose send resolved is received, once and in its turn

Both transports keep the contract in each run in which nothing that is owed is dropped from a buffer
or a queue, left behind on a stream or overtaken by a later response, and in no other.
-/

namespace Reflectdb
namespace Transport

open Lib

variable {M : Type} {startsOver : M → Bool} {replayBufferSize maxQueueLen : Nat}
  {idleTimeoutMs : Int}

/-- A client whose stream ends, and for which the buffer has room for one message. -/
def resumed : List (String × Sse.LinkEvent String) :=
  [("a", .request), ("a", .subscribe 1), ("a", .send none "hello"), ("a", .arrive),
    ("a", .handleDisconnect), ("a", .send none "first"), ("a", .send none "second"),
    ("a", .request), ("a", .subscribe 2), ("a", .arrive)]

/-- A client that has a queue for one message, and polls. -/
def polled : List (String × Polling.LinkEvent String) :=
  [("a", .connect 0), ("a", .send "first"), ("a", .send "second"), ("a", .poll 0), ("a", .arrive 0)]

end Transport
end Reflectdb
