import Ethiso.Abi.Java
import Ethiso.Framework.Run

/-!
# JSON-RPC over RabbitMQ

A `RabbitMQJsonRpcTransport` sends its requests to the queue `key/out` and takes the replies
from `key/in`; a service does it the other way round. A reply carries the correlation id of its
request, under which the transport keeps the result handler. The ids are the values of a
counter of the transport.

A listener that is passed to a service is registered as a service itself, on a transport whose
key is its callback address, `key/0`, `key/1` and so on; these are the values of another
counter of the transport. The receiver derives a transport from the address, to invoke the
listener.

The machine has any number of clients with the same key, each in a process of its own, and one
server. The broker hands a message of a queue to any consumer of this queue. A consumer of
`key/out` is a service, the first one that of the server, the others listeners; a consumer of
`key/in` is a transport that has sent a request. Requests are numbered. The state records for
which request a reply was sent and whose result handler got it, and which listener an
invocation was for and which one got it. Failures of the connection are left out.
-/

namespace Ethiso.RabbitMQ

open Abi

/-- The key of a transport. -/
abbrev Key := List Char

/-- The suffix of the queue of requests. -/
def OUT_SUFFIX : List Char := ['/', 'o', 'u', 't']

/-- The suffix of the queue of replies. -/
def IN_SUFFIX : List Char := ['/', 'i', 'n']

/-! ### The state -/

/-- A transport that sends requests. One that is derived from a callback address knows nothing
of the `registration` that the address is from. -/
structure Transport where
  key : Key
  callbackId : ℤ
  correlationIdCounter : ℤ
  listening : Bool
  resultHandlers : List Char → Option ℕ
  registration : Option ℕ

namespace Transport

/-- A transport of a client. -/
def new (key : Key) (registration : Option ℕ) : Transport :=
  ⟨key, 0, 0, false, fun _ => none, registration⟩

/-- The correlation id of the next request. -/
def correlationId (t : Transport) : List Char := BigInteger.toString 10 t.correlationIdCounter

/-- The key of the next callback transport. -/
def callbackAddress (t : Transport) : Key := t.key ++ '/' :: BigInteger.toString 10 t.callbackId

end Transport

/-- A message, with the number of the request that it is or that it answers. A request may be
the invocation of a listener, and may pass on the address of another one. -/
structure Message where
  queue : Key
  correlationId : List Char
  request : ℕ
  invokes : Option ℕ
  callback : Option (Key × ℕ)

/-- A request that a service has received and not answered. -/
structure Received where
  consumer : ℕ
  correlationId : List Char
  request : ℕ

/-- The transports and consumers of all parties, and what is in flight. -/
structure State where
  transports : List Transport
  -- the keys of the services, each of which consumes the queue of its key
  consumers : List Key
  messages : List Message
  received : List Received
  -- the senders of the requests, and what was handed over and invoked
  requests : List ℕ
  handed : List (ℕ × ℕ)
  invoked : List (ℕ × ℕ)

/-- A consumer that the broker chooses. -/
inductive Recipient
  | consumer (j : ℕ)
  | transport (t : ℕ)

/-- What the parties and the broker do. -/
inductive Input
  | send (t : ℕ) (callback : Bool)
  | deliver (m : ℕ) (recipient : Recipient)
  | reply (i : ℕ)

namespace State

/-- The clients and the server. -/
def init (key : Key) (clients : ℕ) : State :=
  ⟨List.replicate clients (.new key none), [key], [], [], [], [], []⟩

/-! ### Sending -/

/-- Sends a request, and registers the listener that it passes on. The listeners themselves are
passed no listeners. -/
def send (s : State) (t : ℕ) (callback : Bool) : State :=
  match s.transports[t]? with
  | none => s
  | some transport =>
    let callback := callback && transport.registration.isNone
    -- requests are numbered in the order in which they are sent
    let request := s.requests.length
    { s with
      transports := s.transports.set t
        { transport with
          callbackId :=
            if callback then BigInteger.intValue (transport.callbackId + 1)
            else transport.callbackId
          correlationIdCounter := BigInteger.intValue (transport.correlationIdCounter + 1)
          listening := true
          resultHandlers :=
            Function.update transport.resultHandlers transport.correlationId (some request) }
      consumers := if callback then s.consumers ++ [transport.callbackAddress] else s.consumers
      messages := s.messages ++
        [⟨transport.key ++ OUT_SUFFIX, transport.correlationId, request, transport.registration,
          if callback then some (transport.callbackAddress, s.consumers.length) else none⟩]
      requests := s.requests ++ [t] }

/-! ### Delivering -/

/-- The consumer of a service. From the address of a listener it derives a transport. -/
def handleRequest (s : State) (j : ℕ) (message : Message) : State :=
  { s with
    transports := s.transports ++ message.callback.toList.map fun c => .new c.1 (some c.2)
    received := s.received ++ [⟨j, message.correlationId, message.request⟩]
    invoked := s.invoked ++ message.invokes.toList.map fun l => (l, j) }

/-- The consumer of a transport: it hands the reply to the handler under the correlation id, and
throws if there is none. -/
def handleReply (s : State) (t : ℕ) (transport : Transport) (message : Message) : State :=
  { s with
    transports := s.transports.set t
      { transport with
        resultHandlers := Function.update transport.resultHandlers message.correlationId none }
    handed := s.handed ++
      (transport.resultHandlers message.correlationId).toList.map fun r => (message.request, r) }

/-- The message leaves its queue for a consumer of this queue. -/
def deliver (s : State) (m : ℕ) (recipient : Recipient) : State :=
  match s.messages[m]? with
  | none => s
  | some message =>
    let s' := { s with messages := s.messages.eraseIdx m }
    match recipient with
    | .consumer j =>
      match s.consumers[j]? with
      | none => s
      | some key => if key ++ OUT_SUFFIX = message.queue then s'.handleRequest j message else s
    | .transport t =>
      match s.transports[t]? with
      | none => s
      | some transport =>
        -- a transport consumes its queue from its first request on
        if transport.listening = true ∧ transport.key ++ IN_SUFFIX = message.queue then
          s'.handleReply t transport message
        else s

/-! ### Replying -/

/-- The response handler, which is called once. -/
def reply (s : State) (i : ℕ) : State :=
  match s.received[i]? with
  | none => s
  | some received =>
    match s.consumers[received.consumer]? with
    | none => s
    | some key =>
      { s with
        messages := s.messages ++
          [⟨key ++ IN_SUFFIX, received.correlationId, received.request, none, none⟩]
        received := s.received.eraseIdx i }

/-- One step. -/
def step (s : State) : Input → State
  | .send t callback => s.send t callback
  | .deliver m recipient => s.deliver m recipient
  | .reply i => s.reply i

/-- The state that the inputs lead to. -/
abbrev after (key : Key) (clients : ℕ) (inputs : List Input) : State :=
  run step (init key clients) inputs

end State

end Ethiso.RabbitMQ
