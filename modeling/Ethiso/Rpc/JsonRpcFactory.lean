import Ethiso.Abi.Java
import Ethiso.Abi.Text
import Ethiso.Framework.Run

/-!
# A JSON-RPC service

`JsonRpcFactory.registerService` installs a consumer of messages. It reads a message as a
request, looks for a method of the service that the request fits, and submits a task, which
invokes the method and replies with what it has returned or thrown. If the method returns a
future, the reply is left to the continuation of the future.

Messages are delivered, tasks are run and futures completed in any order; each message has a
response handler of its own. Which exceptions are caught differs between the consumer, the task
and the continuation. An exception that gets out of any of them ends it, and nothing else.

Jackson and reflection are not in the repository. Reading and writing of JSON, the conversion
of parameters and the invocation of a method are parameters of the model.
-/

namespace Ethiso.Rpc

open Abi

/-! ### Integers -/

/-- The zeros of the decimal digits of Java 8, as UTF-16 code units. -/
def DIGIT_ZEROS : List ℕ :=
  [0x0030, 0x0660, 0x06F0, 0x07C0, 0x0966, 0x09E6, 0x0A66, 0x0AE6, 0x0B66, 0x0BE6, 0x0C66, 0x0CE6,
    0x0D66, 0x0E50, 0x0ED0, 0x0F20, 0x1040, 0x1090, 0x17E0, 0x1810, 0x1946, 0x19D0, 0x1A80, 0x1A90,
    0x1B50, 0x1BB0, 0x1C40, 0x1C50, 0xA620, 0xA8D0, 0xA900, 0xA9D0, 0xAA50, 0xABF0, 0xFF10]

/-- `Character.digit(u, 10)` -/
def decimalDigit (u : UInt16) : Option ℕ :=
  (DIGIT_ZEROS.find? fun z => z ≤ u.toNat ∧ u.toNat < z + 10).map fun z =>
    u.toNat - z

/-- The number that a non-empty list of digits denotes. -/
def parseDecimal (s : JavaString) : Option ℕ :=
  if s = [] then none else (s.mapM decimalDigit).map (ofBigEndian 10)

/-- `Integer.valueOf`, which throws a `NumberFormatException` if the string is `null` or no
numeral of an `int`. -/
def Integer.valueOf (s : Option JavaString) : Option ℤ := do
  let n : ℤ ← match ← s with
    | 0x2D :: ds => (parseDecimal ds).map fun n => -(n : ℤ)
    | 0x2B :: ds => (parseDecimal ds).map Int.ofNat
    | ds => (parseDecimal ds).map Int.ofNat
  if -2 ^ 31 ≤ n ∧ n < 2 ^ 31 then some n else none

/-! ### Requests and responses -/

/-- Exceptions, as far as the catch clauses tell them apart. -/
inductive Thrown
  | ioException
  | undeclaredThrowable
  | illegalArgument
  | other

/-- Whether the consumer catches it. -/
def Thrown.isCaught : Thrown → Bool
  | .ioException => true
  | .undeclaredThrowable => true
  | _ => false

/-- What a response says of a `Throwable`. -/
structure Throwable where
  className : String
  message : Option JavaString

/-- Parameters are JSON values; a list that is `null` is read as empty. -/
structure JsonRpcRequest (ν : Type) where
  id : Option JavaString
  method : Option JavaString
  params : List ν

/-- `JsonRpcResponse.Error` -/
structure Error where
  code : ℤ
  message : Option JavaString
  data : String

/-- `JsonRpcResponse` -/
structure JsonRpcResponse (ω : Type) where
  id : List Char
  result : Option ω
  error : Option Error

namespace JsonRpcResponse

variable {ω : Type}

/-- `DEFAULT_ERROR_CODE` -/
def DEFAULT_ERROR_CODE : ℤ := -1

/-- The constructor throws if there is both a result and an exception. -/
def new (id : ℤ) (result : Option ω) (t : Option Throwable) : Option (JsonRpcResponse ω) :=
  match result, t with
  | some _, some _ => none
  | _, some t =>
    some ⟨BigInteger.toString 10 id, none, some ⟨DEFAULT_ERROR_CODE, t.message, t.className⟩⟩
  | result, none => some ⟨BigInteger.toString 10 id, result, none⟩

end JsonRpcResponse

/-! ### The service -/

/-- A method of the interface. -/
structure Method (τ : Type) where
  name : JavaString
  parameterTypes : List τ

/-- The interface of the service, and what Jackson does: JSON values of type `ν`, Java types
`τ`, parameters `α` and results `ω`. A message may be read as `null`. -/
structure Service (ν τ α ω : Type) where
  methods : List (Method τ)
  readValue : JavaString → Except Thrown (Option (JsonRpcRequest ν))
  convertValue : ν → τ → Except Thrown α
  writeValueAsString : JsonRpcResponse ω → Option JavaString

/-- What is submitted to the executor. -/
structure Task (τ α : Type) where
  method : Option (Method τ)
  params : List α
  t : Option Throwable
  id : ℤ

/-- How `Method.invoke` ends. It does not invoke the method if the parameters are none for it. -/
inductive Invocation (ω : Type)
  | returns (result : Option ω)
  | returnsFuture (isCompletionStage : Bool)
  | throws (targetException : Throwable)
  | refused

/-- How a future is completed. -/
inductive Completion (ω : Type)
  | normally (result : Option ω)
  | exceptionally (e : Throwable)

namespace Service

variable {ν τ α ω : Type} (service : Service ν τ α ω)

/-! ### The consumer -/

/-- The loop over the parameters of a method with this number of parameters. -/
def convertParams : List τ → List ν → Except Thrown (List α)
  | type :: types, param :: params => do
    let value ← service.convertValue param type
    return value :: (← convertParams types params)
  | _, _ => return []

/-- The loop over the methods. Parameters that cannot be converted are those of another
method; a method name that is `null` has no `equals`. -/
def findMethod (request : JsonRpcRequest ν) :
    List (Method τ) → Except Thrown (Option (Method τ × List α))
  | [] => return none
  | method :: methods =>
    match request.method with
    | none => throw .other
    | some name =>
      if name = method.name ∧ method.parameterTypes.length = request.params.length then
        match service.convertParams method.parameterTypes request.params with
        | .ok params => return some (method, params)
        -- the next method may be an overload that fits
        | .error .illegalArgument => findMethod request methods
        | .error e => throw e
      else findMethod request methods

/-- `NoSuchMethodError` -/
def noSuchMethodError (message : JavaString) : Throwable :=
  ⟨"java.lang.NoSuchMethodError", some message⟩

/-- The consumer: the task that it submits, if it does not throw before. -/
def consumer (message : JavaString) : Option (Task τ α) :=
  match service.readValue message with
  -- what was caught is replaced by the `NoSuchMethodError`, since nothing is matched
  | .error e => if e.isCaught then some ⟨none, [], some (noSuchMethodError message), -1⟩ else none
  -- `getId` is called on `null`
  | .ok none => none
  | .ok (some request) =>
    match Integer.valueOf request.id with
    -- a `NumberFormatException`, which is not caught
    | none => none
    | some id =>
      match service.findMethod request service.methods with
      | .ok (some (method, params)) => some ⟨some method, params, none, id⟩
      | .ok none => some ⟨none, [], some (noSuchMethodError message), id⟩
      | .error e =>
        if e.isCaught then some ⟨none, [], some (noSuchMethodError message), id⟩ else none

/-- What the response handler is called with, if nothing throws before. -/
def reply (id : ℤ) (value : Option ω) (t : Option Throwable) : Option (JsonRpcResponse ω) := do
  let response ← JsonRpcResponse.new id value t
  let _ ← service.writeValueAsString response
  return response

end Service

/-! ### Sessions -/

/-- What is left of a message that is done with: the consumer threw, the task threw before it
invoked a method, the invocation ended without a future to wait for, or the future was
completed. -/
inductive Finish (ω : Type)
  | consumerThrew
  | taskThrew
  | invoked (invocation : Invocation ω)
  | completed (completion : Completion ω)

/-- How far a request has come. -/
inductive Status (τ α ω : Type)
  | submitted (task : Task τ α)
  | awaiting (task : Task τ α)
  | finished (finish : Finish ω)

/-- A message, how far its request is, and what its response handler was called with. -/
structure Request (τ α ω : Type) where
  message : JavaString
  status : Status τ α ω
  responses : List (JsonRpcResponse ω)

/-- What happens to the service. -/
inductive Input (ω : Type)
  | deliver (message : JavaString)
  | runTask (k : ℕ) (invocation : Invocation ω)
  | complete (k : ℕ) (completion : Completion ω)

namespace Service

variable {ν τ α ω : Type} (service : Service ν τ α ω)

/-- `handleDelivery`: the consumer submits a task, or throws. -/
def deliver (message : JavaString) : Request τ α ω :=
  match service.consumer message with
  | some task => ⟨message, .submitted task, []⟩
  | none => ⟨message, .finished .consumerThrew, []⟩

/-- The task. `invoke` cannot be called on a method that is `null`; a future is cast to
`CompletionStage`. -/
def runTask (invocation : Invocation ω) (r : Request τ α ω) : Request τ α ω :=
  match r.status with
  | .submitted task =>
    match task.method with
    -- a `NullPointerException`, before the exception of the task is looked at
    | none => { r with status := .finished .taskThrew }
    | some _ =>
      match invocation with
      | .returnsFuture true => { r with status := .awaiting task }
      -- a `ClassCastException`
      | .returnsFuture false => { r with status := .finished (.invoked invocation) }
      -- only an `InvocationTargetException` is caught
      | .refused => { r with status := .finished (.invoked invocation) }
      | .returns result =>
        ⟨r.message, .finished (.invoked invocation),
          r.responses ++ (service.reply task.id result task.t).toList⟩
      | .throws e =>
        ⟨r.message, .finished (.invoked invocation),
          r.responses ++ (service.reply task.id none (task.t.or (some e))).toList⟩
  | _ => r

/-- The continuation of the future. -/
def complete (completion : Completion ω) (r : Request τ α ω) : Request τ α ω :=
  match r.status with
  | .awaiting task =>
    let response :=
      match completion with
      | .normally result => service.reply task.id result task.t
      | .exceptionally e => service.reply task.id none (task.t.or (some e))
    ⟨r.message, .finished (.completed completion), r.responses ++ response.toList⟩
  | _ => r

/-- One step of the service. -/
def step (requests : List (Request τ α ω)) : Input ω → List (Request τ α ω)
  | .deliver message => requests ++ [service.deliver message]
  | .runTask k invocation => requests.modify k (service.runTask invocation)
  | .complete k completion => requests.modify k (service.complete completion)

/-- The requests after these inputs. -/
abbrev after (inputs : List (Input ω)) : List (Request τ α ω) := run service.step [] inputs

end Service

end Ethiso.Rpc
