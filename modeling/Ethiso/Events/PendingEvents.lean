import Ethiso.Framework.Outcome
import Ethiso.Framework.Run
import Ethiso.Framework.SortedMap
import Mathlib.Algebra.Order.Ring.Int
import Mathlib.Logic.Function.Basic

/-!
# The event monitor

`PendingEvents` turns the blocks that a poller announces into calls of event
handlers. It keeps the blocks of the last few heights, and hands the logs of a
block to the handlers once the block is buried deep enough below the highest
block it knows.

The class has two indexes of the blocks it keeps: `blockDepth` sorts the hashes
by height, `blockInfoMap` finds the block of a hash. `newBlock` imports the
announced block and those of its ancestors that are missing, computes the height
below which blocks are no longer kept, and removes what lies below: a block on
the chain of a highest block is *fired*, any other is *pruned*.

Hashes are the numbers that their hex strings denote. The node is a pair of
partial functions: a request without an answer stands for a failing call and for
the answer `null`, since the next access to a `null` block or receipt throws.
What the code does to the world outside is the list of `Output`s. Handlers are
called by name; whether a call returns may depend on all earlier calls of the
same handler (`Environment.accept`).

Not modelled are the log messages other than the one for a fired block, the
fields of a block, a receipt and a log entry that no modelled function reads, and
the lock: both public operations take it for their whole duration.
-/

namespace Ethiso

/-- The value of a Java `int` expression whose exact value is `n`. -/
@[irreducible] def javaInt (n : ℤ) : ℤ := n.bmod (2 ^ 32)

/-- The counts that the constructor accepts: `int`s that are not negative. -/
abbrev ConfirmationCount := { c : ℕ // c < 2 ^ 31 }

/-- `DEFAULT_NUMBER_OF_BLOCKS_TO_CONFIRM` -/
def DEFAULT_NUMBER_OF_BLOCKS_TO_CONFIRM : ℤ := 5

/-- A hash; zero is the one that no block has. -/
abbrev Hash := ℕ

/-- `BlockInfo` -/
structure BlockInfo where
  number : ℕ
  hash : Hash
  parentHash : Hash
  transactions : List String
deriving DecidableEq

/-- `LogEntry` -/
structure LogEntry where
  address : String
  topics : List String
  data : String
deriving DecidableEq

/-- `TransactionReceipt` -/
structure TransactionReceipt where
  logs : List LogEntry

/-- The node, as far as one call of `newBlock` asks it. -/
structure EthereumRpc where
  eth_getBlockByHash : Hash → Option BlockInfo
  eth_getTransactionReceipt : String → Option TransactionReceipt

/-- A registered handler: `decodeEvent` is that of its function encoding. -/
structure FunctionEncodingAndHandler (α ι : Type*) where
  topics : List String
  decodeEvent : LogEntry → Option α
  handler : ι

/-- What the monitor does to the outside: a block is fired, or a log is passed
to a handler; no event if the decoding of the log threw. -/
inductive Output (α ι : Type*) where
  | fired (blockInfo : BlockInfo)
  | passed (handler : ι) (logEntry : LogEntry) (event : Option α)
deriving DecidableEq

/-- What the code runs in: the handlers, and the order in which the hash sets are
iterated, which may depend on the order of insertion but is some order. -/
structure Environment (α ι : Type*) where
  /-- Whether the handler returns, given the events it was called with before. -/
  accept : ι → List α → α → Bool
  iterate : List Hash → List Hash
  iterate_perm : ∀ l, (iterate l).Perm l

variable {α ι : Type*} [DecidableEq ι]

/-! ### Firing the logs of a block -/

/-- The events a handler has been called with. -/
def calls (handler : ι) (trace : List (Output α ι)) : List α :=
  trace.filterMap fun
    | .passed h _ (some event) => if h = handler then some event else none
    | _ => none

/-- The blocks that a list of outputs fires, in order. -/
def firedIn (trace : List (Output α ι)) : List BlockInfo :=
  trace.filterMap fun
    | .fired blockInfo => some blockInfo
    | .passed .. => none

/-- Compares the topics from the second on, all of them: a log with fewer topics
than the handler asks for is an index out of bounds, also after a mismatch. -/
def matchTopics : List String → List String → Option Bool
  | [], _ => some true
  | _ :: _, [] => none
  | t :: ts, l :: ls => (matchTopics ts ls).map fun m => t == l && m

/-- `fire`: the topics behind the first are compared, then the handler is called. -/
def FunctionEncodingAndHandler.fire (env : Environment α ι)
    (listener : FunctionEncodingAndHandler α ι) (logEntry : LogEntry)
    (trace : List (Output α ι)) : Outcome (List (Output α ι)) :=
  match matchTopics (listener.topics.drop 1) (logEntry.topics.drop 1) with
  | none => .threw trace
  | some false => .returned trace
  | some true =>
    match listener.decodeEvent logEntry with
    | none => .threw (trace ++ [.passed listener.handler logEntry none])
    | some event =>
      if env.accept listener.handler (calls listener.handler trace) event then
        .returned (trace ++ [.passed listener.handler logEntry (some event)])
      else
        .threw (trace ++ [.passed listener.handler logEntry (some event)])

/-- The registered handlers, by their first topic. -/
abbrev EventListeners (α ι : Type*) := String → Option (List (FunctionEncodingAndHandler α ι))

/-- What `newBlock` does with one log of a block that is fired. -/
def fireLog (env : Environment α ι) (eventListeners : EventListeners α ι)
    (trace : List (Output α ι)) (logEntry : LogEntry) : Outcome (List (Output α ι)) :=
  match logEntry.topics with
  | [] => .threw trace -- `getTopics().get(0)`
  | topic :: _ =>
    match eventListeners topic with
    | none => .returned trace
    | some handlers => forEach (fun trace listener => listener.fire env logEntry trace) handlers trace

/-- With one transaction, whose receipt has to be there. -/
def fireTransaction (env : Environment α ι) (eventListeners : EventListeners α ι)
    (rpc : EthereumRpc) (trace : List (Output α ι)) (transactionHash : String) :
    Outcome (List (Output α ι)) :=
  match rpc.eth_getTransactionReceipt transactionHash with
  | none => .threw trace
  | some receipt => forEach (fireLog env eventListeners) receipt.logs trace

/-- With one block; that it is fired is noted in the trace. -/
def fireBlock (env : Environment α ι) (eventListeners : EventListeners α ι) (rpc : EthereumRpc)
    (trace : List (Output α ι)) (blockInfo : BlockInfo) : Outcome (List (Output α ι)) :=
  forEach (fireTransaction env eventListeners rpc) blockInfo.transactions
    (trace ++ [.fired blockInfo])

/-! ### The blocks that are kept -/

/-- The fields of `PendingEvents`. -/
structure PendingEvents (α ι : Type*) where
  eventListeners : EventListeners α ι
  blockDepth : SortedMap ℤ (List Hash)
  blockInfoMap : Hash → Option BlockInfo

namespace PendingEvents

/-- No listeners and no blocks. -/
def init : PendingEvents α ι where
  eventListeners := fun _ => none
  blockDepth := SortedMap.empty
  blockInfoMap := fun _ => none

/-- The hashes kept at a height. -/
def hashesAt (p : PendingEvents α ι) (blockNumber : ℤ) : List Hash :=
  (p.blockDepth.get? blockNumber).getD []

/-- The two writes of the import loop for one block. -/
def storeBlock (p : PendingEvents α ι) (blockInfo : BlockInfo) : PendingEvents α ι :=
  { p with
    blockDepth := p.blockDepth.upsert (javaInt blockInfo.number) fun hashes =>
      (hashes.getD []).insert blockInfo.hash
    blockInfoMap := Function.update p.blockInfoMap blockInfo.hash (some blockInfo) }

/-- The import loop with `fetches` requests left: the source counts `depth` up
from zero and stops when it exceeds a bound, here the rest is counted down. -/
def importFrom (rpc : EthereumRpc) : ℕ → BlockInfo → PendingEvents α ι →
    Outcome (PendingEvents α ι)
  | fetches, currentBlockInfo, p =>
    let p := p.storeBlock currentBlockInfo
    if currentBlockInfo.parentHash = 0 ∨ (p.blockInfoMap currentBlockInfo.parentHash).isSome then
      .returned p
    else
      match fetches with
      | 0 => .returned p
      | fetches + 1 =>
        match rpc.eth_getBlockByHash currentBlockInfo.parentHash with
        | none => .threw p
        | some parent => importFrom rpc fetches parent p

/-- How many parents one import may request: `depth > c + 5` ends the loop, and
the sum is an `int`. -/
def fetchLimit (c : ConfirmationCount) : ℕ :=
  (javaInt (c + DEFAULT_NUMBER_OF_BLOCKS_TO_CONFIRM) + 1).toNat

/-- `importBlocks`, with the number of blocks that it may fetch. -/
def importBlocks (c : ConfirmationCount) (rpc : EthereumRpc) (blockInfo : BlockInfo)
    (p : PendingEvents α ι) : Outcome (PendingEvents α ι) :=
  importFrom rpc (fetchLimit c) blockInfo p

/-- The kept blocks from a hash downwards. Heights fall along the parents, so a
chain that starts at height `n` has at most `n + 1` blocks. -/
def chainFrom (blockInfoMap : Hash → Option BlockInfo) : ℕ → Hash → List Hash
  | 0, _ => []
  | n + 1, blockHash =>
    match blockInfoMap blockHash with
    | none => []
    | some blockInfo => blockHash :: chainFrom blockInfoMap n blockInfo.parentHash

/-- The kept blocks on the chains of the blocks of height `lastKey`. -/
def inChain (env : Environment α ι) (p : PendingEvents α ι) (lastKey : ℤ) : List Hash :=
  (env.iterate (p.hashesAt lastKey)).flatMap fun deepestBlockHash =>
    chainFrom p.blockInfoMap
      ((p.blockInfoMap deepestBlockHash).elim 0 fun blockInfo => blockInfo.number + 1)
      deepestBlockHash

/-- The height below which blocks are removed. -/
def removalBoundry (c : ConfirmationCount) (lastKey : ℤ) : ℤ :=
  javaInt (lastKey - javaInt (c - 1))

/-- `addEventListener` -/
def addEventListener (p : PendingEvents α ι) (topics : List String)
    (decodeEvent : LogEntry → Option α) (handler : ι) : Outcome (PendingEvents α ι) :=
  match topics with
  | [] => .threw p -- `topics.get(0)`
  | topic :: _ =>
    .returned { p with
      eventListeners := Function.update p.eventListeners topic
        (some ((p.eventListeners topic).getD [] ++ [⟨topics, decodeEvent, handler⟩])) }

end PendingEvents

open PendingEvents

/-! ### The monitor and what it has done -/

/-- A monitor together with all its outputs so far. -/
structure Session (α ι : Type*) where
  pending : PendingEvents α ι
  trace : List (Output α ι)

namespace Session

/-- A session at its start. -/
def init : Session α ι := ⟨PendingEvents.init, []⟩

/-- Removes one block, and fires it if it is on the chain. -/
def removeBlock (env : Environment α ι) (rpc : EthereumRpc) (inChain : List Hash)
    (s : Session α ι) (blockHash : Hash) : Outcome (Session α ι) :=
  let blockToRemove := s.pending.blockInfoMap blockHash
  let pending :=
    { s.pending with blockInfoMap := Function.update s.pending.blockInfoMap blockHash none }
  if blockHash ∈ inChain then
    match blockToRemove with
    | none => .threw ⟨pending, s.trace⟩
    | some blockInfo =>
      (fireBlock env pending.eventListeners rpc s.trace blockInfo).map fun trace => ⟨pending, trace⟩
  else
    .returned ⟨pending, s.trace⟩

/-- `blocksToRemove.clear()` -/
def clear (removalBoundry : ℤ) (s : Session α ι) : Session α ι :=
  { s with pending :=
      { s.pending with blockDepth := s.pending.blockDepth.tailMap removalBoundry } }

/-- The part of `newBlock` after the import. -/
def removeBlocks (c : ConfirmationCount) (env : Environment α ι) (rpc : EthereumRpc)
    (s : Session α ι) : Outcome (Session α ι) :=
  match s.pending.blockDepth.lastKey? with
  | none => .threw s
  | some lastKey =>
    let blocksToRemove := s.pending.blockDepth.headMap (removalBoundry c lastKey)
    if blocksToRemove.isEmpty then
      .returned s
    else
      let inChain := inChain env s.pending lastKey
      (forEach (fun s blockHashes =>
          forEach (removeBlock env rpc inChain) (env.iterate blockHashes.2) s) blocksToRemove s).bind
        fun s => .returned (s.clear (removalBoundry c lastKey))

/-- `newBlock`: imports, and removes what is confirmed. -/
def newBlock (c : ConfirmationCount) (env : Environment α ι) (rpc : EthereumRpc)
    (blockInfo : BlockInfo) (s : Session α ι) : Outcome (Session α ι) :=
  ((importBlocks c rpc blockInfo s.pending).map fun pending => { s with pending }).bind
    (removeBlocks c env rpc)

end Session

/-- The calls of the public operations of the monitor. -/
inductive Input (α ι : Type*) where
  | addEventListener (topics : List String) (decodeEvent : LogEntry → Option α) (handler : ι)
  | newBlock (rpc : EthereumRpc) (blockInfo : BlockInfo)

namespace Session

/-- A call from outside. -/
def call (c : ConfirmationCount) (env : Environment α ι) (s : Session α ι) :
    Input α ι → Outcome (Session α ι)
  | .addEventListener topics decodeEvent handler =>
    (s.pending.addEventListener topics decodeEvent handler).map fun pending => { s with pending }
  | .newBlock rpc blockInfo => s.newBlock c env rpc blockInfo

/-- The poller catches what a call throws and goes on with the state as it is. -/
def step (c : ConfirmationCount) (env : Environment α ι) (s : Session α ι)
    (i : Input α ι) : Session α ι :=
  (s.call c env i).state

/-- The session after a run. -/
def after (c : ConfirmationCount) (env : Environment α ι) (l : List (Input α ι)) :
    Session α ι :=
  run (step c env) init l

/-- The blocks fired so far, in order. -/
def firedBlocks (s : Session α ι) : List BlockInfo := firedIn s.trace

end Session

end Ethiso
