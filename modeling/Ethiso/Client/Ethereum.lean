import Ethiso.Abi.FunctionEncoding
import Ethiso.Framework.Run
import Mathlib.Data.List.AList
import Mathlib.Data.List.Sort

/-!
# The client of an Ethereum node

`Ethereum` makes the transactions of a bank. `sendTransaction` takes the next nonce and
puts the transaction into a queue, from which the task of a `java.util.Timer` submits
them to the node, one at each tick; `newContract` submits its transaction itself. A
submitted transaction is registered under its hash with the `TransactionPoller`, the task of
another timer, which asks the node for the receipts and completes the futures.

A call of the node returns, returns `null` or throws. The submit timer catches a
`JsonRpcException`, and submits the transaction again unless it has failed too often. Any
other exception ends a `java.util.Timer`: no task of it runs again. The poller catches all of
them. Calls and ticks are the inputs of a machine; a tick that finds the queue empty or its
timer ended does nothing.

A future is the number of its transaction, in the order in which they were made. The state
also records which calls have returned, which transactions the node accepted, and under
which hash.
-/

namespace Ethiso

open Abi

namespace Ethereum

/-- The hash of a transaction. -/
abbrev Hash := String

/-! ### Transactions -/

/-- `rpc.Transaction`, without the gas price, which is not set. -/
structure Transaction where
  from_ : RpcAddress
  to_ : Option RpcAddress
  gas : String
  value : Option String
  data : List Char
  nonce : List Char

/-- `JsonRpcException` -/
structure JsonRpcException where
  message : String
  deriving DecidableEq

/-- `TransactionAndReceipt`: a transaction, the future of its receipt, and how often it failed. -/
structure TransactionAndReceipt where
  transaction : Transaction
  futureTransactionReceipt : ℕ
  failures : List JsonRpcException

namespace TransactionAndReceipt

/-- How many failures are retried. -/
def MAX_RETRIES : ℕ := 2

/-- A transaction that has not failed. -/
def new (transaction : Transaction) (future : ℕ) : TransactionAndReceipt :=
  ⟨transaction, future, []⟩

/-- Returns whether the transaction is to be submitted again. -/
def failed (t : TransactionAndReceipt) (e : JsonRpcException) : TransactionAndReceipt × Bool :=
  let failures := t.failures ++ [e]
  ({ t with failures := failures }, failures.length ≤ MAX_RETRIES)

theorem failed_retry {t : TransactionAndReceipt} {e : JsonRpcException} :
    (t.failed e).2 = true ↔ t.failures.length < MAX_RETRIES := by
  unfold failed
  dsimp only
  rw [decide_eq_true_iff, List.length_append, List.length_singleton]
  exact Nat.succ_le_iff

end TransactionAndReceipt

/-! ### The node -/

/-- What `eth_sendTransaction` does. A call that fails otherwise than with an answer of the
node may have reached it. -/
inductive SendAnswer
  | hash (transactionHash : Hash)
  | null
  | jsonRpcException (e : JsonRpcException)
  | runtimeException (accepted : Bool)

/-- Whether the node has accepted the transaction. -/
def SendAnswer.accepted : SendAnswer → Bool
  | .hash _ => true
  | .null => false
  | .jsonRpcException _ => false
  | .runtimeException accepted => accepted

/-- What `eth_getTransactionReceipt` does. -/
inductive ReceiptAnswer (ρ : Type)
  | receipt (transactionReceipt : ρ)
  | null
  | runtimeException

/-- Whether the call throws. -/
def ReceiptAnswer.throws {ρ : Type} : ReceiptAnswer ρ → Bool
  | .runtimeException => true
  | _ => false

/-! ### The state -/

/-- A future that was completed, with what the node answered for this hash. -/
structure Completion (ρ : Type) where
  future : ℕ
  transactionHash : Hash
  transactionReceipt : ρ

/-- The fields of `Ethereum`, and the history of its futures. -/
structure State (ρ : Type) where
  accountNonce : ℤ
  transactionQueue : List TransactionAndReceipt
  submitTimerAlive : Bool
  pendingTransactions : AList fun _ : Hash => TransactionAndReceipt
  -- the futures, and what happened
  completions : List (Completion ρ)
  transactions : List Transaction
  returned : List ℕ
  accepted : List ℕ
  hashes : List (ℕ × Hash)

/-- What is called from outside, and the ticks of the timers. -/
inductive Input (ρ : Type)
  | sendTransaction (contractAddress : RpcAddress) (functionEncoding : Abi.FunctionEncoding)
    (args : List JavaObject)
  | newContract (code : List Char) (constructor : Option Abi.FunctionEncoding)
    (args : List JavaObject) (answer : SendAnswer)
  /-- a tick of the submit timer -/
  | submit (answer : SendAnswer)
  /-- a tick of the poller, which comes by the entries of the map in the order of their ranks -/
  | poll (rank : Hash → ℕ) (answer : Hash → ReceiptAnswer ρ)

/-! ### Nonces -/

/-- A `long`. -/
def toLong (n : ℤ) : ℤ := n.bmod (2 ^ 64)

/-- `"0x" + Long.toHexString(n)` -/
def nonceString (n : ℤ) : List Char := '0' :: 'x' :: numeral 16 (n % 2 ^ 64).toNat

/-- `ZERO_VALUE` -/
def ZERO_VALUE : String := "0x0"

/-- `NEW_CONTRACT_GAS` -/
def NEW_CONTRACT_GAS : String := "0x1000000"

/-- `MAIN_GAS` -/
def MAIN_GAS : String := "0x80000"

/-- The data of a contract creation. -/
def creationData (code : List Char) (constructor : Option Abi.FunctionEncoding)
    (args : List JavaObject) : Java (List Char) :=
  match constructor with
  | none => return code
  | some constructor => do return code ++ (← constructor.encode args)

namespace State

variable {ρ : Type}

/-- The state after the constructor, to which the node told the number of transactions. -/
def init (transactionCount : ℤ) : State ρ :=
  ⟨toLong transactionCount, [], true, ∅, [], [], [], [], []⟩

/-- Makes a transaction with the next nonce. -/
def newTransaction (s : State ρ) (transaction : List Char → Transaction) :
    TransactionAndReceipt × State ρ :=
  let transaction := transaction (nonceString s.accountNonce)
  (.new transaction s.transactions.length,
    { s with
      accountNonce := toLong (s.accountNonce + 1)
      transactions := s.transactions ++ [transaction] })

/-- What the node knows of the transaction after the call. -/
def sent (s : State ρ) (t : TransactionAndReceipt) (answer : SendAnswer) : State ρ :=
  { s with
    accepted :=
      if answer.accepted then s.accepted ++ [t.futureTransactionReceipt] else s.accepted
    hashes :=
      match answer with
      | .hash transactionHash => s.hashes ++ [(t.futureTransactionReceipt, transactionHash)]
      | _ => s.hashes }

/-- The map throws if the hash is `null`, as `eth_sendTransaction` may return it. -/
def addPendingTransaction (s : State ρ) (transactionHash : Hash) (t : TransactionAndReceipt) :
    State ρ :=
  { s with pendingTransactions := s.pendingTransactions.insert transactionHash t }

/-! ### Calls -/

/-- If `encode` throws, nothing has changed. -/
def sendTransaction (fromAccount : RpcAddress) (s : State ρ) (contractAddress : RpcAddress)
    (functionEncoding : Abi.FunctionEncoding) (args : List JavaObject) : State ρ :=
  match functionEncoding.encode args with
  | .error _ => s
  | .ok data =>
    let (t, s) := s.newTransaction fun nonce =>
      ⟨fromAccount, some contractAddress, MAIN_GAS, some ZERO_VALUE, data, nonce⟩
    { s with
      transactionQueue := s.transactionQueue ++ [t]
      returned := s.returned ++ [t.futureTransactionReceipt] }

/-- Nothing is caught: if the node does not return a hash, the call throws. -/
def newContract (fromAccount : RpcAddress) (s : State ρ) (code : List Char)
    (constructor : Option Abi.FunctionEncoding) (args : List JavaObject) (answer : SendAnswer) :
    State ρ :=
  match creationData code constructor args with
  | .error _ => s
  | .ok data =>
    let (t, s) := s.newTransaction fun nonce =>
      ⟨fromAccount, none, NEW_CONTRACT_GAS, none, data, nonce⟩
    let s := s.sent t answer
    match answer with
    | .hash transactionHash =>
      let s := s.addPendingTransaction transactionHash t
      { s with returned := s.returned ++ [t.futureTransactionReceipt] }
    -- the nonce stays taken
    | _ => s

/-! ### Ticks -/

/-- The task of the submit timer. It ends the timer when an exception gets out. -/
def submit (s : State ρ) (answer : SendAnswer) : State ρ :=
  if s.submitTimerAlive then
    match s.transactionQueue with
    | [] => s
    | t :: queue =>
      let s := { s with transactionQueue := queue }.sent t answer
      match answer with
      | .hash transactionHash => s.addPendingTransaction transactionHash t
      -- `ConcurrentHashMap.put` throws
      | .null => { s with submitTimerAlive := false }
      | .jsonRpcException e =>
        -- after too many failures the transaction is in nobody's hands
        let (t, retry) := t.failed e
        if retry then { s with transactionQueue := s.transactionQueue ++ [t] } else s
      | .runtimeException _ => { s with submitTimerAlive := false }
  else s

/-- An entry of the map. -/
abbrev Entry := Sigma fun _ : Hash => TransactionAndReceipt

/-- The loop of the poller over the entries: those with a receipt, and whether it was left by
an exception. -/
def pollEntries (answer : Hash → ReceiptAnswer ρ) : List Entry → List (Entry × ρ) × Bool
  | [] => ([], false)
  | entry :: entries =>
    match answer entry.1 with
    | .receipt transactionReceipt =>
      let (completed, thrown) := pollEntries answer entries
      ((entry, transactionReceipt) :: completed, thrown)
    | .null => pollEntries answer entries
    -- what comes after this entry is not visited
    | .runtimeException => ([], true)

/-- A future that is completed stays as it is. -/
def complete (completions : List (Completion ρ)) (e : Entry × ρ) : List (Completion ρ) :=
  let future := e.1.2.futureTransactionReceipt
  if future ∈ completions.map Completion.future then completions
  else completions ++ [⟨future, e.1.1, e.2⟩]

/-- The pending transactions in the order in which the map is iterated. -/
def entries (s : State ρ) (rank : Hash → ℕ) : List Entry :=
  s.pendingTransactions.entries.insertionSort fun e e' => rank e.1 ≤ rank e'.1

/-- The poller removes the completed transactions after its loop, if it gets there. -/
def poll (s : State ρ) (rank : Hash → ℕ) (answer : Hash → ReceiptAnswer ρ) : State ρ :=
  let (completed, thrown) := pollEntries answer (s.entries rank)
  let s := { s with completions := completed.foldl complete s.completions }
  -- the exception is caught around the loop and the removal
  if thrown then s
  else
    { s with
      pendingTransactions :=
        completed.foldl (fun map e => map.erase e.1.1) s.pendingTransactions }

/-- One step of the client. -/
def step (fromAccount : RpcAddress) (s : State ρ) : Input ρ → State ρ
  | .sendTransaction contractAddress functionEncoding args =>
    s.sendTransaction fromAccount contractAddress functionEncoding args
  | .newContract code constructor args answer =>
    s.newContract fromAccount code constructor args answer
  | .submit answer => s.submit answer
  | .poll rank answer => s.poll rank answer

/-- The state that the inputs lead to. -/
abbrev after (fromAccount : RpcAddress) (transactionCount : ℤ) (inputs : List (Input ρ)) :
    State ρ :=
  run (step fromAccount) (init transactionCount) inputs

end State

end Ethereum

end Ethiso
