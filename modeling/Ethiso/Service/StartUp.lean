import Ethiso.Framework.Interference
import Ethiso.Framework.Numbering
import Ethiso.Framework.Run
import Mathlib.Data.List.Basic

/-!
# The start-up of the payment services

`PaymentServiceMain` of every bank finds the contracts or installs them. The primary takes the
address of the global registrar from its file `registrar.properties` and installs what is
missing; a secondary asks a service that is up for this address and waits for the rest. Each of
them has its own account and its own geth node.

A start-up is a program over what it asks of the node, of the file and of the other services,
written like the constructors of `ContractProxy`, `GlobalRegistrar`, `NameToAddressRegistrar` and
`PaymentServiceMain`. It sends at most one transaction at a time and goes on when the node has
the receipt. A process may end at any point and be started again; what it has sent may still be
executed later.

The nodes have one chain, of which each knows the transactions up to some point. The chain
executes a transaction when its nonce is the number of transactions of its sender, so at most one
for each nonce; a transaction that was sent may also never be executed. The address of a new
contract is a function of its sender and of the nonce.
-/

namespace Ethiso

namespace StartUp

variable {ι A : Type}

/-! ### The chain -/

/-- The contracts of a start-up. -/
inductive ContractName
  | nameToAddressRegistrar
  | paymentService
  deriving DecidableEq

/-- What a transaction of these programs does. -/
inductive Action (A : Type)
  | newContract (contract : ContractName)
  | setAddress (registrar : A) (name : String) (address : A)
  /-- a call of a function of the payment service -/
  | other
  deriving DecidableEq

/-- A transaction. -/
structure Tx (ι A : Type) where
  sender : ι
  nonce : ℕ
  action : Action A
  deriving DecidableEq

/-- A transaction of the chain. One that ran out of gas has no effect. -/
structure Mined (ι A : Type) where
  tx : Tx ι A
  executed : Bool

/-- The contracts that are installed, and the mappings of the registrars among them. -/
structure Storage (A : Type) where
  code : A → Option ContractName
  addresses : A → String → A

variable [DecidableEq ι] [DecidableEq A] [Zero A]

namespace Storage

/-- Nothing is installed. -/
def empty : Storage A := ⟨fun _ => none, fun _ _ => 0⟩

/-- `setAddress` of `NameToAddressRegistrar.sol`. -/
def setAddress (s : Storage A) (registrar : A) (name : String) (address : A) : Storage A :=
  { s with addresses := fun r n =>
      if r = registrar ∧ n = name then address else s.addresses r n }

/-- What a mined transaction changes, if it did not run out of gas. -/
def apply (create : ι → ℕ → A) (s : Storage A) (m : Mined ι A) : Storage A :=
  if m.executed then
    match m.tx.action with
    | .newContract contract =>
      { s with code := Function.update s.code (create m.tx.sender m.tx.nonce) (some contract) }
    | .setAddress registrar name address =>
      if s.code registrar = some .nameToAddressRegistrar then
        s.setAddress registrar name address
      else s
    | .other => s
  else s

end Storage

/-- What the transactions of a chain have made, `create` being the addresses of new contracts. -/
abbrev storage (create : ι → ℕ → A) (chain : List (Mined ι A)) : Storage A :=
  run (Storage.apply create) .empty chain

/-- The number of transactions of an account. -/
abbrev transactionCount (i : ι) (chain : List (Mined ι A)) : ℕ :=
  ownCount (fun m : Mined ι A => m.tx.sender) i chain

/-! ### The processes -/

/-- The contracts that a service uses. -/
structure Deployment (A : Type) where
  registrar : A
  bicRegistrar : A
  paymentService : A
  deriving DecidableEq

/-- What a start-up asks for. -/
inductive Op (A : Type)
  /-- the constructor of `Ethereum` -/
  | getTransactionCount
  | getConfiguration
  | getStoredRegistrarAddress
  | storeRegistrarAddress (registrarAddress : A)
  | hasContractAtAddress (contractAddress : A)
  | waitForContractAtAddress (contractAddress : A)
  | getAddress (registrar : A) (name : String)
  /-- asks for the address until it is not zero -/
  | waitForAddress (registrar : A) (name : String)
  /-- sends a transaction with the next nonce -/
  | send (action : Action A)
  /-- waits for the receipt of a transaction that was sent -/
  | receipt (nonce : ℕ) (action : Action A)
  /-- the endpoints are registered, the configuration service among them -/
  | register (deployment : Deployment A)
  | throw

/-- The answers. -/
def Op.Ans : Op A → Type
  | .getTransactionCount => Unit
  | .getConfiguration => A
  | .getStoredRegistrarAddress => A
  | .storeRegistrarAddress _ => Unit
  | .hasContractAtAddress _ => Bool
  | .waitForContractAtAddress _ => Unit
  | .getAddress _ _ => A
  | .waitForAddress _ _ => A
  | .send _ => ℕ
  | .receipt _ _ => A
  | .register _ => Unit
  | .throw => Empty

/-- The rest of a start-up. -/
abbrev Process (A : Type) : Type → Type := Program (Op A) Op.Ans

/-! ### The operations -/

/-- `new Ethereum`: the nonce of the account. -/
def newEthereum : Process A Unit := .ask .getTransactionCount .done

/-- The configuration that a secondary waits for. -/
def getConfiguration : Process A A := .ask .getConfiguration .done

/-- Reads the file of the registrar. -/
def getStoredRegistrarAddress : Process A A := .ask .getStoredRegistrarAddress .done

/-- Writes it. -/
def storeRegistrarAddress (registrarAddress : A) : Process A Unit :=
  .ask (.storeRegistrarAddress registrarAddress) .done

/-- `hasContractAtAddress` -/
def hasContractAtAddress (contractAddress : A) : Process A Bool :=
  .ask (.hasContractAtAddress contractAddress) .done

/-- `waitForContractAtAddress` -/
def waitForContractAtAddress (contractAddress : A) : Process A Unit :=
  .ask (.waitForContractAtAddress contractAddress) .done

/-- Sends a transaction and waits for its receipt, of which it returns the contract address. -/
def transact (action : Action A) : Process A A :=
  .ask (.send action) fun nonce : ℕ => .ask (.receipt nonce action) .done

/-- What the process publishes when it is up. -/
def register (deployment : Deployment A) : Process A Unit := .ask (.register deployment) .done

/-- An exception that ends the process. -/
def throwException {α : Type} : Process A α := .ask .throw fun e => e.elim

/-! ### The constructors -/

/-- `Mode` -/
inductive Mode
  /-- We should wait until the code is available at the given contract address -/
  | wait
  /-- We should install the code if it is not available at the given contract address -/
  | install

/-- `PAYMENT_SERVICE_KEY` -/
def PAYMENT_SERVICE_KEY : String := "payment-service"

/-- `BIC_REGISTRAR_KEY` -/
def BIC_REGISTRAR_KEY : String := "bic-registrar"

/-- `ensureContractInstalled` -/
def ensureContractInstalled (contract : ContractName) (contractAddress : A) : Process A A := do
  if ← hasContractAtAddress contractAddress then return contractAddress
  else
    let newAddress ← transact (.newContract contract)
    -- not enough gas?
    if ← hasContractAtAddress newAddress then return newAddress else throwException

/-- The constructor of `ContractProxy`, which sets the contract address. -/
def contractProxy (mode : Mode) (contract : ContractName) (contractAddress : A) : Process A A :=
  match mode with
  | .wait =>
    if contractAddress = 0 then throwException
    else do
      waitForContractAtAddress contractAddress
      return contractAddress
  | .install => ensureContractInstalled contract contractAddress

/-- `checkAddress`: without an address the file is asked. -/
def checkAddress (address : A) : Process A A :=
  if address = 0 then getStoredRegistrarAddress else return address

/-- `GlobalRegistrar` -/
def globalRegistrar (mode : Mode) (contractAddress : A) : Process A A := do
  let registrar ←
    contractProxy mode .nameToAddressRegistrar (← checkAddress contractAddress)
  -- If we weren't passed an address then store the actual contract address
  if contractAddress = 0 then storeRegistrarAddress registrar
  return registrar

/-- `setAddress`, and its receipt. -/
def setAddress (registrar : A) (name : String) (address : A) : Process A Unit := do
  let _ ← transact (.setAddress registrar name address)

/-- In the mode of a secondary, a zero address implies that our geth node is still syncing. -/
def getAddress (contractInstallMode : Mode) (globalRegistrar : A) (key : String) : Process A A :=
  match contractInstallMode with
  | .install => .ask (.getAddress globalRegistrar key) .done
  | .wait => .ask (.waitForAddress globalRegistrar key) .done

/-- The proxy of a contract that the global registrar knows under a key, or gets to know. -/
def registeredProxy (mode : Mode) (contract : ContractName) (key : String)
    (globalRegistrar address : A) : Process A A := do
  let contractAddress ← contractProxy mode contract address
  if address ≠ contractAddress then setAddress globalRegistrar key contractAddress
  return contractAddress

/-- `getBicRegistrar` -/
def getBicRegistrar (mode : Mode) (globalRegistrar bicRegistrarAddress : A) : Process A A :=
  registeredProxy mode .nameToAddressRegistrar BIC_REGISTRAR_KEY globalRegistrar
    bicRegistrarAddress

/-- `getPaymentService` -/
def getPaymentService (mode : Mode) (globalRegistrar paymentServiceAddress : A) : Process A A :=
  registeredProxy mode .paymentService PAYMENT_SERVICE_KEY globalRegistrar paymentServiceAddress

/-- The part of the constructor that is the same for both modes. -/
def deploy (contractInstallMode : Mode) (registrarAddress : A) : Process A (Deployment A) := do
  let registrar ← globalRegistrar contractInstallMode registrarAddress
  let bicRegistrar ← getBicRegistrar contractInstallMode registrar
    (← getAddress contractInstallMode registrar BIC_REGISTRAR_KEY)
  let paymentService ← getPaymentService contractInstallMode registrar
    (← getAddress contractInstallMode registrar PAYMENT_SERVICE_KEY)
  register ⟨registrar, bicRegistrar, paymentService⟩
  return ⟨registrar, bicRegistrar, paymentService⟩

/-- The constructor of `PaymentServiceMain`, with or without the URL of a configuration
service. -/
def paymentServiceMain (configServiceURL : Bool) : Process A (Deployment A) := do
  newEthereum
  if configServiceURL then deploy .wait (← getConfiguration) else deploy .install 0

/-! ### The network -/

/-- What the processes share. -/
structure Net (ι A : Type) where
  chain : List (Mined ι A)
  /-- the transactions that some node has accepted -/
  sent : List (Tx ι A)
  /-- how much of the chain a node knows -/
  synced : ι → ℕ
  accountNonce : ι → ℕ
  /-- the address in `registrar.properties`, or zero -/
  properties : ι → A
  /-- the start-ups that came to their end -/
  deployments : List (ι × Deployment A)

/-- What a process cannot foresee. -/
structure Choice where
  /-- which service answers -/
  peer : ℕ
  /-- the file can be read or written -/
  fileWorks : Bool
  /-- the node gets the transaction -/
  accepted : Bool

namespace Net

/-- Nothing was mined or sent. -/
def init : Net ι A := ⟨[], [], fun _ => 0, fun _ => 0, fun _ => 0, []⟩

/-- What the node knows as `latest`. -/
def view (net : Net ι A) (i : ι) : List (Mined ι A) := net.chain.take (net.synced i)

variable (create : ι → ℕ → A)

/-- What an operation of process `i` does. One without a result is not over yet. -/
def perform (i : ι) (choice : Choice) (net : Net ι A) : (o : Op A) → Option (o.Ans × Net ι A)
  | .getTransactionCount =>
    some ((), { net with
      accountNonce := Function.update net.accountNonce i (transactionCount i (net.view i)) })
  | .getConfiguration =>
    net.deployments[choice.peer]?.map fun deployment => (deployment.2.registrar, net)
  | .getStoredRegistrarAddress =>
    some (if choice.fileWorks then net.properties i else (0 : A), net)
  | .storeRegistrarAddress registrarAddress =>
    some ((), { net with
      properties :=
        Function.update net.properties i (if choice.fileWorks then registrarAddress else 0) })
  | .hasContractAtAddress contractAddress =>
    some (((storage create (net.view i)).code contractAddress).isSome, net)
  | .waitForContractAtAddress contractAddress =>
    if ((storage create (net.view i)).code contractAddress).isSome then some ((), net) else none
  | .getAddress registrar name =>
    -- the call of an address without this contract returns nothing, which cannot be decoded
    if (storage create (net.view i)).code registrar = some .nameToAddressRegistrar then
      some ((storage create (net.view i)).addresses registrar name, net)
    else none
  | .waitForAddress registrar name =>
    if (storage create (net.view i)).code registrar = some .nameToAddressRegistrar then
      if (storage create (net.view i)).addresses registrar name = 0 then none
      else some ((storage create (net.view i)).addresses registrar name, net)
    else none
  | .send action =>
    some (net.accountNonce i, { net with
      accountNonce := Function.update net.accountNonce i (net.accountNonce i + 1)
      sent :=
        if choice.accepted then net.sent ++ [⟨i, net.accountNonce i, action⟩] else net.sent })
  | .receipt nonce action =>
    -- the receipt is asked for by the hash, so it is that of this transaction
    if (net.view i).any fun m => m.tx = ⟨i, nonce, action⟩ then some (create i nonce, net)
    else none
  | .register deployment =>
    some ((), { net with deployments := net.deployments ++ [(i, deployment)] })
  | .throw => none

/-- A service that is up sends a transaction. -/
def call (i : ι) (action : Action A) (net : Net ι A) : Net ι A :=
  { net with
    accountNonce := Function.update net.accountNonce i (net.accountNonce i + 1)
    sent := net.sent ++ [⟨i, net.accountNonce i, action⟩] }

end Net

/-! ### The system -/

/-- The net and the processes of all machines. -/
structure System (ι A : Type) where
  net : Net ι A
  processes : ι → Option (Process A (Deployment A))

/-- What happens to them. -/
inductive Input (ι A : Type)
  /-- the machine starts a payment service -/
  | start (i : ι)
  /-- the start-up goes on -/
  | advance (i : ι) (choice : Choice)
  /-- the process ends -/
  | stop (i : ι)
  /-- `registerBic`, or another call of the registrar of BICs -/
  | setAddress (i : ι) (name : String) (address : A)
  /-- a call of the payment service -/
  | call (i : ι)
  /-- the transaction at this place among those that were sent is executed next -/
  | mine (n : ℕ) (executed : Bool)
  /-- the node gets to know the chain up to this length -/
  | sync (i : ι) (n : ℕ)

namespace System

variable (create : ι → ℕ → A) (primary : ι)

/-- No process is running. -/
def init : System ι A := ⟨.init, fun _ => none⟩

/-- One step. -/
def step (s : System ι A) : Input ι A → System ι A
  | .start i =>
    match s.processes i with
    | none =>
      { s with processes :=
          Function.update s.processes i (some (paymentServiceMain (i ≠ primary))) }
    | some _ => s
  | .advance i choice =>
    match s.processes i with
    | some (.ask o k) =>
      match s.net.perform create i choice o with
      | some (answer, net) => ⟨net, Function.update s.processes i (some (k answer))⟩
      | none => s
    | _ => s
  | .stop i => { s with processes := Function.update s.processes i none }
  | .setAddress i name address =>
    match s.processes i with
    | some (.done deployment) =>
      { s with net := s.net.call i (.setAddress deployment.bicRegistrar name address) }
    | _ => s
  | .call i =>
    match s.processes i with
    | some (.done _) => { s with net := s.net.call i .other }
    | _ => s
  | .mine n executed =>
    match s.net.sent[n]? with
    | some tx =>
      if tx.nonce = transactionCount tx.sender s.net.chain then
        { s with net := { s.net with chain := s.net.chain ++ [⟨tx, executed⟩] } }
      else s
    | none => s
  | .sync i n =>
    if s.net.synced i ≤ n ∧ n ≤ s.net.chain.length then
      { s with net := { s.net with synced := Function.update s.net.synced i n } }
    else s

/-- The system after the inputs, oldest first. -/
abbrev after (inputs : List (Input ι A)) : System ι A := run (step create primary) init inputs

end System

end StartUp

end Ethiso
