import Ethiso.Framework.Overwrites
import Ethiso.Rpc.JsonRpcFactory

/-!
# Calls of a JSON-RPC client

A method of a proxy that `JsonRpcFactory.newClient` made sends a request and waits for the
response. Jackson reads the response member by member: `setResult` clears the error, also for a
`null`; `setError` clears the result, but not for a `null`. `getResultAs` throws if there is an
error, and converts the result otherwise.

An error without data becomes a `JsonRpcException`, whose constructor forgets the code. Data is
taken for the name of the class of an exception, which is made anew from the message.

Jackson and reflection are not in the repository: they are parameters of the model, for JSON values
of type `ν`, Java classes `τ` and results `ω`. A member that is `null` has no value. The response
comes in time; the arguments of the call are of no matter for what it is taken for.
-/

namespace Ethiso.Rpc

open Abi

/-! ### Responses -/

/-- `JsonRpcResponse.Error`, as it is read. -/
structure ReceivedError (ν : Type) where
  code : ℤ
  message : Option JavaString
  data : Option ν

/-- A `JsonRpcResponse` that is read. -/
structure ReceivedResponse (ν : Type) where
  id : Option JavaString
  jsonRpc : Option JavaString
  result : Option ν
  error : Option (ReceivedError ν)

/-- A member of a JSON object. -/
structure Member (ν : Type) where
  name : JavaString
  value : Option ν

/-- The members in the order of the document. -/
abbrev Document (ν : Type) := List (Member ν)

/-- The member with the result. -/
def RESULT : JavaString := .ofString "result"
/-- The member with the error. -/
def ERROR : JavaString := .ofString "error"
/-- The member with the id of the request. -/
def ID : JavaString := .ofString "id"
/-- The member with the version. -/
def JSON_RPC : JavaString := .ofString "jsonrpc"

/-- `JsonRpcException` -/
structure JsonRpcException where
  message : Option JavaString
  code : ℤ

/-- The constructor hands the message on, and leaves the code as it is. -/
def JsonRpcException.new (message : Option JavaString) (_code : ℤ) : JsonRpcException :=
  ⟨message, 0⟩

/-- How a call fails: an exception of Jackson when it reads or converts, one of the language or of
linking, one that says what `getResultAs` was told, or a checked one that the method does not
declare. -/
inductive Failure
  | unreadable
  | unconvertible
  | linkage
  | jsonRpcException (e : JsonRpcException)
  | illegalState (message : JavaString)
  | thrown (t : Throwable)
  | undeclared (cause : Failure)

/-- How a call ends. -/
inductive Answer (ω : Type)
  | returned (value : ω)
  | failed (e : Failure)

/-- What comes of `forName`, `asSubclass`, `getConstructor` and `newInstance`. The exceptions in
the catch clause are caught, be it that they are thrown on the way or that one of them is made. -/
inductive Instantiation
  | caught
  | uncaught
  | instance_ (t : Throwable) (isCaught : Bool)

/-- Jackson and reflection. -/
structure Libraries (ν τ ω : Type) where
  readString : ν → Option JavaString
  readError : ν → Option (ReceivedError ν)
  convertValue : Option ν → τ → Option ω
  writeValueAsString : ReceivedError ν → JavaString
  valueOf : ν → JavaString
  newInstance : JavaString → Option JavaString → Instantiation

/-- A method of the interface. The class of its results is that of the type argument if it returns
a future; there is none if the argument is no class. The proxy casts a result to the return type:
`null` is none of a primitive type. -/
structure ClientMethod (τ ω : Type) where
  isFuture : Bool
  resultClass : Option τ
  mayThrow : Failure → Bool
  accepts : ω → Bool

namespace ReceivedResponse

variable {ν : Type}

/-- A response before anything is read into it. -/
def new : ReceivedResponse ν := ⟨none, some (.ofString "2.0"), none, none⟩

/-- `setResult`, which clears the error. -/
def setResult (r : ReceivedResponse ν) (result : Option ν) : ReceivedResponse ν :=
  { r with error := none, result := result }

/-- `setError`, which clears the result. -/
def setError (r : ReceivedResponse ν) (error : Option (ReceivedError ν)) : ReceivedResponse ν :=
  match error with
  | some error => { r with result := none, error := some error }
  | none => r

end ReceivedResponse

namespace Libraries

variable {ν τ ω : Type} (lib : Libraries ν τ ω)

/-! ### Reading a response -/

/-- The value for a setter, if it can be read. -/
def readNullable {α : Type} (read : ν → Option α) : Option ν → Option (Option α)
  | none => some none
  | some value => (read value).map some

/-- The setter of the member. There is none for another member, which is an exception. -/
def readMember (r : ReceivedResponse ν) (m : Member ν) : Option (ReceivedResponse ν) :=
  if m.name = RESULT then some (r.setResult m.value)
  else if m.name = ERROR then (readNullable lib.readError m.value).map r.setError
  else if m.name = ID then
    (readNullable lib.readString m.value).map fun id => { r with id := id }
  else if m.name = JSON_RPC then
    (readNullable lib.readString m.value).map fun jsonRpc => { r with jsonRpc := jsonRpc }
  else none

/-- Each member of the document is set in the order of the document. -/
def readResponse (document : Document ν) : Option (ReceivedResponse ν) :=
  document.foldlM lib.readMember .new

/-! ### Calls -/

/-- The text of the error is in the message. -/
def illegalState (error : ReceivedError ν) : Failure :=
  .illegalState (.ofString "Json rpc error " ++ lib.writeValueAsString error)

/-- What is thrown for an error. -/
def thrownFor (error : ReceivedError ν) : Failure :=
  match error.data with
  | none => .jsonRpcException (.new error.message error.code)
  | some data =>
    match lib.newInstance (lib.valueOf data) error.message with
    | .caught => lib.illegalState error
    | .uncaught => .linkage
    | .instance_ t isCaught => if isCaught then lib.illegalState error else .thrown t

/-- `getResultAs` -/
def getResultAs (r : ReceivedResponse ν) (cls : τ) : Answer ω :=
  match r.error with
  | some error => .failed (lib.thrownFor error)
  | none =>
    match lib.convertValue r.result cls with
    | some value => .returned value
    | none => .failed .unconvertible

/-- The handler of the response: how the future is completed. -/
def handle (method : ClientMethod τ ω) (document : Document ν) : Answer ω :=
  match method.resultClass with
  | none => .failed .linkage
  | some cls =>
    match lib.readResponse document with
    | none => .failed .unreadable
    | some r => lib.getResultAs r cls

/-- The call: a future is handed on, otherwise its exception is thrown. -/
def call (method : ClientMethod τ ω) (document : Document ν) : Answer ω :=
  match lib.handle method document with
  | .returned value =>
    if method.isFuture ∨ method.accepts value then .returned value else .failed .linkage
  | .failed e => .failed (if method.isFuture ∨ method.mayThrow e then e else .undeclared e)

end Libraries

/-! ### What a response says -/

section Documents

variable {ν : Type}

/-- There is no member `error`, unless it is `null`. -/
def NoError (document : Document ν) : Prop := ∀ m ∈ document, m.name = ERROR → m.value = none

/-- The last member `error` that is not `null`, and what comes after it. -/
def LastError (document : Document ν) (value : ν) (after : Document ν) : Prop :=
  ∃ before, document = before ++ ⟨ERROR, some value⟩ :: after ∧ NoError after

/-- The last member `result`. -/
def resultMember (document : Document ν) : Option ν :=
  (document.filterMap fun m => if m.name = RESULT then some m.value else none).getLast?.getD none

/-- A document has no error, or a last one. -/
theorem noError_or_lastError (document : Document ν) :
    NoError document ∨ ∃ value after, LastError document value after := by
  induction document with
  | nil => exact Or.inl (List.forall_mem_nil _)
  | cons m document ih =>
    rcases ih with h | ⟨value, after, before, rfl, h⟩
    · by_cases h_name : m.name = ERROR
      · obtain ⟨name, value⟩ := m
        obtain rfl : name = ERROR := h_name
        -- the first member is the last error if it is not null
        cases value with
        | none => exact Or.inl (List.forall_mem_cons.mpr ⟨fun _ => rfl, h⟩)
        | some value => exact Or.inr ⟨value, document, [], rfl, h⟩
      · exact Or.inl (List.forall_mem_cons.mpr ⟨fun hc => absurd hc h_name, h⟩)
    · exact Or.inr ⟨value, after, m :: before, rfl, h⟩

/-- There is a last error if there is one at all. -/
theorem exists_lastError_iff {document : Document ν} :
    (∃ value after, LastError document value after) ↔ ¬NoError document := by
  refine ⟨?_, ?_⟩
  · rintro ⟨value, after, before, rfl, -⟩
    intro h_none
    have h_value := h_none _ (List.mem_append_right before List.mem_cons_self) rfl
    cases h_value
  · exact (noError_or_lastError document).resolve_left

end Documents

/-! ### What is made of it -/

section Content

variable {ν : Type}

/-- A response holds a result or an error. -/
inductive Content (ν : Type)
  | result (value : Option ν)
  | error (error : ReceivedError ν)

/-- What a response says: its error, if there is one, else its result. -/
def ReceivedResponse.content (r : ReceivedResponse ν) : Content ν :=
  match r.error with
  | some error => .error error
  | none => .result r.result

variable {τ ω : Type} (lib : Libraries ν τ ω)

/-- What a member writes. -/
def Member.content (m : Member ν) : Option (Content ν) :=
  if m.name = RESULT then some (.result m.value)
  else if m.name = ERROR then (m.value.bind lib.readError).map .error
  else none

/-- Whether Jackson can read the member. -/
def Member.IsReadable (m : Member ν) : Prop :=
  m.name = RESULT ∨ (m.name = ERROR ∧ ∀ v, m.value = some v → (lib.readError v).isSome = true) ∨
    ((m.name = ID ∨ m.name = JSON_RPC) ∧
      ∀ v, m.value = some v → (lib.readString v).isSome = true)

variable {lib}

/-- A value that may be null is read if it is null or can be read. -/
theorem isSome_readNullable {α : Type} {read : ν → Option α} {value : Option ν} :
    (Libraries.readNullable read value).isSome = true ↔
      ∀ v, value = some v → (read v).isSome = true := by
  cases value with
  | none => exact iff_of_true rfl fun v h => by cases h
  | some v =>
    unfold Libraries.readNullable
    rw [Option.isSome_map]
    exact ⟨fun h v' h_v => Option.some.inj h_v ▸ h, fun h => h v rfl⟩

/-- What a setter does to the content. -/
theorem content_of_readMember {r r' : ReceivedResponse ν} {m : Member ν}
    (h : lib.readMember r m = some r') : r'.content = (m.content lib).getD r.content := by
  unfold Libraries.readMember at h
  unfold Member.content
  split_ifs at h ⊢ with h_result h_error h_id h_jsonRpc
  -- the result is there and the error is cleared
  · obtain rfl := Option.some.inj h
    rfl
  · obtain ⟨error, h_read, rfl⟩ := Option.map_eq_some_iff.mp h
    cases h_value : m.value with
    | none =>
      rw [h_value] at h_read
      obtain rfl := Option.some.inj h_read
      rfl
    -- an error that is there takes the place of the result
    | some v =>
      rw [h_value] at h_read
      obtain ⟨error, h_some, rfl⟩ := Option.map_eq_some_iff.mp h_read
      rw [Option.bind_some, h_some]
      rfl
  · obtain ⟨id, -, rfl⟩ := Option.map_eq_some_iff.mp h
    rfl
  · obtain ⟨jsonRpc, -, rfl⟩ := Option.map_eq_some_iff.mp h
    rfl

/-- **Which members can be read**: all that have a name of the response and a value of its type. -/
theorem isSome_readMember (r : ReceivedResponse ν) (m : Member ν) :
    (lib.readMember r m).isSome = true ↔ m.IsReadable lib := by
  unfold Libraries.readMember Member.IsReadable
  split_ifs with h_result h_error h_id h_jsonRpc
  · exact iff_of_true rfl (Or.inl h_result)
  · have h_not : ¬(m.name = ID ∨ m.name = JSON_RPC) := by
      rw [h_error]
      decide
    rw [Option.isSome_map, isSome_readNullable, or_iff_right h_result,
      or_iff_left fun h => h_not h.1, and_iff_right h_error]
  · rw [Option.isSome_map, isSome_readNullable, or_iff_right h_result,
      or_iff_right fun h => h_error h.1, and_iff_right (Or.inl h_id)]
  · rw [Option.isSome_map, isSome_readNullable, or_iff_right h_result,
      or_iff_right fun h => h_error h.1, and_iff_right (Or.inr h_jsonRpc)]
  -- any other name is refused
  · apply iff_of_false Bool.false_ne_true
    rintro (h | ⟨h, -⟩ | ⟨h | h, -⟩)
    · exact h_result h
    · exact h_error h
    · exact h_id h
    · exact h_jsonRpc h

/-- The last member that writes something decides. -/
theorem content_of_readResponse {document : Document ν} {r : ReceivedResponse ν}
    (h : lib.readResponse document = some r) :
    r.content = (document.filterMap (Member.content lib)).getLast?.getD (.result none) :=
  observe_of_foldlM (fun _ _ _ => content_of_readMember) h

theorem isSome_readResponse {document : Document ν} :
    (lib.readResponse document).isSome = true ↔ ∀ m ∈ document, m.IsReadable lib :=
  isSome_foldlM isSome_readMember

/-! ### Errors and results in a document -/

/-- What an error member says. -/
theorem content_error {v : ν} {error : ReceivedError ν} (h : lib.readError v = some error) :
    Member.content lib ⟨ERROR, some v⟩ = some (.error error) := by
  unfold Member.content
  rw [if_neg (show ERROR ≠ RESULT by decide), if_pos rfl, Option.bind_some, h]
  rfl

/-- Without errors, only results are written. -/
theorem filterMap_content {document : Document ν} (h : NoError document) :
    document.filterMap (Member.content lib) = (document.filterMap fun m =>
      if m.name = RESULT then some m.value else none).map Content.result := by
  rw [List.map_filterMap]
  apply List.filterMap_congr
  intro m h_m
  unfold Member.content
  split_ifs with h_result h_error
  · rfl
  · rw [h m h_m h_error]
    rfl
  · rfl

/-- Without an error, what the last result says. -/
theorem content_of_noError {document : Document ν} {r : ReceivedResponse ν} (h : NoError document)
    (h_read : lib.readResponse document = some r) :
    r.content = .result (resultMember document) := by
  rw [content_of_readResponse h_read, filterMap_content h, List.getLast?_map]
  unfold resultMember
  cases (document.filterMap fun m => if m.name = RESULT then some m.value else none).getLast? <;>
    rfl

/-- The last error decides unless there is a result after it. -/
theorem content_of_lastError {document after : Document ν} {v : ν} {r : ReceivedResponse ν}
    {error : ReceivedError ν} (h : LastError document v after)
    (h_read : lib.readResponse document = some r) (h_error : lib.readError v = some error) :
    r.content = ((after.filterMap fun m =>
      if m.name = RESULT then some m.value else none).map Content.result).getLast?.getD
        (.error error) := by
  obtain ⟨before, rfl, h_after⟩ := h
  rw [content_of_readResponse h_read, List.filterMap_append,
    List.filterMap_cons_some (content_error h_error), filterMap_content h_after,
    List.getLast?_append, List.getLast?_cons]
  rfl

/-- No results, by the names. -/
theorem results_eq_nil {document : Document ν} : (document.filterMap fun m =>
    if m.name = RESULT then some m.value else none) = [] ↔ ∀ m ∈ document, m.name ≠ RESULT := by
  rw [List.filterMap_eq_nil_iff]
  apply forall₂_congr
  intro m _
  split_ifs with h_name
  · exact iff_of_false id (not_not.mpr h_name)
  · exact iff_of_true rfl h_name

end Content

/-! ### Truthful calls -/

section Truthful

variable {ν τ ω : Type}

/-- The message of the error is the message of the exception, or it is in the text of the error
there. -/
def Failure.CarriesMessage (lib : Libraries ν τ ω) (error : ReceivedError ν) : Failure → Prop
  | .jsonRpcException e => e.message = error.message
  | .thrown t => t.message = error.message
  | .illegalState message => lib.writeValueAsString error <:+: message
  | .undeclared cause => cause.CarriesMessage lib error
  | _ => False

/-- The code that a failure carries. -/
def Failure.code : Failure → Option ℤ
  | .jsonRpcException e => some e.code
  | .undeclared cause => cause.code
  | _ => none

/-- The exception is one for the error: it has its message, and its code if there is no data. -/
def Failure.Tells (lib : Libraries ν τ ω) (error : ReceivedError ν) (e : Failure) : Prop :=
  e.CarriesMessage lib error ∧ (error.data = none → e.code = some error.code)

/-- The call fails if there is an error, and tells which. Otherwise it returns the result. -/
structure Truthful (lib : Libraries ν τ ω) (method : ClientMethod τ ω) (document : Document ν) :
    Prop where
  fails : ∀ v after, LastError document v after → ∃ error e, lib.readError v = some error ∧
    lib.call method document = .failed e ∧ e.Tells lib error
  returns : NoError document → ∃ cls value, method.resultClass = some cls ∧
    lib.convertValue (resultMember document) cls = some value ∧
    lib.call method document = .returned value

/-- The code is zero if there is no data. Otherwise the exception that the data names is not made,
or it is one of those that are caught, or it has the message. -/
def IsTold (lib : Libraries ν τ ω) (error : ReceivedError ν) : Prop :=
  match error.data with
  | none => error.code = 0
  | some data =>
    match lib.newInstance (lib.valueOf data) error.message with
    | .caught => True
    | .uncaught => False
    | .instance_ t isCaught => isCaught = true ∨ t.message = error.message

/-- A result that the caller gets. -/
def ClientMethod.Returns (method : ClientMethod τ ω) (value : ω) : Prop :=
  method.isFuture = true ∨ method.accepts value = true

/-- What a client understands: members that it can read, no result after an error, an error that
it can tell of, a result that it can convert and return. -/
structure IsUnderstood (lib : Libraries ν τ ω) (method : ClientMethod τ ω)
    (document : Document ν) : Prop where
  readable : ∀ m ∈ document, m.IsReadable lib
  errors : ∀ v after, LastError document v after → (∀ m ∈ after, m.name ≠ RESULT) ∧
    ∀ error, lib.readError v = some error → IsTold lib error
  result : ∃ cls, method.resultClass = some cls ∧ (NoError document → ∃ value,
    lib.convertValue (resultMember document) cls = some value ∧ method.Returns value)

variable {lib : Libraries ν τ ω} {method : ClientMethod τ ω} {document : Document ν}

/-- The exception for an error with data tells of it. -/
theorem tells_illegalState {error : ReceivedError ν} (h : error.data ≠ none) :
    (lib.illegalState error).Tells lib error :=
  ⟨List.suffix_append _ _ |>.isInfix, fun h_none => absurd h_none h⟩

/-- Which errors the exception tells of. -/
theorem tells_thrownFor {error : ReceivedError ν} :
    (lib.thrownFor error).Tells lib error ↔ IsTold lib error := by
  unfold Libraries.thrownFor IsTold
  cases h_data : error.data with
  | none =>
    -- the constructor has set the code to zero
    refine ⟨?_, ?_⟩
    · intro h
      exact (Option.some.inj (h.2 h_data)).symm
    · intro h
      exact ⟨rfl, fun _ => congrArg some h.symm⟩
  | some data =>
    have h_ne : error.data ≠ none := by simp [h_data]
    dsimp only
    cases lib.newInstance (lib.valueOf data) error.message with
    | caught => exact iff_of_true (tells_illegalState h_ne) trivial
    | uncaught => exact iff_of_false (fun h => h.1) not_false
    | instance_ t isCaught =>
      cases isCaught with
      | true => exact iff_of_true (tells_illegalState h_ne) (Or.inl rfl)
      | false =>
        refine ⟨?_, ?_⟩
        · intro h
          exact Or.inr h.1
        · rintro (h | h)
          · cases h
          · exact ⟨h, fun h_none => absurd h_none h_ne⟩

/-- What is thrown by the call tells what the future was completed with. -/
theorem call_fails_iff {error : ReceivedError ν} :
    (∃ e, lib.call method document = .failed e ∧ e.Tells lib error) ↔
      ∃ e, lib.handle method document = .failed e ∧ e.Tells lib error := by
  unfold Libraries.call
  cases lib.handle method document with
  | returned value =>
    apply iff_of_false
    -- a value that the proxy cannot cast is no error of the response
    · rintro ⟨e, h_eq, h_tells⟩
      dsimp only at h_eq
      split_ifs at h_eq
      obtain rfl := Answer.failed.inj h_eq
      exact h_tells.1
    · simp
  | failed e =>
    dsimp only
    simp only [Answer.failed.injEq, exists_eq_left']
    split_ifs <;> rfl

/-- **A call returns** what is handled, if the method can return it. -/
theorem call_returned_iff {value : ω} : lib.call method document = .returned value ↔
    lib.handle method document = .returned value ∧ method.Returns value := by
  unfold Libraries.call ClientMethod.Returns
  cases lib.handle method document with
  | failed e => simp
  | returned value' =>
    dsimp only
    split_ifs with h_returns
    -- the value is one for the method
    · refine ⟨?_, ?_⟩
      · intro h
        obtain rfl := Answer.returned.inj h
        exact ⟨rfl, h_returns⟩
      · intro h
        exact h.1
    -- it is not, and the proxy throws
    · apply iff_of_false
      · simp
      · intro h
        obtain rfl := Answer.returned.inj h.1
        exact h_returns h.2

/-- The handler returns a result or throws an error that it has read. -/
theorem handle_eq {cls : τ} {r : ReceivedResponse ν} (h_cls : method.resultClass = some cls)
    (h_read : lib.readResponse document = some r) : lib.handle method document =
      match r.content with
      | .error error => .failed (lib.thrownFor error)
      | .result value =>
        match lib.convertValue value cls with
        | some value => .returned value
        | none => .failed .unconvertible := by
  unfold Libraries.handle Libraries.getResultAs ReceivedResponse.content
  rw [h_cls]
  dsimp only
  rw [h_read]
  dsimp only
  cases r.error <;> rfl

/-- The last error was read. -/
theorem LastError.isSome_readError {v : ν} {after : Document ν} (h : LastError document v after)
    (h_readable : ∀ m ∈ document, m.IsReadable lib) : (lib.readError v).isSome = true := by
  obtain ⟨before, rfl, -⟩ := h
  rcases h_readable _ (List.mem_append_right before List.mem_cons_self) with
    h_name | ⟨-, h_value⟩ | ⟨h_name, -⟩
  · exact absurd h_name (show ERROR ≠ RESULT by decide)
  · exact h_value v rfl
  · exact absurd h_name (show ¬(ERROR = ID ∨ ERROR = JSON_RPC) by decide)

/-- If the classes are there and the document can be read, there is a response. -/
theorem exists_read (h_linkage : lib.handle method document ≠ .failed .linkage)
    (h_unreadable : lib.handle method document ≠ .failed .unreadable) :
    ∃ cls r, method.resultClass = some cls ∧ lib.readResponse document = some r := by
  unfold Libraries.handle at h_linkage h_unreadable
  cases h_cls : method.resultClass with
  | none =>
    rw [h_cls] at h_linkage
    exact absurd rfl h_linkage
  | some cls =>
    rw [h_cls] at h_unreadable
    cases h_read : lib.readResponse document with
    | none =>
      rw [h_read] at h_unreadable
      exact absurd rfl h_unreadable
    | some r => exact ⟨cls, r, rfl, rfl⟩

/-- An error that was read is told if no result comes after it. -/
theorem fails_iff {cls : τ} {r : ReceivedResponse ν} (h_cls : method.resultClass = some cls)
    (h_read : lib.readResponse document = some r) {v : ν} {after : Document ν}
    {error : ReceivedError ν} (h : LastError document v after)
    (h_error : lib.readError v = some error) :
    (∃ e, lib.call method document = .failed e ∧ e.Tells lib error) ↔
      (∀ m ∈ after, m.name ≠ RESULT) ∧ IsTold lib error := by
  rw [call_fails_iff, handle_eq h_cls h_read, content_of_lastError h h_read h_error,
    ← results_eq_nil]
  generalize (after.filterMap fun m => if m.name = RESULT then some m.value else none) = values
  cases values using List.reverseRecOn with
  | nil =>
    -- nothing clears the error
    rw [and_iff_right rfl, ← tells_thrownFor]
    refine ⟨?_, ?_⟩
    · rintro ⟨e, h_eq, h_tells⟩
      obtain rfl := Answer.failed.inj h_eq
      exact h_tells
    · intro h_tells
      exact ⟨_, rfl, h_tells⟩
  | append_singleton values value =>
    rw [List.map_append, List.map_singleton, List.getLast?_concat, Option.getD_some]
    apply iff_of_false
    -- the result is returned, or it cannot be converted
    · rintro ⟨e, h_eq, h_tells⟩
      dsimp only at h_eq
      split at h_eq
      · cases h_eq
      · cases h_eq
        exact h_tells.1
    · intro hc
      exact List.cons_ne_nil _ _ (List.append_eq_nil_iff.mp hc.1).2

/-- A truthful call does not fail before there is a response. -/
theorem Truthful.exists_read (h : Truthful lib method document) :
    ∃ cls r, method.resultClass = some cls ∧ lib.readResponse document = some r := by
  by_cases h_none : NoError document
  · obtain ⟨-, value, -, -, h_call⟩ := h.returns h_none
    have h_handle := (call_returned_iff.mp h_call).1
    exact Rpc.exists_read (by simp [h_handle]) (by simp [h_handle])
  · obtain ⟨v, after, h_last⟩ := exists_lastError_iff.mpr h_none
    obtain ⟨error, e, -, h_call, h_tells⟩ := h.fails v after h_last
    obtain ⟨e', h_handle, h_tells'⟩ := call_fails_iff.mp ⟨e, h_call, h_tells⟩
    -- an exception that tells the error is none of reading or linking
    apply Rpc.exists_read
    · intro hc
      cases h_handle.symm.trans hc
      exact h_tells'.1
    · intro hc
      cases h_handle.symm.trans hc
      exact h_tells'.1

/-- A truthful answer has been understood. -/
theorem Truthful.isUnderstood (h : Truthful lib method document) :
    IsUnderstood lib method document := by
  obtain ⟨cls, r, h_cls, h_read⟩ := h.exists_read
  refine ⟨?_, ?_, cls, h_cls, ?_⟩
  · rw [← isSome_readResponse, h_read]
    rfl
  -- the last error decides
  · intro v after h_last
    obtain ⟨error, e, h_error, h_call, h_tells⟩ := h.fails v after h_last
    obtain ⟨h_after, h_told⟩ := (fails_iff h_cls h_read h_last h_error).mp ⟨e, h_call, h_tells⟩
    refine ⟨h_after, ?_⟩
    intro error' h_error'
    rwa [← Option.some.inj (h_error.symm.trans h_error')]
  -- no error: the value is converted
  · intro h_none
    obtain ⟨cls', value, h_cls', h_value, h_call⟩ := h.returns h_none
    obtain rfl := Option.some.inj (h_cls.symm.trans h_cls')
    exact ⟨value, h_value, (call_returned_iff.mp h_call).2⟩

theorem IsUnderstood.truthful (h : IsUnderstood lib method document) :
    Truthful lib method document := by
  obtain ⟨cls, h_cls, h_convert⟩ := h.result
  obtain ⟨r, h_read⟩ := Option.isSome_iff_exists.mp (isSome_readResponse.mpr h.readable)
  refine ⟨?_, ?_⟩
  · intro v after h_last
    obtain ⟨h_after, h_told⟩ := h.errors v after h_last
    obtain ⟨error, h_error⟩ := Option.isSome_iff_exists.mp (h_last.isSome_readError h.readable)
    obtain ⟨e, h_call, h_tells⟩ :=
      (fails_iff h_cls h_read h_last h_error).mpr ⟨h_after, h_told error h_error⟩
    exact ⟨error, e, h_error, h_call, h_tells⟩
  · intro h_none
    obtain ⟨value, h_value, h_returns⟩ := h_convert h_none
    refine ⟨cls, value, h_cls, h_value, call_returned_iff.mpr ⟨?_, h_returns⟩⟩
    -- the content is the last result
    rw [handle_eq h_cls h_read, content_of_noError h_none h_read]
    show (match lib.convertValue (resultMember document) cls with
      | some value => Answer.returned value
      | none => .failed .unconvertible) = .returned value
    rw [h_value]

/-- **Errors of a response.** A call tells the error in a response, or returns the result if there
is none, if and only if it understands the response. -/
theorem truthful_iff (lib : Libraries ν τ ω) (method : ClientMethod τ ω) (document : Document ν) :
    Truthful lib method document ↔ IsUnderstood lib method document :=
  ⟨Truthful.isUnderstood, IsUnderstood.truthful⟩

/-! ### A code that is lost -/

/-- An error without data. -/
def sampleError : ReceivedError JavaString := ⟨1234, some (.ofString "error message"), none⟩

/-- An error with a code. -/
def sampleText : JavaString := .ofString "\x7b\"code\":1234,\"message\":\"error message\"\x7d"

/-- Values are texts. -/
def sampleLibraries : Libraries JavaString Unit JavaString where
  readString := some
  readError text := if text = sampleText then some sampleError else none
  convertValue text _ := text
  writeValueAsString _ :=
    .ofString "\x7b\"code\":1234,\"message\":\"error message\",\"data\":null\x7d"
  valueOf text := text
  newInstance _ _ := .caught

/-- The method of the sample. -/
def sampleMethod : ClientMethod Unit JavaString := ⟨false, some (), fun _ => true, fun _ => true⟩

/-- The error is taken for one with the code 0. -/
theorem not_truthful_code :
    ¬Truthful sampleLibraries sampleMethod [⟨ERROR, some sampleText⟩] := by
  intro h
  -- the error is read, and thrown without its code
  have h_read : sampleLibraries.readError sampleText = some sampleError := by
    show (if sampleText = sampleText then some sampleError else none) = some sampleError
    rw [if_pos rfl]
  have h_failed : sampleLibraries.call sampleMethod [⟨ERROR, some sampleText⟩] =
      .failed (.jsonRpcException ⟨sampleError.message, 0⟩) := rfl
  obtain ⟨error, e, h_error, h_call, h_tells⟩ :=
    h.fails sampleText [] ⟨[], rfl, List.forall_mem_nil _⟩
  obtain rfl := Option.some.inj (h_read.symm.trans h_error)
  obtain rfl := Answer.failed.inj (h_failed.symm.trans h_call)
  have h_code : (0 : ℤ) = 1234 := Option.some.inj (h_tells.2 rfl)
  exact absurd h_code (by decide)

end Truthful

end Ethiso.Rpc
