import Ethiso.Service.StartUpInvariant
import Mathlib.Algebra.GroupWithZero.Nat

/-!
# One deployment

All services that ever get up use the same three contracts, whatever else happens: processes end
at any point and start again, what they have sent is executed later or never, installations run
out of gas, nodes lag behind, and the services that are up write their registrar of BICs
(`one_deployment`). And once a service is up, start-ups send no transaction any more
(`installed_once`). It takes that the file of the primary works and that the writes of registrars
do not run out of gas.

The start-ups are threads over one net. A thread of the primary relies on the others to leave its
nonce and its file alone and not to be up before it; a secondary relies on no more than the
invariant `Net.Sound`. The assertions in between say what is known when a transaction is sent
(`Ready`, `Vacant`).
-/

namespace Ethiso

namespace StartUp

open Program

variable {ι A : Type} [DecidableEq ι] [DecidableEq A] [Zero A] (create : ι → ℕ → A) (primary : ι)

/-! ### Interference -/

/-- What process `i` may rely on. -/
structure Rely (i : ι) (s s' : Net ι A) : Prop extends Evolves create primary s s' where
  nonce : s'.accountNonce i = s.accountNonce i
  properties : s'.properties i = s.properties i
  first : i = primary → s.deployments = [] → s'.deployments = []

/-- What process `i` does. -/
structure Guarantee (i : ι) (s s' : Net ι A) : Prop extends Evolves create primary s s' where
  nonce : ∀ j ≠ i, s'.accountNonce j = s.accountNonce j
  properties : ∀ j ≠ i, s'.properties j = s.properties j
  first : i ≠ primary → s.deployments = [] → s'.deployments = []
  /-- once a service is up, start-ups send nothing -/
  quiet : s.deployments ≠ [] → s'.sent = s.sent

/-- What an operation does as long as the file works. -/
def Does (i : ι) (o : Op A) (s : Net ι A) (answer : o.Ans) (s' : Net ι A) : Prop :=
  ∃ choice : Choice, choice.fileWorks = true ∧ s.perform create i choice o = some (answer, s')

/-- When a start-up is through. -/
def Up (d : Deployment A) (s : Net ι A) : Prop :=
  s.Sound create primary ∧ s.Deployed create primary d

/-- Triples of the start-up of `i`. -/
abbrev Starts {α : Type} (i : ι) (P : Net ι A → Prop) (p : Process A α) (Q : α → Net ι A → Prop) :
    Prop :=
  Triple (Does create i) (Rely create primary i) (Guarantee create primary i) P p Q

/-! ### The operations -/

section Operations

variable {create} {i : ι} {s s' : Net ι A} {r a : A} {k : String} {n : ℕ} {action : Action A}
  {d : Deployment A}

/-- The nonce that the node tells. -/
theorem Does.getTransactionCount {x : Unit} (h : Does create i .getTransactionCount s x s') :
    s' = { s with
      accountNonce := Function.update s.accountNonce i (transactionCount i (s.view i)) } := by
  obtain ⟨choice, -, h⟩ := h
  exact (Prod.mk.inj (Option.some.inj h)).2.symm

/-- The configuration is that of a deployment. -/
theorem Does.getConfiguration {x : A} (h : Does create i .getConfiguration s x s') :
    s' = s ∧ ∃ d ∈ s.deployments, x = d.2.registrar := by
  obtain ⟨choice, -, h⟩ := h
  obtain ⟨d, h_d, h_eq⟩ := Option.map_eq_some_iff.mp h
  obtain ⟨h_x, h_s⟩ := Prod.mk.inj h_eq
  exact ⟨h_s.symm, d, List.mem_of_getElem? h_d, h_x.symm⟩

/-- What the file says. -/
theorem Does.getStoredRegistrarAddress {x : A}
    (h : Does create i .getStoredRegistrarAddress s x s') : s' = s ∧ x = s.properties i := by
  obtain ⟨choice, h_works, h⟩ := h
  obtain ⟨h_x, h_s⟩ := Prod.mk.inj (Option.some.inj h)
  exact ⟨h_s.symm, ((if_pos h_works).symm.trans h_x).symm⟩

/-- What is written into the file. -/
theorem Does.storeRegistrarAddress {x : Unit}
    (h : Does create i (.storeRegistrarAddress r) s x s') :
    s' = { s with properties := Function.update s.properties i r } := by
  obtain ⟨choice, h_works, h⟩ := h
  have h_s := (Prod.mk.inj (Option.some.inj h)).2
  rw [if_pos h_works] at h_s
  exact h_s.symm

/-- Whether the node knows of a contract. -/
theorem Does.hasContractAtAddress {x : Bool}
    (h : Does create i (.hasContractAtAddress a) s x s') :
    s' = s ∧ x = ((storage create (s.view i)).code a).isSome := by
  obtain ⟨choice, -, h⟩ := h
  obtain ⟨h_x, h_s⟩ := Prod.mk.inj (Option.some.inj h)
  exact ⟨h_s.symm, h_x.symm⟩

theorem Does.waitForContractAtAddress {x : Unit}
    (h : Does create i (.waitForContractAtAddress a) s x s') : s' = s := by
  obtain ⟨choice, -, h⟩ := h
  exact (Prod.mk.inj (Option.some.inj (Option.ite_none_right_eq_some.mp h).2)).2.symm

/-- What the registrar answers. -/
theorem Does.getAddress {x : A} (h : Does create i (.getAddress r k) s x s') :
    s' = s ∧ x = (storage create (s.view i)).addresses r k := by
  obtain ⟨choice, -, h⟩ := h
  obtain ⟨h_x, h_s⟩ := Prod.mk.inj (Option.some.inj (Option.ite_none_right_eq_some.mp h).2)
  exact ⟨h_s.symm, h_x.symm⟩

/-- Waiting ends with an answer. -/
theorem Does.waitForAddress {x : A} (h : Does create i (.waitForAddress r k) s x s') :
    s' = s ∧ Registered create (s.view i) r k x := by
  obtain ⟨choice, -, h⟩ := h
  obtain ⟨h_ne, h⟩ := Option.ite_none_left_eq_some.mp (Option.ite_none_right_eq_some.mp h).2
  obtain ⟨h_x, h_s⟩ := Prod.mk.inj (Option.some.inj h)
  exact ⟨h_s.symm, h_x, h_x ▸ h_ne⟩

/-- The transaction takes the next nonce; it may be lost. -/
theorem Does.send {x : ℕ} (h : Does create i (.send action) s x s') :
    x = s.accountNonce i ∧ ∃ sent, (sent = s.sent ∨ sent = s.sent ++ [⟨i, x, action⟩]) ∧
      s' = { s with accountNonce := Function.update s.accountNonce i (x + 1), sent := sent } := by
  obtain ⟨choice, -, h⟩ := h
  obtain ⟨rfl, h_s⟩ := Prod.mk.inj (Option.some.inj h)
  refine ⟨rfl, _, ?_, h_s.symm⟩
  split_ifs
  · exact Or.inr rfl
  · exact Or.inl rfl

/-- A receipt is one of a mined transaction. -/
theorem Does.receipt {x : A} (h : Does create i (.receipt n action) s x s') :
    s' = s ∧ x = create i n ∧ ∃ executed, ⟨⟨i, n, action⟩, executed⟩ ∈ s.view i := by
  obtain ⟨choice, -, h⟩ := h
  obtain ⟨h_any, h⟩ := Option.ite_none_right_eq_some.mp h
  obtain ⟨h_x, h_s⟩ := Prod.mk.inj (Option.some.inj h)
  obtain ⟨⟨tx, executed⟩, h_m, h_tx⟩ := List.any_eq_true.mp h_any
  obtain rfl := of_decide_eq_true h_tx
  exact ⟨h_s.symm, h_x.symm, executed, h_m⟩

theorem Does.register {x : Unit} (h : Does create i (.register d) s x s') :
    s' = { s with deployments := s.deployments ++ [(i, d)] } := by
  obtain ⟨choice, -, h⟩ := h
  exact (Prod.mk.inj (Option.some.inj h)).2.symm

end Operations

section Interference

variable {create primary} {i : ι} {s s' s'' : Net ι A} {α : Type} {P : Net ι A → Prop}
  {Q : α → Net ι A → Prop}

/-- A process may rely on nothing happening. -/
theorem Rely.refl (s : Net ι A) : Rely create primary i s s :=
  ⟨Evolves.refl s, rfl, rfl, fun _ => id⟩

theorem Rely.trans (h : Rely create primary i s s') (h' : Rely create primary i s' s'') :
    Rely create primary i s s'' where
  toEvolves := h.toEvolves.trans h'.toEvolves
  nonce := h'.nonce.trans h.nonce
  properties := h'.properties.trans h.properties
  first h_i := h'.first h_i ∘ h.first h_i

/-- What one process guarantees, the others may rely on. -/
theorem Guarantee.rely (h : Guarantee create primary i s s') {j : ι} (h_j : j ≠ i) :
    Rely create primary j s s' where
  toEvolves := h.toEvolves
  nonce := h.nonce j h_j
  properties := h.properties j h_j
  first h_primary := h.first fun h_i => h_j (h_primary.trans h_i.symm)

theorem Guarantee.refl (s : Net ι A) : Guarantee create primary i s s :=
  ⟨Evolves.refl s, fun _ _ => rfl, fun _ _ => rfl, fun _ => id, fun _ => rfl⟩

/-- An operation that only reads. -/
theorem Starts.read {o : Op A} {k : o.Ans → Process A α} {M : o.Ans → Net ι A → Prop}
    (h_stable : Stable (Rely create primary i) P)
    (h_does : ∀ s answer s', P s → Does create i o s answer s' → s' = s ∧ M answer s)
    (h_k : ∀ answer, Starts create primary i (M answer) (k answer) Q) :
    Starts create primary i P (.ask o k) Q := by
  refine Triple.ask h_stable (fun s answer s' h_s h => ?_) h_k
  obtain ⟨rfl, h_M⟩ := h_does s answer s' h_s h
  exact ⟨Guarantee.refl s', h_M⟩

theorem sound_stable : Stable (Rely create primary i) fun s => s.Sound create primary :=
  fun _ _ h h_rely => h_rely.sound h

theorem up_stable (d : Deployment A) : Stable (Rely create primary i) (Up create primary d) :=
  fun _ _ h h_rely => ⟨h_rely.sound h.1, h_rely.deployed h.1 h.2⟩

/-- An entry that the node knows. -/
theorem Rely.registered (h : Rely create primary i s s') (h_s : s.Sound create primary) {r a : A}
    {k : String} (h_r : r ≠ 0) (h_F : s.properties primary = r) (j : ι)
    (h_a : Registered create (s.view j) r k a) : Registered create (s'.view j) r k a := by
  have h_F' : s'.properties primary = r := by rw [h.registrar (h_F ▸ h_r), h_F]
  rw [← h_F'] at h_a ⊢
  exact (h.sound h_s).stable (view_prefix_chain j) (h.view j) h_a

end Interference

/-- The last step of every start-up. -/
theorem register_up {create : ι → ℕ → A} {primary i : ι} {d : Deployment A} {P : Net ι A → Prop}
    (h_P : Stable (Rely create primary i) P) (h_up : ∀ s, P s → Up create primary d s)
    (h_settled : ∀ s, P s → ∀ k contract, Keyed k contract →
      ∃ a, Registered create (s.view primary) (s.properties primary) k a)
    (h_first : ∀ s, P s → i ≠ primary → s.deployments ≠ []) :
    Starts create primary i P (register d >>= fun _ => pure d) (Up create primary) := by
  refine Triple.ask (M := fun _ => Up create primary d) h_P (fun s _ s' h_s h => ?_) fun _ =>
    Triple.done (up_stable d) fun _ => id
  -- the deployment is noted, nothing else happens
  obtain rfl := h.register
  obtain ⟨h_sound, h_d⟩ := h_up s h_s
  have h_evolves := h_sound.register (i := i) h_d (h_settled s h_s)
  refine ⟨⟨h_evolves, fun _ _ => rfl, fun _ _ => rfl, ?_, fun _ => rfl⟩,
    h_evolves.sound h_sound, h_evolves.deployed h_sound h_d⟩
  exact fun h_i h_nil => absurd h_nil (h_first s h_s h_i)

/-! ### Secondaries -/

section Secondary

variable {i : ι} {r a : A} {k : String} {contract : ContractName} {J : Net ι A → Prop}

/-- The start-up of a secondary knows the registrar. -/
structure Told (r : A) (s : Net ι A) : Prop where
  sound : s.Sound create primary
  registrar : s.properties primary = r
  registrar_ne : r ≠ 0
  deployments : s.deployments ≠ []

variable {create primary}

/-- What was told stays so. -/
theorem told_stable : Stable (Rely create primary i) (Told create primary r) := by
  intro s s' h h_rely
  have h_F : s.properties primary ≠ 0 := h.registrar.trans_ne h.registrar_ne
  refine ⟨h_rely.sound h.sound, (h_rely.registrar h_F).trans h.registrar, h.registrar_ne, ?_⟩
  exact fun h_nil => h.deployments (List.prefix_nil.mp (h_nil ▸ h_rely.deployments))

/-- Entries that were read from any node stay. -/
theorem told_entry_stable : Stable (Rely create primary i) fun s =>
    Told create primary r s ∧ Registered create s.chain r k a := by
  intro s s' h h_rely
  have h' := told_stable s s' h.1 h_rely
  refine ⟨h', ?_⟩
  have h_a := h.2
  rw [← h'.registrar] at h_a ⊢
  exact h'.sound.stable List.prefix_rfl h_rely.chain h_a

/-- Waiting for a contract changes nothing. -/
theorem contractProxy_wait (h_a : a ≠ 0) (h_J : Stable (Rely create primary i) J) :
    Starts create primary i J (contractProxy .wait contract a) fun x s => x = a ∧ J s := by
  unfold contractProxy
  rw [if_neg h_a]
  refine Starts.read (M := fun _ => J) h_J ?_ fun _ => ?_
  · exact fun s _ s' h_s h => ⟨h.waitForContractAtAddress, h_s⟩
  · exact Triple.done h_J fun s h_s => ⟨rfl, h_s⟩

theorem globalRegistrar_wait (h_r : r ≠ 0) (h_J : Stable (Rely create primary i) J) :
    Starts create primary i J (globalRegistrar .wait r) fun x s => x = r ∧ J s := by
  have h_eq : globalRegistrar .wait r = contractProxy .wait .nameToAddressRegistrar r := by
    unfold globalRegistrar checkAddress
    simp only [if_neg h_r]
    exact bind_pure_right _
  rw [h_eq]
  exact contractProxy_wait h_r h_J

theorem registeredProxy_wait (h_a : a ≠ 0) (h_J : Stable (Rely create primary i) J) :
    Starts create primary i J (registeredProxy .wait contract k r a) fun x s => x = a ∧ J s := by
  refine Triple.bind Rely.refl (contractProxy_wait h_a h_J) fun x s h_s => ?_
  obtain ⟨rfl, h_s⟩ := h_s
  rw [if_neg (not_not_intro rfl)]
  exact Triple.done h_J (fun s h_s => ⟨rfl, h_s⟩) s h_s

/-- Reading an entry with the other entries that are known. -/
theorem getAddress_wait
    (h_J : Stable (Rely create primary i) fun s => Told create primary r s ∧ J s) :
    Starts create primary i (fun s => Told create primary r s ∧ J s) (getAddress .wait r k)
      fun x s => (Told create primary r s ∧ Registered create s.chain r k x) ∧ J s := by
  refine Starts.read h_J (M := fun x s =>
    (Told create primary r s ∧ Registered create s.chain r k x) ∧ J s) ?_ fun x => ?_
  · intro s x s' h_s h
    -- the address is the one that is registered, now and later
    obtain ⟨rfl, h_x⟩ := h.waitForAddress
    have h_r := h_s.1.registrar
    refine ⟨rfl, ⟨h_s.1, ?_⟩, h_s.2⟩
    rw [← h_r] at h_x ⊢
    exact h_s.1.sound.stable List.prefix_rfl (view_prefix_chain i) h_x
  · refine Triple.done (fun s s' h h_rely => ?_) fun _ => id
    exact ⟨told_entry_stable s s' h.1 h_rely, (h_J s s' ⟨h.1.1, h.2⟩ h_rely).2⟩

/-- **A process that waits** starts with the deployment that it was told of. -/
theorem deploy_wait (h_r : r ≠ 0) :
    Starts create primary i (Told create primary r) (deploy .wait r) (Up create primary) := by
  unfold deploy
  refine Triple.bind Rely.refl (globalRegistrar_wait h_r told_stable) fun x s h_s => ?_
  -- the registrar is the one of the configuration
  obtain ⟨rfl, h_s⟩ := h_s
  refine (getAddress_wait (J := fun _ => True) ?_).bind Rely.refl (fun b => ?_) s ⟨h_s, trivial⟩
  · exact fun s s' h h_rely => ⟨told_stable s s' h.1 h_rely, trivial⟩
  intro s h_s
  refine (registeredProxy_wait h_s.1.2.2 told_entry_stable).bind Rely.refl (fun b' => ?_) s h_s.1
  rintro s ⟨rfl, h_s⟩
  refine (getAddress_wait told_entry_stable).bind Rely.refl (fun p => ?_) s h_s
  intro s h_s
  -- the entries that it has read stay
  have h_stable : Stable (Rely create primary i) fun s =>
      (Told create primary x s ∧ Registered create s.chain x PAYMENT_SERVICE_KEY p) ∧
        Registered create s.chain x BIC_REGISTRAR_KEY b' :=
    fun s s' h h_rely =>
      ⟨told_entry_stable s s' h.1 h_rely, (told_entry_stable s s' ⟨h.1.1, h.2⟩ h_rely).2⟩
  refine (registeredProxy_wait h_s.1.2.2 h_stable).bind Rely.refl (fun p' => ?_) s h_s
  rintro s ⟨rfl, h_s⟩
  refine register_up h_stable (fun s h => ?_) (fun s h => h.1.1.sound.settled h.1.1.deployments)
    (fun s h _ => h.1.1.deployments) s h_s
  have h_F := h.1.1.registrar
  -- both contracts are those of the deployment
  refine ⟨h.1.1.sound, h_F.symm, h_F.trans_ne h.1.1.registrar_ne, ?_, ?_⟩
  · rw [h_F]
    exact h.2
  · rw [h_F]
    exact h.1.2

end Secondary

/-! ### The primary -/

section Primary

variable {r a : A} {k : String} {contract : ContractName} {action : Action A} {n : ℕ}
  {J : Net ι A → Prop} {K : String → Prop}

/-- The next transaction of the primary will be executed, if at all, after no transactions but
those that its node knows. -/
structure Ready (n : ℕ) (s : Net ι A) : Prop where
  sound : s.Sound create primary
  nonce : n ≤ transactionCount primary (s.view primary)
  registrar : s.properties primary ≠ 0 →
    Installed create primary (s.view primary) n .nameToAddressRegistrar (s.properties primary)

/-- No service is up, and the entries of the keys are still unset for the nonce. -/
structure Vacant (K : String → Prop) (n : ℕ) (s : Net ι A) : Prop where
  first : s.deployments = []
  unset : ∀ k, K k → Unset s.chain (s.properties primary) k n

/-- What a transaction that is sent leaves alone. -/
structure Framed (J : Net ι A → Prop) : Prop where
  stable : Stable (Rely create primary primary) J
  send : ∀ s s', J s → s'.Sound create primary → s'.view primary = s.view primary →
    s'.properties primary = s.properties primary → J s'

/-- The primary can send transaction `n`. -/
structure CanSend (K : String → Prop) (J : Net ι A → Prop) (n : ℕ) (s : Net ι A) : Prop where
  next : s.accountNonce primary = n
  ready : Ready create primary n s
  vacant : Vacant primary K n s
  frame : J s

/-- The transaction `n` has been sent, and nothing has come back yet. -/
structure Sending (K : String → Prop) (J : Net ι A → Prop) (n : ℕ) (s : Net ι A) : Prop where
  next : s.accountNonce primary = n + 1
  ready : Ready create primary n s
  vacant : Vacant primary K n s
  frame : J s

/-- The receipt of transaction `n` has come. -/
def Received (action : Action A) (n : ℕ) (s : Net ι A) : Prop :=
  Ready create primary n s ∧ ∃ executed, ⟨⟨primary, n, action⟩, executed⟩ ∈ s.view primary

/-- The contract was installed before transaction `n`. -/
structure Fresh (contract : ContractName) (x : A) (n : ℕ) (s : Net ι A) : Prop where
  installed : Installed create primary (s.view primary) n contract x
  ne : x ≠ s.properties primary

/-- The registrar is in the file, and the node of the primary knows these entries of it. -/
structure Knows (r : A) (entries : List (String × A)) (s : Net ι A) : Prop where
  sound : s.Sound create primary
  registrar : s.properties primary = r
  registrar_ne : r ≠ 0
  entries : ∀ e ∈ entries, Registered create (s.view primary) r e.1 e.2

/-- Between the transactions of a start-up of the primary. -/
def Between (r : A) (entries : List (String × A)) (s : Net ι A) : Prop :=
  Ready create primary (s.accountNonce primary) s ∧ Knows create primary r entries s

/-- What the primary knows when it has read `b` for a key. -/
def HasRead (r : A) (entries : List (String × A)) (k : String) (b : A) (s : Net ι A) : Prop :=
  Between create primary r entries s ∧
    (b = 0 → Vacant primary (· = k) (s.accountNonce primary) s) ∧
    (b ≠ 0 → Registered create (s.view primary) r k b)

/-- The primary has no registrar yet. -/
def NoRegistrar (s : Net ι A) : Prop := s.properties primary = 0

variable {create primary}

/-- The primary stays ready while others act. -/
theorem Ready.rely {s s' : Net ι A} (h : Ready create primary n s)
    (h_rely : Rely create primary primary s s') : Ready create primary n s' := by
  have h_view := h_rely.view primary
  refine ⟨h_rely.sound h.sound, h.nonce.trans (ownCount_mono h_view), fun h_F => ?_⟩
  rw [h_rely.properties] at h_F ⊢
  exact (h.registrar h_F).mono h_view (Nat.le_refl n)

/-- A key stays vacant. -/
theorem Vacant.rely {s s' : Net ι A} (h : Vacant primary K n s)
    (h_ready : Ready create primary n s) (h_rely : Rely create primary primary s s') :
    Vacant primary K n s' := by
  refine ⟨h_rely.first rfl h.first, fun k h_k m h_m a h_action => ?_⟩
  rw [h_rely.properties] at h_action
  by_cases h_old : m ∈ s.chain
  · exact h.unset k h_k m h_old a h_action
  · -- a transaction that was executed since
    have h_sound := h_rely.sound h_ready.sound
    rw [← h_rely.properties] at h_action
    rw [h_sound.ordered.mem_iff h_rely.chain h_m, (h_sound.write h_m h_action).1, not_lt] at h_old
    exact (h_ready.nonce.trans (ownCount_mono (view_prefix_chain primary))).trans h_old

theorem sending_stable (h_J : Framed create primary J) :
    Stable (Rely create primary primary) (Sending create primary K J n) :=
  fun s s' h h_rely => ⟨h_rely.nonce.trans h.next, h.ready.rely h_rely,
    h.vacant.rely h.ready h_rely, h_J.stable s s' h.frame h_rely⟩

theorem canSend_stable (h_J : Framed create primary J) :
    Stable (Rely create primary primary) (CanSend create primary K J n) :=
  fun s s' h h_rely => ⟨h_rely.nonce.trans h.next, h.ready.rely h_rely,
    h.vacant.rely h.ready h_rely, h_J.stable s s' h.frame h_rely⟩

theorem received_stable : Stable (Rely create primary primary)
    (Received create primary action n) := by
  rintro s s' ⟨h_ready, executed, h_m⟩ h_rely
  exact ⟨h_ready.rely h_rely, executed, (h_rely.view primary).subset h_m⟩

/-- A transaction from its sending to its receipt. -/
theorem transact_primary (K' : String → Prop) (h_J : Framed create primary J)
    (h_permitted : ∀ s, CanSend create primary K J n s →
      s.Permitted create primary ⟨primary, n, action⟩)
    (h_K : ∀ k, K' k → K k ∧ ∀ r a, action ≠ .setAddress r k a) :
    Starts create primary primary (CanSend create primary K J n) (transact action) fun x s =>
      x = create primary n ∧ CanSend create primary K' J (n + 1) s ∧
        Received create primary action n s := by
  refine Triple.ask (M := fun x s => x = n ∧ Sending create primary K J n s)
    (canSend_stable h_J) ?_ fun (x : ℕ) s h_s => ?_
  · intro s x s' h_s h
    -- the transaction is sent, or lost
    obtain ⟨rfl, sent, h_sent, rfl⟩ := h.send
    obtain rfl := h_s.next
    have h_evolves : Evolves create primary s { s with
        accountNonce := Function.update s.accountNonce primary (s.accountNonce primary + 1)
        sent := sent } := by
      cases h_sent with
      | inl h_sent =>
        subst h_sent
        exact h_s.ready.sound.setNonce _
      | inr h_sent =>
        subst h_sent
        exact h_s.ready.sound.send (h_permitted s h_s) _
    have h_sound := h_evolves.sound h_s.ready.sound
    refine ⟨⟨h_evolves, fun j h_j => Function.update_of_ne h_j .., fun _ _ => rfl,
      fun h_ne => absurd rfl h_ne, fun h_ne => absurd h_s.vacant.first h_ne⟩,
      rfl, Function.update_self .., ⟨h_sound, h_s.ready.nonce, h_s.ready.registrar⟩,
      ⟨h_s.vacant.first, h_s.vacant.unset⟩, h_J.send s _ h_s.frame h_sound rfl rfl⟩
  · obtain ⟨rfl, h_s⟩ := h_s
    refine Starts.read (o := .receipt x action) (M := fun y s => y = create primary x ∧
      CanSend create primary K' J (x + 1) s ∧ Received create primary action x s)
      (sending_stable h_J) ?_ (fun y => ?_) s h_s
    -- its receipt says that it was mined
    · intro s y s' h_s h
      obtain ⟨rfl, rfl, executed, h_m⟩ := h.receipt
      have h_sound := h_s.ready.sound
      have h_chain := (view_prefix_chain primary).subset h_m
      have h_lt := (h_sound.ordered.of_prefix (view_prefix_chain primary)).lt_of_mem h_m
      refine ⟨rfl, rfl, ⟨h_s.next, ⟨h_sound, h_lt, fun h_F => ?_⟩,
        ⟨h_s.vacant.first, fun k h_k => ?_⟩, h_s.frame⟩, h_s.ready, executed, h_m⟩
      · exact (h_s.ready.registrar h_F).mono List.prefix_rfl (Nat.le_succ x)
      · exact h_sound.unset_succ h_chain rfl ((h_K k h_k).2 _) (h_s.vacant.unset k (h_K k h_k).1)
    · refine Triple.done (fun s s' h h_rely => ?_) fun _ => id
      exact ⟨h.1, canSend_stable h_J s s' h.2.1 h_rely, received_stable s s' h.2.2 h_rely⟩

theorem fresh_stable {x : A} : Stable (Rely create primary primary)
    (Fresh create primary contract x n) :=
  fun _ _ h h_rely =>
    ⟨h.installed.mono (h_rely.view primary) (Nat.le_refl n), h_rely.properties ▸ h.ne⟩

/-- What is known of the registrar does not depend on the sending. -/
theorem knows_framed {entries : List (String × A)} :
    Framed create primary (Knows create primary r entries) where
  stable _ _ h h_rely :=
    ⟨h_rely.sound h.sound, h_rely.properties.trans h.registrar, h.registrar_ne, fun e h_e =>
      h_rely.registered h.sound h.registrar_ne h.registrar primary (h.entries e h_e)⟩
  send _ _ h h_sound h_view h_F :=
    ⟨h_sound, h_F.trans h.registrar, h.registrar_ne, fun e h_e => h_view ▸ h.entries e h_e⟩

/-- What was registered stays so. -/
theorem between_stable {entries : List (String × A)} :
    Stable (Rely create primary primary) (Between create primary r entries) := by
  intro s s' h h_rely
  have h_ready := h.1.rely h_rely
  rw [← h_rely.nonce] at h_ready
  exact ⟨h_ready, knows_framed.stable s s' h.2 h_rely⟩

theorem throw_starts {i : ι} {α : Type} {P : Net ι A → Prop} {Q : α → Net ι A → Prop} :
    Starts create primary i P throwException Q :=
  fun _ _ _ _ answer => answer.elim

/-- A contract that is there is not installed again. -/
theorem ensureContractInstalled_found (h_J : Stable (Rely create primary primary) J)
    (h_code : ∀ s, J s → ((storage create (s.view primary)).code a).isSome) :
    Starts create primary primary J (ensureContractInstalled contract a) fun x s =>
      x = a ∧ J s := by
  refine Starts.read (M := fun found s => found = true ∧ J s) h_J (fun s found s' h_s h => ?_)
    fun found s h_s => ?_
  · obtain ⟨rfl, rfl⟩ := h.hasContractAtAddress
    exact ⟨rfl, h_code s' h_s, h_s⟩
  · obtain ⟨rfl, h_s⟩ := h_s
    exact Triple.done h_J (fun s h_s => ⟨rfl, h_s⟩) s h_s

variable (h_inj : Function.Injective2 create) (h_create : ∀ i n, create i n ≠ 0)

omit [DecidableEq ι] in
include h_create in
/-- There is no contract at the zero address. -/
theorem code_zero (chain : List (Mined ι A)) : (storage create chain).code 0 = none := by
  by_contra h
  obtain ⟨contract, h_code⟩ := Option.ne_none_iff_exists'.mp h
  obtain ⟨m, -, -, -, h_zero⟩ := exists_of_code h_code
  exact h_create _ _ h_zero.symm

include h_inj h_create in
/-- A contract that has no address yet is installed. -/
theorem ensureContractInstalled_zero (h_J : Framed create primary J) :
    Starts create primary primary (CanSend create primary K J n)
      (ensureContractInstalled contract 0) fun x s =>
        CanSend create primary K J (n + 1) s ∧ Fresh create primary contract x (n + 1) s := by
  refine Starts.read (M := fun found s => found = false ∧ CanSend create primary K J n s)
    (canSend_stable h_J) (fun s found s' h_s h => ?_) fun found s h_s => ?_
  · obtain ⟨rfl, rfl⟩ := h.hasContractAtAddress
    -- nothing is at the zero address, so the contract is installed
    rw [code_zero h_create]
    exact ⟨rfl, rfl, h_s⟩
  obtain ⟨rfl, h_s⟩ := h_s
  refine (transact_primary K h_J (fun s _ => ⟨?_, ?_⟩) fun k h_k => ⟨h_k, ?_⟩).bind
    Rely.refl (fun x => ?_) s h_s
  · exact nofun
  · exact nofun
  · exact nofun
  rintro s ⟨rfl, h_s, h_received⟩
  refine Starts.read (o := .hasContractAtAddress (create primary n))
    (P := fun s => CanSend create primary K J (n + 1) s ∧
      Received create primary (.newContract contract) n s)
    (M := fun (found : Bool) s => found = true → CanSend create primary K J (n + 1) s ∧
      Fresh create primary contract (create primary n) (n + 1) s)
    ((canSend_stable h_J).and received_stable) (fun s found s' h_s h => ?_)
    (fun (found : Bool) s h_s => ?_) s ⟨h_s, h_received⟩
  -- the code is there
  · obtain ⟨rfl, rfl⟩ := h.hasContractAtAddress
    obtain ⟨h_s, h_ready, executed, h_m⟩ := h_s
    refine ⟨rfl, fun h_some => ⟨h_s, ?_, fun h_F => ?_⟩⟩
    · -- the code is there, so the installation did not run out of gas
      obtain ⟨contract', h_code⟩ := Option.isSome_iff_exists.mp h_some
      obtain ⟨m, h_m', h_executed, -, h_create'⟩ := exists_of_code h_code
      obtain ⟨h_sender, h_nonce⟩ := h_inj h_create'
      have h_ordered := h_ready.sound.ordered.of_prefix (view_prefix_chain primary)
      obtain rfl := h_ordered.inj h_m' h_m h_sender h_nonce
      obtain rfl : executed = true := h_executed
      exact ⟨n, Nat.lt_succ_self n, rfl, h_m⟩
    · obtain ⟨f, h_lt, h_f, -⟩ := h_ready.registrar (h_F ▸ h_create primary n)
      obtain ⟨-, h_eq⟩ := h_inj (h_F.trans h_f)
      exact h_lt.ne' h_eq
  · cases found with
    | true =>
      exact Triple.done ((canSend_stable h_J).and fresh_stable) (fun _ => id) s (h_s rfl)
    | false => exact throw_starts (P := fun _ => True) s trivial

include h_inj h_create in
/-- A fresh contract gets its entry. -/
theorem setAddress_primary {entries : List (String × A)} (h_keyed : Keyed k contract) :
    Starts create primary primary
      (fun s => CanSend create primary (· = k) (Knows create primary r entries) n s ∧
        Fresh create primary contract a n s)
      (setAddress r k a)
      fun _ => Between create primary r ((k, a) :: entries) := by
  have h_J : Framed create primary fun s =>
      Knows create primary r entries s ∧ Fresh create primary contract a n s :=
    ⟨knows_framed.stable.and fresh_stable, fun s s' h h_sound h_view h_F =>
      ⟨knows_framed.send s s' h.1 h_sound h_view h_F, h_view ▸ h.2.installed, h_F ▸ h.2.ne⟩⟩
  rintro s ⟨⟨h_next, h_ready, h_vacant, h_knows⟩, h_fresh⟩
  refine (transact_primary (K := (· = k)) (fun _ => False) h_J (fun s h_s => ⟨?_, ?_⟩)
    fun _ => False.elim).bind Rely.refl (fun x s h_s => ?_) s
    ⟨h_next, h_ready, h_vacant, h_knows, h_fresh⟩
  · intro _ _ _ _
    exact h_s.frame.1.registrar.trans_ne h_s.frame.1.registrar_ne
  -- the key is the one that was vacant
  · intro k' a' h_action
    obtain ⟨-, rfl, rfl⟩ := Action.setAddress.inj h_action
    have h_F := h_s.frame.1.registrar.trans_ne h_s.frame.1.registrar_ne
    have h_view := @view_prefix_chain _ _ s primary
    refine ⟨rfl, h_s.vacant.unset k rfl, h_s.ready.nonce.trans (ownCount_mono h_view),
      h_s.frame.2.ne, (h_s.ready.registrar h_F).mono h_view (Nat.le_refl n), contract, h_keyed,
      h_s.frame.2.installed.mono h_view (Nat.le_refl n)⟩
  · obtain ⟨rfl, h_s, h_received⟩ := h_s
    obtain ⟨-, executed, h_m⟩ := h_received
    -- the entry is there when it is mined
    have h_between : Between create primary r ((k, a) :: entries) s := by
      obtain ⟨h_sound, h_F, h_ne, h_entries⟩ := h_s.frame.1
      refine ⟨h_s.next.symm ▸ h_s.ready, h_sound, h_F, h_ne, ?_⟩
      refine List.forall_mem_cons.mpr ⟨?_, h_entries⟩
      rw [← h_F] at h_m ⊢
      exact h_sound.registered_of_mem h_inj h_create (view_prefix_chain primary) h_m rfl
    exact fun s' h_rely => between_stable s s' h_between h_rely

include h_inj h_create in
/-- **Reading an entry** before it is installed. -/
theorem getAddress_install {entries : List (String × A)} (h_keyed : Keyed k contract) :
    Starts create primary primary (Between create primary r entries) (getAddress .install r k)
      (HasRead create primary r entries k) := by
  refine Starts.read (M := fun b : A => HasRead create primary r entries k b)
    between_stable ?_ fun b => Triple.done ?_ fun _ => id
  · intro s b s' h_s h
    obtain ⟨rfl, h_b⟩ := h.getAddress
    have ⟨h_ready, h_sound, h_F, h_ne, _⟩ := h_s
    -- the zero address means that nobody has set the key
    refine ⟨rfl, h_s, fun h_zero => ⟨?_, ?_⟩, fun h_b_ne => ⟨h_b.symm, h_b_ne⟩⟩
    · by_contra h_up
      obtain ⟨a, h_a⟩ := h_sound.settled h_up k contract h_keyed
      rw [h_F] at h_a
      exact h_a.2 (h_a.1.symm.trans (h_b.symm.trans h_zero))
    · rintro _ rfl
      refine h_sound.unset_of_zero h_inj h_create (view_prefix_chain primary) ?_ h_ready.nonce
      rw [h_F]
      exact h_b.symm.trans h_zero
  · rintro s s' ⟨h_between, h_zero, h_ne⟩ h_rely
    refine ⟨between_stable s s' h_between h_rely, fun h_b => ?_, fun h_b => ?_⟩
    -- nobody else sets it
    · have h_vacant := (h_zero h_b).rely h_between.1 h_rely
      rwa [← h_rely.nonce] at h_vacant
    · exact h_rely.registered h_between.2.sound h_between.2.registrar_ne h_between.2.registrar
        primary (h_ne h_b)

include h_inj h_create in
/-- **A proxy of the primary**: the contract is found, or installed and registered. -/
theorem registeredProxy_install {entries : List (String × A)} (h_keyed : Keyed k contract) {b : A} :
    Starts create primary primary
      (HasRead create primary r entries k b)
      (registeredProxy .install contract k r b)
      fun x => Between create primary r ((k, x) :: entries) := by
  rintro s ⟨h_between, h_zero, h_ne⟩
  unfold registeredProxy
  -- nothing was registered: the contract is installed
  by_cases h_b : b = 0
  · subst h_b
    refine (ensureContractInstalled_zero h_inj h_create knows_framed).bind Rely.refl
      (fun x s h_s => ?_) s ⟨rfl, h_between.1, h_zero rfl, h_between.2⟩
    have h_x : 0 ≠ x := by
      obtain ⟨m, -, rfl, -⟩ := h_s.2.installed
      exact (h_create primary m).symm
    rw [if_pos h_x]
    refine (setAddress_primary h_inj h_create h_keyed).bind Rely.refl (fun _ => ?_) s h_s
    exact Triple.done between_stable fun _ => id
  -- the entry is there, so the contract is
  · have h_code (s : Net ι A) (h_s : Between create primary r ((k, b) :: entries) s) :
        ((storage create (s.view primary)).code b).isSome := by
      have h_b' := h_s.2.entries (k, b) List.mem_cons_self
      rw [← h_s.2.registrar] at h_b'
      obtain ⟨contract', -, h_code⟩ := h_s.2.sound.code h_inj (view_prefix_chain primary) h_b'
      exact Option.isSome_of_mem h_code
    refine (ensureContractInstalled_found between_stable h_code).bind Rely.refl
      (fun x s h_s => ?_) s ⟨h_between.1, h_between.2.sound, h_between.2.registrar,
        h_between.2.registrar_ne, List.forall_mem_cons.mpr ⟨h_ne h_b, h_between.2.entries⟩⟩
    obtain ⟨rfl, h_s⟩ := h_s
    rw [if_neg (not_not_intro rfl)]
    exact fun s' h_rely => between_stable s s' h_s h_rely

/-- The primary writes its file again. -/
theorem storeRegistrarAddress_again (h_r : r ≠ 0) :
    Starts create primary primary
      (fun s => Ready create primary (s.accountNonce primary) s ∧ s.properties primary = r)
      (storeRegistrarAddress r >>= fun _ => pure r) fun x => Between create primary x [] := by
  refine Triple.ask (M := fun _ => Between create primary r []) ?_ (fun s _ s' h_s h => ?_)
    fun _ => Triple.done between_stable fun _ => id
  -- the file says the same as before
  · intro s s' h h_rely
    have h_ready := h.1.rely h_rely
    rw [← h_rely.nonce] at h_ready
    exact ⟨h_ready, h_rely.properties.trans h.2⟩
  · obtain ⟨h_ready, rfl⟩ := h_s
    have h_same : s' = s := by
      rw [h.storeRegistrarAddress, Function.update_eq_self]
    subst h_same
    exact ⟨Guarantee.refl s', h_ready, h_ready.sound, rfl, h_r, nofun⟩

/-- Without registrar nothing depends on the sending. -/
theorem noRegistrar_framed : Framed create primary (NoRegistrar primary) :=
  ⟨fun _ _ h h_rely => h_rely.properties.trans h, fun _ _ h _ _ h_F => h_F.trans h⟩

include h_create in
/-- The primary writes its file for the first time. -/
theorem storeRegistrarAddress_fresh :
    Starts create primary primary
      (fun s => CanSend create primary K (NoRegistrar primary) n s ∧
        Fresh create primary .nameToAddressRegistrar r n s)
      (storeRegistrarAddress r >>= fun _ => pure r) fun x => Between create primary x [] := by
  refine Triple.ask (M := fun _ => Between create primary r [])
    ((canSend_stable noRegistrar_framed).and fresh_stable) (fun s _ s' h_s h => ?_)
    fun _ => Triple.done between_stable fun _ => id
  obtain rfl := h.storeRegistrarAddress
  obtain ⟨⟨rfl, h_ready, h_vacant, h_none⟩, h_fresh⟩ := h_s
  have h_installed := h_fresh.installed.mono List.prefix_rfl h_ready.nonce
  -- the registrar has been installed, so it may be stored
  have h_evolves := h_ready.sound.store h_none h_installed
  have h_sound := h_evolves.sound h_ready.sound
  have h_r : r ≠ 0 := by
    obtain ⟨m, -, rfl, -⟩ := h_installed
    exact h_create primary m
  refine ⟨⟨h_evolves, fun _ _ => rfl, fun j h_j => Function.update_of_ne h_j ..,
    fun h_ne => absurd rfl h_ne, fun _ => rfl⟩, ⟨h_sound, h_ready.nonce, fun _ => ?_⟩, h_sound,
    Function.update_self .., h_r, nofun⟩
  dsimp only
  rw [Function.update_self]
  exact h_fresh.installed

include h_inj h_create in
/-- **The registrar of the primary**: the one of the file, or a new one. -/
theorem globalRegistrar_install :
    Starts create primary primary (fun s => Ready create primary (s.accountNonce primary) s)
      (globalRegistrar .install 0) fun r => Between create primary r [] := by
  have h_eq : globalRegistrar .install (0 : A) = getStoredRegistrarAddress >>= fun a =>
      ensureContractInstalled .nameToAddressRegistrar a >>= fun r =>
        storeRegistrarAddress r >>= fun _ => pure r := by
    unfold globalRegistrar checkAddress
    simp only [if_pos]
    rfl
  have h_ready : Stable (Rely create primary primary) fun s =>
      Ready create primary (s.accountNonce primary) s := by
    intro s s' h h_rely
    have h_ready := h.rely h_rely
    rwa [← h_rely.nonce] at h_ready
  rw [h_eq]
  refine Starts.read (M := fun (a : A) s => Ready create primary (s.accountNonce primary) s ∧
    s.properties primary = a) h_ready (fun s a s' h_s h => ?_) fun (a : A) s h_s => ?_
  · obtain ⟨rfl, rfl⟩ := h.getStoredRegistrarAddress
    exact ⟨rfl, h_s, rfl⟩
  have h_stable : Stable (Rely create primary primary) fun s =>
      Ready create primary (s.accountNonce primary) s ∧ s.properties primary = a :=
    fun s s' h h_rely => ⟨h_ready s s' h.1 h_rely, h_rely.properties.trans h.2⟩
  -- nothing in the file: no deployment before
  by_cases h_a : a = 0
  · subst h_a
    have h_first : s.deployments = [] := List.eq_nil_iff_forall_not_mem.mpr fun d h_d =>
      (h_s.1.sound.deployed d h_d).registrar_ne h_s.2
    exact (ensureContractInstalled_zero (K := fun _ => False) h_inj h_create
      noRegistrar_framed).bind Rely.refl (fun x => storeRegistrarAddress_fresh h_create) s
      ⟨rfl, h_s.1, ⟨h_first, fun _ => False.elim⟩, h_s.2⟩
  -- the file tells of the registrar that was installed
  · refine (ensureContractInstalled_found h_stable fun s h_s => ?_).bind Rely.refl
      (fun x s h_s => ?_) s h_s
    · obtain ⟨h_ready, rfl⟩ := h_s
      have h_code := (h_ready.sound.registrar h_a).code h_inj
        (h_ready.sound.ordered.of_prefix (view_prefix_chain primary)) List.prefix_rfl
        (Nat.le_refl _)
      exact Option.isSome_of_mem h_code
    · obtain ⟨rfl, h_s⟩ := h_s
      exact storeRegistrarAddress_again h_a s h_s

include h_inj h_create in
/-- **The primary** starts with a deployment. -/
theorem deploy_install :
    Starts create primary primary (fun s => Ready create primary (s.accountNonce primary) s)
      (deploy .install 0) (Up create primary) := by
  unfold deploy
  refine (globalRegistrar_install h_inj h_create).bind Rely.refl fun r => ?_
  refine (getAddress_install h_inj h_create .bicRegistrar).bind Rely.refl fun b => ?_
  refine (registeredProxy_install h_inj h_create .bicRegistrar).bind Rely.refl fun b' => ?_
  refine (getAddress_install h_inj h_create .paymentService).bind Rely.refl fun p => ?_
  refine (registeredProxy_install h_inj h_create .paymentService).bind Rely.refl fun p' => ?_
  have h_entry {s : Net ι A} (h : Between create primary r
      [(PAYMENT_SERVICE_KEY, p'), (BIC_REGISTRAR_KEY, b')] s) {k : String} {a : A}
      (h_e : (k, a) ∈ [(PAYMENT_SERVICE_KEY, p'), (BIC_REGISTRAR_KEY, b')]) :
      Registered create (s.view primary) (s.properties primary) k a := by
    rw [h.2.registrar]
    exact h.2.entries (k, a) h_e
  -- both entries are those of the deployment
  refine register_up between_stable (fun s h => ⟨h.2.sound, ?_⟩) (fun s h k contract h_keyed => ?_)
    fun _ _ h_ne => absurd rfl h_ne
  · have h_chain {k : String} {a : A}
        (h_a : Registered create (s.view primary) (s.properties primary) k a) :=
      h.2.sound.stable List.prefix_rfl (view_prefix_chain primary) h_a
    exact ⟨h.2.registrar.symm, h.2.registrar.trans_ne h.2.registrar_ne,
      h_chain (h_entry h (List.mem_cons_of_mem _ List.mem_cons_self)),
      h_chain (h_entry h List.mem_cons_self)⟩
  · cases h_keyed with
    | bicRegistrar => exact ⟨b', h_entry h (List.mem_cons_of_mem _ List.mem_cons_self)⟩
    | paymentService => exact ⟨p', h_entry h List.mem_cons_self⟩

end Primary

/-! ### All processes -/

section Runs

variable {create primary} {i : ι} (h_inj : Function.Injective2 create)
  (h_create : ∀ i n, create i n ≠ 0)

include h_inj h_create in
/-- **Every start-up** keeps the net sound, and when it is through it uses what the registrar of
the primary knows. -/
theorem paymentServiceMain_starts :
    Starts create primary i (fun s => s.Sound create primary)
      (paymentServiceMain (i ≠ primary)) (Up create primary) := by
  refine Triple.ask (M := fun _ s => s.Sound create primary ∧
    (i = primary → Ready create primary (s.accountNonce primary) s)) sound_stable
    (fun s _ s' h_s h => ?_) fun _ => ?_
  -- the nonce is read from the node
  · obtain rfl := h.getTransactionCount
    have h_evolves := h_s.setNonce
      (Function.update s.accountNonce i (transactionCount i (s.view i)))
    have h_sound := h_evolves.sound h_s
    refine ⟨⟨h_evolves, fun j h_j => Function.update_of_ne h_j .., fun _ _ => rfl,
      fun _ => id, fun _ => rfl⟩, h_sound, ?_⟩
    rintro rfl
    dsimp only
    rw [Function.update_self]
    exact ⟨h_sound, Nat.le_refl _, h_s.registrar⟩
  -- the primary installs, the others wait to be told
  by_cases h_i : i = primary
  · have h_primary : ¬decide (i ≠ primary) = true := by simpa using h_i
    simp only [if_neg h_primary]
    subst h_i
    exact (deploy_install h_inj h_create).weaken (fun s h_s => h_s.2 rfl) fun _ _ => id
  · simp only [if_pos (decide_eq_true h_i)]
    refine Starts.read (M := fun r : A => Told create primary r) (P := fun s => _ ∧ _) ?_
      (fun s r s' h_s h => ?_) fun (r : A) s h_s => ?_
    · exact fun s s' h h_rely => ⟨h_rely.sound h.1, fun h_eq => absurd h_eq h_i⟩
    · obtain ⟨rfl, d, h_d, rfl⟩ := h.getConfiguration
      have h_deployed := h_s.1.deployed d h_d
      exact ⟨rfl, h_s.1, h_deployed.registrar.symm,
        h_deployed.registrar.trans_ne h_deployed.registrar_ne, List.ne_nil_of_mem h_d⟩
    · exact deploy_wait h_s.registrar_ne s h_s

end Runs

/-! ### Runs -/

/-- The file of the primary works, and a write of a registrar does not run out of gas. -/
def Input.Reliable (s : System ι A) : Input ι A → Prop
  | .advance _ choice => choice.fileWorks = true
  | .mine n executed => ∀ tx, s.net.sent[n]? = some tx →
      ∀ r k a, tx.action = .setAddress r k a → executed = true
  | _ => True

/-- Every step of the run is reliable. -/
abbrev Reliably (inputs : List (Input ι A)) : Prop :=
  Along (fun pre x => x.Reliable (System.after create primary pre)) inputs

/-- The invariant of a system. -/
structure System.Safe (s : System ι A) : Prop where
  sound : s.net.Sound create primary
  secure : AllSecure (Does create) (Rely create primary) (Guarantee create primary)
    (fun _ => Up create primary) s.processes s.net

/-- A transaction of a service that is up. -/
def Tx.OfService (bicRegistrar : A) (tx : Tx ι A) : Prop :=
  tx.action = .other ∨ ∃ name a, tx.action = .setAddress bicRegistrar name a

/-- What a step does to the net. -/
structure Step (s s' : System ι A) : Prop where
  safe : s'.Safe create primary
  evolves : Evolves create primary s.net s'.net
  sent : ∀ d ∈ s.net.deployments, ∀ tx ∈ s'.net.sent,
    tx ∈ s.net.sent ∨ tx.OfService d.2.bicRegistrar

section System

variable {create primary} {s : System ι A} {i : ι} {d : Deployment A} {action : Action A}

/-- Nothing is unsafe at the start. -/
theorem System.safe_init : System.Safe create primary (System.init (ι := ι) (A := A)) where
  sound :=
    { ordered := numbered_nil
      mined := nofun
      executed := nofun
      permitted := nofun
      registrar := fun h => absurd rfl h
      deployed := nofun
      settled := fun h => absurd rfl h }
  secure := nofun

/-- The net changes, but not for a process that is under way. -/
theorem System.Safe.environment (h : s.Safe create primary) {net : Net ι A}
    (h_evolves : Evolves create primary s.net net)
    (h_nonce : ∀ i, s.processes i ≠ none → net.accountNonce i = s.net.accountNonce i)
    (h_properties : net.properties = s.net.properties)
    (h_deployments : net.deployments = s.net.deployments) :
    System.Safe create primary { s with net := net } where
  sound := h_evolves.sound h.sound
  secure := h.secure.environment (fun _ _ _ _ => Rely.trans) fun i h_i =>
    ⟨h_evolves, h_nonce i h_i, congrFun h_properties i, fun _ h_nil => h_deployments.trans h_nil⟩

/-- A process that is done has its deployment. -/
theorem System.Safe.up (h : s.Safe create primary) (h_i : s.processes i = some (.done d)) :
    Up create primary d s.net :=
  h.secure.post (fun _ => Rely.refl) h_i

/-- A service that is up sends a transaction. -/
theorem System.Safe.call (h : s.Safe create primary) (h_i : s.processes i = some (.done d))
    (h_tx : s.net.Permitted create primary ⟨i, s.net.accountNonce i, action⟩) :
    System.Safe create primary { s with net := s.net.call i action } ∧
      Evolves create primary s.net (s.net.call i action) := by
  have h_evolves : Evolves create primary s.net (s.net.call i action) := h.sound.send h_tx _
  have h_up : Up create primary d (s.net.call i action) :=
    ⟨h_evolves.sound h.sound, h_evolves.deployed h.sound (h.up h_i).2⟩
  -- the process itself has nothing left to do
  have h_others : System.Safe create primary
      ⟨s.net, Function.update s.processes i none⟩ := ⟨h.sound, h.secure.update nofun⟩
  have h_others' := h_others.environment h_evolves (fun j h_j => ?_) rfl rfl
  · refine ⟨⟨h_evolves.sound h.sound, ?_⟩, h_evolves⟩
    have h_secure := h_others'.secure.update (i := i) (q := some (.done d)) fun p h_p => by
      cases h_p
      exact fun s' h_rely => up_stable d _ s' h_up h_rely
    rwa [Function.update_idem, ← h_i, Function.update_eq_self] at h_secure
  · refine Function.update_of_ne (fun h_eq => h_j ?_) ..
    rw [h_eq]
    exact Function.update_self ..

theorem Step.refl (h : s.Safe create primary) : Step create primary s s :=
  ⟨h, Evolves.refl s.net, fun _ _ _ => Or.inl⟩

/-- A call of the service is a step. -/
theorem Step.call (h : s.Safe create primary) (h_i : s.processes i = some (.done d))
    (h_tx : s.net.Permitted create primary ⟨i, s.net.accountNonce i, action⟩)
    (h_action : Tx.OfService d.bicRegistrar ⟨i, s.net.accountNonce i, action⟩) :
    Step create primary s { s with net := s.net.call i action } := by
  obtain ⟨h_safe, h_evolves⟩ := h.call h_i h_tx
  refine ⟨h_safe, h_evolves, fun d' h_d' tx h_tx' => ?_⟩
  refine (List.mem_append.mp h_tx').imp_right fun h_last => ?_
  have h_same := (h.up h_i).2.unique (h.sound.deployed d' h_d')
  rw [List.mem_singleton.mp h_last, ← h_same]
  exact h_action

variable (h_inj : Function.Injective2 create) (h_create : ∀ i n, create i n ≠ 0)

include h_inj h_create in
/-- **One step** is safe, if it is reliable. -/
theorem step_safe (h : s.Safe create primary) {x : Input ι A} (h_x : x.Reliable s) :
    Step create primary s (s.step create primary x) := by
  cases x with
  | start i =>
    simp only [System.step]
    cases h_i : s.processes i with
    | some p => exact Step.refl h
    | none =>
      refine ⟨⟨h.sound, h.secure.update fun p h_p => ?_⟩, Evolves.refl s.net, fun _ _ _ => Or.inl⟩
      cases h_p
      exact paymentServiceMain_starts h_inj h_create s.net h.sound
  | advance i choice =>
    simp only [System.step]
    cases h_i : s.processes i with
    | none => exact Step.refl h
    | some p =>
      cases p with
      | done d => exact Step.refl h
      | ask o k =>
        cases h_o : s.net.perform create i choice o with
        | none =>
          simp only [h_o]
          exact Step.refl h
        | some r =>
          obtain ⟨answer, net⟩ := r
          simp only [h_o]
          have h_does : Does create i o s.net answer net := ⟨choice, h_x, h_o⟩
          obtain ⟨h_guarantee, h_secure⟩ := h.secure.ask (fun _ => Rely.refl)
            (fun _ _ _ _ => Rely.trans) (fun j h_j _ _ h => h.rely h_j) h_i h_does
          refine ⟨⟨h_guarantee.sound h.sound, h_secure⟩, h_guarantee.toEvolves, ?_⟩
          intro d h_d tx h_tx
          -- a process that registers has sent nothing of late
          have h_sent := h_guarantee.quiet (List.ne_nil_of_mem h_d)
          exact Or.inl (h_sent ▸ h_tx)
  | stop i =>
    exact ⟨⟨h.sound, h.secure.update nofun⟩, Evolves.refl s.net, fun _ _ _ => Or.inl⟩
  | setAddress i name address =>
    simp only [System.step]
    split
    next d h_i =>
      have h_d := (h.up h_i).2
      refine Step.call h h_i ⟨fun _ _ _ _ => h_d.registrar_ne, fun k a h_action => ?_⟩
        (Or.inr ⟨name, address, rfl⟩)
      obtain ⟨h_bic, -, -⟩ := Action.setAddress.inj h_action
      exact absurd h_bic (h.sound.ne_registrar List.prefix_rfl h_d.bicRegistrar)
    · exact Step.refl h
  | call i =>
    simp only [System.step]
    split
    next d h_i => exact Step.call h h_i ⟨nofun, nofun⟩ (Or.inl rfl)
    · exact Step.refl h
  | mine n executed =>
    simp only [System.step]
    split
    next tx h_tx =>
      split_ifs with h_nonce
      · have h_evolves := h.sound.mine (List.mem_of_getElem? h_tx) h_nonce (h_x tx h_tx)
        exact ⟨h.environment h_evolves (fun _ _ => rfl) rfl rfl, h_evolves, fun _ _ _ => Or.inl⟩
      · exact Step.refl h
    · exact Step.refl h
  | sync i n =>
    simp only [System.step]
    split_ifs with h_n
    · have h_evolves := h.sound.sync h_n.1
      exact ⟨h.environment h_evolves (fun _ _ => rfl) rfl rfl, h_evolves, fun _ _ _ => Or.inl⟩
    · exact Step.refl h

include h_inj h_create in
/-- **After every run** the system is safe. -/
theorem after_safe {inputs : List (Input ι A)} (h : Reliably create primary inputs) :
    (System.after create primary inputs).Safe create primary :=
  @run_induction _ _ (System.step create primary) System.init _
    (fun _ s => s.Safe create primary) System.safe_init
    (fun _ _ h_safe h_x => (step_safe h_inj h_create h_safe h_x).safe) inputs h

include h_inj h_create in
/-- What a run does after a part of it. -/
theorem after_evolves {pre post : List (Input ι A)} (h : Reliably create primary (pre ++ post)) :
    Evolves create primary (System.after create primary pre).net
        (System.after create primary (pre ++ post)).net ∧
      ∀ d ∈ (System.after create primary pre).net.deployments,
        ∀ tx ∈ (System.after create primary (pre ++ post)).net.sent,
          tx ∈ (System.after create primary pre).net.sent ∨ tx.OfService d.2.bicRegistrar := by
  induction post using List.reverseRecOn with
  | nil =>
    rw [List.append_nil]
    exact ⟨Evolves.refl _, fun _ _ _ => Or.inl⟩
  | append_singleton post x ih =>
    rw [← List.append_assoc] at h ⊢
    obtain ⟨h_post, h_x⟩ := along_concat.mp h
    obtain ⟨h_evolves, h_sent⟩ := ih h_post
    -- the last step, after those before it
    have h_last : System.after create primary (pre ++ post ++ [x]) =
        (System.after create primary (pre ++ post)).step create primary x := run_concat _ _
    rw [h_last]
    have h_step := step_safe h_inj h_create (after_safe h_inj h_create h_post) h_x
    refine ⟨h_evolves.trans h_step.evolves, fun d h_d tx h_tx => ?_⟩
    refine (h_step.sent d (h_evolves.deployments.subset h_d) tx h_tx).elim (h_sent d h_d tx) ?_
    exact Or.inr

end System

/-! ### A run -/

/-- Two machines, of which the first is the primary; addresses are numbers. -/
def sampleCreate (i : Bool) (n : ℕ) : ℕ := 2 * n + if i then 1 else 2

theorem sampleCreate_injective : Function.Injective2 sampleCreate := by
  intro i j n m h
  unfold sampleCreate at h
  cases i <;> cases j <;> simp_all <;> omega

theorem sampleCreate_ne_zero (i : Bool) (n : ℕ) : sampleCreate i n ≠ 0 := by
  unfold sampleCreate
  split_ifs <;> omega

/-- The start-up of machine `i` goes on for `n` operations. -/
def goOn (i : Bool) (n : ℕ) : List (Input Bool ℕ) := List.replicate n (.advance i ⟨0, true, true⟩)

/-- The primary ends while its first installation is under way, starts again and comes up. -/
def sampleStart : List (Input Bool ℕ) :=
  [.start true] ++ goOn true 4 ++ [.stop true, .start true] ++ goOn true 4 ++
    [.mine 0 true, .sync true 1] ++ goOn true 6 ++ [.mine 2 true, .sync true 2] ++ goOn true 3 ++
    [.mine 3 true, .sync true 3] ++ goOn true 4 ++ [.mine 4 true, .sync true 4] ++ goOn true 3 ++
    [.mine 5 true, .sync true 5] ++ goOn true 2

/-- It registers a BIC and is started once more, and so is a secondary. -/
def sampleRest : List (Input Bool ℕ) :=
  [.setAddress true "BANK" 7, .stop true, .start true] ++ goOn true 9 ++
    [.start false, .sync false 5] ++ goOn false 9

/-- The deployment of the sample. -/
def sampleDeployment : Deployment ℕ := ⟨1, 3, 7⟩

/-- A step that needs no luck. -/
def Input.Steady {ι A : Type} : Input ι A → Bool
  | .advance _ choice => choice.fileWorks
  | .mine _ executed => executed
  | _ => true

/-- The run is reliable. -/
theorem sample_reliable : Reliably sampleCreate true (sampleStart ++ sampleRest) := by
  have h : (sampleStart ++ sampleRest).all Input.Steady = true := by decide
  refine (along_forall.mpr (List.all_eq_true.mp h)).imp fun pre x h_x => ?_
  cases x with
  | advance i choice => exact h_x
  | mine n executed => exact fun _ _ _ _ _ _ => h_x
  | start i | stop i | setAddress i name a | call i | sync i n => trivial

/-! ### The theorems -/

/-- Any two start-ups that ever came to their end use the same contracts, and these are there. -/
structure OneDeployment (net : Net ι A) : Prop where
  same : ∀ d ∈ net.deployments, ∀ d' ∈ net.deployments, d.2 = d'.2
  registrar : ∀ d ∈ net.deployments,
    (storage create net.chain).code d.2.registrar = some .nameToAddressRegistrar
  bicRegistrar : ∀ d ∈ net.deployments,
    (storage create net.chain).code d.2.bicRegistrar = some .nameToAddressRegistrar
  paymentService : ∀ d ∈ net.deployments,
    (storage create net.chain).code d.2.paymentService = some .paymentService
  distinct : ∀ d ∈ net.deployments, d.2.bicRegistrar ≠ d.2.registrar

variable {create primary}

theorem keys_ne : BIC_REGISTRAR_KEY ≠ PAYMENT_SERVICE_KEY := by decide

/-- The contract of an entry is the one that its key stands for. -/
theorem Keyed.unique {k : String} {c c' : ContractName} (h : Keyed k c) (h' : Keyed k c') :
    c = c' := by
  generalize h_k : k = k' at h'
  cases h with
  | bicRegistrar =>
    cases h' with
    | bicRegistrar => rfl
    | paymentService => exact absurd h_k keys_ne
  | paymentService =>
    cases h' with
    | bicRegistrar => exact absurd h_k.symm keys_ne
    | paymentService => rfl

/-- **One deployment.** In every run of any number of services, whatever processes end and start
again at whatever point, in whatever order the chain executes what was sent, and however far the
nodes lag behind, all start-ups that come to their end use the same three contracts. -/
theorem one_deployment (h_inj : Function.Injective2 create) (h_create : ∀ i n, create i n ≠ 0)
    {inputs : List (Input ι A)} (h : Reliably create primary inputs) :
    OneDeployment create (System.after create primary inputs).net := by
  have h_sound := (after_safe h_inj h_create h).sound
  have h_code {k : String} {c : ContractName} (h_keyed : Keyed k c) {a : A}
      (h_a : Registered create (System.after create primary inputs).net.chain
        ((System.after create primary inputs).net.properties primary) k a) :
      (storage create (System.after create primary inputs).net.chain).code a = some c := by
    obtain ⟨c', h_keyed', h_code⟩ := h_sound.code h_inj List.prefix_rfl h_a
    rw [h_code, h_keyed'.unique h_keyed]
  constructor
  · exact fun d h_d d' h_d' => (h_sound.deployed d h_d).unique (h_sound.deployed d' h_d')
  · intro d h_d
    have h_deployed := h_sound.deployed d h_d
    rw [h_deployed.registrar]
    exact (h_sound.registrar h_deployed.registrar_ne).mono (view_prefix_chain primary)
      (Nat.le_refl _)
      |>.code h_inj h_sound.ordered List.prefix_rfl (ownCount_mono (view_prefix_chain primary))
  · exact fun d h_d => h_code .bicRegistrar (h_sound.deployed d h_d).bicRegistrar
  · exact fun d h_d => h_code .paymentService (h_sound.deployed d h_d).paymentService
  · intro d h_d
    have h_deployed := h_sound.deployed d h_d
    rw [h_deployed.registrar]
    exact h_sound.ne_registrar List.prefix_rfl h_deployed.bicRegistrar

/-- All three start-ups of the run use the contracts that the second one has installed. -/
theorem one_deployment_sample :
    (System.after sampleCreate true (sampleStart ++ sampleRest)).net.deployments =
        [(true, sampleDeployment), (true, sampleDeployment), (false, sampleDeployment)] ∧
      OneDeployment sampleCreate (System.after sampleCreate true (sampleStart ++ sampleRest)).net :=
  ⟨by decide +kernel, one_deployment sampleCreate_injective sampleCreate_ne_zero sample_reliable⟩

/-- **Installed once.** When a service has come up, whatever is sent from then on is a call of the
payment service or of the registrar of BICs: no start-up, of the primary or of a secondary,
installs a contract or writes the global registrar any more. -/
theorem installed_once (h_inj : Function.Injective2 create) (h_create : ∀ i n, create i n ≠ 0)
    {pre post : List (Input ι A)} (h : Reliably create primary (pre ++ post))
    {d : ι × Deployment A} (h_d : d ∈ (System.after create primary pre).net.deployments)
    {tx : Tx ι A} (h_tx : tx ∈ (System.after create primary (pre ++ post)).net.sent)
    (h_new : tx ∉ (System.after create primary pre).net.sent) :
    tx.OfService d.2.bicRegistrar :=
  ((after_evolves h_inj h_create h).2 d h_d tx h_tx).resolve_left h_new

/-- The registration of the BIC. -/
theorem installed_once_sample :
    Tx.OfService sampleDeployment.bicRegistrar
      (⟨true, 5, .setAddress 3 "BANK" 7⟩ : Tx Bool ℕ) :=
  installed_once sampleCreate_injective sampleCreate_ne_zero sample_reliable
    (show (true, sampleDeployment) ∈ _ by decide +kernel) (by decide +kernel) (by decide +kernel)

end StartUp

end Ethiso
