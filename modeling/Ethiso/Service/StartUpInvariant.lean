import Ethiso.Service.StartUp
import Mathlib.Data.List.Infix
import Mathlib.Data.Nat.Basic

/-!
# What the start-ups leave on the chain

The entries of the global registrar are written by start-ups of the primary, and its file says
which registrar that is. A start-up writes an entry after it has read that there is none. Between
the reading and the execution of the write the chain may have grown, by transactions of an
earlier process for example. But the write carries the nonce that was next when the process
began, and is executed only if the transactions of the account before it are those that the
process knew or has sent itself. So an entry is *unset* wherever a write of it can be executed
(`StartUpWrite`), and what is set stays (`Net.Lawful.stable`).
-/

namespace Ethiso

namespace StartUp

variable {ι A : Type}

/-! ### The effect of a transaction -/

section Effect

variable [DecidableEq A] {create : ι → ℕ → A} {m : Mined ι A} {r a : A} {k : String}

/-- Where the code is after one more transaction. -/
theorem apply_code (s : Storage A) :
    (s.apply create m).code a =
      match m.executed, m.tx.action with
      | true, .newContract contract =>
        if a = create m.tx.sender m.tx.nonce then some contract else s.code a
      | _, _ => s.code a := by
  unfold Storage.apply
  cases m.executed with
  | false => rfl
  | true =>
    -- a registration changes no code
    cases m.tx.action with
    | newContract contract => exact Function.update_apply ..
    | setAddress registrar name address =>
      simp only [if_true]
      split_ifs
      · rfl
      · rfl
    | other => rfl

/-- An entry stays, or it is what the transaction writes. -/
theorem apply_addresses (s : Storage A) :
    (s.apply create m).addresses r k = s.addresses r k ∨
      m.tx.action = .setAddress r k ((s.apply create m).addresses r k) := by
  unfold Storage.apply
  cases m.executed with
  | false => exact Or.inl rfl
  | true =>
    cases m.tx.action with
    | newContract contract => exact Or.inl rfl
    | setAddress registrar name address =>
      simp only [if_true]
      -- the entry is set, or it stays
      split_ifs
      · by_cases h : r = registrar ∧ k = name
        · obtain ⟨rfl, rfl⟩ := h
          exact Or.inr (congrArg _ (if_pos ⟨rfl, rfl⟩).symm)
        · exact Or.inl (if_neg h)
      · exact Or.inl rfl
    | other => exact Or.inl rfl

/-- An entry is set by a transaction that was executed. -/
theorem apply_setAddress (s : Storage A) (h_executed : m.executed = true)
    (h_action : m.tx.action = .setAddress r k a)
    (h_code : s.code r = some .nameToAddressRegistrar) :
    (s.apply create m).addresses r k = a := by
  unfold Storage.apply
  rw [if_pos h_executed, h_action]
  dsimp only
  rw [if_pos h_code]
  exact if_pos ⟨rfl, rfl⟩

end Effect

/-! ### What a chain has made -/

section Made

variable [DecidableEq A] [Zero A] {create : ι → ℕ → A} {chain : List (Mined ι A)} {m : Mined ι A}
  {r a : A} {k : String} {contract : ContractName}

/-- The storage after one more transaction. -/
theorem storage_concat :
    storage create (chain ++ [m]) = (storage create chain).apply create m :=
  run_concat chain m

/-- Code was installed by a transaction. -/
theorem exists_of_code (h : (storage create chain).code a = some contract) :
    ∃ m ∈ chain, m.executed = true ∧ m.tx.action = .newContract contract ∧
      a = create m.tx.sender m.tx.nonce := by
  induction chain using List.reverseRecOn with
  | nil => cases h
  | append_singleton chain m ih =>
    have h_old (h : (storage create chain).code a = some contract) :
        ∃ m' ∈ chain ++ [m], m'.executed = true ∧ m'.tx.action = .newContract contract ∧
          a = create m'.tx.sender m'.tx.nonce := by
      obtain ⟨m', h_m', h_spec⟩ := ih h
      exact ⟨m', List.mem_append_left _ h_m', h_spec⟩
    rw [storage_concat, apply_code] at h
    split at h
    next contract' h_executed h_action =>
      -- by the last one, or before
      split_ifs at h with h_a
      · obtain rfl : contract' = contract := Option.some.inj h
        exact ⟨m, List.mem_append_right _ (List.mem_singleton_self m), h_executed, h_action, h_a⟩
      · exact h_old h
    · exact h_old h

/-- Entries were written by a transaction. -/
theorem exists_of_addresses (h : (storage create chain).addresses r k = a) (h_ne : a ≠ 0) :
    ∃ m ∈ chain, m.tx.action = .setAddress r k a := by
  induction chain using List.reverseRecOn with
  | nil => exact absurd h.symm h_ne
  | append_singleton chain m ih =>
    rw [storage_concat] at h
    have h_apply : ((storage create chain).apply create m).addresses r k =
          (storage create chain).addresses r k ∨
        m.tx.action = .setAddress r k (((storage create chain).apply create m).addresses r k) :=
      apply_addresses _
    rcases h_apply with h_same | h_action
    -- before, or by the last one
    · rw [h_same] at h
      obtain ⟨m', h_m', h_action⟩ := ih h
      exact ⟨m', List.mem_append_left _ h_m', h_action⟩
    · rw [h] at h_action
      exact ⟨m, List.mem_append_right _ (List.mem_singleton_self m), h_action⟩

variable [DecidableEq ι] {i : ι} {n : ℕ}

/-- Each transaction carries the next nonce of its sender. -/
abbrev Ordered (chain : List (Mined ι A)) : Prop :=
  Numbered (fun m : Mined ι A => m.tx.sender) (fun m => m.tx.nonce) chain

/-- A contract stays where it is, since no address is used twice. -/
theorem code_of_mem (h_inj : Function.Injective2 create) (h_ordered : Ordered chain)
    (h_m : ⟨⟨i, n, .newContract contract⟩, true⟩ ∈ chain) :
    (storage create chain).code (create i n) = some contract := by
  induction chain using List.reverseRecOn with
  | nil => cases h_m
  | append_singleton chain m ih =>
    rw [storage_concat, apply_code]
    -- the last transaction, or one before it, whose code stays
    by_cases h_last : m.tx.sender = i ∧ m.tx.nonce = n
    · obtain rfl := h_ordered.inj h_m (List.mem_append_right _ (List.mem_singleton_self m))
        h_last.1 h_last.2
      exact if_pos rfl
    · have h_chain : ⟨⟨i, n, .newContract contract⟩, true⟩ ∈ chain := by
        refine (List.mem_append.mp h_m).resolve_right fun h => h_last ?_
        rw [← List.mem_singleton.mp h]
        exact ⟨rfl, rfl⟩
      have h_code := ih (numbered_concat.mp h_ordered).1 h_chain
      split
      · refine (if_neg fun h_eq => h_last ?_).trans h_code
        obtain ⟨h_sender, h_nonce⟩ := h_inj h_eq
        exact ⟨h_sender.symm, h_nonce.symm⟩
      · exact h_code

end Made

/-! ### Sound nets -/

variable [DecidableEq ι] [DecidableEq A] [Zero A] (create : ι → ℕ → A) (primary : ι)

/-- Which contract a key of the global registrar stands for. -/
inductive Keyed : String → ContractName → Prop
  | bicRegistrar : Keyed BIC_REGISTRAR_KEY .nameToAddressRegistrar
  | paymentService : Keyed PAYMENT_SERVICE_KEY .paymentService

/-- The primary has installed the contract at `a`, with a nonce below `n`. -/
def Installed (chain : List (Mined ι A)) (n : ℕ) (contract : ContractName) (a : A) : Prop :=
  ∃ m < n, a = create primary m ∧ ⟨⟨primary, m, .newContract contract⟩, true⟩ ∈ chain

/-- No transaction with a nonce below `n` has written the entry. -/
def Unset (chain : List (Mined ι A)) (r : A) (k : String) (n : ℕ) : Prop :=
  ∀ m ∈ chain, ∀ a, m.tx.action = .setAddress r k a → n ≤ m.tx.nonce

/-- The entry has been made. -/
def Registered (chain : List (Mined ι A)) (r : A) (k : String) (a : A) : Prop :=
  (storage create chain).addresses r k = a ∧ a ≠ 0

namespace Net

variable (net : Net ι A)

/-- A write of the registrar `r` with the nonce `n` that makes an entry where there is none. -/
structure StartUpWrite (r : A) (n : ℕ) (k : String) (a : A) : Prop where
  unset : Unset net.chain r k n
  nonce : n ≤ transactionCount primary net.chain
  ne : a ≠ r
  registrar : Installed create primary net.chain n .nameToAddressRegistrar r
  installed : ∃ contract, Keyed k contract ∧ Installed create primary net.chain n contract a

/-- Only the primary installs contracts or writes the global registrar. -/
structure Permitted (tx : Tx ι A) : Prop where
  registrar : ∀ r k a, tx.action = .setAddress r k a → net.properties primary ≠ 0
  writes : ∀ k a, tx.action = .setAddress (net.properties primary) k a →
    tx.sender = primary ∧ net.StartUpWrite create primary (net.properties primary) tx.nonce k a

/-- What is sent and executed keeps to the rules. -/
structure Lawful : Prop where
  ordered : Ordered net.chain
  mined : ∀ m ∈ net.chain, m.tx ∈ net.sent
  executed : ∀ m ∈ net.chain, ∀ r k a, m.tx.action = .setAddress r k a → m.executed = true
  permitted : ∀ tx ∈ net.sent, net.Permitted create primary tx

/-- The contracts are those that the registrar of the primary knows. -/
structure Deployed (d : Deployment A) : Prop where
  registrar : d.registrar = net.properties primary
  registrar_ne : net.properties primary ≠ 0
  bicRegistrar :
    Registered create net.chain (net.properties primary) BIC_REGISTRAR_KEY d.bicRegistrar
  paymentService :
    Registered create net.chain (net.properties primary) PAYMENT_SERVICE_KEY d.paymentService

/-- The invariant. -/
structure Sound : Prop extends net.Lawful create primary where
  /-- the node of the primary knows the registrar that is in the file -/
  registrar : net.properties primary ≠ 0 →
    Installed create primary (net.view primary) (transactionCount primary (net.view primary))
      .nameToAddressRegistrar (net.properties primary)
  deployed : ∀ d ∈ net.deployments, net.Deployed create primary d.2
  /-- the node of the primary knows the entries of the first deployment -/
  settled : net.deployments ≠ [] → ∀ k contract, Keyed k contract →
    ∃ a, Registered create (net.view primary) (net.properties primary) k a

end Net

/-! ### Entries are made once -/

section Entries

variable {create primary} {net : Net ι A} {chain pre pre' : List (Mined ι A)} {r a : A}
  {k : String} {n : ℕ} {contract : ContractName}

omit [DecidableEq ι] [DecidableEq A] [Zero A]

theorem view_prefix_chain (i : ι) : net.view i <+: net.chain := List.take_prefix ..

theorem Installed.mono (h : Installed create primary pre n contract a) (h_pre : pre <+: pre')
    {n' : ℕ} (h_le : n ≤ n') : Installed create primary pre' n' contract a := by
  obtain ⟨m, h_lt, h_a, h_mem⟩ := h
  exact ⟨m, h_lt.trans_le h_le, h_a, h_pre.subset h_mem⟩

variable [DecidableEq ι] [DecidableEq A] [Zero A]

theorem Installed.code (h_inj : Function.Injective2 create) (h_ordered : Ordered chain)
    (h : Installed create primary chain n contract a) (h_pre : pre <+: chain)
    (h_n : n ≤ transactionCount primary pre) : (storage create pre).code a = some contract := by
  obtain ⟨m, h_lt, rfl, h_mem⟩ := h
  refine code_of_mem h_inj (h_ordered.of_prefix h_pre) ?_
  exact (h_ordered.mem_iff h_pre h_mem).mpr (h_lt.trans_le h_n)

namespace Net.Lawful

omit [DecidableEq A] in
/-- Who writes entries: the primary, while it starts. -/
theorem write (h : net.Lawful create primary) {m : Mined ι A} (h_m : m ∈ net.chain)
    (h_action : m.tx.action = .setAddress (net.properties primary) k a) :
    m.tx.sender = primary ∧
      net.StartUpWrite create primary (net.properties primary) m.tx.nonce k a :=
  (h.permitted m.tx (h.mined m h_m)).writes k a h_action

omit [DecidableEq A] in
/-- A write of an entry is the only one. -/
theorem nonce_le (h : net.Lawful create primary) {m : Mined ι A} (h_m : m ∈ net.chain)
    (h_action : m.tx.action = .setAddress (net.properties primary) k a) {m' : Mined ι A} {a' : A}
    (h_m' : m' ∈ net.chain)
    (h_action' : m'.tx.action = .setAddress (net.properties primary) k a') :
    m.tx.nonce ≤ m'.tx.nonce :=
  (h.write h_m h_action).2.unset m' h_m' a' h_action'

/-- **Entries are made once**: an entry of the registrar that is not zero stays what it is. -/
theorem stable (h : net.Lawful create primary) (h_pre' : pre' <+: net.chain)
    (h_pre : pre <+: pre') (h_a : Registered create pre (net.properties primary) k a) :
    Registered create pre' (net.properties primary) k a := by
  obtain ⟨rest, rfl⟩ := h_pre
  induction rest using List.reverseRecOn with
  | nil => rwa [List.append_nil]
  | append_singleton rest m ih =>
    rw [← List.append_assoc] at h_pre' ⊢
    have h_before := (List.prefix_append (pre ++ rest) [m]).trans h_pre'
    have h_old := ih h_before
    refine ⟨?_, h_a.2⟩
    rw [storage_concat]
    refine (apply_addresses _).elim (fun h_same => h_same.trans h_old.1) fun h_action => ?_
    -- the entry was written before, and this write would not be allowed
    obtain ⟨m', h_m', h_action'⟩ := exists_of_addresses h_a.1 h_a.2
    have h_m : m ∈ net.chain :=
      h_pre'.subset (List.mem_append_right _ (List.mem_singleton_self m))
    have h_chain' := h_before.subset (List.mem_append_left rest h_m')
    have h_le := h.nonce_le h_m h_action h_chain' h_action'
    have h_lt := (h.ordered.of_prefix h_before).lt_of_mem (List.mem_append_left rest h_m')
    have h_nonce := (numbered_concat.mp (h.ordered.of_prefix h_pre')).2
    rw [(h.write h_chain' h_action').1] at h_lt
    rw [(h.write h_m h_action).1] at h_nonce
    omega

/-- The contract of an entry is installed where the entry is made. -/
theorem code (h_inj : Function.Injective2 create) (h : net.Lawful create primary)
    (h_pre : pre <+: net.chain) (h_a : Registered create pre (net.properties primary) k a) :
    ∃ contract, Keyed k contract ∧ (storage create pre).code a = some contract := by
  obtain ⟨m, h_m, h_action⟩ := exists_of_addresses h_a.1 h_a.2
  obtain ⟨h_sender, h_write⟩ := h.write (h_pre.subset h_m) h_action
  obtain ⟨contract, h_keyed, h_installed⟩ := h_write.installed
  refine ⟨contract, h_keyed, h_installed.code h_inj h.ordered h_pre ?_⟩
  have h_lt := (h.ordered.of_prefix h_pre).lt_of_mem h_m
  rw [h_sender] at h_lt
  exact h_lt.le

theorem ne_registrar (h : net.Lawful create primary) (h_pre : pre <+: net.chain)
    (h_a : Registered create pre (net.properties primary) k a) : a ≠ net.properties primary := by
  obtain ⟨m, h_m, h_action⟩ := exists_of_addresses h_a.1 h_a.2
  exact (h.write (h_pre.subset h_m) h_action).2.ne

/-- A write that the chain has executed has made its entry. -/
theorem registered_of_mem (h_inj : Function.Injective2 create) (h_create : ∀ i n, create i n ≠ 0)
    (h : net.Lawful create primary) (h_pre : pre <+: net.chain) {m : Mined ι A}
    (h_m : m ∈ pre) (h_action : m.tx.action = .setAddress (net.properties primary) k a) :
    Registered create pre (net.properties primary) k a := by
  obtain ⟨before, after, rfl⟩ := List.append_of_mem h_m
  have h_chain := h_pre.subset h_m
  obtain ⟨h_sender, h_write⟩ := h.write h_chain h_action
  have h_before := (List.prefix_append before (m :: after)).trans h_pre
  -- the transaction is numbered by those before it
  have h_nonce : m.tx.nonce = transactionCount m.tx.sender before :=
    h.ordered.of_prefix h_pre before m after rfl
  rw [h_sender] at h_nonce
  have h_code := h_write.registrar.code h_inj h.ordered h_before h_nonce.le
  have h_at : before ++ [m] <+: before ++ m :: after := ⟨after, List.append_assoc ..⟩
  have h_a : a ≠ 0 := by
    obtain ⟨_, _, n, _, rfl, _⟩ := h_write.installed
    exact h_create primary n
  -- the entry is set here, and stays
  refine h.stable h_pre h_at ⟨?_, h_a⟩
  rw [storage_concat]
  exact apply_setAddress _ (h.executed m h_chain _ _ _ h_action) h_action h_code

/-- What the primary reads as zero is unset for its next transaction. -/
theorem unset_of_zero (h_inj : Function.Injective2 create) (h_create : ∀ i n, create i n ≠ 0)
    (h : net.Lawful create primary) (h_pre : pre <+: net.chain)
    (h_zero : (storage create pre).addresses (net.properties primary) k = 0)
    (h_n : n ≤ transactionCount primary pre) : Unset net.chain (net.properties primary) k n := by
  intro m h_m a h_action
  by_contra h_lt
  have h_pre_m : m ∈ pre := by
    refine (h.ordered.mem_iff h_pre h_m).mpr ?_
    rw [(h.write h_m h_action).1]
    exact (not_le.mp h_lt).trans_le h_n
  have h_a := h.registered_of_mem h_inj h_create h_pre h_pre_m h_action
  exact h_a.2 (h_a.1.symm.trans h_zero)

omit [DecidableEq A] in
/-- Another transaction of the primary leaves the entry unset. -/
theorem unset_succ (h : net.Lawful create primary) {m : Mined ι A} (h_m : m ∈ net.chain)
    (h_sender : m.tx.sender = primary)
    (h_action : ∀ a, m.tx.action ≠ .setAddress (net.properties primary) k a)
    (h_unset : Unset net.chain (net.properties primary) k m.tx.nonce) :
    Unset net.chain (net.properties primary) k (m.tx.nonce + 1) := by
  intro m' h_m' a h_action'
  refine Nat.lt_of_le_of_ne (h_unset m' h_m' a h_action') fun h_nonce => h_action a ?_
  have h_sender' := (h.write h_m' h_action').1
  rw [h.ordered.inj h_m' h_m (h_sender.trans h_sender'.symm) h_nonce]
  exact h_action'

end Net.Lawful

end Entries

/-! ### How nets evolve -/

/-- What any step may do to a net. -/
structure Evolves (s s' : Net ι A) : Prop where
  sound : s.Sound create primary → s'.Sound create primary
  chain : s.chain <+: s'.chain
  synced : ∀ i, s.synced i ≤ s'.synced i
  registrar : s.properties primary ≠ 0 → s'.properties primary = s.properties primary
  deployments : s.deployments <+: s'.deployments

section Evolves

variable {create primary} {s s' s'' : Net ι A} {i : ι} {tx : Tx ι A} {d : Deployment A}

/-- Nothing has happened. -/
theorem Evolves.refl (s : Net ι A) : Evolves create primary s s where
  sound := id
  chain := List.prefix_rfl
  synced _ := Nat.le_refl _
  registrar _ := rfl
  deployments := List.prefix_rfl

/-- Two developments, one after the other. -/
theorem Evolves.trans (h : Evolves create primary s s') (h' : Evolves create primary s' s'') :
    Evolves create primary s s'' where
  sound := h'.sound ∘ h.sound
  chain := h.chain.trans h'.chain
  synced i := (h.synced i).trans (h'.synced i)
  registrar h_F := by
    have h_F' := h.registrar h_F
    exact (h'.registrar (h_F'.trans_ne h_F)).trans h_F'
  deployments := h.deployments.trans h'.deployments

theorem Evolves.view (h : Evolves create primary s s') (i : ι) : s.view i <+: s'.view i :=
  (h.chain.take (s.synced i)).trans (List.take_prefix_take_left (h.synced i))

/-- What is deployed stays so while the chain grows. -/
theorem Net.Deployed.mono (h : s.Deployed create primary d) (h_lawful : s'.Lawful create primary)
    (h_chain : s.chain <+: s'.chain) (h_F : s'.properties primary = s.properties primary) :
    s'.Deployed create primary d := by
  have h_stable {k : String} {a : A} (h_a : Registered create s.chain (s.properties primary) k a) :
      Registered create s'.chain (s'.properties primary) k a := by
    rw [← h_F] at h_a
    exact h_lawful.stable List.prefix_rfl h_chain h_a
  exact
    { registrar := h.registrar.trans h_F.symm
      registrar_ne := h_F.trans_ne h.registrar_ne
      bicRegistrar := h_stable h.bicRegistrar
      paymentService := h_stable h.paymentService }

omit [DecidableEq ι] in
/-- There is one deployment. -/
theorem Net.Deployed.unique (h : s.Deployed create primary d) {d' : Deployment A}
    (h' : s.Deployed create primary d') : d = d' := by
  have h_bicRegistrar := h.bicRegistrar.1.symm.trans h'.bicRegistrar.1
  have h_paymentService := h.paymentService.1.symm.trans h'.paymentService.1
  have h_registrar := h.registrar.trans h'.registrar.symm
  obtain ⟨r, b, p⟩ := d
  obtain ⟨r', b', p'⟩ := d'
  exact congr (congr (congrArg Deployment.mk h_registrar) h_bicRegistrar) h_paymentService

theorem Evolves.deployed (h : Evolves create primary s s') (h_s : s.Sound create primary)
    (h_d : s.Deployed create primary d) : s'.Deployed create primary d :=
  h_d.mono (h.sound h_s).toLawful h.chain (h.registrar h_d.registrar_ne)

omit [DecidableEq A] in
/-- What was permitted stays so while the chain grows. -/
theorem Net.Permitted.mono (h : s.Permitted create primary tx) (h_chain : s.chain <+: s'.chain)
    (h_F : s'.properties primary = s.properties primary)
    (h_new : ∀ m ∈ s'.chain, m ∉ s.chain → ∀ k a, m.tx.action =
      .setAddress (s.properties primary) k a → transactionCount primary s.chain ≤ m.tx.nonce) :
    s'.Permitted create primary tx where
  registrar r k a h_action := h_F.trans_ne (h.registrar r k a h_action)
  writes k a h_action := by
    rw [h_F] at h_action ⊢
    obtain ⟨h_sender, h_write⟩ := h.writes k a h_action
    refine ⟨h_sender, ?_⟩
    obtain ⟨contract, h_keyed, h_installed⟩ := h_write.installed
    exact
      { unset := by
          intro m h_m a' h_action'
          -- what was not set before has been set by this transaction at most
          by_cases h_old : m ∈ s.chain
          · exact h_write.unset m h_old a' h_action'
          · exact h_write.nonce.trans (h_new m h_m h_old k a' h_action')
        nonce := h_write.nonce.trans (ownCount_mono h_chain)
        ne := h_write.ne
        registrar := h_write.registrar.mono h_chain (Nat.le_refl _)
        installed := ⟨contract, h_keyed, h_installed.mono h_chain (Nat.le_refl _)⟩ }

/-- Soundness of a net whose transactions are lawful carries over to a longer chain, of which
the nodes know more. -/
theorem Net.Sound.extend (h : s.Sound create primary) (h_lawful : s'.Lawful create primary)
    (h_chain : s.chain <+: s'.chain) (h_view : s.view primary <+: s'.view primary)
    (h_F : s'.properties primary = s.properties primary)
    (h_deployments : s'.deployments = s.deployments) : s'.Sound create primary where
  toLawful := h_lawful
  registrar h_ne := by
    -- the registrar is the same
    rw [h_F] at h_ne ⊢
    exact (h.registrar h_ne).mono h_view (ownCount_mono h_view)
  deployed d h_d := by
    rw [h_deployments] at h_d
    exact (h.deployed d h_d).mono h_lawful h_chain h_F
  settled h_ne k contract h_keyed := by
    rw [h_deployments] at h_ne
    obtain ⟨a, h_a⟩ := h.settled h_ne k contract h_keyed
    rw [← h_F] at h_a
    exact ⟨a, h_lawful.stable (view_prefix_chain primary) h_view h_a⟩

/-- The chain executes a transaction. -/
theorem Net.Sound.mine (h : s.Sound create primary) (h_tx : tx ∈ s.sent)
    (h_nonce : tx.nonce = transactionCount tx.sender s.chain) {executed : Bool}
    (h_executed : ∀ r k a, tx.action = .setAddress r k a → executed = true) :
    Evolves create primary s { s with chain := s.chain ++ [⟨tx, executed⟩] } := by
  have h_chain : s.chain <+: s.chain ++ [⟨tx, executed⟩] := List.prefix_append ..
  refine ⟨fun _ => h.extend ?_ h_chain (h_chain.take _) rfl rfl, h_chain,
    fun _ => Nat.le_refl _, fun _ => rfl, List.prefix_rfl⟩
  constructor
  -- the chain is numbered, mined, executed and permitted
  · exact numbered_concat.mpr ⟨h.ordered, h_nonce⟩
  · intro m h_m
    refine (List.mem_append.mp h_m).elim (h.mined m) fun h_last => ?_
    rw [List.mem_singleton.mp h_last]
    exact h_tx
  · intro m h_m r k a h_action
    refine (List.mem_append.mp h_m).elim (fun h_old => h.executed m h_old r k a h_action) ?_
    intro h_last
    rw [List.mem_singleton.mp h_last] at h_action ⊢
    exact h_executed r k a h_action
  -- a transaction that is not yet mined
  · intro tx' h_tx'
    refine (h.permitted tx' h_tx').mono h_chain rfl fun m h_m h_old k a h_action => ?_
    obtain rfl := List.mem_singleton.mp ((List.mem_append.mp h_m).resolve_left h_old)
    have h_sender := ((h.permitted tx h_tx).writes k a h_action).1
    rw [← h_sender]
    exact h_nonce.ge

/-- A node gets to know more of the chain. -/
theorem Net.Sound.sync (h : s.Sound create primary) {n : ℕ} (h_n : s.synced i ≤ n) :
    Evolves create primary s { s with synced := Function.update s.synced i n } := by
  have h_synced (j : ι) : s.synced j ≤ Function.update s.synced i n j := by
    rw [Function.update_apply]
    split_ifs with h_j
    · rwa [h_j]
    · exact Nat.le_refl _
  refine ⟨fun _ => ?_, List.prefix_rfl, h_synced, fun _ => rfl, List.prefix_rfl⟩
  refine h.extend ?_ List.prefix_rfl (List.take_prefix_take_left (h_synced primary)) rfl rfl
  refine ⟨h.ordered, h.mined, h.executed, fun tx h_tx => ?_⟩
  exact (h.permitted tx h_tx).mono List.prefix_rfl rfl fun m h_m h_old => absurd h_m h_old

/-- A permitted transaction is sent. -/
theorem Net.Sound.send (h : s.Sound create primary) (h_tx : s.Permitted create primary tx)
    (accountNonce : ι → ℕ) :
    Evolves create primary s { s with sent := s.sent ++ [tx], accountNonce := accountNonce } := by
  refine ⟨fun _ => ?_, List.prefix_rfl, fun _ => Nat.le_refl _, fun _ => rfl, List.prefix_rfl⟩
  refine h.extend ?_ List.prefix_rfl List.prefix_rfl rfl rfl
  refine ⟨h.ordered, fun m h_m => List.mem_append_left _ (h.mined m h_m), h.executed, ?_⟩
  intro tx' h_tx'
  have h_tx' : s.Permitted create primary tx' := by
    refine (List.mem_append.mp h_tx').elim (h.permitted tx') fun h_last => ?_
    rwa [List.mem_singleton.mp h_last]
  exact h_tx'.mono List.prefix_rfl rfl fun m h_m h_old => absurd h_m h_old

/-- A client takes the next nonce. -/
theorem Net.Sound.setNonce (h : s.Sound create primary) (accountNonce : ι → ℕ) :
    Evolves create primary s { s with accountNonce := accountNonce } := by
  refine ⟨fun _ => ?_, List.prefix_rfl, fun _ => Nat.le_refl _, fun _ => rfl, List.prefix_rfl⟩
  refine h.extend ⟨h.ordered, h.mined, h.executed, fun tx h_tx => ?_⟩ List.prefix_rfl
    List.prefix_rfl rfl rfl
  exact (h.permitted tx h_tx).mono List.prefix_rfl rfl fun m h_m h_old => absurd h_m h_old

/-- The primary stores its registrar for the first time. -/
theorem Net.Sound.store (h : s.Sound create primary) (h_F : s.properties primary = 0) {r : A}
    (h_r : Installed create primary (s.view primary) (transactionCount primary (s.view primary))
      .nameToAddressRegistrar r) :
    Evolves create primary s
      { s with properties := Function.update s.properties primary r } := by
  refine ⟨fun _ => ?_, List.prefix_rfl, fun _ => Nat.le_refl _, fun h_ne => absurd h_F h_ne,
    List.prefix_rfl⟩
  -- nobody has written a registrar, and nobody is up
  have h_none (tx : Tx ι A) (h_tx : tx ∈ s.sent) (r' : A) (k : String) (a : A) :
      tx.action ≠ .setAddress r' k a :=
    fun h_action => (h.permitted tx h_tx).registrar r' k a h_action h_F
  have h_deployments (d : ι × Deployment A) : d ∉ s.deployments :=
    fun h_d => (h.deployed d h_d).registrar_ne h_F
  constructor
  · refine ⟨h.ordered, h.mined, h.executed, fun tx h_tx => ⟨?_, ?_⟩⟩
    · exact fun r' k a h_action => absurd h_action (h_none tx h_tx r' k a)
    · exact fun k a h_action => absurd h_action (h_none tx h_tx _ k a)
  · intro _
    dsimp only
    rw [Function.update_self]
    exact h_r
  · exact fun d h_d => absurd h_d (h_deployments d)
  · exact fun h_ne => absurd (List.eq_nil_iff_forall_not_mem.mpr h_deployments) h_ne

/-- A service is up. -/
theorem Net.Sound.register (h : s.Sound create primary) (h_d : s.Deployed create primary d)
    (h_settled : ∀ k contract, Keyed k contract →
      ∃ a, Registered create (s.view primary) (s.properties primary) k a) :
    Evolves create primary s { s with deployments := s.deployments ++ [(i, d)] } := by
  refine ⟨fun _ => ?_, List.prefix_rfl, fun _ => Nat.le_refl _, fun _ => rfl,
    List.prefix_append ..⟩
  refine ⟨⟨h.ordered, h.mined, h.executed, fun tx h_tx => ?_⟩, h.registrar, ?_,
    fun _ => h_settled⟩
  · exact (h.permitted tx h_tx).mono List.prefix_rfl rfl fun m h_m h_old => absurd h_m h_old
  · intro d' h_d'
    -- a deployment of before, or the new one
    refine (List.mem_append.mp h_d').elim (fun h_old => ?_) fun h_last => ?_
    · obtain ⟨h₁, h₂, h₃, h₄⟩ := h.deployed d' h_old
      exact ⟨h₁, h₂, h₃, h₄⟩
    · rw [List.mem_singleton.mp h_last]
      obtain ⟨h₁, h₂, h₃, h₄⟩ := h_d
      exact ⟨h₁, h₂, h₃, h₄⟩

end Evolves

end StartUp

end Ethiso
