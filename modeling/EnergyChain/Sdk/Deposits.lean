import EnergyChain.Evm.Checked
import EnergyChain.Foundations.JsStrings

/-!
# SDK: scanning a block for native deposits

The scan asks the provider for a block and for each of its transactions and
reports those whose recipient is watched. It reads neither their value nor
their receipt.
-/

namespace EnergyChain.Sdk

/-! ### The client -/

structure BlockResponse where
  number : ℕ
  transactions : Option (List JsString)

structure TransactionResponse where
  hash : JsString
  /-- `from`. -/
  sender : JsString
  /-- `to`, null when the transaction creates a contract. -/
  recipient : Option JsString
  value : ℕ

structure TransactionReceipt where
  hash : JsString
  status : ℕ

/-- What the client awaits from its node; a request may be rejected, or find nothing. -/
structure Provider (ε : Type) where
  getBlock : ℕ → Except ε (Option BlockResponse)
  getTransaction : JsString → Except ε (Option TransactionResponse)
  getTransactionReceipt : JsString → Except ε (Option TransactionReceipt)

/-- The `type` of a deposit. -/
inductive DepositType where
  | native
  | erc20
deriving DecidableEq

structure Deposit where
  txHash : JsString
  /-- `from`. -/
  sender : JsString
  /-- `to`. -/
  recipient : JsString
  amount : ℕ
  blockNumber : ℕ
  type : DepositType
deriving DecidableEq

variable {ε : Type}

/-- Body of the loop over the transactions of a block. -/
def scanTransaction (provider : Provider ε) (blockNumber : ℕ) (watchAddresses : Finset JsString)
    (deposits : List Deposit) (txHash : JsString) : Except ε (List Deposit) := do
  let some tx ← provider.getTransaction txHash | return deposits
  let some recipient := tx.recipient | return deposits
  -- The empty string is falsy.
  if recipient = [] then return deposits
  let toAddr := toLowerCase recipient
  if toAddr ∈ watchAddresses then
    return deposits ++ [{ txHash := tx.hash, sender := tx.sender, recipient, amount := tx.value
                          blockNumber, type := .native }]
  return deposits

def scanBlockForDeposits (provider : Provider ε) (blockNumber : ℕ)
    (watchAddresses : Finset JsString) : Except ε (List Deposit) := do
  let some block ← provider.getBlock blockNumber | return []
  let some transactions := block.transactions | return []
  transactions.foldlM (scanTransaction provider block.number watchAddresses) []

/-! ### The chain -/

/-- A top-level transaction of a block with the outcome in its receipt. -/
structure Transaction where
  hash : JsString
  sender : Address
  /-- None when the transaction creates a contract. -/
  recipient : Option Address
  value : ℕ
  status : ℕ
deriving DecidableEq

/-- The lower-case text of an address. -/
def addressText (a : Address) : JsString := hexlify (bigEndian 20 a.index)

/-- The provider's answer for a transaction: its addresses are hex text in any case. -/
structure TransactionResponse.Describes (r : TransactionResponse) (tx : Transaction) : Prop where
  hash : r.hash = tx.hash
  sender : toLowerCase r.sender = addressText tx.sender
  recipient : r.recipient.map toLowerCase = tx.recipient.map addressText
  value : r.value = tx.value

/-- The provider answers with the block, the transactions that are in it and their receipts. -/
structure Provider.Faithful (provider : Provider ε) (blockNumber : ℕ) (block : List Transaction) :
    Prop where
  getBlock : provider.getBlock blockNumber =
    .ok (some { number := blockNumber, transactions := some (block.map Transaction.hash) })
  getTransaction : ∀ tx ∈ block, ∃ r : TransactionResponse,
    provider.getTransaction tx.hash = .ok (some r) ∧ r.Describes tx
  getTransactionReceipt : ∀ tx ∈ block,
    provider.getTransactionReceipt tx.hash = .ok (some { hash := tx.hash, status := tx.status })

theorem addressText_injective : Function.Injective addressText := by
  intro a b h
  have hindex := (bigEndian_inj (by omega) (by omega)).mp (hexlify_injective h)
  exact Address.equivFin.injective (Fin.ext hindex)

theorem addressText_ne_nil (a : Address) : addressText a ≠ [] := nofun

/-! ### What arrived -/

section Credits

variable (watchAddresses : Finset JsString)

def Transaction.Watched (tx : Transaction) : Prop :=
  ∃ a ∈ tx.recipient, addressText a ∈ watchAddresses

instance (tx : Transaction) : Decidable (tx.Watched watchAddresses) :=
  inferInstanceAs (Decidable (∃ a ∈ tx.recipient, addressText a ∈ watchAddresses))

/-- The transaction succeeded and moved a positive value. -/
def Transaction.Credits (tx : Transaction) : Prop := tx.status = 1 ∧ 0 < tx.value

instance (tx : Transaction) : Decidable tx.Credits :=
  inferInstanceAs (Decidable (tx.status = 1 ∧ 0 < tx.value))

/-- The native value the transactions of a block credited to an account. -/
def credited (block : List Transaction) (a : Address) : ℕ :=
  ((block.filter fun tx => tx.status = 1 ∧ tx.recipient = some a).map Transaction.value).sum

def reported (deposits : List Deposit) (a : Address) : ℕ :=
  ((deposits.filter fun d => toLowerCase d.recipient = addressText a).map Deposit.amount).sum

/-- The entry of a transaction in the list of deposits. -/
structure Deposit.Reports (blockNumber : ℕ) (tx : Transaction) (d : Deposit) : Prop where
  txHash : d.txHash = tx.hash
  sender : toLowerCase d.sender = addressText tx.sender
  recipient : some (toLowerCase d.recipient) = tx.recipient.map addressText
  amount : d.amount = tx.value
  blockNumber : d.blockNumber = blockNumber
  type : d.type = .native

/-- One entry, in block order, for each transaction that credited a watched address, which
add up to what was credited. -/
structure CreditsExactly (blockNumber : ℕ) (block : List Transaction) (deposits : List Deposit) :
    Prop where
  entries : List.Forall₂ (Deposit.Reports blockNumber)
    (block.filter fun tx => tx.Credits ∧ tx.Watched watchAddresses) deposits
  amounts : ∀ a, addressText a ∈ watchAddresses → reported deposits a = credited block a

end Credits

/-! ### What is reported -/

section Scan

variable {provider : Provider ε} (blockNumber : ℕ) (watchAddresses : Finset JsString)

theorem scanTransaction_eq {tx : Transaction} {r : TransactionResponse}
    (hget : provider.getTransaction tx.hash = .ok (some r)) (hr : r.Describes tx)
    (deposits : List Deposit) :
    (tx.Watched watchAddresses → ∃ d : Deposit, d.Reports blockNumber tx ∧
      scanTransaction provider blockNumber watchAddresses deposits tx.hash =
        .ok (deposits ++ [d])) ∧
    (¬ tx.Watched watchAddresses →
      scanTransaction provider blockNumber watchAddresses deposits tx.hash = .ok deposits) := by
  unfold scanTransaction
  rw [hget, except_ok_bind]
  dsimp only
  have hrecipient := hr.recipient
  cases hto : r.recipient with
  | none =>
    have hnone : tx.recipient = none := by simpa [hto] using hrecipient.symm
    simp [Transaction.Watched, hnone]
  | some text =>
    obtain ⟨a, ha, htext⟩ : ∃ a, tx.recipient = some a ∧ addressText a = toLowerCase text := by
      simpa [hto] using hrecipient.symm
    have hne : text ≠ [] := by
      rintro rfl
      exact addressText_ne_nil a htext
    have hwatched : tx.Watched watchAddresses ↔ toLowerCase text ∈ watchAddresses := by
      simp [Transaction.Watched, ha, htext]
    simp only [hne, if_false, hwatched]
    constructor
    · intro hmem
      rw [if_pos hmem]
      exact ⟨_, ⟨hr.hash, hr.sender, by simp [ha, htext], hr.value, rfl, rfl⟩, rfl⟩
    · intro hmem
      rw [if_neg hmem]
      rfl

/-- The loop adds the entries of the watched transactions, in order. -/
theorem foldlM_scanTransaction {txs : List Transaction}
    (hget : ∀ tx ∈ txs, ∃ r : TransactionResponse,
      provider.getTransaction tx.hash = .ok (some r) ∧ r.Describes tx) (deposits : List Deposit) :
    ∃ ds, (txs.map Transaction.hash).foldlM
        (scanTransaction provider blockNumber watchAddresses) deposits = .ok (deposits ++ ds) ∧
      List.Forall₂ (Deposit.Reports blockNumber)
        (txs.filter fun tx => tx.Watched watchAddresses) ds := by
  induction txs generalizing deposits with
  | nil => exact ⟨[], congrArg Except.ok (List.append_nil deposits).symm, List.Forall₂.nil⟩
  | cons tx txs ih =>
    obtain ⟨r, hr, hdesc⟩ := hget tx List.mem_cons_self
    obtain ⟨hreport, hskip⟩ :=
      scanTransaction_eq blockNumber watchAddresses hr hdesc deposits
    have hrest := fun tx htx => hget tx (List.mem_cons_of_mem _ htx)
    rw [List.map_cons, List.foldlM_cons]
    by_cases hwatched : tx.Watched watchAddresses
    · obtain ⟨d, hd, hscan⟩ := hreport hwatched
      obtain ⟨ds, hds, hall⟩ := ih hrest (deposits ++ [d])
      rw [hscan, except_ok_bind, hds, List.filter_cons_of_pos (by simpa using hwatched)]
      exact ⟨d :: ds, by simp, List.Forall₂.cons hd hall⟩
    · obtain ⟨ds, hds, hall⟩ := ih hrest deposits
      rw [hskip hwatched, except_ok_bind, hds, List.filter_cons_of_neg (by simpa using hwatched)]
      exact ⟨ds, rfl, hall⟩

theorem scanBlockForDeposits_reports {block : List Transaction}
    (hfaithful : provider.Faithful blockNumber block) :
    ∃ deposits, scanBlockForDeposits provider blockNumber watchAddresses = .ok deposits ∧
      List.Forall₂ (Deposit.Reports blockNumber)
        (block.filter fun tx => tx.Watched watchAddresses) deposits := by
  obtain ⟨deposits, hscan, hall⟩ :=
    foldlM_scanTransaction blockNumber watchAddresses hfaithful.getTransaction []
  refine ⟨deposits, ?_, hall⟩
  rw [scanBlockForDeposits, hfaithful.getBlock]
  exact hscan

/-- What is reported for a watched account is the value sent to it, credited or not. -/
theorem reported_eq {txs : List Transaction} {deposits : List Deposit}
    (hall : List.Forall₂ (Deposit.Reports blockNumber) txs deposits) (a : Address) :
    reported deposits a =
      ((txs.filter fun tx => tx.recipient = some a).map Transaction.value).sum := by
  induction hall with
  | nil => rfl
  | @cons tx d txs deposits hd hall ih =>
    have hiff : toLowerCase d.recipient = addressText a ↔ tx.recipient = some a := by
      obtain ⟨b, hb, htext⟩ : ∃ b, tx.recipient = some b ∧ addressText b =
          toLowerCase d.recipient := by
        simpa using hd.recipient.symm
      rw [← htext, hb, addressText_injective.eq_iff, Option.some_inj]
    simp only [reported] at ih ⊢
    simp only [List.filter_cons, hiff]
    split_ifs with hto
    · simp [ih, hd.amount]
    · exact ih

end Scan

variable {provider : Provider ε} {blockNumber : ℕ} {watchAddresses : Finset JsString}
  {block : List Transaction}

/-- A watched transaction that credited nothing would have an entry too many. -/
theorem CreditsExactly.credits {deposits : List Deposit}
    (h : CreditsExactly watchAddresses blockNumber block deposits)
    (hall : List.Forall₂ (Deposit.Reports blockNumber)
      (block.filter fun tx => tx.Watched watchAddresses) deposits) :
    ∀ tx ∈ block, tx.Watched watchAddresses → tx.Credits := by
  have hsublist : (block.filter fun tx => tx.Credits ∧ tx.Watched watchAddresses).Sublist
      (block.filter fun tx => tx.Watched watchAddresses) :=
    List.monotone_filter_right block fun tx htx => by
      rw [decide_eq_true_iff] at htx ⊢
      exact htx.2
  have hlength := h.entries.length_eq.trans hall.length_eq.symm
  have hsame := hsublist.eq_of_length hlength
  intro tx htx hwatched
  have hmem : tx ∈ block.filter fun tx => tx.Watched watchAddresses :=
    List.mem_filter.mpr ⟨htx, by simpa using hwatched⟩
  rw [← hsame, List.mem_filter, decide_eq_true_iff] at hmem
  exact hmem.2.1

/-- When every watched transaction credited something, the watched ones are what arrived. -/
theorem creditsExactly_of_credits {deposits : List Deposit}
    (hall : List.Forall₂ (Deposit.Reports blockNumber)
      (block.filter fun tx => tx.Watched watchAddresses) deposits)
    (hcredits : ∀ tx ∈ block, tx.Watched watchAddresses → tx.Credits) :
    CreditsExactly watchAddresses blockNumber block deposits := by
  refine ⟨?_, fun a ha => ?_⟩
  · have hsame : (block.filter fun tx => tx.Credits ∧ tx.Watched watchAddresses) =
        block.filter fun tx => tx.Watched watchAddresses := by
      refine List.filter_congr fun tx htx => decide_eq_decide.mpr ?_
      exact ⟨fun h => h.2, fun h => ⟨hcredits tx htx h, h⟩⟩
    rw [hsame]
    exact hall
  · rw [reported_eq blockNumber hall a, credited, List.filter_filter]
    refine congrArg (fun txs => (txs.map Transaction.value).sum) (List.filter_congr fun tx htx => ?_)
    rw [← Bool.decide_and]
    rw [decide_eq_decide, and_comm]
    refine and_congr_left fun hto => ?_
    have hwatched : tx.Watched watchAddresses := ⟨a, hto, ha⟩
    exact iff_of_true hwatched (hcredits tx htx hwatched).1

/-- On a faithful provider the scan credits exactly what arrived when and only when the
block has no failed and no zero-value transaction to a watched address. -/
theorem scanBlockForDeposits_exact_iff (hfaithful : provider.Faithful blockNumber block) :
    (∃ deposits, scanBlockForDeposits provider blockNumber watchAddresses = .ok deposits ∧
      CreditsExactly watchAddresses blockNumber block deposits) ↔
    ∀ tx ∈ block, tx.Watched watchAddresses → tx.status = 1 ∧ 0 < tx.value := by
  obtain ⟨deposits, hscan, hall⟩ :=
    scanBlockForDeposits_reports blockNumber watchAddresses hfaithful
  constructor
  · rintro ⟨deposits', hscan', hexact⟩
    obtain rfl : deposits = deposits' := Except.ok.inj (hscan.symm.trans hscan')
    exact hexact.credits hall
  · intro hcredits
    exact ⟨deposits, hscan, creditsExactly_of_credits hall hcredits⟩

/-! ### A node with one block -/

def Transaction.response (tx : Transaction) : TransactionResponse :=
  { hash := tx.hash, sender := addressText tx.sender
    recipient := tx.recipient.map addressText, value := tx.value }

/-- The node of a chain of which nothing but the block is asked for. -/
def nodeWith (blockNumber : ℕ) (block : List Transaction) : Provider Unit where
  getBlock n := .ok (if n = blockNumber then
    some { number := n, transactions := some (block.map Transaction.hash) } else none)
  getTransaction txHash :=
    .ok ((block.find? fun tx => tx.hash = txHash).map Transaction.response)
  getTransactionReceipt txHash :=
    .ok ((block.find? fun tx => tx.hash = txHash).map fun tx =>
      { hash := tx.hash, status := tx.status })

theorem Transaction.response_describes (tx : Transaction) : tx.response.Describes tx where
  hash := rfl
  sender := toLowerCase_hexlify _
  recipient := by
    rw [response, Option.map_map]
    exact Option.map_congr fun a _ => toLowerCase_hexlify _
  value := rfl

theorem nodeWith_faithful (blockNumber : ℕ) {block : List Transaction}
    (hfind : ∀ tx ∈ block, (block.find? fun t => t.hash = tx.hash) = some tx) :
    (nodeWith blockNumber block).Faithful blockNumber block where
  getBlock := by simp [nodeWith]
  getTransaction tx htx := by
    refine ⟨tx.response, ?_, tx.response_describes⟩
    simp only [nodeWith, hfind tx htx, Option.map_some]
  getTransactionReceipt tx htx := by
    simp only [nodeWith, hfind tx htx, Option.map_some]

/-- A transaction to the account with the number one. -/
def transfer (hash : String) (value status : ℕ) : Transaction :=
  { hash := js hash, sender := ⟨9⟩, recipient := some ⟨1⟩, value, status }

/-- A transfer to a watched account next to the creation of a contract. -/
theorem scanBlockForDeposits_exact_transfer :
    ∃ deposits, scanBlockForDeposits
        (nodeWith 7 [transfer "0xa1" 50 1, { transfer "0xa2" 0 1 with recipient := none }]) 7
        {addressText ⟨1⟩} = .ok deposits ∧
      CreditsExactly {addressText ⟨1⟩} 7
        [transfer "0xa1" 50 1, { transfer "0xa2" 0 1 with recipient := none }] deposits :=
  (scanBlockForDeposits_exact_iff (nodeWith_faithful 7 (by decide))).mpr (by decide)

/-- A transfer that failed is reported as a deposit. -/
theorem failed_transfer_reported :
    ¬ ∀ (provider : Provider Unit) (blockNumber : ℕ) (watchAddresses : Finset JsString)
      (block : List Transaction), provider.Faithful blockNumber block →
      (∀ w ∈ watchAddresses, ∃ a, w = addressText a) →
      ∃ deposits, scanBlockForDeposits provider blockNumber watchAddresses = .ok deposits ∧
        CreditsExactly watchAddresses blockNumber block deposits := by
  intro h
  have hfaithful : (nodeWith 7 [transfer "0xa1" 50 0]).Faithful 7 [transfer "0xa1" 50 0] :=
    nodeWith_faithful 7 (by decide)
  obtain ⟨deposits, hscan, hexact⟩ := h _ 7 {addressText ⟨1⟩} _ hfaithful
    fun w hw => ⟨⟨1⟩, Finset.mem_singleton.mp hw⟩
  obtain ⟨deposits', hscan', hall⟩ := scanBlockForDeposits_reports 7 {addressText ⟨1⟩} hfaithful
  obtain rfl : deposits = deposits' := Except.ok.inj (hscan.symm.trans hscan')
  have hcredits := hexact.credits hall (transfer "0xa1" 50 0) List.mem_cons_self (by decide)
  exact absurd hcredits (by decide)

end EnergyChain.Sdk
