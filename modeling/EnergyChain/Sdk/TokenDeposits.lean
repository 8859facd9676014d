import EnergyChain.Dex.EventReplay
import EnergyChain.Sdk.Deposits

/-!
# SDK: scanning blocks for deposits of liquidity

The scan for token deposits reads the `Transfer` events of a block. Over the liquidity
token of a pair its reports account for the balances: what a watched account has after
some blocks, and what it paid in them, is what it had before and what was reported.
-/

namespace EnergyChain.Sdk

open Dex (PairEvent PairStorage Pool World deliver events total transact)

/-! ### The client -/

/-- The decoded arguments of an event. -/
structure TransferArgs where
  /-- `from`. -/
  sender : JsString
  /-- `to`. -/
  recipient : Option JsString
  value : ℕ

structure EventLog where
  transactionHash : JsString
  args : Option TransferArgs

structure TokenDeposit extends Deposit where
  tokenAddress : JsString

variable {ε : Type}

/-- Body of the loop over the events of a block. -/
def scanEvent (blockNumber : ℕ) (tokenAddress : JsString) (watchAddresses : Finset JsString)
    (deposits : List TokenDeposit) (event : EventLog) : List TokenDeposit :=
  match event.args with
  | none => deposits
  | some args =>
    match args.recipient with
    | none => deposits
    | some recipient =>
      let toAddr := toLowerCase recipient
      if toAddr ≠ [] ∧ toAddr ∈ watchAddresses then
        deposits ++ [{ txHash := event.transactionHash, sender := args.sender, recipient
                       amount := args.value, blockNumber, type := .erc20, tokenAddress }]
      else deposits

/-- `queryFilter` is what the provider answers for the `Transfer` events of a token
between two blocks. -/
def scanBlockForTokenDeposits (queryFilter : JsString → ℕ → ℕ → Except ε (List EventLog))
    (blockNumber : ℕ) (tokenAddress : JsString) (watchAddresses : Finset JsString) :
    Except ε (List TokenDeposit) := do
  let events ← queryFilter tokenAddress blockNumber blockNumber
  return events.foldl (scanEvent blockNumber tokenAddress watchAddresses) []

/-! ### The chain -/

/-- A block with the transactions on a pair in it, and their hashes. -/
structure TokenBlock (pool : Pool) where
  number : ℕ
  transactions : List (JsString × Dex.Transaction pool)

namespace TokenBlock

variable {pool : Pool}

def plain (b : TokenBlock pool) : List (Dex.Transaction pool) := b.transactions.map Prod.snd

end TokenBlock

/-- A transfer of the liquidity token. -/
structure TransferLog where
  txHash : JsString
  src : Address
  dst : Address
  value : ℕ

def transferLog (txHash : JsString) : PairEvent → Option TransferLog
  | .transfer src dst value => some { txHash, src, dst, value }
  | _ => none

section Chain

variable {pool : Pool} (keccak256 : Bytes → Bytes) (ecrecover : Bytes → Dex.Signature → Address)

def afterBlock (w : World) (b : TokenBlock pool) : World :=
  (deliver keccak256 ecrecover).run w (b.plain.map Dex.Transaction.message)

def blockTransfers : World → List (JsString × Dex.Transaction pool) → List TransferLog
  | _, [] => []
  | w, (txHash, tx) :: rest =>
    let r := transact keccak256 ecrecover w tx
    r.1.filterMap (transferLog txHash) ++ blockTransfers r.2 rest

/-- The node's account of a transfer: its addresses are hex text in any case. -/
structure EventLog.Describes (event : EventLog) (t : TransferLog) : Prop where
  transactionHash : event.transactionHash = t.txHash
  args : ∃ args recipient, event.args = some args ∧ args.recipient = some recipient ∧
    toLowerCase args.sender = addressText t.src ∧ toLowerCase recipient = addressText t.dst ∧
    args.value = t.value

/-- The node answers with the transfers of every block, in order. -/
def Answers (queryFilter : JsString → ℕ → ℕ → Except ε (List EventLog)) (tokenAddress : JsString) :
    World → List (TokenBlock pool) → Prop
  | _, [] => True
  | w, b :: bs =>
    (∃ logs, queryFilter tokenAddress b.number b.number = .ok logs ∧
      List.Forall₂ EventLog.Describes logs
        (blockTransfers keccak256 ecrecover w b.transactions)) ∧
    Answers queryFilter tokenAddress (afterBlock keccak256 ecrecover w b) bs

end Chain

/-! ### Reports -/

section Reports

variable (watchAddresses : Finset JsString)

def TransferLog.Watched (t : TransferLog) : Prop := addressText t.dst ∈ watchAddresses

instance (t : TransferLog) : Decidable (t.Watched watchAddresses) :=
  inferInstanceAs (Decidable (addressText t.dst ∈ watchAddresses))

def reportedTokens (deposits : List TokenDeposit) (a : Address) : ℕ :=
  reported (deposits.map TokenDeposit.toDeposit) a

/-- The entry of a transfer in the list of deposits. -/
structure TokenDeposit.Reports (blockNumber : ℕ) (tokenAddress : JsString) (t : TransferLog)
    (d : TokenDeposit) : Prop where
  txHash : d.txHash = t.txHash
  sender : toLowerCase d.sender = addressText t.src
  recipient : toLowerCase d.recipient = addressText t.dst
  amount : d.amount = t.value
  blockNumber : d.blockNumber = blockNumber
  type : d.type = .erc20
  tokenAddress : d.tokenAddress = tokenAddress

variable {watchAddresses} {blockNumber : ℕ} {tokenAddress : JsString} {logs : List EventLog}
  {ts : List TransferLog}

theorem scanEvent_eq {event : EventLog} {t : TransferLog} (h : event.Describes t)
    (deposits : List TokenDeposit) :
    (t.Watched watchAddresses → ∃ d : TokenDeposit, d.Reports blockNumber tokenAddress t ∧
      scanEvent blockNumber tokenAddress watchAddresses deposits event = deposits ++ [d]) ∧
    (¬ t.Watched watchAddresses →
      scanEvent blockNumber tokenAddress watchAddresses deposits event = deposits) := by
  obtain ⟨args, recipient, hargs, hrecipient, hsender, htext, hvalue⟩ := h.args
  have hne : toLowerCase recipient ≠ [] := by
    rw [htext]
    exact addressText_ne_nil t.dst
  unfold scanEvent TransferLog.Watched
  rw [hargs]
  dsimp only
  rw [hrecipient, ← htext]
  dsimp only
  constructor
  · intro hwatched
    rw [if_pos ⟨hne, hwatched⟩]
    exact ⟨_, ⟨h.transactionHash, hsender, htext, hvalue, rfl, rfl, rfl⟩, rfl⟩
  · intro hwatched
    rw [if_neg fun hcond => hwatched hcond.2]

theorem foldl_scanEvent (h : List.Forall₂ EventLog.Describes logs ts)
    (deposits : List TokenDeposit) :
    ∃ ds, logs.foldl (scanEvent blockNumber tokenAddress watchAddresses) deposits =
        deposits ++ ds ∧
      List.Forall₂ (TokenDeposit.Reports blockNumber tokenAddress)
        (ts.filter fun t => t.Watched watchAddresses) ds := by
  induction h generalizing deposits with
  | nil => exact ⟨[], (List.append_nil deposits).symm, .nil⟩
  | @cons event t logs ts hevent _ ih =>
    obtain ⟨hreport, hskip⟩ := @scanEvent_eq watchAddresses blockNumber tokenAddress _ _ hevent
      deposits
    rw [List.foldl_cons]
    by_cases hwatched : t.Watched watchAddresses
    · obtain ⟨d, hd, hscan⟩ := hreport hwatched
      obtain ⟨ds, hds, hall⟩ := ih (deposits ++ [d])
      rw [hscan, hds, List.filter_cons_of_pos (by simpa using hwatched)]
      exact ⟨d :: ds, by simp, .cons hd hall⟩
    · obtain ⟨ds, hds, hall⟩ := ih deposits
      rw [hskip hwatched, hds, List.filter_cons_of_neg (by simpa using hwatched)]
      exact ⟨ds, rfl, hall⟩

theorem TokenDeposit.Reports.iff {t : TransferLog} {d : TokenDeposit}
    (h : d.Reports blockNumber tokenAddress t) (a : Address) :
    toLowerCase d.recipient = addressText a ↔ t.dst = a := by
  rw [h.recipient, addressText_injective.eq_iff]

/-- What is reported for a watched account is what was transferred to it. -/
theorem reportedTokens_eq {a : Address} (ha : addressText a ∈ watchAddresses)
    {ds : List TokenDeposit} (h : List.Forall₂ (TokenDeposit.Reports blockNumber tokenAddress)
      (ts.filter fun t => t.Watched watchAddresses) ds) :
    reportedTokens ds a = ((ts.filter fun t => t.dst = a).map TransferLog.value).sum := by
  have hwatched : (ts.filter fun t => t.dst = a) =
      (ts.filter fun t => t.Watched watchAddresses).filter fun t => t.dst = a := by
    rw [List.filter_filter]
    apply List.filter_congr
    intro t _
    by_cases heq : t.dst = a
    · simp [TransferLog.Watched, heq, ha]
    · simp [heq]
  rw [hwatched]
  generalize (ts.filter fun t => t.Watched watchAddresses) = ts at h ⊢
  unfold reportedTokens reported
  induction h with
  | nil => rfl
  | @cons t d ts ds hd _ ih =>
    by_cases heq : t.dst = a
    · have htext := (hd.iff a).mpr heq
      simp [heq, htext, hd.amount, ih]
    · have htext := mt (hd.iff a).mp heq
      simp [heq, htext, ih]

end Reports

/-! ### Balances -/

section Balances

variable {pool : Pool} {keccak256 : Bytes → Bytes} {ecrecover : Bytes → Dex.Signature → Address}

theorem received_eq (txHash : JsString) (log : List PairEvent) (a : Address) :
    total (PairEvent.received a) log =
      (((log.filterMap (transferLog txHash)).filter fun t => t.dst = a).map
        TransferLog.value).sum := by
  induction log with
  | nil => rfl
  | cons e log ih =>
    rw [Dex.total_cons, ih]
    cases e with
    | transfer src dst value =>
      by_cases heq : dst = a <;> simp [transferLog, PairEvent.received, heq]
    | _ =>
      rw [List.filterMap_cons_none rfl]
      exact Nat.zero_add _

theorem blockTransfers_received (w : World) (txs : List (JsString × Dex.Transaction pool))
    (a : Address) :
    (((blockTransfers keccak256 ecrecover w txs).filter fun t => t.dst = a).map
      TransferLog.value).sum =
      total (PairEvent.received a) (events keccak256 ecrecover w (txs.map Prod.snd)) := by
  induction txs generalizing w with
  | nil => rfl
  | cons m txs ih =>
    obtain ⟨txHash, tx⟩ := m
    rw [blockTransfers, List.filter_append, List.map_append, List.sum_append, ih,
      ← received_eq, List.map_cons, events, Dex.total_append]

variable {watchAddresses : Finset JsString} {tokenAddress : JsString}
  {queryFilter : JsString → ℕ → ℕ → Except ε (List EventLog)}

theorem scanBlockForTokenDeposits_reports {w : World} {b : TokenBlock pool} {logs : List EventLog}
    (hquery : queryFilter tokenAddress b.number b.number = .ok logs)
    (hlogs : List.Forall₂ EventLog.Describes logs
      (blockTransfers keccak256 ecrecover w b.transactions)) :
    ∃ ds, scanBlockForTokenDeposits queryFilter b.number tokenAddress watchAddresses = .ok ds ∧
      List.Forall₂ (TokenDeposit.Reports b.number tokenAddress)
        ((blockTransfers keccak256 ecrecover w b.transactions).filter
          fun t => t.Watched watchAddresses) ds := by
  obtain ⟨ds, hds, hall⟩ := @foldl_scanEvent watchAddresses b.number tokenAddress _ _ hlogs []
  refine ⟨ds, ?_, hall⟩
  rw [scanBlockForTokenDeposits, hquery, except_ok_bind, hds]
  rfl

/-- The scans of blocks that follow each other succeed, and what they report for a
watched account is what its events say arrived. -/
theorem scan_received {w : World} {bs : List (TokenBlock pool)}
    (hanswers : Answers keccak256 ecrecover queryFilter tokenAddress w bs) :
    ∃ dss, bs.mapM (fun b => scanBlockForTokenDeposits queryFilter b.number tokenAddress
        watchAddresses) = .ok dss ∧
      ∀ a, addressText a ∈ watchAddresses → reportedTokens dss.flatten a =
        total (PairEvent.received a) (events keccak256 ecrecover w (bs.flatMap TokenBlock.plain)) := by
  induction bs generalizing w with
  | nil => exact ⟨[], rfl, fun _ _ => rfl⟩
  | cons b bs ih =>
    obtain ⟨⟨logs, hquery, hlogs⟩, hrest⟩ := hanswers
    obtain ⟨ds, hscan, hall⟩ := scanBlockForTokenDeposits_reports hquery hlogs
    obtain ⟨dss, hscans, hreceived⟩ := ih hrest
    refine ⟨ds :: dss, ?_, ?_⟩
    · rw [List.mapM_cons, hscan, except_ok_bind, hscans]
      rfl
    · intro a ha
      have hsplit : reportedTokens (ds :: dss).flatten a =
          reportedTokens ds a + reportedTokens dss.flatten a := by
        simp [reportedTokens, reported]
      rw [hsplit, hreceived a ha, reportedTokens_eq ha hall, blockTransfers_received,
        List.flatMap_cons, Dex.events_append, Dex.total_append]
      rfl

theorem foldl_afterBlock (w : World) (bs : List (TokenBlock pool)) :
    bs.foldl (afterBlock keccak256 ecrecover) w = (deliver keccak256 ecrecover).run w
      ((bs.flatMap TokenBlock.plain).map Dex.Transaction.message) := by
  induction bs generalizing w with
  | nil => rfl
  | cons b bs ih =>
    rw [List.foldl_cons, ih, List.flatMap_cons, List.map_append, Handler.run_append]
    rfl

/-- Over any blocks, what an exchange is told of a watched account accounts for its
liquidity: with what the account paid, it is what it had and what was reported. -/
theorem token_deposits_account
    (hkey : ∀ digest signature, ecrecover digest signature ≠ pool.pair) (w : World)
    (bs : List (TokenBlock pool))
    (hanswers : Answers keccak256 ecrecover queryFilter tokenAddress w bs) :
    ∃ dss, bs.mapM (fun b => scanBlockForTokenDeposits queryFilter b.number tokenAddress
        watchAddresses) = .ok dss ∧
      ∀ a, a ≠ .zero → addressText a ∈ watchAddresses →
        (bs.foldl (afterBlock keccak256 ecrecover) w).pair.balanceOf a +
            total (PairEvent.paid a) (events keccak256 ecrecover w (bs.flatMap TokenBlock.plain)) =
          w.pair.balanceOf a + reportedTokens dss.flatten a := by
  obtain ⟨dss, hscans, hreceived⟩ := @scan_received _ _ _ _ watchAddresses _ _ w bs hanswers
  refine ⟨dss, hscans, ?_⟩
  intro a hzero ha
  rw [foldl_afterBlock, hreceived a ha]
  exact (Dex.events_tell hkey w (bs.flatMap TokenBlock.plain)).accounts a hzero

end Balances

/-! ### A node with two blocks -/

def TransferLog.event (t : TransferLog) : EventLog :=
  { transactionHash := t.txHash
    args := some { sender := addressText t.src, recipient := some (addressText t.dst)
                   value := t.value } }

theorem TransferLog.event_describes (t : TransferLog) : t.event.Describes t where
  transactionHash := rfl
  args := ⟨_, _, rfl, rfl, toLowerCase_hexlify _, toLowerCase_hexlify _, rfl⟩

/-- The account at five is a deposit address of an exchange. -/
def sampleCustomer : Dex.Caller Dex.samplePool :=
  { address := ⟨5⟩, ne_zero := by decide, ne_pair := by decide }

/-- The first mint and a flash swap, then a deposit of liquidity, part of which goes back. -/
def sampleBlocks : List (TokenBlock Dex.samplePool) :=
  [{ number := 10
     transactions := [js "0xa1", js "0xa2", js "0xa3", js "0xa4"].zip Dex.sampleTransactions },
   { number := 11
     transactions :=
      [(js "0xb1", ⟨⟨4⟩, ⟨1700000010, 11⟩, .liquidity (.transfer Dex.sampleCaller ⟨5⟩ 700)⟩),
        (js "0xb2", ⟨⟨5⟩, ⟨1700000010, 11⟩, .liquidity (.transfer sampleCustomer ⟨4⟩ 200)⟩)] }]

def sampleWorld : World :=
  .deployed Dex.sampleKeccak256 262144 Dex.sampleToken Dex.sampleToken ⟨.zero, ⟨9⟩⟩

/-- The node of a chain with these blocks. -/
def sampleFilter (_ : JsString) (fromBlock _ : ℕ) : Except Unit (List EventLog) :=
  let transfers := fun w (b : TokenBlock Dex.samplePool) =>
    blockTransfers Dex.sampleKeccak256 Dex.sampleEcrecover w b.transactions
  match sampleBlocks with
  | [first, second] =>
    if fromBlock = first.number then .ok ((transfers sampleWorld first).map TransferLog.event)
    else if fromBlock = second.number then
      .ok ((transfers (afterBlock Dex.sampleKeccak256 Dex.sampleEcrecover sampleWorld first)
        second).map TransferLog.event)
    else .ok []
  | _ => .ok []

theorem describes_events (ts : List TransferLog) :
    List.Forall₂ EventLog.Describes (ts.map TransferLog.event) ts := by
  induction ts with
  | nil => exact .nil
  | cons t ts ih => exact .cons t.event_describes ih

theorem token_deposits_account_sample :
    ∃ dss, sampleBlocks.mapM (fun b => scanBlockForTokenDeposits sampleFilter b.number (js "0x01")
        {addressText ⟨5⟩}) = .ok dss ∧ reportedTokens dss.flatten ⟨5⟩ = 700 := by
  have hanswers : Answers Dex.sampleKeccak256 Dex.sampleEcrecover sampleFilter (js "0x01")
      sampleWorld sampleBlocks :=
    ⟨⟨_, rfl, describes_events _⟩, ⟨_, rfl, describes_events _⟩, trivial⟩
  obtain ⟨dss, hscans, haccount⟩ := @token_deposits_account Unit Dex.samplePool Dex.sampleKeccak256
    Dex.sampleEcrecover {addressText ⟨5⟩} (js "0x01") sampleFilter
    (fun _ _ => Dex.samplePool.pair_ne_zero.symm) sampleWorld sampleBlocks hanswers
  refine ⟨dss, hscans, ?_⟩
  have htold := haccount ⟨5⟩ (by decide) (Finset.mem_singleton_self _)
  have hbalance : (sampleBlocks.foldl (afterBlock Dex.sampleKeccak256 Dex.sampleEcrecover)
      sampleWorld).pair.balanceOf ⟨5⟩ = 500 := by decide +kernel
  have hpaid : total (PairEvent.paid ⟨5⟩) (events Dex.sampleKeccak256 Dex.sampleEcrecover
      sampleWorld (sampleBlocks.flatMap TokenBlock.plain)) = 200 := by decide +kernel
  have hstart : sampleWorld.pair.balanceOf ⟨5⟩ = 0 := rfl
  rw [hbalance, hpaid, hstart] at htold
  omega

end EnergyChain.Sdk
