import EnergyChain.Dex.PairSafety

/-!
# Holders of liquidity

What others do to a pair never costs an account its liquidity, as long as the
account sends none, approves nobody and has signed no permit. A permit that it has
signed is accepted once: its nonce is used up by then.
-/

namespace EnergyChain.Dex

variable {pool : Pool} {a : Address}

/-! ### Calls that give liquidity away -/

mutual

/-- The call, or one of its callback, sends liquidity of the account or approves
somebody to. -/
def Call.gives (a : Address) : Call pool → Bool
  | .liquidity (.approve sender _ _) => sender.address = a
  | .liquidity (.transfer sender _ _) => sender.address = a
  | .swap _ _ _ _ callback => Call.givesAny a callback
  | _ => false

def Call.givesAny (a : Address) : List (Call pool) → Bool
  | [] => false
  | c :: cs => c.gives a || Call.givesAny a cs

end

mutual

theorem Call.gives_zero : ∀ c : Call pool, c.gives .zero = false
  | .liquidity (.approve sender _ _) => decide_eq_false sender.ne_zero
  | .liquidity (.transfer sender _ _) => decide_eq_false sender.ne_zero
  | .liquidity (.transferFrom _ _ _ _) => rfl
  | .swap _ _ _ _ callback => Call.givesAny_zero callback
  | .mint _ => rfl
  | .burn _ => rfl
  | .skim _ => rfl
  | .sync => rfl
  | .permit _ _ => rfl
  | .token0 _ => rfl
  | .token1 _ => rfl
  | .setFeeTo _ _ => rfl
  | .setFeeToSetter _ _ => rfl

theorem Call.givesAny_zero : ∀ cs : List (Call pool), Call.givesAny .zero cs = false
  | [] => rfl
  | c :: cs => by rw [Call.givesAny, Call.gives_zero c, Call.givesAny_zero cs, Bool.or_self]

end

/-! ### What the functions of a pair leave -/

/-- The account keeps its liquidity, and no signature becomes valid again. -/
structure Leaves (a : Address) (p p' : PairStorage) : Prop where
  liquidity : ERC20.Keeps a p.toERC20 p'.toERC20
  domainSeparator : p'.domainSeparator = p.domainSeparator
  nonces : ∀ owner, p.nonces owner ≤ p'.nonces owner

variable {p p' p'' : PairStorage} {t : ERC20} {factory : FeeSetting} {feeOn : Bool}
  {block : Block} {dst : Address} {r₀ r₁ b₀ b₁ a₀ a₁ l v : ℕ} {w w' : World}

namespace Leaves

theorem refl (a : Address) (p : PairStorage) : Leaves a p p :=
  ⟨.refl _ _, rfl, fun _ => le_rfl⟩

theorem trans (h : Leaves a p p') (h' : Leaves a p' p'') : Leaves a p p'' where
  liquidity := h.liquidity.trans h'.liquidity
  domainSeparator := h'.domainSeparator.trans h.domainSeparator
  nonces owner := (h.nonces owner).trans (h'.nonces owner)

theorem withToken (h : ERC20.Keeps a p.toERC20 t) : Leaves a p (p.withToken t) :=
  ⟨h, rfl, fun _ => le_rfl⟩

theorem mint (h : p.toERC20.mint dst v = .ok t) : Leaves a p (p.withToken t) :=
  withToken ((ERC20.Grows.mint h).keeps a)

theorem accumulatePrices {blockTimestamp : ℕ} :
    Leaves a p (EnergyChain.Dex.accumulatePrices blockTimestamp r₀ r₁ p) := by
  dsimp only [EnergyChain.Dex.accumulatePrices]
  split_ifs
  · exact ⟨.refl _ _, rfl, fun _ => le_rfl⟩
  · exact refl a p

theorem update (h : EnergyChain.Dex.update block b₀ b₁ r₀ r₁ p = .ok p') : Leaves a p p' := by
  simp only [EnergyChain.Dex.update, except_bind_ok_iff, except_pure_ok_iff] at h
  obtain ⟨-, -, rfl⟩ := h
  have hprices : Leaves a p (EnergyChain.Dex.accumulatePrices (block.timestamp % 2 ^ 32) r₀ r₁ p) :=
    accumulatePrices
  exact ⟨hprices.liquidity, hprices.domainSeparator, hprices.nonces⟩

theorem mintGrowthFee (h : EnergyChain.Dex.mintGrowthFee dst r₀ r₁ p = .ok p') :
    Leaves a p p' := by
  simp only [EnergyChain.Dex.mintGrowthFee, except_bind_ok_iff] at h
  obtain ⟨_, -, rootK, -, rootKLast, -, h⟩ := h
  split_ifs at h
  · rw [except_bind_ok_iff] at h
    obtain ⟨liquidity, -, hmint⟩ := h
    obtain ⟨t, rfl, -, hgrows⟩ := mintPositive_ok hmint
    exact withToken (hgrows.keeps a)
  · obtain rfl := Except.ok.inj h
    exact refl a p

theorem mintFee (h : EnergyChain.Dex.mintFee factory r₀ r₁ p = .ok (feeOn, p')) :
    Leaves a p p' := by
  rcases mintFee_ok h with ⟨-, -, rfl | ⟨-, hmint⟩⟩ | ⟨-, -, rfl⟩
  · exact refl a _
  · exact mintGrowthFee hmint
  · exact ⟨.refl _ _, rfl, fun _ => le_rfl⟩

theorem mintLiquidity (h : EnergyChain.Dex.mintLiquidity a₀ a₁ r₀ r₁ p = .ok (l, p')) :
    Leaves a p p' := by
  by_cases hzero : p.totalSupply = 0
  · obtain ⟨t, ht, rfl, -⟩ := mintLiquidity_first hzero h
    exact mint ht
  · obtain ⟨rfl, -⟩ := mintLiquidity_later hzero h
    exact refl a _

theorem recordK (h : EnergyChain.Dex.recordK feeOn p = .ok p') : Leaves a p p' := by
  unfold EnergyChain.Dex.recordK at h
  split_ifs at h
  · simp only [except_bind_ok_iff, except_pure_ok_iff] at h
    obtain ⟨_, -, rfl⟩ := h
    exact ⟨.refl _ _, rfl, fun _ => le_rfl⟩
  · obtain rfl := Except.ok.inj h
    exact refl a p

theorem locked {α : Type} {r : α} {body : World → Except Revert (α × World)}
    (h : lock body w = .ok (r, w'))
    (hbody : ∀ {w₁ w₂}, body w₁ = .ok (r, w₂) → w₁.pair.domainSeparator = w.pair.domainSeparator →
      Leaves a w₁.pair w₂.pair) : Leaves a w.pair w'.pair := by
  obtain ⟨-, w₁, hrun, rfl⟩ := lock_ok h
  have hleft := hbody hrun rfl
  exact ⟨hleft.liquidity, hleft.domainSeparator, hleft.nonces⟩

theorem poolMint (h : pool.mint block dst w = .ok (l, w')) : Leaves a w.pair w'.pair := by
  apply locked h
  intro w w' h _
  simp only [except_bind_ok_iff, except_pure_ok_iff, Prod.mk.injEq] at h
  obtain ⟨a₀, -, a₁, -, ⟨feeOn, p₁⟩, hfee, ⟨l, p₂⟩, hliquidity, -, -, t, hmint, p₃, hupdate, p₄,
    hrecord, rfl, rfl⟩ := h
  apply (mintFee hfee).trans
  apply (mintLiquidity hliquidity).trans
  apply (mint hmint).trans
  exact (update hupdate).trans (recordK hrecord)

theorem poolBurn {amounts : ℕ × ℕ} (ha : a ≠ pool.pair)
    (h : pool.burn block dst w = .ok (amounts, w')) : Leaves a w.pair w'.pair := by
  apply locked h
  intro w w' h _
  simp only [except_bind_ok_iff, except_pure_ok_iff, Prod.mk.injEq] at h
  obtain ⟨⟨feeOn, p₁⟩, hfee, _, -, a₀, -, _, -, a₁, -, -, -, t, hburn, token0, -, token1, -, p₂,
    hupdate, p₃, hrecord, rfl, rfl⟩ := h
  apply (mintFee hfee).trans
  apply (withToken (.burn ha hburn)).trans
  exact (update hupdate).trans (recordK hrecord)

theorem poolSwap {amount0Out amount1Out : ℕ} {data : Bytes}
    {callee : World → Except Revert World}
    (hcallee : ∀ {w₁ w₂}, callee w₁ = .ok w₂ →
      w₁.pair.domainSeparator = w.pair.domainSeparator → Leaves a w₁.pair w₂.pair)
    (h : pool.swap block amount0Out amount1Out dst data callee w = .ok ((), w')) :
    Leaves a w.pair w'.pair := by
  apply locked h
  intro w₁ w₂ h hdomain
  simp only [except_bind_ok_iff, except_pure_ok_iff, Prod.mk.injEq, true_and] at h
  obtain ⟨-, -, -, -, -, -, token0, -, token1, -, w₃, hcall, in₀, -, in₁, -, -, -, x₀, -, x₁, -, _,
    -, _, -, _, -, -, -, p, hupdate, rfl⟩ := h
  have hcalled : Leaves a w₁.pair w₃.pair := by
    unfold Pool.call at hcall
    split_ifs at hcall
    · exact @hcallee { w₁ with token0, token1 } w₃ hcall hdomain
    · obtain rfl := Except.ok.inj hcall
      exact refl a _
  exact hcalled.trans (update hupdate)

theorem poolSkim (h : pool.skim dst w = .ok ((), w')) : Leaves a w.pair w'.pair := by
  apply locked h
  intro w w' h _
  simp only [except_bind_ok_iff, except_pure_ok_iff, Prod.mk.injEq, true_and] at h
  obtain ⟨_, -, token0, -, _, -, token1, -, rfl⟩ := h
  exact refl a _

theorem poolSync (h : pool.sync block w = .ok ((), w')) : Leaves a w.pair w'.pair := by
  apply locked h
  intro w w' h _
  simp only [except_bind_ok_iff, except_pure_ok_iff, Prod.mk.injEq, true_and] at h
  obtain ⟨p, hupdate, rfl⟩ := h
  exact update hupdate

theorem transferCall {call : TransferCall pool} (hgives : (Call.liquidity call).gives a = false)
    (h : call.apply p.toERC20 = .ok t) : Leaves a p (p.withToken t) := by
  apply withToken
  cases call with
  | approve sender spender value =>
    obtain rfl := Except.ok.inj h
    exact .approve (of_decide_eq_false hgives ∘ Eq.symm)
  | transfer sender dst value => exact .transfer (of_decide_eq_false hgives ∘ Eq.symm) h
  | transferFrom sender src dst value => exact .transferFrom h

theorem permit {keccak256 : Bytes → Bytes} {ecrecover : Bytes → Signature → Address}
    {m : PermitMessage} {signature : Signature}
    (hsigned : m.owner = a → ∀ nonce, ecrecover (m.digest keccak256 p.domainSeparator nonce)
      signature = a → a = .zero)
    (h : p.permit keccak256 ecrecover block m signature = .ok p') : Leaves a p p' := by
  simp only [PairStorage.permit, except_bind_ok_iff, require_ok_iff, checkedAdd_ok_iff,
    except_pure_ok_iff] at h
  obtain ⟨-, -, nonce, ⟨-, rfl⟩, -, ⟨hne, howner⟩, rfl⟩ := h
  have hother : a ≠ m.owner := by
    rintro rfl
    rw [howner] at hne
    exact hne (hsigned rfl _ howner)
  refine ⟨.approve hother, rfl, fun owner => ?_⟩
  change p.nonces owner ≤ Function.update p.nonces m.owner (p.nonces m.owner + 1) owner
  by_cases heq : owner = m.owner
  · rw [heq, Function.update_self]
    exact Nat.le_succ _
  · rw [Function.update_of_ne heq]

end Leaves

/-! ### Calls -/

section Execution

variable {keccak256 : Bytes → Bytes} {ecrecover : Bytes → Signature → Address}
  {separator : Bytes}

mutual

/-- A call that gives away nothing of the account leaves it alone; the calls of a
callback are no different. -/
theorem execute_leaves (ha : a ≠ pool.pair)
    (hsigned : ∀ m : PermitMessage, ∀ signature nonce, m.owner = a →
      ecrecover (m.digest keccak256 separator nonce) signature = a → a = .zero) :
    ∀ (c : Call pool) {w w' : World}, c.gives a = false → w.pair.domainSeparator = separator →
      execute keccak256 ecrecover block c w = .ok w' → Leaves a w.pair w'.pair
  | .mint dst, w, w', _, _, h => by
    simp only [execute, except_bind_ok_iff, except_pure_ok_iff] at h
    obtain ⟨⟨l, _⟩, h, rfl⟩ := h
    exact .poolMint h
  | .burn dst, w, w', _, _, h => by
    simp only [execute, except_bind_ok_iff, except_pure_ok_iff] at h
    obtain ⟨⟨amounts, _⟩, h, rfl⟩ := h
    exact .poolBurn ha h
  | .swap amount0Out amount1Out dst data callback, w, w', hgives, hdomain, h => by
    simp only [execute, except_bind_ok_iff, except_pure_ok_iff] at h
    obtain ⟨⟨_, _⟩, h, rfl⟩ := h
    apply Leaves.poolSwap _ h
    intro w₁ w₂ hcall hsame
    obtain rfl := Except.ok.inj hcall
    exact executeAll_leaves ha hsigned callback hgives (hsame.trans hdomain)
  | .skim dst, w, w', _, _, h => by
    simp only [execute, except_bind_ok_iff, except_pure_ok_iff] at h
    obtain ⟨⟨_, _⟩, h, rfl⟩ := h
    exact .poolSkim h
  | .sync, w, w', _, _, h => by
    simp only [execute, except_bind_ok_iff, except_pure_ok_iff] at h
    obtain ⟨⟨_, _⟩, h, rfl⟩ := h
    exact .poolSync h
  | .liquidity call, w, w', hgives, _, h => by
    simp only [execute, except_bind_ok_iff, except_pure_ok_iff] at h
    obtain ⟨t, h, rfl⟩ := h
    exact .transferCall hgives h
  | .permit message signature, w, w', _, hdomain, h => by
    simp only [execute, except_bind_ok_iff, except_pure_ok_iff] at h
    obtain ⟨p, h, rfl⟩ := h
    apply Leaves.permit _ h
    intro howner nonce
    rw [hdomain]
    exact hsigned message signature nonce howner
  | .token0 call, w, w', _, _, h => by
    simp only [execute, except_bind_ok_iff, except_pure_ok_iff] at h
    obtain ⟨token0, -, rfl⟩ := h
    exact .refl a _
  | .token1 call, w, w', _, _, h => by
    simp only [execute, except_bind_ok_iff, except_pure_ok_iff] at h
    obtain ⟨token1, -, rfl⟩ := h
    exact .refl a _
  | .setFeeTo sender feeTo, w, w', _, _, h => by
    simp only [execute, except_bind_ok_iff, except_pure_ok_iff] at h
    obtain ⟨factory, -, rfl⟩ := h
    exact .refl a _
  | .setFeeToSetter sender feeToSetter, w, w', _, _, h => by
    simp only [execute, except_bind_ok_iff, except_pure_ok_iff] at h
    obtain ⟨factory, -, rfl⟩ := h
    exact .refl a _

theorem executeAll_leaves (ha : a ≠ pool.pair)
    (hsigned : ∀ m : PermitMessage, ∀ signature nonce, m.owner = a →
      ecrecover (m.digest keccak256 separator nonce) signature = a → a = .zero) :
    ∀ (cs : List (Call pool)) {w : World}, Call.givesAny a cs = false →
      w.pair.domainSeparator = separator →
      Leaves a w.pair (executeAll keccak256 ecrecover block cs w).pair
  | [], w, _, _ => by
    rw [executeAll]
    exact .refl a _
  | c :: cs, w, hgives, hdomain => by
    obtain ⟨hfirst, hrest⟩ := Bool.or_eq_false_iff.mp hgives
    have hstep : ∀ {w'}, execute keccak256 ecrecover block c w = .ok w' →
        Leaves a w.pair w'.pair := execute_leaves ha hsigned c hfirst hdomain
    have hleft : ∀ {w}, w.pair.domainSeparator = separator →
        Leaves a w.pair (executeAll keccak256 ecrecover block cs w).pair :=
      executeAll_leaves ha hsigned cs hrest
    rw [executeAll]
    cases h : execute keccak256 ecrecover block c w with
    | error e => exact hleft hdomain
    | ok w₁ => exact (hstep h).trans (hleft ((hstep h).domainSeparator.trans hdomain))

end

theorem run_leaves (ha : a ≠ pool.pair)
    (hsigned : ∀ m : PermitMessage, ∀ signature nonce, m.owner = a →
      ecrecover (m.digest keccak256 separator nonce) signature = a → a = .zero)
    (hdomain : w.pair.domainSeparator = separator) (ms : List (Block × Call pool))
    (hgives : ∀ m ∈ ms, m.2.gives a = false) :
    Leaves a w.pair ((deliver keccak256 ecrecover).run w ms).pair := by
  apply (deliver keccak256 ecrecover).run_invariant (P := fun w' => Leaves a w.pair w'.pair) ms
    (.refl a _)
  intro w' hleft m hm
  apply hleft.trans
  rcases deliver_cases keccak256 ecrecover w' m with ⟨-, hsame⟩ | ⟨-, h⟩
  · rw [hsame]
    exact .refl a _
  · exact execute_leaves ha hsigned m.2 (hgives m hm) (hleft.domainSeparator.trans hdomain) h

end Execution

/-! ### Passive holders -/

section Runs

variable (keccak256 : Bytes → Bytes) (ecrecover : Bytes → Signature → Address)

/-- While no fee is taken a share keeps its value along the whole run. -/
theorem run_notDiluted (hw : Settled pool w) (hpos : 0 < w.pair.totalSupply)
    (ms : List (Block × Call pool))
    (hfree : ∀ pre, pre <+: ms →
      ((deliver keccak256 ecrecover).run w pre).factory.feeTo = .zero) :
    w.pair.fund.NotDiluted ((deliver keccak256 ecrecover).run w ms).pair.fund := by
  induction ms generalizing w with
  | nil => exact .refl _
  | cons m ms ih =>
    obtain ⟨hsettled, hzero, -⟩ := deliver_effect keccak256 ecrecover hw m
    have hpos' : 0 < (deliver keccak256 ecrecover w m).1.pair.totalSupply := by
      have hmin := (hw.sound.minimum.resolve_left hpos.ne').trans hzero
      have hle := ERC20.balanceOf_le_totalSupply hsettled.sound.conserved .zero
      exact (Nat.zero_lt_succ 999).trans_le (hmin.trans hle)
    have hstep : w.pair.fund.NotDiluted (deliver keccak256 ecrecover w m).1.pair.fund := by
      rcases deliver_cases keccak256 ecrecover w m with ⟨-, hsame⟩ | ⟨-, h⟩
      · rw [hsame]
        exact .refl _
      · exact (execute_effect keccak256 ecrecover hw h).1.notDiluted (hfree [] List.nil_prefix) hpos
    apply hstep.trans _ hpos'
    apply ih hsettled hpos'
    intro pre hpre
    exact hfree (m :: pre) (List.cons_prefix_cons.mpr ⟨rfl, hpre⟩)

variable (chainid : ℕ) (token0 token1 : TradedToken pool) (factory : FeeSetting)

/-- Nothing changes the separator of a pair or takes a nonce back. -/
theorem reached_leaves (ms ms' : List (Block × Call pool)) :
    Leaves .zero (reached keccak256 ecrecover chainid token0 token1 factory ms).pair
      (reached keccak256 ecrecover chainid token0 token1 factory (ms ++ ms')).pair := by
  rw [reached, reached, Handler.run_append]
  exact run_leaves pool.pair_ne_zero.symm (fun _ _ _ _ _ => rfl) rfl ms' fun m _ =>
    Call.gives_zero m.2

theorem reached_domainSeparator (ms : List (Block × Call pool)) :
    (reached keccak256 ecrecover chainid token0 token1 factory ms).pair.domainSeparator =
      domainSeparatorOf keccak256 chainid pool.pair :=
  (reached_leaves keccak256 ecrecover chainid token0 token1 factory [] ms).domainSeparator

end Runs

/-- Another account, which tries to take the liquidity of the first. -/
def sampleTaker : Caller samplePool :=
  { address := ⟨6⟩, ne_zero := by decide, ne_pair := by decide }

def sampleTakings : List (Block × Call samplePool) :=
  [(⟨1700000005, 2⟩, .liquidity (.transferFrom sampleTaker ⟨4⟩ ⟨6⟩ 500)),
    (⟨1700000005, 2⟩, .permit ⟨⟨4⟩, ⟨6⟩, 500, 1800000000⟩ ⟨27, 1, 1⟩),
    (⟨1700000005, 2⟩, sampleFlashSwap)]

section Permits

variable {keccak256 : Bytes → Bytes} {ecrecover : Bytes → Signature → Address}

def PermitMessage.encoded (keccak256 : Bytes → Bytes) (m : PermitMessage) (nonce : ℕ) : Bytes :=
  permitTypehash keccak256 ++ word m.owner.index ++ word m.spender.index ++ word m.value ++
    word nonce ++ word m.deadline

/-- The text whose hash is the digest of a permit. -/
def PermitMessage.text (keccak256 : Bytes → Bytes) (m : PermitMessage) (separator : Bytes)
    (nonce : ℕ) : Bytes :=
  [0x19, 0x01] ++ separator ++ keccak256 (m.encoded keccak256 nonce)

/-- The strings that are hashed for the digest of a permit. -/
def PermitMessage.hashed (keccak256 : Bytes → Bytes) (m : PermitMessage) (p : PairStorage) :
    List Bytes :=
  [m.encoded keccak256 (p.nonces m.owner),
    m.text keccak256 p.domainSeparator (p.nonces m.owner)]

theorem word_inj {x y : ℕ} (hx : x < uint256Size) (hy : y < uint256Size) :
    word x = word y ↔ x = y :=
  bigEndian_inj (by simpa [uint256Size] using hx) (by simpa [uint256Size] using hy)

theorem word_append_inj {x y : ℕ} {s t : Bytes} (h : word x ++ s = word y ++ t) :
    word x = word y ∧ s = t :=
  List.append_inj h ((bigEndian_length 32 x).trans (bigEndian_length 32 y).symm)

theorem PermitMessage.encoded_inj {m m' : PermitMessage} {nonce nonce' : ℕ}
    (hn : nonce < uint256Size) (hn' : nonce' < uint256Size)
    (h : m.encoded keccak256 nonce = m'.encoded keccak256 nonce') :
    m.owner = m'.owner ∧ nonce = nonce' := by
  simp only [PermitMessage.encoded, List.append_assoc, List.append_cancel_left_eq] at h
  obtain ⟨howner, h⟩ := word_append_inj h
  obtain ⟨-, h⟩ := word_append_inj h
  obtain ⟨-, h⟩ := word_append_inj h
  obtain ⟨hnonce, -⟩ := word_append_inj h
  have hlt (a : Address) : (a.index : ℕ) < uint256Size :=
    a.index.isLt.trans (by decide)
  rw [word_inj (hlt _) (hlt _)] at howner
  rw [word_inj hn hn'] at hnonce
  exact ⟨congrArg Address.mk (Fin.ext howner), hnonce⟩

theorem exists_of_isOk {r : Except Revert PairStorage} (h : r.isOk) : ∃ p, r = .ok p := by
  cases r with
  | error e => cases h
  | ok p => exact ⟨p, rfl⟩

theorem PairStorage.permit_nonces {m : PermitMessage} {signature : Signature}
    (h : p.permit keccak256 ecrecover block m signature = .ok p') :
    p.nonces m.owner + 1 < uint256Size ∧ p'.nonces m.owner = p.nonces m.owner + 1 := by
  simp only [PairStorage.permit, except_bind_ok_iff, require_ok_iff, checkedAdd_ok_iff,
    except_pure_ok_iff] at h
  obtain ⟨-, -, nonce, ⟨hlt, rfl⟩, -, -, rfl⟩ := h
  exact ⟨hlt, Function.update_self ..⟩

theorem reached_permit (keccak256 : Bytes → Bytes) (ecrecover : Bytes → Signature → Address)
    (chainid : ℕ) (token0 token1 : TradedToken pool) (factory : FeeSetting)
    {ms : List (Block × Call pool)} (ms' : List (Block × Call pool)) {m : PermitMessage}
    {signature : Signature}
    (h : (reached keccak256 ecrecover chainid token0 token1 factory ms).pair.permit keccak256
      ecrecover block m signature = .ok p) :
    Leaves .zero p (reached keccak256 ecrecover chainid token0 token1 factory
      (ms ++ (block, .permit m signature) :: ms')).pair := by
  have hstep : (deliver keccak256 ecrecover (reached keccak256 ecrecover chainid token0 token1
      factory ms) (block, (.permit m signature : Call pool))).1 =
      (reached keccak256 ecrecover chainid token0 token1 factory ms).withPair p := by
    simp only [deliver, execute, h, except_ok_bind]
    rfl
  rw [reached, Handler.run_append, Handler.run_cons]
  change Leaves .zero p ((deliver keccak256 ecrecover).run (deliver keccak256 ecrecover
    (reached keccak256 ecrecover chainid token0 token1 factory ms) _).1 ms').pair
  rw [hstep]
  have hleft : Leaves .zero (World.withPair _ p).pair ((deliver keccak256 ecrecover).run
      ((reached keccak256 ecrecover chainid token0 token1 factory ms).withPair p) ms').pair :=
    run_leaves pool.pair_ne_zero.symm (fun _ _ _ _ _ => rfl) rfl ms' fun c _ =>
      Call.gives_zero c.2
  exact hleft

/-- No permit is accepted for a digest that an earlier permit was accepted for, whoever
the owners are and whatever happens between the two, as long as no two of the strings
hashed for them collide. -/
theorem permit_used_once (keccak256 : Bytes → Bytes) (ecrecover : Bytes → Signature → Address)
    (chainid : ℕ) (token0 token1 : TradedToken pool) (factory : FeeSetting)
    (ms ms' : List (Block × Call pool)) (block block' : Block) (m m' : PermitMessage)
    (signature signature' : Signature) :
    let w := reached keccak256 ecrecover chainid token0 token1 factory ms
    let w' := reached keccak256 ecrecover chainid token0 token1 factory
      (ms ++ (block, .permit m signature) :: ms')
    (∀ x ∈ m.hashed keccak256 w.pair, ∀ y ∈ m'.hashed keccak256 w'.pair,
      keccak256 x = keccak256 y → x = y) →
    (w.pair.permit keccak256 ecrecover block m signature).isOk →
    (w'.pair.permit keccak256 ecrecover block' m' signature').isOk →
      m.digest keccak256 w.pair.domainSeparator (w.pair.nonces m.owner) ≠
        m'.digest keccak256 w'.pair.domainSeparator (w'.pair.nonces m'.owner) := by
  intro w w' hfree h h' hdigest
  obtain ⟨p, h⟩ := exists_of_isOk h
  obtain ⟨p', h'⟩ := exists_of_isOk h'
  obtain ⟨hlt, hnext⟩ := PairStorage.permit_nonces h
  have hlt' := (PairStorage.permit_nonces h').1
  have hsame : w'.pair.domainSeparator = w.pair.domainSeparator :=
    (reached_domainSeparator _ _ _ _ _ _ _).trans (reached_domainSeparator _ _ _ _ _ _ ms).symm
  have htext : m.text keccak256 w.pair.domainSeparator (w.pair.nonces m.owner) =
      m'.text keccak256 w'.pair.domainSeparator (w'.pair.nonces m'.owner) :=
    hfree _ (.tail _ (.head _)) _ (.tail _ (.head _)) hdigest
  rw [hsame] at htext
  obtain ⟨howner, hnonce⟩ : m.owner = m'.owner ∧
      w.pair.nonces m.owner = w'.pair.nonces m'.owner := by
    apply PermitMessage.encoded_inj (Nat.lt_of_succ_lt hlt) (Nat.lt_of_succ_lt hlt')
    exact hfree _ (.head _) _ (.head _) (List.append_cancel_left htext)
  -- The nonce has been raised since, and nothing takes it back.
  have hraised : p.nonces m.owner ≤ w'.pair.nonces m.owner :=
    (reached_permit keccak256 ecrecover chainid token0 token1 factory ms' h).nonces m.owner
  rw [hnext, hnonce, ← howner] at hraised
  exact Nat.not_succ_le_self _ hraised

end Permits

/-- Keccak-256 on the strings hashed for two permits of one owner. -/
def keccakOfPermits (bs : Bytes) : Bytes :=
  let domain := 0x35a7c2a969752ac62e493c4078d40ae95e85dd397b5624fa314a865c951408bb
  let first := 0x76c89d69928078dac95a3da0b984e7c60ca90695836e2933a72c30c29b10f15a
  let second := 0x669a3288f36d42c25c8e723bea0f04767e798af4361bb097c21837b941289639
  word <|
    if bs = ascii
        "EIP712Domain(string name,string version,uint256 chainId,address verifyingContract)" then
      0x8b73c3c69bb8fe3d512ecc4cf759cc79239f7b179b0ffacaa9a75d522b39400f
    else if bs = ascii "EnergySwap LP" then
      0x8d87c6668f4165f8df86e49d2a5c920dc8be879133e7be28eb49810d05194690
    else if bs = ascii "1" then
      0xc89efdaa54c0f20c7adf612882df0950f5a951637e0307cdcb4c672f298b8bc6
    else if bs = ascii
        "Permit(address owner,address spender,uint256 value,uint256 nonce,uint256 deadline)" then
      0x6e71edae12b1b97f4d1f60370fef10105fa2faae0126114a169c64845d6126c9
    else if bs.length = 160 then domain
    else if bs.length = 192 then
      -- The nonce is the fifth word.
      if (bs.drop 128).take 32 = word 0 then first else second
    else if bs = [0x19, 0x01] ++ word domain ++ word first then
      0x6d7acd4d5be7afeba90ecb79350045237637144a997b9a78d6a3257c5c64d6df
    else 0x58ab3697e72b67ec9e4cc86e9146d99f0bc05ba3ec3bd82ff600b4df1699ba87

def samplePermit : PermitMessage where
  owner := ⟨0x7e5f4552091a69125d5dfcb7b8c2659029395bdf⟩
  spender := ⟨6⟩
  value := 100
  deadline := 1800000000

/-- The owner's signatures of the permit with its first and its second nonce. -/
def firstSignature : Signature where
  v := 27
  r := 0xf01d6b9018ab421dd410404cb869072065522bf85734008f105cf385a023a80f
  s := 0x1a3993201a98a7a9318d37a853fca71d2a6f777314ebea5df2d376b59a41d0a4

def secondSignature : Signature where
  v := 27
  r := 0x89b6bd7a7c385383ff466db721729e2f4ab4c650bb72e2dedfafd6ff61277a55
  s := 0x206973dee79b6779ba909e2fbadfcdb4c7da224395b6edb722914df252b9c8a0

/-- The recovery of the signer from these two. -/
def recoverOwner (digest : Bytes) (signature : Signature) : Address :=
  if digest = word 0x6d7acd4d5be7afeba90ecb79350045237637144a997b9a78d6a3257c5c64d6df ∧
      signature.r = firstSignature.r ∨
    digest = word 0x58ab3697e72b67ec9e4cc86e9146d99f0bc05ba3ec3bd82ff600b4df1699ba87 ∧
      signature.r = secondSignature.r then samplePermit.owner
  else .zero

def reachedByPermits (ms : List (Block × Call samplePool)) : World :=
  reached keccakOfPermits recoverOwner 262144 sampleToken sampleToken ⟨.zero, ⟨9⟩⟩ ms

/-- The same permit signed twice, with the first signature tried again in between. -/
theorem permit_used_once_sample :
    let block : Block := ⟨1700000005, 2⟩
    let again : List (Block × Call samplePool) := [(block, .permit samplePermit firstSignature)]
    let w := reachedByPermits sampleMint
    let w' := reachedByPermits
      (sampleMint ++ (block, .permit samplePermit firstSignature) :: again)
    w.pair.nonces samplePermit.owner = 0 ∧ w'.pair.nonces samplePermit.owner = 1 ∧
      samplePermit.digest keccakOfPermits w.pair.domainSeparator
          (w.pair.nonces samplePermit.owner) ≠
        samplePermit.digest keccakOfPermits w'.pair.domainSeparator
          (w'.pair.nonces samplePermit.owner) :=
  ⟨by decide +kernel, by decide +kernel,
    permit_used_once keccakOfPermits recoverOwner 262144 sampleToken sampleToken ⟨.zero, ⟨9⟩⟩
      sampleMint [(⟨1700000005, 2⟩, .permit samplePermit firstSignature)] ⟨1700000005, 2⟩
      ⟨1700000006, 3⟩ samplePermit samplePermit firstSignature secondSignature
      (by decide +kernel) (by decide +kernel) (by decide +kernel)⟩

end EnergyChain.Dex
