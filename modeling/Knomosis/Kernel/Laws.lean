import Knomosis.Kernel.Action

/-!
# Laws

The law of each action.  An action that does not move balances has the law that
changes nothing.  A top-up and a refund name the payer or the claimant only
through the signature, so their law takes the signer.

No credit may take a balance to the width of a machine word.  The condition on a
credit reads the state in which the law makes it, after the steps before it.
-/

namespace Knomosis.Kernel

namespace AmmMath

def bpsDenominator : ℕ := 10000
def swapFeeBps : ℕ := 30
def minimumLiquidity : ℕ := 1000

/-- The output of a swap against reserves under the constant-product rule. -/
def getAmountOut (amountIn reserveIn reserveOut feeBps : ℕ) : ℕ :=
  let amountInWithFee := amountIn * (bpsDenominator - feeBps)
  amountInWithFee * reserveOut / (reserveIn * bpsDenominator + amountInWithFee)

end AmmMath

namespace Laws

variable (r : ResourceId) (amount : Amount)

/-- Debit one actor and credit another. -/
def move (s : State) (payer payee : ActorId) : State :=
  credit (debit s r payer amount) r payee amount

/-- The payee can take what the payer gives. -/
def MoveBounded (s : State) (payer payee : ActorId) : Prop :=
  AmountBounded (debit s r payer amount) r payee amount

instance (s : State) (payer payee : ActorId) : Decidable (MoveBounded r amount s payer payee) :=
  inferInstanceAs (Decidable (AmountBounded _ _ _ _))

def transfer (sender receiver : ActorId) : Transition where
  pre s := amount ≤ getBalance s r sender ∧ 0 < amount ∧ MoveBounded r amount s sender receiver
  decPre _ := inferInstance
  applyImpl s := move r amount s sender receiver

def mint (recipient : ActorId) : Transition where
  pre s := 0 < amount ∧ AmountBounded s r recipient amount
  decPre _ := inferInstance
  applyImpl s := credit s r recipient amount

/-- The same law as minting. -/
def reward (recipient : ActorId) : Transition := mint r amount recipient

def burn (holder : ActorId) : Transition where
  pre s := amount ≤ getBalance s r holder ∧ 0 < amount
  decPre _ := inferInstance
  applyImpl s := debit s r holder amount

/-- The law of the actions that leave the balances alone. -/
def freezeResource : Transition where
  pre _ := True
  decPre _ := inferInstance
  applyImpl s := s

/-- A limit on the number of balances that one action changes. -/
def maxRecipientsPerBulkAction : ℕ := 256

/-- Credit every holder other than `excluded` by its share. -/
def creditOthers (excluded : ActorId) (share : ActorId × Amount → Amount) (s : State) : State :=
  (bulkRecipients s r excluded).foldl (fun s' kv => credit s' r kv.1 (share kv)) s

/-- Few holders, each able to take its share. -/
def BulkBounded (excluded : ActorId) (share : ActorId × Amount → Amount) (s : State) : Prop :=
  (bulkRecipients s r excluded).length ≤ maxRecipientsPerBulkAction ∧
    ∀ kv ∈ bulkRecipients s r excluded, AmountBounded s r kv.1 (share kv)

instance (excluded : ActorId) (share : ActorId × Amount → Amount) (s : State) :
    Decidable (BulkBounded r excluded share s) :=
  inferInstanceAs (Decidable (_ ∧ _))

def distributeOthers (excluded : ActorId) : Transition where
  pre s := 0 < amount ∧ BulkBounded r excluded (fun _ => amount) s
  decPre _ := inferInstance
  applyImpl s := creditOthers r excluded (fun _ => amount) s

/-- A holder's share of the reward, in proportion to what it holds. -/
def dilutedShare (s : State) (excluded : ActorId) (kv : ActorId × Amount) : Amount :=
  amount * kv.2 / sumOthers s r excluded

def proportionalDilute (excluded : ActorId) : Transition where
  pre s := 0 < amount ∧ 0 < sumOthers s r excluded ∧
    BulkBounded r excluded (dilutedShare r amount s excluded) s
  decPre _ := inferInstance
  applyImpl s := creditOthers r excluded (dilutedShare r amount s excluded) s

/-- A deposit may be of nothing. -/
def deposit (recipient : ActorId) : Transition where
  pre s := AmountBounded s r recipient amount
  decPre _ := inferInstance
  applyImpl s := credit s r recipient amount

def withdraw (sender : ActorId) : Transition where
  pre s := 0 < amount ∧ amount ≤ getBalance s r sender
  decPre _ := inferInstance
  applyImpl s := debit s r sender amount

/-- The recipient's part of a deposit, the pool's part without the seed, and the seed. -/
def depositWithFee (recipient poolActor : ActorId) (userAmount poolAmount seedAmount : Amount)
    (reserveActor : ActorId) : Transition where
  pre s :=
    let s1 := credit s r recipient userAmount
    let s2 := credit s1 r poolActor (poolAmount - seedAmount)
    AmountBounded s r recipient userAmount ∧
      AmountBounded s1 r poolActor (poolAmount - seedAmount) ∧
      seedAmount ≤ poolAmount ∧
      AmountBounded s2 r reserveActor seedAmount
  decPre _ := inferInstanceAs (Decidable (_ ∧ _))
  applyImpl s :=
    let s1 := credit s r recipient userAmount
    let s2 := credit s1 r poolActor (poolAmount - seedAmount)
    credit s2 r reserveActor seedAmount

def topUpActionBudget (payer poolActor : ActorId) : Transition where
  pre s := amount ≤ getBalance s r payer ∧ MoveBounded r amount s payer poolActor
  decPre _ := inferInstance
  applyImpl s := move r amount s payer poolActor

/-- Nobody tops up their own budget as a delegate. -/
def topUpActionBudgetFor (recipient payer poolActor : ActorId) : Transition where
  pre s := amount ≤ getBalance s r payer ∧ recipient ≠ payer ∧
    MoveBounded r amount s payer poolActor
  decPre _ := inferInstance
  applyImpl s := move r amount s payer poolActor

def claimBudgetRefund (claimant poolActor : ActorId) : Transition where
  pre s := amount ≤ getBalance s r poolActor ∧ MoveBounded r amount s poolActor claimant
  decPre _ := inferInstance
  applyImpl s := move r amount s poolActor claimant

/-- Only the whole reserve is reclaimed. -/
def reclaimAmmReserves (reserveActor poolActor : ActorId) : Transition where
  pre s := getBalance s r reserveActor = amount ∧ reserveActor ≠ poolActor ∧ 0 < amount ∧
    MoveBounded r amount s reserveActor poolActor
  decPre _ := inferInstance
  applyImpl s := move r amount s reserveActor poolActor

/-- What a swap of `amount` pays out. -/
def reserveQuote (s : State) (fromResource toResource : ResourceId)
    (reserveActor : ActorId) : Amount :=
  AmmMath.getAmountOut amount (getBalance s fromResource reserveActor)
    (getBalance s toResource reserveActor) AmmMath.swapFeeBps

/-- Both sides of the quotient fit a machine word. -/
def ReserveQuoteDomainBounded (s : State) (fromResource toResource : ResourceId)
    (reserveActor : ActorId) : Prop :=
  amount * (AmmMath.bpsDenominator - AmmMath.swapFeeBps) * getBalance s toResource reserveActor
      < maxAmount ∧
    getBalance s fromResource reserveActor * AmmMath.bpsDenominator
      + amount * (AmmMath.bpsDenominator - AmmMath.swapFeeBps) < maxAmount

instance (s : State) (fromResource toResource : ResourceId) (reserveActor : ActorId) :
    Decidable (ReserveQuoteDomainBounded amount s fromResource toResource reserveActor) :=
  inferInstanceAs (Decidable (_ ∧ _))

/-- Both reserves stay above the least liquidity, and the user gets what they asked for. -/
def reserveSwap (fromResource toResource : ResourceId) (user : ActorId)
    (amountIn minAmountOut : Amount) (reserveActor : ActorId) : Transition where
  pre s :=
    let out := reserveQuote amountIn s fromResource toResource reserveActor
    let s1 := debit s fromResource user amountIn
    let s2 := credit s1 fromResource reserveActor amountIn
    let s3 := debit s2 toResource reserveActor out
    0 < amountIn ∧ fromResource ≠ toResource ∧ user ≠ reserveActor ∧
      amountIn ≤ getBalance s fromResource user ∧
      AmmMath.minimumLiquidity ≤ getBalance s fromResource reserveActor ∧
      AmmMath.minimumLiquidity ≤ getBalance s toResource reserveActor ∧
      AmmMath.minimumLiquidity ≤ getBalance s toResource reserveActor - out ∧
      max 1 minAmountOut ≤ out ∧
      AmountBounded s1 fromResource reserveActor amountIn ∧
      AmountBounded s3 toResource user out ∧
      ReserveQuoteDomainBounded amountIn s fromResource toResource reserveActor
  decPre _ := inferInstanceAs (Decidable (_ ∧ _))
  applyImpl s :=
    let out := reserveQuote amountIn s fromResource toResource reserveActor
    let s1 := debit s fromResource user amountIn
    let s2 := credit s1 fromResource reserveActor amountIn
    let s3 := debit s2 toResource reserveActor out
    credit s3 toResource user out

end Laws

namespace Action

/-- The law of an action, without regard to its signer. -/
def compileTransition : Action → Transition
  | transfer r sender receiver amount => Laws.transfer r amount sender receiver
  | mint r recipient amount => Laws.mint r amount recipient
  | burn r holder amount => Laws.burn r amount holder
  | reward r recipient amount => Laws.reward r amount recipient
  | distributeOthers r excluded amount => Laws.distributeOthers r amount excluded
  | proportionalDilute r excluded totalReward => Laws.proportionalDilute r totalReward excluded
  | deposit r recipient amount _ => Laws.deposit r amount recipient
  | withdraw r sender amount _ => Laws.withdraw r amount sender
  | depositWithFee r recipient poolActor userAmount poolAmount _ _ seedAmount =>
    Laws.depositWithFee r recipient poolActor userAmount poolAmount seedAmount ammReserveActor
  | reclaimAmmReserves r amount reserveActor poolActor =>
    Laws.reclaimAmmReserves r amount reserveActor poolActor
  | reserveSwap fromResource toResource user amountIn minAmountOut reserveActor =>
    Laws.reserveSwap fromResource toResource user amountIn minAmountOut reserveActor
  | _ => Laws.freezeResource

/-- The law that a signed action is applied with. -/
def toTransition (a : Action) (signer : ActorId) : Transition :=
  match a with
  | topUpActionBudget gasResource gasAmount _ poolActor =>
    Laws.topUpActionBudget gasResource gasAmount signer poolActor
  | topUpActionBudgetFor recipient gasResource gasAmount _ poolActor =>
    Laws.topUpActionBudgetFor gasResource gasAmount recipient signer poolActor
  | claimBudgetRefund gasResource budgetUnits weiPerBudgetUnit poolActor =>
    Laws.claimBudgetRefund gasResource (budgetUnits * weiPerBudgetUnit) signer poolActor
  | _ => compileTransition a

end Action

end Knomosis.Kernel
