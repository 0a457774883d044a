import Knomosis.Contracts.CanonicalChain
import Knomosis.Contracts.Finality
import Knomosis.Contracts.ChallengeWindow
import Knomosis.Contracts.BondLedger
import Knomosis.Contracts.Solvency
import Knomosis.Contracts.Bisection
import Knomosis.Contracts.Redemption
import Knomosis.StepVM.Agreement
import Knomosis.Disputes.Closing
import Knomosis.Signing.Agreement
import Knomosis.Host.DrrFairness
import Knomosis.Host.DrrLegacy
import Knomosis.Host.FairQueueRuns
import Knomosis.Ingest.Discipline
import Knomosis.Observer.OwedMoves
import Knomosis.Observer.StaleAnswers
import Knomosis.Ingest.Mirror
import Knomosis.Ingest.ReorgWindow
import Knomosis.Ingest.ReceiptVerifier
import Knomosis.Host.FrameRuns
import Knomosis.Gateway.Mux
import Knomosis.Gateway.Producers
import Knomosis.Amount.Decimal
import Knomosis.Gateway.Base64
import Knomosis.Storage.PrefixScan
import Knomosis.Gateway.Stream
import Knomosis.Host.BudgetAgreement
import Knomosis.Subscribe.CacheRange
import Knomosis.Subscribe.Delivery
import Knomosis.Indexer.RemainingBudget
import Knomosis.Runtime.Journal
