import CandleAuction.Json.Records
import CandleAuction.Wire.Records
import CandleAuction.Proofs.Deposits
import CandleAuction.Proofs.Honesty
import CandleAuction.Proofs.Processing
import CandleAuction.Proofs.Rejection
import CandleAuction.Proofs.Solvency
import CandleAuction.Proofs.Succession
import CandleAuction.Proofs.Rules.Refusals
import CandleAuction.Proofs.Ledgers
import CandleAuction.Proofs.Bids
import CandleAuction.Proofs.Chain
import CandleAuction.Proofs.Watchtower
import CandleAuction.Proofs.Disputes
import CandleAuction.Proofs.Rules.Faults
import CandleAuction.Proofs.Overflow
import CandleAuction.Proofs.Longevity
import CandleAuction.Proofs.Memory
import CandleAuction.Proofs.Convergence
import CandleAuction.Proofs.Ranking.Selection
import CandleAuction.Proofs.Ranking.Verdicts
import CandleAuction.Proofs.Ranking.Raising
import CandleAuction.Proofs.Binding
import CandleAuction.Proofs.Requests
import CandleAuction.Proofs.Isolation
import CandleAuction.Proofs.Commutation
import CandleAuction.Proofs.Close
import CandleAuction.Proofs.Watchlists
import CandleAuction.Proofs.Delivery
import CandleAuction.Proofs.MinimumBid
import CandleAuction.Proofs.Paging
import CandleAuction.Proofs.Wire.Records
import CandleAuction.Proofs.Configuration
