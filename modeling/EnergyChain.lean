import EnergyChain.Attestation.Batch
import EnergyChain.Attestation.Registry
import EnergyChain.Audit.GenesisRestart
import EnergyChain.Audit.Queries
import EnergyChain.Cli.BatchVerification
import EnergyChain.Dex.EventReplay
import EnergyChain.Dex.EventTrace
import EnergyChain.Dex.ExchangeRuns
import EnergyChain.Dex.PairRoundTrip
import EnergyChain.Dex.PathQuotes
import EnergyChain.Dex.Quotes
import EnergyChain.Dex.Registry
import EnergyChain.Dex.RouterEmptied
import EnergyChain.Dex.RouterExactOutput
import EnergyChain.Dex.RouterLiquidity
import EnergyChain.Dex.RouterSurplus
import EnergyChain.Dex.SplitSales
import EnergyChain.Dex.WECYSolvency
import EnergyChain.Energy.BatchEffect
import EnergyChain.Energy.BatchRecords
import EnergyChain.Energy.CategoryIndex
import EnergyChain.Energy.MerkleCommitment
import EnergyChain.Energy.MerkleTermination
import EnergyChain.Energy.StoredBytes
import EnergyChain.Identity.Accounts
import EnergyChain.Identity.GenesisRestart
import EnergyChain.Indexer.CallbackRuns
import EnergyChain.Indexer.CandlePrices
import EnergyChain.Indexer.Coverage
import EnergyChain.Indexer.OverlappingPolls
import EnergyChain.Indexer.PairReserves
import EnergyChain.Indexer.RowContents
import EnergyChain.Oracle.DriftWindow
import EnergyChain.Oracle.GenesisRestart
import EnergyChain.Oracle.HistoryRange
import EnergyChain.Sdk.Deposits
import EnergyChain.Sdk.TokenDeposits
