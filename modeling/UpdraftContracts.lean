import UpdraftContracts.Account.Failures
import UpdraftContracts.Account.SendPackedUserOp
import UpdraftContracts.Airdrop.OutputFile
import UpdraftContracts.Airdrop.SignatureVerifier
import UpdraftContracts.Airdrop.SplitSignature
import UpdraftContracts.Funding.Threshold
import UpdraftContracts.Funding.Withdrawals
import UpdraftContracts.Lottery.Fairness
import UpdraftContracts.Lottery.Pot
import UpdraftContracts.Lottery.Timing
import UpdraftContracts.Nft.BasicNft
import UpdraftContracts.Nft.Metadata
import UpdraftContracts.Rebase.Savings
import UpdraftContracts.Stablecoin.BadDebt
import UpdraftContracts.Stablecoin.Commute
import UpdraftContracts.Stablecoin.Conversions
import UpdraftContracts.Stablecoin.Decimals
import UpdraftContracts.Stablecoin.DeployDSC
import UpdraftContracts.Stablecoin.Undo
import UpdraftContracts.Stablecoin.Views
import UpdraftContracts.Upgrades.Refinement
