import PoolArbitrage.Log.Template
import PoolArbitrage.Proofs.Allowance
import PoolArbitrage.Proofs.Bisection
import PoolArbitrage.Proofs.Convergence
import PoolArbitrage.Proofs.Copies
import PoolArbitrage.Proofs.Discards
import PoolArbitrage.Proofs.FixedFees
import PoolArbitrage.Proofs.Growth
import PoolArbitrage.Proofs.Independence
import PoolArbitrage.Proofs.Margins
import PoolArbitrage.Proofs.Objective
import PoolArbitrage.Proofs.Orientation
import PoolArbitrage.Proofs.Overcount
import PoolArbitrage.Proofs.PoolFees
import PoolArbitrage.Proofs.Quotes
import PoolArbitrage.Proofs.Reordering
import PoolArbitrage.Proofs.Sales
import PoolArbitrage.Proofs.Sessions
import PoolArbitrage.Proofs.Standings
import PoolArbitrage.Proofs.Threshold
import PoolArbitrage.Proofs.Workers
import PoolArbitrage.Script.Catalogue
