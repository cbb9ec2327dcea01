import NestedLogit.Host.Machine
import NestedLogit.Main
import NestedLogit.Proofs.Choice.Passes
import NestedLogit.Proofs.Choice.Level
import NestedLogit.Proofs.Choice.Conservation
import NestedLogit.Proofs.Choice.Convergence
import NestedLogit.Proofs.Choice.Feasibility
import NestedLogit.Proofs.Choice.Limits
import NestedLogit.Proofs.Choice.Unlimited
import NestedLogit.Proofs.Alike
import NestedLogit.Proofs.Run
import NestedLogit.Proofs.Sector.Sharing
import NestedLogit.Proofs.Frame
import NestedLogit.Proofs.History.Subsector
import NestedLogit.Proofs.History.Sector
import NestedLogit.Proofs.History.Region
import NestedLogit.Proofs.Subsector.Output
import NestedLogit.Proofs.Sector.Supply
import NestedLogit.Proofs.Digraph.TopologicalOrder
import NestedLogit.Proofs.Sector.Order
import NestedLogit.Proofs.Region.Demand
import NestedLogit.Proofs.Digraph.Cycle
import NestedLogit.Proofs.Sector.Dependency
import NestedLogit.Proofs.History.Repetition
import NestedLogit.Proofs.World.Selection
import NestedLogit.Proofs.Choice.Recalibration
import NestedLogit.Proofs.Choice.Unmet
import NestedLogit.Proofs.Calibration
import NestedLogit.Proofs.Sector.Marks
import NestedLogit.Proofs.World.Calculation
import NestedLogit.Proofs.World.Frame
import NestedLogit.Proofs.World.Operation
import NestedLogit.Proofs.World.Weights
import NestedLogit.Proofs.Subsector.Domain
import NestedLogit.Proofs.Sector.Domain
import NestedLogit.Proofs.World.Domain
import NestedLogit.Proofs.Sector.Reproduction
import NestedLogit.Proofs.Sector.Course
import NestedLogit.Proofs.Sector.Revenue
import NestedLogit.Proofs.Region.OutputValue
import NestedLogit.Proofs.Sector.CarbonTax
import NestedLogit.Proofs.Sector.CalibrationReport
import NestedLogit.Proofs.Choice.FixedShares
import NestedLogit.Proofs.Subsector.Scaled
import NestedLogit.Proofs.Sector.FixedSupply
import NestedLogit.Proofs.Sector.Uncalibrated
import NestedLogit.Proofs.Sector.ScaledToFit
import NestedLogit.Proofs.Climate
import NestedLogit.Proofs.Choice.Proportional
import NestedLogit.Proofs.Choice.CompleteTargets
import NestedLogit.Proofs.Model.Loading
import NestedLogit.Proofs.Model.Domain
import NestedLogit.Proofs.Choice.PartialTargets
import NestedLogit.Proofs.Subsector.Observed
import NestedLogit.Proofs.Sector.Unrestricted
import NestedLogit.Proofs.Choice.Filled
import NestedLogit.Proofs.Sector.Filled
import NestedLogit.Proofs.Sector.Vacant
import NestedLogit.Proofs.Choice.Precedence
import NestedLogit.Proofs.Choice.Symmetry
import NestedLogit.Proofs.Choice.WaterLevel
import NestedLogit.Proofs.Choice.OwnPrice
import NestedLogit.Proofs.Series.Interpolation
import NestedLogit.Proofs.Series.Expansion
import NestedLogit.Proofs.Model.Listing
import NestedLogit.Proofs.Sector.Fallback
import NestedLogit.Proofs.World.CalibrationCheck
import NestedLogit.Proofs.Model.CarbonTaxes
