import LoopTiling.Document.Flow
import LoopTiling.Main
import LoopTiling.Proofs.Command.Exits
import LoopTiling.Proofs.Command.LayerNames
import LoopTiling.Proofs.Decimal.Counts
import LoopTiling.Proofs.FactorTable.Completeness
import LoopTiling.Proofs.Factorization
import LoopTiling.Proofs.MapSpace.FlatDigits
import LoopTiling.Proofs.MapSpace.PinnedSplits
import LoopTiling.Proofs.MixedDigits
import LoopTiling.Proofs.Product.Flattening
import LoopTiling.Proofs.Product.Ranges
import LoopTiling.Proofs.Radix.Codec
import LoopTiling.Proofs.State.FactorCounts
import LoopTiling.Proofs.Radix.Ranking
import LoopTiling.Proofs.Radix.DistinctItems
import LoopTiling.Proofs.MapSpace.Conservation
import LoopTiling.Proofs.MapSpace.ForcedUnits
import LoopTiling.Proofs.Rounding
import LoopTiling.Proofs.MapSpace.Printed
import LoopTiling.Proofs.State.Written
