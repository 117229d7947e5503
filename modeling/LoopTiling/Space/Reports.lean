import LoopTiling.Hierarchy
import LoopTiling.Space.Factors
import LoopTiling.Space.Orders
import LoopTiling.Space.Splits

/-!
# What setting up a space reports

Setting up the factors reports how many there are for each dimension; setting up a level reports how
many orders or splits it has. A level is reported by its number, which must be one that can be shown.
-/
namespace LoopTiling

variable [Text.DigitLimit]

def FactorSpace.reported (s : FactorSpace) : Journal :=
  match s.tables with
  | none => []
  | some tables =>
    ⟨.info, "Initializing Index Factorization subspace."⟩ ::
      Dim.all.map fun d => ⟨.info,
        s!"  Factorization options along problem dimension {d.name} = {(tables.get d).size}"⟩

/-- What setting up the orders of a level reports. The level must be one that can be shown. -/
def OrderPattern.reported (level : Numeral) (p : OrderPattern) : Except Fault Journal := do
  let l ← shown level.text?
  return [⟨.info, s!"  Permutation options at level {l} = {p.size}"⟩,
    ⟨.debug, s!"Permutation level {l}: prefix={Level.joinNames p.baked} " ++
      s!"suffix={Level.joinNames p.free} options={p.size}"⟩]

/-- What setting up the split of a level reports. The level must be one that can be shown. -/
def SplitRule.reported (level : Numeral) (rule : SplitRule) : Except Fault Journal := do
  let l ← shown level.text?
  match rule with
  | .fixed split => do
    let n ← shown split.text?
    return [⟨.info, s!"  Spatial split at level {l} fixed to {n}"⟩]
  | .free unit => do
    let n ← shown unit.text?
    return [⟨.info, s!"  Spatial split options at level {l} = {rule.size} (from {n})"⟩]

/-- What a result has reported, nothing if it has failed. -/
def journalOf (reported : Except Fault Journal) : Journal :=
  match reported with
  | .ok journal => journal
  | .error _ => []

end LoopTiling
