import LoopTiling.Space.Product

/-!
# Questions to a space

Everything that can be asked of a space, with its answer as a value. A question that a space of
another kind would answer is a fault.
-/
namespace LoopTiling

inductive Query
  | size
  | decode (index : Value)
  /-- The number of axes of a counter or of members of a product. -/
  | count
  /-- The radices of a counter or the sizes that a product was built with. -/
  | axes
  | encode (digits : Value)
  | split (index : Value)
  | describe
  | factor (index dim level : Value)
  | levelSize (level : Value)
  /-- The spatial levels. -/
  | levels
  /-- What the space remembers. -/
  | record

/-- The number of rows of each table, once there are tables. -/
def FactorState.record (s : FactorState) : Value :=
  match s.tables with
  | some tables => .map (Dim.all.map fun d => (.text d.name, .int (tables.get d).size))
  | none => .map []

/-- What is fixed and what is free at each level, in ascending order of the levels. -/
def OrderState.record (s : OrderState) : Value :=
  .map (s.patterns.ascending.map fun (level, p) =>
    (level.toValue, .list [.list (p.baked.map .dim), .list (p.free.map .dim)]))

/-- For each spatial level in ascending order whether its split is the user's, the user's split and
the number of unit factors. -/
def SplitState.record (s : SplitState) : Value :=
  .list (s.isFixed.ascending.map fun (level, isFixed) =>
    .list [level.toValue, .flag isFixed,
      ((s.userSplits.at? level.toInt).map Numeral.toValue).getD .null,
      ((s.unitFactors.at? level.toInt).map Numeral.toValue).getD .null])

namespace Space

variable [Text.DigitLimit]

/-- A natural number as an answer. -/
def number (n : Nat) : Value := .int n

def answer (s : Space) (q : Query) : Except Fault Value :=
  match s, q with
  | s, .size => number <$> s.size
  | s, .decode index => Member.toValue <$> s.decode index
  | counter c, .count => .ok (number c.radices.length)
  | counter c, .axes => .ok (.list c.counter.radixValues)
  | counter c, .encode digits => do return (← c.counter.encode (← digits.items)).toValue
  | counter c, .describe => .text <$> c.describe
  | factors f, .factor index dim level => number <$> f.factorAt index dim level
  | factors f, .record => .ok f.record
  | orders o, .levelSize level => number <$> o.levelSize level
  | orders o, .record => .ok o.record
  | splits p, .levels => .ok (.list (p.levels.map Numeral.toValue))
  | splits p, .record => .ok p.record
  | product members _, .count => .ok (number members.length)
  | product _ sizes, .axes => .ok (.list (sizes.map number))
  | product _ sizes, .split index => do return .list ((← split sizes index).map number)
  | product _ sizes, .encode digits => do
    return (← Radix.encode (sizes.map number) (← digits.items)).toValue
  | _, _ => .error (.unsupported .attribute)

end Space

end LoopTiling
