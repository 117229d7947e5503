import LoopTiling.Value.Text

/-!
# Writing documents in flow style

A value is written on one line: texts between double quotes, lists between brackets, maps between
braces. Words, dimensions and floating numbers are written as their texts.
-/
namespace LoopTiling.Document

def escapeChar (c : Char) : List Char :=
  if c = '"' ∨ c = '\\' then ['\\', c]
  else if c.toNat < 0x20 ∨ c.toNat = 0x7f then
    '\\' :: 'u' :: Text.padDigits 4 (Text.digitsIn 16 c.toNat)
  else [c]

def flowText (s : String) : String :=
  String.ofList ('"' :: s.toList.flatMap escapeChar ++ ['"'])

mutual

def flow : Value → String
  | .null => "null"
  | .flag b => if b then "true" else "false"
  | .int n => toString n
  | .text s => flowText s
  | .list vs => Value.bracketed "[" (flowItems vs) "]"
  | .tuple vs => Value.bracketed "[" (flowItems vs) "]"
  | .map es => Value.bracketed "\x7b" (flowEntries es) "\x7d"
  | .word w => toString w.toInt
  | .dim d => flowText d.name
  | .float x => flowText x.text

def flowItems : List Value → List String
  | [] => []
  | v :: vs => flow v :: flowItems vs

def flowEntries : List (Value × Value) → List String
  | [] => []
  | (k, v) :: es => (flow k ++ ": " ++ flow v) :: flowEntries es

end

end LoopTiling.Document
