import LoopTiling.Text.Blank

/-!
# The seven dimensions of a convolution

A convolution layer is a nest of seven loops. Their canonical order is kernel width and height,
output width and height, input channels, output channels, batch: `R S P Q C K N`.
-/
namespace LoopTiling

inductive Dim
  /-- Kernel width. -/
  | r
  /-- Kernel height. -/
  | s
  /-- Output width. -/
  | p
  /-- Output height. -/
  | q
  /-- Input channels. -/
  | c
  /-- Output channels. -/
  | k
  /-- Batch size. -/
  | n
deriving DecidableEq, Inhabited

namespace Dim

def all : List Dim := [r, s, p, q, c, k, n]

def count : Nat := 7

def index : Dim → Nat
  | r => 0
  | s => 1
  | p => 2
  | q => 3
  | c => 4
  | k => 5
  | n => 6

def letter : Dim → Char
  | r => 'R'
  | s => 'S'
  | p => 'P'
  | q => 'Q'
  | c => 'C'
  | k => 'K'
  | n => 'N'

def name (d : Dim) : String := String.singleton d.letter

def ofIndex? (i : Int) : Option Dim :=
  if i < 0 then none else all[i.toNat]?

/-- The dimension that a letter of either case names. The long s is a lower case of `S`. -/
def ofLetter? (x : Char) : Option Dim :=
  if x = 'ſ' then some s else all.find? fun d => d.letter = x.toUpper

/-- The dimension named by a text, in either case and with blanks around it. -/
def ofName? (s : String) : Option Dim :=
  match Text.trim s.toList with
  | [x] => ofLetter? x
  | _ => none

def padded (width : Nat) (d : Dim) : String :=
  String.ofList (List.replicate (width - 1) ' ') ++ d.name

theorem mem_all (d : Dim) : d ∈ all := by cases d <;> decide

theorem nodup_all : all.Nodup := by decide

theorem length_all : all.length = count := rfl

@[simp] theorem getElem?_all_index (d : Dim) : all[d.index]? = some d := by cases d <;> rfl

@[simp] theorem ofIndex?_index (d : Dim) : ofIndex? d.index = some d := by cases d <;> rfl

@[simp] theorem ofName?_name (d : Dim) : ofName? d.name = some d := by cases d <;> decide +kernel

end Dim

structure PerDim (α : Type) where
  (r s p q c k n : α)
deriving DecidableEq

namespace PerDim

variable {α β : Type}

def get (v : PerDim α) : Dim → α
  | .r => v.r
  | .s => v.s
  | .p => v.p
  | .q => v.q
  | .c => v.c
  | .k => v.k
  | .n => v.n

def ofFn (f : Dim → α) : PerDim α := ⟨f .r, f .s, f .p, f .q, f .c, f .k, f .n⟩

/-- The values that a step gives for the dimensions, taken in canonical order. -/
def ofFnM {m : Type → Type} [Monad m] (f : Dim → m α) : m (PerDim α) := do
  let r ← f .r
  let s ← f .s
  let p ← f .p
  let q ← f .q
  let c ← f .c
  let k ← f .k
  let n ← f .n
  return ⟨r, s, p, q, c, k, n⟩

def toList (v : PerDim α) : List α := [v.r, v.s, v.p, v.q, v.c, v.k, v.n]

def map (f : α → β) (v : PerDim α) : PerDim β := ofFn fun d => f (v.get d)

@[simp] theorem get_ofFn (f : Dim → α) (d : Dim) : (ofFn f).get d = f d := by cases d <;> rfl

@[simp] theorem ofFn_get (v : PerDim α) : ofFn v.get = v := rfl

@[simp] theorem get_map (f : α → β) (v : PerDim α) (d : Dim) : (v.map f).get d = f (v.get d) := by
  simp [map]

theorem toList_eq (v : PerDim α) : v.toList = Dim.all.map v.get := rfl

@[simp] theorem length_toList (v : PerDim α) : v.toList.length = Dim.count := rfl

@[ext] theorem ext_get {v w : PerDim α} (h : ∀ d, v.get d = w.get d) : v = w := by
  rw [← ofFn_get v, ← ofFn_get w, funext h]

end PerDim

end LoopTiling
