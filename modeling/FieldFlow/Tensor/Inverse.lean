import FieldFlow.Tensor.Sectors

/-!
# Tensor/Inverse — the inverse of each sector block

Blocks up to four by four are inverted by their cofactors and count as singular when the determinant
comes out as exactly zero. Larger blocks are reduced with partial pivoting and count as singular
when a pivot is exactly zero. A singular block has no inverse and its place is left without numbers.
-/

namespace FieldFlow

/-- A square block, by row and column. -/
abbrev Block (α : Type) := Nat → Nat → α

namespace Block

variable {α : Type} [Scalar α]

/-- The determinant of the three by three block in the given rows and columns, or its negative; for
that the sign of every term is turned, since terms that cancel leave a positive zero either way. -/
def minor (m : Block α) (turned : Bool) (r₀ r₁ r₂ c₀ c₁ c₂ : Nat) : α :=
  if turned then
    -m r₀ c₀ * m r₁ c₁ * m r₂ c₂ + m r₀ c₀ * m r₂ c₁ * m r₁ c₂ + m r₀ c₁ * m r₁ c₀ * m r₂ c₂ -
      m r₀ c₁ * m r₂ c₀ * m r₁ c₂ - m r₀ c₂ * m r₁ c₀ * m r₂ c₁ + m r₀ c₂ * m r₂ c₀ * m r₁ c₁
  else
    m r₀ c₀ * m r₁ c₁ * m r₂ c₂ - m r₀ c₀ * m r₂ c₁ * m r₁ c₂ - m r₀ c₁ * m r₁ c₀ * m r₂ c₂ +
      m r₀ c₁ * m r₂ c₀ * m r₁ c₂ + m r₀ c₂ * m r₁ c₀ * m r₂ c₁ - m r₀ c₂ * m r₂ c₀ * m r₁ c₁

/-- The three indices below four other than `k`. -/
def others (k : Nat) : Nat × Nat × Nat :=
  (if k = 0 then 1 else 0, if k ≤ 1 then 2 else 1, if k ≤ 2 then 3 else 2)

/-- A cofactor of a four by four block. -/
def cofactor (m : Block α) (i j : Nat) : α :=
  let (r₀, r₁, r₂) := others i
  let (c₀, c₁, c₂) := others j
  minor m ((i + j) % 2 = 1) r₀ r₁ r₂ c₀ c₁ c₂

/-- The block `f`, unless the determinant is zero. -/
def unlessZero (determinant : α) (f : Block α) : Option (Block α) :=
  if Scalar.eq determinant Scalar.zero then none else some f

def inverse1? (m : Block α) : Option (Block α) :=
  unlessZero (m 0 0) fun _ _ => Scalar.one / m 0 0

def inverse2? (m : Block α) : Option (Block α) :=
  let d := m 0 0 * m 1 1 - m 1 0 * m 0 1
  unlessZero d fun i j =>
    match i, j with
    | 0, 0 => m 1 1 / d
    | 0, _ => -m 0 1 / d
    | _, 0 => -m 1 0 / d
    | _, _ => m 0 0 / d

def inverse3? (m : Block α) : Option (Block α) :=
  let a := m 1 1 * m 2 2 - m 2 1 * m 1 2
  let b := m 1 0 * m 2 2 - m 2 0 * m 1 2
  let c := m 1 0 * m 2 1 - m 2 0 * m 1 1
  let d := m 0 0 * a - m 0 1 * b + m 0 2 * c
  unlessZero d fun i j =>
    match i, j with
    | 0, 0 => a / d
    | 0, 1 => (m 0 2 * m 2 1 - m 2 2 * m 0 1) / d
    | 0, _ => (m 0 1 * m 1 2 - m 1 1 * m 0 2) / d
    | 1, 0 => -b / d
    | 1, 1 => (m 0 0 * m 2 2 - m 2 0 * m 0 2) / d
    | 1, _ => (m 0 2 * m 1 0 - m 1 2 * m 0 0) / d
    | _, 0 => c / d
    | _, 1 => (m 0 1 * m 2 0 - m 2 1 * m 0 0) / d
    | _, _ => (m 0 0 * m 1 1 - m 1 0 * m 0 1) / d

def inverse4? (m : Block α) : Option (Block α) :=
  let d := m 0 0 * m.cofactor 0 0 + m 1 0 * m.cofactor 1 0 + m 2 0 * m.cofactor 2 0 +
    m 3 0 * m.cofactor 3 0
  let scale := Scalar.one / d
  unlessZero d fun i j => m.cofactor j i * scale

/-! ## Elimination -/

/-- A row of a linear system: the coefficients not yet eliminated, and the right-hand sides. -/
abbrev Row (α : Type) := List α × List α

/-- The coefficient that a row is reduced by. -/
def Row.lead (row : Row α) : α := row.1.headD Scalar.zero

/-- The first of the rows whose leading coefficient has the greatest magnitude, and the other rows,
the row in front taking its place. -/
def pickPivot : List (Row α) → Option (Row α × List (Row α))
  | [] => none
  | first :: rest =>
    let top := rest.zipIdx.foldl
      (fun (top : α × Nat) (row, k) =>
        let magnitude := Scalar.abs row.lead
        if Scalar.lt top.1 magnitude then (magnitude, k + 1) else top)
      (Scalar.abs first.lead, 0)
    match top.2 with
    | 0 => some (first, rest)
    | k + 1 => some (rest.getD k first, rest.set k first)

/-- Clears the leading coefficient of a row with the help of the pivot row. -/
def reduceRow (pivot row : Row α) : Row α :=
  let factor := row.lead * (Scalar.one / pivot.lead)
  let clear (xs ps : List α) := List.zipWith (fun x p => -p * factor + x) xs ps
  (clear (row.1.drop 1) (pivot.1.drop 1), clear row.2 pivot.2)

/-- The triangular form of a system of `n` rows, unless a pivot is zero. -/
def eliminate : Nat → List (Row α) → Option (List (Row α))
  | 0, _ => some []
  | n + 1, rows =>
    match pickPivot rows with
    | none => some []
    | some (pivot, rest) =>
      if Scalar.eq pivot.lead Scalar.zero then none
      else (eliminate n (rest.map (reduceRow pivot))).map (pivot :: ·)

/-- The solutions of a triangular system, from the last unknown up. -/
def backSubstitute : List (Row α) → List (List α)
  | [] => []
  | row :: rest =>
    let known := backSubstitute rest
    let reduced := (List.zip (row.1.drop 1) known).foldr
      (fun (c, xs) acc => List.zipWith (fun a x => -x * c + a) acc xs) row.2
    reduced.map (· / row.lead) :: known

def inverseByElimination? (n : Nat) (m : Block α) : Option (Block α) :=
  let rows := (List.range n).map fun i =>
    ((List.range n).map (m i),
      (List.range n).map fun j => if i = j then Scalar.one else Scalar.zero)
  (eliminate n rows).map fun triangular =>
    let solution := (backSubstitute triangular).map List.toArray |>.toArray
    fun i j => (solution.getD i #[]).getD j Scalar.nan

/-- **The inverse of an `n` by `n` block**, if it has one. -/
def inverse? (n : Nat) (m : Block α) : Option (Block α) :=
  match n with
  | 0 => some m
  | 1 => inverse1? m
  | 2 => inverse2? m
  | 3 => inverse3? m
  | 4 => inverse4? m
  | n => inverseByElimination? n m

end Block

namespace Tensor

variable {α : Type} [Scalar α]

/-- **The inverse of every sector block**; a singular block comes back without a number in it. -/
def inverse (t : Tensor α) : Except Fault (Tensor α) :=
  let n := t.shape.sectorA
  if n ≠ t.shape.sectorB then .error (.notSquare n t.shape.sectorB)
  else
    let blocks := Array.ofFn fun k : Fin (t.shape.runs * t.shape.regions) =>
      Block.inverse? n (t.get (k / t.shape.regions) (k % t.shape.regions))
    .ok (ofFn t.shape fun x r i j =>
      match blocks[x * t.shape.regions + r]?.join with
      | some inverted => inverted i j
      | none => Scalar.nan)

end Tensor

end FieldFlow
