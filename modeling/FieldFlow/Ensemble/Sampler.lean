/-!
# Ensemble/Sampler — where draws come from

A stream gives uniform and normal draws, and with each of them the stream that the next one is taken
from. Nothing is asked of the draws, so that what holds of distributions holds for every stream.
-/

namespace FieldFlow

/-- **A stream of draws.** -/
class Sampler (σ α : Type) where
  /-- A draw from the interval between zero, excluded, and one. -/
  uniform : σ → α × σ
  /-- A draw from the normal distribution of mean zero and variance one. -/
  normal : σ → α × σ

/-- Several draws of one kind. -/
def Sampler.replicate {σ β : Type} (draw : σ → β × σ) : Nat → σ → List β × σ
  | 0, g => ([], g)
  | n + 1, g =>
    let (first, g) := draw g
    let (rest, g) := replicate draw n g
    (first :: rest, g)

end FieldFlow
