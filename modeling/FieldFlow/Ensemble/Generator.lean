import FieldFlow.Ensemble.Sampler
import FieldFlow.Scalar

/-!
# Ensemble/Generator — reproducible pseudo-random numbers

A generator is a counter whose values are scrambled by multiplications and shifts; equal seeds give
equal streams. Uniform draws are multiples of `2 ^ -53` in the interval from zero, excluded, to one.
-/

namespace FieldFlow

/-- The state of a pseudo-random stream. -/
structure Generator where
  counter : UInt64
deriving DecidableEq, Repr

namespace Generator

def ofSeed (seed : Nat) : Generator := ⟨UInt64.ofNat seed⟩

/-- Spreads the bits of a counter over the whole word. -/
def scramble (z : UInt64) : UInt64 :=
  let z := (z ^^^ (z >>> 30)) * 0xBF58476D1CE4E5B9
  let z := (z ^^^ (z >>> 27)) * 0x94D049BB133111EB
  z ^^^ (z >>> 31)

/-- The next word of the stream. -/
def next (g : Generator) : UInt64 × Generator :=
  let counter := g.counter + 0x9E3779B97F4A7C15
  (scramble counter, ⟨counter⟩)

variable {α : Type} [Scalar α]

/-- A uniform draw from the interval between zero, excluded, and one. -/
def uniform (g : Generator) : α × Generator :=
  let (word, g) := g.next
  (Scalar.ofQuot ((word >>> 11).toNat + 1 : Nat) (1 <<< 53), g)

/-- A draw from the normal distribution of mean zero and variance one: the length and the direction
of a point in the plane. -/
def normal (g : Generator) : α × Generator :=
  let (u, g) := uniform g
  let (v, g) := uniform g
  let length := Scalar.sqrt (-(Scalar.two * Scalar.ln u))
  (length * Scalar.cos (Scalar.two * Scalar.pi * v), g)

/-- The draws of a generator, which is the stream that is meant where no other is named. -/
@[default_instance]
instance : Sampler Generator α where
  uniform := uniform
  normal := normal

end Generator

end FieldFlow
