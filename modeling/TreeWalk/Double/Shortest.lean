import TreeWalk.Double.Magnitude

/-!
# The shortest decimal of a magnitude

The decimals of one place value form a grid, and a magnitude lies between two
neighbours on it. `shortest` takes the coarsest grid on which one of the two reads
back as the magnitude, so no decimal with fewer digits does.
-/

namespace TreeWalk.Double

/-- The decimal that equals the magnitude; the finest grid holds every magnitude. -/
def exact (code : Nat) : Decimal where
  coefficient := units code * Nat.pow 5 unitPlaces
  places := unitPlaces

/-- The neighbour of the magnitude on the grid of `10 ^ (level - unitPlaces)` that reads back
as it; of two such neighbours the nearer one, and halfway the upper one. -/
def neighbour? (code level : Nat) : Option Decimal :=
  let places := unitPlaces - level
  let tens := Nat.pow 10 (level - unitPlaces)
  let scaled := units code * Nat.pow 10 places
  let step := tens <<< unitPlaces
  let below := scaled / step
  let lower : Decimal := ⟨below * tens, places⟩
  let upper : Decimal := ⟨(below + 1) * tens, places⟩
  let nearerFirst := if 2 * (scaled % step) < step then [lower, upper] else [upper, lower]
  nearerFirst.find? fun candidate => ofDecimal candidate == code

/-- The first grid at or below the level that offers a neighbour. -/
def shortestFrom (code : Nat) : Nat → Decimal
  | 0 => exact code
  | level + 1 => (neighbour? code (level + 1)).getD (shortestFrom code level)

/-- A grid with no point but zero below the magnitude, or at most a few levels above
the coarsest such grid. -/
def coarsestLevel (code : Nat) : Nat :=
  let length := (units code).log2
  if length < unitPlaces then unitPlaces - (unitPlaces - 1 - length) * 3 / 10
  else unitPlaces + (length + 1 - unitPlaces) * 31 / 100 + 1

/-- The fewest digits that read back as the magnitude, and of those the nearest. -/
def shortest (code : Nat) : Decimal :=
  shortestFrom code (coarsestLevel code)

/-- Tens are twos times fives, so every number of units is a decimal of as many places. -/
theorem ofDecimal_exact {code : Nat} (finite : code < infinityCode) :
    ofDecimal (exact code) = code := by
  have tens (places : Nat) : Nat.pow 5 places * 2 ^ places = Nat.pow 10 places :=
    (Nat.mul_pow 5 2 places).symm
  rw [ofDecimal, exact, Nat.shiftLeft_eq, Nat.mul_assoc, tens]
  have positive (places : Nat) : 0 < Nat.pow 10 places := Nat.pow_pos (by decide)
  exact nearestUnits_mul finite (positive unitPlaces)

/-- A neighbour is offered only if it reads back. -/
theorem ofDecimal_of_neighbour? {code level : Nat} {decimal : Decimal}
    (offered : neighbour? code level = some decimal) : ofDecimal decimal = code := by
  have readsBack := List.find?_some offered
  exact eq_of_beq readsBack

/-- Every finite magnitude is what its shortest decimal reads as. -/
theorem ofDecimal_shortest {code : Nat} (finite : code < infinityCode) :
    ofDecimal (shortest code) = code := by
  have readsBack (level : Nat) : ofDecimal (shortestFrom code level) = code := by
    induction level with
    | zero => exact ofDecimal_exact finite
    | succ level coarser =>
        rw [shortestFrom]
        cases offered : neighbour? code (level + 1) with
        | none => exact coarser
        | some decimal => exact ofDecimal_of_neighbour? offered
  exact readsBack _

end TreeWalk.Double
