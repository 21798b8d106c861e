/-!
# Machine words

Whole numbers that fit a word of so many bits.
-/

namespace Stencil.Word

/-- How many values a word has. -/
def span (bits : Nat) : Nat := 1 <<< bits

/-- Whether a number fits a word without a sign. -/
def holds (bits : Nat) (n : Int) : Bool := decide (0 ≤ n ∧ n < span bits)

/-- Whether a number fits a word with a sign or one without. -/
def holdsEither (bits : Nat) (n : Int) : Bool := decide (-(span (bits - 1) : Int) ≤ n ∧ n < span bits)

end Stencil.Word
