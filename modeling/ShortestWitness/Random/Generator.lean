import ShortestWitness.Random.Draws

/-!
# Pseudorandom numbers

A generator steps through all 64-bit words by adding an odd constant and scrambles each with one
wide product. Fractions and numbers below a bound are made from its words; a word from which they
could not be made fairly is passed over. This is the source that the program draws from.
-/

namespace ShortestWitness

/-- A generator of 64-bit words, with the word that was scrambled last, or the seed, for its state. -/
structure Generator where
  state : UInt64
deriving DecidableEq, Repr

namespace Generator

/-- The two halves of a product of words, combined by exclusive or. -/
def fold (a b : UInt64) : UInt64 :=
  let product := a.toNat * b.toNat
  UInt64.ofNat (product % UInt64.size) ^^^ UInt64.ofNat (product / UInt64.size)

def word : StateM Generator UInt64 := fun g =>
  let s := g.state + 0x2d358dccaa6c78a5
  (fold s (s ^^^ 0x8bb84b93962eacc9), ⟨s⟩)

/-- After so many words a generator is where it was. -/
def period : Nat := UInt64.size

/-- The first of the next `n` words that is accepted; the word after them if none is. -/
def wordThat (accept : UInt64 → Bool) : Nat → StateM Generator UInt64
  | 0 => word
  | n + 1 => do
    let u ← word
    if accept u then return u else wordThat accept n

/-- The fraction that the upper 63 bits of a word stand for; the largest ones round to one. -/
def toFraction (u : UInt64) : Float := (u >>> 1).toFloat / 9223372036854775808.0

def fraction : StateM Generator Float := do
  return toFraction (← wordThat (fun u => toFraction u < 1.0) period)

/-- The lower half of a word times `n`. -/
def scaled (u : UInt64) (n : Nat) : Nat := u.toNat % UInt32.size * n

/-- The word treats the numbers below `n` alike. The lowest `UInt32.size % n` values of the lower
half of the product would give some numbers one chance more than others, and are left out. -/
def isFair (n : Nat) (u : UInt64) : Bool := (UInt32.size - n) % n ≤ scaled u n % UInt32.size

def below (n : Nat) : StateM Generator Nat := do
  let u ← wordThat (isFair n) period
  return scaled u n / UInt32.size

/-- Draws from the words of a generator. -/
def draws : Draws Generator := ⟨fraction, below⟩

theorem scaled_div_lt (u : UInt64) {n : Nat} (h : 0 < n) : scaled u n / UInt32.size < n :=
  Nat.div_lt_of_lt_mul (Nat.mul_lt_mul_of_pos_right (Nat.mod_lt _ (by decide)) h)

/-- Numbers are drawn below their bound. -/
theorem bounded_draws : draws.Bounded := fun _ h _ => scaled_div_lt _ h

end Generator

end ShortestWitness
