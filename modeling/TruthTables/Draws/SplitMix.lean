import TruthTables.Draws

set_option autoImplicit false

/-! # Draws from a seed

An endless source of draws: a counter that advances by a fixed odd step, whose values are scrambled into
words. The same seed gives the same draws. -/

namespace TruthTables

/-- The counter of a seeded source. -/
structure SplitMix where
  counter : UInt64

namespace SplitMix

/-- Take the next word. -/
def next (s : SplitMix) : UInt64 × SplitMix :=
  let counter := s.counter + 0x9E3779B97F4A7C15
  let a := (counter ^^^ (counter >>> 30)) * 0xBF58476D1CE4E5B9
  let b := (a ^^^ (a >>> 27)) * 0x94D049BB133111EB
  (b ^^^ (b >>> 31), { counter })

/-- The draws from a counter. A choice takes a single word. -/
def draws : Draws SplitMix where
  chance threshold := fun s =>
    let (word, s') := s.next
    (decide (word.toNat < threshold), s')
  upTo last := fun s =>
    let (word, s') := s.next
    (⟨Words.product word (last + 1) / UInt32.size, Words.product_div_lt word last⟩, s')

end SplitMix

end TruthTables
