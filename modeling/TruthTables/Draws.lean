set_option autoImplicit false

/-! # Random draws

A source of random draws is a state with two operations: whether an event of a given likelihood
happens, and a choice among finitely many items. Whatever is generated at random takes its source as
an argument, so that statements about it hold for every outcome of every draw.

`Words` is the source that turns a list of 64-bit words into draws. A likelihood is a threshold below
`2 ^ 64`, and a word stands for an event if it lies below. A choice among `n` items multiplies the low
half of a word by `n` and takes the high half of the product; words whose product has its low half
beyond the last full zone are passed over, so that no item is favoured. -/

namespace TruthTables

/-- The operations of a source of random draws with states of type `σ`. -/
structure Draws (σ : Type) where
  /-- Whether an event happens that `threshold` of `2 ^ 64` words stand for. -/
  chance : (threshold : Nat) → StateM σ Bool
  /-- One of the numbers up to `last`. -/
  upTo : (last : Nat) → StateM σ (Fin (last + 1))

/-- Choose one of several items. -/
def Draws.choose {σ α : Type} (draws : Draws σ) (first : α) (others : List α) : StateM σ α := do
  let i ← draws.upTo others.length
  return (first :: others).get i

/-! ## Draws from words -/

/-- Words to come and the number of words taken. Behind the last word there are zeros for ever. -/
structure Words where
  ahead : List UInt64
  taken : Nat

namespace Words

/-- Take the next word. -/
def next (s : Words) : UInt64 × Words :=
  match s.ahead with
  | [] => (0, { s with taken := s.taken + 1 })
  | word :: rest => (word, { ahead := rest, taken := s.taken + 1 })

/-- The product of the low half of a word with the number of items. -/
def product (word : UInt64) (items : Nat) : Nat :=
  word.toNat % UInt32.size * items

/-- The item that a product points to. -/
theorem product_div_lt (word : UInt64) (last : Nat) :
    product word (last + 1) / UInt32.size < last + 1 :=
  Nat.div_lt_of_lt_mul <|
    Nat.mul_lt_mul_of_pos_right (Nat.mod_lt _ (by decide)) (Nat.succ_pos last)

/-- The last acceptable low half of a product: the number of items, shifted up to 32 binary digits,
    less one. -/
def zone (items : Nat) : Nat :=
  items <<< (31 - items.log2) - 1

/-- Choose a number from the words ahead, of which `taken` were taken before. A zero is always
    acceptable, so the choice ends at the latest behind the last word. -/
def upTo (last : Nat) : List UInt64 → Nat → Fin (last + 1) × Words
  | [], taken => (0, { ahead := [], taken := taken + 1 })
  | word :: rest, taken =>
    if product word (last + 1) % UInt32.size ≤ zone (last + 1) then
      (⟨product word (last + 1) / UInt32.size, product_div_lt word last⟩,
        { ahead := rest, taken := taken + 1 })
    else upTo last rest (taken + 1)

/-- The draws from a list of words. -/
def draws : Draws Words where
  chance threshold := fun s =>
    let (word, s') := s.next
    (decide (word.toNat < threshold), s')
  upTo last := fun s => upTo last s.ahead s.taken

end Words

end TruthTables
