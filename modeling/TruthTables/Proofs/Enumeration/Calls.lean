import TruthTables.Enumeration

set_option autoImplicit false

/-! # Calls on an enumeration

An enumeration is asked for assignments at the front, at the back, and beyond some at the front, in any
order. To its caller it is a list of which both ends can be taken: the list holds what was neither
returned nor skipped so far. The enumeration itself keeps two bounds and no list. It agrees with the list
because what is left is an interval (`numbers_eq`) and a call takes a part off one of its ends
(`answer_numbers`).

About the list, one statement says it all (`Call.exists_split`): whatever the calls were, it began with a
part that the front took, ended with a part that the back took, and what is left stands between. -/

namespace TruthTables

/-! ## Intervals -/

/-- The numbers from `low` up to but not including `high`, the highest one first. -/
def descending (low high : Nat) : List Nat :=
  (List.range' low (high - low)).reverse

section

variable {low high : Nat}

@[simp]
theorem length_descending : (descending low high).length = high - low := by
  simp [descending]

theorem getElem?_descending (k : Nat) :
    (descending low high)[k]? = if low + k < high then some (high - 1 - k) else none := by
  by_cases h : low + k < high
  · have hlength : k < (List.range' low (high - low)).length := by simp; omega
    rw [if_pos h, descending, List.getElem?_reverse hlength, List.length_range',
      List.getElem?_range' (by omega)]
    congr 1
    omega
  · rw [if_neg h, List.getElem?_eq_none]
    simp
    omega

theorem mem_descending {n : Nat} : n ∈ descending low high ↔ low ≤ n ∧ n < high := by
  rw [descending, List.mem_reverse, List.mem_range'_1]
  omega

theorem descending_eq_nil (h : high ≤ low) : descending low high = [] := by
  simp [descending, Nat.sub_eq_zero_of_le h]

theorem drop_descending (k : Nat) : (descending low high).drop k = descending low (high - k) := by
  apply List.ext_getElem?
  intro i
  rw [List.getElem?_drop, getElem?_descending, getElem?_descending]
  by_cases h : low + (k + i) < high
  · rw [if_pos h, if_pos (by omega)]
    congr 1
    omega
  · rw [if_neg h, if_neg (by omega)]

theorem dropLast_descending : (descending low high).dropLast = descending (low + 1) high := by
  rw [descending, List.dropLast_reverse, List.tail_range', descending]
  congr 2

theorem getLast?_descending :
    (descending low high).getLast? = if low < high then some low else none := by
  rw [descending, List.getLast?_reverse, List.head?_range']
  by_cases h : low < high
  · rw [if_neg (by omega), if_pos h]
  · rw [if_pos (by omega), if_neg h]

/-- A higher interval stands in front of the one below it. -/
theorem descending_append {mid : Nat} (hlow : low ≤ mid) (hhigh : mid ≤ high) :
    descending mid high ++ descending low mid = descending low high := by
  have hmid : mid = low + (mid - low) := by omega
  have hlength : high - low = (mid - low) + (high - mid) := by omega
  rw [descending, descending, descending, ← List.reverse_append, hlength, ← List.range'_append_1,
    ← hmid]

theorem pairwise_descending : (descending low high).Pairwise (· > ·) := by
  rw [descending, List.pairwise_reverse]
  exact List.pairwise_lt_range'

theorem reverse_descending_zero : (descending 0 high).reverse = List.range high := by
  rw [descending, List.reverse_reverse, Nat.sub_zero, List.range_eq_range']

end

namespace Enumeration

/-! ## Calls on a list -/

/-- What an enumeration can be asked for. -/
inductive Call
  | next
  | nextBack
  | nth (count : Nat)
  deriving DecidableEq, Repr

namespace Call

/-- Whether a call takes from the front. -/
def isFront : Call → Bool
  | .next | .nth _ => true
  | .nextBack => false

/-- Whether a call takes from the back. -/
def isBack (call : Call) : Bool :=
  !call.isFront

/-- Whether a call takes an outermost entry, and so skips none. -/
def isOutermost : Call → Bool
  | .next | .nextBack => true
  | .nth _ => false

variable {α β : Type}

/-- The entry that a call returns from a list, and the entries that it neither returns nor skips. -/
def takeFrom : Call → List α → Option α × List α
  | .next, left => (left.head?, left.tail)
  | .nextBack, left => (left.getLast?, left.dropLast)
  | .nth count, left => (left[count]?, left.drop (count + 1))

/-- Calls with what they return, one after another. -/
def log (left : List α) : List Call → List (Call × Option α)
  | [] => []
  | call :: rest => (call, (call.takeFrom left).1) :: log (call.takeFrom left).2 rest

/-- What calls neither return nor skip. -/
def leftAfter (left : List α) : List Call → List α
  | [] => left
  | call :: rest => leftAfter (call.takeFrom left).2 rest

/-- What the calls of a kind have returned, in the order of time. -/
def delivered (kind : Call → Bool) (log : List (Call × Option α)) : List α :=
  log.filterMap fun entry => if kind entry.1 then entry.2 else none

theorem delivered_cons (kind : Call → Bool) (call : Call) (returned : Option α)
    (log : List (Call × Option α)) :
    delivered kind ((call, returned) :: log) =
      (if kind call then returned.toList else []) ++ delivered kind log := by
  cases hkind : kind call <;> cases returned <;> simp [delivered, hkind]

theorem delivered_map (f : α → β) (kind : Call → Bool) (log : List (Call × Option α)) :
    delivered kind (log.map fun entry => (entry.1, entry.2.map f)) = (delivered kind log).map f := by
  induction log with
  | nil => rfl
  | cons entry log ih =>
      obtain ⟨call, returned⟩ := entry
      rw [List.map_cons, delivered_cons, delivered_cons, ih, List.map_append]
      cases kind call <;> cases returned <;> rfl

/-- What is delivered comes from the front or from the back. -/
theorem delivered_perm (log : List (Call × Option α)) :
    (delivered (fun _ => true) log).Perm (delivered isFront log ++ delivered isBack log) := by
  induction log with
  | nil => exact .nil
  | cons entry log ih =>
      obtain ⟨call, returned⟩ := entry
      rw [delivered_cons, delivered_cons, delivered_cons, isBack]
      cases call.isFront with
      | true =>
          simp only [if_true, Bool.not_true, Bool.false_eq_true, if_false, List.nil_append,
            List.append_assoc]
          exact ih.append_left _
      | false =>
          simp only [if_true, Bool.not_false, Bool.false_eq_true, if_false, List.nil_append]
          exact (ih.append_left _).trans (List.perm_append_comm_assoc ..)

/-- One call takes a part in front or at the back. What the back takes it returns, and what the front
    takes it returns unless the call skips some of it. -/
theorem takeFrom_split (call : Call) (left : List α) :
    ∃ front back, left = front ++ (call.takeFrom left).2 ++ back ∧
      (if call.isFront then (call.takeFrom left).1.toList else []).Sublist front ∧
      (if call.isBack then (call.takeFrom left).1.toList else []) = back.reverse ∧
      (call.isOutermost = true →
        (if call.isFront then (call.takeFrom left).1.toList else []) = front) := by
  cases call with
  | next =>
      refine ⟨left.head?.toList, [], ?_, List.Sublist.refl _, rfl, fun _ => rfl⟩
      cases left <;> simp [takeFrom]
  | nth count =>
      refine ⟨left.take (count + 1), [], ?_, ?_, rfl, fun h => absurd h (by simp [isOutermost])⟩
      · rw [List.append_nil]
        exact (List.take_append_drop _ _).symm
      · rw [List.take_add_one]
        exact List.sublist_append_right _ _
  | nextBack =>
      refine ⟨[], left.getLast?.toList, ?_, List.Sublist.refl _, ?_, fun _ => rfl⟩
      · rcases List.eq_nil_or_concat left with rfl | ⟨init, last, rfl⟩ <;> simp [takeFrom]
      · show left.getLast?.toList = _
        cases left.getLast? <;> rfl

/-- Whatever the calls are, what is left stands between a part that the front took and a part that the
    back took. The back has delivered all of its part. The front may have skipped some of its own. -/
theorem exists_split (left : List α) (calls : List Call) :
    ∃ front back, left = front ++ leftAfter left calls ++ back ∧
      (delivered isFront (log left calls)).Sublist front ∧
      delivered isBack (log left calls) = back.reverse ∧
      ((∀ call ∈ calls, call.isOutermost = true) →
        delivered isFront (log left calls) = front) := by
  induction calls generalizing left with
  | nil => exact ⟨[], [], by simp [leftAfter], .slnil, rfl, fun _ => rfl⟩
  | cons call rest ih =>
      -- later calls take from inside of what this one has left
      obtain ⟨front₁, back₁, hsplit₁, hfront₁, hback₁, hall₁⟩ := call.takeFrom_split left
      obtain ⟨front₂, back₂, hsplit₂, hfront₂, hback₂, hall₂⟩ := ih (call.takeFrom left).2
      rw [log, leftAfter, delivered_cons, delivered_cons]
      refine ⟨front₁ ++ front₂, back₂ ++ back₁, ?_, hfront₁.append hfront₂, ?_, ?_⟩
      · calc left
          _ = front₁ ++ (call.takeFrom left).2 ++ back₁ := hsplit₁
          _ = front₁ ++ (front₂ ++ leftAfter (call.takeFrom left).2 rest ++ back₂) ++ back₁ := by
            rw [← hsplit₂]
          _ = _ := by simp only [List.append_assoc]
      · rw [hback₁, hback₂, List.reverse_append]
      · intro h
        obtain ⟨hcall, hrest⟩ := List.forall_mem_cons.1 h
        rw [hall₁ hcall, hall₂ hrest]

/-- Where no call skips anything, each takes one entry as long as there are entries. -/
theorem length_leftAfter (left : List α) (calls : List Call)
    (h : ∀ call ∈ calls, call.isOutermost = true) :
    (leftAfter left calls).length = left.length - calls.length := by
  induction calls generalizing left with
  | nil => rfl
  | cons call rest ih =>
      obtain ⟨hcall, hrest⟩ := List.forall_mem_cons.1 h
      have hone : (call.takeFrom left).2.length = left.length - 1 := by
        cases call with
        | next => exact List.length_tail
        | nextBack => exact List.length_dropLast
        | nth count => exact absurd hcall (by simp [isOutermost])
      rw [leftAfter, ih _ hrest, hone, List.length_cons]
      omega

end Call

/-! ## Calls on an enumeration -/

/-- The numbers of the assignments left, in order. -/
def numbers (e : Enumeration) : List Nat :=
  e.toList.map Assignment.number

/-- What is left is an interval. -/
theorem numbers_eq (e : Enumeration) : e.numbers = descending e.low e.high := by
  apply List.ext_getElem?
  intro k
  rw [getElem?_descending]
  by_cases h : e.low + k < e.high
  · have hsize : k < e.high - e.low := by omega
    simp [numbers, toList, front, size, h, hsize]
  · have hsize : ¬ k < e.high - e.low := by omega
    simp [numbers, toList, front, size, h, hsize]

theorem symbols_of_mem_toList {e : Enumeration} {a : Assignment} (h : a ∈ e.toList) :
    a.symbols = e.symbols := by
  obtain ⟨i, rfl⟩ := List.mem_ofFn.1 h
  rfl

/-- The assignments left are determined by their numbers. -/
theorem toList_map_some (e : Enumeration) :
    e.toList.map some = e.numbers.map (Assignment.ofNumber? e.symbols) := by
  rw [numbers, List.map_map]
  apply List.map_congr_left
  intro a ha
  rw [Function.comp_apply, ← symbols_of_mem_toList ha, Assignment.ofNumber?, dif_pos a.number_lt]

section

variable (e : Enumeration)

@[simp]
theorem next_low : e.next.2.low = e.low := by
  unfold next
  split <;> rfl

theorem next_high : e.next.2.high = if e.low < e.high then e.high - 1 else e.high := by
  unfold next
  split <;> rfl

theorem next_number :
    e.next.1.map Assignment.number = if e.low < e.high then some (e.high - 1) else none := by
  unfold next
  split <;> rfl

theorem nextBack_low : e.nextBack.2.low = if e.low < e.high then e.low + 1 else e.low := by
  unfold nextBack
  split <;> rfl

@[simp]
theorem nextBack_high : e.nextBack.2.high = e.high := by
  unfold nextBack
  split <;> rfl

theorem nextBack_number :
    e.nextBack.1.map Assignment.number = if e.low < e.high then some e.low else none := by
  unfold nextBack
  split <;> rfl

/-- The front takes the first of the numbers that are left. -/
theorem next_numbers :
    e.next.1.map Assignment.number = e.numbers.head? ∧ e.next.2.numbers = e.numbers.tail := by
  rw [List.head?_eq_getElem?, ← List.drop_one, numbers_eq, numbers_eq, getElem?_descending,
    drop_descending, next_number, next_low, next_high]
  refine ⟨rfl, ?_⟩
  by_cases h : e.low < e.high
  · rw [if_pos h]
  · rw [if_neg h, descending_eq_nil (by omega), descending_eq_nil (by omega)]

/-- The back takes the last of the numbers that are left. -/
theorem nextBack_numbers :
    e.nextBack.1.map Assignment.number = e.numbers.getLast? ∧
      e.nextBack.2.numbers = e.numbers.dropLast := by
  rw [numbers_eq, numbers_eq, getLast?_descending, dropLast_descending, nextBack_number, nextBack_low,
    nextBack_high]
  refine ⟨rfl, ?_⟩
  by_cases h : e.low < e.high
  · rw [if_pos h]
  · rw [if_neg h, descending_eq_nil (by omega), descending_eq_nil (by omega)]

/-- To skip one assignment more is to take it first, if there is one. -/
theorem nth_succ (count : Nat) :
    e.next.1 = none ∧ e.nth (count + 1) = e.next ∨ e.nth (count + 1) = e.next.2.nth count := by
  rw [nth]
  cases hnext : e.next with
  | mk first rest =>
      cases first with
      | none => exact .inl ⟨rfl, rfl⟩
      | some a => exact .inr rfl

/-- Taking one after another from the front comes to the number at the place that is asked for. -/
theorem nth_numbers (count : Nat) : (e.nth count).1.map Assignment.number = e.numbers[count]? ∧
    (e.nth count).2.numbers = e.numbers.drop (count + 1) := by
  induction count generalizing e with
  | zero =>
      rw [← List.head?_eq_getElem?, List.drop_one]
      exact e.next_numbers
  | succ count ih =>
      obtain ⟨hnumber, hleft⟩ := e.next_numbers
      rcases e.nth_succ count with ⟨hnone, heq⟩ | heq
      · -- nothing is left to be skipped
        rw [hnone, Option.map_none, eq_comm, List.head?_eq_none_iff] at hnumber
        rw [heq, hnone, hleft, hnumber]
        exact ⟨rfl, rfl⟩
      · rw [heq, ← List.getElem?_tail, ← List.drop_tail, ← hleft]
        exact ih e.next.2

theorem next_symbols : e.next.2.symbols = e.symbols ∧ ∀ a ∈ e.next.1, a.symbols = e.symbols := by
  unfold next
  split <;> simp

theorem nextBack_symbols :
    e.nextBack.2.symbols = e.symbols ∧ ∀ a ∈ e.nextBack.1, a.symbols = e.symbols := by
  unfold nextBack
  split <;> simp

theorem nth_symbols (count : Nat) :
    (e.nth count).2.symbols = e.symbols ∧ ∀ a ∈ (e.nth count).1, a.symbols = e.symbols := by
  induction count generalizing e with
  | zero => exact e.next_symbols
  | succ count ih =>
      rcases e.nth_succ count with ⟨-, heq⟩ | heq
      · rw [heq]
        exact e.next_symbols
      · obtain ⟨hsymbols, -⟩ := e.next_symbols
        rw [heq, ← hsymbols]
        exact ih e.next.2

end

/-- The answer to a call and the enumeration that it leaves. -/
def answer (e : Enumeration) : Call → Option Assignment × Enumeration
  | .next => e.next
  | .nextBack => e.nextBack
  | .nth count => e.nth count

/-- A call does to an enumeration what it does to the list of what is left. -/
theorem answer_numbers (e : Enumeration) (call : Call) :
    (e.answer call).1.map Assignment.number = (call.takeFrom e.numbers).1 ∧
      (e.answer call).2.numbers = (call.takeFrom e.numbers).2 := by
  cases call with
  | next => exact e.next_numbers
  | nextBack => exact e.nextBack_numbers
  | nth count => exact e.nth_numbers count

theorem answer_symbols (e : Enumeration) (call : Call) :
    (e.answer call).2.symbols = e.symbols ∧
      ∀ a ∈ (e.answer call).1, a.symbols = e.symbols := by
  cases call with
  | next => exact e.next_symbols
  | nextBack => exact e.nextBack_symbols
  | nth count => exact e.nth_symbols count

/-- Calls with the answers they get one after another. -/
def log (e : Enumeration) : List Call → List (Call × Option Assignment)
  | [] => []
  | call :: rest => (call, (e.answer call).1) :: (e.answer call).2.log rest

/-- The enumeration after calls. -/
def after (e : Enumeration) : List Call → Enumeration
  | [] => e
  | call :: rest => (e.answer call).2.after rest

theorem after_numbers (e : Enumeration) (calls : List Call) :
    (e.after calls).numbers = Call.leftAfter e.numbers calls := by
  induction calls generalizing e with
  | nil => rfl
  | cons call rest ih => rw [after, ih, (e.answer_numbers call).2, Call.leftAfter]

theorem log_numbers (e : Enumeration) (calls : List Call) :
    ((e.log calls).map fun entry => (entry.1, entry.2.map Assignment.number)) =
      Call.log e.numbers calls := by
  induction calls generalizing e with
  | nil => rfl
  | cons call rest ih =>
      obtain ⟨hreturned, hleft⟩ := e.answer_numbers call
      rw [log, List.map_cons, ih, hreturned, hleft, Call.log]

theorem log_symbols (e : Enumeration) (calls : List Call) :
    ∀ entry ∈ e.log calls, ∀ a ∈ entry.2, a.symbols = e.symbols := by
  induction calls generalizing e with
  | nil => simp [log]
  | cons call rest ih =>
      obtain ⟨hsymbols, hreturned⟩ := e.answer_symbols call
      rw [log, List.forall_mem_cons, ← hsymbols]
      exact ⟨hsymbols ▸ hreturned, ih (e.answer call).2⟩

/-- The numbers that calls of a kind return. -/
def deliveredNumbers (kind : Call → Bool) (e : Enumeration) (calls : List Call) : List Nat :=
  (Call.delivered kind (e.log calls)).map Assignment.number

theorem deliveredNumbers_eq (kind : Call → Bool) (e : Enumeration) (calls : List Call) :
    deliveredNumbers kind e calls = Call.delivered kind (Call.log e.numbers calls) := by
  rw [deliveredNumbers, ← Call.delivered_map, log_numbers]

/-! ## The interval of what is left -/

/-- The numbers from `low` up to but not including `high` are left, and calls take them off the ends. -/
structure Offers (low high : Nat) (e : Enumeration) : Prop where
  left : e.numbers = descending low high
  size : e.size = high - low
  next : low < high →
    e.next.1.map Assignment.number = some (high - 1) ∧ e.next.2.numbers = descending low (high - 1)
  nextBack : low < high →
    e.nextBack.1.map Assignment.number = some low ∧ e.nextBack.2.numbers = descending (low + 1) high
  nth : ∀ count, low + count < high →
    (e.nth count).1.map Assignment.number = some (high - 1 - count) ∧
      (e.nth count).2.numbers = descending low (high - 1 - count)
  nth_beyond : ∀ count, high ≤ low + count →
    (e.nth count).1 = none ∧ (e.nth count).2.numbers = []
  exhausted : high ≤ low → ∀ call, (e.answer call).1 = none ∧ (e.answer call).2.numbers = []

theorem offers_of_numbers {e : Enumeration} {low high : Nat} (h : e.numbers = descending low high) :
    e.Offers low high := by
  have hnth : ∀ count, (e.nth count).1.map Assignment.number = (descending low high)[count]? ∧
      (e.nth count).2.numbers = (descending low high).drop (count + 1) := by
    intro count
    rw [← h]
    exact e.answer_numbers (.nth count)
  have hback : e.nextBack.1.map Assignment.number = (descending low high).getLast? ∧
      e.nextBack.2.numbers = (descending low high).dropLast := by
    rw [← h]
    exact e.answer_numbers .nextBack
  have hwithin : ∀ count, low + count < high →
      (e.nth count).1.map Assignment.number = some (high - 1 - count) ∧
        (e.nth count).2.numbers = descending low (high - 1 - count) := by
    intro count hcount
    obtain ⟨hnumber, hleft⟩ := hnth count
    rw [getElem?_descending, if_pos hcount] at hnumber
    rw [drop_descending, Nat.add_comm, ← Nat.sub_sub] at hleft
    exact ⟨hnumber, hleft⟩
  have hbeyond : ∀ count, high ≤ low + count →
      (e.nth count).1 = none ∧ (e.nth count).2.numbers = [] := by
    intro count hcount
    obtain ⟨hnumber, hleft⟩ := hnth count
    rw [getElem?_descending, if_neg (Nat.not_lt_of_le hcount)] at hnumber
    rw [drop_descending, descending_eq_nil (by omega)] at hleft
    exact ⟨Option.map_eq_none_iff.1 hnumber, hleft⟩
  refine ⟨h, ?_, hwithin 0, ?_, hwithin, hbeyond, ?_⟩
  · have hlength := congrArg List.length h
    rwa [numbers, List.length_map, length_toList, length_descending] at hlength
  · intro hlt
    rw [getLast?_descending, if_pos hlt, dropLast_descending] at hback
    exact hback
  · intro hle call
    cases call with
    | next => exact hbeyond 0 hle
    | nth count => exact hbeyond count (Nat.le_add_right_of_le hle)
    | nextBack =>
        rw [descending_eq_nil hle] at hback
        exact ⟨Option.map_eq_none_iff.1 hback.1, hback.2⟩

theorem numbers_all (symbols : SymbolSet) :
    (all symbols).numbers = descending 0 (rowCount symbols.size) :=
  numbers_eq _

/-- The numbers of assignments fit a machine word. -/
theorem rowCount_size_lt (symbols : SymbolSet) : rowCount symbols.size < UInt64.size :=
  calc rowCount symbols.size
    _ ≤ rowCount maxSymbols := Nat.pow_le_pow_right (by decide) symbols.few
    _ < UInt64.size := by decide

/-- Whatever calls were made on a fresh enumeration, what they neither returned nor skipped is an
    interval, of which the next call takes a part at one end. The assignments returned are over the
    symbols of the enumeration and bear the numbers that the calls return from the list of all numbers.
    None of them is returned twice; the front returns them in descending order, all above what is left,
    and the back has returned all below, in ascending order. Calls that skip nothing take one assignment
    each, and when nothing is left, they have returned every assignment once. -/
theorem calls_keep_interval (symbols : SymbolSet) (calls : List Call) :
    ∃ low high, low ≤ high ∧ high ≤ rowCount symbols.size ∧ rowCount symbols.size < UInt64.size ∧
      (calls = [] → low = 0 ∧ high = rowCount symbols.size) ∧
      Call.leftAfter (descending 0 (rowCount symbols.size)) calls = descending low high ∧
      ((all symbols).after calls).Offers low high ∧
      (((all symbols).log calls).map fun entry => (entry.1, entry.2.map Assignment.number)) =
        Call.log (descending 0 (rowCount symbols.size)) calls ∧
      (∀ entry ∈ (all symbols).log calls, ∀ a ∈ entry.2, a.symbols = symbols) ∧
      (deliveredNumbers (fun _ => true) (all symbols) calls).Nodup ∧
      (deliveredNumbers Call.isFront (all symbols) calls).Sublist
        (descending high (rowCount symbols.size)) ∧
      deliveredNumbers Call.isBack (all symbols) calls = List.range low ∧
      ((∀ call ∈ calls, call.isOutermost = true) →
        high - low = rowCount symbols.size - calls.length ∧
        deliveredNumbers Call.isFront (all symbols) calls =
          descending high (rowCount symbols.size) ∧
        (low = high → (deliveredNumbers (fun _ => true) (all symbols) calls).Perm
          (List.range (rowCount symbols.size)))) := by
  have hleft := (all symbols).after_numbers calls
  have hlog := (all symbols).log_numbers calls
  have hperm := Call.delivered_perm (Call.log (all symbols).numbers calls)
  obtain ⟨front, back, hsplit, hfront, hback, hall⟩ := Call.exists_split (all symbols).numbers calls
  simp only [deliveredNumbers_eq]
  rw [numbers_all] at *
  generalize hn : rowCount symbols.size = n at *
  generalize hd : Call.leftAfter (descending 0 n) calls = left at *
  -- the parts of the list of all numbers are told apart by their lengths
  have hlength : n = front.length + left.length + back.length := by
    have h := congrArg List.length hsplit
    rwa [List.length_append, List.length_append, length_descending] at h
  have hparts : front = descending (n - front.length) n ∧
      left = descending back.length (n - front.length) ∧ back = descending 0 back.length := by
    rw [List.append_assoc, ← descending_append (show 0 ≤ n - front.length by omega) (by omega),
      ← descending_append (show 0 ≤ back.length by omega)
        (show back.length ≤ n - front.length by omega)] at hsplit
    obtain ⟨h₁, h₂⟩ := List.append_inj hsplit (by simp; omega)
    obtain ⟨h₃, h₄⟩ := List.append_inj h₂ (by simp; omega)
    exact ⟨h₁.symm, h₃.symm, h₄.symm⟩
  obtain ⟨hfront_eq, hleft_eq, hback_eq⟩ := hparts
  have hreturned : Call.delivered Call.isBack (Call.log (descending 0 n) calls) =
      List.range back.length := by
    rw [hback, ← reverse_descending_zero, ← hback_eq]
  refine ⟨back.length, n - front.length, by omega, by omega, hn ▸ rowCount_size_lt symbols, ?_,
    hleft_eq, offers_of_numbers (hleft.trans hleft_eq), hlog, log_symbols _ calls, ?_,
    hfront_eq ▸ hfront, hreturned, ?_⟩
  · rintro rfl
    have hlen : left.length = n := by
      rw [← hd]
      exact length_descending
    omega
  · have hends : (front ++ back).Nodup := by
      have hnumbers : (descending 0 n).Nodup := pairwise_descending.imp Nat.ne_of_gt
      rw [hsplit, List.append_assoc] at hnumbers
      exact hnumbers.sublist ((List.sublist_append_right left back).append_left front)
    have hsub := hfront.append (List.Sublist.refl back.reverse)
    rw [hperm.nodup_iff, hback]
    exact (((List.reverse_perm back).append_left front).nodup_iff.2 hends).sublist hsub
  · intro houtermost
    have hcount := Call.length_leftAfter (descending 0 n) calls houtermost
    rw [hd, hleft_eq, length_descending, length_descending] at hcount
    have hfront_all := hall houtermost
    refine ⟨hcount, hfront_all.trans hfront_eq, fun hdrained => ?_⟩
    have hempty : left = [] := by
      rw [hleft_eq, descending_eq_nil (Nat.le_of_eq hdrained.symm)]
    calc Call.delivered (fun _ => true) (Call.log (descending 0 n) calls)
      _ |>.Perm (front ++ back.reverse) := by rw [← hback, ← hfront_all]; exact hperm
      _ |>.Perm (front ++ back) := (List.reverse_perm back).append_left front
      _ |>.Perm (List.range n) := by
        rw [← reverse_descending_zero, hsplit, hempty, List.append_nil]
        exact (List.reverse_perm _).symm

/-- Taking from both ends in turn delivers every assignment. -/
theorem calls_keep_interval_from_both_ends :
    ∃ set, SymbolSet.ofList ["p", "q"] = .ok set ∧
      (deliveredNumbers (fun _ => true) (all set) [.next, .nextBack, .next, .nextBack]).Perm
        (List.range 4) := by
  refine ⟨_, rfl, ?_⟩
  obtain ⟨low, high, hle, -, -, -, -, -, -, -, -, -, -, hall⟩ :=
    calls_keep_interval _ [.next, .nextBack, .next, .nextBack]
  obtain ⟨hcount, -, hperm⟩ := hall (by decide)
  exact hperm (Nat.le_antisymm hle (Nat.le_of_sub_eq_zero hcount))

end Enumeration

end TruthTables
