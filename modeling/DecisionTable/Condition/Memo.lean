import DecisionTable.OrderedMap
import DecisionTable.Condition.Reader

/-!
# Remembering conditions

Conditions are often read again and again, so what was read is kept under its text. The
store is bounded: when it is full it is emptied before a new text is stored. A text that is
no condition is not stored. Reading through a `Memo` takes two steps, `lookup` and then, if
nothing was found, `store`; each of them is atomic when several readers share a memo.
-/

namespace DecisionTable

/-- Conditions that were read before, by their texts. -/
structure Memo where
  /-- How many conditions are kept at most. -/
  capacity : Nat
  capacity_pos : 0 < capacity
  entries : OrderedMap String Expression
  deriving DecidableEq

namespace Memo

/-- A memo in which nothing is stored. It can hold one condition at least. -/
def ofCapacity (capacity : Nat) : Memo := ⟨max capacity 1, by omega, .empty⟩

/-- The capacity of a memo for which none is given. -/
def defaultCapacity : Nat := 1024

/-- A memo of the default capacity. -/
def default : Memo := ofCapacity defaultCapacity

/-- The number of conditions stored. -/
def size (m : Memo) : Nat := m.entries.size

/-- Whether nothing is stored. -/
def isEmpty (m : Memo) : Bool := m.entries.isEmpty

/-- Whether the text is stored. -/
def contains (m : Memo) (text : String) : Bool := m.entries.contains text

/-- The condition stored under a text. -/
def lookup (m : Memo) (text : String) : Option Expression := m.entries.get? text

/-- The memo emptied. -/
def clear (m : Memo) : Memo := { m with entries := .empty }

/-- Stores a condition under its text; a full memo is emptied first, unless the text is in
it. -/
def store (m : Memo) (text : String) (e : Expression) : Memo :=
  let base := if m.capacity ≤ m.size ∧ !m.contains text then m.clear else m
  { base with entries := base.entries.insert text e }

/-- The condition that a text is, from the memo where it is stored, with the memo after. -/
def read (m : Memo) (text : String) : Except ReadError Expression × Memo :=
  match m.lookup text with
  | some e => (.ok e, m)
  | none =>
    match Expression.read text with
    | .ok e => (.ok e, m.store text e)
    | .error error => (.error error, m)

@[simp] theorem entries_clear (m : Memo) : m.clear.entries = .empty := rfl

@[simp] theorem capacity_store (m : Memo) (text : String) (e : Expression) :
    (m.store text e).capacity = m.capacity := by
  simp only [store]
  split <;> rfl

theorem entries_store_of_full {m : Memo} {text : String}
    (h : m.capacity ≤ m.size ∧ (!m.contains text) = true) (e : Expression) :
    (m.store text e).entries = OrderedMap.insert .empty text e := by
  simp only [store, if_pos h, entries_clear]

theorem entries_store_of_room {m : Memo} {text : String}
    (h : ¬ (m.capacity ≤ m.size ∧ (!m.contains text) = true)) (e : Expression) :
    (m.store text e).entries = m.entries.insert text e := by
  simp only [store, if_neg h]

/-- What is stored after storing is the new condition, or was there before. -/
theorem lookup_store {m : Memo} {text other : String} {e f : Expression}
    (h : (m.store text e).lookup other = some f) :
    (other = text ∧ f = e) ∨ m.lookup other = some f := by
  simp only [lookup, store, OrderedMap.get?_insert] at h
  split at h
  · next ht => exact .inl ⟨ht.symm, (Option.some.inj h).symm⟩
  · split at h
    · simp at h
    · exact .inr h

/-- The new condition is found right after it was stored. -/
@[simp] theorem lookup_store_self (m : Memo) (text : String) (e : Expression) :
    (m.store text e).lookup text = some e := by
  simp [lookup, store, OrderedMap.get?_insert]

end Memo

end DecisionTable
