import DecisionTable.Condition.Memo

/-!
# Sharing a memo

Several readers may use one memo at the same time. Reading takes two steps, to look the text
up and, if it was not there but could be read, to store what was read. Steps of different
readers may alternate in any way, and the memo may be cleared in between.
-/

namespace DecisionTable.Memo

/-- What a reader is about to do, or has done. -/
inductive Call where
  /-- The text has to be looked up. -/
  | lookup (text : String)
  /-- The text was not found, and what was read of it has to be stored. -/
  | store (text : String) (e : Expression)
  /-- The reader is done. -/
  | done (text : String) (result : Except ReadError Expression)

/-- A memo and those who read through it. -/
structure Shared where
  memo : Memo
  calls : List Call

/-- Looking a text up: the reader is done if it is found or cannot be read. -/
def lookupStep (m : Memo) (text : String) : Call :=
  match m.lookup text with
  | some e => .done text (.ok e)
  | none =>
    match Expression.read text with
    | .ok e => .store text e
    | .error error => .done text (.error error)

/-- One step: of one of the readers, of a new one that comes, or of someone who clears the
memo. -/
inductive Step : Shared → Shared → Prop where
  | enter (m : Memo) (calls : List Call) (text : String) :
      Step ⟨m, calls⟩ ⟨m, calls ++ [.lookup text]⟩
  | lookup (m : Memo) (before after : List Call) (text : String) :
      Step ⟨m, before ++ .lookup text :: after⟩ ⟨m, before ++ m.lookupStep text :: after⟩
  | store (m : Memo) (before after : List Call) (text : String) (e : Expression) :
      Step ⟨m, before ++ .store text e :: after⟩
        ⟨m.store text e, before ++ .done text (.ok e) :: after⟩
  | clear (m : Memo) (calls : List Call) : Step ⟨m, calls⟩ ⟨m.clear, calls⟩

/-- What can come about from an empty memo of the given capacity. -/
inductive Reachable (capacity : Nat) : Shared → Prop where
  | start : Reachable capacity ⟨ofCapacity capacity, []⟩
  | step {a b : Shared} : Reachable capacity a → Step a b → Reachable capacity b

/-- A reader that is not disturbed takes the two steps of `read`. -/
theorem read_eq (m : Memo) (text : String) :
    m.read text =
      match m.lookupStep text with
      | .store text e => (.ok e, m.store text e)
      | .done _ result => (result, m)
      | .lookup _ => (Expression.read text, m) := by
  rw [read, lookupStep]
  cases m.lookup text with
  | some e => rfl
  | none => cases Expression.read text <;> rfl

end DecisionTable.Memo
