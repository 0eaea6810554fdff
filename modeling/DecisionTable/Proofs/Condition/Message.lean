import DecisionTable.Condition.ReadError

/-!
# What a message tells of its cause

An error holds its cause as data, and a message is all that is shown of it. The message is enough to
see whether its position counts the token that it names (`ReadError.isPast_iff`): messages of two
kinds differ within their first words, and the end of the input is described like no token.
-/

namespace DecisionTable

namespace ReadError

/-- The message names a token that was found where a column, an operator, a value of a list or what
follows such a value was expected. -/
def NamesTaken (message : String) : Prop :=
  ∃ t : Token,
    message = "expected column name, found " ++ describe (some t) ∨
    (∃ name, message =
      "expected comparison operator after '" ++ name ++ "', found " ++ describe (some t)) ∨
    message = "expected value in IN list, found " ++ describe (some t) ∨
    message = "expected ',' or ')' in IN list, found " ++ describe (some t)

/-- The words that messages begin with. -/
def opening : Fin 11 → String
  | 0 => "expected column name, found "
  | 1 => "expected comparison operator after '"
  | 2 => "expected '(' after IN, found "
  | 3 => "expected value in IN list, found "
  | 4 => "expected ',' or ')' in IN list, found "
  | 5 => "unclosed IN list"
  | 6 => "expected value after '"
  | 7 => "unbalanced parentheses in value expression"
  | 8 => "expected ')' to close group, found "
  | 9 => "unexpected token "
  | 10 => "parentheses nested deeper than "

/-- Which of the words the message of a cause begins with. -/
def Cause.kind : Cause → Fin 11
  | column _ => 0
  | operator _ _ => 1
  | list _ => 2
  | entry _ => 3
  | separator _ => 4
  | unclosedList => 5
  | value _ => 6
  | unbalancedValue => 7
  | groupEnd _ => 8
  | trailing _ => 9
  | tooDeep => 10

theorem Cause.message_operator (name : String) (found : Option Token) :
    (operator name found).message =
      "expected comparison operator after '" ++ name ++ "', found " ++ describe found := rfl

theorem Cause.exists_message (c : Cause) : ∃ rest, c.message = opening c.kind ++ rest := by
  cases c with
  | operator name found =>
    refine ⟨name ++ ("', found " ++ describe found), ?_⟩
    rw [message_operator, String.append_assoc, String.append_assoc]
    rfl
  | value c => exact ⟨c.symbol ++ "'", String.append_assoc⟩
  | unclosedList => exact ⟨"", rfl⟩
  | unbalancedValue => exact ⟨"", rfl⟩
  | tooDeep => exact ⟨toString maxDepth, rfl⟩
  | _ => exact ⟨describe _, rfl⟩

/-- The first words of a message tell its kind. -/
theorem Cause.kind_eq_of_message_eq {c : Cause} {k : Fin 11} {rest : String}
    (h : c.message = opening k ++ rest) : c.kind = k := by
  -- sixteen characters are in all of the openings and tell any two of them apart
  have hlength : ∀ k, 16 ≤ (opening k).toList.length := by decide +kernel
  have hinj : ∀ j k, (opening j).toList.take 16 = (opening k).toList.take 16 → j = k := by
    decide +kernel
  obtain ⟨found, hfound⟩ := c.exists_message
  refine hinj c.kind k ?_
  have htake (j : Fin 11) (rest : String) :
      (opening j ++ rest).toList.take 16 = (opening j).toList.take 16 := by
    rw [String.toList_append, List.take_append_of_le_length (hlength j)]
  rw [← htake c.kind found, ← hfound, h, htake]

/-- The end of the input is not described as a token is. -/
theorem append_describe_ne (p q : String) (t : Token) :
    p ++ describe none ≠ q ++ describe (some t) := by
  intro h
  -- a token is described in quotes, so the last characters differ
  have hnone : (describe none).toList = "end of inpu".toList ++ ['t'] := by decide
  have hsome : (describe (some t)).toList = ("'" ++ t.text).toList ++ ['\''] :=
    String.toList_append
  have hlast := congrArg (fun s => s.toList.getLast?) h
  simp only [String.toList_append (t := describe _), hnone, hsome, ← List.append_assoc,
    List.getLast?_concat] at hlast
  exact absurd hlast (by decide)

theorem NamesTaken.exists_opening {message : String} (h : NamesTaken message) :
    ∃ k ∈ [0, 1, 3, 4], ∃ rest t, message = opening k ++ rest ++ describe (some t) := by
  obtain ⟨t, rfl | ⟨name, rfl⟩ | rfl | rfl⟩ := h
  · exact ⟨0, by decide, "", t, rfl⟩
  · exact ⟨1, by decide, name ++ "', found ", t, by rw [← String.append_assoc]; rfl⟩
  · exact ⟨3, by decide, "", t, rfl⟩
  · exact ⟨4, by decide, "", t, rfl⟩

/-- The position is past a found token exactly where the message names the token in one of four
ways. -/
theorem isPast_iff {c : Cause} : c.isPast = true ↔ NamesTaken c.message := by
  constructor
  · intro h
    cases c with
    | column found =>
      cases found with
      | none => cases h
      | some t => exact ⟨t, .inl rfl⟩
    | operator name found =>
      cases found with
      | none => cases h
      | some t => exact ⟨t, .inr (.inl ⟨name, rfl⟩)⟩
    | entry t => exact ⟨t, .inr (.inr (.inl rfl))⟩
    | separator t => exact ⟨t, .inr (.inr (.inr rfl))⟩
    | _ => cases h
  · intro h
    obtain ⟨k, hk, rest, t, hmessage⟩ := h.exists_opening
    -- of the four kinds two have causes at the end of the input, too
    have hkind : c.kind ∈ [0, 1, 3, 4] := by
      rwa [Cause.kind_eq_of_message_eq (hmessage.trans String.append_assoc)]
    cases c with
    | column found =>
      cases found with
      | none => exact absurd hmessage (append_describe_ne _ _ t)
      | some t => rfl
    | operator name found =>
      cases found with
      | none => exact absurd hmessage (append_describe_ne _ _ t)
      | some t => rfl
    | entry t => rfl
    | separator t => rfl
    | _ => exact absurd hkind (by simp [Cause.kind])

end ReadError

end DecisionTable
