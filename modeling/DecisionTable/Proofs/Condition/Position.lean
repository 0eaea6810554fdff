import Mathlib.Order.Bounds.Defs
import DecisionTable.Proofs.Condition.Completeness
import DecisionTable.Proofs.Condition.Message

/-!
# Where an error is reported

Reading stops at the earliest token at which it is clear that the input is no condition: no
condition begins with the tokens up to that one, and some condition begins with those before it
(`Expression.position_of_ofTokens_error`). Two facts make this up. A reader acts on its tokens one
by one, so what it refuses it refuses whatever follows (`Reader.run_of_refused`); and from every
reader some tokens lead to the end of a condition (`Reader.exists_completion`).

A position in a message counts the tokens before the error, and the token that was found as well
where it was taken before it was refused. The message tells which (`ReadError.NamesTaken`).
-/

namespace DecisionTable

namespace Reader

open ReadError (Cause)

/-! ## What is refused -/

/-- A token that is refused is refused whatever follows it. -/
theorem run_of_refused {r s : Reader} {ps : List Token} {t : Token} {cause : Cause}
    (h : Reads r ps s) (ht : s.step t = .error cause) (us : List Token) (index : Nat) :
    r.run index (ps ++ t :: us) = .error (.atIndex cause (index + ps.length)) := by
  induction h generalizing index with
  | nil =>
    rw [List.nil_append, run, ht]
    rfl
  | @cons _ _ _ u ps hstep _ ih =>
    have hlength : index + (u :: ps).length = index + 1 + ps.length := by
      rw [List.length_cons]
      omega
    rw [List.cons_append, run, hstep, hlength]
    exact ih ht (index + 1)

/-- Reading fails at a token that is refused, or at the end of the input. -/
theorem run_error_cases {r : Reader} {index : Nat} {ts : List Token} {err : ReadError}
    (h : r.run index ts = .error err) :
    (∃ ps t us s cause, ts = ps ++ t :: us ∧ Reads r ps s ∧ s.step t = .error cause ∧
      err = .atIndex cause (index + ps.length)) ∨
    ∃ s cause, Reads r ts s ∧ s.finish = .error cause ∧
      err = .atIndex cause (index + ts.length) := by
  induction ts generalizing r index with
  | nil =>
    rw [run] at h
    split at h
    · cases h
    · next cause hfinish =>
      cases h
      exact .inr ⟨r, cause, .nil, hfinish, rfl⟩
  | cons t ts ih =>
    rw [run] at h
    split at h
    · next s hs =>
      have hlength (n : Nat) : index + 1 + n = index + (n + 1) := by omega
      rcases ih h with ⟨ps, u, us, v, cause, rfl, hv, hu, rfl⟩ | ⟨v, cause, hv, hfinish, rfl⟩
      · exact .inl ⟨t :: ps, u, us, v, cause, rfl, .cons hs hv, hu, by
          rw [hlength, List.length_cons]⟩
      · exact .inr ⟨v, cause, .cons hs hv, hfinish, by rw [hlength, List.length_cons]⟩
    · next cause ht =>
      cases h
      exact .inl ⟨[], t, ts, r, cause, rfl, .nil, ht, rfl⟩

/-! ## What is still possible -/

variable {g : Group} {outer : List Group}

/-- After a clause the groups that are open can be closed, one after the other. -/
theorem Settled.exists_completion {r : Reader} (h : Settled r g outer) :
    ∃ ts s e, Reads r ts s ∧ s.finish = .ok e := by
  induction outer generalizing r g with
  | nil => exact ⟨[], r, g.close, .nil, h.finish_eq⟩
  | cons around outer ih =>
    obtain ⟨ts, s, e, hs, he⟩ := ih (settled_junction (g := around.addTerm g.close))
    exact ⟨.closeParen :: ts, s, e, .cons h.close hs, he⟩

/-- The parentheses that are open in a value can be closed. -/
theorem exists_reads_value (name : String) (c : Comparison) (tokens : List Token) (depth : Nat)
    (h : tokens ≠ []) :
    ∃ ts us, us ≠ [] ∧
      Reads ⟨g, outer, .value name c tokens depth⟩ ts ⟨g, outer, .value name c us 0⟩ := by
  induction depth generalizing tokens with
  | zero => exact ⟨[], tokens, h, .nil⟩
  | succ depth ih =>
    obtain ⟨ts, us, hus, hreads⟩ := ih (.closeParen :: tokens) (List.cons_ne_nil _ _)
    have hclose : step ⟨g, outer, .value name c tokens (depth + 1)⟩ .closeParen =
        .ok ⟨g, outer, .value name c (.closeParen :: tokens) depth⟩ :=
      step_eq_ok_iff.2 (.value (by simp))
    exact ⟨.closeParen :: ts, us, hus, .cons hclose hreads⟩

/-- Whatever has to come next, some tokens end the clause that was begun. -/
theorem exists_settled (g : Group) (outer : List Group) (phase : Phase) :
    ∃ ts r h, Reads ⟨g, outer, phase⟩ ts r ∧ Settled r h outer := by
  -- a clause goes on from its column to its operator and then to its value, so the later phases
  -- come first
  have hvalue (name : String) (c : Comparison) (tokens : List Token) (depth : Nat) :
      ∃ ts r h, Reads ⟨g, outer, .value name c tokens depth⟩ ts r ∧ Settled r h outer := by
    -- the word makes sure that there is a value
    have hword : step ⟨g, outer, .value name c tokens depth⟩ (.word "") =
        .ok ⟨g, outer, .value name c (.word "" :: tokens) depth⟩ :=
      step_eq_ok_iff.2 (.value (by simp [endsValue]))
    obtain ⟨ts, us, hus, hreads⟩ :=
      exists_reads_value name c (.word "" :: tokens) depth (List.cons_ne_nil _ _)
    exact ⟨.word "" :: ts, _, _, .cons hword hreads, settled_value hus⟩
  have hoperator (name : String) :
      ∃ ts r h, Reads ⟨g, outer, .operator name⟩ ts r ∧ Settled r h outer := by
    obtain ⟨ts, r, h, hr, hsettled⟩ := hvalue name .equal [] 0
    exact ⟨_, r, h, .cons (step_eq_ok_iff.2 .comparison) hr, hsettled⟩
  cases phase with
  | factor =>
    obtain ⟨ts, r, h, hr, hsettled⟩ := hoperator ""
    exact ⟨_, r, h, .cons (step_eq_ok_iff.2 .column) hr, hsettled⟩
  | operator name => exact hoperator name
  | list name =>
    exact ⟨_, _, _, .cons (step_eq_ok_iff.2 .list) (.single (step_eq_ok_iff.2 .entryClose)),
      settled_junction⟩
  | entry name values =>
    exact ⟨_, _, _, .single (step_eq_ok_iff.2 .entryClose), settled_junction⟩
  | separator name values =>
    exact ⟨_, _, _, .single (step_eq_ok_iff.2 .separatorClose), settled_junction⟩
  | value name c tokens depth => exact hvalue name c tokens depth
  | junction => exact ⟨[], _, g, .nil, settled_junction⟩

/-- From every reader some tokens lead to the end of a condition. -/
theorem exists_completion (r : Reader) : ∃ ts s e, Reads r ts s ∧ s.finish = .ok e := by
  obtain ⟨ts, s, h, hs, hsettled⟩ := exists_settled r.group r.outer r.phase
  obtain ⟨us, u, e, hu, he⟩ := hsettled.exists_completion
  exact ⟨ts ++ us, u, e, hs.append hu, he⟩

end Reader

namespace Expression

open ReadError (NamesTaken)

/-! ## The earliest token -/

/-- Some condition begins with the tokens. -/
def CanBegin (ts : List Token) : Prop := ∃ us e, ofTokens (ts ++ us) = .ok e

/-- Where reading has to stop: at the tokens with which no condition goes on, and at the end. -/
def stops (ts : List Token) : Set Nat :=
  {k | k < ts.length ∧ ¬ CanBegin (ts.take (k + 1))} ∪ {ts.length}

theorem CanBegin.of_front {ps ts : List Token} (h : CanBegin ts) (hps : ps <+: ts) :
    CanBegin ps := by
  obtain ⟨us, e, he⟩ := h
  obtain ⟨vs, rfl⟩ := hps
  exact ⟨vs ++ us, e, by rwa [← List.append_assoc]⟩

/-- What can be read can go on to a condition. -/
theorem canBegin_of_reads {ts : List Token} {r : Reader} (h : Reader.Reads .start ts r) :
    CanBegin ts := by
  obtain ⟨us, s, e, hs, he⟩ := r.exists_completion
  exact ⟨us, e, Reader.run_eq_ok_iff.2 ⟨s, h.append hs, he⟩⟩

/-- With a token that is refused no condition goes on. -/
theorem not_canBegin_of_refused {ps : List Token} {r : Reader} {t : Token}
    {cause : ReadError.Cause} (h : Reader.Reads .start ps r) (ht : r.step t = .error cause) :
    ¬ CanBegin (ps ++ [t]) := by
  rintro ⟨us, e, he⟩
  rw [List.append_assoc, List.singleton_append, ofTokens, Reader.run_of_refused h ht] at he
  cases he

/-- With what was read a condition can begin, so there reading need not stop. -/
theorem length_mem_lowerBounds_stops {ps : List Token} {r : Reader}
    (h : Reader.Reads .start ps r) (us : List Token) :
    ps.length ∈ lowerBounds (stops (ps ++ us)) := by
  rintro k (⟨-, hk⟩ | rfl)
  · -- an earlier stop would lie within what was read
    refine Nat.le_of_not_lt fun hlt => hk ((canBegin_of_reads h).of_front ?_)
    rw [List.take_append_of_le_length (by omega)]
    exact List.take_prefix _ _
  · rw [List.length_append]
    exact Nat.le_add_right _ _

/-- Tokens that are no condition are refused at the earliest of them with which no condition can
begin, or at the end of the input where a condition can begin with all of them. That is the
position in the message, except that the token counts too where the message names it as taken. -/
theorem position_of_ofTokens_error {ts : List Token} {err : ReadError}
    (h : ofTokens ts = .error err) :
    ∃ k, IsLeast (stops ts) k ∧
      (NamesTaken err.cause.message → err.position = k + 1) ∧
      (¬ NamesTaken err.cause.message → err.position = k) ∧
      err.message = err.cause.message ++ " at token " ++ toString err.position := by
  have hposition {cause : ReadError.Cause} {k : Nat} (herr : err = .atIndex cause (0 + k)) :
      (NamesTaken err.cause.message → err.position = k + 1) ∧
        (¬ NamesTaken err.cause.message → err.position = k) ∧
        err.message = err.cause.message ++ " at token " ++ toString err.position := by
    subst herr
    rw [← ReadError.isPast_iff, Nat.zero_add]
    exact ⟨fun hpast => if_pos hpast, fun hpast => if_neg hpast, rfl⟩
  rcases Reader.run_error_cases h with
    ⟨ps, t, us, r, cause, rfl, hr, ht, herr⟩ | ⟨r, cause, hr, -, herr⟩
  · have hstop : ps.length < (ps ++ t :: us).length := by
      rw [List.length_append, List.length_cons]
      omega
    have hrefused : ¬ CanBegin ((ps ++ t :: us).take (ps.length + 1)) := by
      rw [List.take_length_add_append, List.take_succ_cons, List.take_zero]
      exact not_canBegin_of_refused hr ht
    exact ⟨ps.length, ⟨.inl ⟨hstop, hrefused⟩, length_mem_lowerBounds_stops hr _⟩, hposition herr⟩
  · have hleast := length_mem_lowerBounds_stops hr []
    rw [List.append_nil] at hleast
    exact ⟨ts.length, ⟨.inr rfl, hleast⟩, hposition herr⟩

/-- The tenth token, with the index 9, cannot be an entry of a list, and is counted. -/
theorem position_of_ofTokens_error_entry :
    let ts : List Token := [.word "a", .comparison .equal, .word "1", .orKw, .word "b", .inKw,
      .openParen, .word "2", .comma, .andKw, .word "c"]
    let err : ReadError := ⟨.entry .andKw, 10⟩
    ofTokens ts = .error err ∧ IsLeast (stops ts) 9 ∧
      err.message = "expected value in IN list, found 'AND' at token 10" := by
  intro ts err
  have h : ofTokens ts = .error err := rfl
  obtain ⟨k, hk, htaken, -⟩ := position_of_ofTokens_error h
  have hten : 10 = k + 1 := htaken (ReadError.isPast_iff.1 rfl)
  obtain rfl : k = 9 := by omega
  exact ⟨h, hk, by decide +kernel⟩

end Expression

end DecisionTable
