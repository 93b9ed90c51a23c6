import DashCalc.Formula.Call

/-!
# From a formula to SQL

`expandCalls` goes through a text from left to right. Where a run of word characters is directly
followed by a parenthesis that closes again, with at most one level of parentheses in between, the
whole is a call: its arguments are expanded in the same way, cut into pieces and rendered. A call
that nests deeper keeps its name and its parentheses, and the scan goes on inside it. Quotes play
no part in finding calls.

`toSql` is the whole way from a formula to a statement.
-/

namespace DashCalc.Formula

open DashCalc (Text)

/-- The arguments of a call up to the parenthesis that closes it, and the text after it. `inner`
tells whether a parenthesis inside the arguments is open; a second one must not open in it. -/
def callBody (inner : Bool) : Text → Option (Text × Text)
  | [] => none
  | c :: cs =>
    if c = ')' && !inner then some ([], cs)
    else if c = '(' && inner then none
    else
      let inner' := if c = '(' then true else if c = ')' then false else inner
      (callBody inner' cs).map fun (arguments, rest) => (c :: arguments, rest)

theorem callBody_length {inner : Bool} {t arguments rest : Text}
    (h : callBody inner t = some (arguments, rest)) :
    arguments.length + 1 + rest.length = t.length := by
  induction t generalizing inner arguments rest with
  | nil => simp [callBody] at h
  | cons c cs ih =>
    simp only [callBody] at h
    split at h
    · simp only [Option.some.injEq, Prod.mk.injEq] at h
      simp [← h.1, ← h.2]; omega
    · split at h
      · simp at h
      · obtain ⟨⟨a, r⟩, hr, he⟩ := Option.map_eq_some_iff.1 h
        simp only [Prod.mk.injEq] at he
        have := ih hr
        simp only [← he.1, ← he.2, List.length_cons]
        omega

/-- The run of word characters at the start. -/
def leadingWord (t : Text) : Text := t.takeWhile Text.isWordChar

/-- The text after the run of word characters at the start. -/
def afterWord (t : Text) : Text := t.dropWhile Text.isWordChar

theorem afterWord_length_le (t : Text) : (afterWord t).length ≤ t.length :=
  (List.dropWhile_suffix _).length_le

def expandCalls : Text → Text
  | [] => []
  | c :: cs =>
    if Text.isWordChar c then
      let name := c :: leadingWord cs
      match _h : afterWord cs with
      | '(' :: inside =>
        match _h' : callBody false inside with
        | some (arguments, rest) =>
          renderCall name (pieces (expandCalls arguments)) ++ expandCalls rest
        | none => name ++ '(' :: expandCalls inside
      | rest => name ++ expandCalls rest
    else c :: expandCalls cs
termination_by t => t.length
decreasing_by
  all_goals simp only [List.length_cons]
  all_goals have hle := afterWord_length_le cs
  all_goals try rw [_h] at hle
  all_goals try simp only [List.length_cons] at hle
  · have := callBody_length _h'; omega
  · have := callBody_length _h'; omega
  · omega
  · omega
  · omega

/-- The SQL of one call; `arguments` is the text between its parentheses. -/
def expandCall (name arguments : Text) : Text := renderCall name (pieces (expandCalls arguments))

/-- The expression as the only column of a statement. -/
def wrap (expression : Text) : Text :=
  "SELECT (".toList ++ expression ++ ") AS expr FROM DUAL".toList

/-- The statement of a formula. A malformed formula gives a statement that does not parse. -/
def toSql (formula : Text) : Text := wrap (expandCalls (substitute formula))

end DashCalc.Formula
