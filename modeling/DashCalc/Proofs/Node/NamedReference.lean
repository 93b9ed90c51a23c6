import DashCalc.Node.OfSql
import DashCalc.Proofs.Formula.Substitution
import DashCalc.Proofs.Sql.Reading

/-!
# A reference on its own

A formula that is a reference and nothing else is read as the column of that name, whatever the
name is made of: periods, blanks, commas, quotes, brackets and keywords mean nothing between
backticks (`Node.ofFormula_reference`). Only the characters that end or change a reference on its
way to SQL are left out, and the parentheses, by which a word of the name might become a call.
-/

namespace DashCalc

open Formula Sql Sql.Grammar

namespace Node

/-- The tree of a statement around an expression is the tree of the expression. -/
theorem ofSql_wrap {s : Text} {tokens : List Token} {e : Expr}
    (scanned : scan (String.ofList (s ++ ") AS expr FROM DUAL".toList)) = .ok tokens)
    (noQuery : atQuery tokens = .ok (false, tokens))
    (read : (nested (depthLimit - 3)).anyExpr tokens = .ok (e, .symbol ")" :: labelled))
    {taken count : Nat} {n : Node} (built : (ofExpr e).run taken = (.ok n, count)) :
    ofSql (String.ofList (wrap s)) taken = (.ok n, count) := by
  have shape : selected [.query ⟨.select (fromDual e), []⟩] = .ok (.nested e) := rfl
  have inside : (ofExpr (.nested e)).run taken = (.ok n, count) := built
  unfold ofSql
  rw [parse_wrap scanned noQuery read]
  simp only [shape, inside]

/-- A name between backticks is a column that takes one id. -/
theorem ofSql_quoted {name : Text} (clear : ∀ c ∈ name, c ≠ backtick) (taken : Nat) :
    ofSql (String.ofList (wrap (backtick :: (name ++ [backtick])))) taken =
      (.ok (.column (UInt32.ofNat taken) none (String.ofList name)), taken + 1) :=
  ofSql_wrap (scan_quoted clear) rfl (anyExpr_quoted _ _ _) rfl

end Node

/-! ## References -/

namespace Formula

/-- The characters that a name does not have if a reference to it is to be read as that name. -/
def referenceMarks : List Char := '(' :: ')' :: backtick :: nameMarks

variable {name : Text}

/-- A reference without parentheses in its name becomes the quoted name. -/
theorem toSql_reference {s : Segment} (quoted : s.sql = quoteName name)
    (clear : ∀ c ∈ name, c ∉ referenceMarks) : toSql s.formula = wrap (quoteName name) := by
  have noCalls : ∀ c ∈ quoteName name, c ≠ '(' ∧ c ≠ ')' := by
    intro c hc
    rcases mem_quoteName hc with hc | rfl
    · exact ⟨fun e => clear c hc (by rw [e]; decide), fun e => clear c hc (by rw [e]; decide)⟩
    · decide
  have kept := expandCalls_of_forall noCalls apart_nil
  rw [expandCalls_nil, List.append_nil] at kept
  have substituted := substitute_segments [s]
  rw [List.flatMap_singleton, List.flatMap_singleton, quoted] at substituted
  rw [toSql, substituted, kept]

end Formula

namespace Node

theorem ofSql_reference {name : Text} (trimmed : Text.trim name = name)
    (clear : ∀ c ∈ name, c ∉ referenceMarks) {s : Segment} (quoted : s.sql = quoteName name)
    (taken : Nat) : ofSql (String.ofList (toSql s.formula)) taken =
      (.ok (.column (UInt32.ofNat taken) none (String.ofList name)), taken + 1) := by
  rw [toSql_reference quoted clear, quoteName, trimmed]
  exact ofSql_quoted (fun c hc e => clear c hc (by rw [e]; decide)) taken

/-- **A reference is read as its own name.** Whatever the name is made of, as long as it has no
blanks around it and none of the marks, a reference to a field and one to a parameter of that name
are read as the same column without a table; it takes one id, and it is looked up by the name. -/
theorem ofFormula_reference (name : String) (trimmed : Text.trim name.toList = name.toList)
    (clear : ∀ c ∈ name.toList, c ∉ referenceMarks) (taken : Nat) :
    ofFormula ("\x7b" ++ name ++ "\x7d") taken =
        (.ok (.column (UInt32.ofNat taken) none name), taken + 1) ∧
      ofFormula ("$\x7b" ++ name ++ "\x7d") taken =
        (.ok (.column (UInt32.ofNat taken) none name), taken + 1) ∧
      (Node.column (UInt32.ofNat taken) none name).column? = some name := by
  have marked : ∀ c ∈ name.toList, c ∉ nameMarks := fun c hc hm =>
    clear c hc (List.mem_cons_of_mem _ (List.mem_cons_of_mem _ (List.mem_cons_of_mem _ hm)))
  have field : ("\x7b" ++ name ++ "\x7d").toList = (Segment.field ⟨name.toList, marked⟩).formula :=
    by simp [Segment.formula, String.toList_append, openBrace, closeBrace]
  have parameter : ("$\x7b" ++ name ++ "\x7d").toList =
      (Segment.parameter ⟨name.toList, marked⟩).formula := by
    simp [Segment.formula, String.toList_append, openBrace, closeBrace]
  refine ⟨?_, ?_, rfl⟩
  · rw [ofFormula, sqlOfFormula, field, ofSql_reference trimmed clear rfl, String.ofList_toList]
  · rw [ofFormula, sqlOfFormula, parameter, ofSql_reference trimmed clear rfl,
      String.ofList_toList]

/-- A name with a period, a comma, quotes, brackets and keywords, after a thousand ids. -/
theorem ofFormula_reference_region :
    Text.trim "sales.region, 'FROM' [x]".toList =
        "sales.region, 'FROM' [x]".toList ∧
      (∀ c ∈ "sales.region, 'FROM' [x]".toList, c ∉ referenceMarks) ∧
      ofFormula "$\x7bsales.region, 'FROM' [x]\x7d" 1000 =
        (.ok (.column 1000 none "sales.region, 'FROM' [x]"), 1001) := by
  have trimmed : Text.trim "sales.region, 'FROM' [x]".toList =
    "sales.region, 'FROM' [x]".toList := by decide
  have clear : ∀ c ∈ "sales.region, 'FROM' [x]".toList, c ∉ referenceMarks :=
    (ClearText.ofString "sales.region, 'FROM' [x]" (by decide)).clear
  exact ⟨trimmed, clear, (ofFormula_reference _ trimmed clear 1000).2.1⟩

end Node

end DashCalc
