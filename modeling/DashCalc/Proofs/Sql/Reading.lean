import DashCalc.Formula.Expansion
import DashCalc.Sql.Grammar.Statement

/-!
# Reading the statement around an expression

The statement of a formula selects one expression in parentheses from `DUAL`, under a label. It is
scanned token by token (`scan_step`), and read reader by reader (`Reader.run_bind`): where the
tokens of the expression are read up to the closing parenthesis, the statement is read to its end
and selects that expression (`parse_wrap`). A name between backticks is one token, whatever it is
made of (`scan_quoted`), and is read as a column (`anyExpr_quoted`).
-/

namespace DashCalc.Sql

open DashCalc (Text)
open Formula (wrap)

/-! ## Scanning -/

/-- One step of scanning: a token or a gap, and the tokens behind it. -/
theorem scan_step {t rest : Text} {token : Option Token} {tokens : List Token}
    (next : scanNext t = some (token, rest)) (shorter : rest.length < t.length)
    (behind : scan (String.ofList rest) = .ok tokens) :
    scan (String.ofList t) = .ok (token.toList ++ tokens) := by
  unfold scan at behind ⊢
  rw [String.toList_ofList] at behind ⊢
  have nonempty : t.isEmpty = false := by
    cases t with
    | nil => exact absurd shorter (Nat.not_lt_zero _)
    | cons => rfl
  rw [scanFrom, nonempty, next]
  cases hrest : scanFrom rest with
  | error what =>
    rw [hrest] at behind
    cases behind
  | ok placed =>
    rw [hrest] at behind
    cases behind
    simp only [Bool.false_eq_true, if_false, dif_pos shorter, hrest]
    cases token <;> rfl

/-- What stands behind the closing parenthesis of a formula's statement. -/
def labelled : List Token :=
  [.word "AS" "AS", .word "expr" "EXPR", .word "FROM" "FROM", .word "DUAL" "DUAL"]

/-- An opening parenthesis and the tokens behind it. -/
def opened (tokens : List Token) : List Token := .symbol "(" :: tokens

/-- The tokens of a formula's statement, given those from its expression to the end. -/
def selecting (tokens : List Token) : List Token := .word "SELECT" "SELECT" :: opened tokens

theorem scan_labelled :
    scan (String.ofList ") AS expr FROM DUAL".toList) = .ok (.symbol ")" :: labelled) := by
  have read : (scan (String.ofList ") AS expr FROM DUAL".toList)).toOption =
    some (.symbol ")" :: labelled) := by decide +kernel
  generalize scan (String.ofList ") AS expr FROM DUAL".toList) = result at read ⊢
  cases result with
  | error what => cases read
  | ok tokens => exact congrArg Except.ok (Option.some.inj read)

theorem scan_wrap {s : Text} {tokens : List Token}
    (behind : scan (String.ofList (s ++ ") AS expr FROM DUAL".toList)) = .ok tokens) :
    scan (String.ofList (wrap s)) = .ok (selecting tokens) := by
  unfold wrap
  rw [List.append_assoc]
  generalize s ++ ") AS expr FROM DUAL".toList = t at behind ⊢
  have parenthesis : scanNext ("(".toList ++ t) = some (some (.symbol "("), t) := rfl
  have gap : scanNext (" (".toList ++ t) = some (none, "(".toList ++ t) := rfl
  have word : scanNext ("SELECT (".toList ++ t) =
    some (some (.word "SELECT" "SELECT"), " (".toList ++ t) := rfl
  refine scan_step word ?_ (scan_step gap ?_ (scan_step parenthesis ?_ behind)) <;> simp

/-- A text up to its closing quote, if it has none inside and nothing in it is escaped. -/
theorem quotedRun_append {quote c : Char} {name : Text} (clear : ∀ d ∈ name, d ≠ quote)
    (other : c ≠ quote) (rest : Text) :
    quotedRun quote false (name ++ quote :: c :: rest) = some (name, c :: rest) := by
  induction name with
  | nil => rw [List.nil_append, quotedRun, if_pos rfl, if_neg other]
  | cons d ds ih =>
    obtain ⟨hd, hds⟩ := List.forall_mem_cons.1 clear
    obtain ⟨x, xs, hx⟩ : ∃ x xs, ds ++ quote :: c :: rest = x :: xs :=
      List.exists_cons_of_ne_nil (List.append_ne_nil_of_right_ne_nil _ (List.cons_ne_nil _ _))
    rw [List.cons_append, hx, quotedRun, if_neg hd, if_neg (by simp), ← hx, ih hds]
    rfl

/-- A name between backticks is scanned as it is. -/
theorem scan_quoted {name : Text} (clear : ∀ c ∈ name, c ≠ '\x60') :
    scan (String.ofList ('\x60' :: (name ++ ['\x60']) ++ ") AS expr FROM DUAL".toList)) =
      .ok (.word (String.ofList name) "" :: .symbol ")" :: labelled) := by
  have run := quotedRun_append (c := ')') clear (by decide) " AS expr FROM DUAL".toList
  have next : scanNext ('\x60' :: (name ++ '\x60' :: ") AS expr FROM DUAL".toList)) =
      some (some (.word (String.ofList name) ""), ") AS expr FROM DUAL".toList) := by
    show scanQuoted (.word · "") (quotedRun '\x60' false _) = _
    exact congrArg (scanQuoted (.word · "")) run
  rw [List.cons_append, List.append_assoc]
  refine scan_step next ?_ scan_labelled
  rw [List.length_cons, List.length_append, List.length_cons]
  omega

/-! ## Readers -/

namespace Grammar

open Reader

section Reader

variable {α β : Type} {r : Reader α} {tokens rest : List Token} {a : α}

/-- What comes next reads what the first reader left. -/
theorem Reader.run_bind {next : α → Reader β} (h : r tokens = .ok (a, rest)) :
    (r >>= next) tokens = next a rest := by
  show (r tokens >>= fun p => next p.1 p.2) = _
  rw [h]
  rfl

theorem Reader.run_map {f : α → β} (h : r tokens = .ok (a, rest)) :
    (f <$> r) tokens = .ok (f a, rest) := by
  show (r tokens >>= fun p => .ok (f p.1, p.2)) = _
  rw [h]
  rfl

end Reader

/-! ## A quoted name -/

section Name

variable (inner : Inner) (name : String) (rest : List Token)

theorem nameOrCall_closed :
    nameOrCall inner name (.symbol ")" :: rest) = .ok (.name [] name, .symbol ")" :: rest) := by
  -- a name like a character set is one only in front of a text
  show (if name.startsWith "_" && false then _ else _ : Reader Expr) _ = _
  rw [Bool.and_false]
  rfl

theorem operand_quoted : operand inner (.word name "" :: .symbol ")" :: rest) =
    .ok (.name [] name, .symbol ")" :: rest) := by
  have typed : attempt? (typedText inner) (.word name "" :: .symbol ")" :: rest) =
    .ok (none, .word name "" :: .symbol ")" :: rest) := rfl
  have untyped : untypedOperand inner (.word name "" :: .symbol ")" :: rest) =
      .ok ((.name [] name, true), .symbol ")" :: rest) := by
    show ((·, true) <$> nameOrCall inner name) (.symbol ")" :: rest) = _
    exact run_map (nameOrCall_closed inner name rest)
  exact (run_bind typed).trans (run_bind untyped)

/-- A quoted name before a closing parenthesis is a column. -/
theorem anyExpr_quoted (levels : Nat) :
    (nested (levels + 1)).anyExpr (.word name "" :: .symbol ")" :: rest) =
      .ok (.name [] name, .symbol ")" :: rest) :=
  run_bind (operand_quoted (nested levels) name rest)

end Name

/-! ## The statement -/

/-- The selection of an expression in parentheses from `DUAL`. -/
def fromDual (e : Expr) : Select := ⟨[.expr (.nested e)], [⟨.table ["DUAL"], false⟩], []⟩

section Statement

variable {levels : Nat} {tokens : List Token} {e : Expr}
  (noQuery : atQuery tokens = .ok (false, tokens))
  (read : (nested levels).anyExpr tokens = .ok (e, .symbol ")" :: labelled))
include noQuery read

theorem operand_opened : operand (nested levels) (opened tokens) = .ok (.nested e, labelled) := by
  have items : (nested levels).exprs tokens = .ok ([e], .symbol ")" :: labelled) := run_bind read
  have inside : parenthesisOperand (nested levels) tokens = .ok (.nested e, labelled) :=
    (run_bind noQuery).trans ((run_bind items).trans rfl)
  have typed : attempt? (typedText (nested levels)) (opened tokens) =
    .ok (none, opened tokens) := rfl
  have untyped : untypedOperand (nested levels) (opened tokens) =
      .ok ((.nested e, true), labelled) := by
    show ((·, true) <$> parenthesisOperand (nested levels)) tokens = _
    exact run_map inside
  exact (run_bind typed).trans (run_bind untyped)

/-- The expression with its label is one item. -/
theorem item_opened : item (nested (levels + 1)) (opened tokens) =
    .ok (.expr (.nested e), [.word "FROM" "FROM", .word "DUAL" "DUAL"]) := by
  have word : peekWord (opened tokens) = .ok ("", opened tokens) := rfl
  have expr : starOrExpr (nested (levels + 1)) (opened tokens) =
      .ok (.expr (.nested e), labelled) := by
    show (Argument.expr <$> (nested (levels + 1)).anyExpr) (opened tokens) = _
    exact run_map (run_bind (operand_opened noQuery read))
  exact (run_bind word).trans ((run_bind expr).trans rfl)

theorem selection_selecting :
    selection (nested (levels + 1)) (selecting tokens) = .ok (fromDual e, []) := by
  have start : expectWord "SELECT" (selecting tokens) = .ok ((), opened tokens) := rfl
  have distinct : distinctness (nested (levels + 1)) (opened tokens) = .ok ([], opened tokens) :=
    rfl
  have noTop : acceptWord "TOP" (opened tokens) = .ok (false, opened tokens) := rfl
  have top : (pure [] : Reader (List Expr)) (opened tokens) = .ok ([], opened tokens) := rfl
  have items : commaSeparated (item (nested (levels + 1))) (opened tokens) =
      .ok ([.expr (.nested e)], [.word "FROM" "FROM", .word "DUAL" "DUAL"]) :=
    run_bind (item_opened noQuery read)
  exact (run_bind start).trans <| (run_bind distinct).trans <| (run_bind noTop).trans <|
    (run_bind top).trans <| (run_bind items).trans rfl

theorem query_selecting : query (nested (levels + 1)) (selecting tokens) =
    .ok (⟨.select (fromDual e), []⟩, []) := by
  have noWith : acceptWord "WITH" (selecting tokens) = .ok (false, selecting tokens) := rfl
  have defined : (pure [] : Reader (List Expr)) (selecting tokens) = .ok ([], selecting tokens) :=
    rfl
  have noInsert : acceptWord "INSERT" (selecting tokens) = .ok (false, selecting tokens) := rfl
  have noUpdate : acceptWord "UPDATE" (selecting tokens) = .ok (false, selecting tokens) := rfl
  have word : peekWord (selecting tokens) = .ok ("SELECT", selecting tokens) := rfl
  have simple : simpleBody (nested (levels + 1)) (selecting tokens) =
      .ok (.select (fromDual e), []) :=
    (run_bind word).trans ((run_bind (selection_selecting noQuery read)).trans rfl)
  have whole : body (nested (levels + 1)) (selecting tokens) = .ok (.select (fromDual e), []) :=
    (run_bind simple).trans rfl
  exact (run_bind noWith).trans <| (run_bind defined).trans <| (run_bind noInsert).trans <|
    (run_bind noUpdate).trans <| (run_bind whole).trans rfl

theorem statement_selecting : statementWithin (levels + 3) (selecting tokens) =
    .ok (.query ⟨.select (fromDual e), []⟩, []) := by
  have noParenthesis : peekSymbol "(" (selecting tokens) = .ok (false, selecting tokens) := rfl
  have word : peekWord (selecting tokens) = .ok ("SELECT", selecting tokens) := rfl
  have query : (nested (levels + 2)).query (selecting tokens) =
    .ok (⟨.select (fromDual e), []⟩, []) := query_selecting noQuery read
  exact (run_bind noParenthesis).trans <| (run_bind word).trans (run_map query)

/-- The statement is the only one, and nothing stands behind it. -/
theorem statements_selecting : statements (statementWithin (levels + 3)) (selecting tokens) =
    .ok ([.query ⟨.select (fromDual e), []⟩], []) := by
  have gaps : many (do if ← acceptSymbol ";" then return some () else return none)
    (selecting tokens) = .ok ([], selecting tokens) := rfl
  have more : (get : Reader (List Token)) (selecting tokens) =
    .ok (selecting tokens, selecting tokens) := rfl
  exact (run_bind gaps).trans <| (run_bind more).trans <|
    (run_bind (statement_selecting noQuery read)).trans rfl

end Statement

end Grammar

open Grammar

/-- The statement of a formula is read where its expression is. The statement, the query and the
parentheses take a level each. -/
theorem parse_wrap {s : Text} {tokens : List Token} {e : Expr}
    (scanned : scan (String.ofList (s ++ ") AS expr FROM DUAL".toList)) = .ok tokens)
    (noQuery : atQuery tokens = .ok (false, tokens))
    (read : (nested (depthLimit - 3)).anyExpr tokens = .ok (e, .symbol ")" :: labelled)) :
    parse (String.ofList (wrap s)) = .ok [.query ⟨.select (fromDual e), []⟩] := by
  unfold parse
  rw [scan_wrap scanned]
  show Prod.fst <$> statements (statementWithin (depthLimit - 3 + 3)) _ = _
  rw [statements_selecting noQuery read]
  rfl

end DashCalc.Sql
