import DashCalc.Proofs.Cost.Walk
import DashCalc.Proofs.Cost.Unroll
import DashCalc.Proofs.Node.Unnumbered

/-!
# What a cost depends on

A report is made of records and of totals: cost, depth and kind of computation. The totals of a tree
depend on the trees of the names that it leads to, apart from ids, and on nothing else: two scopes
that agree on these names give the same totals (`Scope.Agree.report`). Ids, costs that were found
before, formulas and the values of parameters go into the records only.

The proof runs both scopes in lock step. Tallies that are the same apart from what they recorded
(`Tally.unrecorded`) stay so, whatever is followed.
-/

namespace DashCalc.Cost

open Sql (Bound Frame Window)

/-! ## Steps apart from ids -/

/-- The step with the id zero. -/
def Step.unnumbered : Step → Step
  | .call _ aggregate name => .call 0 aggregate name
  | .callAgain _ aggregate name => .callAgain 0 aggregate name
  | s => s

theorem again_unnumbered (n : Node) : again n.unnumbered = (again n).map Step.unnumbered := by
  cases n <;> rfl

open Node (unnumbered unnumberedList unnumbered? unnumberedCases unnumberedWindow? unnumberedKeys
  unnumberedFrame? unnumberedBound unnumberedBound?)

mutual

theorem steps_unnumbered : ∀ n : Node, steps n.unnumbered = (steps n).map Step.unnumbered
  | .binary _ _ left right => by
    simp [unnumbered, steps, steps_unnumbered left, steps_unnumbered right]
  | .unary _ _ operand => steps_unnumbered operand
  | .call id aggregate name arguments window => by
    simp [unnumbered, steps, stepsOfList_unnumbered arguments, stepsOfWindow?_unnumbered window,
      Step.unnumbered]
  | .list _ items => stepsOfList_unnumbered items
  | .branches _ operand cases otherwise => by
    simp [unnumbered, steps, stepsOf?_unnumbered operand, stepsOfCases_unnumbered cases,
      stepsOf?_unnumbered otherwise]
  | .column _ _ _ => rfl
  | .number _ _ => rfl
  | .text _ _ => rfl
  | .bool _ _ => rfl
  | .null _ => rfl
  | .star _ => rfl

theorem stepsOfList_unnumbered : ∀ ns : List Node,
    stepsOfList (unnumberedList ns) = (stepsOfList ns).map Step.unnumbered
  | [] => rfl
  | n :: ns => by
    simp [unnumberedList, stepsOfList, steps_unnumbered n, stepsOfList_unnumbered ns]

theorem stepsOf?_unnumbered : ∀ n : Option Node,
    stepsOf? (unnumbered? n) = (stepsOf? n).map Step.unnumbered
  | none => rfl
  | some n => steps_unnumbered n

theorem stepsOfCases_unnumbered : ∀ cases : List (Node × Node),
    stepsOfCases (unnumberedCases cases) = (stepsOfCases cases).map Step.unnumbered
  | [] => rfl
  | (condition, result) :: cases => by
    simp [unnumberedCases, stepsOfCases, steps_unnumbered condition, steps_unnumbered result,
      stepsOfCases_unnumbered cases]

theorem stepsOfWindow?_unnumbered : ∀ w : Option (Window (SortKey Node) Node),
    stepsOfWindow? (unnumberedWindow? w) = (stepsOfWindow? w).map Step.unnumbered
  | none => rfl
  | some ⟨sortKeys, partitions, frame⟩ => by
    simp [unnumberedWindow?, stepsOfWindow?, stepsOfKeys_unnumbered sortKeys,
      stepsOfPartitions_unnumbered partitions, stepsOfFrame?_unnumbered frame]

theorem stepsOfKeys_unnumbered : ∀ keys : List (SortKey Node),
    stepsOfKeys (unnumberedKeys keys) = (stepsOfKeys keys).map Step.unnumbered
  | [] => rfl
  | ⟨_, expr, _⟩ :: keys => by
    simp [unnumberedKeys, stepsOfKeys, steps_unnumbered expr, again_unnumbered expr,
      stepsOfKeys_unnumbered keys, Step.unnumbered]

theorem stepsOfPartitions_unnumbered : ∀ ns : List Node,
    stepsOfPartitions (unnumberedList ns) = (stepsOfPartitions ns).map Step.unnumbered
  | [] => rfl
  | n :: ns => by
    simp [unnumberedList, stepsOfPartitions, steps_unnumbered n, again_unnumbered n,
      stepsOfPartitions_unnumbered ns]

theorem stepsOfFrame?_unnumbered : ∀ frame : Option (Frame Node),
    stepsOfFrame? (unnumberedFrame? frame) = (stepsOfFrame? frame).map Step.unnumbered
  | none => rfl
  | some ⟨_, start, stop⟩ => by
    simp [unnumberedFrame?, stepsOfFrame?, stepsOfBound_unnumbered start,
      stepsOfBound?_unnumbered stop]

theorem stepsOfBound_unnumbered : ∀ bound : Bound Node,
    stepsOfBound (unnumberedBound bound) = (stepsOfBound bound).map Step.unnumbered
  | .currentRow => rfl
  | .preceding offset => stepsOf?_unnumbered offset
  | .following offset => stepsOf?_unnumbered offset

theorem stepsOfBound?_unnumbered : ∀ bound : Option (Bound Node),
    stepsOfBound? (unnumberedBound? bound) = (stepsOfBound? bound).map Step.unnumbered
  | none => rfl
  | some bound => stepsOfBound_unnumbered bound

end

/-! ## Tallies apart from records -/

namespace Tally

variable {scope scope' : Scope} {t t' : Tally}

/-- The tally without its records and the calls that it remembers for them. -/
def unrecorded (t : Tally) : Tally := { t with dependencies := #[], seenCalls := [] }

theorem recordCall_unrecorded (t : Tally) (id : NodeId) (aggregate : Bool) (name : String) :
    (t.recordCall scope id aggregate name).unrecorded = t.unrecorded := by
  unfold recordCall
  cases scope.mode with
  | exhaustive => rfl
  | deduplicated =>
    dsimp only
    split <;> rfl

/-- What the mode remembers of a name. -/
def remember (mode : Mode) (t : Tally) (name : String) : Tally :=
  match mode with
  | .exhaustive => t
  | .deduplicated =>
    if name ∈ t.seenNames then t else { t with seenNames := name :: t.seenNames }

theorem reference_unrecorded (t : Tally) (name : String) :
    (t.reference scope none name).unrecorded = t.unrecorded.remember scope.mode name := by
  have recorded (t : Tally) (r : Referent) :
      (t.recordReferent name r).unrecorded = t.unrecorded := by
    cases r <;> rfl
  unfold reference remember
  cases scope.mode with
  | exhaustive => exact recorded t _
  | deduplicated =>
    simp only [List.contains_iff_mem]
    by_cases seen : name ∈ t.seenNames
    · rw [if_pos seen]
      exact (if_pos (show name ∈ t.unrecorded.seenNames from seen)).symm
    · rw [if_neg seen]
      exact (recorded _ _).trans
        (if_neg (show name ∉ t.unrecorded.seenNames from seen)).symm

/-- What a step on its own does to a tally without records. -/
def pass (mode : Mode) (t : Tally) : Step → Tally
  | .call _ aggregate name => t.charge aggregate name
  | .reference name => t.remember mode name
  | .deeper => t.enter
  | .shallower => t.leave
  | .callAgain _ _ _ => t
  | .referenceAgain name => t.remember mode name

theorem meet_unrecorded (t : Tally) (s : Step) :
    (t.meet scope s).unrecorded = t.unrecorded.pass scope.mode s.unnumbered := by
  cases s with
  | call id aggregate name => exact recordCall_unrecorded (t.charge aggregate name) ..
  | callAgain id aggregate name => exact recordCall_unrecorded t ..
  | reference name => exact reference_unrecorded t name
  | referenceAgain name => exact reference_unrecorded t name
  | deeper => rfl
  | shallower => rfl

end Tally

/-! ## Scopes that agree -/

namespace Scope

/-- Whether two scopes have the same trees, apart from ids, behind some names: these are all names
that the first scope leads to from one of them. -/
structure Agree (scope scope' : Scope) (among : String → Prop) : Prop where
  mode : scope.mode = scope'.mode
  length : scope.expressions.length = scope'.expressions.length
  tree : ∀ name, among name →
    (scope.tree? name).map Node.unnumbered = (scope'.tree? name).map Node.unnumbered
  closed : ∀ name n, among name → scope.tree? name = some n → ∀ column ∈ n.columns, among column

end Scope

namespace Tally

variable {scope scope' : Scope} {among : String → Prop}
  {descend descend' : List Step → Tally → Tally}

/-- Whether going through trees that are the same apart from ids, with columns among some names,
keeps tallies the same apart from records. -/
def InStep (among : String → Prop) (descend descend' : List Step → Tally → Tally) : Prop :=
  ∀ ⦃n n' : Node⦄ ⦃t t' : Tally⦄, n.unnumbered = n'.unnumbered →
    (∀ column ∈ n.columns, among column) → t.unrecorded = t'.unrecorded →
      (descend (steps n) t).unrecorded = (descend' (steps n') t').unrecorded

/-- One step keeps tallies the same apart from records. -/
theorem step_inStep (h : scope.Agree scope' among) (below : InStep among descend descend')
    {t t' : Tally} (ht : t.unrecorded = t'.unrecorded) {s s' : Step}
    (hs : s.unnumbered = s'.unnumbered) (hname : ∀ name, s = .reference name → among name) :
    (t.step scope descend s).unrecorded = (t'.step scope' descend' s').unrecorded := by
  have met : (t.meet scope s).unrecorded = (t'.meet scope' s').unrecorded := by
    rw [meet_unrecorded, meet_unrecorded, ht, hs, h.mode]
  have following : t.unrecorded.following = t'.unrecorded.following := by rw [ht]
  change t.following = t'.following at following
  have names : t.unrecorded.seenNames = t'.unrecorded.seenNames := by rw [ht]
  change t.seenNames = t'.seenNames at names
  by_cases stops : scope.Stops t.following s
  · have stops' : scope'.Stops t'.following s' := by
      rintro name n' rfl hn'
      obtain rfl : s = .reference name := by cases s <;> cases hs; rfl
      have trees := h.tree name (hname name rfl)
      rw [hn'] at trees
      obtain ⟨n, hn, -⟩ := Option.map_eq_some_iff.1 trees
      exact following ▸ stops name n rfl hn
    rw [step_eq_meet _ stops, step_eq_meet _ stops', met]
  · obtain ⟨name, n, rfl, hn, fresh⟩ := Scope.exists_of_not_stops stops
    obtain rfl : s' = .reference name := by cases s' <;> cases hs; rfl
    have trees := h.tree name (hname name rfl)
    rw [hn] at trees
    obtain ⟨n', hn', same⟩ := Option.map_eq_some_iff.1 trees.symm
    rw [step_follow _ hn fresh, step_follow _ hn' (following ▸ fresh), names, h.mode, following]
    split
    · exact ht
    · have entered :
          { t.meet scope (.reference name) with
              following := name :: t'.following }.enter.unrecorded =
            { t'.meet scope' (.reference name) with
              following := name :: t'.following }.enter.unrecorded :=
        congrArg (fun u : Tally => { u with following := name :: t'.following }.enter) met
      have done := below same.symm (h.closed name n (hname name rfl) hn) entered
      exact congrArg (fun u : Tally => { u.leave with following := t'.following }) done

theorem foldl_inStep (h : scope.Agree scope' among) (below : InStep among descend descend')
    {σ : List Step} : ∀ {σ' : List Step} {t t' : Tally},
      σ.map Step.unnumbered = σ'.map Step.unnumbered → (∀ name, .reference name ∈ σ → among name) →
      t.unrecorded = t'.unrecorded →
      (σ.foldl (step scope descend) t).unrecorded =
        (σ'.foldl (step scope' descend') t').unrecorded := by
  induction σ with
  | nil =>
    intro σ' t t' hσ _ ht
    rw [List.map_eq_nil_iff.1 hσ.symm]
    exact ht
  | cons s σ ih =>
    intro σ' t t' hσ hname ht
    obtain ⟨s', rest, rfl, hs, hrest⟩ := List.map_eq_cons_iff.1 hσ.symm
    have first := step_inStep h below ht hs.symm fun name e => hname name (e ▸ List.mem_cons_self)
    rw [List.foldl_cons, List.foldl_cons]
    exact ih hrest.symm (fun name hmem => hname name (List.mem_cons_of_mem _ hmem)) first

/-- Whatever the budget, runs in scopes that agree stay in step. -/
theorem run_inStep (h : scope.Agree scope' among) (budget : Nat) :
    InStep among (run scope budget) (run scope' budget) := by
  -- each run goes through the steps with what the budget leaves below
  have all {descend descend' : List Step → Tally → Tally} (below : InStep among descend descend') :
      InStep among (fun σ t => σ.foldl (step scope descend) t)
        (fun σ t => σ.foldl (step scope' descend') t) := by
    intro n n' t t' hn hcolumns ht
    refine foldl_inStep h below ?_ (fun name hmem => hcolumns name (reference_mem_steps.1 hmem)) ht
    rw [← steps_unnumbered, ← steps_unnumbered, hn]
  induction budget with
  | zero => exact all fun _ _ _ _ _ _ ht => ht
  | succ budget ih => exact all ih

end Tally

/-! ## Totals -/

/-- The report without its records. -/
def Report.totals (r : Report) : Report := { r with dependencies := [] }

/-- What a report on an expression, or on others that refer to it, looks at. -/
def aspect (e : Expression) : ExpressionKind × String × Option Node :=
  (e.kind, e.name, e.tree?.map Node.unnumbered)

namespace Scope

variable {scope scope' : Scope} {among : String → Prop}

/-- Scopes that agree on the names a tree leads to find the same totals. -/
theorem Agree.report (h : scope.Agree scope' among) (own : Option String) {n n' : Node}
    (hn : n.unnumbered = n'.unnumbered) (hcolumns : ∀ column ∈ n.columns, among column) :
    (scope.report own n).totals = (scope'.report own n').totals := by
  unfold Scope.report
  rw [← h.length]
  exact congrArg Tally.report (Tally.run_inStep h _ hn hcolumns rfl)

/-- So they do for an expression that was read. -/
theorem Agree.analyze (h : scope.Agree scope' among) {e e' : Expression}
    (he : aspect e = aspect e')
    (hcolumns : ∀ n, e.tree? = some n → ∀ column ∈ n.columns, among column) :
    (scope.analyze e).map Report.totals = (scope'.analyze e').map Report.totals := by
  simp only [aspect, Prod.mk.injEq] at he
  obtain ⟨hkind, hname, htree⟩ := he
  unfold Scope.analyze
  rw [← hkind, ← hname]
  cases hn : e.tree? with
  | none =>
    rw [hn] at htree
    rw [Option.map_eq_none_iff.1 htree.symm]
    rfl
  | some n =>
    rw [hn] at htree
    obtain ⟨n', hn', same⟩ := Option.map_eq_some_iff.1 htree.symm
    rw [hn']
    exact congrArg some (h.report _ same.symm (hcolumns n hn))

theorem map_tree? (scope : Scope) (name : String) : (scope.tree? name).map Node.unnumbered =
    if (scope.parameters.get? name).isSome then none
    else ((scope.expressions.map aspect).find? fun a =>
      a.1 == .calculatedField && a.2.1 == name).bind (·.2.2) := by
  have found : ((scope.expressions.map aspect).find? fun a =>
      a.1 == .calculatedField && a.2.1 == name) =
        (scope.find? .calculatedField name).map aspect := List.find?_map ..
  rw [found]
  unfold tree? target? referent
  cases scope.parameters.get? name with
  | some value => rfl
  | none =>
    cases scope.find? .calculatedField name with
    | some e => rfl
    | none => cases scope.find? .field name <;> rfl

/-- Scopes agree on names if they agree on the parameters and the calculated fields that these names
are looked up as. -/
theorem Agree.of_aspects (mode : scope.mode = scope'.mode)
    (length : scope.expressions.length = scope'.expressions.length)
    (keys : ∀ name, (scope.parameters.get? name).isSome = (scope'.parameters.get? name).isSome)
    (fields : ∀ name, among name →
      ((scope.expressions.map aspect).find? fun a => a.1 == .calculatedField && a.2.1 == name) =
        (scope'.expressions.map aspect).find? fun a => a.1 == .calculatedField && a.2.1 == name)
    (closed : ∀ name n, among name → scope.tree? name = some n →
      ∀ column ∈ n.columns, among column) : scope.Agree scope' among where
  mode
  length
  tree name hname := by rw [map_tree?, map_tree?, keys, fields name hname]
  closed

end Scope

end DashCalc.Cost
