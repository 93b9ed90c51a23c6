import DashCalc.Proofs.Cost.Balance
import DashCalc.Proofs.Cost.Follow
import DashCalc.Proofs.Node.Numbering
import DashCalc.Proofs.Request.Accounting

/-!
# Chains of an analysed request

The chain of a calculated field starts with the field itself, at its cost, and then lists what the
field depends on. In the deduplicated mode, this cost is that of the calls in the rest of the chain
(`Request.chain_accounts`), whatever the fields refer to.

The trees of a request get their ids from one counter, so no id stands at two places of any of them
(`Request.nodup_ids`), and charges and records balance. The field was costed in the scope of the
request before costs were known, and the chain is made afterwards, which makes no difference for the
totals.
-/

namespace DashCalc

namespace Expression

/-- The ids of the places of the tree, if the formula was read. -/
def ids (e : Expression) : List NodeId :=
  (e.tree?.map fun n => n.places.map Node.Place.id).getD []

theorem ids_of_tree? {e : Expression} {n : Node} (h : e.tree? = some n) :
    e.ids = n.places.map Node.Place.id := by
  unfold ids
  rw [h]
  rfl

/-- Reading takes ids without going back, and the tree has those it takes. -/
theorem ids_read (e : Expression) (taken : Nat) : taken ≤ (e.read taken).2 ∧
    (e.read taken).1.ids.Sublist (idsBetween taken (e.read taken).2) := by
  obtain ⟨hle, hids⟩ := Node.numbers_ofSql (Node.sqlOfFormula e.formula) taken
  unfold read Node.ofFormula
  generalize Node.ofSql (Node.sqlOfFormula e.formula) taken = result at hle hids ⊢
  obtain ⟨refusal | n, last⟩ := result
  · exact ⟨hle, List.nil_sublist _⟩
  · refine ⟨hle, ?_⟩
    rw [← hids n rfl]
    exact List.Sublist.refl _

/-- The calls among the steps of the tree have ids of the tree. -/
theorem callIds_sublist {e : Expression} {n : Node} (h : e.tree? = some n) :
    (Cost.callIds (Cost.steps n)).Sublist e.ids := by
  have among (ps : List Node.Place) : ((ps.filterMap Node.Place.node?).filterMap
      Node.callId?).Sublist (ps.map Node.Place.id) := by
    induction ps with
    | nil => exact List.Sublist.slnil
    | cons p ps ih =>
      cases p with
      | node n =>
        cases n with
        | call => exact ih.cons_cons _
        | _ => exact ih.cons _
      | key k => exact ih.cons _
  rw [Cost.callIds_steps, Node.nodes_eq, ids_of_tree? h]
  exact among n.places

end Expression

namespace Request

open Cost (Scope callIds steps)

/-! ## Ids of a request -/

section Reading

variable (calculated : List String)

theorem ids_readOne {e : Expression} (unread : e.reading = .unread) (taken : Nat) :
    taken ≤ (readOne calculated e taken).2 ∧
      (readOne calculated e taken).1.ids.Sublist
        (idsBetween taken (readOne calculated e taken).2) := by
  have none : e.ids = [] := by
    unfold Expression.ids Expression.tree?
    rw [unread]
    rfl
  unfold readOne
  split
  · exact ⟨Nat.le_refl taken, none ▸ List.nil_sublist _⟩
  · split
    · exact ⟨Nat.le_refl taken, none ▸ List.nil_sublist _⟩
    · exact e.ids_read taken

/-- Expressions read one after the other have ids that were taken for them, in their order. -/
theorem ids_readAll (expressions : List Expression) : ∀ taken : Nat,
    (∀ e ∈ expressions, e.reading = .unread) → taken ≤ (readAll calculated expressions taken).2 ∧
      ((readAll calculated expressions taken).1.flatMap Expression.ids).Sublist
        (idsBetween taken (readAll calculated expressions taken).2) := by
  induction expressions with
  | nil => exact fun taken _ => ⟨Nat.le_refl taken, List.nil_sublist _⟩
  | cons e rest ih =>
    intro taken unread
    obtain ⟨hfirst, hrest⟩ := List.forall_mem_cons.1 unread
    obtain ⟨hle, hids⟩ := ids_readOne calculated hfirst taken
    obtain ⟨hle', hids'⟩ := ih (readOne calculated e taken).2 hrest
    refine ⟨hle.trans hle', ?_⟩
    show ((readOne calculated e taken).1.ids ++ _).Sublist _
    rw [readAll, ← idsBetween_append hle hle']
    exact hids.append hids'

end Reading

variable (links : Catalog.DocLinks) (mode : Cost.Mode) (r : Request) (taken : Nat)

/-- No id stands at two places of the trees of a request. -/
theorem nodup_ids (small : (r.analyze links mode taken).2 ≤ UInt32.size) :
    ((r.analyze links mode taken).1.expressions.flatMap Expression.ids).Nodup := by
  have same (scope : Scope) (e : Expression) : (outcome scope e).ids = e.ids := by
    unfold Expression.ids Expression.tree?
    rw [reading_outcome]
  obtain ⟨-, hids⟩ := ids_readAll (calculatedNames r.expressions) r.expressions taken
    fun e he => (untouched_of_mem he).reading
  rw [analyze_expressions, List.flatMap_map]
  simp only [same]
  exact hids.nodup (Node.nodup_idsBetween small)

/-! ## Scopes without repeated ids -/

section Scopes

variable {scope : Scope} (distinct : (scope.expressions.flatMap Expression.ids).Nodup)
include distinct

theorem nodup_callIds {e : Expression} {n : Node} (he : e ∈ scope.expressions)
    (hn : e.tree? = some n) : (callIds (steps n)).Nodup :=
  (Expression.callIds_sublist hn).nodup ((List.nodup_flatMap.1 distinct).1 e he)

/-- Expressions of different names have no call id in common. -/
theorem disjoint_callIds {e e' : Expression} {n n' : Node} (he : e ∈ scope.expressions)
    (he' : e' ∈ scope.expressions) (hn : e.tree? = some n) (hn' : e'.tree? = some n')
    (hname : e.name ≠ e'.name) : List.Disjoint (callIds (steps n)) (callIds (steps n')) := by
  have : Std.Symm (Function.onFun List.Disjoint Expression.ids) := ⟨fun _ _ h => h.symm⟩
  have apart : List.Disjoint e.ids e'.ids :=
    (List.nodup_flatMap.1 distinct).2.forall he he' fun same => hname (congrArg _ same)
  intro id hid hid'
  exact apart ((Expression.callIds_sublist hn).subset hid)
    ((Expression.callIds_sublist hn').subset hid')

theorem separate_of_nodup : scope.Separate where
  nodup name n hn := by
    obtain ⟨e, he, hn⟩ := Scope.tree?_eq_some.1 hn
    exact nodup_callIds distinct (Scope.find?_eq_some (Scope.target?_eq_some.1 he).2).1 hn
  apart name n other m hn hm hname := by
    obtain ⟨e, he, htree⟩ := Scope.tree?_eq_some.1 hn
    obtain ⟨e', he', htree'⟩ := Scope.tree?_eq_some.1 hm
    obtain ⟨hmem, -, rfl⟩ := Scope.find?_eq_some (Scope.target?_eq_some.1 he).2
    obtain ⟨hmem', -, rfl⟩ := Scope.find?_eq_some (Scope.target?_eq_some.1 he').2
    exact disjoint_callIds distinct hmem hmem' htree htree' hname

/-- The cost of a calculated field is that of the calls which its report records. -/
theorem totalCost_eq_callCost (hmode : scope.mode = .deduplicated) {e : Expression} {n : Node}
    (he : e ∈ scope.expressions) (hn : e.tree? = some n) :
    (scope.report (some e.name) n).totalCost =
      Cost.callCost (scope.report (some e.name) n).dependencies := by
  refine Scope.totalCost_eq_callCost hmode (separate_of_nodup distinct)
    (nodup_callIds distinct he hn) fun name m hm hname => ?_
  obtain ⟨e', he', htree⟩ := Scope.tree?_eq_some.1 hm
  obtain ⟨hmem', -, rfl⟩ := Scope.find?_eq_some (Scope.target?_eq_some.1 he').2
  exact disjoint_callIds distinct he hmem' hn htree fun same => hname (congrArg some same)

end Scopes

/-! ## Chains -/

/-- The scope of the expressions of an analysed request. -/
def analyzedScope : Scope :=
  ⟨(r.analyze links mode taken).1.expressions, r.parameters, links, mode⟩

theorem expressions_analyzedScope : (r.analyzedScope links mode taken).expressions =
    (r.analyze links mode taken).1.expressions := by
  unfold analyzedScope
  dsimp only

theorem mode_analyzedScope : (r.analyzedScope links mode taken).mode = mode := by
  unfold analyzedScope
  rfl

theorem aspect_outcome (scope : Scope) (e : Expression) :
    Cost.aspect (outcome scope e) = Cost.aspect e := by
  obtain ⟨_, _, _, _, h⟩ := outcome_sets scope e
  rw [h]
  rfl

/-- Analysed expressions have the trees that were read. -/
theorem agree_analyzedScope : (r.analyzedScope links mode taken).Agree
    (r.readScope links mode taken) fun _ => True := by
  have read : (r.analyzedScope links mode taken).expressions =
      (r.readScope links mode taken).expressions.map (outcome (r.readScope links mode taken)) := by
    rw [expressions_analyzedScope, analyze_expressions]
  refine .of_aspects rfl ?_ (fun _ => rfl) (fun name _ => ?_) fun _ _ _ _ _ _ => trivial
  · rw [read, List.length_map]
  · rw [read, List.map_map]
    simp only [Function.comp_def, aspect_outcome]

theorem analyze_calculatedField {scope : Scope} {e : Expression} {n : Node}
    (hkind : e.kind = .calculatedField) (hn : e.tree? = some n) :
    scope.analyze e = some (scope.report (some e.name) n) := by
  rw [Scope.analyze_eq_report hn]
  unfold Scope.ownName
  rw [hkind]
  rfl

/-- A calculated field that was read costs and nests what its report among the results says. -/
theorem costs_as_reported {f : Expression} {n : Node}
    (hf : f ∈ (r.analyze links mode taken).1.expressions) (hkind : f.kind = .calculatedField)
    (hn : f.tree? = some n) :
    f.cost = some ((r.analyzedScope links mode taken).report (some f.name) n).totalCost ∧
      f.maxDepth = some ((r.analyzedScope links mode taken).report (some f.name) n).maxDepth := by
  have agree := agree_analyzedScope links mode r taken
  rw [analyze_expressions] at hf
  obtain ⟨e, -, rfl⟩ := List.mem_map.1 hf
  generalize r.analyzedScope links mode taken = analyzed at agree ⊢
  generalize r.readScope links mode taken = read at agree hkind hn ⊢
  have own : ¬ e.isCustomMetric = true := by
    obtain ⟨_, _, _, _, sets⟩ := outcome_sets read e
    rw [sets] at hkind
    unfold Expression.isCustomMetric
    rw [show e.kind = .calculatedField from hkind]
    exact Bool.false_ne_true
  -- the cost was found before the costs of others were known, which the totals do not depend on
  have totals := agree.analyze (aspect_outcome read e) fun _ _ _ _ => trivial
  rw [analyze_calculatedField hkind hn] at totals
  obtain ⟨report, hreport, same⟩ := Option.map_eq_some_iff.1 totals.symm
  have sets : (outcome read e).cost = some report.totalCost ∧
      (outcome read e).maxDepth = some report.maxDepth := by
    rw [outcome_of_not_isCustomMetric own]
    unfold costed
    rw [hreport]
    exact ⟨rfl, rfl⟩
  have totalCost := congrArg Cost.Report.totalCost same
  have maxDepth := congrArg Cost.Report.maxDepth same
  exact ⟨sets.1.trans (congrArg some totalCost), sets.2.trans (congrArg some maxDepth)⟩

theorem callCost_deeper (ds : List Cost.Dependency) :
    Cost.callCost (ds.map fun d => { d with level := d.level + 1 }) = Cost.callCost ds := by
  unfold Cost.callCost
  rw [List.filter_map, List.map_map]
  rfl

theorem chain_calculatedField {scope : Scope} {e : Expression} {n : Node} {cost : Nat}
    (hkind : e.kind = .calculatedField) (hn : e.tree? = some n) (hcost : e.cost = some cost) :
    scope.chain e = ⟨e.name, .calculatedField, e.formula, cost, 0, none⟩ ::
      (scope.report (some e.name) n).dependencies.map fun d => { d with level := d.level + 1 } := by
  unfold Scope.chain
  rw [hkind, analyze_calculatedField hkind hn, hcost]
  rfl

/-- Whether a chain has an expression at level zero, at its cost, and below it calls that cost as
much together. -/
def AccountsFor (chain : List Cost.Dependency) (e : Expression) : Prop :=
  ∃ root rest, chain = root :: rest ∧ root.level = 0 ∧ root.kind = .calculatedField ∧
    root.name = e.name ∧ e.cost = some root.cost ∧ (∀ d ∈ rest, 0 < d.level) ∧
    root.cost = Cost.callCost rest

theorem accountsFor_of_nodup {scope : Scope} {e : Expression} {n : Node}
    (distinct : (scope.expressions.flatMap Expression.ids).Nodup)
    (hmode : scope.mode = .deduplicated) (he : e ∈ scope.expressions)
    (hkind : e.kind = .calculatedField) (hn : e.tree? = some n)
    (hcost : e.cost = some (scope.report (some e.name) n).totalCost) :
    AccountsFor (scope.chain e) e := by
  refine ⟨_, _, chain_calculatedField hkind hn hcost, rfl, rfl, rfl, hcost, fun d hd => ?_, ?_⟩
  · obtain ⟨d, -, rfl⟩ := List.mem_map.1 hd
    exact Nat.succ_pos d.level
  · rw [callCost_deeper]
    exact totalCost_eq_callCost distinct hmode he hn

/-- **A chain accounts for its root.** In the deduplicated mode, the chain of a calculated field
that was read has the field at level zero, at its cost, and below it calls that cost as much
together, even if calculated fields refer to each other, share names or have windows. -/
theorem chain_accounts (small : (r.analyze links .deduplicated taken).2 ≤ UInt32.size) :
    ∀ f ∈ (r.analyze links .deduplicated taken).1.expressions, f.kind = .calculatedField →
      f.isRead = true → AccountsFor ((r.analyzedScope links .deduplicated taken).chain f) f := by
  intro f hf hkind hread
  obtain ⟨n, hn⟩ := Option.isSome_iff_exists.1 hread
  have distinct := nodup_ids links .deduplicated r taken small
  have cost := (costs_as_reported links .deduplicated r taken hf hkind hn).1
  rw [← expressions_analyzedScope] at distinct hf
  exact accountsFor_of_nodup distinct (mode_analyzedScope ..) hf hkind hn cost

/-- A rank by a field that refers back to the rank. -/
def rankedRequest : Request where
  calculatedFields := [⟨"a", some "rank([max(b)])", none⟩, ⟨"b", some "max(a)", none⟩]

theorem chain_accounts_ranked :
    (rankedRequest.analyze .off .deduplicated 0).2 ≤ UInt32.size ∧
      ∃ f ∈ (rankedRequest.analyze .off .deduplicated 0).1.expressions, f.name = "a" ∧
        f.kind = .calculatedField ∧ f.isRead = true ∧
        AccountsFor ((rankedRequest.analyzedScope .off .deduplicated 0).chain f) f := by
  have read : (rankedRequest.analyze .off .deduplicated 0).2 ≤ UInt32.size ∧
      (rankedRequest.analyze .off .deduplicated 0).1.expressions.any (fun f =>
        f.name == "a" && f.kind == .calculatedField && f.isRead) = true := by
    decide +kernel
  obtain ⟨small, found⟩ := read
  obtain ⟨f, hf, hfound⟩ := List.any_eq_true.1 found
  simp only [Bool.and_eq_true, beq_iff_eq] at hfound
  obtain ⟨⟨name, hkind⟩, hread⟩ := hfound
  exact ⟨small, f, hf, name, hkind, hread,
    chain_accounts .off rankedRequest 0 small f hf hkind hread⟩

end Request

end DashCalc
