import DashCalc.Proofs.Cost.Additivity
import DashCalc.Proofs.Cost.Deduplication
import DashCalc.Proofs.Node.Parts

/-!
# The records of a tree and its nodes

Where no calculated field can be followed, costing a tree meets its nodes in the order of
`Node.nodes` and nothing else, but for one thing: when a sort key or a partition of a window is
done, its root is met again. `visits` lists what is met, `Round` says how visits go together with
nodes and steps, and every tree goes by it (`round`).

So the records are those of the calls and columns among the nodes (`Scope.report_covers`). The
exhaustive mode has one more of each entry of a window. The deduplicated mode has the first one of
each key, and with different ids that is every call.
-/

namespace DashCalc.Cost

open Node (nodes nodesOfList nodesOf? nodesOfCases nodesOfWindow? nodesOfKeys nodesOfFrame?
  nodesOfBound nodesOfBound?)
open Sql (Bound Frame Window)

/-! ## Visits -/

/-- A node that is met on the way through a tree. -/
inductive Visit
  | first (n : Node)
  /-- The root of an entry of a window, right after the entry. -/
  | again (n : Node)

namespace Visit

def node : Visit → Node
  | first n => n
  | again n => n

def first? : Visit → Option Node
  | first n => some n
  | again _ => none

def isFirst (v : Visit) : Bool := v.first?.isSome

end Visit

mutual

/-- The visits of a tree: a node comes before its parts, as in `Node.nodes`, and each sort key and
each partition of a window comes again. -/
def visits : Node → List Visit
  | .binary id operator left right =>
    .first (.binary id operator left right) :: (visits left ++ visits right)
  | .unary id operator operand => .first (.unary id operator operand) :: visits operand
  | .call id aggregate name arguments window =>
    .first (.call id aggregate name arguments window) ::
      (visitsOfList arguments ++ visitsOfWindow? window)
  | .list id items => .first (.list id items) :: visitsOfList items
  | .branches id operand cases otherwise =>
    .first (.branches id operand cases otherwise) ::
      (visitsOf? operand ++ visitsOfCases cases ++ visitsOf? otherwise)
  | .column id table name => [.first (.column id table name)]
  | .number id digits => [.first (.number id digits)]
  | .text id value => [.first (.text id value)]
  | .bool id value => [.first (.bool id value)]
  | .null id => [.first (.null id)]
  | .star id => [.first (.star id)]

def visitsOfList : List Node → List Visit
  | [] => []
  | n :: ns => visits n ++ visitsOfList ns

def visitsOf? : Option Node → List Visit
  | none => []
  | some n => visits n

def visitsOfCases : List (Node × Node) → List Visit
  | [] => []
  | (condition, result) :: cases => visits condition ++ visits result ++ visitsOfCases cases

def visitsOfWindow? : Option (Window (SortKey Node) Node) → List Visit
  | none => []
  | some ⟨sortKeys, partitions, frame⟩ =>
    visitsOfKeys sortKeys ++ visitsOfPartitions partitions ++ visitsOfFrame? frame

def visitsOfKeys : List (SortKey Node) → List Visit
  | [] => []
  | ⟨_, expr, _⟩ :: keys => visits expr ++ [.again expr] ++ visitsOfKeys keys

def visitsOfPartitions : List Node → List Visit
  | [] => []
  | n :: ns => visits n ++ [.again n] ++ visitsOfPartitions ns

def visitsOfFrame? : Option (Frame Node) → List Visit
  | none => []
  | some ⟨_, start, stop⟩ => visitsOfBound start ++ visitsOfBound? stop

def visitsOfBound : Bound Node → List Visit
  | .currentRow => []
  | .preceding offset => visitsOf? offset
  | .following offset => visitsOf? offset

def visitsOfBound? : Option (Bound Node) → List Visit
  | none => []
  | some bound => visitsOfBound bound

end

/-! ## The round -/

/-- How nodes, visits and steps go together. -/
inductive Round : List Node → List Visit → List Step → Prop
  | nil : Round [] [] []
  | append {ns ms : List Node} {vs ws : List Visit} {σ τ : List Step} :
    Round ns vs σ → Round ms ws τ → Round (ns ++ ms) (vs ++ ws) (σ ++ τ)
  | column (id : NodeId) (table : Option String) (name : String) :
    Round [.column id table name] [.first (.column id table name)]
      [.reference (Node.columnAlias table name)]
  | plain {ns : List Node} {vs : List Visit} {σ : List Step} (n : Node) :
    n.function? = none → n.column? = none → Round ns vs σ → Round (n :: ns) (.first n :: vs) σ
  | call {ns : List Node} {vs : List Visit} {σ : List Step} (id : NodeId) (aggregate : Bool)
    (name : String) (arguments : List Node) (window : Option (Window (SortKey Node) Node)) :
    Round ns vs σ → Round (.call id aggregate name arguments window :: ns)
      (.first (.call id aggregate name arguments window) :: vs) (.call id aggregate name :: σ)
  | nest {ns : List Node} {vs : List Visit} {σ : List Step} :
    Round ns vs σ → Round ns vs (.deeper :: (σ ++ [.shallower]))
  | again {n : Node} {vs : List Visit} {σ : List Step} :
    Round n.nodes vs σ → Round n.nodes (vs ++ [.again n]) (σ ++ again n)

mutual

/-- Every tree goes by the round. -/
theorem round : ∀ n : Node, Round n.nodes (visits n) (steps n)
  | .binary _ _ left right => .plain _ rfl rfl (.append (round left) (round right))
  | .unary _ _ operand => .plain _ rfl rfl (round operand)
  | .call id aggregate name arguments window =>
    .call id aggregate name arguments window
      (.nest (.append (roundOfList arguments) (roundOfWindow? window)))
  | .column id table name => .column id table name
  | .list _ items => .plain _ rfl rfl (roundOfList items)
  | .branches _ operand cases otherwise =>
    .plain _ rfl rfl
      (.append (.append (roundOf? operand) (roundOfCases cases)) (roundOf? otherwise))
  | .number _ _ => .plain _ rfl rfl .nil
  | .text _ _ => .plain _ rfl rfl .nil
  | .bool _ _ => .plain _ rfl rfl .nil
  | .null _ => .plain _ rfl rfl .nil
  | .star _ => .plain _ rfl rfl .nil

theorem roundOfList : ∀ ns : List Node,
    Round (nodesOfList ns) (visitsOfList ns) (stepsOfList ns)
  | [] => .nil
  | n :: ns => .append (round n) (roundOfList ns)

theorem roundOf? : ∀ n : Option Node, Round (nodesOf? n) (visitsOf? n) (stepsOf? n)
  | none => .nil
  | some n => round n

theorem roundOfCases : ∀ cases : List (Node × Node),
    Round (nodesOfCases cases) (visitsOfCases cases) (stepsOfCases cases)
  | [] => .nil
  | (condition, result) :: cases =>
    .append (.append (round condition) (round result)) (roundOfCases cases)

theorem roundOfWindow? : ∀ w : Option (Window (SortKey Node) Node),
    Round (nodesOfWindow? w) (visitsOfWindow? w) (stepsOfWindow? w)
  | none => .nil
  | some ⟨sortKeys, partitions, frame⟩ =>
    .append (.append (roundOfKeys sortKeys) (roundOfPartitions partitions)) (roundOfFrame? frame)

theorem roundOfKeys : ∀ keys : List (SortKey Node),
    Round (nodesOfKeys keys) (visitsOfKeys keys) (stepsOfKeys keys)
  | [] => .nil
  | ⟨_, expr, _⟩ :: keys => by
    have h := Round.append (.again (.nest (round expr))) (roundOfKeys keys)
    simpa [nodesOfKeys, visitsOfKeys, stepsOfKeys] using h

theorem roundOfPartitions : ∀ ns : List Node,
    Round (nodesOfList ns) (visitsOfPartitions ns) (stepsOfPartitions ns)
  | [] => .nil
  | n :: ns => .append (.again (round n)) (roundOfPartitions ns)

theorem roundOfFrame? : ∀ frame : Option (Frame Node),
    Round (nodesOfFrame? frame) (visitsOfFrame? frame) (stepsOfFrame? frame)
  | none => .nil
  | some ⟨_, start, stop⟩ => .append (roundOfBound start) (roundOfBound? stop)

theorem roundOfBound : ∀ bound : Bound Node,
    Round (nodesOfBound bound) (visitsOfBound bound) (stepsOfBound bound)
  | .currentRow => .nil
  | .preceding offset => roundOf? offset
  | .following offset => roundOf? offset

theorem roundOfBound? : ∀ bound : Option (Bound Node),
    Round (nodesOfBound? bound) (visitsOfBound? bound) (stepsOfBound? bound)
  | none => .nil
  | some bound => roundOfBound bound

end

namespace Round

variable {ns : List Node} {vs : List Visit} {σ : List Step}

/-- The first visits are the nodes, in their order. -/
theorem nodes (h : Round ns vs σ) : vs.filterMap Visit.first? = ns := by
  induction h with
  | nil => rfl
  | append _ _ ih ih' => rw [List.filterMap_append, ih, ih']
  | column id table name => rfl
  | plain n _ _ _ ih => exact congrArg (n :: ·) ih
  | call id aggregate name arguments window _ ih => exact congrArg (_ :: ·) ih
  | nest _ ih => exact ih
  | again _ ih =>
    rw [List.filterMap_append, ih]
    exact List.append_nil _

/-- What is visited, for the first time or again, are the nodes. -/
theorem mem_iff (h : Round ns vs σ) (n : Node) : (∃ v ∈ vs, v.node = n) ↔ n ∈ ns := by
  constructor
  · rintro ⟨v, hv, rfl⟩
    induction h with
    | nil => exact absurd hv List.not_mem_nil
    | append _ _ ih ih' => exact List.mem_append.2 ((List.mem_append.1 hv).imp ih ih')
    | column id table name =>
      obtain rfl := List.mem_singleton.1 hv
      exact List.mem_cons_self
    | plain n _ _ _ ih =>
      rcases List.mem_cons.1 hv with rfl | hv
      · exact List.mem_cons_self
      · exact List.mem_cons_of_mem _ (ih hv)
    | call id aggregate name arguments window _ ih =>
      rcases List.mem_cons.1 hv with rfl | hv
      · exact List.mem_cons_self
      · exact List.mem_cons_of_mem _ (ih hv)
    | nest _ ih => exact ih hv
    | again _ ih =>
      rcases List.mem_append.1 hv with hv | hv
      · exact ih hv
      · obtain rfl := List.mem_singleton.1 hv
        exact Node.mem_nodes_self _
  · intro hn
    rw [← h.nodes] at hn
    obtain ⟨v, hv, hfirst⟩ := List.mem_filterMap.1 hn
    cases v <;> cases hfirst
    exact ⟨_, hv, rfl⟩

end Round

/-! ## Records without their levels -/

/-- A record, wherever it was made. -/
def Dependency.unlevelled (d : Dependency) : Dependency := { d with level := 0 }

def Entry.unlevelled (e : Entry) : Entry := ⟨e.key, e.dependency.unlevelled⟩

def Key.isCall : Key → Bool
  | call _ => true
  | name _ => false

namespace Scope

/-- The record of a call. -/
def callRecord? (scope : Scope) : Node → Option Dependency
  | .call _ aggregate name _ _ => some (scope.callRecord 0 aggregate name)
  | _ => none

/-- The record of a call or a column. -/
def recordOf? (scope : Scope) : Node → Option Dependency
  | .call _ aggregate name _ _ => some (scope.callRecord 0 aggregate name)
  | .column _ table name => some (scope.referenceRecord 0 (Node.columnAlias table name))
  | _ => none

/-- The record of a call or a column, with its key. -/
def entryOfNode? (scope : Scope) : Node → Option Entry
  | .call id aggregate name _ _ => some ⟨.call id, scope.callRecord 0 aggregate name⟩
  | .column _ table name =>
    some ⟨.name (Node.columnAlias table name),
      scope.referenceRecord 0 (Node.columnAlias table name)⟩
  | _ => none

variable {scope : Scope}

theorem map_dependency_entryOfNode? (n : Node) :
    (scope.entryOfNode? n).map Entry.dependency = scope.recordOf? n := by
  cases n <;> rfl

theorem entryOfNode?_plain {n : Node} (hf : n.function? = none) (hc : n.column? = none) :
    scope.entryOfNode? n = none := by
  cases n with
  | call => cases hf
  | column => cases hc
  | _ => rfl

theorem referenceRecord_unlevelled (level : Nat) (name : String) :
    (scope.referenceRecord level name).unlevelled = scope.referenceRecord 0 name := by
  unfold referenceRecord
  cases scope.referent name <;> rfl

theorem map_unlevelled_entryOf? (level : Nat) (s : Step) :
    (scope.entryOf? level s).map Entry.unlevelled = scope.entryOf? 0 s := by
  have reference (name : String) :
      some (Entry.unlevelled ⟨.name name, scope.referenceRecord level name⟩) =
        some ⟨.name name, scope.referenceRecord 0 name⟩ := by
    rw [Entry.unlevelled, referenceRecord_unlevelled]
  cases s with
  | reference name => exact reference name
  | referenceAgain name => exact reference name
  | _ => rfl

theorem map_unlevelled_entriesFrom (level : Nat) (σ : List Step) :
    (scope.entriesFrom level σ).map Entry.unlevelled = σ.filterMap (scope.entryOf? 0) := by
  induction σ generalizing level with
  | nil => rfl
  | cons s σ ih =>
    rw [entriesFrom, List.map_append, ih, ← Option.toList_map, map_unlevelled_entryOf?]
    cases hs : scope.entryOf? 0 s with
    | none =>
      rw [List.filterMap_cons_none hs]
      rfl
    | some e =>
      rw [List.filterMap_cons_some hs]
      rfl

end Scope

namespace Round

variable {ns : List Node} {vs : List Visit} {σ : List Step} {scope : Scope}

/-- The entries of the steps are those of the visits. -/
theorem entries (h : Round ns vs σ) :
    σ.filterMap (scope.entryOf? 0) = vs.filterMap (scope.entryOfNode? ·.node) := by
  induction h with
  | nil => rfl
  | append _ _ ih ih' => rw [List.filterMap_append, List.filterMap_append, ih, ih']
  | column id table name => rfl
  | plain n hf hc _ ih =>
    rw [ih, List.filterMap_cons_none]
    exact Scope.entryOfNode?_plain hf hc
  | call id aggregate name arguments window _ ih => exact congrArg (_ :: ·) ih
  | nest _ ih =>
    rw [List.filterMap_cons_none rfl, List.filterMap_append, ih]
    exact List.append_nil _
  | @again n _ _ _ ih =>
    rw [List.filterMap_append, List.filterMap_append, ih]
    cases n <;> rfl

theorem mem_entries (h : Round ns vs σ) (e : Entry) :
    e ∈ vs.filterMap (scope.entryOfNode? ·.node) ↔ e ∈ ns.filterMap scope.entryOfNode? := by
  rw [List.mem_filterMap, List.mem_filterMap]
  constructor
  · rintro ⟨v, hv, he⟩
    exact ⟨v.node, (h.mem_iff _).1 ⟨v, hv, rfl⟩, he⟩
  · rintro ⟨n, hn, he⟩
    obtain ⟨v, hv, rfl⟩ := (h.mem_iff n).2 hn
    exact ⟨v, hv, he⟩

/-- What comes again is not the first entry of its key. -/
theorem firstPerKey_entries (h : Round ns vs σ) (seen : List Key) :
    firstPerKey seen (vs.filterMap (scope.entryOfNode? ·.node)) =
      firstPerKey seen (ns.filterMap scope.entryOfNode?) := by
  induction h generalizing seen with
  | nil => rfl
  | @append ns ms vs ws _ _ h _ ih ih' =>
    have hvisits : ∀ k, k ∈ seen ++ (vs.filterMap (scope.entryOfNode? ·.node)).map Entry.key ↔
        k ∈ seen ∨ k ∈ (vs.filterMap (scope.entryOfNode? ·.node)).map Entry.key :=
      fun _ => List.mem_append
    have hnodes : ∀ k, k ∈ seen ++ (vs.filterMap (scope.entryOfNode? ·.node)).map Entry.key ↔
        k ∈ seen ∨ k ∈ (ns.filterMap scope.entryOfNode?).map Entry.key := by
      intro k
      simp only [List.mem_append, List.mem_map, h.mem_entries]
    rw [List.filterMap_append, List.filterMap_append, firstPerKey_append hvisits,
      firstPerKey_append hnodes, ih, ih']
  | column id table name => rfl
  | plain n hf hc _ ih =>
    have none : scope.entryOfNode? n = none := Scope.entryOfNode?_plain hf hc
    rw [List.filterMap_cons_none none, List.filterMap_cons_none, ih]
    exact none
  | call id aggregate name arguments window _ ih =>
    show firstPerKey seen (⟨_, _⟩ :: _) = firstPerKey seen (⟨_, _⟩ :: _)
    simp only [firstPerKey, ih]
  | nest _ ih => exact ih seen
  | @again n vs _ h ih =>
    rw [List.filterMap_append, firstPerKey_append fun _ => List.mem_append, ih]
    refine (congrArg (_ ++ ·) (firstPerKey_eq_nil ?_)).trans (List.append_nil _)
    intro e he
    obtain ⟨v, hv, hroot⟩ := List.mem_filterMap.1 he
    obtain rfl := List.mem_singleton.1 hv
    refine List.mem_append_right _ (List.mem_map_of_mem ((h.mem_entries e).2 ?_))
    exact List.mem_filterMap.2 ⟨n, n.mem_nodes_self, hroot⟩

end Round

/-! ## First entries -/

theorem map_unlevelled_firstPerKey (seen : List Key) (es : List Entry) :
    (firstPerKey seen es).map Entry.unlevelled = firstPerKey seen (es.map Entry.unlevelled) := by
  induction es generalizing seen with
  | nil => rfl
  | cons e es ih =>
    rw [List.map_cons, firstPerKey, firstPerKey, Entry.unlevelled]
    split
    · exact ih seen
    · exact congrArg (e.unlevelled :: ·) (ih _)

/-- The first entries of certain keys are the first among the entries of these keys. -/
theorem filter_firstPerKey {p : Key → Bool} {seen seen' : List Key}
    (h : ∀ k, p k → (k ∈ seen ↔ k ∈ seen')) (es : List Entry) :
    (firstPerKey seen es).filter (p ∘ Entry.key) =
      firstPerKey seen' (es.filter (p ∘ Entry.key)) := by
  induction es generalizing seen seen' with
  | nil => rfl
  | cons e es ih =>
    by_cases hp : (p ∘ Entry.key) e
    · rw [List.filter_cons_of_pos hp, firstPerKey, firstPerKey]
      by_cases hseen : e.key ∈ seen
      · rw [if_pos hseen, if_pos ((h _ hp).1 hseen), ih h]
      · rw [if_neg hseen, if_neg fun hm => hseen ((h _ hp).2 hm),
          List.filter_cons_of_pos hp]
        refine congrArg (e :: ·) (ih fun k hk => ?_)
        rw [List.mem_cons, List.mem_cons, h k hk]
    · rw [List.filter_cons_of_neg hp, firstPerKey]
      by_cases hseen : e.key ∈ seen
      · rw [if_pos hseen, ih h]
      · rw [if_neg hseen, List.filter_cons_of_neg hp]
        refine ih fun k hk => ?_
        rw [List.mem_cons, h k hk, or_iff_right]
        rintro rfl
        exact hp hk

/-- Where no two entries have the same key, all are first. -/
theorem firstPerKey_eq_self {es : List Entry} (h : (es.map Entry.key).Nodup) {seen : List Key}
    (fresh : ∀ e ∈ es, e.key ∉ seen) : firstPerKey seen es = es := by
  induction es generalizing seen with
  | nil => rfl
  | cons e es ih =>
    obtain ⟨he, hes⟩ := List.nodup_cons.1 h
    rw [firstPerKey, if_neg (fresh e List.mem_cons_self)]
    refine congrArg (e :: ·) (ih hes fun e' he' => ?_)
    rw [List.mem_cons, not_or]
    exact ⟨fun same => he (same ▸ List.mem_map_of_mem he'), fresh e' (List.mem_cons_of_mem e he')⟩

/-- Where entries have names for keys, the first ones are those of the names without repetition. -/
theorem firstPerKey_names (record : String → Dependency) (names seen : List String) :
    firstPerKey (seen.map .name) (names.map fun x => ⟨.name x, record x⟩) =
      (names.filter (· ∉ seen)).eraseDups.map fun x => ⟨.name x, record x⟩ := by
  induction names generalizing seen with
  | nil => simp [firstPerKey]
  | cons x names ih =>
    have mem : Key.name x ∈ seen.map Key.name ↔ x ∈ seen :=
      List.mem_map_of_injective fun _ _ => Key.name.inj
    rw [List.map_cons, firstPerKey]
    by_cases known : x ∈ seen
    · rw [if_pos (mem.2 known), ih, List.filter_cons_of_neg (by simpa using known)]
    · rw [if_neg (mem.not.2 known), List.filter_cons_of_pos (by simpa using known),
        List.eraseDups_cons, List.map_cons, List.filter_filter]
      refine congrArg (_ :: ·) ((ih (x :: seen)).trans ?_)
      refine congrArg (List.map _ <| List.eraseDups ·) (List.filter_congr fun y _ => ?_)
      by_cases same : y = x <;> simp [same]

/-! ## Calls and columns -/

namespace Scope

variable {scope : Scope}

theorem isCall_entryOfNode {n : Node} {e : Entry} (h : scope.entryOfNode? n = some e) :
    e.dependency.isCall = e.key.isCall := by
  cases n with
  | call id aggregate =>
    cases h
    cases aggregate <;> rfl
  | column =>
    cases h
    exact isCall_referenceRecord _ _
  | _ => cases h

/-- The entries of calls, among those of some nodes. -/
theorem map_dependency_filter_call (ns : List Node) :
    ((ns.filterMap scope.entryOfNode?).filter (Key.isCall ∘ Entry.key)).map Entry.dependency =
      ns.filterMap scope.callRecord? := by
  rw [List.filter_filterMap, List.map_filterMap]
  refine List.filterMap_congr fun n _ => ?_
  cases n <;> rfl

/-- The entries of columns, among those of some nodes. -/
theorem filter_name (ns : List Node) :
    (ns.filterMap scope.entryOfNode?).filter ((!·.isCall) ∘ Entry.key) =
      (ns.filterMap Node.column?).map fun x => ⟨.name x, scope.referenceRecord 0 x⟩ := by
  rw [List.filter_filterMap, List.map_filterMap]
  refine List.filterMap_congr fun n _ => ?_
  cases n <;> rfl

theorem callKeys_sublist (ns : List Node) :
    (((ns.filterMap scope.entryOfNode?).filter (Key.isCall ∘ Entry.key)).map Entry.key).Sublist
      (ns.map fun n => .call n.id) := by
  induction ns with
  | nil => exact .slnil
  | cons n ns ih =>
    cases n with
    | call => exact ih.cons_cons _
    | _ => exact ih.cons _

/-- Where no two nodes have the same id, every call is the first of its key. -/
theorem filter_call_firstPerKey {ns : List Node} (distinct : (ns.map Node.id).Nodup) :
    (firstPerKey [] (ns.filterMap scope.entryOfNode?)).filter (Key.isCall ∘ Entry.key) =
      (ns.filterMap scope.entryOfNode?).filter (Key.isCall ∘ Entry.key) := by
  have keys : (ns.map fun n => Key.call n.id).Nodup := by
    rw [← Function.comp_def, ← List.map_map]
    exact distinct.map fun _ _ => Key.call.inj
  rw [filter_firstPerKey fun _ _ => Iff.rfl]
  exact firstPerKey_eq_self (keys.sublist (callKeys_sublist ns)) fun _ _ => List.not_mem_nil

theorem filter_name_firstPerKey (ns : List Node) :
    (firstPerKey [] (ns.filterMap scope.entryOfNode?)).filter ((!·.isCall) ∘ Entry.key) =
      (ns.filterMap Node.column?).eraseDups.map fun x => ⟨.name x, scope.referenceRecord 0 x⟩ := by
  have names := firstPerKey_names (scope.referenceRecord 0) (ns.filterMap Node.column?) []
  rw [List.filter_eq_self.2 fun _ _ => by simp] at names
  rw [filter_firstPerKey fun _ _ => Iff.rfl, filter_name]
  exact names

/-! ## Reports -/

theorem tree?_eq_none (plain : ∀ e ∈ scope.expressions, e.kind ≠ .calculatedField)
    (name : String) : scope.tree? name = none := by
  rw [Option.eq_none_iff_forall_not_mem]
  intro n hn
  obtain ⟨e, he, -⟩ := tree?_eq_some.1 hn
  obtain ⟨hmem, hkind, -⟩ := find?_eq_some (target?_eq_some.1 he).2
  exact plain e hmem hkind

/-- Without calculated fields, the entries of a tree are those of its visits. -/
theorem map_unlevelled_entries (plain : ∀ e ∈ scope.expressions, e.kind ≠ .calculatedField)
    (own : Option String) (n : Node) :
    (scope.entries own n).map Entry.unlevelled =
      (visits n).filterMap (scope.entryOfNode? ·.node) := by
  rw [entries, trail, unroll_eq_self _ fun name _ => tree?_eq_none plain name,
    map_unlevelled_entriesFrom, (round n).entries]

/-- The visits of calls and columns, each with its record. -/
def recorded (scope : Scope) (n : Node) : List (Visit × Dependency) :=
  (visits n).filterMap fun v => (scope.recordOf? v.node).map (v, ·)

/-- The records without those of the entries of windows that come again. -/
def firstRecords (scope : Scope) (n : Node) : List Dependency :=
  ((scope.recorded n).filter (·.1.isFirst)).map Prod.snd

theorem firstRecords_eq (n : Node) :
    scope.firstRecords n = (n.nodes.filterMap scope.entryOfNode?).map Entry.dependency := by
  have visit (v : Visit) : (((scope.recordOf? v.node).map (v, ·)).filter (·.1.isFirst)).map
      Prod.snd = v.first?.bind scope.recordOf? := by
    cases v with
    | first n => cases h : scope.recordOf? n <;> simp [Visit.node, Visit.first?, Visit.isFirst, h]
    | again n => cases h : scope.recordOf? n <;> simp [Visit.node, Visit.first?, Visit.isFirst, h]
  rw [firstRecords, recorded, List.filter_filterMap, List.map_filterMap, List.map_filterMap,
    ← (round n).nodes, List.filterMap_filterMap]
  refine List.filterMap_congr fun v _ => (visit v).trans ?_
  exact congrArg v.first?.bind (funext fun n => (map_dependency_entryOfNode? n).symm)

/-- How the records of a tree, wherever they are made, go with its nodes. -/
structure Coverage (scope : Scope) (own : Option String) (n : Node) : Prop where
  /-- The exhaustive mode records each visit of a call or a column. -/
  exhaustive : ((scope.inMode .exhaustive).report own n).dependencies.map Dependency.unlevelled =
    (scope.recorded n).map Prod.snd
  /-- Those of first visits to references are the columns, with repetitions. -/
  references : (scope.firstRecords n).filter (!·.isCall) =
    n.columns.map (scope.referenceRecord 0)
  /-- Those of first visits to calls are the calls. -/
  calls : (scope.firstRecords n).filter (·.isCall) = n.nodes.filterMap scope.callRecord?
  /-- The deduplicated mode records the columns where they come first. -/
  referencesOnce :
    (((scope.inMode .deduplicated).report own n).dependencies.map Dependency.unlevelled).filter
      (!·.isCall) = n.columns.eraseDups.map (scope.referenceRecord 0)
  /-- The deduplicated mode records the calls. -/
  callsOnce :
    (((scope.inMode .deduplicated).report own n).dependencies.map Dependency.unlevelled).filter
      (·.isCall) = n.nodes.filterMap scope.callRecord?

/-- Without calculated fields, the exhaustive mode records all visits. -/
theorem dependencies_visits (plain : ∀ e ∈ scope.expressions, e.kind ≠ .calculatedField)
    (own : Option String) (n : Node) :
    ((scope.inMode .exhaustive).report own n).dependencies.map Dependency.unlevelled =
      (scope.recorded n).map Prod.snd := by
  have visit (v : Visit) : (scope.entryOfNode? v.node).map Entry.dependency =
      ((scope.recordOf? v.node).map (v, ·)).map Prod.snd := by
    rw [map_dependency_entryOfNode?, Option.map_map]
    exact (Option.map_id_apply).symm
  calc ((scope.inMode .exhaustive).report own n).dependencies.map Dependency.unlevelled
      = ((scope.entries own n).map Entry.unlevelled).map Entry.dependency := by
        rw [dependencies_exhaustive rfl, entries_inMode, List.map_map, List.map_map]
        rfl
    _ = ((visits n).filterMap (scope.entryOfNode? ·.node)).map Entry.dependency := by
        rw [map_unlevelled_entries plain]
    _ = (scope.recorded n).map Prod.snd := by
        rw [recorded, List.map_filterMap, List.map_filterMap]
        exact List.filterMap_congr fun v _ => visit v

/-- Without calculated fields, the deduplicated mode records the first entry of each key among the
nodes. -/
theorem dependencies_nodes (plain : ∀ e ∈ scope.expressions, e.kind ≠ .calculatedField)
    (own : Option String) (n : Node) :
    ((scope.inMode .deduplicated).report own n).dependencies.map Dependency.unlevelled =
      (firstPerKey [] (n.nodes.filterMap scope.entryOfNode?)).map Entry.dependency := by
  calc ((scope.inMode .deduplicated).report own n).dependencies.map Dependency.unlevelled
      = ((firstPerKey [] (scope.entries own n)).map Entry.unlevelled).map Entry.dependency := by
        rw [dependencies_deduplicated rfl, entries_inMode, List.map_map, List.map_map]
        rfl
    _ = (firstPerKey [] ((visits n).filterMap (scope.entryOfNode? ·.node))).map
          Entry.dependency := by
        rw [map_unlevelled_firstPerKey, map_unlevelled_entries plain]
    _ = _ := by rw [(round n).firstPerKey_entries]

/-- The records of calls, or the other ones, by their keys. -/
theorem filter_dependency {es : List Entry} {ns : List Node}
    (h : ∀ e ∈ es, e ∈ ns.filterMap scope.entryOfNode?) (p : Bool → Bool) :
    (es.map Entry.dependency).filter (p ·.isCall) =
      (es.filter ((p ·.isCall) ∘ Entry.key)).map Entry.dependency := by
  rw [List.filter_map]
  refine congrArg _ (List.filter_congr fun e he => ?_)
  obtain ⟨n, -, hn⟩ := List.mem_filterMap.1 (h e he)
  exact congrArg p (isCall_entryOfNode hn)

/-- **Costing covers the default walk.** Without calculated fields and with different ids, the
deduplicated mode records the columns of a tree where they come first, and its calls, each in the
order of the nodes; the exhaustive mode records every column and every call in that order, and one
more of each entry of a window that is a call or a column, right after the entry. -/
theorem report_covers (scope : Scope)
    (plain : ∀ e ∈ scope.expressions, e.kind ≠ .calculatedField) (own : Option String) (n : Node)
    (distinct : (n.nodes.map Node.id).Nodup) : scope.Coverage own n := by
  have first : ∀ e ∈ firstPerKey [] (n.nodes.filterMap scope.entryOfNode?),
      e ∈ n.nodes.filterMap scope.entryOfNode? := fun _ => mem_of_mem_firstPerKey
  refine ⟨dependencies_visits plain own n, ?_, ?_, ?_, ?_⟩
  · rw [firstRecords_eq, filter_dependency (fun _ => id) not, filter_name, List.map_map]
    rfl
  · rw [firstRecords_eq]
    exact (filter_dependency (fun _ => id) id).trans (map_dependency_filter_call _)
  · rw [dependencies_nodes plain, filter_dependency first not, filter_name_firstPerKey,
      List.map_map]
    rfl
  · rw [dependencies_nodes plain]
    refine (filter_dependency first id).trans ?_
    exact (congrArg _ (filter_call_firstPerKey distinct)).trans (map_dependency_filter_call _)

/-- The rank by sales within a region: a call is the sort key, a column the partition. -/
def rankedSales : Node :=
  .call 0 false "RANK" [.column 1 none "sales"] (some
    { sortKeys := [⟨2, .call 3 true "SUM" [.column 4 none "sales"] none, .descending⟩]
      partitions := [.column 5 none "region"]
      frame := none })

/-- Sales are a field, and the region is unknown. -/
def salesAlone : Scope where
  expressions := [.field "sales"]
  parameters := ∅
  links := .off
  mode := .exhaustive

/-- The sum to sort by comes again behind the sales in it, and the region right away. -/
theorem report_covers_rankedSales :
    (∀ e ∈ salesAlone.expressions, e.kind ≠ .calculatedField) ∧
      (rankedSales.nodes.map Node.id).Nodup ∧
      ((salesAlone.inMode .exhaustive).report none rankedSales).dependencies.map
        (fun d => d.unlevelled.name) =
          ["RANK", "sales", "SUM", "sales", "SUM", "region", "region"] ∧
      (salesAlone.firstRecords rankedSales).map Dependency.name =
        ["RANK", "sales", "SUM", "sales", "region"] ∧
      salesAlone.Coverage none rankedSales := by
  have plain : ∀ e ∈ salesAlone.expressions, e.kind ≠ .calculatedField := by decide
  have distinct : (rankedSales.nodes.map Node.id).Nodup := by decide
  have covers := report_covers salesAlone plain none rankedSales distinct
  refine ⟨plain, distinct, ?_, by decide, covers⟩
  have names := congrArg (List.map Dependency.name) covers.exhaustive
  rw [List.map_map] at names
  exact names.trans (by decide)

end Scope

end DashCalc.Cost
