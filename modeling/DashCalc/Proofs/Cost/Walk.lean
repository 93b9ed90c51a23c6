import DashCalc.Cost.Step

/-!
# Nodes, sites and steps of a tree

The steps of a tree are built along with its nodes: a call announces itself and is one level around
its parts, a sort key is one level around its expression, and after a sort key or a partition that
is a call or a column its step comes again. `Walk` says so in seven rules, and `walk` that every
tree is walked by them; what holds of all steps of all trees is shown by induction on `Walk`.

The sites of a tree are the places that matter for its depth: calls and sort keys, which open a
level, and columns. Each has the number of calls and sort keys around it (`sites`).
-/

namespace DashCalc.Cost

open Sql (Bound Frame Window)

/-! ## Sites -/

/-- What stands at a site. -/
inductive Site
  /-- A call or a sort key. -/
  | opening
  | column (name : String)
  deriving DecidableEq

/-- Sites inside one more call or sort key. -/
def deepened (places : List (Nat × Site)) : List (Nat × Site) :=
  places.map fun (depth, site) => (depth + 1, site)

mutual

/-- The sites of a tree, each with the number of calls and sort keys around it. -/
def sites : Node → List (Nat × Site)
  | .binary _ _ left right => sites left ++ sites right
  | .unary _ _ operand => sites operand
  | .call _ _ _ arguments window =>
    (0, .opening) :: deepened (sitesOfList arguments ++ sitesOfWindow? window)
  | .column _ table name => [(0, .column (Node.columnAlias table name))]
  | .list _ items => sitesOfList items
  | .branches _ operand cases otherwise =>
    sitesOf? operand ++ sitesOfCases cases ++ sitesOf? otherwise
  | .number _ _ => []
  | .text _ _ => []
  | .bool _ _ => []
  | .null _ => []
  | .star _ => []

def sitesOfList : List Node → List (Nat × Site)
  | [] => []
  | n :: ns => sites n ++ sitesOfList ns

def sitesOf? : Option Node → List (Nat × Site)
  | none => []
  | some n => sites n

def sitesOfCases : List (Node × Node) → List (Nat × Site)
  | [] => []
  | (condition, result) :: cases => sites condition ++ sites result ++ sitesOfCases cases

def sitesOfWindow? : Option (Window (SortKey Node) Node) → List (Nat × Site)
  | none => []
  | some ⟨sortKeys, partitions, frame⟩ =>
    sitesOfKeys sortKeys ++ sitesOfList partitions ++ sitesOfFrame? frame

def sitesOfKeys : List (SortKey Node) → List (Nat × Site)
  | [] => []
  | ⟨_, expr, _⟩ :: keys => (0, .opening) :: deepened (sites expr) ++ sitesOfKeys keys

def sitesOfFrame? : Option (Frame Node) → List (Nat × Site)
  | none => []
  | some ⟨_, start, stop⟩ => sitesOfBound start ++ sitesOfBound? stop

def sitesOfBound : Bound Node → List (Nat × Site)
  | .currentRow => []
  | .preceding offset => sitesOf? offset
  | .following offset => sitesOf? offset

def sitesOfBound? : Option (Bound Node) → List (Nat × Site)
  | none => []
  | some bound => sitesOfBound bound

end

/-! ## The walk -/

/-- How nodes, sites and steps go together. -/
inductive Walk : List Node → List (Nat × Site) → List Step → Prop
  | nil : Walk [] [] []
  | append {ns ms : List Node} {ps qs : List (Nat × Site)} {σ τ : List Step} :
    Walk ns ps σ → Walk ms qs τ → Walk (ns ++ ms) (ps ++ qs) (σ ++ τ)
  | column (id : NodeId) (table : Option String) (name : String) :
    Walk [.column id table name] [(0, .column (Node.columnAlias table name))]
      [.reference (Node.columnAlias table name)]
  | plain {ns : List Node} {ps : List (Nat × Site)} {σ : List Step} (n : Node) :
    n.function? = none → n.column? = none → Walk ns ps σ → Walk (n :: ns) ps σ
  | call {ns : List Node} {ps : List (Nat × Site)} {σ : List Step} (id : NodeId) (aggregate : Bool)
    (name : String) (arguments : List Node) (window : Option (Window (SortKey Node) Node)) :
    Walk ns ps σ →
      Walk (.call id aggregate name arguments window :: ns) ps (.call id aggregate name :: σ)
  | nest {ns : List Node} {ps : List (Nat × Site)} {σ : List Step} :
    Walk ns ps σ → Walk ns ((0, .opening) :: deepened ps) (.deeper :: (σ ++ [.shallower]))
  | again {n : Node} {ps : List (Nat × Site)} {σ : List Step} :
    Walk n.nodes ps σ → Walk n.nodes ps (σ ++ again n)

open Node (nodes nodesOfList nodesOf? nodesOfCases nodesOfWindow? nodesOfKeys nodesOfFrame?
  nodesOfBound nodesOfBound?)

mutual

/-- Every tree is walked. -/
theorem walk : ∀ n : Node, Walk n.nodes (sites n) (steps n)
  | .binary _ _ left right => .plain _ rfl rfl (.append (walk left) (walk right))
  | .unary _ _ operand => .plain _ rfl rfl (walk operand)
  | .call id aggregate name arguments window =>
    .call id aggregate name arguments window
      (.nest (.append (walkOfList arguments) (walkOfWindow? window)))
  | .column id table name => .column id table name
  | .list _ items => .plain _ rfl rfl (walkOfList items)
  | .branches _ operand cases otherwise =>
    .plain _ rfl rfl (.append (.append (walkOf? operand) (walkOfCases cases)) (walkOf? otherwise))
  | .number _ _ => .plain _ rfl rfl .nil
  | .text _ _ => .plain _ rfl rfl .nil
  | .bool _ _ => .plain _ rfl rfl .nil
  | .null _ => .plain _ rfl rfl .nil
  | .star _ => .plain _ rfl rfl .nil

theorem walkOfList : ∀ ns : List Node, Walk (nodesOfList ns) (sitesOfList ns) (stepsOfList ns)
  | [] => .nil
  | n :: ns => .append (walk n) (walkOfList ns)

theorem walkOf? : ∀ n : Option Node, Walk (nodesOf? n) (sitesOf? n) (stepsOf? n)
  | none => .nil
  | some n => walk n

theorem walkOfCases : ∀ cases : List (Node × Node),
    Walk (nodesOfCases cases) (sitesOfCases cases) (stepsOfCases cases)
  | [] => .nil
  | (condition, result) :: cases =>
    .append (.append (walk condition) (walk result)) (walkOfCases cases)

theorem walkOfWindow? : ∀ w : Option (Window (SortKey Node) Node),
    Walk (nodesOfWindow? w) (sitesOfWindow? w) (stepsOfWindow? w)
  | none => .nil
  | some ⟨sortKeys, partitions, frame⟩ =>
    .append (.append (walkOfKeys sortKeys) (walkOfPartitions partitions)) (walkOfFrame? frame)

theorem walkOfKeys : ∀ keys : List (SortKey Node),
    Walk (nodesOfKeys keys) (sitesOfKeys keys) (stepsOfKeys keys)
  | [] => .nil
  | ⟨_, expr, _⟩ :: keys => by
    have h := Walk.append (.again (.nest (walk expr))) (walkOfKeys keys)
    simpa [nodesOfKeys, sitesOfKeys, stepsOfKeys] using h

theorem walkOfPartitions : ∀ ns : List Node,
    Walk (nodesOfList ns) (sitesOfList ns) (stepsOfPartitions ns)
  | [] => .nil
  | n :: ns => .append (.again (walk n)) (walkOfPartitions ns)

theorem walkOfFrame? : ∀ frame : Option (Frame Node),
    Walk (nodesOfFrame? frame) (sitesOfFrame? frame) (stepsOfFrame? frame)
  | none => .nil
  | some ⟨_, start, stop⟩ => .append (walkOfBound start) (walkOfBound? stop)

theorem walkOfBound : ∀ bound : Bound Node,
    Walk (nodesOfBound bound) (sitesOfBound bound) (stepsOfBound bound)
  | .currentRow => .nil
  | .preceding offset => walkOf? offset
  | .following offset => walkOf? offset

theorem walkOfBound? : ∀ bound : Option (Bound Node),
    Walk (nodesOfBound? bound) (sitesOfBound? bound) (stepsOfBound? bound)
  | none => .nil
  | some bound => walkOfBound bound

end

/-! ## Calls and columns -/

/-- The function of a call that is met for the first time. -/
def Step.function? : Step → Option String
  | .call _ _ name => some name
  | _ => none

/-- The name of a column that is met for the first time. -/
def Step.column? : Step → Option String
  | .reference name => some name
  | _ => none

theorem Step.mem_columns {σ : List Step} {name : String} :
    name ∈ σ.filterMap Step.column? ↔ .reference name ∈ σ := by
  rw [List.mem_filterMap]
  constructor
  · rintro ⟨s, hs, h⟩
    cases s <;> cases h
    exact hs
  · exact fun h => ⟨_, h, rfl⟩

theorem again_filterMap (n : Node) :
    (again n).filterMap Step.column? = [] ∧ (again n).filterMap Step.function? = [] := by
  cases n <;> exact ⟨rfl, rfl⟩

theorem Walk.columns {ns : List Node} {ps : List (Nat × Site)} {σ : List Step}
    (h : Walk ns ps σ) : σ.filterMap Step.column? = ns.filterMap Node.column? := by
  induction h with
  | nil => rfl
  | append _ _ ih ih' => rw [List.filterMap_append, List.filterMap_append, ih, ih']
  | column id table name => rfl
  | plain n _ hn _ ih => rw [List.filterMap_cons_none hn, ih]
  | call id aggregate name arguments window _ ih =>
    rw [List.filterMap_cons_none rfl, List.filterMap_cons_none rfl, ih]
  | nest _ ih =>
    rw [List.filterMap_cons_none rfl, List.filterMap_append, ih]
    exact List.append_nil _
  | again _ ih => rw [List.filterMap_append, (again_filterMap _).1, ih, List.append_nil]

theorem Walk.functions {ns : List Node} {ps : List (Nat × Site)} {σ : List Step}
    (h : Walk ns ps σ) : σ.filterMap Step.function? = ns.filterMap Node.function? := by
  induction h with
  | nil => rfl
  | append _ _ ih ih' => rw [List.filterMap_append, List.filterMap_append, ih, ih']
  | column id table name => rfl
  | plain n hn _ _ ih => rw [List.filterMap_cons_none hn, ih]
  | call id aggregate name arguments window _ ih =>
    show name :: _ = name :: _
    rw [ih]
  | nest _ ih =>
    rw [List.filterMap_cons_none rfl, List.filterMap_append, ih]
    exact List.append_nil _
  | again _ ih => rw [List.filterMap_append, (again_filterMap _).2, ih, List.append_nil]

/-- The name of a column at a site. -/
def Site.column? : Site → Option String
  | .opening => none
  | .column name => some name

theorem Walk.siteColumns {ns : List Node} {ps : List (Nat × Site)} {σ : List Step}
    (h : Walk ns ps σ) : ps.filterMap (·.2.column?) = ns.filterMap Node.column? := by
  induction h with
  | nil => rfl
  | append _ _ ih ih' => rw [List.filterMap_append, List.filterMap_append, ih, ih']
  | column id table name => rfl
  | plain n _ hn _ ih => rw [List.filterMap_cons_none hn, ih]
  | call id aggregate name arguments window _ ih => rw [List.filterMap_cons_none rfl, ih]
  | nest _ ih =>
    rw [List.filterMap_cons_none rfl, deepened, List.filterMap_map]
    exact ih
  | again _ ih => exact ih

/-- Every column has a site. -/
theorem exists_site_of_mem_columns {n : Node} {name : String} (h : name ∈ n.columns) :
    ∃ depth, (depth, .column name) ∈ sites n := by
  have mem : name ∈ (sites n).filterMap (·.2.column?) := by
    rw [(walk n).siteColumns]
    exact h
  obtain ⟨⟨depth, site⟩, hsite, hname⟩ := List.mem_filterMap.1 mem
  cases site with
  | opening => cases hname
  | column other =>
    obtain rfl : other = name := Option.some.inj hname
    exact ⟨depth, hsite⟩

/-- The references that are steps of a tree are its columns, in their order. -/
theorem filterMap_column?_steps (n : Node) : (steps n).filterMap Step.column? = n.columns :=
  (walk n).columns

/-- The calls that are steps of a tree are the calls among its nodes, in their order. -/
theorem filterMap_function?_steps (n : Node) :
    (steps n).filterMap Step.function? = n.nodes.filterMap Node.function? :=
  (walk n).functions

theorem reference_mem_steps {n : Node} {name : String} :
    .reference name ∈ steps n ↔ name ∈ n.columns := by
  rw [← filterMap_column?_steps, Step.mem_columns]

/-- Whether a step is a call or comes again from a call, of this id, kind and name. -/
def Step.IsCall (s : Step) (id : NodeId) (aggregate : Bool) (name : String) : Prop :=
  s = .call id aggregate name ∨ s = .callAgain id aggregate name

/-- Whether a call of this id, kind and name is among some nodes. -/
def CallAmong (ns : List Node) (id : NodeId) (aggregate : Bool) (name : String) : Prop :=
  ∃ arguments window, Node.call id aggregate name arguments window ∈ ns

theorem Walk.callAmong {ns : List Node} {ps : List (Nat × Site)} {σ : List Step}
    (h : Walk ns ps σ) {s : Step} (hs : s ∈ σ) {id : NodeId} {aggregate : Bool} {name : String}
    (hcall : s.IsCall id aggregate name) : CallAmong ns id aggregate name := by
  have mono {ns ms : List Node} (hsub : ns ⊆ ms) (h : CallAmong ns id aggregate name) :
      CallAmong ms id aggregate name :=
    let ⟨arguments, window, hmem⟩ := h
    ⟨arguments, window, hsub hmem⟩
  induction h with
  | nil => exact absurd hs List.not_mem_nil
  | append _ _ ih ih' =>
    rcases List.mem_append.1 hs with hs | hs
    · exact mono (List.subset_append_left _ _) (ih hs)
    · exact mono (List.subset_append_right _ _) (ih' hs)
  | column => rcases hcall with rfl | rfl <;> simp at hs
  | plain n _ _ _ ih => exact mono (List.subset_cons_self _ _) (ih hs)
  | call id aggregate name arguments window _ ih =>
    rcases List.mem_cons.1 hs with rfl | hs
    · rcases hcall with e | e <;> cases e
      exact ⟨arguments, window, List.mem_cons_self⟩
    · exact mono (List.subset_cons_self _ _) (ih hs)
  | nest _ ih =>
    refine ih ?_
    rcases hcall with rfl | rfl <;> simpa using hs
  | @again n _ _ _ ih =>
    rcases List.mem_append.1 hs with hs | hs
    · exact ih hs
    · cases n with
      | call =>
        obtain rfl := List.mem_singleton.1 hs
        rcases hcall with e | e <;> cases e
        exact ⟨_, _, List.mem_cons_self⟩
      | column =>
        obtain rfl := List.mem_singleton.1 hs
        rcases hcall with e | e <;> cases e
      | _ => exact absurd hs List.not_mem_nil

/-! ## Levels -/

def Step.levelAfter (level : Nat) : Step → Nat
  | .deeper => level + 1
  | .shallower => level - 1
  | _ => level

/-- The level after some steps. -/
def levelAfter (level : Nat) (σ : List Step) : Nat := σ.foldl Step.levelAfter level

theorem levelAfter_append (level : Nat) (σ τ : List Step) :
    levelAfter level (σ ++ τ) = levelAfter (levelAfter level σ) τ :=
  List.foldl_append

/-- A walk ends on the level on which it starts. -/
theorem Walk.levelAfter {ns : List Node} {ps : List (Nat × Site)} {σ : List Step}
    (h : Walk ns ps σ) (level : Nat) : levelAfter level σ = level := by
  induction h generalizing level with
  | nil => rfl
  | append _ _ ih ih' => rw [levelAfter_append, ih, ih']
  | column => rfl
  | plain _ _ _ _ ih => exact ih level
  | call _ _ _ _ _ _ ih => exact ih level
  | nest _ ih =>
    show Cost.levelAfter (level + 1) _ = level
    rw [levelAfter_append, ih]
    rfl
  | @again n _ _ _ ih =>
    rw [levelAfter_append, ih]
    cases n <;> rfl

/-! ## What comes again was there before -/

/-- Every column that comes again has come before, in these steps or among those met already. -/
def Announced : List Step → List Step → Prop
  | _, [] => True
  | met, s :: σ =>
    (∀ name, s = .referenceAgain name → .reference name ∈ met) ∧ Announced (s :: met) σ

theorem Announced.mono {met met' σ : List Step} (h : Announced met σ) (hsub : met ⊆ met') :
    Announced met' σ := by
  induction σ generalizing met met' with
  | nil => trivial
  | cons s σ ih => exact ⟨fun name e => hsub (h.1 name e), ih h.2 (List.cons_subset_cons s hsub)⟩

theorem Announced.append {met σ τ : List Step} (h : Announced met σ)
    (h' : Announced (σ ++ met) τ) : Announced met (σ ++ τ) := by
  induction σ generalizing met with
  | nil => exact h'
  | cons s σ ih =>
    refine ⟨h.1, ih h.2 (h'.mono ?_)⟩
    intro x hx
    simp only [List.mem_append, List.mem_cons] at hx ⊢
    rcases hx with (rfl | hx) | hx
    · exact .inr (.inl rfl)
    · exact .inl hx
    · exact .inr (.inr hx)

theorem Walk.announced {ns : List Node} {ps : List (Nat × Site)} {σ : List Step}
    (h : Walk ns ps σ) (met : List Step) : Announced met σ := by
  induction h generalizing met with
  | nil => trivial
  | append _ _ ih ih' => exact (ih met).append (ih' _)
  | column => exact ⟨fun _ e => (nomatch e), trivial⟩
  | plain _ _ _ _ ih => exact ih met
  | call _ _ _ _ _ _ ih => exact ⟨fun _ e => (nomatch e), ih _⟩
  | nest _ ih =>
    exact ⟨fun _ e => (nomatch e), (ih _).append ⟨fun _ e => (nomatch e), trivial⟩⟩
  | @again n _ σ hn ih =>
    refine (ih met).append ?_
    cases n with
    | column id table name =>
      refine ⟨?_, trivial⟩
      rintro _ ⟨⟩
      have : Node.columnAlias table name ∈ σ.filterMap Step.column? := by
        rw [hn.columns]
        exact List.mem_singleton_self _
      exact List.mem_append_left _ (Step.mem_columns.1 this)
    | call => exact ⟨fun _ e => (nomatch e), trivial⟩
    | _ => trivial

end DashCalc.Cost
