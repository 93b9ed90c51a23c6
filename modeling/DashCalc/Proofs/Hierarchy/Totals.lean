import DashCalc.Proofs.Hierarchy.Filing
import Mathlib.Algebra.GroupWithZero.Nat

/-!
# What a branch sums up

In a finished tree every branch has the sums over the requests at or below it (`Branch.SumsUp`,
`Builder.finish_sumsUp`). The builder leaves the metrics of inner branches empty, and those of a
request are its own (`Branch.Fresh`), so summing up starts from nothing.

The limit of costly requests makes no difference: a costly request has the tag itself, and a branch
with more costly requests than the limit has at least one of them (`Branch.aggregate_limit`).
-/

namespace DashCalc.Hierarchy

/-! ## First and last of lists -/

/-- Whether a value is the first of some values in an order: none if there are none, else one of
them that no other precedes. -/
structure IsFirst {α : Type} (le : α → α → Prop) (values : List α) (first : Option α) : Prop where
  absent : first = none ↔ values = []
  present : ∀ u, first = some u → u ∈ values ∧ ∀ v ∈ values, le u v

theorem isFirst_toList {α : Type} {le : α → α → Prop} (refl : ∀ u, le u u) (o : Option α) :
    IsFirst le o.toList o := by
  cases o with
  | none => exact ⟨iff_of_true rfl rfl, fun _ h => nomatch h⟩
  | some u =>
    refine ⟨iff_of_false nofun (List.cons_ne_nil _ _), ?_⟩
    rintro _ ⟨⟩
    exact ⟨List.mem_singleton_self u, fun v hv => List.mem_singleton.1 hv ▸ refl u⟩

/-- The first of the firsts is the first of all. -/
theorem IsFirst.flatMap {α β : Type} {le : β → β → Prop} {xs : List α} {values : α → List β}
    {first : α → Option β} {o : Option β} (h : IsFirst le (xs.filterMap first) o)
    (trans : ∀ u v w, le u v → le v w → le u w)
    (each : ∀ x ∈ xs, IsFirst le (values x) (first x)) : IsFirst le (xs.flatMap values) o := by
  constructor
  · rw [h.absent, List.filterMap_eq_nil_iff, List.flatMap_eq_nil_iff]
    exact forall₂_congr fun x hx => (each x hx).absent
  · intro u hu
    obtain ⟨hmem, hle⟩ := h.present u hu
    obtain ⟨x, hx, hfirst⟩ := List.mem_filterMap.1 hmem
    refine ⟨List.mem_flatMap.2 ⟨x, hx, ((each x hx).present u hfirst).1⟩, fun w hw => ?_⟩
    -- whatever comes from `y` is not before the first of `y`
    obtain ⟨y, hy, hw⟩ := List.mem_flatMap.1 hw
    cases hv : first y with
    | none =>
      rw [(each y hy).absent.1 hv] at hw
      cases hw
    | some v =>
      have huv : le u v := hle v (List.mem_filterMap.2 ⟨y, hy, hv⟩)
      exact trans u v w huv (((each y hy).present v hv).2 w hw)

theorem isFirst_min? (times : List Int64) : IsFirst (· ≤ ·) times times.min? :=
  ⟨List.min?_eq_none_iff, fun _ h => List.min?_eq_some_iff.1 h⟩

instance : Std.LawfulOrderMax Int64 where
  max_eq_or a b := by
    show (if a ≤ b then b else a) = a ∨ (if a ≤ b then b else a) = b
    split
    · exact .inr rfl
    · exact .inl rfl
  max_le_iff a b c := by
    show (if a ≤ b then b else a) ≤ c ↔ _
    split
    · next hab => exact ⟨fun h => ⟨Int64.le_trans hab h, h⟩, And.right⟩
    · next hab =>
      have hba : b ≤ a := (Int64.le_total a b).resolve_left hab
      exact ⟨fun h => ⟨h, Int64.le_trans hba h⟩, And.left⟩

theorem isFirst_max? (times : List Int64) : IsFirst (· ≥ ·) times times.max? :=
  ⟨List.max?_eq_none_iff, fun _ h => List.max?_eq_some_iff.1 h⟩

/-- The last of the lasts is the last of all. -/
theorem getLast?_flatMap {α β : Type} (values : α → List β) (xs : List α) :
    (xs.flatMap values).getLast? = (xs.filterMap fun x => (values x).getLast?).getLast? := by
  induction xs with
  | nil => rfl
  | cons x xs ih =>
    rw [List.flatMap_cons, List.getLast?_append, ih, List.filterMap_cons]
    cases (values x).getLast? with
    | none => exact Option.or_none
    | some y => exact (List.getLast?_append (l := [y])).symm

/-! ## Metrics before summing up -/

/-- Whether metrics are those of a single branch: those of a request count it once and say whether
it failed and is costly, those of any other branch are empty. -/
def Metrics.IsOwn (m : Metrics) : Option Details → Prop
  | none => m = {}
  | some d => m.requestCount = 1 ∧ m.hasError = d.errorCode.isSome ∧
      (0 < m.highCostRequestCount → m.tags.contains .highCost = true)

theorem Metrics.isOwn_ofRequest (threshold : Nat) (r : Request) (a : Request.Analysis) :
    (Metrics.ofRequest threshold r a).IsOwn (some (.ofRequest r a)) := by
  refine ⟨rfl, rfl, fun h => ?_⟩
  by_cases high : threshold < a.totalCost
  · simp only [Metrics.ofRequest, TagSet.insertIf, high, decide_true, if_true]
    split <;> rfl
  · simp only [Metrics.ofRequest, high, decide_false, Bool.false_eq_true, if_false,
      Nat.lt_irrefl] at h

namespace Branch

/-- Whether nothing has been summed up in a tree yet. -/
def Fresh (b : Branch) : Prop := ∀ c ∈ b.branches, c.metrics.IsOwn c.details

theorem fresh_iff {b : Branch} :
    b.Fresh ↔ b.metrics.IsOwn b.details ∧ ∀ c ∈ b.children, c.Fresh := by
  constructor
  · intro h
    exact ⟨h b (mem_branches.2 (.inl rfl)),
      fun d hd c hc => h c (mem_branches.2 (.inr ⟨d, hd, hc⟩))⟩
  · rintro ⟨own, below⟩ c hc
    rcases mem_branches.1 hc with rfl | ⟨d, hd, hc⟩
    · exact own
    · exact below d hd c hc

namespace Fresh

theorem new (key : String) (level : Level) : (Branch.new key level).Fresh :=
  fresh_iff.2 ⟨rfl, fun _ hc => nomatch hc⟩

/-- What changes a fresh branch into a fresh one does so anywhere in a fresh tree. -/
theorem changeAt {change : Branch → Branch} (keep : ∀ c, c.Fresh → (change c).Fresh) :
    ∀ (path : List Place) {b : Branch}, b.Fresh → (changeAt change path b).Fresh := by
  have among {made : Branch} {change : Branch → Branch} (hmade : made.Fresh)
      (keep : ∀ c, c.Fresh → (change c).Fresh) {bs : List Branch} (h : ∀ c ∈ bs, c.Fresh) :
      ∀ c ∈ changeAmong made change bs, c.Fresh := by
    induction bs with
    | nil =>
      intro c hc
      rw [List.mem_singleton.1 hc]
      exact keep made hmade
    | cons b bs ih =>
      obtain ⟨hb, hbs⟩ := List.forall_mem_cons.1 h
      unfold changeAmong
      split
      · exact List.forall_mem_cons.2 ⟨keep b hb, hbs⟩
      · exact List.forall_mem_cons.2 ⟨hb, ih hbs⟩
  intro path
  induction path with
  | nil => exact fun h => keep _ h
  | cons place path ih =>
    intro b h
    obtain ⟨own, below⟩ := fresh_iff.1 h
    have named (c : Branch) (hc : c.Fresh) : (c.named place.name).Fresh := by
      have parts := fresh_iff.1 hc
      exact fresh_iff.2 parts
    exact fresh_iff.2 ⟨own, among (new _ _) (fun c hc => ih (named c hc)) below⟩

/-- Tagging what took long keeps a tree fresh: only requests get tags, and no tag is lost. -/
theorem tagAbove (threshold : Float) : ∀ {levels : List Level} {b : Branch}, Shaped levels b →
    b.Fresh → (b.tagAbove threshold).Fresh := by
  intro levels
  induction levels with
  | nil => exact fun h => h.elim
  | cons level below ih =>
    intro b hshape h
    obtain ⟨own, fresh⟩ := fresh_iff.1 h
    have below : ∀ c ∈ (b.tagAbove threshold).children, c.Fresh := by
      rw [(keeps_tagAbove threshold).children]
      intro c hc
      obtain ⟨d, hd, rfl⟩ := List.mem_map.1 hc
      exact ih (hshape.2.2.2 d hd) (fresh d hd)
    refine fresh_iff.2 ⟨?_, below⟩
    obtain ⟨key, level, name, metrics, details, children⟩ := b
    cases details with
    | none => exact own
    | some d =>
      obtain ⟨count, error, costly⟩ := own
      refine ⟨count, error, fun h => ?_⟩
      simp only [Branch.tagAbove, TagSet.insertIf]
      split
      · rw [TagSet.contains_insert, costly h, Bool.or_true]
      · exact costly h

theorem tagLongDurations (sigma : Float) {levels : List Level} {b : Branch}
    (hshape : Shaped levels b) (h : b.Fresh) : (b.tagLongDurations sigma).1.Fresh := by
  unfold Branch.tagLongDurations
  split
  · exact h
  · exact tagAbove _ hshape h

end Fresh

end Branch

/-- Taking requests keeps the tree of a builder fresh. -/
theorem Builder.fresh_addAll (settings : Settings.Analysis) (links : Catalog.DocLinks)
    (requests : List Request) : ∀ {b : Builder}, b.root.Fresh →
      (Builder.addAll settings links b requests).1.root.Fresh := by
  have one {b : Builder} (r : Request) (h : b.root.Fresh) :
      (b.add settings links r).1.root.Fresh := by
    unfold add
    split
    · exact h
    · next address _ =>
      have opened := Branch.Fresh.changeAt (fun _ hc => hc) (address.visualPlaces r.names) h
      dsimp only
      split
      · exact opened
      · refine Branch.Fresh.changeAt (fun c hc => ?_) _ opened
        exact Branch.fresh_iff.2 ⟨Metrics.isOwn_ofRequest _ _ _, (Branch.fresh_iff.1 hc).2⟩
  induction requests with
  | nil => exact fun h => h
  | cons r rest ih => exact fun h => ih (one r h)

namespace Branch

/-! ## Sums over requests -/

/-- Whether the request at a branch failed. -/
def hasErrorCode (b : Branch) : Bool := b.details.any fun d => d.errorCode.isSome

/-- Whether the metrics of a branch are the sums over the requests at or below it, and the duration
of a branch that is no request itself is the sum over its children from left to right. -/
structure SumsUp (b : Branch) : Prop where
  requestCount : b.metrics.requestCount = b.requests.length
  cost : b.metrics.cost = (b.requests.map fun l => l.metrics.cost).sum
  parsedExpressionCount : b.metrics.parsedExpressionCount =
    (b.requests.map fun l => l.metrics.parsedExpressionCount).sum
  highCostRequestCount : b.metrics.highCostRequestCount =
    (b.requests.map fun l => l.metrics.highCostRequestCount).sum
  hasError : b.metrics.hasError = b.requests.any hasErrorCode
  startTime : IsFirst (· ≤ ·) (b.requests.filterMap fun l => l.metrics.startTime)
    b.metrics.startTime
  endTime : IsFirst (· ≥ ·) (b.requests.filterMap fun l => l.metrics.endTime) b.metrics.endTime
  tags : ∀ t, b.metrics.tags.contains t = b.requests.any fun l => l.metrics.tags.contains t
  origin : b.metrics.origin = (b.requests.filterMap fun l => l.metrics.origin).getLast?
  userAgent : b.metrics.userAgent = (b.requests.filterMap fun l => l.metrics.userAgent).getLast?
  duration : b.details = none →
    b.metrics.duration = b.children.foldl (fun sum c => sum + c.metrics.duration) 0.0

theorem requests_eq (b : Branch) :
    b.requests = (if b.details.isSome then [b] else []) ++ b.children.flatMap requests := by
  obtain ⟨key, level, name, metrics, details, children⟩ := b
  unfold requests
  rw [branches, List.filter_cons, branchesOfAll_eq_flatMap, List.filter_flatMap]
  split <;> rfl

theorem requests_of_leaf {b : Branch} {d : Details} (hd : b.details = some d)
    (empty : b.children = []) : b.requests = [b] := by
  rw [requests_eq, hd, empty]
  rfl

theorem requests_of_inner {b : Branch} (hd : b.details = none) :
    b.requests = b.children.flatMap requests := by
  rw [requests_eq, hd]
  rfl

/-- A request sums up itself. -/
theorem SumsUp.of_leaf {b : Branch} {d : Details} (hd : b.details = some d)
    (empty : b.children = []) (own : b.metrics.IsOwn b.details) : b.SumsUp := by
  have alone := requests_of_leaf hd empty
  rw [hd] at own
  obtain ⟨count, error, -⟩ := own
  have only {α : Type} (o : Branch → Option α) : b.requests.filterMap o = (o b).toList := by
    rw [alone, List.filterMap_cons]
    cases o b <;> rfl
  have last {α : Type} (o : Option α) : o = o.toList.getLast? := by cases o <;> rfl
  refine ⟨?_, ?_, ?_, ?_, ?_, ?_, ?_, fun t => ?_, ?_, ?_, fun none => ?_⟩
  · rw [count, alone]
    rfl
  · rw [alone]
    exact (Nat.add_zero _).symm
  · rw [alone]
    exact (Nat.add_zero _).symm
  · rw [alone]
    exact (Nat.add_zero _).symm
  · rw [alone, error, List.any_cons, List.any_nil, Bool.or_false, hasErrorCode, hd]
    rfl
  · rw [only]
    exact isFirst_toList Int64.le_refl _
  · rw [only]
    exact isFirst_toList (fun u => show u ≥ u from Int64.le_refl u) _
  · rw [alone, List.any_cons, List.any_nil, Bool.or_false]
  · rw [only]
    exact last _
  · rw [only]
    exact last _
  · cases none.symm.trans hd

end Branch

/-! ## Gathering from the children -/

namespace Metrics

open Branch (SumsUp requests)

variable {children : List Branch}

theorem sumOf_eq (number : Metrics → Nat) {sum : Branch → Nat}
    (each : ∀ c ∈ children, number c.metrics = sum c) :
    sumOf number children = (children.map sum).sum := by
  induction children with
  | nil => rfl
  | cons c cs ih =>
    obtain ⟨hc, hcs⟩ := List.forall_mem_cons.1 each
    rw [List.map_cons, List.sum_cons, ← ih hcs, ← hc]
    rfl

/-- A number that sums up the requests of each child sums up the requests of all. -/
theorem sumOf_requests (number : Metrics → Nat) (each : ∀ c ∈ children,
    number c.metrics = (c.requests.map fun l => number l.metrics).sum) :
    sumOf number children =
      ((children.flatMap requests).map fun l => number l.metrics).sum := by
  rw [sumOf_eq number each, List.map_flatMap, List.flatMap, List.sum_flatten, List.map_map]
  rfl

/-- What holds of some request of a child holds of some request of all. -/
theorem any_requests {f p : Branch → Bool} (each : ∀ c ∈ children, f c = c.requests.any p) :
    children.any f = (children.flatMap requests).any p := by
  induction children with
  | nil => rfl
  | cons c cs ih =>
    obtain ⟨hc, hcs⟩ := List.forall_mem_cons.1 each
    rw [List.any_cons, List.flatMap_cons, List.any_append, hc, ih hcs]

/-- A child that sums up its requests failed if one of them did. -/
theorem failed_eq {c : Branch} (h : c.SumsUp) : failed c = c.requests.any Branch.hasErrorCode := by
  have own : c.hasErrorCode = true → c.requests.any Branch.hasErrorCode = true := by
    intro hc
    have details : c.details.isSome := by
      obtain ⟨d, hd, -⟩ := (Option.any_eq_true _ _).1 hc
      rw [hd]
      rfl
    refine List.any_eq_true.2 ⟨c, ?_, hc⟩
    rw [Branch.requests_eq, if_pos details]
    exact List.mem_append_left _ (List.mem_singleton_self c)
  show (c.metrics.hasError || c.hasErrorCode) = _
  rw [h.hasError, Bool.or_eq_left_iff_imp]
  exact own

theorem contains_foldl_union (tags : TagSet) (t : Tag) :
    (children.foldl (fun tags c => tags.union c.metrics.tags) tags).contains t =
      (tags.contains t || children.any fun c => c.metrics.tags.contains t) := by
  induction children generalizing tags with
  | nil => exact (Bool.or_false _).symm
  | cons c cs ih => rw [List.foldl_cons, ih, TagSet.contains_union, List.any_cons, Bool.or_assoc]

/-- The last value of the children is the last one of their requests. -/
theorem getLast?_valuesOf {α : Type} (value : Metrics → Option α) (each : ∀ c ∈ children,
    value c.metrics = (c.requests.filterMap fun l => value l.metrics).getLast?) :
    (valuesOf value children).getLast? =
      ((children.flatMap requests).filterMap fun l => value l.metrics).getLast? := by
  unfold valuesOf
  rw [List.filterMap_congr each, List.filterMap_flatMap, getLast?_flatMap]

/-- Costly requests among the children leave the tag on them, so no limit adds it. -/
theorem tags_gather (limit : Nat) (costly : ∀ c ∈ children,
    0 < c.metrics.highCostRequestCount → c.metrics.tags.contains .highCost = true) :
    (gather limit {} children).tags =
      children.foldl (fun tags c => tags.union c.metrics.tags) ∅ := by
  show TagSet.insertIf (decide (limit < 0 + sumOf highCostRequestCount children)) .highCost _ = _
  unfold TagSet.insertIf
  split
  · next above =>
    have pos : 0 < sumOf highCostRequestCount children := by
      have := of_decide_eq_true above
      omega
    rw [sumOf_eq highCostRequestCount fun _ _ => rfl] at pos
    obtain ⟨_, hmem, pos⟩ := List.sum_pos_iff_exists_pos_nat.1 pos
    obtain ⟨c, hc, rfl⟩ := List.mem_map.1 hmem
    have tagged : (children.foldl (fun tags c => tags.union c.metrics.tags)
        (∅ : TagSet)).contains .highCost = true := by
      rw [contains_foldl_union, Bool.or_eq_true]
      exact .inr (List.any_eq_true.2 ⟨c, hc, costly c hc pos⟩)
    refine TagSet.ext fun t => ?_
    rw [TagSet.contains_insert]
    cases t with
    | highCost => rw [tagged, Bool.or_true]
    | _ => rfl
  · rfl

theorem gather_limit (limit limit' : Nat) (costly : ∀ c ∈ children,
    0 < c.metrics.highCostRequestCount → c.metrics.tags.contains .highCost = true) :
    gather limit {} children = gather limit' {} children := by
  have tags := (tags_gather limit costly).trans (tags_gather limit' costly).symm
  have rest : gather limit {} children =
      { gather limit' {} children with tags := (gather limit {} children).tags } := rfl
  rw [rest, tags]

end Metrics

namespace Branch

/-- A branch that gathers from children that sum up their requests sums up its own. -/
theorem SumsUp.of_gather {b : Branch} {limit : Nat} (hd : b.details = none)
    (hm : b.metrics = Metrics.gather limit {} b.children) (each : ∀ c ∈ b.children, c.SumsUp)
    (costly : ∀ c ∈ b.children,
      0 < c.metrics.highCostRequestCount → c.metrics.tags.contains .highCost = true) :
    b.SumsUp := by
  have all := requests_of_inner hd
  have bare {α : Type} (o : Option α) : (o <|> none) = o := by cases o <;> rfl
  refine ⟨?_, ?_, ?_, ?_, ?_, ?_, ?_, fun t => ?_, ?_, ?_, fun _ => ?_⟩ <;> rw [hm]
  · rw [all, List.length_flatMap]
    exact Metrics.sumOf_eq _ fun c hc => (each c hc).requestCount
  · rw [all]
    exact (Nat.zero_add _).trans (Metrics.sumOf_requests _ fun c hc => (each c hc).cost)
  · rw [all]
    exact (Nat.zero_add _).trans
      (Metrics.sumOf_requests _ fun c hc => (each c hc).parsedExpressionCount)
  · rw [all]
    exact (Nat.zero_add _).trans
      (Metrics.sumOf_requests _ fun c hc => (each c hc).highCostRequestCount)
  · rw [all]
    exact (Bool.false_or _).trans
      (Metrics.any_requests fun c hc => Metrics.failed_eq (each c hc))
  · have first := isFirst_min? (Metrics.valuesOf Metrics.startTime b.children)
    rw [all, List.filterMap_flatMap]
    rw [← bare (Metrics.valuesOf _ _).min?] at first
    exact first.flatMap (fun _ _ _ => Int64.le_trans) fun c hc => (each c hc).startTime
  · have first := isFirst_max? (Metrics.valuesOf Metrics.endTime b.children)
    rw [all, List.filterMap_flatMap]
    rw [← bare (Metrics.valuesOf _ _).max?] at first
    exact first.flatMap (fun _ _ _ h h' => Int64.le_trans h' h) fun c hc => (each c hc).endTime
  · rw [Metrics.tags_gather limit costly, Metrics.contains_foldl_union, all]
    have none : TagSet.contains ∅ t = false := by cases t <;> rfl
    rw [none, Bool.false_or]
    exact Metrics.any_requests fun c hc => (each c hc).tags t
  · rw [all]
    exact (bare _).trans (Metrics.getLast?_valuesOf _ fun c hc => (each c hc).origin)
  · rw [all]
    exact (bare _).trans (Metrics.getLast?_valuesOf _ fun c hc => (each c hc).userAgent)
  · rfl

/-! ## Summing up -/

theorem aggregate_eq (limit : Nat) (b : Branch) : b.aggregate limit =
    if b.children = [] then b
    else { b with
      metrics := b.metrics.gather limit (b.children.map (aggregate limit))
      children := b.children.map (aggregate limit) } := by
  obtain ⟨key, level, name, metrics, details, children⟩ := b
  rw [aggregate, aggregateAll_eq_map]
  simp only [List.isEmpty_iff]

/-- A branch without metrics of its own has what it gathers, also if it has no children. -/
theorem metrics_aggregate (limit : Nat) {b : Branch} (own : b.metrics = {}) :
    (b.aggregate limit).metrics = Metrics.gather limit {} (b.aggregate limit).children := by
  rw [aggregate_eq]
  split
  · next empty =>
    rw [own, empty]
    simp [Metrics.gather, Metrics.sumOf, Metrics.valuesOf, TagSet.insertIf]
  · rw [own]

/-- Summing up leaves the requests as they are. -/
theorem Shaped.requests_aggregate (limit : Nat) : ∀ {levels : List Level} {b : Branch},
    Shaped levels b → (b.aggregate limit).requests = b.requests := by
  intro levels
  induction levels with
  | nil => exact fun h => h.elim
  | cons level below ih =>
    intro b h
    cases below with
    | nil => rw [aggregate_eq, if_pos h.children_eq_nil]
    | cons next below =>
      have hd := h.details_eq_none (List.cons_ne_nil next below)
      have keeps := keeps_aggregate limit
      rw [requests_of_inner hd, requests_of_inner ((keeps.details b).trans hd), keeps.children,
        List.flatMap_map]
      exact List.flatMap_congr fun c hc => ih (h.2.2.2 c hc)

/-- A branch that sums up fresh requests is tagged as costly if one of them is costly. -/
theorem SumsUp.costly {b : Branch} (h : b.SumsUp)
    (own : ∀ l ∈ b.requests, l.metrics.IsOwn l.details)
    (pos : 0 < b.metrics.highCostRequestCount) : b.metrics.tags.contains .highCost = true := by
  rw [h.highCostRequestCount] at pos
  obtain ⟨_, hmem, pos⟩ := List.sum_pos_iff_exists_pos_nat.1 pos
  obtain ⟨l, hl, rfl⟩ := List.mem_map.1 hmem
  rw [h.tags]
  refine List.any_eq_true.2 ⟨l, hl, ?_⟩
  obtain ⟨d, hd⟩ := Option.isSome_iff_exists.1 (List.mem_filter.1 hl).2
  have ownL := own l hl
  rw [hd] at ownL
  exact ownL.2.2 pos

/-- A fresh branch is tagged as costly after summing up if a request below it is costly. -/
theorem Fresh.costly {limit : Nat} {levels : List Level} {b : Branch} (hshape : Shaped levels b)
    (h : b.Fresh) (sums : (b.aggregate limit).SumsUp) :
    0 < (b.aggregate limit).metrics.highCostRequestCount →
      (b.aggregate limit).metrics.tags.contains .highCost = true := by
  refine sums.costly fun l hl => ?_
  rw [hshape.requests_aggregate] at hl
  exact h l (List.mem_filter.1 hl).1

/-- After summing up, every branch of a fresh tree sums up its requests. -/
theorem Shaped.sumsUp_aggregate (limit : Nat) : ∀ {levels : List Level} {b : Branch},
    Shaped levels b → b.Fresh → ∀ c ∈ (b.aggregate limit).branches, c.SumsUp := by
  intro levels
  induction levels with
  | nil => exact fun h => h.elim
  | cons level below ih =>
    intro b h fresh
    obtain ⟨own, freshBelow⟩ := fresh_iff.1 fresh
    have keeps := keeps_aggregate limit
    have children : ∀ c ∈ (b.aggregate limit).children, ∃ d ∈ b.children, d.aggregate limit = c :=
      fun c hc => List.mem_map.1 (keeps.children b ▸ hc)
    have here : (b.aggregate limit).SumsUp := by
      cases below with
      | nil =>
        rw [aggregate_eq, if_pos h.children_eq_nil]
        obtain ⟨d, hd⟩ := Option.isSome_iff_exists.1 (h.2.1.2 rfl)
        exact .of_leaf hd h.children_eq_nil own
      | cons next below =>
        have hd := h.details_eq_none (List.cons_ne_nil next below)
        rw [hd] at own
        refine .of_gather ((keeps.details b).trans hd) (metrics_aggregate limit own) ?_ ?_
        · intro c hc
          obtain ⟨d, hd, rfl⟩ := children c hc
          exact ih (h.2.2.2 d hd) (freshBelow d hd) _ (mem_branches.2 (.inl rfl))
        · intro c hc
          obtain ⟨d, hd, rfl⟩ := children c hc
          refine (freshBelow d hd).costly (h.2.2.2 d hd) ?_
          exact ih (h.2.2.2 d hd) (freshBelow d hd) _ (mem_branches.2 (.inl rfl))
    intro c hc
    rcases mem_branches.1 hc with rfl | ⟨e, he, hc⟩
    · exact here
    · obtain ⟨d, hd, rfl⟩ := children e he
      exact ih (h.2.2.2 d hd) (freshBelow d hd) c hc

/-- Whatever is too many, a fresh tree sums up to the same tree. -/
theorem Shaped.aggregate_limit (limit limit' : Nat) : ∀ {levels : List Level} {b : Branch},
    Shaped levels b → b.Fresh → b.aggregate limit = b.aggregate limit' := by
  intro levels
  induction levels with
  | nil => exact fun h => h.elim
  | cons level below ih =>
    intro b h fresh
    obtain ⟨own, freshBelow⟩ := fresh_iff.1 fresh
    have same : b.children.map (aggregate limit) = b.children.map (aggregate limit') :=
      List.map_congr_left fun c hc => ih (h.2.2.2 c hc) (freshBelow c hc)
    rw [aggregate_eq, aggregate_eq]
    split
    · rfl
    · next some =>
      have hd : b.details = none := by
        cases below with
        | nil => exact absurd h.children_eq_nil some
        | cons next below => exact h.details_eq_none (List.cons_ne_nil next below)
      rw [hd] at own
      have costly : ∀ c ∈ b.children.map (aggregate limit'),
          0 < c.metrics.highCostRequestCount → c.metrics.tags.contains .highCost = true := by
        intro c hc
        obtain ⟨d, hd, rfl⟩ := List.mem_map.1 hc
        refine (freshBelow d hd).costly (h.2.2.2 d hd) ?_
        exact (h.2.2.2 d hd).sumsUp_aggregate limit' (freshBelow d hd) _ (mem_branches.2 (.inl rfl))
      rw [same, own, Metrics.gather_limit limit limit' costly]

theorem Shaped.tagLongDurations (sigma : Float) {levels : List Level} {b : Branch}
    (h : Shaped levels b) : Shaped levels (b.tagLongDurations sigma).1 := by
  unfold Branch.tagLongDurations
  split
  · exact h
  · exact (keeps_tagAbove _).shaped h

end Branch

/-- The limit of costly requests plays no part in taking requests. -/
theorem Builder.addAll_limit (settings : Settings.Analysis) (limit : Nat)
    (links : Catalog.DocLinks) (requests : List Request) : ∀ b : Builder,
      Builder.addAll { settings with highCostRequestLimit := limit } links b requests =
        Builder.addAll settings links b requests := by
  induction requests with
  | nil => exact fun _ => rfl
  | cons r rest ih =>
    intro b
    simp only [addAll, ih]
    rfl

/-- **Every branch is the sum of its requests.** In a finished tree the metrics of each branch are
the sums over the requests at or below it; the duration of a branch that is no request is the sum
over its children. The limit of costly requests has no part in it. -/
theorem Builder.finish_sumsUp (settings : Settings.Analysis) (links : Catalog.DocLinks)
    (requests : List Request) :
    let finished (settings : Settings.Analysis) : Hierarchy :=
      (Builder.addAll settings links {} requests).1.finish settings
    (∀ b ∈ (finished settings).root.branches, b.SumsUp) ∧
      ∀ limit, finished { settings with highCostRequestLimit := limit } = finished settings := by
  intro finished
  obtain ⟨-, files⟩ := Files.addAll links requests (Files.start settings)
  have fresh : (Builder.addAll settings links {} requests).1.root.Fresh :=
    fresh_addAll settings links requests (Branch.Fresh.new "Explorations" .root)
  have shaped := files.shaped.tagLongDurations settings.longDurationSigma
  have tagged := fresh.tagLongDurations settings.longDurationSigma files.shaped
  refine ⟨shaped.sumsUp_aggregate settings.highCostRequestLimit tagged, fun limit => ?_⟩
  show Builder.finish { settings with highCostRequestLimit := limit }
    (Builder.addAll { settings with highCostRequestLimit := limit } links {} requests).1 = _
  rw [addAll_limit]
  unfold finish
  rw [shaped.aggregate_limit limit settings.highCostRequestLimit tagged]
  rfl

end DashCalc.Hierarchy
