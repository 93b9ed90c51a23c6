import DashCalc.Proofs.Hierarchy.Paths
import DashCalc.Proofs.Request.Renumbering
import Mathlib.Data.List.Perm.Basic

/-!
# The leaves of a hierarchy are its requests

A request is added if it is complete and no earlier one was added at its address. The leaves of the
finished tree are the requests that were added, one leaf for each at the path of its address, and a
leaf tells of its own request what `IsLeafOf` lists (`Builder.finish_addAll`).

This is about runs that have an answer. A formula that ends the run leaves no leaf that would tell
of its request (`Builder.not_represents_unfinishedSale`).
-/

namespace DashCalc.Hierarchy

/-! ## What a leaf tells of its request -/

/-- The seconds between two times in milliseconds. A difference that does not fit into 64 bits is
the nearest one that does, and there is no time below zero. -/
def seconds (startTime endTime : Int64) : Float :=
  let difference := endTime.toInt - startTime.toInt
  Decimal.floatOfInt
    (max (min (max difference Int64.minValue.toInt) Int64.maxValue.toInt) 0) / 1000.0

theorem duration_eq (r : Request) : r.duration = r.endTime.map (seconds r.startTime) := by
  have elapsed (endTime : Int64) : Request.elapsed r.startTime endTime =
      max (min (max (endTime.toInt - r.startTime.toInt) Int64.minValue.toInt)
        Int64.maxValue.toInt) 0 := by
    have least : Int64.minValue.toInt = -9223372036854775808 := rfl
    have greatest : Int64.maxValue.toInt = 9223372036854775807 := rfl
    rw [Request.elapsed, least, greatest]
    omega
  unfold Request.duration seconds
  simp only [elapsed]

/-- Whether a branch is the leaf of a request whose expressions came out like this: its key, level
and details, and the metrics apart from the tag for long durations. -/
structure IsLeafOf (threshold : Nat) (r : Request) (expressions : List Expression) (b : Branch) :
    Prop where
  key : b.key = r.id
  level : b.level = .request
  name : b.name = none
  children : b.children = []
  details : b.details = some
    { requestId := r.id
      visualType := r.visualType
      duration := r.endTime.map (seconds r.startTime)
      errorCode := r.errorCode
      errorMessage := r.errorMessage
      badges := r.badges
      expressions
      parameters := r.parameters
      filters := r.filters }
  requestCount : b.metrics.requestCount = 1
  startTime : b.metrics.startTime = some r.startTime
  endTime : b.metrics.endTime = r.endTime
  duration : b.metrics.duration = (r.endTime.map (seconds r.startTime)).getD 0.0
  hasError : b.metrics.hasError = true ↔ ∃ code, r.errorCode = some code
  cost : b.metrics.cost = (expressions.filterMap Expression.cost).sum
  parsedExpressionCount : b.metrics.parsedExpressionCount = (expressions.filter fun e =>
    e.isRead && decide (e.kind ≠ .calculatedField)).length
  highCostRequestCount : b.metrics.highCostRequestCount = if threshold < b.metrics.cost then 1 else 0
  highCost : b.metrics.tags.contains .highCost = true ↔ threshold < b.metrics.cost
  parsingError : b.metrics.tags.contains .parsingError = true ↔
    ∃ e ∈ expressions, ∃ why, e.reading = .refused why
  origin : b.metrics.origin = r.origin
  userAgent : b.metrics.userAgent = r.userAgent

/-- Whether a leaf stands for a request: it is at the path of the address, and is the leaf of the
request as it comes out of its analysis, from some id on. -/
def Represents (settings : Settings.Analysis) (links : Catalog.DocLinks) (r : Request)
    (l : Branch.Located) : Prop :=
  ∃ a taken, r.StandsAt a ∧
    l.1 = [a.type.key, a.exploration, a.sheet, a.sheet ++ "_" ++ a.dataset, a.visual, a.request] ∧
    r.Accounts (r.analyze links settings.dependencyMode taken).1 ∧
    IsLeafOf settings.highCostThreshold r
      (r.analyze links settings.dependencyMode taken).1.expressions l.2

/-- A request is tagged for its cost and for refused formulas, and for nothing else. -/
theorem contains_tags_ofRequest (threshold : Nat) (r : Request) (a : Request.Analysis) (t : Tag) :
    (Metrics.ofRequest threshold r a).tags.contains t = true ↔
      t = .highCost ∧ threshold < a.totalCost ∨ t = .parsingError ∧ a.hasRefusal = true := by
  have empty : (∅ : TagSet).contains t = false := by cases t <;> rfl
  unfold Metrics.ofRequest
  dsimp only
  rw [TagSet.contains_insertIf, TagSet.contains_insertIf, empty, decide_eq_true_iff]
  simp only [Bool.false_eq_true, false_or]

section Leaves

variable {threshold : Nat} {r : Request} {expressions : List Expression}

/-- What is filed of a request is its leaf, if the analysis accounts for everything. -/
theorem isLeafOf_leaf {f : Filing} (stands : f.request.StandsAt f.address)
    (accounts : f.request.Accounts f.analysis) :
    IsLeafOf threshold f.request f.analysis.expressions (f.leaf threshold).2 where
  key := stands.request.symm
  level := rfl
  name := rfl
  children := rfl
  details := by
    rw [← duration_eq]
    rfl
  requestCount := rfl
  startTime := rfl
  endTime := rfl
  duration := by
    rw [← duration_eq]
    rfl
  hasError := Option.isSome_iff_exists
  cost := accounts.totalCost
  parsedExpressionCount := accounts.readCount
  highCostRequestCount := if_congr decide_eq_true_iff rfl rfl
  highCost := (contains_tags_ofRequest ..).trans (by simp [Filing.leaf, Metrics.ofRequest])
  parsingError := (contains_tags_ofRequest ..).trans (by simp [accounts.hasRefusal])
  origin := rfl
  userAgent := rfl

/-- The tag for long durations makes no difference to what is told. -/
theorem isLeafOf_unmarked {b : Branch} :
    IsLeafOf threshold r expressions b.unmarked ↔ IsLeafOf threshold r expressions b :=
  ⟨fun h => { h with }, fun h => { h with }⟩

end Leaves

/-! ## Runs -/

/-- What looks alike up to the order can be put in the same order. -/
theorem exists_perm_forall₂ {α β γ : Type} {f : α → γ} {g : β → γ} {xs : List α} {ys : List β}
    (h : (xs.map f).Perm (ys.map g)) :
    ∃ zs : List β, zs.Perm ys ∧ List.Forall₂ (fun x z => f x = g z) xs zs := by
  have own : List.Forall₂ (fun u y => u = g y) (ys.map g) ys :=
    List.forall₂_map_left_iff.2 (List.forall₂_same.2 fun _ _ => rfl)
  obtain ⟨zs, each, perm⟩ := List.perm_comp_forall₂ h own
  exact ⟨zs, perm, List.forall₂_map_left_iff.1 each⟩

namespace Builder

variable {settings : Settings.Analysis}

/-- A run has no answer if the analysis of a request that is filed has none. -/
theorem Files.isAbandoned_addAll (links : Catalog.DocLinks) (requests : List Request) :
    ∀ {b : Builder} {filed : List Filing}, Files settings b filed →
      (Builder.addAll settings links b requests).1.isAbandoned = (b.isAbandoned ||
        ((filings links settings.dependencyMode (filed.map Filing.address) b.taken
          requests).filterMap id).any fun f => f.analysis.isAbandoned) := by
  induction requests with
  | nil => exact fun _ => (Bool.or_false _).symm
  | cons r rest ih =>
    intro b filed h
    simp only [Builder.addAll]
    cases hr : filing? links settings.dependencyMode (filed.map Filing.address) b.taken r with
    | none =>
      obtain ⟨hadded, hfiles, htaken⟩ := h.add_none hr
      rw [ih hfiles, htaken, isAbandoned_add, hadded, filings_cons_none hr, Bool.false_and,
        Bool.or_false]
      rfl
    | some f =>
      obtain ⟨hadded, hfiles, htaken⟩ := h.add_some hr
      obtain ⟨-, -, -, hanalysis⟩ := filing?_eq_some.1 hr
      rw [ih hfiles, htaken, isAbandoned_add, hadded, ← hanalysis, filings_cons_some hr,
        Bool.true_and, Bool.or_assoc]
      rfl

/-- What is filed by a run that has an answer stands for its request at any leaf that looks like
it. -/
theorem represents_of_filing {links : Catalog.DocLinks} {requests : List Request} {f : Filing}
    (filed : some f ∈ filings links settings.dependencyMode [] 0 requests)
    (answered : f.analysis.isAbandoned = false) {l : Branch.Located}
    (same : Branch.unmark (f.leaf settings.highCostThreshold) = Branch.unmark l) :
    Represents settings links f.request l := by
  obtain ⟨i, hi⟩ := List.mem_iff_getElem?.1 filed
  obtain ⟨-, ha, taken, hanalysis⟩ := filing_of_getElem? requests hi
  have stands := Address.standsAt_iff.2 ha
  rw [hanalysis] at answered
  have accounts : f.request.Accounts f.analysis := hanalysis ▸ Request.accounts_of_each
    (Request.exists_analyze_eq ..) (Request.forall₂_accounted _ _ _ _ answered)
  have told : IsLeafOf settings.highCostThreshold f.request f.analysis.expressions
    (f.leaf settings.highCostThreshold).2 := isLeafOf_leaf stands accounts
  obtain ⟨path, leaf⟩ := Prod.mk.inj same
  rw [← isLeafOf_unmarked, leaf, isLeafOf_unmarked] at told
  refine ⟨f.address, taken, stands, path.symm, ?_⟩
  rw [← hanalysis]
  exact ⟨accounts, told⟩

/-- **The hierarchy keeps the first request of each address.** Where a run has an answer, a request
is added if it is complete and no earlier one was added at its address. The leaves of the finished
tree, in some order, are those of the requests that were added, one for each, at the path of its
address and with the data of that request; no two are at one path, and each is found at its own. -/
theorem finish_addAll (settings : Settings.Analysis) (links : Catalog.DocLinks)
    (requests : List Request)
    (answered : (Builder.addAll settings links {} requests).1.isAbandoned = false) :
    let run := Builder.addAll settings links {} requests
    let tree := (run.1.finish settings).root
    run.2.length = requests.length ∧
      (∀ (i : Nat) (r : Request), requests[i]? = some r → (run.2[i]? = some true ↔
        r.IsComplete ∧ ∀ j < i, ∀ r' : Request, requests[j]? = some r' →
          run.2[j]? = some true → ¬∃ a, r'.StandsAt a ∧ r.StandsAt a)) ∧
      (∃ leaves : List Branch.Located, leaves.Perm tree.leaves ∧
        List.Forall₂ (Represents settings links) (kept requests run.2) leaves) ∧
      (tree.leaves.map Prod.fst).Nodup ∧
      (∀ path b, (path, b) ∈ tree.leaves → tree.find? path = some b) ∧
      tree.leaves.map Prod.snd = tree.requests ∧
      ∀ b ∈ tree.branches, b.level = .request ↔ b.details.isSome := by
  intro run tree
  let filed := (filings links settings.dependencyMode [] 0 requests).filterMap id
  have start := Files.start settings
  obtain ⟨hadded, hfiles⟩ := Files.addAll links requests start
  rw [List.append_nil] at hfiles
  obtain ⟨hshaped, hleaves⟩ := finish_leaves settings hfiles.shaped
  have leaves : (filed.map (Branch.unmark ∘ Filing.leaf settings.highCostThreshold)).Perm
      (tree.leaves.map Branch.unmark) := by
    rw [hleaves, ← List.map_map]
    exact (hfiles.leaves.map Branch.unmark).symm
  have answers : ∀ f ∈ filed, f.analysis.isAbandoned = false := by
    have abandoned := start.isAbandoned_addAll links requests
    rw [answered] at abandoned
    exact fun f hf => Bool.eq_false_iff.2 (List.any_eq_false.1 abandoned.symm f hf)
  refine ⟨?_, fun i r hr => ?_, ?_, ?_, ?_, Branch.map_snd_leaves tree, ?_⟩
  · rw [hadded, List.length_map, length_filings]
  · rw [hadded]
    exact isFiled_iff hr
  · -- in the order in which requests were filed, each leaf looks like its filing
    obtain ⟨ls, perm, alike⟩ := exists_perm_forall₂ leaves
    refine ⟨ls, perm, ?_⟩
    rw [hadded, ← map_request_filings, List.forall₂_map_left_iff]
    refine ((List.forall₂_and_left filed ls).2 ⟨fun f hf => hf, alike⟩).imp ?_
    rintro f l ⟨hf, same⟩
    obtain ⟨_, filed, rfl⟩ := List.mem_filterMap.1 hf
    exact represents_of_filing filed (answers f hf) same
  · have paths := leaves.map Prod.fst
    rw [List.map_map, List.map_map] at paths
    exact paths.nodup_iff.1 (nodup_paths requests)
  · exact fun path b hb => (hshaped.mem_leaves.1 hb).2
  · exact Branch.Shaped.level_iff Level.all.dropLast hshaped (by decide)

/-- A request for the sum of sales, which failed. -/
def failedSale : Request :=
  { salesRequest "a" "b_c" with
    metrics := [⟨"sales", none, some "SUM"⟩]
    errorCode := some "TIMEOUT" }

/-- Sheets and datasets that look alike once they are put together stay apart; what comes again
later or has no sheet is left out. The request that failed costs as much as a sum. -/
theorem finish_addAll_sales :
    let run := Builder.addAll {} .off {} [failedSale, salesRequest "a_b" "c",
      salesRequest "a" "b_c", salesRequest "" "c"]
    run.1.isAbandoned = false ∧ run.2 = [true, true, false, false] ∧
      ∃ first second : Branch,
        [(["Dashboards", "sales", "a", "a_b_c", "map", "first"], first),
          (["Dashboards", "sales", "a_b", "a_b_c", "map", "first"], second)].Perm
            (run.1.finish {}).root.leaves ∧
          first.metrics.cost = 5 ∧ first.metrics.hasError = true ∧ second.metrics.origin = none := by
  intro run
  have facts : run.1.isAbandoned = false ∧ run.2 = [true, true, false, false] ∧
      (failedSale.analyze .off .exhaustive 0).1.totalCost = 5 := by
    decide +kernel
  obtain ⟨answered, added, five⟩ := facts
  obtain ⟨-, -, ⟨leaves, perm, each⟩, -⟩ := finish_addAll {} .off [failedSale,
    salesRequest "a_b" "c", salesRequest "a" "b_c", salesRequest "" "c"] answered
  rw [added] at each
  obtain ⟨⟨path, first⟩, _, ⟨_, taken, stands, hpath, accounts, told⟩, others, rfl⟩ :=
    List.forall₂_cons_left_iff.1 each
  obtain ⟨⟨path', second⟩, _, ⟨_, _, stands', hpath', -, told'⟩, ⟨⟩, rfl⟩ :=
    List.forall₂_cons_left_iff.1 others
  cases Address.standsAt_iff.1 stands
  cases Address.standsAt_iff.1 stands'
  cases hpath
  cases hpath'
  have cost : first.metrics.cost = 5 := by
    rw [told.cost, ← accounts.totalCost, ← five]
    exact (Request.analyze_sums .off .exhaustive failedSale taken 0).1
  exact ⟨answered, added, first, second, perm, cost, told.hasError.2 ⟨"TIMEOUT", rfl⟩,
    told'.origin⟩

/-- A request that could be added, but for a formula that ends the run. -/
def unfinishedSale : Request :=
  { salesRequest "a" "b" with calculatedFields := [⟨"half", some "1 DIV", none⟩] }

/-- A complete request may have no answer, and then no leaf stands for it. -/
theorem not_represents_unfinishedSale :
    unfinishedSale.IsComplete ∧ (Builder.addAll {} .off {} [unfinishedSale]).1.isAbandoned = true ∧
      ∀ l, ¬Represents {} .off unfinishedSale l := by
  have abandoned : (Builder.addAll {} .off {} [unfinishedSale]).1.isAbandoned = true ∧
      (unfinishedSale.analyze .off .exhaustive 0).1.isAbandoned = true := by
    decide +kernel
  refine ⟨?_, abandoned.1, ?_⟩
  · exact ⟨.inl ⟨"sales", rfl, by decide⟩, ⟨"a", rfl, by decide⟩, "map", rfl, by decide⟩
  · rintro l ⟨_, taken, -, -, accounts, -⟩
    -- an analysis from another id on would have no answer either
    have answered := accounts.answered
    rw [Request.isAbandoned_unnumbered _ _ _ _ 0] at answered
    exact Bool.false_ne_true (answered.symm.trans abandoned.2)

end Builder

end DashCalc.Hierarchy
