import DashCalc.Proofs.Hierarchy.Paths
import DashCalc.Proofs.Hierarchy.Totals
import DashCalc.Proofs.Request.Renumbering
import Mathlib.Algebra.BigOperators.Group.List.Basic

/-!
# The order of arrival

Requests with different addresses may come in any order: the finished hierarchies have the same
paths and the same counts, and at each path the same level and metrics, apart from the duration,
the tag for long durations, origin and user agent (`Builder.finish_perm`).

The branch at a path sums up the requests below it, and these are the leaves whose paths begin with
the path (`Branch.Shaped.leaves_below`). Their metrics do not depend on what came before
(`Request.analyze_sums`), so the order only permutes them.
-/

namespace DashCalc.Hierarchy

/-! ## What does not depend on the order -/

/-- The metrics without those that depend on the order: the duration, the tag for long ones, origin
and user agent. -/
def Metrics.settled (m : Metrics) : Metrics :=
  { m with
    duration := 0.0
    tags := { m.tags with longDuration := false }
    origin := none
    userAgent := none }

/-- The level and the metrics of a branch, as far as they do not depend on the order. -/
def Branch.digest (b : Branch) : Level × Metrics := (b.level, b.metrics.settled)

/-- Values in another order have the same first one. -/
theorem IsFirst.eq_of_perm {α : Type} {le : α → α → Prop} {values values' : List α}
    {first first' : Option α} (antisymm : ∀ u v, le u v → le v u → u = v)
    (h : IsFirst le values first) (h' : IsFirst le values' first') (perm : values.Perm values') :
    first = first' := by
  cases hu : first with
  | none =>
    refine (h'.absent.2 ?_).symm
    exact (h.absent.1 hu ▸ perm).nil_eq.symm
  | some u =>
    cases hv : first' with
    | none =>
      have empty : values = [] := (h'.absent.1 hv ▸ perm).eq_nil
      rw [h.absent.2 empty] at hu
      cases hu
    | some v =>
      obtain ⟨hmem, hle⟩ := h.present u hu
      obtain ⟨hmem', hle'⟩ := h'.present v hv
      exact congrArg some
        (antisymm u v (hle v (perm.mem_iff.2 hmem')) (hle' u (perm.mem_iff.1 hmem)))

namespace Branch

/-- Branches that sum up requests with the same metrics have the same metrics, as far as they do not
depend on the order. -/
theorem SumsUp.settled_eq {b b' : Branch} (h : b.SumsUp) (h' : b'.SumsUp)
    (own : ∀ l ∈ b.requests, l.hasErrorCode = l.metrics.hasError)
    (own' : ∀ l ∈ b'.requests, l.hasErrorCode = l.metrics.hasError)
    (perm : (b.requests.map digest).Perm (b'.requests.map digest)) :
    b.metrics.settled = b'.metrics.settled := by
  have values {α : Type} (view : Level × Metrics → α) :
      (b.requests.map fun l => view l.digest).Perm (b'.requests.map fun l => view l.digest) := by
    have viewed := perm.map view
    rwa [List.map_map, List.map_map] at viewed
  have some_values {α : Type} (view : Level × Metrics → Option α) :
      (b.requests.filterMap fun l => view l.digest).Perm
        (b'.requests.filterMap fun l => view l.digest) := by
    have viewed := perm.filterMap view
    rwa [List.filterMap_map, List.filterMap_map] at viewed
  have any_value (view : Level × Metrics → Bool) :
      (b.requests.any fun l => view l.digest) = b'.requests.any fun l => view l.digest := by
    have viewed := perm.any_eq (f := view)
    rwa [List.any_map, List.any_map] at viewed
  have failed (c : Branch) (own : ∀ l ∈ c.requests, l.hasErrorCode = l.metrics.hasError) :
      c.requests.any hasErrorCode = c.requests.any fun l => l.digest.2.hasError := by
    rw [Bool.eq_iff_iff, List.any_eq_true, List.any_eq_true]
    refine exists_congr fun l => and_congr_right fun hl => ?_
    rw [own l hl]
    rfl
  have length : b.requests.length = b'.requests.length := by
    have lengths := perm.length_eq
    rwa [List.length_map, List.length_map] at lengths
  unfold Metrics.settled
  rw [Metrics.mk.injEq]
  refine ⟨rfl, ?_, ?_, ?_, ?_, ?_, ?_, ?_, TagSet.ext fun t => ?_, rfl, rfl⟩
  · rw [h.requestCount, h'.requestCount, length]
  · exact h.startTime.eq_of_perm (fun _ _ => Int64.le_antisymm) h'.startTime
      (some_values (·.2.startTime))
  · exact h.endTime.eq_of_perm (fun _ _ huv hvu => Int64.le_antisymm hvu huv) h'.endTime
      (some_values (·.2.endTime))
  · rw [h.hasError, h'.hasError, failed b own, failed b' own']
    exact any_value (·.2.hasError)
  · rw [h.cost, h'.cost]
    exact (values (·.2.cost)).sum_eq
  · rw [h.parsedExpressionCount, h'.parsedExpressionCount]
    exact (values (·.2.parsedExpressionCount)).sum_eq
  · rw [h.highCostRequestCount, h'.highCostRequestCount]
    exact (values (·.2.highCostRequestCount)).sum_eq
  · cases t with
    | longDuration => rfl
    | highCost =>
      refine (h.tags .highCost).trans (Eq.trans ?_ (h'.tags .highCost).symm)
      exact any_value (·.2.tags.highCost)
    | parsingError =>
      refine (h.tags .parsingError).trans (Eq.trans ?_ (h'.tags .parsingError).symm)
      exact any_value (·.2.tags.parsingError)

/-- The leaves below a branch, by the keys that lead to the branch, are those of the tree whose
paths begin with these keys. -/
theorem Shaped.leaves_below {levels : List Level} {b c : Branch} (h : Shaped levels b)
    {keys : List String} (found : b.find? keys = some c) :
    (b.leaves.filter fun l => decide (keys <+: l.1)).Perm (c.leaves.map (underAll keys)) := by
  have shaped := h.of_find? found
  have fits : keys.length < levels.length := by
    refine Nat.lt_of_not_le fun long => ?_
    rw [List.drop_eq_nil_of_le long] at shaped
    exact shaped
  have nodup (b : Branch) {levels : List Level} (h : Shaped levels b) : b.leaves.Nodup :=
    h.nodup_leaves.of_map _
  have injective : Function.Injective (underAll keys) := by
    rintro ⟨rest, l⟩ ⟨rest', l'⟩ e
    obtain ⟨hkeys, hl⟩ := Prod.mk.inj e
    exact Prod.ext (List.append_cancel_left hkeys) hl
  refine (List.perm_ext_iff_of_nodup ((nodup b h).filter _) ((nodup c shaped).map injective)).2 ?_
  rintro ⟨path, l⟩
  rw [List.mem_filter, List.mem_map, decide_eq_true_iff, h.mem_leaves]
  constructor
  · rintro ⟨⟨hlength, hfound⟩, rest, rfl⟩
    rw [find?_append, found] at hfound
    refine ⟨(rest, l), shaped.mem_leaves.2 ⟨?_, hfound⟩, rfl⟩
    rw [List.length_append] at hlength
    rw [List.length_drop]
    omega
  · rintro ⟨⟨rest, l⟩, hmem, ⟨⟩⟩
    dsimp only
    obtain ⟨hlength, hfound⟩ := shaped.mem_leaves.1 hmem
    rw [List.length_drop] at hlength
    refine ⟨⟨?_, ?_⟩, rest, rfl⟩
    · rw [List.length_append]
      omega
    · rw [find?_append, found]
      exact hfound

end Branch

/-! ## Counts -/

namespace Address

/-- Notes the id that an address has of some kind, if it has one. -/
def noteAs (kind : Address → Option String) (ids : List String) (a : Address) : List String :=
  (kind a).elim ids (addNew ids)

variable {kind : Address → Option String}

theorem nodup_noteAs {ids : List String} (h : ids.Nodup) (a : Address) :
    (noteAs kind ids a).Nodup := by
  unfold noteAs
  cases kind a with
  | none => exact h
  | some id => exact nodup_addNew id h

theorem mem_noteAs {ids : List String} {a : Address} {x : String} :
    x ∈ noteAs kind ids a ↔ x ∈ ids ∨ kind a = some x := by
  unfold noteAs
  cases kind a with
  | none => simp
  | some id => simp [mem_addNew, eq_comm]

theorem nodup_foldl_noteAs (as : List Address) : ∀ {ids : List String}, ids.Nodup →
    (as.foldl (noteAs kind) ids).Nodup := by
  induction as with
  | nil => exact id
  | cons a as ih => exact fun h => ih (nodup_noteAs h a)

theorem mem_foldl_noteAs (as : List Address) {x : String} : ∀ {ids : List String},
    x ∈ as.foldl (noteAs kind) ids ↔ x ∈ ids ∨ ∃ a ∈ as, kind a = some x := by
  induction as with
  | nil => simp
  | cons a as ih =>
    intro ids
    rw [List.foldl_cons, ih, mem_noteAs, or_assoc]
    simp

/-- Addresses in another order have as many different ids. -/
theorem length_foldl_noteAs {as as' : List Address} (perm : as.Perm as') :
    (as.foldl (noteAs kind) []).length = (as'.foldl (noteAs kind) []).length := by
  refine List.Perm.length_eq ((List.perm_ext_iff_of_nodup (nodup_foldl_noteAs as List.nodup_nil)
    (nodup_foldl_noteAs as' List.nodup_nil)).2 fun x => ?_)
  rw [mem_foldl_noteAs, mem_foldl_noteAs]
  simp only [perm.mem_iff]

/-- The id of the exploration, if it is of this type. -/
def explorationOf (type : ExplorationType) (a : Address) : Option String :=
  if a.type = type then some a.exploration else none

theorem foldl_note (as : List Address) : ∀ s : Seen, as.foldl (fun s a => a.note s) s =
    { dashboards := as.foldl (noteAs (explorationOf .dashboards)) s.dashboards
      analyses := as.foldl (noteAs (explorationOf .analyses)) s.analyses
      sheets := as.foldl (noteAs fun a => some a.sheet) s.sheets
      visuals := as.foldl (noteAs fun a => some a.visual) s.visuals
      requests := as.foldl (noteAs fun a => some a.request) s.requests } := by
  have exploration (type : ExplorationType) (ids : List String) (a : Address) :
      noteAs (explorationOf type) ids a =
        if a.type = type then addNew ids a.exploration else ids := by
    unfold noteAs explorationOf
    split <;> rfl
  induction as with
  | nil => exact fun _ => rfl
  | cons a as ih =>
    intro s
    rw [List.foldl_cons, ih]
    simp only [List.foldl_cons, note, exploration]
    rfl

/-- Addresses in another order give the same counts. -/
theorem counts_foldl_note {as as' : List Address} (perm : as.Perm as') :
    (as.foldl (fun s a => a.note s) ({} : Seen)).counts =
      (as'.foldl (fun s a => a.note s) ({} : Seen)).counts := by
  rw [foldl_note, foldl_note]
  simp only [Seen.counts, Counts.mk.injEq]
  exact ⟨length_foldl_noteAs perm, length_foldl_noteAs perm, length_foldl_noteAs perm,
    length_foldl_noteAs perm, length_foldl_noteAs perm⟩

end Address

/-! ## What is filed, without ids -/

/-- A filed request by its address and its metrics, as far as these do not depend on the order. -/
abbrev Entry := Address × Metrics

def Filing.entry (threshold : Nat) (f : Filing) : Entry :=
  (f.address, (Metrics.ofRequest threshold f.request f.analysis).settled)

/-- The entry of a request that has an address, wherever its ids begin. -/
def entryFor? (settings : Settings.Analysis) (links : Catalog.DocLinks) (r : Request) :
    Option Entry :=
  (Address.ofRequest? r).map fun a =>
    (a, (Metrics.ofRequest settings.highCostThreshold r
      (r.analyze links settings.dependencyMode 0).1).settled)

theorem Metrics.ofRequest_analyze (threshold : Nat) (links : Catalog.DocLinks) (mode : Cost.Mode)
    (r : Request) (taken taken' : Nat) : ofRequest threshold r (r.analyze links mode taken).1 =
      ofRequest threshold r (r.analyze links mode taken').1 := by
  obtain ⟨cost, refusal, count⟩ := r.analyze_sums links mode taken taken'
  unfold ofRequest
  rw [cost, refusal, count]

/-- Requests with different addresses that are not known are all filed, each with its entry. -/
theorem map_entry_filings (settings : Settings.Analysis) (links : Catalog.DocLinks)
    (requests : List Request) : ∀ {known : List Address} {taken : Nat},
      (requests.filterMap Address.ofRequest?).Nodup →
      (∀ a ∈ requests.filterMap Address.ofRequest?, a ∉ known) →
      ((filings links settings.dependencyMode known taken requests).filterMap id).map
          (Filing.entry settings.highCostThreshold) =
        requests.filterMap (entryFor? settings links) := by
  induction requests with
  | nil => exact fun _ _ => rfl
  | cons r rest ih =>
    intro known taken distinct new
    cases ha : Address.ofRequest? r with
    | none =>
      have incomplete : filing? links settings.dependencyMode known taken r = none :=
        filing?_eq_none.2 fun a h => absurd (ha.symm.trans h) nofun
      have no_entry : entryFor? settings links r = none := by
        unfold entryFor?
        rw [ha]
        rfl
      rw [List.filterMap_cons_none ha] at distinct new
      rw [filings_cons_none incomplete, List.filterMap_cons_none rfl,
        List.filterMap_cons_none no_entry]
      exact ih distinct new
    | some a =>
      rw [List.filterMap_cons_some ha] at distinct new
      obtain ⟨hfirst, hrest⟩ := List.nodup_cons.1 distinct
      obtain ⟨hnew, hlater⟩ := List.forall_mem_cons.1 new
      have filed : filing? links settings.dependencyMode known taken r =
          some ⟨a, r, (r.analyze links settings.dependencyMode taken).1⟩ :=
        filing?_eq_some.2 ⟨ha, hnew, rfl, rfl⟩
      have entry : entryFor? settings links r = some (Filing.entry settings.highCostThreshold
          ⟨a, r, (r.analyze links settings.dependencyMode taken).1⟩) := by
        unfold entryFor? Filing.entry
        rw [ha, Metrics.ofRequest_analyze _ links _ r 0 taken]
        rfl
      have later : ∀ other ∈ rest.filterMap Address.ofRequest?, other ∉ a :: known := by
        intro other hother hmem
        rcases List.mem_cons.1 hmem with rfl | hmem
        · exact hfirst hother
        · exact hlater other hother hmem
      rw [filings_cons_some filed, List.filterMap_cons_some entry, ← ih hrest later]
      rfl

/-! ## Finished hierarchies -/

/-- Whether a finished hierarchy is one of these entries: its leaves are the entries, every branch
sums up its requests, and paths and counts are those of the addresses. -/
structure Comprises (h : Hierarchy) (entries : List Entry) : Prop where
  shaped : Branch.Shaped Level.all h.root
  sums : ∀ b ∈ h.root.branches, b.SumsUp
  own : ∀ l ∈ h.root.requests, l.hasErrorCode = l.metrics.hasError
  leaves : (h.root.leaves.map fun l => (l.1, l.2.digest)).Perm
    (entries.map fun e => (e.1.path, Level.request, e.2))
  paths : ∀ keys, (h.root.find? keys).isSome ↔ keys = [] ∨ ∃ e ∈ entries, keys <+: e.1.path
  counts : h.counts = ((entries.map Prod.fst).foldl (fun s a => a.note s) ({} : Seen)).counts

namespace Builder

variable {settings : Settings.Analysis} {links : Catalog.DocLinks} {b : Builder}
  {filed : List Filing}

/-- A run notes the addresses of what it files, in that order. -/
theorem Files.seen_addAll (links : Catalog.DocLinks) (requests : List Request) : ∀ {b : Builder}
    {filed : List Filing}, Files settings b filed →
      (Builder.addAll settings links b requests).1.seen =
        (((filings links settings.dependencyMode (filed.map Filing.address) b.taken
          requests).filterMap id).map Filing.address).foldl (fun s a => a.note s) b.seen := by
  induction requests with
  | nil => exact fun _ => rfl
  | cons r rest ih =>
    intro b filed h
    simp only [Builder.addAll]
    cases hr : filing? links settings.dependencyMode (filed.map Filing.address) b.taken r with
    | none =>
      obtain ⟨hadded, hfiles, htaken⟩ := h.add_none hr
      rw [ih hfiles, htaken, seen_add, hadded, filings_cons_none hr]
      rfl
    | some f =>
      obtain ⟨hadded, hfiles, htaken⟩ := h.add_some hr
      obtain ⟨hf, -⟩ := filing?_eq_some.1 hr
      rw [ih hfiles, htaken, seen_add, hadded, hf, filings_cons_some hr]
      rfl

/-- Whatever is finished comprises the entries of its requests, if these have different
addresses. -/
theorem comprises_finish (settings : Settings.Analysis) (links : Catalog.DocLinks)
    {requests : List Request} (distinct : (requests.filterMap Address.ofRequest?).Nodup) :
    Comprises ((addAll settings links {} requests).1.finish settings)
      (requests.filterMap (entryFor? settings links)) := by
  let filed := (filings links settings.dependencyMode [] 0 requests).filterMap id
  have start := Files.start settings
  obtain ⟨-, files⟩ := Files.addAll links requests start
  have reaches := Reaches.addAll links requests Reaches.start start
  have seen : (addAll settings links {} requests).1.seen =
      (filed.map Filing.address).foldl (fun s a => a.note s) {} := start.seen_addAll links requests
  rw [List.append_nil] at files reaches
  change Files settings _ filed at files
  change Reaches _ filed at reaches
  have entries : filed.map (Filing.entry settings.highCostThreshold) =
      requests.filterMap (entryFor? settings links) :=
    map_entry_filings settings links requests distinct fun _ _ => List.not_mem_nil
  rw [← entries]
  have fresh : (addAll settings links {} requests).1.root.Fresh :=
    fresh_addAll settings links requests (Branch.Fresh.new "Explorations" .root)
  have shaped := files.shaped.tagLongDurations settings.longDurationSigma
  have tagged := fresh.tagLongDurations settings.longDurationSigma files.shaped
  refine ⟨(finish_leaves settings files.shaped).1, shaped.sumsUp_aggregate _ tagged, ?_, ?_, ?_, ?_⟩
  · intro l hl
    rw [finish, shaped.requests_aggregate] at hl
    obtain ⟨hmem, hsome⟩ := List.mem_filter.1 hl
    obtain ⟨d, hd⟩ := Option.isSome_iff_exists.1 hsome
    have own := tagged l hmem
    rw [hd] at own
    rw [own.2.1, Branch.hasErrorCode, hd]
    rfl
  · -- what is looked at of a leaf does not depend on the tag that finishing may give it
    have digest (ls : List Branch.Located) : ls.map (fun l => (l.1, l.2.digest)) =
        (ls.map Branch.unmark).map fun l => (l.1, l.2.digest) := by
      rw [List.map_map]
      rfl
    rw [digest, (finish_leaves settings files.shaped).2, ← digest]
    have kept := files.leaves.map fun l : Branch.Located => (l.1, l.2.digest)
    rw [List.map_map] at kept ⊢
    exact kept
  · intro keys
    rw [isSome_find?_finish, reaches keys]
    simp [Filing.entry]
  · unfold finish
    rw [seen, List.map_map]
    rfl

end Builder

namespace Comprises

variable {h h' : Hierarchy} {entries entries' : List Entry}

/-- What keys lead to sums up its requests, and these say themselves whether they failed. -/
theorem found (hc : Comprises h entries) {keys : List String} {b : Branch}
    (found : h.root.find? keys = some b) :
    b.SumsUp ∧ ∀ l ∈ b.requests, l.hasErrorCode = l.metrics.hasError := by
  have here : b ∈ h.root.branches := by
    rw [← Branch.map_snd_located]
    exact List.mem_map_of_mem (hc.shaped.mem_located.2 found)
  refine ⟨hc.sums b here, fun l hl => hc.own l ?_⟩
  obtain ⟨hmem, hsome⟩ := List.mem_filter.1 hl
  exact List.mem_filter.2 ⟨Branch.branches_trans h.root here hmem, hsome⟩

/-- The requests below some keys are the entries whose paths begin with these keys. -/
theorem requests_below (hc : Comprises h entries) {keys : List String} {b : Branch}
    (found : h.root.find? keys = some b) : (b.requests.map Branch.digest).Perm
      ((entries.filter fun e => decide (keys <+: e.1.path)).map fun e => (Level.request, e.2)) := by
  have below := (hc.shaped.leaves_below found).map fun l => l.2.digest
  have all := (hc.leaves.filter fun l => decide (keys <+: l.1)).map Prod.snd
  rw [List.filter_map, List.filter_map, List.map_map, List.map_map] at all
  rw [List.map_map] at below
  rw [← Branch.map_snd_leaves, List.map_map]
  exact below.symm.trans all

/-- Hierarchies of the same entries in another order have the same paths, and at each path the same
level and metrics, as far as these do not depend on the order. -/
theorem digest_find? (hc : Comprises h entries) (hc' : Comprises h' entries')
    (perm : entries.Perm entries') (keys : List String) :
    (h.root.find? keys).map Branch.digest = (h'.root.find? keys).map Branch.digest := by
  have paths : (h.root.find? keys).isSome ↔ (h'.root.find? keys).isSome := by
    rw [hc.paths, hc'.paths]
    simp only [perm.mem_iff]
  cases hb : h.root.find? keys with
  | none =>
    rw [hb] at paths
    rw [Option.not_isSome_iff_eq_none.1 (paths.not.1 Bool.false_ne_true)]
  | some b =>
    rw [hb] at paths
    obtain ⟨b', hb'⟩ := Option.isSome_iff_exists.1 (paths.1 rfl)
    obtain ⟨sums, own⟩ := hc.found hb
    obtain ⟨sums', own'⟩ := hc'.found hb'
    have requests := (hc.requests_below hb).trans
      (((perm.filter _).map _).trans (hc'.requests_below hb').symm)
    have level : b.level = b'.level := by
      have shaped := hc.shaped.of_find? hb
      have shaped' := hc'.shaped.of_find? hb'
      cases hlevels : Level.all.drop keys.length with
      | nil =>
        rw [hlevels] at shaped
        exact shaped.elim
      | cons level below =>
        rw [hlevels] at shaped shaped'
        exact shaped.1.trans shaped'.1.symm
    rw [hb', Option.map_some, Option.map_some, Branch.digest, level,
      sums.settled_eq sums' own own' requests]
    rfl

/-- So the branches with their paths are the same in another order. -/
theorem digest_located (hc : Comprises h entries) (hc' : Comprises h' entries')
    (perm : entries.Perm entries') :
    (h.root.located.map fun l => (l.1, l.2.digest)).Perm
      (h'.root.located.map fun l => (l.1, l.2.digest)) := by
  have nodup {h : Hierarchy} {entries : List Entry} (hc : Comprises h entries) :
      (h.root.located.map fun l => (l.1, l.2.digest)).Nodup := by
    refine List.Nodup.of_map Prod.fst ?_
    rw [List.map_map]
    exact hc.shaped.nodup_located
  have mem {h : Hierarchy} {entries : List Entry} (hc : Comprises h entries)
      (keys : List String) (digest : Level × Metrics) :
      (keys, digest) ∈ (h.root.located.map fun l => (l.1, l.2.digest)) ↔
        (h.root.find? keys).map Branch.digest = some digest := by
    rw [List.mem_map, Option.map_eq_some_iff]
    constructor
    · rintro ⟨⟨_, b⟩, hmem, ⟨⟩⟩
      exact ⟨b, hc.shaped.mem_located.1 hmem, rfl⟩
    · rintro ⟨b, hb, rfl⟩
      exact ⟨(keys, b), hc.shaped.mem_located.2 hb, rfl⟩
  refine (List.perm_ext_iff_of_nodup (nodup hc) (nodup hc')).2 ?_
  rintro ⟨keys, digest⟩
  rw [mem hc, mem hc', hc.digest_find? hc' perm]

end Comprises

/-- **The order of arrival does not matter.** Requests with different addresses give, in any order,
the same counts, the same paths, and at each path the same level and metrics, apart from the
duration, the tag for long durations, origin and user agent. Requests without an address are left
out in any order. -/
theorem Builder.finish_perm (settings : Settings.Analysis) (links : Catalog.DocLinks)
    {requests requests' : List Request} (perm : requests.Perm requests')
    (distinct : (requests.filterMap Address.ofRequest?).Nodup) :
    let h := (addAll settings links {} requests).1.finish settings
    let h' := (addAll settings links {} requests').1.finish settings
    h.counts = h'.counts ∧
      (∀ keys, (h.root.find? keys).map Branch.digest = (h'.root.find? keys).map Branch.digest) ∧
      (h.root.located.map Prod.fst).Nodup ∧
      (h.root.located.map fun l => (l.1, l.2.digest)).Perm
        (h'.root.located.map fun l => (l.1, l.2.digest)) := by
  intro h h'
  have hc := comprises_finish settings links distinct
  have hc' := comprises_finish settings links ((perm.filterMap _).nodup_iff.1 distinct)
  have entries := perm.filterMap (entryFor? settings links)
  refine ⟨?_, hc.digest_find? hc' entries, hc.shaped.nodup_located, hc.digest_located hc' entries⟩
  exact hc.counts.trans ((Address.counts_foldl_note (entries.map Prod.fst)).trans hc'.counts.symm)

/-- Two requests of one visual, one of which failed at a later time, come to the same in either
order: the visual starts with the earlier one, has an error and has both. -/
theorem Builder.finish_perm_sales :
    let early : Request := { salesRequest "a" "b" with startTime := 1 }
    let late : Request := { salesRequest "a" "b" with
      id := "second", startTime := 2, errorCode := some "TIMEOUT" }
    let visual (requests : List Request) : Option (Level × Metrics) :=
      (((addAll {} .off {} requests).1.finish {}).root.find?
        ["Dashboards", "sales", "a", "a_b", "map"]).map Branch.digest
    visual [late, early] = visual [early, late] ∧
      (visual [early, late]).map (fun d => (d.1, d.2.requestCount, d.2.startTime, d.2.hasError)) =
        some (.visual, 2, some 1, true) := by
  intro early late visual
  have same := finish_perm {} .off (List.Perm.swap early late []) (by decide)
  exact ⟨same.2.1 _, by decide +kernel⟩

end DashCalc.Hierarchy
