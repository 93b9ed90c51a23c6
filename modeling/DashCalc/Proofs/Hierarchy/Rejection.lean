import DashCalc.Proofs.Hierarchy.Paths
import DashCalc.Proofs.Hierarchy.Totals

/-!
# What a rejected request leaves behind

A request that finds no place gives its names to those branches on its way that have none, and
changes nothing else: neither the branches and their order nor metrics, details, ids or counts
(`Builder.Files.add_rejected`). So apart from names (`Branch.unnamed`) the builder goes on as if the
request had not come, and where no name is missing that a rejected request has, the requests that
were kept give the same builder alone (`Builder.addAll_rejects`).
-/

namespace DashCalc.Hierarchy

namespace Branch

/-! ## Filling in names -/

mutual

/-- The tree with names, given by the keys that lead there, for the branches that have none. -/
def fillNames : (List String → Option String) → Branch → Branch
  | name, ⟨key, level, own, metrics, details, children⟩ =>
    ⟨key, level, own <|> name [], metrics, details, fillNamesAll name children⟩

def fillNamesAll : (List String → Option String) → List Branch → List Branch
  | _, [] => []
  | name, b :: rest => fillNames (fun keys => name (b.key :: keys)) b :: fillNamesAll name rest

end

theorem fillNamesAll_eq_map (name : List String → Option String) (bs : List Branch) :
    fillNamesAll name bs = bs.map fun c => c.fillNames fun keys => name (c.key :: keys) := by
  induction bs with
  | nil => rfl
  | cons b bs ih => rw [fillNamesAll, ih, List.map_cons]

theorem fillNames_eq (name : List String → Option String) (b : Branch) : b.fillNames name =
    { b with
      name := b.name <|> name []
      children := b.children.map fun c => c.fillNames fun keys => name (c.key :: keys) } := by
  obtain ⟨key, level, own, metrics, details, children⟩ := b
  rw [fillNames, fillNamesAll_eq_map]

/-- Whether a branch of the tree lacks a name that there is for it. -/
def Misses (b : Branch) (name : List String → Option String) : Prop :=
  ∃ l ∈ b.located, l.2.name = none ∧ (name l.1).isSome

instance (b : Branch) (name : List String → Option String) : Decidable (b.Misses name) :=
  inferInstanceAs (Decidable (∃ l ∈ b.located, l.2.name = none ∧ (name l.1).isSome))

theorem misses_iff {b : Branch} {name : List String → Option String} : b.Misses name ↔
    (b.name = none ∧ (name []).isSome) ∨
      ∃ c ∈ b.children, c.Misses fun keys => name (c.key :: keys) := by
  constructor
  · rintro ⟨l, hmem, hl⟩
    rcases mem_located.1 hmem with rfl | ⟨c, hc, m, hm, rfl⟩
    · exact .inl hl
    · exact .inr ⟨c, hc, m, hm, hl⟩
  · rintro (h | ⟨c, hc, m, hm, hl⟩)
    · exact ⟨([], b), mem_located.2 (.inl rfl), h⟩
    · exact ⟨under c.key m, mem_located.2 (.inr ⟨c, hc, m, hm, rfl⟩), hl⟩

/-- Filling in names changes a tree if there is a name that it lacks, and only then. -/
theorem fillNames_eq_self_iff (b : Branch) : ∀ name : List String → Option String,
    b.fillNames name = b ↔ ¬b.Misses name := by
  induction b using Branch.induction with
  | step b ih =>
    intro name
    have own : (b.name <|> name []) = b.name ↔ ¬(b.name = none ∧ (name []).isSome) := by
      cases b.name <;> cases name [] <;> simp
    have below : (b.children.map fun c => c.fillNames fun keys => name (c.key :: keys)) =
        b.children ↔ ¬∃ c ∈ b.children, c.Misses fun keys => name (c.key :: keys) := by
      have each := List.map_inj_left (l := b.children) (g := id)
        (f := fun c => c.fillNames fun keys => name (c.key :: keys))
      rw [List.map_id] at each
      rw [each, not_exists]
      refine forall_congr' fun c => ?_
      rw [not_and]
      exact forall_congr' fun hc => ih c hc _
    rw [misses_iff, not_or, ← own, ← below, fillNames_eq]
    obtain ⟨key, level, own, metrics, details, children⟩ := b
    simp

theorem fillNames_none (b : Branch) : (b.fillNames fun _ => none) = b := by
  refine (fillNames_eq_self_iff b _).2 ?_
  rintro ⟨l, -, -, h⟩
  cases h

/-- Where siblings have different keys, a change of the one with a key is a change of all that
leaves the others alone. -/
theorem changeAmong_eq_map (made : Branch) {change all : Branch → Branch} {bs : List Branch}
    (nodup : (bs.map Branch.key).Nodup) (known : made.key ∈ bs.map Branch.key)
    (here : ∀ c ∈ bs, c.key = made.key → change c = all c)
    (others : ∀ c ∈ bs, c.key ≠ made.key → all c = c) :
    changeAmong made change bs = bs.map all := by
  induction bs with
  | nil => cases known
  | cons b bs ih =>
    obtain ⟨fresh, nodup⟩ := List.nodup_cons.1 nodup
    by_cases same : b.key = made.key
    · have rest : bs.map all = bs := by
        refine (List.map_congr_left fun c hc => ?_).trans bs.map_id
        refine others c (List.mem_cons_of_mem b hc) fun e => fresh ?_
        exact same.trans e.symm ▸ List.mem_map_of_mem hc
      simp only [changeAmong, same, beq_self_eq_true, if_true, List.map_cons, rest]
      rw [here b List.mem_cons_self same]
    · have later : made.key ∈ bs.map Branch.key :=
        (List.mem_cons.1 known).resolve_left fun e => same e.symm
      simp only [changeAmong, beq_eq_false_iff_ne.2 same, Bool.false_eq_true, if_false,
        List.map_cons]
      rw [ih nodup later (fun c hc => here c (List.mem_cons_of_mem b hc))
        (fun c hc => others c (List.mem_cons_of_mem b hc)), others b List.mem_cons_self same]

/-- Opening a way that is there already fills in its names. -/
theorem Shaped.changeAt_id_eq : ∀ {path : List Place} {levels : List Level} {b : Branch},
    Shaped levels b → (b.find? (path.map Place.key)).isSome →
      Branch.changeAt id path b = b.fillNames (nameAlong path) := by
  intro path
  induction path with
  | nil =>
    intro levels b _ _
    rw [show nameAlong [] = fun _ => none from funext nameAlong_nil_left, fillNames_none]
    rfl
  | cons place path ih =>
    intro levels b h found
    cases levels with
    | nil => exact h.elim
    | cons level below =>
      obtain ⟨last, hfound⟩ := Option.isSome_iff_exists.1 found
      rw [List.map_cons, find?, Option.bind_eq_some_iff] at hfound
      obtain ⟨c, hc, hfound⟩ := hfound
      obtain ⟨hmem, hkey⟩ := h.child?_eq_some.1 hc
      have here (d : Branch) (hd : d ∈ b.children) (hdkey : d.key = place.key) :
          Branch.changeAt id path (d.named place.name) =
            d.fillNames fun keys => nameAlong (place :: path) (d.key :: keys) := by
        obtain rfl : c = d := Option.some.inj (hc.symm.trans (h.child?_eq_some.2 ⟨hd, hdkey⟩))
        have leads : ((c.named place.name).find? (path.map Place.key)).isSome := by
          cases path with
          | nil => rfl
          | cons next path => exact Option.isSome_iff_exists.2 ⟨last, hfound⟩
        rw [ih (shaped_named (h.2.2.2 c hmem) place.name) leads, fillNames_eq, fillNames_eq]
        cases hn : c.name <;> cases hp : place.name <;> simp [named, nameAlong, hkey, hn, hp]
      have others (d : Branch) (hdkey : d.key ≠ place.key) :
          (d.fillNames fun keys => nameAlong (place :: path) (d.key :: keys)) = d := by
        simp only [nameAlong, if_neg hdkey]
        exact fillNames_none d
      have among := changeAmong_eq_map (new place.key place.level) h.2.2.1
        (List.mem_map.2 ⟨c, hmem, hkey⟩) here fun d _ => others d
      rw [Branch.changeAt, among, fillNames_eq]
      simp

/-! ## Trees without names -/

mutual

/-- The tree without names. -/
def unnamed : Branch → Branch
  | ⟨key, level, _, metrics, details, children⟩ =>
    ⟨key, level, none, metrics, details, unnamedAll children⟩

def unnamedAll : List Branch → List Branch
  | [] => []
  | b :: rest => unnamed b :: unnamedAll rest

end

theorem unnamedAll_eq_map (bs : List Branch) : unnamedAll bs = bs.map unnamed := by
  induction bs with
  | nil => rfl
  | cons b bs ih => rw [unnamedAll, ih, List.map_cons]

theorem unnamed_eq (b : Branch) :
    b.unnamed = { b with name := none, children := b.children.map unnamed } := by
  obtain ⟨key, level, name, metrics, details, children⟩ := b
  rw [unnamed, unnamedAll_eq_map]

@[simp]
theorem key_unnamed (b : Branch) : b.unnamed.key = b.key := by rw [unnamed_eq]

@[simp]
theorem metrics_unnamed (b : Branch) : b.unnamed.metrics = b.metrics := by rw [unnamed_eq]

@[simp]
theorem details_unnamed (b : Branch) : b.unnamed.details = b.details := by rw [unnamed_eq]

@[simp]
theorem children_unnamed (b : Branch) : b.unnamed.children = b.children.map unnamed := by
  rw [unnamed_eq]

theorem unnamed_fillNames (b : Branch) : ∀ name : List String → Option String,
    (b.fillNames name).unnamed = b.unnamed := by
  induction b using Branch.induction with
  | step b ih =>
    intro name
    rw [fillNames_eq, unnamed_eq, unnamed_eq b, List.map_map]
    exact congrArg (fun cs => { b with name := none, children := cs })
      (List.map_congr_left fun c hc => ih c hc _)

theorem find?_unnamed (keys : List String) : ∀ b : Branch,
    b.unnamed.find? keys = (b.find? keys).map unnamed := by
  induction keys with
  | nil => exact fun _ => rfl
  | cons key keys ih =>
    intro b
    have child : b.unnamed.child? key = (b.child? key).map unnamed := by
      unfold child?
      rw [children_unnamed, List.find?_map]
      simp only [Function.comp_def, key_unnamed]
    rw [find?, find?, child]
    cases b.child? key with
    | none => rfl
    | some c => exact ih c

/-- A place that gives no name. -/
def Place.unnamed (place : Place) : Place := { place with name := none }

/-- A change that does not look at names commutes with leaving names out. -/
theorem unnamed_changeAt (change : Branch → Branch)
    (h : ∀ c, (change c).unnamed = change c.unnamed) : ∀ (path : List Place) (b : Branch),
      (changeAt change path b).unnamed = changeAt change (path.map Place.unnamed) b.unnamed := by
  have among (made : Branch) (change change' : Branch → Branch)
      (h : ∀ c, (change c).unnamed = change' c.unnamed) (bs : List Branch) :
      (changeAmong made change bs).map unnamed =
        changeAmong made.unnamed change' (bs.map unnamed) := by
    induction bs with
    | nil => simp [changeAmong, h]
    | cons b bs ih =>
      simp only [changeAmong, List.map_cons, key_unnamed]
      split <;> simp [h, ih]
  intro path
  induction path with
  | nil => exact h
  | cons place path ih =>
    intro b
    have step (c : Branch) : (changeAt change path (c.named place.name)).unnamed =
        changeAt change (path.map Place.unnamed) (c.unnamed.named none) := by
      rw [ih, unnamed_eq c, unnamed_eq (c.named place.name)]
      rfl
    rw [changeAt, unnamed_eq, List.map_cons, changeAt, unnamed_eq b]
    exact congrArg (fun cs => { b with name := none, children := cs })
      (among (new place.key place.level) (fun c => changeAt change path (c.named place.name))
        (fun c => changeAt change (path.map Place.unnamed) (c.named none)) step b.children)

/-! ### Finishing -/

theorem requests_unnamed (b : Branch) : b.unnamed.requests = b.requests.map unnamed := by
  induction b using Branch.induction with
  | step b ih =>
    have below : (b.children.map unnamed).flatMap requests =
        (b.children.flatMap requests).map unnamed := by
      rw [List.flatMap_map, List.map_flatMap]
      exact List.flatMap_congr ih
    rw [requests_eq, requests_eq b, details_unnamed, children_unnamed, below, List.map_append]
    split <;> rfl

theorem durations_unnamed (b : Branch) : b.unnamed.durations = b.durations := by
  unfold durations
  rw [requests_unnamed, List.filterMap_map]
  simp only [Function.comp_def, details_unnamed]

theorem unnamed_tagAbove (threshold : Float) (b : Branch) :
    (b.tagAbove threshold).unnamed = b.unnamed.tagAbove threshold := by
  induction b using Branch.induction with
  | step b ih =>
    have below : (b.children.map (tagAbove threshold)).map unnamed =
        (b.children.map unnamed).map (tagAbove threshold) := by
      rw [List.map_map, List.map_map]
      exact List.map_congr_left ih
    rw [tagAbove_eq, unnamed_eq, below, tagAbove_eq, unnamed_eq b]

theorem unnamed_tagLongDurations (sigma : Float) (b : Branch) :
    (b.tagLongDurations sigma).1.unnamed = (b.unnamed.tagLongDurations sigma).1 := by
  unfold tagLongDurations
  rw [durations_unnamed]
  cases DurationStats.ofSamples? b.durations with
  | none => rfl
  | some stats => exact unnamed_tagAbove _ b

theorem gather_unnamed (limit : Nat) (own : Metrics) (bs : List Branch) :
    own.gather limit (bs.map unnamed) = own.gather limit bs := by
  unfold Metrics.gather Metrics.sumOf Metrics.valuesOf Metrics.failed
  simp [List.foldr_map, List.foldl_map, List.filterMap_map, Function.comp_def]

theorem unnamed_aggregate (limit : Nat) (b : Branch) :
    (b.aggregate limit).unnamed = b.unnamed.aggregate limit := by
  induction b using Branch.induction with
  | step b ih =>
    have below : (b.children.map (aggregate limit)).map unnamed =
        (b.children.map unnamed).map (aggregate limit) := by
      rw [List.map_map, List.map_map]
      exact List.map_congr_left ih
    rw [aggregate_eq, aggregate_eq limit b.unnamed, children_unnamed, metrics_unnamed]
    simp only [List.map_eq_nil_iff]
    split
    · rfl
    · rw [unnamed_eq, ← below, gather_unnamed, unnamed_eq b]

end Branch

/-- The hierarchy without names. -/
def unnamed (h : Hierarchy) : Hierarchy := { h with root := h.root.unnamed }

namespace Builder

variable {settings : Settings.Analysis} {links : Catalog.DocLinks} {b b' : Builder}
  {filed : List Filing}

/-- The builder with a tree without names. -/
def unnamed (b : Builder) : Builder := { b with root := b.root.unnamed }

/-- The request without names. -/
def anonymous (r : Request) : Request := { r with names := {} }

/-- Names play no part in finishing. -/
theorem unnamed_finish (settings : Settings.Analysis) (b : Builder) :
    (b.finish settings).unnamed = b.unnamed.finish settings := by
  unfold finish Hierarchy.unnamed unnamed
  rw [Branch.unnamed_aggregate, Branch.unnamed_tagLongDurations]

/-- Names play no part in taking a request. -/
theorem unnamed_add (settings : Settings.Analysis) (links : Catalog.DocLinks) (b : Builder)
    (r : Request) : b.unnamed.add settings links (anonymous r) =
      ((b.add settings links r).1.unnamed, (b.add settings links r).2) := by
  have places (a : Address) : a.visualPlaces {} =
      (a.visualPlaces r.names).map Branch.Place.unnamed := by
    unfold Address.visualPlaces
    cases a.type <;> rfl
  have opened (a : Address) : b.unnamed.root.changeAt id (a.visualPlaces {}) =
      (b.root.changeAt id (a.visualPlaces r.names)).unnamed := by
    rw [places, Branch.unnamed_changeAt id fun _ => rfl]
    rfl
  have found (a : Address) :
      ((b.unnamed.root.changeAt id (a.visualPlaces {})).find? a.path).isSome =
        ((b.root.changeAt id (a.visualPlaces r.names)).find? a.path).isSome := by
    rw [opened, Branch.find?_unnamed, Option.isSome_map]
  rcases add_cases settings links b r with ⟨ha, hadd⟩ | ⟨a, ha, ⟨hfound, hadd⟩ | ⟨hfound, hadd⟩⟩
  · rw [hadd]
    exact add_incomplete settings links b.unnamed (r := anonymous r) ha
  · rw [hadd]
    refine (add_known settings links b.unnamed (r := anonymous r) ha ?_).trans ?_
    · exact (found a).trans hfound
    · exact congrArg (fun root => ({ b with root }, false)) (opened a)
  · rw [hadd]
    refine (add_new settings links b.unnamed (r := anonymous r) ha ?_).trans ?_
    · exact (found a).trans hfound
    · let analysis := r.analyze links settings.dependencyMode b.taken
      refine congrArg (fun root => (Builder.mk root analysis.2 (a.note b.seen)
        (b.isAbandoned || analysis.1.isAbandoned), true)) ?_
      rw [Branch.unnamed_changeAt _ fun c => ?_, List.map_append, ← places, ← opened]
      · rfl
      · rw [Branch.unnamed_eq, Branch.unnamed_eq c]
        rfl

theorem add_congr (settings : Settings.Analysis) (links : Catalog.DocLinks)
    (h : b.unnamed = b'.unnamed) (r : Request) :
    (b.add settings links r).1.unnamed = (b'.add settings links r).1.unnamed ∧
      (b.add settings links r).2 = (b'.add settings links r).2 := by
  have same := (unnamed_add settings links b r).symm.trans
    (congrArg (fun b : Builder => b.add settings links (anonymous r)) h |>.trans
      (unnamed_add settings links b' r))
  exact Prod.mk.inj same

/-! ## One rejected request -/

/-- A rejected request fills in names, and does nothing else. -/
theorem Files.add_rejected (h : Files settings b filed) {r : Request}
    (rejected : (b.add settings links r).2 = false) :
    (b.add settings links r).1 = { b with root := b.root.fillNames (nameOf r) } := by
  rcases add_cases settings links b r with ⟨ha, hadd⟩ | ⟨a, ha, ⟨found, hadd⟩ | ⟨-, hadd⟩⟩
  · have nameless : nameOf r = fun _ => none := by
      funext keys
      unfold nameOf
      rw [ha]
      rfl
    rw [hadd, nameless, Branch.fillNames_none]
  · have there := (h.isSome_find? a).2 (((h.opened a r.names).isSome_find? a).1 found)
    have way : (b.root.find? ((a.visualPlaces r.names).map Branch.Place.key)).isSome := by
      have parts : a.path =
          (a.visualPlaces r.names).map Branch.Place.key ++ [a.request] := rfl
      rw [parts, Branch.find?_append] at there
      obtain ⟨c, hc⟩ := Option.isSome_iff_exists.1 there
      obtain ⟨d, hd, -⟩ := Option.bind_eq_some_iff.1 hc
      exact Option.isSome_iff_exists.2 ⟨d, hd⟩
    have names : nameOf r = Branch.nameAlong (a.visualPlaces r.names) := by
      funext keys
      unfold nameOf
      rw [ha]
      rfl
    rw [hadd, names, h.shaped.changeAt_id_eq way]
  · rw [hadd] at rejected
    cases rejected

/-- Taking a request keeps the shape of the tree and files what there is to file. -/
theorem Files.add (links : Catalog.DocLinks) (h : Files settings b filed) (r : Request) :
    ∃ filed', Files settings (b.add settings links r).1 filed' := by
  cases hr : filing? links settings.dependencyMode (filed.map Filing.address) b.taken r with
  | none => exact ⟨filed, (h.add_none hr).2.1⟩
  | some f => exact ⟨f :: filed, (h.add_some hr).2.1⟩

/-! ## Runs -/

/-- The state before a request, the one after it and what is said of the request. -/
theorem addAll_take (settings : Settings.Analysis) (links : Catalog.DocLinks)
    (requests : List Request) : ∀ {b : Builder} {i : Nat} {r : Request},
    requests[i]? = some r →
      (b.addAll settings links (requests.take (i + 1))).1 =
          ((b.addAll settings links (requests.take i)).1.add settings links r).1 ∧
        (b.addAll settings links requests).2[i]? =
          some ((b.addAll settings links (requests.take i)).1.add settings links r).2 := by
  induction requests with
  | nil =>
    intro _ _ _ h
    cases h
  | cons first rest ih =>
    intro b i r h
    cases i with
    | zero =>
      obtain rfl : first = r := Option.some.inj h
      exact ⟨rfl, rfl⟩
    | succ i => exact ih (b := (b.add settings links first).1) h

/-- Apart from names, the requests that find a place give the same builder alone, and alone each of
them finds a place. -/
theorem Files.unnamed_addAll_kept (links : Catalog.DocLinks) (requests : List Request) :
    ∀ {b b' : Builder} {filed : List Filing}, Files settings b filed → b'.unnamed = b.unnamed →
      let run := b.addAll settings links requests
      let alone := b'.addAll settings links (kept requests run.2)
      alone.1.unnamed = run.1.unnamed ∧ ∀ added ∈ alone.2, added = true := by
  induction requests with
  | nil => exact fun _ same => ⟨same, fun _ h => nomatch h⟩
  | cons r rest ih =>
    intro b b' filed h same
    obtain ⟨filed', hfiles⟩ := h.add links r
    simp only [Builder.addAll, kept_cons]
    cases found : (b.add settings links r).2 with
    | false =>
      have unchanged : b'.unnamed = (b.add settings links r).1.unnamed := by
        rw [h.add_rejected found, same]
        exact congrArg (fun root => { b with root }) (Branch.unnamed_fillNames b.root _).symm
      exact ih hfiles unchanged
    | true =>
      obtain ⟨alike, hadded⟩ := add_congr settings links same r
      obtain ⟨hunnamed, hall⟩ := ih hfiles alike
      refine ⟨hunnamed, List.forall_mem_cons.2 ⟨hadded.trans found, hall⟩⟩

/-- Where no rejected request has a name that is missing, the requests that find a place give the
same builder alone. -/
theorem Files.addAll_kept (requests : List Request) : ∀ {b : Builder} {filed : List Filing},
    Files settings b filed →
      (∀ (i : Nat) (r : Request), requests[i]? = some r →
        (b.addAll settings links requests).2[i]? = some false →
        ¬(b.addAll settings links (requests.take i)).1.root.Misses (nameOf r)) →
      (b.addAll settings links (kept requests (b.addAll settings links requests).2)).1 =
        (b.addAll settings links requests).1 := by
  induction requests with
  | nil => exact fun _ _ => rfl
  | cons r rest ih =>
    intro b filed h complete
    obtain ⟨filed', hfiles⟩ := h.add links r
    have later := ih hfiles fun i r' hr' => complete (i + 1) r' hr'
    simp only [Builder.addAll, kept_cons]
    cases found : (b.add settings links r).2 with
    | false =>
      have unchanged : (b.add settings links r).1 = b := by
        have named : b.root.fillNames (nameOf r) = b.root :=
          (Branch.fillNames_eq_self_iff _ _).2 (complete 0 r rfl (congrArg some found))
        rw [h.add_rejected found, named]
      rw [unchanged] at later ⊢
      exact later
    | true => exact later

/-- **A rejected request leaves nothing but names.** It fills in the names of branches on its way
that have none, and changes nothing else; it changes nothing at all if and only if there is no such
name. The requests that were kept give, alone, the same builder and the same hierarchy apart from
names, and exactly the same ones if no rejected request filled in a name. A branch has the first
name that a request gives it, kept or not. -/
theorem addAll_rejects (settings : Settings.Analysis) (links : Catalog.DocLinks)
    (requests : List Request) :
    let run := addAll settings links {} requests
    let state (i : Nat) : Builder := (addAll settings links {} (requests.take i)).1
    let alone := addAll settings links {} (kept requests run.2)
    (∀ (i : Nat) (r : Request), requests[i]? = some r → run.2[i]? = some false →
      state (i + 1) = { state i with root := (state i).root.fillNames (nameOf r) } ∧
        (state (i + 1) = state i ↔ ¬(state i).root.Misses (nameOf r))) ∧
      (∀ added ∈ alone.2, added = true) ∧
      alone.1.unnamed = run.1.unnamed ∧
      (alone.1.finish settings).unnamed = (run.1.finish settings).unnamed ∧
      ((∀ (i : Nat) (r : Request), requests[i]? = some r → run.2[i]? = some false →
          ¬(state i).root.Misses (nameOf r)) →
        alone.1 = run.1 ∧ alone.1.finish settings = run.1.finish settings) ∧
      ∀ keys, (run.1.root.find? keys).bind Branch.name = requests.findSome? (nameOf · keys) ∧
        (alone.1.root.find? keys).bind Branch.name =
          (kept requests run.2).findSome? (nameOf · keys) := by
  intro run state alone
  have start := Files.start settings
  obtain ⟨hunnamed, hadded⟩ := start.unnamed_addAll_kept links requests rfl
  have nameless (keys : List String) :
      (({} : Builder).root.find? keys).bind Branch.name = none := by
    cases keys <;> rfl
  refine ⟨fun i r hr rejected => ?_, hadded, hunnamed, ?_, fun complete => ?_, fun keys => ⟨?_, ?_⟩⟩
  · obtain ⟨hstate, hflag⟩ := addAll_take settings links requests (b := {}) hr
    obtain ⟨-, hfiles⟩ := Files.addAll links (requests.take i) start
    have filled := hfiles.add_rejected (Option.some.inj (hflag.symm.trans rejected))
    have after : state (i + 1) = { state i with root := (state i).root.fillNames (nameOf r) } :=
      hstate.trans filled
    refine ⟨after, ?_⟩
    rw [after, ← Branch.fillNames_eq_self_iff]
    exact ⟨congrArg Builder.root, congrArg fun root => { state i with root }⟩
  · rw [unnamed_finish, unnamed_finish, hunnamed]
  · have same := start.addAll_kept requests complete
    exact ⟨same, congrArg (finish settings) same⟩
  · rw [name_addAll, nameless]
    rfl
  · rw [name_addAll, nameless]
    rfl

/-- A request whose sheet has a name, or has none. -/
def overviewRequest (sheet : Option String) : Request :=
  { salesRequest "a" "b" with
    names := { dashboard := some "Sales", sheet, dataset := some "b", visual := some "Map" } }

/-- Where the first of two requests has all the names, the second one leaves no trace; where it
lacks the name of the sheet, that name is all the second one leaves. -/
theorem addAll_rejects_overview :
    let run (first : Option String) := addAll {} .off {}
      [overviewRequest first, overviewRequest (some "Overview")]
    let alone (first : Option String) := addAll {} .off {} [overviewRequest first]
    (run (some "Maps")).2 = [true, false] ∧ (run none).2 = [true, false] ∧
      (run (some "Maps")).1 = (alone (some "Maps")).1 ∧
      (run none).1 = { (alone none).1 with
        root := (alone none).1.root.fillNames (nameOf (overviewRequest (some "Overview"))) } := by
  intro run alone
  have added : (run (some "Maps")).2 = [true, false] ∧ (run none).2 = [true, false] := by
    decide +kernel
  have complete : ¬(alone (some "Maps")).1.root.Misses
      (nameOf (overviewRequest (some "Overview"))) := by
    decide +kernel
  obtain ⟨-, -, -, -, same, -⟩ := addAll_rejects {} .off
    [overviewRequest (some "Maps"), overviewRequest (some "Overview")]
  obtain ⟨one, -⟩ := addAll_rejects {} .off
    [overviewRequest none, overviewRequest (some "Overview")]
  refine ⟨added.1, added.2, ?_, (one 1 _ rfl (congrArg (·[1]?) added.2)).1⟩
  have run_eq := (same fun i r hr rejected => ?_).1
  · rw [added.1] at run_eq
    exact run_eq.symm
  · rw [added.1] at rejected
    match i with
    | 0 => cases rejected
    | 1 =>
      obtain rfl : overviewRequest (some "Overview") = r := Option.some.inj hr
      exact complete
    | i + 2 => cases hr

/-- A request that comes again is rejected, and yet the name that it has for its sheet stays, in the
builder and in the finished hierarchy. -/
theorem add_overview :
    let b := (addAll {} .off {} [overviewRequest none]).1
    let again := b.add {} .off (overviewRequest (some "Overview"))
    again.2 = false ∧ again.1 ≠ b ∧ again.1.finish {} ≠ b.finish {} := by
  intro b again
  let name (b : Branch) : Option String :=
    (b.find? ["Dashboards", "sales", "a"]).bind Branch.name
  have facts : again.2 = false ∧ name b.root = none ∧ name again.1.root = some "Overview" ∧
      name (b.finish {}).root = none ∧ name (again.1.finish {}).root = some "Overview" := by
    decide +kernel
  obtain ⟨rejected, before, after, hbefore, hafter⟩ := facts
  have differ {c c' : Branch} (hc : name c = none) (hc' : name c' = some "Overview") :
      c' ≠ c := by
    rintro rfl
    cases hc.symm.trans hc'
  refine ⟨rejected, fun same => ?_, fun same => ?_⟩
  · exact differ before after (congrArg Builder.root same)
  · exact differ hbefore hafter (congrArg Hierarchy.root same)

end Builder

end DashCalc.Hierarchy
