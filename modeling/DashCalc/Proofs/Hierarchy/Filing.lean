import DashCalc.Proofs.Hierarchy.Finishing
import DashCalc.Proofs.Hierarchy.Placement
import Mathlib.Data.List.Nodup

/-!
# First come, first filed

`filings` says what becomes of requests without any tree: a request is filed under its address if
the address is complete and no earlier request was filed under it (`isFiled_iff`). The builder does
just this (`Builder.Files.addAll`).

A path determines its address (`Address.path_injective`): the key of a dataset begins with the id of
the sheet, and the sheet is on the path as well.
-/

namespace DashCalc

/-! ## Addresses -/

/-- Whether a request names an exploration, a sheet and a visual. -/
def Request.IsComplete (r : Request) : Prop :=
  ((∃ id, r.dashboardId = some id ∧ id ≠ "") ∨ ∃ id, r.analysisId = some id ∧ id ≠ "") ∧
    (∃ id, r.sheetId = some id ∧ id ≠ "") ∧ ∃ id, r.visualId = some id ∧ id ≠ ""

/-- Whether a request stands at an address: below its dashboard, or if it names none below its
analysis, then below its sheet, its dataset and its visual. -/
structure Request.StandsAt (r : Request) (a : Hierarchy.Address) : Prop where
  exploration : match a.type with
    | .dashboards => r.dashboardId = some a.exploration
    | .analyses => (r.dashboardId = none ∨ r.dashboardId = some "") ∧
        r.analysisId = some a.exploration
  sheet : r.sheetId = some a.sheet
  visual : r.visualId = some a.visual
  named : a.exploration ≠ "" ∧ a.sheet ≠ "" ∧ a.visual ≠ ""
  dataset : r.datasetId = a.dataset
  request : r.id = a.request

theorem Request.nonEmpty_eq_some {id : Option String} {s : String} :
    nonEmpty id = some s ↔ id = some s ∧ s ≠ "" := by
  unfold nonEmpty
  rw [Option.filter_eq_some_iff, bne_iff_ne]

theorem Request.nonEmpty_eq_none {id : Option String} :
    nonEmpty id = none ↔ id = none ∨ id = some "" := by
  cases id with
  | none => simp [nonEmpty]
  | some s => simp [nonEmpty, Option.filter]

theorem Request.exploration_eq_some {r : Request} {type : ExplorationType} {id : String} :
    r.exploration = some (type, id) ↔ (match type with
      | .dashboards => r.dashboardId = some id
      | .analyses => (r.dashboardId = none ∨ r.dashboardId = some "") ∧ r.analysisId = some id) ∧
        id ≠ "" := by
  rw [← nonEmpty_eq_none]
  unfold exploration
  cases hd : nonEmpty r.dashboardId with
  | none =>
    have absent (s : String) : ¬(r.dashboardId = some s ∧ s ≠ "") := by
      rw [← nonEmpty_eq_some, hd]
      exact nofun
    cases type with
    | dashboards => simp [absent]
    | analyses => simp [← nonEmpty_eq_some]
  | some dashboard =>
    obtain ⟨hid, hne⟩ := nonEmpty_eq_some.1 hd
    cases type with
    | dashboards =>
      simp only [Option.some.injEq, Prod.mk.injEq, true_and, hid]
      exact ⟨fun h => ⟨h, h ▸ hne⟩, And.left⟩
    | analyses => simp

theorem Request.isSome_nonEmpty {id : Option String} :
    (nonEmpty id).isSome ↔ ∃ s, id = some s ∧ s ≠ "" := by
  rw [Option.isSome_iff_exists]
  exact exists_congr fun _ => nonEmpty_eq_some

theorem Request.isSome_exploration {r : Request} : r.exploration.isSome ↔
    (nonEmpty r.dashboardId).isSome ∨ (nonEmpty r.analysisId).isSome := by
  unfold exploration
  cases nonEmpty r.dashboardId with
  | none => simp
  | some id => simp

theorem ExplorationType.key_injective {a b : ExplorationType} (h : a.key = b.key) : a = b := by
  cases a <;> cases b
  · rfl
  · exact absurd h (by decide)
  · exact absurd h (by decide)
  · rfl

namespace Hierarchy

namespace Address

/-- The address of a request is made of what the request names. -/
theorem ofRequest?_eq_some {r : Request} {a : Address} : ofRequest? r = some a ↔
    r.exploration = some (a.type, a.exploration) ∧ r.sheet = some a.sheet ∧
      r.datasetId = a.dataset ∧ r.visual = some a.visual ∧ r.id = a.request := by
  obtain ⟨type, exploration, sheet, dataset, visual, request⟩ := a
  unfold ofRequest?
  cases r.exploration with
  | none => simp
  | some e =>
    cases r.sheet with
    | none => simp
    | some s =>
      cases r.visual with
      | none => simp
      | some v =>
        obtain ⟨type', exploration'⟩ := e
        simp [and_assoc]

/-- The address of a request is where it stands. -/
theorem standsAt_iff {r : Request} {a : Address} : r.StandsAt a ↔ ofRequest? r = some a := by
  rw [ofRequest?_eq_some, Request.exploration_eq_some]
  unfold Request.sheet Request.visual
  rw [Request.nonEmpty_eq_some, Request.nonEmpty_eq_some]
  constructor
  · rintro ⟨exploration, sheet, visual, ⟨hexploration, hsheet, hvisual⟩, dataset, request⟩
    exact ⟨⟨exploration, hexploration⟩, ⟨sheet, hsheet⟩, dataset, ⟨visual, hvisual⟩, request⟩
  · rintro ⟨⟨exploration, hexploration⟩, ⟨sheet, hsheet⟩, dataset, ⟨visual, hvisual⟩, request⟩
    exact ⟨exploration, sheet, visual, ⟨hexploration, hsheet, hvisual⟩, dataset, request⟩

/-- Complete requests have an address. -/
theorem isSome_ofRequest? {r : Request} : (ofRequest? r).isSome ↔ r.IsComplete := by
  unfold Request.IsComplete
  rw [← Request.isSome_nonEmpty, ← Request.isSome_nonEmpty, ← Request.isSome_nonEmpty,
    ← Request.isSome_nonEmpty, ← Request.isSome_exploration]
  show _ ↔ r.exploration.isSome ∧ r.sheet.isSome ∧ r.visual.isSome
  unfold ofRequest?
  cases r.exploration with
  | none => simp
  | some e =>
    cases r.sheet with
    | none => simp
    | some s => cases r.visual <;> simp

/-- A path determines its address, whatever the ids look like. -/
theorem path_injective {a b : Address} (h : a.path = b.path) : a = b := by
  obtain ⟨type, exploration, sheet, dataset, visual, request⟩ := a
  obtain ⟨type', exploration', sheet', dataset', visual', request'⟩ := b
  simp only [path, datasetKey, List.cons.injEq, and_true] at h
  obtain ⟨htype, rfl, rfl, hdataset, rfl, rfl⟩ := h
  obtain rfl : dataset = dataset' := (String.append_right_inj _).1 hdataset
  obtain rfl := ExplorationType.key_injective htype
  rfl

end Address

/-! ## What is filed -/

/-- A request that is filed under its address, with its analysis. -/
structure Filing where
  address : Address
  request : Request
  analysis : Request.Analysis

/-- The leaf of a filed request. -/
def Filing.leaf (threshold : Nat) (f : Filing) : Branch.Located :=
  (f.address.path, ⟨f.address.request, .request, none, .ofRequest threshold f.request f.analysis,
    some (.ofRequest f.request f.analysis), []⟩)

section Filings

variable (links : Catalog.DocLinks) (mode : Cost.Mode)

/-- What is filed of a request when these addresses are known: nothing if it has no address or a
known one. -/
def filing? (known : List Address) (taken : Nat) (r : Request) : Option Filing :=
  (Address.ofRequest? r).bind fun a =>
    if a ∈ known then none else some ⟨a, r, (r.analyze links mode taken).1⟩

/-- What is filed of each of several requests. -/
def filings : List Address → Nat → List Request → List (Option Filing)
  | _, _, [] => []
  | known, taken, r :: rest =>
    match filing? links mode known taken r with
    | none => none :: filings known taken rest
    | some f =>
      some f :: filings (f.address :: known) (r.analyze links mode taken).2 rest

variable {links mode} {known : List Address} {taken : Nat}

theorem filing?_eq_some {r : Request} {f : Filing} : filing? links mode known taken r = some f ↔
    Address.ofRequest? r = some f.address ∧ f.address ∉ known ∧ f.request = r ∧
      f.analysis = (r.analyze links mode taken).1 := by
  unfold filing?
  rw [Option.bind_eq_some_iff]
  constructor
  · rintro ⟨a, ha, h⟩
    by_cases hmem : a ∈ known
    · rw [if_pos hmem] at h
      cases h
    · rw [if_neg hmem] at h
      cases h
      exact ⟨ha, hmem, rfl, rfl⟩
  · rintro ⟨ha, hmem, rfl, hanalysis⟩
    refine ⟨f.address, ha, ?_⟩
    rw [if_neg hmem, ← hanalysis]

theorem filing?_eq_none {r : Request} : filing? links mode known taken r = none ↔
    ∀ a, Address.ofRequest? r = some a → a ∈ known := by
  unfold filing?
  rw [Option.bind_eq_none_iff]
  refine forall₂_congr fun a _ => ?_
  by_cases hmem : a ∈ known
  · exact iff_of_true (if_pos hmem) hmem
  · rw [if_neg hmem]
    exact iff_of_false nofun hmem

theorem filings_cons_none {r : Request} {rest : List Request}
    (h : filing? links mode known taken r = none) :
    filings links mode known taken (r :: rest) = none :: filings links mode known taken rest := by
  rw [filings, h]

theorem filings_cons_some {r : Request} {rest : List Request} {f : Filing}
    (h : filing? links mode known taken r = some f) :
    filings links mode known taken (r :: rest) =
      some f :: filings links mode (f.address :: known) (r.analyze links mode taken).2 rest := by
  rw [filings, h]

theorem length_filings (requests : List Request) : ∀ {known : List Address} {taken : Nat},
    (filings links mode known taken requests).length = requests.length := by
  induction requests with
  | nil => exact rfl
  | cons r rest ih =>
    intro known taken
    cases hr : filing? links mode known taken r with
    | none => rw [filings_cons_none hr, List.length_cons, ih, List.length_cons]
    | some f => rw [filings_cons_some hr, List.length_cons, ih, List.length_cons]

/-- No two requests are filed under one address, and none under a known one. -/
theorem nodup_filings (requests : List Request) : ∀ {known : List Address} {taken : Nat},
    known.Nodup → (((filings links mode known taken requests).filterMap id).map Filing.address ++
      known).Nodup := by
  induction requests with
  | nil => exact fun h => h
  | cons r rest ih =>
    intro known taken h
    cases hr : filing? links mode known taken r with
    | none =>
      rw [filings_cons_none hr]
      exact ih h
    | some f =>
      obtain ⟨-, hnew, -⟩ := filing?_eq_some.1 hr
      rw [filings_cons_some hr]
      exact List.nodup_middle.1 (ih (List.nodup_cons.2 ⟨hnew, h⟩))

/-- No two requests are filed at one path. -/
theorem nodup_paths (requests : List Request) :
    (((filings links mode [] taken requests).filterMap id).map fun f => f.address.path).Nodup := by
  have addresses : (((filings links mode [] taken requests).filterMap id).map Filing.address ++
      []).Nodup := nodup_filings requests List.nodup_nil
  rw [List.append_nil] at addresses
  have different := addresses.map fun _ _ => Address.path_injective
  rwa [List.map_map] at different

/-- What is filed of a request is the request itself, under its address and with its analysis. -/
theorem filing_of_getElem? (requests : List Request) : ∀ {known : List Address} {taken i : Nat}
    {f : Filing}, (filings links mode known taken requests)[i]? = some (some f) →
      requests[i]? = some f.request ∧ Address.ofRequest? f.request = some f.address ∧
        ∃ taken, f.analysis = (f.request.analyze links mode taken).1 := by
  induction requests with
  | nil =>
    intro _ _ _ _ h
    cases h
  | cons r rest ih =>
    intro known taken i f h
    cases hr : filing? links mode known taken r with
    | none =>
      rw [filings_cons_none hr] at h
      cases i with
      | zero => cases h
      | succ i => exact ih h
    | some first =>
      rw [filings_cons_some hr] at h
      cases i with
      | zero =>
        cases h
        obtain ⟨ha, -, rfl, hanalysis⟩ := filing?_eq_some.1 hr
        exact ⟨rfl, ha, taken, hanalysis⟩
      | succ i => exact ih h

/-- A request is filed if it has an address that is not known and no earlier request is filed under
it. -/
theorem exists_filing_iff (requests : List Request) : ∀ {known : List Address} {taken i : Nat}
    {r : Request}, requests[i]? = some r →
      ((∃ f, (filings links mode known taken requests)[i]? = some (some f)) ↔
        ∃ a, Address.ofRequest? r = some a ∧ a ∉ known ∧ ∀ j < i, ∀ f,
          (filings links mode known taken requests)[j]? = some (some f) → f.address ≠ a) := by
  induction requests with
  | nil =>
    intro _ _ _ _ h
    cases h
  | cons first rest ih =>
    intro known taken i r h
    cases hfirst : filing? links mode known taken first with
    | none =>
      rw [filings_cons_none hfirst]
      cases i with
      | zero =>
        obtain rfl : first = r := Option.some.inj h
        constructor
        · rintro ⟨f, hf⟩
          cases hf
        · rintro ⟨a, ha, hnew, -⟩
          exact absurd (filing?_eq_none.1 hfirst a ha) hnew
      | succ i =>
        rw [List.getElem?_cons_succ, ih h]
        refine exists_congr fun a => and_congr_right fun _ => and_congr_right fun _ => ?_
        rw [Nat.forall_lt_succ_left]
        refine ⟨fun hj => ⟨fun f hf => ?_, hj⟩, fun hj => hj.2⟩
        cases hf
    | some filed =>
      obtain ⟨ha, hnew, -⟩ := filing?_eq_some.1 hfirst
      rw [filings_cons_some hfirst]
      cases i with
      | zero =>
        obtain rfl : first = r := Option.some.inj h
        refine iff_of_true ⟨filed, rfl⟩ ⟨filed.address, ha, hnew, ?_⟩
        exact fun j hj => absurd hj (Nat.not_lt_zero j)
      | succ i =>
        rw [List.getElem?_cons_succ, ih h]
        refine exists_congr fun a => and_congr_right fun _ => ?_
        rw [Nat.forall_lt_succ_left, List.mem_cons, not_or]
        constructor
        · rintro ⟨⟨hne, hknown⟩, hj⟩
          refine ⟨hknown, fun f hf => ?_, hj⟩
          cases hf
          exact fun e => hne e.symm
        · rintro ⟨hknown, hzero, hj⟩
          exact ⟨⟨fun e => hzero filed rfl e.symm, hknown⟩, hj⟩

/-- From the first request on, a request is filed if it is complete and no earlier request is filed
under its address. -/
theorem isFiled_iff {requests : List Request} {i : Nat} {r : Request}
    (h : requests[i]? = some r) :
    ((filings links mode [] taken requests).map Option.isSome)[i]? = some true ↔
      r.IsComplete ∧ ∀ j < i, ∀ r', requests[j]? = some r' →
        ((filings links mode [] taken requests).map Option.isSome)[j]? = some true →
        ¬∃ a, r'.StandsAt a ∧ r.StandsAt a := by
  have filed (k : Nat) :
      ((filings links mode [] taken requests).map Option.isSome)[k]? = some true ↔
        ∃ f, (filings links mode [] taken requests)[k]? = some (some f) := by
    rw [List.getElem?_map, Option.map_eq_some_iff]
    constructor
    · rintro ⟨o, ho, hsome⟩
      obtain ⟨f, rfl⟩ := Option.isSome_iff_exists.1 hsome
      exact ⟨f, ho⟩
    · rintro ⟨f, hf⟩
      exact ⟨some f, hf, rfl⟩
  simp only [filed]
  rw [exists_filing_iff requests h, ← Address.isSome_ofRequest?, Option.isSome_iff_exists]
  constructor
  · rintro ⟨a, ha, -, hfirst⟩
    refine ⟨⟨a, ha⟩, ?_⟩
    rintro j hj r' hr' ⟨f, hf⟩ ⟨a', there, here⟩
    obtain ⟨hrequest, haddress, -⟩ := filing_of_getElem? requests hf
    obtain rfl : f.request = r' := Option.some.inj (hrequest.symm.trans hr')
    rw [Address.standsAt_iff, haddress] at there
    rw [Address.standsAt_iff, ha, ← there] at here
    exact hfirst j hj f hf (Option.some.inj here).symm
  · rintro ⟨⟨a, ha⟩, hfirst⟩
    refine ⟨a, ha, List.not_mem_nil, ?_⟩
    rintro j hj f hf rfl
    obtain ⟨hrequest, haddress, -⟩ := filing_of_getElem? requests hf
    refine hfirst j hj f.request hrequest ⟨f, hf⟩ ⟨f.address, ?_, ?_⟩
    · exact Address.standsAt_iff.2 haddress
    · exact Address.standsAt_iff.2 ha

end Filings

/-! ## What the builder files -/

namespace Builder

/-- The requests that found a place. -/
def kept (requests : List Request) (added : List Bool) : List Request :=
  ((requests.zip added).filter Prod.snd).map Prod.fst

theorem kept_cons (r : Request) (rest : List Request) (one : Bool) (added : List Bool) :
    kept (r :: rest) (one :: added) = (if one then [r] else []) ++ kept rest added := by
  cases one <;> rfl

/-- What is filed are the requests that found a place. -/
theorem map_request_filings (links : Catalog.DocLinks) (mode : Cost.Mode)
    (requests : List Request) : ∀ {known : List Address} {taken : Nat},
      let filed := filings links mode known taken requests
      (filed.filterMap id).map Filing.request = kept requests (filed.map Option.isSome) := by
  induction requests with
  | nil => exact rfl
  | cons r rest ih =>
    intro known taken
    cases hr : filing? links mode known taken r with
    | none =>
      rw [filings_cons_none hr]
      exact ih
    | some f =>
      obtain ⟨-, -, hrequest, -⟩ := filing?_eq_some.1 hr
      rw [filings_cons_some hr]
      exact congrArg₂ List.cons hrequest ih

variable {settings : Settings.Analysis} {links : Catalog.DocLinks} {b : Builder}
  {filed : List Filing}

/-- Whether the tree of a builder has its shape and holds exactly what was filed. -/
structure Files (settings : Settings.Analysis) (b : Builder) (filed : List Filing) : Prop where
  shaped : Branch.Shaped Level.all b.root
  leaves : b.root.leaves.Perm (filed.map (Filing.leaf settings.highCostThreshold))

namespace Files

theorem start (settings : Settings.Analysis) : Files settings {} [] :=
  ⟨Branch.shaped_new _ _ (List.cons_ne_nil _ _), List.Perm.refl _⟩

/-- A path leads somewhere if something was filed under its address. -/
theorem isSome_find? (h : Files settings b filed) (a : Address) :
    (b.root.find? a.path).isSome ↔ a ∈ filed.map Filing.address := by
  rw [h.shaped.find?_isSome rfl, (h.leaves.map Prod.fst).mem_iff, List.map_map, List.mem_map,
    List.mem_map]
  refine exists_congr fun f => and_congr_right fun _ => ?_
  exact ⟨Address.path_injective, congrArg Address.path⟩

/-- Opening the way to a visual files nothing. -/
theorem opened (h : Files settings b filed) (a : Address) (names : Request.Names) :
    Files settings { b with root := b.root.changeAt id (a.visualPlaces names) } filed := by
  have grows := Branch.Shaped.changeAt_id (List.cons_ne_nil Level.request [])
    (a.visualPlaces names) h.shaped
  exact ⟨grows.shaped, grows.leaves.trans h.leaves⟩

/-- A request without a free address changes nothing of what is filed. -/
theorem add_none (h : Files settings b filed) {r : Request}
    (hr : filing? links settings.dependencyMode (filed.map Filing.address) b.taken r = none) :
    (b.add settings links r).2 = false ∧ Files settings (b.add settings links r).1 filed ∧
      (b.add settings links r).1.taken = b.taken := by
  unfold add
  cases ha : Address.ofRequest? r with
  | none => exact ⟨rfl, h, rfl⟩
  | some a =>
    have known : a ∈ filed.map Filing.address := filing?_eq_none.1 hr a ha
    have found := ((h.opened a r.names).isSome_find? a).2 known
    simp only [if_pos found]
    exact ⟨trivial, h.opened a r.names, trivial⟩

/-- A request with a free address is filed. -/
theorem add_some (h : Files settings b filed) {r : Request} {f : Filing}
    (hr : filing? links settings.dependencyMode (filed.map Filing.address) b.taken r = some f) :
    (b.add settings links r).2 = true ∧ Files settings (b.add settings links r).1 (f :: filed) ∧
      (b.add settings links r).1.taken = (r.analyze links settings.dependencyMode b.taken).2 := by
  obtain ⟨ha, hnew, rfl, hanalysis⟩ := filing?_eq_some.1 hr
  have opened := h.opened f.address f.request.names
  have absent := (opened.isSome_find? f.address).not.2 hnew
  have hid : f.request.id = f.address.request := (Address.ofRequest?_eq_some.1 ha).2.2.2.2
  unfold add
  rw [ha]
  simp only [if_neg absent]
  refine ⟨trivial, ?_, trivial⟩
  let fill (leaf : Branch) : Branch := { leaf with
    metrics := .ofRequest settings.highCostThreshold f.request f.analysis
    details := some (.ofRequest f.request f.analysis) }
  have filled : Branch.Shaped [.request] (fill (.new f.address.request .request)) :=
    ⟨rfl, iff_of_true rfl rfl, List.nodup_nil, fun _ hc => nomatch hc⟩
  have grows := Branch.Shaped.changeAt_fill (f.address.visualPlaces f.request.names)
    f.address.request fill opened.shaped (Option.not_isSome_iff_eq_none.1 absent) rfl filled
  rw [hid, ← hanalysis]
  exact ⟨grows.shaped, grows.leaves.trans (opened.leaves.cons _)⟩

theorem perm (h : Files settings b filed) {filed' : List Filing} (hperm : filed.Perm filed') :
    Files settings b filed' :=
  ⟨h.shaped, h.leaves.trans (hperm.map _)⟩

/-- A run files what `filings` says, and says so of each request. -/
theorem addAll (links : Catalog.DocLinks) (requests : List Request) :
    ∀ {b : Builder} {filed : List Filing}, Files settings b filed →
      let new := filings links settings.dependencyMode (filed.map Filing.address) b.taken requests
      (Builder.addAll settings links b requests).2 = new.map Option.isSome ∧
        Files settings (Builder.addAll settings links b requests).1
          (new.filterMap id ++ filed) := by
  induction requests with
  | nil => exact fun h => ⟨rfl, h⟩
  | cons r rest ih =>
    intro b filed h
    simp only [Builder.addAll]
    cases hr : filing? links settings.dependencyMode (filed.map Filing.address) b.taken r with
    | none =>
      obtain ⟨hadded, hfiles, htaken⟩ := h.add_none hr
      obtain ⟨hothers, hall⟩ := ih hfiles
      rw [htaken] at hothers hall
      rw [filings_cons_none hr, hadded, hothers]
      exact ⟨rfl, hall⟩
    | some f =>
      obtain ⟨hadded, hfiles, htaken⟩ := h.add_some hr
      obtain ⟨hothers, hall⟩ := ih hfiles
      rw [htaken] at hothers hall
      rw [filings_cons_some hr, hadded, hothers]
      exact ⟨rfl, hall.perm List.perm_middle⟩

end Files

/-- A request of a sheet and a dataset. -/
def salesRequest (sheet dataset : String) : Request where
  id := "first"
  dashboardId := some "sales"
  sheetId := some sheet
  datasetId := dataset
  visualId := some "map"

end Builder

end Hierarchy

end DashCalc
