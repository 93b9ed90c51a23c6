import DashCalc.Proofs.Hierarchy.Paths

/-!
# The shape of the tree

After any requests, kept or rejected, the branches of the tree have the levels from the root down,
siblings have different keys, the requests are the leaves, and nothing stands above no request
(`Orderly`). Siblings stand in the order in which the first request came that needs them: the keys
of the children of a branch are the keys behind its own on the paths of the requests, each where it
first came (`Builder.keysBelow_addAll`). Finishing changes none of this (`Builder.addAll_orderly`).
-/

namespace DashCalc

/-- Putting items at the end of a list unless the list has them leaves each where it first came. -/
theorem foldl_addNew {α : Type} [DecidableEq α] (items : List α) : ∀ held : List α,
    items.foldl addNew held = held ++ (items.filter (· ∉ held)).eraseDups := by
  induction items with
  | nil => simp
  | cons item items ih =>
    intro held
    rw [List.foldl_cons, ih, addNew]
    by_cases known : item ∈ held
    · rw [if_pos known, List.filter_cons_of_neg (by simpa using known)]
    · rw [if_neg known, List.filter_cons_of_pos (by simpa using known), List.eraseDups_cons,
        List.filter_filter, List.append_assoc, List.singleton_append]
      refine congrArg (held ++ item :: ·.eraseDups) (List.filter_congr fun x _ => ?_)
      by_cases same : x = item <;> simp [same, known]

/-- What a list has is not put in again. -/
theorem foldl_addNew_twice {α : Type} [DecidableEq α] (items held : List α) :
    items.foldl addNew (items.foldl addNew held) = items.foldl addNew held := by
  rw [foldl_addNew items (items.foldl addNew held), List.filter_eq_nil_iff.2, List.eraseDups_nil,
    List.append_nil]
  intro item hitem
  by_cases known : item ∈ held <;> simp [foldl_addNew, hitem, known]

theorem foldl_addNew_nil {α : Type} [DecidableEq α] (items : List α) :
    items.foldl addNew [] = items.eraseDups := by
  rw [foldl_addNew, List.nil_append]
  simp

namespace Hierarchy

/-! ## Keys on a path -/

/-- The key that comes next on a path that begins with these keys. -/
def keyAfter? : List String → List String → Option String
  | [], path => path.head?
  | key :: keys, other :: path => if key = other then keyAfter? keys path else none
  | _ :: _, [] => none

theorem keyAfter?_nil (keys : List String) : keyAfter? keys [] = none := by
  cases keys <;> rfl

theorem keyAfter?_eq_some {key : String} (keys : List String) : ∀ {path : List String},
    keyAfter? keys path = some key ↔ keys ++ [key] <+: path := by
  induction keys with
  | nil =>
    intro path
    cases path <;> simp [keyAfter?, eq_comm]
  | cons first keys ih =>
    intro path
    cases path with
    | nil => simp [keyAfter?]
    | cons other path =>
      rw [keyAfter?, List.cons_append, List.cons_prefix_cons, ← ih]
      split
      · simp [*]
      · simp [*]

/-- What comes next on the beginning of a path comes next on the path. -/
theorem keyAfter?_trans {keys path path' : List String} {key : String}
    (begins : path <+: path') (next : keyAfter? keys path = some key) :
    keyAfter? keys path' = some key :=
  (keyAfter?_eq_some keys).2 (((keyAfter?_eq_some keys).1 next).trans begins)

namespace Branch

/-! ## The keys below a path -/

theorem of_child? {b c : Branch} {key : String} (hc : b.child? key = some c) :
    c ∈ b.children ∧ c.key = key :=
  ⟨List.mem_of_find?_eq_some hc, beq_iff_eq.1 (List.find?_some hc :)⟩

/-- The keys of the children of the branch that some keys lead to, none if there is none. -/
def keysBelow (b : Branch) (keys : List String) : List String :=
  ((b.find? keys).map fun c => c.children.map key).getD []

theorem keysBelow_of_find? {b c : Branch} {keys : List String} (found : b.find? keys = some c) :
    b.keysBelow keys = c.children.map key := by
  unfold keysBelow
  rw [found]
  rfl

/-- Where a path leads, it goes from key to key. -/
theorem mem_keysBelow {key : String} : ∀ {keys path : List String} {b : Branch},
    (b.find? path).isSome → keyAfter? keys path = some key → key ∈ b.keysBelow keys := by
  intro keys
  induction keys with
  | nil =>
    intro path b found next
    cases path with
    | nil => cases next
    | cons other path =>
      obtain rfl : other = key := Option.some.inj next
      obtain ⟨c, hc⟩ := Option.isSome_iff_exists.1 found
      rw [find?, Option.bind_eq_some_iff] at hc
      obtain ⟨d, hd, -⟩ := hc
      exact List.mem_map.2 ⟨d, of_child? hd⟩
  | cons first keys ih =>
    intro path b found next
    cases path with
    | nil => cases next
    | cons other path =>
      rw [keyAfter?] at next
      split at next
      · rename_i same
        subst same
        rw [find?] at found
        cases hc : b.child? first with
        | none =>
          rw [hc] at found
          cases found
        | some c =>
          rw [hc] at found
          have below := ih found next
          unfold keysBelow find?
          rw [hc]
          exact below
      · cases next

theorem map_key_changeAmong (change : Branch → Branch) (hkey : ∀ c, (change c).key = c.key)
    (made : Branch) (bs : List Branch) :
    (changeAmong made change bs).map key = addNew (bs.map key) made.key := by
  induction bs with
  | nil => exact congrArg ([·]) (hkey made)
  | cons b bs ih =>
    by_cases same : b.key = made.key
    · have known : made.key ∈ (b :: bs).map key := same ▸ List.mem_cons_self
      simp only [changeAmong, same, beq_self_eq_true, if_true]
      rw [addNew, if_pos known, List.map_cons, List.map_cons, hkey]
    · simp only [changeAmong, beq_eq_false_iff_ne.2 same, Bool.false_eq_true, if_false]
      rw [List.map_cons, ih, List.map_cons, addNew_cons fun e => same e.symm]

/-- Below a branch on the way, made or not, named or not, stand the keys that stood there before. -/
theorem keysBelow_onWay (b : Branch) (place : Place) (keys : List String) :
    (((b.child? place.key).getD (new place.key place.level)).named place.name).keysBelow keys =
      b.keysBelow (place.key :: keys) := by
  cases keys with
  | nil =>
    unfold keysBelow find?
    cases b.child? place.key <;> rfl
  | cons key keys =>
    unfold keysBelow
    rw [find?_onWay]

/-- After a change, the key that comes next on the way stands below the keys before it, at the end
if it is new. -/
theorem Stays.keysBelow_changeAt {change : Branch → Branch} (h : Stays change) :
    ∀ (path : List Place) (b : Branch) (keys : List String),
      (changeAt change path b).keysBelow keys =
        (keyAfter? keys (path.map Place.key)).toList.foldl addNew (b.keysBelow keys) := by
  intro path
  induction path with
  | nil =>
    intro b keys
    rw [List.map_nil, keyAfter?_nil]
    cases keys with
    | nil => simp [keysBelow, find?, changeAt, h.children]
    | cons key keys => simp [keysBelow, find?, changeAt, child?, h.children]
  | cons place path ih =>
    intro b keys
    cases keys with
    | nil =>
      exact map_key_changeAmong _ (fun c => h.key_changeAt path (c.named place.name))
        (new place.key place.level) b.children
    | cons key keys =>
      rw [List.map_cons, keyAfter?, keysBelow, h.find?_changeAt_cons]
      by_cases here : key = place.key
      · subst here
        rw [if_pos rfl, if_pos rfl, ← keysBelow_onWay]
        exact ih _ keys
      · rw [if_neg here, if_neg here]
        rfl

theorem Keeps.keysBelow {change : Branch → Branch} (h : Keeps change) (b : Branch)
    (keys : List String) : (change b).keysBelow keys = b.keysBelow keys := by
  unfold Branch.keysBelow
  rw [h.find?, Option.map_map]
  refine congrArg (Option.getD · []) (congrArg (Option.map · (b.find? keys)) (funext fun c => ?_))
  show (change c).children.map Branch.key = c.children.map Branch.key
  rw [h.children, List.map_map]
  exact List.map_congr_left fun d _ => h.key d

end Branch

/-! ## Runs -/

namespace Builder

variable {settings : Settings.Analysis} {links : Catalog.DocLinks} {b : Builder}

/-- The key that a request needs right below some keys. -/
def needed? (keys : List String) (r : Request) : Option String :=
  (Address.ofRequest? r).bind fun a => keyAfter? keys a.path

/-- On the way to the visual comes next what comes next on the whole path, up to the request. -/
theorem keyAfter?_visualPlaces (a : Address) (names : Request.Names) (keys : List String) :
    keyAfter? keys ((a.visualPlaces names).map Branch.Place.key) = none ∨
      keyAfter? keys ((a.visualPlaces names).map Branch.Place.key) = keyAfter? keys a.path := by
  cases way : keyAfter? keys ((a.visualPlaces names).map Branch.Place.key) with
  | none => exact .inl rfl
  | some key => exact .inr (keyAfter?_trans (Reaches.begins_path a names) way).symm

/-- Taking a request has the key it needs below some keys stand there, at the end if it is new. -/
theorem keysBelow_add (settings : Settings.Analysis) (links : Catalog.DocLinks) (b : Builder)
    (r : Request) (keys : List String) : (b.add settings links r).1.root.keysBelow keys =
      (needed? keys r).toList.foldl addNew (b.root.keysBelow keys) := by
  unfold needed?
  rcases add_cases settings links b r with ⟨ha, hadd⟩ | ⟨a, ha, found⟩
  · rw [hadd, ha]
    rfl
  have opened := Branch.stays_id.keysBelow_changeAt (a.visualPlaces r.names) b.root keys
  have next := keyAfter?_visualPlaces a r.names keys
  rw [ha, Option.bind_some]
  rcases found with ⟨found, hadd⟩ | ⟨-, hadd⟩ <;> rw [hadd]
  · dsimp only
    rcases next with next | next
    · -- what comes after the visual is the request, which is there
      rw [next] at opened
      cases whole : keyAfter? keys a.path with
      | none => exact opened
      | some key =>
        have known := Branch.mem_keysBelow found whole
        rw [opened] at known
        exact opened.trans (if_pos known).symm
    · rw [opened, next]
  · dsimp only
    rw [(stays_filled _ _ _).keysBelow_changeAt, Reaches.whole_path ha, opened]
    rcases next with next | next
    · rw [next]
      rfl
    · rw [next]
      exact foldl_addNew_twice _ _

/-- Below some keys stand those that requests need there, each where it first came. -/
theorem keysBelow_addAll (settings : Settings.Analysis) (links : Catalog.DocLinks)
    (requests : List Request) : ∀ (b : Builder) (keys : List String),
      (b.addAll settings links requests).1.root.keysBelow keys =
        (requests.filterMap (needed? keys)).foldl addNew (b.root.keysBelow keys) := by
  induction requests with
  | nil => exact fun _ _ => rfl
  | cons r rest ih =>
    intro b keys
    simp only [addAll]
    rw [ih, keysBelow_add]
    cases hr : needed? keys r with
    | none =>
      rw [List.filterMap_cons_none hr]
      rfl
    | some key =>
      rw [List.filterMap_cons_some hr]
      rfl

theorem keysBelow_finish (settings : Settings.Analysis) (b : Builder) (keys : List String) :
    (b.finish settings).root.keysBelow keys = b.root.keysBelow keys := by
  unfold finish Branch.tagLongDurations
  dsimp only
  rw [(Branch.keeps_aggregate _).keysBelow]
  split
  · rfl
  · rw [(Branch.keeps_tagAbove _).keysBelow]

end Builder

/-! ## Orderly trees -/

/-- Each level has one depth. -/
theorem Level.depth_eq {i j : Nat} {level : Level} (hi : Level.all[i]? = some level)
    (hj : Level.all[j]? = some level) : i = j :=
  (List.getElem?_inj (List.getElem?_eq_some_iff.1 hi).1 (by decide)).1 (hi.trans hj.symm)

namespace Branch

/-- Whether a tree has the shape of a hierarchy of some requests, and no branch that none of them
needs. -/
structure Orderly (requests : List Request) (tree : Branch) : Prop where
  /-- The depth of a branch is that of its level. -/
  level : ∀ l ∈ tree.located, Level.all[l.1.length]? = some l.2.level
  /-- Siblings have different keys. -/
  siblings : ∀ b ∈ tree.branches, (b.children.map key).Nodup
  /-- Requests, and no other branches, have details. -/
  details : ∀ b ∈ tree.branches, b.details.isSome ↔ b.level = .request
  /-- Nothing is below a request. -/
  leaf : ∀ b ∈ tree.branches, b.level = .request → b.children = []
  /-- Between the root and the requests, there is a request below every branch. -/
  inner : ∀ b ∈ tree.branches, b.level ≠ .root → b.level ≠ .request →
    ∃ c ∈ b.children, ∃ d ∈ c.branches, d.level = .request
  /-- A dataset is below a sheet, and has a key made of that of the sheet and the id of the
  dataset. -/
  dataset : ∀ b ∈ tree.branches, ∀ c ∈ b.children, c.level = .dataset →
    b.level = .sheet ∧ ∃ r ∈ requests, r.sheet = some b.key ∧ c.key = b.key ++ "_" ++ r.datasetId
  /-- Siblings stand in the order in which the first request came that needs them. -/
  order : ∀ l ∈ tree.located,
    l.2.children.map key = (requests.filterMap (Builder.needed? l.1)).eraseDups

/-- The key of what keys lead to is the last of them. -/
theorem key_of_find? {b c : Branch} (keys : List String) {key : String}
    (found : b.find? (keys ++ [key]) = some c) : c.key = key := by
  rw [find?_append, Option.bind_eq_some_iff] at found
  obtain ⟨d, -, found⟩ := found
  rw [find?, Option.bind_eq_some_iff] at found
  obtain ⟨e, he, found⟩ := found
  obtain rfl : e = c := Option.some.inj found
  exact (of_child? he).2

namespace Shaped

variable {levels : List Level} {b c : Branch}

theorem head?_eq (h : Shaped levels b) : levels.head? = some b.level := by
  cases levels with
  | nil => exact h.elim
  | cons level below => exact congrArg some h.1.symm

theorem nodup_children (h : Shaped levels b) : (b.children.map Branch.key).Nodup := by
  cases levels with
  | nil => exact h.elim
  | cons level below => exact h.2.2.1

theorem level_of_find? (h : Shaped levels b) {keys : List String}
    (found : b.find? keys = some c) : levels[keys.length]? = some c.level := by
  rw [← List.head?_drop]
  exact (h.of_find? found).head?_eq

theorem exists_find? (h : Shaped levels b) (hc : c ∈ b.branches) :
    ∃ keys, b.find? keys = some c := by
  rw [← map_snd_located] at hc
  obtain ⟨⟨keys, _⟩, hl, rfl⟩ := List.mem_map.1 hc
  exact ⟨keys, h.mem_located.1 hl⟩

theorem find?_child (h : Shaped levels b) {keys : List String} (found : b.find? keys = some c)
    {d : Branch} (hd : d ∈ c.children) : b.find? (keys ++ [d.key]) = some d := by
  have child : c.child? d.key = some d := find?_key (h.of_find? found).nodup_children hd
  rw [find?_append, found, Option.bind_some, find?, child]
  rfl

end Shaped

/-- Whether each path of a tree goes on to the end of the path of a request. -/
def LeadsOn (requests : List Request) (tree : Branch) : Prop :=
  ∀ keys, keys ≠ [] → (tree.find? keys).isSome → ∃ r ∈ requests, ∃ a,
    Address.ofRequest? r = some a ∧ keys <+: a.path ∧ (tree.find? a.path).isSome

namespace LeadsOn

variable {requests : List Request} {tree b c : Branch} {keys : List String}

/-- What is on the way to a request, and is not the request, has a child on that way. -/
theorem request_below (h : LeadsOn requests tree) (shaped : Shaped Level.all tree)
    (found : tree.find? keys = some b) (hroot : b.level ≠ .root) (hrequest : b.level ≠ .request) :
    ∃ c ∈ b.children, ∃ d ∈ c.branches, d.level = .request := by
  have below : keys ≠ [] := by
    rintro rfl
    exact hroot (Option.some.inj (shaped.level_of_find? found)).symm
  obtain ⟨-, -, a, -, ⟨rest, path⟩, reached⟩ := h keys below (found ▸ rfl)
  obtain ⟨leaf, hleaf⟩ := Option.isSome_iff_exists.1 reached
  have request : leaf.level = .request := (Option.some.inj (shaped.level_of_find? hleaf)).symm
  rw [← path, find?_append, found, Option.bind_some] at hleaf
  cases rest with
  | nil =>
    obtain rfl : b = leaf := Option.some.inj hleaf
    exact absurd request hrequest
  | cons key rest =>
    rw [find?, Option.bind_eq_some_iff] at hleaf
    obtain ⟨c, hc, hleaf⟩ := hleaf
    have hmem := (of_child? hc).1
    have hshaped := shaped.of_find? (shaped.find?_child found hmem)
    refine ⟨c, hmem, leaf, ?_, request⟩
    rw [← map_snd_located]
    exact List.mem_map_of_mem (hshaped.mem_located.2 hleaf)

theorem dataset_key (h : LeadsOn requests tree) (shaped : Shaped Level.all tree)
    (found : tree.find? keys = some b) (hc : c ∈ b.children) (hlevel : c.level = .dataset) :
    b.level = .sheet ∧
      ∃ r ∈ requests, r.sheet = some b.key ∧ c.key = b.key ++ "_" ++ r.datasetId := by
  have child := shaped.find?_child found hc
  have deep : (keys ++ [c.key]).length = 4 :=
    Level.depth_eq (hlevel ▸ shaped.level_of_find? child) rfl
  obtain ⟨r, hr, a, ha, ⟨rest, path⟩, -⟩ := h (keys ++ [c.key]) (by simp) (child ▸ rfl)
  -- four keys begin the path of the request, up to the dataset
  change _ = ([a.type.key, a.exploration, a.sheet] ++ [a.datasetKey]) ++ [a.visual, a.request]
    at path
  obtain ⟨rfl, hkey⟩ := List.append_inj' (List.append_inj path deep).1 rfl
  have sheet : b.key = a.sheet := key_of_find? [a.type.key, a.exploration] found
  obtain ⟨-, hsheet, hdataset, -, -⟩ := Address.ofRequest?_eq_some.1 ha
  refine ⟨(Option.some.inj (shaped.level_of_find? found)).symm, r, hr, sheet ▸ hsheet, ?_⟩
  rw [sheet, hdataset]
  exact List.singleton_injective hkey

end LeadsOn

theorem Orderly.of_shaped {requests : List Request} {tree : Branch} (h : Shaped Level.all tree)
    (ways : LeadsOn requests tree) (order : ∀ keys, tree.keysBelow keys =
      (requests.filterMap (Builder.needed? keys)).eraseDups) : Orderly requests tree where
  level := fun ⟨_, _⟩ hl => h.level_of_find? (h.mem_located.1 hl)
  siblings := by
    intro b hb
    obtain ⟨keys, found⟩ := h.exists_find? hb
    exact (h.of_find? found).nodup_children
  details := fun b hb => (h.level_iff Level.all.dropLast (by decide) b hb).symm
  leaf := by
    intro b hb hlevel
    obtain ⟨keys, found⟩ := h.exists_find? hb
    have deep : keys.length = 6 := Level.depth_eq (hlevel ▸ h.level_of_find? found) rfl
    have last := h.of_find? found
    rw [deep] at last
    exact last.children_eq_nil
  inner := by
    intro b hb
    obtain ⟨keys, found⟩ := h.exists_find? hb
    exact ways.request_below h found
  dataset := by
    intro b hb c
    obtain ⟨keys, found⟩ := h.exists_find? hb
    exact ways.dataset_key h found
  order := by
    rintro ⟨keys, b⟩ hl
    rw [← order, keysBelow_of_find? (h.mem_located.1 hl)]

end Branch

namespace Builder

/-- A path that requests made goes on to the end of the path of the one that was filed there. -/
theorem leadsOn_addAll (settings : Settings.Analysis) (links : Catalog.DocLinks)
    (requests : List Request) :
    Branch.LeadsOn requests (addAll settings links {} requests).1.root := by
  intro keys below found
  have reaches := Reaches.addAll links requests Reaches.start (Files.start settings)
  rw [List.append_nil] at reaches
  obtain rfl | ⟨f, hf, begins⟩ := (reaches keys).1 found
  · exact absurd rfl below
  · obtain ⟨filed, hfiled, rfl⟩ := List.mem_filterMap.1 hf
    obtain ⟨i, hi⟩ := List.mem_iff_getElem?.1 hfiled
    obtain ⟨hrequest, ha, -⟩ := filing_of_getElem? requests hi
    refine ⟨f.request, List.mem_of_getElem? hrequest, f.address, ha, begins, ?_⟩
    exact (reaches _).2 (.inr ⟨f, hf, List.prefix_rfl⟩)

theorem leadsOn_finish (settings : Settings.Analysis) {b : Builder} {requests : List Request}
    (h : Branch.LeadsOn requests b.root) : Branch.LeadsOn requests (b.finish settings).root := by
  intro keys below found
  simp only [isSome_find?_finish] at found ⊢
  exact h keys below found

/-- **Trees are orderly.** After any requests, those that were taken and those that were left out,
the tree is a hierarchy of these requests whose siblings stand in the order in which they were
needed, and so is the finished one. -/
theorem addAll_orderly (settings : Settings.Analysis) (links : Catalog.DocLinks)
    (requests : List Request) :
    let run := Builder.addAll settings links {} requests
    Branch.Orderly requests run.1.root ∧ Branch.Orderly requests (run.1.finish settings).root := by
  intro run
  obtain ⟨-, files⟩ := Files.addAll links requests (Files.start settings)
  have ways := leadsOn_addAll settings links requests
  have order (keys : List String) : run.1.root.keysBelow keys =
      (requests.filterMap (needed? keys)).eraseDups := by
    rw [keysBelow_addAll, ← foldl_addNew_nil]
    cases keys <;> rfl
  have finished (keys : List String) : (run.1.finish settings).root.keysBelow keys =
      (requests.filterMap (needed? keys)).eraseDups :=
    (keysBelow_finish settings _ keys).trans (order keys)
  exact ⟨.of_shaped files.shaped ways order,
    .of_shaped (finish_leaves settings files.shaped).1 (leadsOn_finish settings ways) finished⟩

end Builder

end Hierarchy

end DashCalc
