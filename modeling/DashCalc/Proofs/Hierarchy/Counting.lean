import DashCalc.Proofs.Hierarchy.Arrival
import DashCalc.Proofs.Hierarchy.Orderly
import Mathlib.Data.Finset.Card

/-!
# What the counts count

A builder notes the ids of the requests that it files beside the tree. The paths of the tree are the
beginnings of the paths of these requests, so the noted ids are the keys that the tree shows on the
level of their kind (`Branch.mem_keysAt`), and the counts of a finished hierarchy can be read off
its tree (`Builder.finish_counted`).
-/

namespace DashCalc.Hierarchy

/-! ## Keys of a tree -/

namespace Branch

/-- The keys of the branches on a level, in the order of the tree. -/
def keysAt (tree : Branch) (level : Level) : List String :=
  (tree.branches.filter fun b => b.level == level).map key

/-- Whether the paths of a tree are the beginnings of the paths of some addresses. -/
def PathsOf (addresses : List Address) (tree : Branch) : Prop :=
  ∀ keys, (tree.find? keys).isSome ↔ keys = [] ∨ ∃ a ∈ addresses, keys <+: a.path

variable {tree : Branch} {addresses : List Address}

/-- On each level stand the keys that the addresses have for it. -/
theorem mem_keysAt (shaped : Shaped Level.all tree) (paths : PathsOf addresses tree) {i : Nat}
    {level : Level} (hlevel : Level.all[i + 1]? = some level) {x : String} :
    x ∈ tree.keysAt level ↔ ∃ a ∈ addresses, a.path[i]? = some x := by
  unfold keysAt
  simp only [List.mem_map, List.mem_filter, beq_iff_eq]
  constructor
  · rintro ⟨b, ⟨hb, rfl⟩, rfl⟩
    obtain ⟨keys, found⟩ := shaped.exists_find? hb
    have deep : keys.length = i + 1 := Level.depth_eq (shaped.level_of_find? found) hlevel
    obtain rfl | ⟨init, last, rfl⟩ := keys.eq_nil_or_concat'
    · cases deep
    obtain none | ⟨a, ha, rest, path⟩ := (paths (init ++ [last])).1 (found ▸ rfl)
    · exact absurd none (List.append_ne_nil_of_right_ne_nil init (List.cons_ne_nil last []))
    · obtain rfl : init.length = i := by simpa using deep
      refine ⟨a, ha, ?_⟩
      rw [key_of_find? init found, ← path]
      simp
  · rintro ⟨a, ha, here⟩
    have inside : i < a.path.length := (List.getElem?_eq_some_iff.1 here).1
    have begins : a.path.take i ++ [x] <+: a.path := by
      have next : a.path.take (i + 1) = a.path.take i ++ [x] := by rw [List.take_add_one, here]; rfl
      exact next ▸ List.take_prefix _ _
    obtain ⟨b, found⟩ := Option.isSome_iff_exists.1 ((paths _).2 (.inr ⟨a, ha, begins⟩))
    refine ⟨b, ⟨?_, ?_⟩, key_of_find? _ found⟩
    · rw [← map_snd_located]
      exact List.mem_map_of_mem (shaped.mem_located.2 found)
    · have level := shaped.level_of_find? found
      rw [List.length_append, List.length_take_of_le (Nat.le_of_lt inside)] at level
      exact Option.some.inj (level.symm.trans hlevel)

/-- The keys below some others are those that lead on from them. -/
theorem Shaped.mem_keysBelow_iff (shaped : Shaped Level.all tree) {keys : List String}
    {x : String} : x ∈ tree.keysBelow keys ↔ (tree.find? (keys ++ [x])).isSome := by
  constructor
  · intro hx
    unfold keysBelow at hx
    cases found : tree.find? keys with
    | none =>
      rw [found] at hx
      cases hx
    | some b =>
      rw [found] at hx
      obtain ⟨c, hc, rfl⟩ := List.mem_map.1 hx
      exact shaped.find?_child found hc ▸ rfl
  · exact fun found => mem_keysBelow found ((keyAfter?_eq_some keys).2 List.prefix_rfl)

/-- How many branches are below the child with a key, none if there is no such child. -/
def countBelow (tree : Branch) (key : String) : Nat :=
  (tree.child? key).elim 0 fun b => b.children.length

theorem length_keysBelow (tree : Branch) (key : String) :
    (tree.keysBelow [key]).length = tree.countBelow key := by
  unfold keysBelow countBelow
  rw [find?]
  cases tree.child? key with
  | none => rfl
  | some b => exact List.length_map _

/-- Siblings have different keys. -/
theorem Shaped.nodup_keysBelow (shaped : Shaped Level.all tree) (keys : List String) :
    (tree.keysBelow keys).Nodup := by
  cases found : tree.find? keys with
  | none =>
    unfold keysBelow
    rw [found]
    exact List.nodup_nil
  | some b =>
    rw [keysBelow_of_find? found]
    exact (shaped.of_find? found).nodup_children

/-- The keys on the level of requests are those of the leaves. -/
theorem Shaped.keysAt_request (shaped : Shaped Level.all tree) :
    tree.keysAt .request = tree.leaves.map fun l => l.2.key := by
  have request : (tree.branches.filter fun b => b.level == .request) = tree.requests :=
    List.filter_congr fun b hb => by
      rw [Bool.eq_iff_iff, beq_iff_eq]
      exact shaped.level_iff Level.all.dropLast (by decide) b hb
  unfold keysAt
  rw [request, ← map_snd_leaves, List.map_map]
  rfl

/-- No key comes twice on the level of requests if no two visuals have a request with one key. -/
theorem Shaped.nodup_keysAt_request (shaped : Shaped Level.all tree) :
    (tree.keysAt .request).Nodup ↔ ∀ v ∈ tree.located, ∀ w ∈ tree.located,
      v.2.level = .visual → w.2.level = .visual →
        ∀ c ∈ v.2.children, ∀ d ∈ w.2.children, c.key = d.key → v.1 = w.1 := by
  have distinct := shaped.nodup_leaves
  rw [shaped.keysAt_request, List.nodup_map_iff_inj_on distinct.of_map]
  constructor
  · rintro same ⟨p, v⟩ hv ⟨q, w⟩ hw visual visual' c hc d hd key
    have leaf {p : List String} {v c : Branch} (hv : (p, v) ∈ tree.located)
        (visual : v.level = .visual) (hc : c ∈ v.children) : (p ++ [c.key], c) ∈ tree.leaves := by
      have found := shaped.mem_located.1 hv
      have deep : p.length = 5 := Level.depth_eq (visual ▸ shaped.level_of_find? found) rfl
      refine shaped.mem_leaves.2 ⟨?_, shaped.find?_child found hc⟩
      rw [List.length_append, deep]
      rfl
    have paths := same _ (leaf hv visual hc) _ (leaf hw visual' hd) key
    exact (List.append_inj' (Prod.mk.inj paths).1 rfl).1
  · rintro same ⟨p, c⟩ hc ⟨q, d⟩ hd (key : c.key = d.key)
    have visual {p : List String} {c : Branch} (hc : (p, c) ∈ tree.leaves) :
        ∃ init v, p = init ++ [c.key] ∧ (init, v) ∈ tree.located ∧ v.level = .visual ∧
          c ∈ v.children := by
      obtain ⟨deep, found⟩ := shaped.mem_leaves.1 hc
      obtain rfl | ⟨init, last, rfl⟩ := p.eq_nil_or_concat'
      · cases deep
      have hlast := key_of_find? init found
      rw [find?_append, Option.bind_eq_some_iff] at found
      obtain ⟨v, hv, child⟩ := found
      rw [find?, Option.bind_eq_some_iff] at child
      obtain ⟨e, he, child⟩ := child
      obtain rfl : e = c := Option.some.inj child
      have level := shaped.level_of_find? hv
      have length : init.length = 5 := by
        rw [List.length_append] at deep
        exact Nat.succ.inj (Nat.succ.inj deep)
      rw [length] at level
      refine ⟨init, v, by rw [hlast], shaped.mem_located.2 hv, (Option.some.inj level).symm, ?_⟩
      exact (of_child? he).1
    obtain ⟨init, v, rfl, hv, visualV, hcv⟩ := visual hc
    obtain ⟨init', w, rfl, hw, visualW, hdw⟩ := visual hd
    obtain rfl : init = init' := same _ hv _ hw visualV visualW c hcv d hdw key
    exact List.inj_on_of_nodup_map distinct hc hd (by rw [key])

end Branch

/-! ## Noted ids -/

/-- As many ids of a kind are noted as there are different keys among those of the kind. -/
theorem Address.length_foldl_noteAs_eq {kind : Address → Option String} {addresses : List Address}
    {keys : List String} (same : ∀ x, x ∈ keys ↔ ∃ a ∈ addresses, kind a = some x) :
    (addresses.foldl (noteAs kind) []).length = keys.toFinset.card := by
  rw [← List.toFinset_card_of_nodup (nodup_foldl_noteAs addresses List.nodup_nil)]
  refine congrArg Finset.card (Finset.ext fun x => ?_)
  rw [List.mem_toFinset, List.mem_toFinset, same, mem_foldl_noteAs]
  simp

/-- The explorations of a type are the keys below that type. -/
theorem Branch.mem_keysBelow_type {tree : Branch} {addresses : List Address}
    (shaped : Shaped Level.all tree) (paths : PathsOf addresses tree) (type : ExplorationType)
    {x : String} :
    x ∈ tree.keysBelow [type.key] ↔ ∃ a ∈ addresses, a.explorationOf type = some x := by
  rw [shaped.mem_keysBelow_iff, paths]
  have explorationOf (a : Address) :
      [type.key] ++ [x] <+: a.path ↔ a.explorationOf type = some x := by
    unfold Address.explorationOf Address.path
    rw [List.singleton_append, List.cons_prefix_cons, List.cons_prefix_cons]
    constructor
    · rintro ⟨same, rfl, -⟩
      rw [if_pos (ExplorationType.key_injective same.symm)]
    · intro h
      split at h
      · next same =>
        exact ⟨same ▸ rfl, (Option.some.inj h).symm, List.nil_prefix⟩
      · cases h
  simp only [explorationOf]
  exact or_iff_right nofun

/-! ## Counts of a finished hierarchy -/

/-- Whether the counts of a hierarchy are what its tree shows. -/
structure Counted (h : Hierarchy) : Prop where
  dashboards : h.counts.dashboards = h.root.countBelow ExplorationType.dashboards.key
  analyses : h.counts.analyses = h.root.countBelow ExplorationType.analyses.key
  sheets : h.counts.sheets = (h.root.keysAt .sheet).toFinset.card
  visuals : h.counts.visuals = (h.root.keysAt .visual).toFinset.card
  requests : h.counts.requests = (h.root.keysAt .request).toFinset.card
  /-- The root has as many requests as there are branches for requests. -/
  total : h.root.metrics.requestCount = (h.root.keysAt .request).length
  requests_le : h.counts.requests ≤ h.root.metrics.requestCount
  /-- Each request is counted once if no two visuals have a request with one id. -/
  requests_eq : h.counts.requests = h.root.metrics.requestCount ↔
    ∀ v ∈ h.root.located, ∀ w ∈ h.root.located, v.2.level = .visual → w.2.level = .visual →
      ∀ c ∈ v.2.children, ∀ d ∈ w.2.children, c.key = d.key → v.1 = w.1

/-- The counts are what the tree shows if they are those of the addresses that the paths of the tree
begin. -/
theorem Counted.of_addresses {h : Hierarchy} {addresses : List Address}
    (shaped : Branch.Shaped Level.all h.root) (paths : Branch.PathsOf addresses h.root)
    (counts : h.counts = (addresses.foldl (fun s a => a.note s) {} : Seen).counts)
    (sums : h.root.SumsUp) : Counted h := by
  rw [Address.foldl_note] at counts
  have explorations (type : ExplorationType) :
      (addresses.foldl (Address.noteAs (Address.explorationOf type)) []).length =
        h.root.countBelow type.key := by
    rw [← Branch.length_keysBelow,
      ← List.toFinset_card_of_nodup (shaped.nodup_keysBelow [type.key])]
    exact Address.length_foldl_noteAs_eq fun x => Branch.mem_keysBelow_type shaped paths type
  have level {kind : Address → String} {i : Nat} {level : Level}
      (hlevel : Level.all[i + 1]? = some level)
      (here : ∀ a : Address, a.path[i]? = some (kind a)) :
      (addresses.foldl (Address.noteAs fun a => some (kind a)) []).length =
        (h.root.keysAt level).toFinset.card := by
    refine Address.length_foldl_noteAs_eq fun x => ?_
    rw [Branch.mem_keysAt shaped paths hlevel]
    simp only [here]
  have total : h.root.metrics.requestCount = (h.root.keysAt .request).length := by
    rw [shaped.keysAt_request, List.length_map, sums.requestCount, ← Branch.map_snd_leaves,
      List.length_map]
  have different : h.counts.requests = (h.root.keysAt .request).toFinset.card :=
    counts ▸ level (i := 5) rfl fun _ => rfl
  refine ⟨counts ▸ explorations .dashboards, counts ▸ explorations .analyses,
    counts ▸ level (i := 2) rfl fun _ => rfl, counts ▸ level (i := 4) rfl fun _ => rfl,
    different, total, ?_, ?_⟩
  · rw [different, total]
    exact List.toFinset_card_le _
  · rw [different, total, ← shaped.nodup_keysAt_request]
    exact Multiset.toFinset_card_eq_card_iff_nodup

/-- **The counts are what the tree shows.** After any requests, the explorations of a type are the
children of the branch for that type, and sheets, visuals and requests are the different keys of the
branches on their levels. The root has the number of the branches for requests; these are more than
the different ids, unless no id occurs below two visuals. -/
theorem Builder.finish_counted (settings : Settings.Analysis) (links : Catalog.DocLinks)
    (requests : List Request) :
    Counted ((addAll settings links {} requests).1.finish settings) := by
  let filed := (filings links settings.dependencyMode [] 0 requests).filterMap id
  have start := Files.start settings
  obtain ⟨-, files⟩ := Files.addAll links requests start
  have reaches := Reaches.addAll links requests Reaches.start start
  rw [List.append_nil] at reaches
  change Reaches _ filed at reaches
  have paths : Branch.PathsOf (filed.map Filing.address)
      ((addAll settings links {} requests).1.finish settings).root := by
    intro keys
    rw [isSome_find?_finish, reaches keys]
    simp
  obtain ⟨sums, -⟩ := finish_sumsUp settings links requests
  exact .of_addresses (finish_leaves settings files.shaped).1 paths
    (congrArg Seen.counts (start.seen_addAll links requests))
    (sums _ (Branch.mem_branches.2 (.inl rfl)))

end DashCalc.Hierarchy
