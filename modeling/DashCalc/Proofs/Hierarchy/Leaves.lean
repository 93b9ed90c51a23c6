import DashCalc.Distinct
import DashCalc.Hierarchy.Basic
import Mathlib.Data.List.Flatten
import Mathlib.Data.List.Nodup

/-!
# The leaves of a tree

`Branch.leaves` lists the requests of a tree, each with the keys that lead to it. A tree is
`Branch.Shaped` if its branches have the levels from the root down, siblings have different keys
and the requests are the leaves. In such a tree the leaves are exactly what is found at the end of a
path as long as the tree is deep (`Branch.Shaped.mem_leaves`).
-/

namespace DashCalc.Hierarchy.Branch

/-- What passes from the children to a branch holds of every tree. -/
theorem induction {P : Branch → Prop} (step : ∀ b, (∀ c ∈ b.children, P c) → P b) : ∀ b, P b
  | ⟨key, level, name, metrics, details, children⟩ =>
    step ⟨key, level, name, metrics, details, children⟩ fun c _ => induction step c
termination_by b => sizeOf b
decreasing_by
  have smaller : sizeOf c < sizeOf children := List.sizeOf_lt_of_mem (by assumption)
  simp only [mk.sizeOf_spec]
  omega

/-! ## Leaves with their paths -/

/-- A branch with the keys that lead to it. -/
abbrev Located := List String × Branch

/-- What is located below a branch with a key, from above that branch. -/
def under (key : String) (l : Located) : Located := (key :: l.1, l.2)

mutual

/-- The branch and all below it, with the keys that lead to them. -/
def located : Branch → List Located
  | ⟨key, level, name, metrics, details, children⟩ =>
    ([], ⟨key, level, name, metrics, details, children⟩) :: locatedAmong children

/-- These branches and all below them, with the keys that lead to them. -/
def locatedAmong : List Branch → List Located
  | [] => []
  | b :: rest => (located b).map (under b.key) ++ locatedAmong rest

end

/-- The requests of a tree, with the keys that lead to them. -/
def leaves (b : Branch) : List Located := b.located.filter fun l => l.2.details.isSome

/-- The leaves of several trees, from above them. -/
def leavesAmong (bs : List Branch) : List Located := bs.flatMap fun c => c.leaves.map (under c.key)

theorem filter_locatedAmong (bs : List Branch) :
    (locatedAmong bs).filter (fun l => l.2.details.isSome) = leavesAmong bs := by
  induction bs with
  | nil => rfl
  | cons b bs ih =>
    rw [locatedAmong, List.filter_append, ih, List.filter_map]
    rfl

theorem leaves_eq (b : Branch) :
    b.leaves = (if b.details.isSome then [([], b)] else []) ++ leavesAmong b.children := by
  obtain ⟨key, level, name, metrics, details, children⟩ := b
  rw [leaves, located, List.filter_cons, filter_locatedAmong]
  split <;> rfl

mutual

theorem map_snd_located : ∀ b : Branch, b.located.map Prod.snd = b.branches
  | ⟨_, _, _, _, _, children⟩ => congrArg (_ :: ·) (map_snd_locatedAmong children)

theorem map_snd_locatedAmong : ∀ bs : List Branch,
    (locatedAmong bs).map Prod.snd = branchesOfAll bs
  | [] => rfl
  | b :: rest => by
    rw [locatedAmong, branchesOfAll, List.map_append, List.map_map, map_snd_locatedAmong rest,
      ← map_snd_located b]
    rfl

end

/-- The leaves are the requests of the tree, in their order. -/
theorem map_snd_leaves (b : Branch) : b.leaves.map Prod.snd = b.requests := by
  rw [requests, ← map_snd_located, List.filter_map]
  rfl

theorem mem_leavesAmong {bs : List Branch} {path : List String} {b : Branch} :
    (path, b) ∈ leavesAmong bs ↔ ∃ c ∈ bs, ∃ rest, (rest, b) ∈ c.leaves ∧ path = c.key :: rest := by
  unfold leavesAmong
  rw [List.mem_flatMap]
  refine exists_congr fun c => and_congr_right fun _ => ?_
  rw [List.mem_map]
  constructor
  · rintro ⟨⟨rest, _⟩, hmem, e⟩
    cases e
    exact ⟨rest, hmem, rfl⟩
  · rintro ⟨rest, hmem, rfl⟩
    exact ⟨(rest, b), hmem, rfl⟩

theorem branchesOfAll_eq_flatMap (bs : List Branch) :
    branchesOfAll bs = bs.flatMap branches := by
  induction bs with
  | nil => rfl
  | cons b bs ih => rw [branchesOfAll, ih, List.flatMap_cons]

theorem branches_eq (b : Branch) : b.branches = b :: b.children.flatMap branches := by
  obtain ⟨key, level, name, metrics, details, children⟩ := b
  rw [branches, branchesOfAll_eq_flatMap]

theorem mem_branches {b c : Branch} :
    c ∈ b.branches ↔ c = b ∨ ∃ d ∈ b.children, c ∈ d.branches := by
  rw [branches_eq, List.mem_cons, List.mem_flatMap]

theorem mem_located {b : Branch} {l : Located} :
    l ∈ b.located ↔ l = ([], b) ∨ ∃ c ∈ b.children, ∃ m ∈ c.located, under c.key m = l := by
  obtain ⟨key, level, name, metrics, details, children⟩ := b
  rw [located, List.mem_cons]
  refine or_congr_right ?_
  induction children with
  | nil => simp [locatedAmong]
  | cons c cs ih => simp [locatedAmong, ih]

theorem branches_trans {c d : Branch} (b : Branch) : c ∈ b.branches → d ∈ c.branches →
    d ∈ b.branches := by
  induction b using Branch.induction with
  | step b ih =>
    intro hc hd
    rcases mem_branches.1 hc with rfl | ⟨e, he, hc⟩
    · exact hd
    · exact mem_branches.2 (.inr ⟨e, he, ih e he hc hd⟩)

/-! ## The shape of a hierarchy -/

/-- Whether a tree has these levels from the root down: siblings have different keys, and those on
the last level, and no others, are requests. -/
def Shaped : List Level → Branch → Prop
  | [], _ => False
  | level :: below, b =>
    b.level = level ∧ (b.details.isSome ↔ below = []) ∧ (b.children.map key).Nodup ∧
      ∀ c ∈ b.children, Shaped below c

namespace Shaped

variable {b : Branch} {level : Level} {below : List Level}

theorem children_eq_nil (h : Shaped [level] b) : b.children = [] :=
  List.eq_nil_iff_forall_not_mem.2 h.2.2.2

theorem leaves_request (h : Shaped [level] b) : b.leaves = [([], b)] := by
  rw [leaves_eq, h.children_eq_nil, if_pos (h.2.1.2 rfl)]
  rfl

theorem details_eq_none (h : Shaped (level :: below) b) (inner : below ≠ []) :
    b.details = none :=
  Option.not_isSome_iff_eq_none.1 fun some => inner (h.2.1.1 some)

theorem leaves_inner (h : Shaped (level :: below) b) (inner : below ≠ []) :
    b.leaves = leavesAmong b.children := by
  rw [leaves_eq, h.details_eq_none inner]
  rfl

/-- The branches on the last level, that of requests, are those with details. -/
theorem level_iff (levels : List Level) : ∀ {b : Branch}, Shaped (levels ++ [.request]) b →
    .request ∉ levels → ∀ c ∈ b.branches, c.level = .request ↔ c.details.isSome := by
  induction levels with
  | nil =>
    intro b h _ c hc
    rcases mem_branches.1 hc with rfl | ⟨d, hd, -⟩
    · exact iff_of_true h.1 (h.2.1.2 rfl)
    · exact (h.2.2.2 d hd).elim
  | cons level levels ih =>
    intro b h hnot c hc
    rw [List.mem_cons, not_or] at hnot
    rcases mem_branches.1 hc with rfl | ⟨d, hd, hc⟩
    · refine iff_of_false (fun e => hnot.1 (e.symm.trans h.1)) fun some => ?_
      exact List.append_ne_nil_of_right_ne_nil _ (List.cons_ne_nil _ _) (h.2.1.1 some)
    · exact ih (h.2.2.2 d hd) hnot.2 c hc

/-- With different keys, a child is found by its key. -/
theorem child?_eq_some (h : Shaped (level :: below) b) {c : Branch} {key : String} :
    b.child? key = some c ↔ c ∈ b.children ∧ c.key = key := by
  unfold child?
  constructor
  · intro hc
    have hkey : (c.key == key) = true := List.find?_some (p := fun d : Branch => d.key == key) hc
    exact ⟨List.mem_of_find?_eq_some hc, beq_iff_eq.1 hkey⟩
  · rintro ⟨hmem, rfl⟩
    exact find?_key h.2.2.1 hmem

/-- The leaves are what is found at the end of a path that is as long as the tree is deep. -/
theorem mem_leaves : ∀ {levels : List Level} {b : Branch}, Shaped levels b →
    ∀ {path : List String} {c : Branch},
      (path, c) ∈ b.leaves ↔ path.length + 1 = levels.length ∧ b.find? path = some c := by
  intro levels
  induction levels with
  | nil => exact fun h => h.elim
  | cons level below ih =>
    intro b h path c
    cases below with
    | nil =>
      rw [h.leaves_request, List.mem_singleton]
      cases path with
      | nil => simp [find?, eq_comm]
      | cons key path => simp
    | cons next below =>
      rw [h.leaves_inner (List.cons_ne_nil next below), mem_leavesAmong]
      cases path with
      | nil => simp
      | cons key path =>
        rw [find?, Option.bind_eq_some_iff]
        simp only [h.child?_eq_some]
        constructor
        · rintro ⟨d, hd, rest, hmem, e⟩
          cases e
          obtain ⟨hlength, hfound⟩ := (ih (h.2.2.2 d hd)).1 hmem
          exact ⟨congrArg (· + 1) hlength, d, ⟨hd, rfl⟩, hfound⟩
        · rintro ⟨hlength, d, ⟨hd, rfl⟩, hfound⟩
          exact ⟨d, hd, path, (ih (h.2.2.2 d hd)).2 ⟨Nat.succ.inj hlength, hfound⟩, rfl⟩

/-- A path that is as long as the tree is deep leads somewhere if it is the path of a leaf. -/
theorem find?_isSome {levels : List Level} (h : Shaped levels b) {path : List String}
    (hlength : path.length + 1 = levels.length) :
    (b.find? path).isSome ↔ path ∈ b.leaves.map Prod.fst := by
  rw [Option.isSome_iff_exists, List.mem_map]
  constructor
  · rintro ⟨c, hc⟩
    exact ⟨(path, c), h.mem_leaves.2 ⟨hlength, hc⟩, rfl⟩
  · rintro ⟨⟨_, c⟩, hc, rfl⟩
    exact ⟨c, (h.mem_leaves.1 hc).2⟩

/-- What is located in a tree is what the keys lead to. -/
theorem mem_located : ∀ {levels : List Level} {b : Branch}, Shaped levels b →
    ∀ {keys : List String} {c : Branch}, (keys, c) ∈ b.located ↔ b.find? keys = some c := by
  intro levels
  induction levels with
  | nil => exact fun h => h.elim
  | cons level below ih =>
    intro b h keys c
    rw [Branch.mem_located]
    cases keys with
    | nil => simp [find?, under, eq_comm]
    | cons key keys =>
      rw [find?, Option.bind_eq_some_iff]
      simp only [h.child?_eq_some]
      constructor
      · rintro (e | ⟨d, hd, ⟨rest, _⟩, hmem, e⟩)
        · cases e
        · cases e
          exact ⟨d, ⟨hd, rfl⟩, (ih (h.2.2.2 d hd)).1 hmem⟩
      · rintro ⟨d, ⟨hd, rfl⟩, found⟩
        exact .inr ⟨d, hd, (keys, c), (ih (h.2.2.2 d hd)).2 found, rfl⟩

theorem locatedAmong_eq_flatMap (bs : List Branch) :
    locatedAmong bs = bs.flatMap fun c => c.located.map (under c.key) := by
  induction bs with
  | nil => rfl
  | cons b bs ih => rw [locatedAmong, ih, List.flatMap_cons]

/-- Different keys lead to whatever is located at two places of a tree. -/
theorem nodup_located : ∀ {levels : List Level} {b : Branch}, Shaped levels b →
    (b.located.map Prod.fst).Nodup := by
  intro levels
  induction levels with
  | nil => exact fun h => h.elim
  | cons level below ih =>
    intro b h
    obtain ⟨key, level, name, metrics, details, children⟩ := b
    rw [located, locatedAmong_eq_flatMap, List.map_cons, List.map_flatMap, List.nodup_cons,
      List.nodup_flatMap]
    refine ⟨?_, fun c hc => ?_, ?_⟩
    · simp [under]
    · have below := (ih (h.2.2.2 c hc)).map (List.cons_injective (a := c.key))
      rw [List.map_map] at below ⊢
      exact below
    · refine (List.pairwise_map.1 h.2.2.1).imp fun {c d} differ => ?_
      simp only [List.map_map, Function.onFun, List.disjoint_left, List.mem_map]
      rintro _ ⟨l, -, rfl⟩ ⟨m, -, e⟩
      exact differ (List.head_eq_of_cons_eq e).symm

theorem nodup_leaves {levels : List Level} (h : Shaped levels b) :
    (b.leaves.map Prod.fst).Nodup :=
  h.nodup_located.sublist (List.filter_sublist.map _)

/-- What keys lead to has the levels from there on. -/
theorem of_find? : ∀ {keys : List String} {levels : List Level} {b c : Branch}, Shaped levels b →
    b.find? keys = some c → Shaped (levels.drop keys.length) c := by
  intro keys
  induction keys with
  | nil =>
    intro levels b c h found
    obtain rfl : b = c := Option.some.inj found
    exact h
  | cons key keys ih =>
    intro levels b c h found
    cases levels with
    | nil => exact h.elim
    | cons level below =>
      rw [find?, Option.bind_eq_some_iff] at found
      obtain ⟨d, hd, found⟩ := found
      exact ih (h.2.2.2 d (h.child?_eq_some.1 hd).1) found

end Shaped

end DashCalc.Hierarchy.Branch
