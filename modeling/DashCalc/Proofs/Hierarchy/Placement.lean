import DashCalc.Proofs.Hierarchy.Leaves

/-!
# Changes of a tree

A change at the end of a path adds to the leaves of the whole tree what it adds to the leaves of the
branch that is changed, below the keys of the path, whether the branches on the way were there or
had to be made (`Branch.Shaped.changeAt`). So opening the way to a visual adds no leaf
(`Branch.Shaped.changeAt_id`), and filling a new request in adds one
(`Branch.Shaped.changeAt_fill`).
-/

namespace DashCalc.Hierarchy.Branch

theorem leaves_new (key : String) (level : Level) : (new key level).leaves = [] := rfl

/-- A branch after a change, compared with the branch before: it has these leaves more. -/
structure Grows (levels : List Level) (extra : List Located) (before after : Branch) : Prop where
  key : after.key = before.key
  shaped : Shaped levels after
  leaves : after.leaves.Perm (extra ++ before.leaves)

/-! ## One step down -/

section Children

variable {level : Level} {below : List Level} {extra : List Located} {made : Branch}
  {change : Branch → Branch}

/-- What is changed among siblings is the first one with the key, or else a new one. -/
theorem changeAmong_grows (empty : made.leaves = []) {bs : List Branch}
    (shaped : ∀ c ∈ bs, Shaped below c)
    (old : ∀ c ∈ bs, c.key = made.key → Grows below extra c (change c))
    (fresh : (∀ c ∈ bs, c.key ≠ made.key) → Grows below extra made (change made)) :
    (changeAmong made change bs).map Branch.key = addNew (bs.map Branch.key) made.key ∧
      (∀ c ∈ changeAmong made change bs, Shaped below c) ∧
      (leavesAmong (changeAmong made change bs)).Perm
        (extra.map (under made.key) ++ leavesAmong bs) := by
  induction bs with
  | nil =>
    obtain ⟨hkey, hshaped, hleaves⟩ := fresh fun c hc => absurd hc List.not_mem_nil
    refine ⟨congrArg ([·]) hkey, ?_, ?_⟩
    · intro c hc
      rw [List.mem_singleton.1 hc]
      exact hshaped
    · rw [empty, List.append_nil] at hleaves
      have here := hleaves.map (under made.key)
      simpa only [changeAmong, leavesAmong, List.flatMap_cons, List.flatMap_nil, List.append_nil,
        hkey] using here
  | cons b bs ih =>
    by_cases same : b.key = made.key
    · obtain ⟨hkey, hshaped, hleaves⟩ := old b List.mem_cons_self same
      simp only [changeAmong, same, beq_self_eq_true, if_true]
      refine ⟨?_, ?_, ?_⟩
      · have known : made.key ∈ (b :: bs).map Branch.key := same ▸ List.mem_cons_self
        rw [addNew, if_pos known, List.map_cons, List.map_cons, hkey]
      · intro c hc
        rcases List.mem_cons.1 hc with rfl | hc
        · exact hshaped
        · exact shaped c (List.mem_cons_of_mem b hc)
      · have here := (hleaves.map (under made.key)).append_right (leavesAmong bs)
        rw [List.map_append, List.append_assoc] at here
        simpa only [leavesAmong, List.flatMap_cons, hkey, same] using here
    · have other : (b.key == made.key) = false := beq_eq_false_iff_ne.2 same
      simp only [changeAmong, other, Bool.false_eq_true, if_false]
      obtain ⟨hkeys, hshaped, hleaves⟩ := ih (fun c hc => shaped c (List.mem_cons_of_mem b hc))
        (fun c hc => old c (List.mem_cons_of_mem b hc)) (fun hnot => fresh fun c hc => by
          rcases List.mem_cons.1 hc with rfl | hc
          · exact same
          · exact hnot c hc)
      refine ⟨?_, ?_, ?_⟩
      · rw [List.map_cons, hkeys, List.map_cons, addNew_cons fun e => same e.symm]
      · intro c hc
        rcases List.mem_cons.1 hc with rfl | hc
        · exact shaped c List.mem_cons_self
        · exact hshaped c hc
      · exact (hleaves.append_left _).trans (List.perm_append_comm_assoc _ _ _)

/-- A change of one child, or of a new one, adds to the leaves below the key of that child. -/
theorem Shaped.changeAmong {b : Branch} (h : Shaped (level :: below) b) (inner : below ≠ [])
    (extra : List Located) (empty : made.leaves = [])
    (old : ∀ c, b.child? made.key = some c → Grows below extra c (change c))
    (fresh : b.child? made.key = none → Grows below extra made (change made)) :
    Grows (level :: below) (extra.map (under made.key)) b
      { b with children := Branch.changeAmong made change b.children } := by
  obtain ⟨keys, shaped, leaves⟩ := changeAmong_grows empty h.2.2.2
    (fun c hc hkey => old c (h.child?_eq_some.2 ⟨hc, hkey⟩))
    (fun hnot => fresh (List.find?_eq_none.2 fun c hc hkey => hnot c hc (beq_iff_eq.1 hkey)))
  have after : Shaped (level :: below)
      { b with children := Branch.changeAmong made change b.children } := by
    refine ⟨h.1, h.2.1, ?_, shaped⟩
    rw [keys]
    exact nodup_addNew _ h.2.2.1
  refine ⟨rfl, after, ?_⟩
  rw [after.leaves_inner inner, h.leaves_inner inner]
  exact leaves

end Children

/-! ## The whole way -/

/-- What is located below a branch that these keys lead to, from above. -/
def underAll (keys : List String) (l : Located) : Located := (keys ++ l.1, l.2)

theorem shaped_named {levels : List Level} {b : Branch} (h : Shaped levels b)
    (name : Option String) : Shaped levels (b.named name) := by
  cases levels with
  | nil => exact h
  | cons level below => exact h

theorem shaped_new (key : String) (level : Level) {below : List Level} (inner : below ≠ []) :
    Shaped (level :: below) (new key level) :=
  ⟨rfl, iff_of_false Bool.false_ne_true inner, List.nodup_nil, fun _ hc => nomatch hc⟩

theorem leaves_named {b : Branch} (h : b.details = none) (name : Option String) :
    (b.named name).leaves = b.leaves := by
  rw [leaves_eq, leaves_eq, named, h]
  rfl

/-- A name makes no difference to what is found below. -/
theorem find?_named {b d : Branch} {name : Option String} {path : List String}
    (hd : (b.named name).find? path = some d) :
    ∃ d', b.find? path = some d' ∧ d'.children = d.children := by
  cases path with
  | nil =>
    obtain rfl : b.named name = d := Option.some.inj hd
    exact ⟨b, rfl, rfl⟩
  | cons key path => exact ⟨d, hd, rfl⟩

/-- Nothing is found in a branch that is empty. -/
theorem children_of_find? {b d : Branch} (h : b.children = []) {path : List String}
    (hd : b.find? path = some d) : d.children = [] := by
  cases path with
  | nil =>
    obtain rfl : b = d := Option.some.inj hd
    exact h
  | cons key path =>
    rw [find?, child?, h] at hd
    cases hd

theorem changeAt_append (change : Branch → Branch) (path path' : List Place) (b : Branch) :
    changeAt change (path ++ path') b = changeAt (changeAt change path') path b := by
  induction path generalizing b with
  | nil => rfl
  | cons place path ih =>
    simp only [List.cons_append, changeAt]
    exact congrArg (fun f => { b with
      children := changeAmong (new place.key place.level) f b.children })
      (funext fun c => ih (c.named place.name))

theorem find?_append (path path' : List String) (b : Branch) :
    b.find? (path ++ path') = (b.find? path).bind fun c => c.find? path' := by
  induction path generalizing b with
  | nil => rfl
  | cons key path ih =>
    simp only [List.cons_append, find?, Option.bind_assoc]
    exact congrArg (b.child? key).bind (funext ih)

/-- Whatever a change adds to the leaves of the branch at the end of the path, it adds to the leaves
of the tree. The branch is one of which `P` holds of the children: those that the path led to before,
if it led anywhere. -/
theorem Shaped.changeAt {below : List Level} (inner : below ≠ []) (extra : List Located)
    {change : Branch → Branch} {P : List Branch → Prop} (nothing : P [])
    (last : ∀ level c, Shaped (level :: below) c → P c.children →
      Grows (level :: below) extra c (change c)) :
    ∀ {path : List Place} {level : Level} {b : Branch},
      Shaped (level :: (path.map Place.level ++ below)) b →
      (∀ d, b.find? (path.map Place.key) = some d → P d.children) →
      Grows (level :: (path.map Place.level ++ below))
        (extra.map (underAll (path.map Place.key))) b
        (Branch.changeAt change path b) := by
  intro path
  induction path with
  | nil =>
    intro level b h found
    have here := last level b h (found b rfl)
    rwa [← List.map_id extra] at here
  | cons place path ih =>
    intro level b h found
    have deeper : path.map Place.level ++ below ≠ [] := List.append_ne_nil_of_right_ne_nil _ inner
    -- one step further down, past the name that the branch may get
    have step : ∀ c, Shaped (place.level :: (path.map Place.level ++ below)) c →
        (∀ d, c.find? (path.map Place.key) = some d → P d.children) →
        Grows (place.level :: (path.map Place.level ++ below))
          (extra.map (underAll (path.map Place.key))) c
          (Branch.changeAt change path (c.named place.name)) := by
      intro c hc hfound
      obtain ⟨key, shaped, leaves⟩ := ih (shaped_named hc place.name) fun d hd => by
        obtain ⟨d', hd', same⟩ := find?_named hd
        exact same ▸ hfound d' hd'
      rw [leaves_named (hc.details_eq_none deeper)] at leaves
      exact ⟨key, shaped, leaves⟩
    have keys : extra.map (underAll ((place :: path).map Place.key)) =
        (extra.map (underAll (path.map Place.key))).map (under place.key) := by
      rw [List.map_map]
      rfl
    rw [keys]
    refine h.changeAmong (List.cons_ne_nil _ _) _ (leaves_new _ _) ?_ ?_
    · intro c hc
      refine step c (h.2.2.2 c (h.child?_eq_some.1 hc).1) fun d hd => found d ?_
      rw [List.map_cons, find?]
      exact hc ▸ hd
    · intro _
      refine step _ (shaped_new _ _ deeper) fun d hd => ?_
      rw [children_of_find? rfl hd]
      exact nothing

/-- Opening a way that ends above the requests adds no leaf. -/
theorem Shaped.changeAt_id {below : List Level} (inner : below ≠ []) (path : List Place)
    {level : Level} {b : Branch} (h : Shaped (level :: (path.map Place.level ++ below)) b) :
    Grows (level :: (path.map Place.level ++ below)) [] b (Branch.changeAt id path b) := by
  exact h.changeAt inner [] (P := fun _ => True) trivial
    (fun _ c hc _ => ⟨rfl, hc, List.Perm.refl _⟩) fun _ _ => trivial

/-- Filling in a request that is not there adds it as a leaf. -/
theorem Shaped.changeAt_fill (path : List Place) (key : String) (fill : Branch → Branch)
    {level : Level} {b : Branch} (h : Shaped (level :: (path.map Place.level ++ [.request])) b)
    (absent : b.find? (path.map Place.key ++ [key]) = none)
    (hkey : (fill (new key .request)).key = key)
    (hshaped : Shaped [.request] (fill (new key .request))) :
    Grows (level :: (path.map Place.level ++ [.request]))
      [(path.map Place.key ++ [key], fill (new key .request))] b
      (Branch.changeAt fill (path ++ [⟨key, .request, none⟩]) b) := by
  rw [changeAt_append]
  -- the branch at the end of the path has no child of this key
  let P (children : List Branch) : Prop := children.find? (fun c => c.key == key) = none
  refine h.changeAt (List.cons_ne_nil _ _) [([key], fill (new key .request))] (P := P) rfl ?_ ?_
  · intro level c hc hnot
    refine hc.changeAmong (List.cons_ne_nil _ _) [([], fill (new key .request))] (leaves_new _ _)
      ?_ ?_
    · intro d hd
      cases hnot.symm.trans hd
    · intro _
      refine ⟨hkey, hshaped, ?_⟩
      exact List.Perm.of_eq hshaped.leaves_request
  · intro d hd
    rw [find?_append, hd] at absent
    show d.child? key = none
    cases hc : d.child? key with
    | none => rfl
    | some c =>
      simp only [Option.bind_some, find?, hc] at absent
      cases absent

end DashCalc.Hierarchy.Branch
