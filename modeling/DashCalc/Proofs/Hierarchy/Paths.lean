import DashCalc.Proofs.Hierarchy.Filing

/-!
# What paths lead to after a change

A change at the end of a way makes the branches on the way, and gives names to those that have none;
what stands elsewhere is left alone (`Branch.find?_changeAt_cons`). So after some requests the paths
of the tree are the beginnings of the paths of filed requests (`Builder.Reaches.addAll`), and a
branch has the first name that a request gives it, kept or not (`Builder.name_addAll`).
-/

namespace DashCalc.Hierarchy

namespace Branch

/-! ## One change -/

/-- The first branch with a key among these. -/
def among? (bs : List Branch) (key : String) : Option Branch := bs.find? fun c => c.key == key

theorem child?_eq_among? (b : Branch) (key : String) : b.child? key = among? b.children key := rfl

/-- Whether a change of a branch leaves its key, its name and what is below it. -/
structure Stays (change : Branch → Branch) : Prop where
  key : ∀ b, (change b).key = b.key
  name : ∀ b, (change b).name = b.name
  children : ∀ b, (change b).children = b.children

theorem stays_id : Stays id := ⟨fun _ => rfl, fun _ => rfl, fun _ => rfl⟩

/-- What is changed among siblings is found changed; any other key leads where it led before. -/
theorem among?_changeAmong (change : Branch → Branch) (hkey : ∀ c, (change c).key = c.key)
    (made : Branch) (bs : List Branch) (key : String) :
    among? (changeAmong made change bs) key =
      if key = made.key then some (change ((among? bs key).getD made)) else among? bs key := by
  induction bs with
  | nil =>
    by_cases here : key = made.key
    · subst here
      simp [changeAmong, among?, hkey]
    · simp [changeAmong, among?, hkey, here, Ne.symm here]
  | cons b bs ih =>
    unfold among? at ih ⊢
    by_cases same : b.key = made.key
    · by_cases here : key = made.key
      · subst here
        simp [changeAmong, same, hkey]
      · simp [changeAmong, same, hkey, here, Ne.symm here]
    · by_cases here : key = made.key
      · subst here
        simpa [changeAmong, same] using ih
      · by_cases first : b.key = key
        · simp [changeAmong, first, here]
        · simpa [changeAmong, same, first, here] using ih

/-- Below a branch on the way, made or not, named or not, keys lead where they led before. -/
theorem find?_onWay (b : Branch) (place : Place) (key : String) (keys : List String) :
    (((b.child? place.key).getD (new place.key place.level)).named place.name).find?
      (key :: keys) = b.find? (place.key :: key :: keys) := by
  change _ = (b.child? place.key).bind fun c => c.find? (key :: keys)
  cases b.child? place.key <;> rfl

/-- The name that a way has for the branch that some keys lead to. -/
def nameAlong : List Place → List String → Option String
  | place :: path, key :: keys =>
    if key = place.key then if keys = [] then place.name else nameAlong path keys else none
  | _, _ => none

@[simp]
theorem nameAlong_nil_left (keys : List String) : nameAlong [] keys = none := by
  unfold nameAlong
  rfl

@[simp]
theorem nameAlong_nil_right (path : List Place) : nameAlong path [] = none := by
  cases path <;> rfl

/-- A place without a name at the end of a way gives no name. -/
theorem nameAlong_concat (path : List Place) (key : String) (level : Level) :
    nameAlong (path ++ [⟨key, level, none⟩]) = nameAlong path := by
  induction path with
  | nil =>
    funext keys
    cases keys <;> simp [nameAlong]
  | cons place path ih =>
    funext keys
    cases keys with
    | nil => rfl
    | cons key keys => simp only [List.cons_append, nameAlong, ih]

namespace Stays

variable {change : Branch → Branch}

theorem key_changeAt (h : Stays change) (path : List Place) (b : Branch) :
    (changeAt change path b).key = b.key := by
  cases path with
  | nil => exact h.key b
  | cons place path => rfl

/-- A key of the way leads to the changed branch, any other one where it led before. -/
theorem find?_changeAt_cons (h : Stays change) (place : Place) (path : List Place) (b : Branch)
    (key : String) (keys : List String) :
    (changeAt change (place :: path) b).find? (key :: keys) =
      if key = place.key then
        (changeAt change path
          (((b.child? key).getD (new place.key place.level)).named place.name)).find? keys
      else b.find? (key :: keys) := by
  have among := among?_changeAmong (fun c => changeAt change path (c.named place.name))
    (fun c => h.key_changeAt path (c.named place.name)) (new place.key place.level) b.children
    key
  simp only [find?, child?_eq_among?, changeAt]
  rw [among]
  change (if key = place.key then _ else _ : Option Branch).bind _ = _
  split <;> rfl

/-- After a change the tree has the paths that it had, and those along the way. -/
theorem isSome_find? (h : Stays change) : ∀ (path : List Place) (b : Branch) (keys : List String),
    ((changeAt change path b).find? keys).isSome ↔
      (b.find? keys).isSome ∨ keys <+: path.map Place.key := by
  intro path
  induction path with
  | nil =>
    intro b keys
    cases keys with
    | nil => simp [find?]
    | cons key keys => simp [changeAt, find?, child?, h.children]
  | cons place path ih =>
    intro b keys
    cases keys with
    | nil => simp [find?]
    | cons key keys =>
      rw [h.find?_changeAt_cons, List.map_cons, List.cons_prefix_cons]
      by_cases here : key = place.key
      · rw [if_pos here, ih]
        simp only [here, true_and]
        refine or_congr_left' fun below => ?_
        cases keys with
        | nil => exact absurd List.nil_prefix below
        | cons next keys => rw [find?_onWay]
      · rw [if_neg here]
        simp [here]

/-- After a change of a way, what has no name yet has the one that the way has for it. -/
theorem name_find? (h : Stays change) : ∀ (path : List Place) (b : Branch) (keys : List String),
    ((changeAt change path b).find? keys).bind Branch.name =
      ((b.find? keys).bind Branch.name).or (nameAlong path keys) := by
  intro path
  induction path with
  | nil =>
    intro b keys
    cases keys with
    | nil => simp [find?, changeAt, h.name]
    | cons key keys => simp [changeAt, find?, child?, h.children]
  | cons place path ih =>
    intro b keys
    cases keys with
    | nil => simp [find?, changeAt]
    | cons key keys =>
      rw [h.find?_changeAt_cons]
      by_cases here : key = place.key
      · rw [if_pos here, ih]
        subst here
        cases keys with
        | nil => cases hc : b.child? place.key <;> simp [find?, hc, nameAlong, named, new]
        | cons next keys => simp [find?_onWay, nameAlong]
      · rw [if_neg here]
        simp [nameAlong, here]

end Stays

end Branch

/-! ## Taking requests -/

namespace Builder

variable {settings : Settings.Analysis} {links : Catalog.DocLinks} {b : Builder}
  {filed : List Filing}

/-- The branch as that of an analysed request. -/
def filled (threshold : Nat) (r : Request) (a : Request.Analysis) (leaf : Branch) : Branch :=
  { leaf with metrics := .ofRequest threshold r a, details := some (.ofRequest r a) }

theorem stays_filled (threshold : Nat) (r : Request) (a : Request.Analysis) :
    Branch.Stays (filled threshold r a) := ⟨fun _ => rfl, fun _ => rfl, fun _ => rfl⟩

section Add

variable (settings links b) {r : Request} {a : Address}

theorem add_incomplete (ha : Address.ofRequest? r = none) :
    b.add settings links r = (b, false) := by
  unfold add
  rw [ha]

theorem add_known (ha : Address.ofRequest? r = some a)
    (found : ((b.root.changeAt id (a.visualPlaces r.names)).find? a.path).isSome) :
    b.add settings links r =
      ({ b with root := b.root.changeAt id (a.visualPlaces r.names) }, false) := by
  unfold add
  rw [ha]
  exact if_pos found

theorem add_new (ha : Address.ofRequest? r = some a)
    (found : ((b.root.changeAt id (a.visualPlaces r.names)).find? a.path).isSome = false) :
    b.add settings links r =
      ({ root := (b.root.changeAt id (a.visualPlaces r.names)).changeAt
           (filled settings.highCostThreshold r (r.analyze links settings.dependencyMode b.taken).1)
           (a.visualPlaces r.names ++ [⟨r.id, .request, none⟩])
         taken := (r.analyze links settings.dependencyMode b.taken).2
         seen := a.note b.seen
         isAbandoned := b.isAbandoned ||
           (r.analyze links settings.dependencyMode b.taken).1.isAbandoned }, true) := by
  unfold add
  rw [ha]
  exact if_neg (Bool.eq_false_iff.1 found)

/-- All that taking a request can do: a request without an address is left out, and so is one with
a known address once the way to its visual is open; any other one is filled in at the end of that
way. -/
theorem add_cases (r : Request) :
    (Address.ofRequest? r = none ∧ b.add settings links r = (b, false)) ∨
      ∃ a, Address.ofRequest? r = some a ∧
        let opened := b.root.changeAt id (a.visualPlaces r.names)
        let analysis := r.analyze links settings.dependencyMode b.taken
        ((opened.find? a.path).isSome ∧
            b.add settings links r = ({ b with root := opened }, false)) ∨
          ((opened.find? a.path).isSome = false ∧ b.add settings links r =
            ({ root := opened.changeAt (filled settings.highCostThreshold r analysis.1)
                 (a.visualPlaces r.names ++ [⟨r.id, .request, none⟩])
               taken := analysis.2
               seen := a.note b.seen
               isAbandoned := b.isAbandoned || analysis.1.isAbandoned }, true)) := by
  cases ha : Address.ofRequest? r with
  | none => exact .inl ⟨rfl, add_incomplete settings links b ha⟩
  | some a =>
    refine .inr ⟨a, rfl, ?_⟩
    cases found : ((b.root.changeAt id (a.visualPlaces r.names)).find? a.path).isSome with
    | true => exact .inl ⟨found, add_known settings links b ha found⟩
    | false => exact .inr ⟨found, add_new settings links b ha found⟩

/-- The ids of a request are noted if it finds a place. -/
theorem seen_add (r : Request) : (b.add settings links r).1.seen =
    if (b.add settings links r).2 then
      (Address.ofRequest? r).elim b.seen fun a => a.note b.seen
    else b.seen := by
  rcases add_cases settings links b r with ⟨-, hadd⟩ | ⟨a, ha, ⟨-, hadd⟩ | ⟨-, hadd⟩⟩
  · rw [hadd]
    rfl
  · rw [hadd]
    rfl
  · rw [hadd, ha]
    rfl

/-- A request that finds a place ends the run if its analysis does. -/
theorem isAbandoned_add (r : Request) : (b.add settings links r).1.isAbandoned =
    (b.isAbandoned || ((b.add settings links r).2 &&
      (r.analyze links settings.dependencyMode b.taken).1.isAbandoned)) := by
  rcases add_cases settings links b r with ⟨-, hadd⟩ | ⟨a, -, ⟨-, hadd⟩ | ⟨-, hadd⟩⟩
  · simp only [hadd, Bool.false_and, Bool.or_false]
  · simp only [hadd, Bool.false_and, Bool.or_false]
  · simp only [hadd, Bool.true_and]

end Add

/-- The name that a request has for the branch at some keys. -/
def nameOf (r : Request) (keys : List String) : Option String :=
  (Address.ofRequest? r).bind fun a => Branch.nameAlong (a.visualPlaces r.names) keys

/-- Taking a request names what has no name and lies on the way of the request, even if the request
finds no place. -/
theorem name_add (b : Builder) (r : Request) (keys : List String) :
    ((b.add settings links r).1.root.find? keys).bind Branch.name =
      ((b.root.find? keys).bind Branch.name).or (nameOf r keys) := by
  unfold nameOf
  rcases add_cases settings links b r with ⟨ha, hadd⟩ | ⟨a, ha, ⟨-, hadd⟩ | ⟨-, hadd⟩⟩
  · rw [hadd, ha]
    exact Option.or_none.symm
  · rw [hadd, ha]
    exact Branch.stays_id.name_find? _ _ _
  · rw [hadd, ha, Option.bind_some]
    dsimp only
    rw [(stays_filled _ _ _).name_find?, Branch.stays_id.name_find?, Branch.nameAlong_concat,
      Option.or_assoc, Option.or_self]

/-- A branch has the first name that a request gives it. -/
theorem name_addAll (requests : List Request) : ∀ (b : Builder) (keys : List String),
    ((b.addAll settings links requests).1.root.find? keys).bind Branch.name =
      ((b.root.find? keys).bind Branch.name).or (requests.findSome? fun r => nameOf r keys) := by
  induction requests with
  | nil => simp [addAll]
  | cons r rest ih =>
    intro b keys
    simp only [addAll]
    rw [ih, name_add, Option.or_assoc, List.findSome?_cons]
    cases nameOf r keys <;> rfl

/-- Whether the paths of a tree are the beginnings of the paths of what was filed. -/
def Reaches (b : Builder) (filed : List Filing) : Prop :=
  ∀ keys, (b.root.find? keys).isSome ↔ keys = [] ∨ ∃ f ∈ filed, keys <+: f.address.path

namespace Reaches

theorem start : Reaches {} [] := by
  intro keys
  cases keys with
  | nil => simp [Branch.find?]
  | cons key keys => simp [Branch.find?, Branch.child?, Branch.root, Branch.new]

/-- The way to the visual of an address begins its path. -/
theorem begins_path (a : Address) (names : Request.Names) :
    (a.visualPlaces names).map Branch.Place.key <+: a.path := ⟨[a.request], rfl⟩

/-- The way to the visual and the request itself are the whole path. -/
theorem whole_path {r : Request} {a : Address} (ha : Address.ofRequest? r = some a) :
    (a.visualPlaces r.names ++ [({ key := r.id, level := .request } : Branch.Place)]).map
        Branch.Place.key = a.path := by
  show [_, _, _, _, _, r.id] = _
  rw [(Address.ofRequest?_eq_some.1 ha).2.2.2.2]
  rfl

/-- A request without a free address makes no new path. -/
theorem add_none (h : Reaches b filed) (files : Files settings b filed) {r : Request}
    (hr : filing? links settings.dependencyMode (filed.map Filing.address) b.taken r = none) :
    Reaches (b.add settings links r).1 filed := by
  intro keys
  obtain ⟨hfalse, -⟩ := files.add_none hr
  rcases add_cases settings links b r with ⟨-, hadd⟩ | ⟨a, ha, ⟨-, hadd⟩ | ⟨-, hadd⟩⟩
  · rw [hadd]
    exact h keys
  · rw [hadd]
    dsimp only
    rw [Branch.stays_id.isSome_find?, h keys]
    obtain ⟨f, hf, rfl⟩ := List.mem_map.1 (filing?_eq_none.1 hr a ha)
    refine or_iff_left_of_imp fun way => ?_
    exact .inr ⟨f, hf, way.trans (begins_path f.address r.names)⟩
  · rw [hadd] at hfalse
    cases hfalse

/-- A request that is filed makes the beginnings of its path. -/
theorem add_some (h : Reaches b filed) (files : Files settings b filed) {r : Request} {f : Filing}
    (hr : filing? links settings.dependencyMode (filed.map Filing.address) b.taken r = some f) :
    Reaches (b.add settings links r).1 (f :: filed) := by
  intro keys
  obtain ⟨htrue, -⟩ := files.add_some hr
  obtain ⟨hf, -⟩ := filing?_eq_some.1 hr
  rcases add_cases settings links b r with ⟨-, hadd⟩ | ⟨a, ha, ⟨-, hadd⟩ | ⟨-, hadd⟩⟩
  · rw [hadd] at htrue
    cases htrue
  · rw [hadd] at htrue
    cases htrue
  · obtain rfl : a = f.address := Option.some.inj (ha.symm.trans hf)
    rw [hadd]
    dsimp only
    rw [(stays_filled _ _ _).isSome_find?, Branch.stays_id.isSome_find?, h keys, whole_path ha]
    have shorter : keys <+: (f.address.visualPlaces r.names).map Branch.Place.key →
        keys <+: f.address.path := fun way => way.trans (begins_path f.address r.names)
    simp only [List.mem_cons, exists_eq_or_imp]
    rw [or_assoc, or_iff_right_of_imp shorter, or_assoc]
    exact or_congr_right or_comm

/-- A run reaches the beginnings of what it files. -/
theorem addAll (links : Catalog.DocLinks) (requests : List Request) : ∀ {b : Builder}
    {filed : List Filing}, Reaches b filed → Files settings b filed →
      Reaches (Builder.addAll settings links b requests).1
        ((filings links settings.dependencyMode (filed.map Filing.address) b.taken
          requests).filterMap id ++ filed) := by
  induction requests with
  | nil => exact fun h _ => h
  | cons r rest ih =>
    intro b filed h files
    cases hr : filing? links settings.dependencyMode (filed.map Filing.address) b.taken r with
    | none =>
      obtain ⟨-, hfiles, htaken⟩ := files.add_none hr
      have all := ih (h.add_none files hr) hfiles
      rw [htaken] at all
      rw [filings_cons_none hr]
      exact all
    | some f =>
      obtain ⟨-, hfiles, htaken⟩ := files.add_some hr
      have all := ih (h.add_some files hr) hfiles
      rw [htaken] at all
      rw [filings_cons_some hr]
      intro keys
      refine (all keys).trans (or_congr_right (exists_congr fun g => and_congr_left' ?_))
      exact (List.perm_middle (a := f)).mem_iff

end Reaches

end Builder

end DashCalc.Hierarchy
