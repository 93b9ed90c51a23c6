import DashCalc.Proofs.Hierarchy.Orderly
import Mathlib.Data.List.Find

/-!
# Looking up a request

A request is looked up in three ways: among all requests of the tree, by a search that gives the
keys on the way, and by following keys from the root. The two searches go through the branches in
one order (`Branch.pathWhere?_eq`), and in a tree with the shape of a hierarchy the branches on the
level of requests are those with details. So both find the same leaf, and the keys of the one lead
to it (`Builder.finish_findRequest?`).
-/

namespace DashCalc.Hierarchy

namespace Branch

theorem located_eq (b : Branch) : b.located = ([], b) :: locatedAmong b.children := by
  obtain ⟨key, level, name, metrics, details, children⟩ := b
  rfl

mutual

/-- The search for a path gives the keys that lead to the first branch below that satisfies the
condition, each branch being looked at before those below it. -/
theorem pathWhere?_eq (p : Branch → Bool) : ∀ b : Branch, b.pathWhere? p =
    ((locatedAmong b.children).find? fun l => p l.2).map Prod.fst
  | ⟨_, _, _, _, _, children⟩ => pathAmong?_eq p children

theorem pathAmong?_eq (p : Branch → Bool) : ∀ bs : List Branch, pathAmong? p bs =
    ((locatedAmong bs).find? fun l => p l.2).map Prod.fst
  | [] => rfl
  | b :: rest => by
    have below : ((locatedAmong b.children).map (under b.key)).find? (fun l => p l.2) =
        ((locatedAmong b.children).find? fun l => p l.2).map (under b.key) := List.find?_map
    rw [pathAmong?, locatedAmong, located_eq, List.map_cons, List.cons_append, List.find?_cons,
      List.find?_append, below, pathWhere?_eq p b, pathAmong?_eq p rest]
    show (if p b = true then _ else _) = (match p b with | true => _ | false => _ : Option _).map _
    cases p b with
    | true => rfl
    | false => cases (locatedAmong b.children).find? fun l => p l.2 <;> rfl

end

end Branch

/-- Whether a branch is the request with an id. -/
def isRequest (id : String) (b : Branch) : Bool := b.level == .request && b.key == id

theorem isRequest_iff {id : String} {b : Branch} :
    isRequest id b = true ↔ b.level = .request ∧ b.key = id := by
  rw [isRequest, Bool.and_eq_true, beq_iff_eq, beq_iff_eq]

section Shaped

variable {h : Hierarchy} (shaped : Branch.Shaped Level.all h.root) (id : String)

include shaped

/-- Both searches stop at the same branch: the first one of all that is the request. -/
theorem findRequest?_eq :
    h.findRequest? id = (h.root.located.find? fun l => isRequest id l.2).map Prod.snd := by
  have details (l : Branch.Located) (hl : l ∈ h.root.located) :
      (decide (l.2.details.isSome = true ∧ (l.2.key == id) = true)) = isRequest id l.2 := by
    have here : l.2 ∈ h.root.branches := Branch.map_snd_located h.root ▸ List.mem_map_of_mem hl
    have level := Branch.Shaped.level_iff Level.all.dropLast shaped (by decide) l.2 here
    rw [Bool.eq_iff_iff, decide_eq_true_iff, isRequest_iff, level, beq_iff_eq]
  unfold findRequest?
  rw [← Branch.map_snd_leaves, Branch.leaves, List.find?_map, List.find?_filter]
  exact congrArg (Option.map Prod.snd) (List.find?_congr details)

theorem pathToRequest?_eq :
    h.pathToRequest? id = (h.root.located.find? fun l => isRequest id l.2).map Prod.fst := by
  -- the root is no request, so it makes no difference that the search begins below it
  have root : isRequest id h.root = false := by
    rw [isRequest, show h.root.level = .root from shaped.1]
    rfl
  unfold pathToRequest?
  rw [Branch.pathWhere?_eq, Branch.located_eq, List.find?_cons_of_neg (by simp [root])]
  rfl

/-- What leads to a request is a path of six keys, the last of which is its id. -/
theorem path_of_request {path : List String} {b : Branch} (found : h.root.find? path = some b)
    (level : b.level = .request) : path.length = 6 ∧ path.getLast? = some b.key := by
  have deep : path.length = 6 := Level.depth_eq (level ▸ shaped.level_of_find? found) rfl
  have nonempty : path ≠ [] := by
    rintro rfl
    cases deep
  refine ⟨deep, ?_⟩
  rw [← List.dropLast_append_getLast nonempty] at found ⊢
  rw [List.getLast?_concat, Branch.key_of_find? _ found]

end Shaped

/-- **Looking up a request, its path and following the path agree.** A request is found if its path
is, which is so if the tree has a request with the id. The path has six keys and ends in the id, and
the keys lead to the branch that is found. Among all branches of the tree, each before those below
it, this is the first one that is a request with the id. -/
theorem Builder.finish_findRequest? (settings : Settings.Analysis) (links : Catalog.DocLinks)
    (requests : List Request) (id : String) :
    let h := (addAll settings links {} requests).1.finish settings
    ((h.findRequest? id).isSome ↔ (h.pathToRequest? id).isSome) ∧
      ((h.findRequest? id).isSome ↔ ∃ b ∈ h.root.branches, b.level = .request ∧ b.key = id) ∧
      ∀ path, h.pathToRequest? id = some path →
        h.root.find? path = h.findRequest? id ∧ path.length = 6 ∧ path.getLast? = some id ∧
        ∃ b before after, h.findRequest? id = some b ∧
          h.root.located = before ++ (path, b) :: after ∧ b.level = .request ∧ b.key = id ∧
          ∀ l ∈ before, ¬(l.2.level = .request ∧ l.2.key = id) := by
  intro h
  obtain ⟨-, files⟩ := Files.addAll links requests (Files.start settings)
  have shaped : Branch.Shaped Level.all h.root := (finish_leaves settings files.shaped).1
  rw [findRequest?_eq shaped, pathToRequest?_eq shaped]
  refine ⟨by rw [Option.isSome_map, Option.isSome_map], ?_, fun path hpath => ?_⟩
  · rw [Option.isSome_map, List.find?_isSome, ← Branch.map_snd_located]
    simp only [List.mem_map, exists_exists_and_eq_and, isRequest_iff]
  · obtain ⟨⟨path, b⟩, first, rfl⟩ := Option.map_eq_some_iff.1 hpath
    obtain ⟨here, before, after, located, others⟩ := List.find?_eq_some_iff_append.1 first
    obtain ⟨level, key⟩ := isRequest_iff.1 here
    have found : h.root.find? path = some b :=
      shaped.mem_located.1 (located ▸ List.mem_append_right before List.mem_cons_self)
    obtain ⟨length, last⟩ := path_of_request shaped found level
    rw [first]
    refine ⟨found, length, key ▸ last, b, before, after, rfl, located, level, key, ?_⟩
    intro l hl same
    have other := others l hl
    rw [isRequest_iff.2 same] at other
    cases other

/-- Where the key of a request is that of its dashboard, its sheet and its visual too, and an
earlier request of another sheet has the same key, the one that stands first in the tree is
found. -/
theorem Builder.finish_findRequest?_first :
    let request (id sheet visual : String) : Request :=
      { salesRequest sheet "" with
        id, dashboardId := some "first", visualId := some visual }
    let h := (addAll {} .off {} [request "second" "first" "map", request "first" "other" "map",
      request "first" "first" "first"]).1.finish {}
    h.pathToRequest? "first" = some ["Dashboards", "first", "first", "first_", "first", "first"] ∧
      h.root.find? ["Dashboards", "first", "first", "first_", "first", "first"] =
        h.findRequest? "first" ∧
      h.root.requests.map Branch.key = ["second", "first", "first"] := by
  intro request h
  have path : h.pathToRequest? "first" =
      some ["Dashboards", "first", "first", "first_", "first", "first"] := by decide +kernel
  obtain ⟨-, -, found⟩ := finish_findRequest? {} .off [request "second" "first" "map",
    request "first" "other" "map", request "first" "first" "first"] "first"
  exact ⟨path, (found _ path).1, by decide +kernel⟩

end DashCalc.Hierarchy
