import DashCalc.Proofs.Reference.Reach
import Mathlib.Data.List.Flatten
import Mathlib.Data.List.Nodup
import Mathlib.Data.List.Perm.Subperm

/-!
# Groups of names that reach each other

The search for groups keeps three promises (`Grouping.Sound`): nothing leads out of the groups that
are complete, pending names lead to all that is pending above them, and each group that is complete
holds all names that lead to one of its names and back. Going through names keeps them
(`Grouping.gather_gathers`), because a low mark says the truth: what was newly begun leads to no
pending name below the mark (`Gathers.low_behind`), and what stays pending leads to some name that
was pending before (`Gathers.grown`). So if the low mark of a name is its own height, what is pending
from there on leads to nothing else that is pending, and is a group (`Grouping.Gathers.complete`).
-/

namespace DashCalc

open Relation (ReflTransGen)

/-! ## Heights -/

section Heights

variable {name : String} {names above below : List String} {height : Nat}

theorem heightIn_lt (h : heightIn name names = some height) : height < names.length := by
  induction names with
  | nil => cases h
  | cons top below ih =>
    unfold heightIn at h
    split at h
    · cases h
      exact Nat.lt_succ_self _
    · exact Nat.lt_succ_of_lt (ih h)

theorem mem_of_heightIn (h : heightIn name names = some height) : name ∈ names := by
  induction names with
  | nil => cases h
  | cons top below ih =>
    unfold heightIn at h
    split at h
    · next same => exact same ▸ List.mem_cons_self
    · exact List.mem_cons_of_mem _ (ih h)

theorem heightIn_eq_none (h : heightIn name names = none) : name ∉ names := by
  induction names with
  | nil => exact List.not_mem_nil
  | cons top below ih =>
    unfold heightIn at h
    split at h
    · cases h
    · next other => exact fun hmem => (List.mem_cons.1 hmem).elim other (ih h)

theorem exists_heightIn (h : name ∈ names) : ∃ height, heightIn name names = some height := by
  cases hheight : heightIn name names with
  | none => exact absurd h (heightIn_eq_none hheight)
  | some height => exact ⟨height, rfl⟩

/-- What is put above does not change a height. -/
theorem heightIn_append (fresh : name ∉ above) :
    heightIn name (above ++ below) = heightIn name below := by
  induction above with
  | nil => rfl
  | cons top rest ih =>
    rw [List.mem_cons, not_or] at fresh
    show (if name = top then _ else heightIn name (rest ++ below)) = _
    rw [if_neg fresh.1, ih fresh.2]

theorem heightIn_append_cases (h : heightIn name (above ++ below) = some height) :
    (name ∈ above ∧ below.length ≤ height) ∨ heightIn name below = some height := by
  induction above with
  | nil => exact .inr h
  | cons top rest ih =>
    unfold heightIn at h
    simp only [List.cons_append] at h
    split at h
    · next same =>
      cases h
      refine .inl ⟨same ▸ List.mem_cons_self, ?_⟩
      rw [List.length_append]
      exact Nat.le_add_left _ _
    · exact (ih h).imp_left fun ⟨hmem, hle⟩ => ⟨List.mem_cons_of_mem _ hmem, hle⟩

end Heights

namespace Grouping

/-! ## What a search for groups keeps -/

section Search

variable {behind : String → List String} {all names : List String} {s : Grouping}
  {found found' : Nat × Grouping} {low : Nat} {name : String}

/-- Whether a name leads to another one, or is that name. -/
def LeadsTo (behind : String → List String) (a b : String) : Prop :=
  ReflTransGen (fun a b => b ∈ behind a) a b

/-- The names whose group is complete. -/
def settled (s : Grouping) : List String := s.groups.flatten

/-- Whether the search came to a name. -/
def Visited (s : Grouping) (name : String) : Prop := name ∈ s.pending ∨ name ∈ s.settled

/-- A search for groups that is right so far. -/
structure Sound (behind : String → List String) (all : List String) (s : Grouping) : Prop where
  nodup : (s.pending ++ s.settled).Nodup
  subset : s.pending ++ s.settled ⊆ all
  closed : ∀ x ∈ s.settled, behind x ⊆ s.settled
  rising : s.pending.Pairwise fun above below => LeadsTo behind below above
  classes : ∀ group ∈ s.groups, ∀ x ∈ group, ∀ y,
    y ∈ group ↔ LeadsTo behind x y ∧ LeadsTo behind y x

theorem Sound.start : Sound behind all start where
  nodup := List.nodup_nil
  subset := List.nil_subset _
  closed _ h := absurd h List.not_mem_nil
  rising := .nil
  classes _ h := absurd h List.not_mem_nil

theorem mem_append_iff_visited {x : String} : x ∈ s.pending ++ s.settled ↔ s.Visited x :=
  List.mem_append

/-- Nothing leads out of the groups that are complete. -/
theorem Sound.mem_settled_of_leadsTo (h : s.Sound behind all) {x y : String} (hx : x ∈ s.settled)
    (hxy : LeadsTo behind x y) : y ∈ s.settled := by
  induction hxy with
  | refl => exact hx
  | tail _ hstep ih => exact h.closed _ ih hstep

/-- What going through some names does to a search, and what its low mark then says. -/
structure Gathers (behind : String → List String) (all names : List String) (low : Nat)
    (s : Grouping) (found : Nat × Grouping) : Prop where
  sound : found.2.Sound behind all
  grown : ∃ new, found.2.pending = new ++ s.pending ∧
    ∀ x ∈ new, ∃ y ∈ s.pending, LeadsTo behind x y
  kept : s.settled ⊆ found.2.settled
  visited : ∀ x ∈ names, found.2.Visited x
  closed : ∀ x, found.2.Visited x → ¬ s.Visited x → ∀ y ∈ behind x, found.2.Visited y
  low_le : found.1 ≤ low
  low_reached : found.1 = low ∨ ∃ x ∈ names, ∃ y height,
    heightIn y s.pending = some height ∧ height ≤ found.1 ∧ LeadsTo behind x y
  low_names : ∀ x ∈ names, ∀ height, heightIn x s.pending = some height → found.1 ≤ height
  low_behind : ∀ x, found.2.Visited x → ¬ s.Visited x → ∀ y ∈ behind x, ∀ height,
    heightIn y s.pending = some height → found.1 ≤ height

theorem Gathers.visited_mono (h : Gathers behind all names low s found) {x : String}
    (hx : s.Visited x) : found.2.Visited x := by
  obtain ⟨new, hnew, -⟩ := h.grown
  unfold Visited
  rw [hnew]
  exact hx.imp (List.mem_append_right new) fun hx => h.kept hx

/-- A name that was pending is at the height it was. -/
theorem Gathers.heightIn_eq (h : Gathers behind all names low s found) {x : String} {height : Nat}
    (hx : heightIn x s.pending = some height) : heightIn x found.2.pending = some height := by
  obtain ⟨new, hnew, -⟩ := h.grown
  have nodup := (List.nodup_append.1 h.sound.nodup).1
  rw [hnew] at nodup ⊢
  have fresh : x ∉ new := fun hmem =>
    (List.nodup_append.1 nodup).2.2 x hmem x (mem_of_heightIn hx) rfl
  rw [heightIn_append fresh, hx]

theorem Gathers.nil (h : s.Sound behind all) : Gathers behind all [] low s (low, s) where
  sound := h
  grown := ⟨[], rfl, fun _ hx => absurd hx List.not_mem_nil⟩
  kept := List.Subset.refl _
  visited _ hx := absurd hx List.not_mem_nil
  closed _ hx hnot := absurd hx hnot
  low_le := Nat.le_refl _
  low_reached := .inl rfl
  low_names _ hx := absurd hx List.not_mem_nil
  low_behind _ hx hnot := absurd hx hnot

/-- Going through one name after the other. -/
theorem Gathers.cons (h : Gathers behind all [name] low s found)
    (h' : Gathers behind all names found.1 found.2 found') :
    Gathers behind all (name :: names) low s found' := by
  obtain ⟨new, hnew, hback⟩ := h.grown
  obtain ⟨new', hnew', hback'⟩ := h'.grown
  -- what was pending in between leads to what was pending before
  have back : ∀ y ∈ found.2.pending, ∃ z ∈ s.pending, LeadsTo behind y z := by
    intro y hy
    rw [hnew] at hy
    rcases List.mem_append.1 hy with hy | hy
    · exact hback y hy
    · exact ⟨y, hy, .refl⟩
  refine ⟨h'.sound, ⟨new' ++ new, ?_, ?_⟩, fun x hx => h'.kept (h.kept hx), ?_, ?_,
    Nat.le_trans h'.low_le h.low_le, ?_, ?_, ?_⟩
  · rw [hnew', hnew, List.append_assoc]
  · intro x hx
    rcases List.mem_append.1 hx with hx | hx
    · obtain ⟨y, hy, hxy⟩ := hback' x hx
      obtain ⟨z, hz, hyz⟩ := back y hy
      exact ⟨z, hz, hxy.trans hyz⟩
    · exact hback x hx
  · intro x hx
    rcases List.mem_cons.1 hx with rfl | hx
    · exact h'.visited_mono (h.visited x List.mem_cons_self)
    · exact h'.visited x hx
  · intro x hx hnot y hy
    by_cases between : found.2.Visited x
    · exact h'.visited_mono (h.closed x between hnot y hy)
    · exact h'.closed x hx between y hy
  · rcases h'.low_reached with same | ⟨x, hx, y, height, hheight, hle, hxy⟩
    · rcases h.low_reached with first | ⟨x, hx, y, height, hheight, hle, hxy⟩
      · exact .inl (same.trans first)
      · exact .inr ⟨x, List.mem_cons.2 (.inl (List.mem_singleton.1 hx)), y, height, hheight,
          same ▸ hle, hxy⟩
    · rw [hnew] at hheight
      refine .inr ⟨x, List.mem_cons_of_mem _ hx, ?_⟩
      rcases heightIn_append_cases hheight with ⟨hy, above⟩ | hheight
      · obtain ⟨z, hz, hyz⟩ := hback y hy
        obtain ⟨height', hheight'⟩ := exists_heightIn hz
        have := heightIn_lt hheight'
        exact ⟨z, height', hheight', by omega, hxy.trans hyz⟩
      · exact ⟨y, height, hheight, hle, hxy⟩
  · intro x hx height hheight
    rcases List.mem_cons.1 hx with rfl | hx
    · exact Nat.le_trans h'.low_le (h.low_names x List.mem_cons_self height hheight)
    · exact h'.low_names x hx height (h.heightIn_eq hheight)
  · intro x hx hnot y hy height hheight
    by_cases between : found.2.Visited x
    · exact Nat.le_trans h'.low_le (h.low_behind x between hnot y hy height hheight)
    · exact h'.low_behind x hx between y hy height (h.heightIn_eq hheight)

/-! ## Looking at one name -/

/-- A name that was visited changes the low mark alone, if it is pending. -/
theorem Gathers.of_visited (h : s.Sound behind all) (hname : s.Visited name) {mark : Nat}
    (hmark : mark ≤ low) (reached : mark = low ∨ heightIn name s.pending = some mark)
    (bounded : ∀ height, heightIn name s.pending = some height → mark ≤ height) :
    Gathers behind all [name] low s (mark, s) where
  sound := h
  grown := ⟨[], rfl, fun _ hx => absurd hx List.not_mem_nil⟩
  kept := List.Subset.refl _
  visited _ hx := List.mem_singleton.1 hx ▸ hname
  closed _ hx hnot := absurd hx hnot
  low_le := hmark
  low_reached := reached.imp_right fun hheight =>
    ⟨name, List.mem_cons_self, name, mark, hheight, Nat.le_refl _, .refl⟩
  low_names _ hx := List.mem_singleton.1 hx ▸ bounded
  low_behind _ hx hnot := absurd hx hnot

/-- A new name can be put above the pending ones, if they lead to it. -/
theorem Sound.push (h : s.Sound behind all) (hname : name ∈ all) (fresh : ¬ s.Visited name)
    (way : ∀ x ∈ s.pending, LeadsTo behind x name) :
    Sound behind all { s with pending := name :: s.pending } where
  nodup := List.nodup_cons.2 ⟨fun hmem => fresh (List.mem_append.1 hmem), h.nodup⟩
  subset := List.cons_subset.2 ⟨hname, h.subset⟩
  closed := h.closed
  rising := List.pairwise_cons.2 ⟨way, h.rising⟩
  classes := h.classes

/-- Where a new name was put on top, what is newly visited is that name or what was newly visited
from there on. -/
theorem eq_or_not_visited_push (name : String) {x : String} (hnot : ¬ s.Visited x) :
    x = name ∨ ¬ Visited { s with pending := name :: s.pending } x := by
  by_cases same : x = name
  · exact .inl same
  · refine .inr fun hx => hnot ?_
    exact hx.imp_left fun hx => (List.mem_cons.1 hx).resolve_left same

section Enter

variable (h : Gathers behind all (behind name) s.pending.length
  { s with pending := name :: s.pending } found)

include h

theorem Gathers.push_closed {x : String} (hx : found.2.Visited x) (hnot : ¬ s.Visited x) :
    ∀ y ∈ behind x, found.2.Visited y := by
  rcases eq_or_not_visited_push name hnot with rfl | hnew
  · exact h.visited
  · exact h.closed x hx hnew

theorem Gathers.push_low (fresh : ¬ s.Visited name) {x : String} (hx : found.2.Visited x)
    (hnot : ¬ s.Visited x) {y : String} (hy : y ∈ behind x) {height : Nat}
    (hheight : heightIn y s.pending = some height) : found.1 ≤ height := by
  have other : y ∉ [name] := fun same =>
    fresh (.inl (List.mem_singleton.1 same ▸ mem_of_heightIn hheight))
  have same : heightIn y ([name] ++ s.pending) = some height :=
    (heightIn_append other).trans hheight
  rcases eq_or_not_visited_push name hnot with rfl | hnew
  · exact h.low_names y hy height same
  · exact h.low_behind x hx hnew y hy height same

/-- A new name stays pending, if its low mark is below it. -/
theorem Gathers.stay (fresh : ¬ s.Visited name) (deep : found.1 < s.pending.length) :
    Gathers behind all [name] low s (min low found.1, found.2) := by
  obtain ⟨new, hnew, hback⟩ := h.grown
  -- it leads to a pending name below it
  obtain ⟨x, hx, y, height, hheight, hle, hxy⟩ := h.low_reached.resolve_left (Nat.ne_of_lt deep)
  have down : LeadsTo behind name y := .head hx hxy
  have below : heightIn y s.pending = some height := by
    have pushed : heightIn y ([name] ++ s.pending) = some height := hheight
    rcases heightIn_append_cases pushed with ⟨-, high⟩ | hheight
    · omega
    · exact hheight
  have own : ∀ z ∈ name :: s.pending, ∃ y ∈ s.pending, LeadsTo behind z y := by
    intro z hz
    rcases List.mem_cons.1 hz with rfl | hz
    · exact ⟨y, mem_of_heightIn below, down⟩
    · exact ⟨z, hz, .refl⟩
  refine ⟨h.sound, ⟨new ++ [name], ?_, ?_⟩, h.kept, ?_, fun _ => h.push_closed,
    Nat.min_le_left _ _, ?_, ?_, ?_⟩
  · rw [List.append_assoc]
    exact hnew
  · intro z hz
    rcases List.mem_append.1 hz with hz | hz
    · obtain ⟨u, hu, hzu⟩ := hback z hz
      obtain ⟨v, hv, huv⟩ := own u hu
      exact ⟨v, hv, hzu.trans huv⟩
    · exact own z (List.mem_cons.2 (.inl (List.mem_singleton.1 hz)))
  · intro z hz
    exact h.visited_mono (.inl (List.mem_cons.2 (.inl (List.mem_singleton.1 hz))))
  · rcases Nat.le_total low found.1 with hlow | hlow
    · exact .inl (Nat.min_eq_left hlow)
    · refine .inr ⟨name, List.mem_cons_self, y, height, below, ?_, down⟩
      rwa [Nat.min_eq_right hlow]
  · intro z hz height hheight
    exact absurd (.inl (List.mem_singleton.1 hz ▸ mem_of_heightIn hheight)) fresh
  · intro z hz hnot u hu height hheight
    exact Nat.le_trans (Nat.min_le_right _ _) (h.push_low fresh hz hnot hu hheight)

/-- If nothing leads below a new name, the name and what is pending above it lead to one another and
to names of complete groups alone. -/
theorem Gathers.group_closed (fresh : ¬ s.Visited name) (high : s.pending.length ≤ found.1)
    {group : List String} (hgroup : found.2.pending = group ++ s.pending) {x y : String}
    (hx : x ∈ group ++ found.2.settled) (hy : y ∈ behind x) : y ∈ group ++ found.2.settled := by
  have nodup := h.sound.nodup
  rw [hgroup, List.append_assoc] at nodup
  have apart := (List.nodup_append.1 nodup).2.2
  rcases List.mem_append.1 hx with hx | hx
  · have here : found.2.Visited x := .inl (hgroup ▸ List.mem_append_left _ hx)
    have new : ¬ s.Visited x := by
      rintro (hmem | hmem)
      · exact apart x hx x (List.mem_append_left _ hmem) rfl
      · exact apart x hx x (List.mem_append_right _ (h.kept hmem)) rfl
    rcases h.push_closed here new y hy with hmem | hmem
    · rw [hgroup] at hmem
      rcases List.mem_append.1 hmem with hmem | hmem
      · exact List.mem_append_left _ hmem
      · -- a name below the new one would be below the low mark
        obtain ⟨height, hheight⟩ := exists_heightIn hmem
        have low := h.push_low fresh here new hy hheight
        have := heightIn_lt hheight
        omega
    · exact List.mem_append_right _ hmem
  · exact List.mem_append_right _ (h.sound.closed x hx hy)

/-- If nothing leads below a new name, the name and what is pending above it are a group. -/
theorem Gathers.sound_complete (fresh : ¬ s.Visited name) (high : s.pending.length ≤ found.1)
    {new : List String} (hnew : found.2.pending = new ++ name :: s.pending)
    (hback : ∀ x ∈ new, ∃ y ∈ name :: s.pending, LeadsTo behind x y) :
    Sound behind all ⟨s.pending, (new ++ [name]) :: found.2.groups⟩ := by
  have hgroup : found.2.pending = (new ++ [name]) ++ s.pending := by
    rw [hnew, List.append_assoc]
    rfl
  have inside {x y : String} (hx : x ∈ (new ++ [name]) ++ found.2.settled)
      (hxy : LeadsTo behind x y) : y ∈ (new ++ [name]) ++ found.2.settled := by
    induction hxy with
    | refl => exact hx
    | tail _ hstep ih => exact h.group_closed fresh high hgroup ih hstep
  have swap := List.perm_append_comm_assoc s.pending (new ++ [name]) found.2.settled
  have nodup := h.sound.nodup
  have subset := h.sound.subset
  have rising := h.sound.rising
  rw [hgroup, List.append_assoc] at nodup subset
  rw [hnew] at rising
  obtain ⟨-, rising, up⟩ := List.pairwise_append.1 rising
  have nodup' := swap.nodup_iff.2 nodup
  obtain ⟨-, hgroups, below⟩ := List.nodup_append.1 nodup'
  have toName : ∀ x ∈ new ++ [name], LeadsTo behind x name := by
    intro x hx
    rcases List.mem_append.1 hx with hmem | hmem
    · obtain ⟨y, hy, hxy⟩ := hback x hmem
      rcases List.mem_cons.1 hy with rfl | hy
      · exact hxy
      · exact absurd rfl (below y hy y (inside (List.mem_append_left _ hx) hxy))
    · exact List.mem_singleton.1 hmem ▸ .refl
  have fromName : ∀ x ∈ new ++ [name], LeadsTo behind name x := by
    intro x hx
    rcases List.mem_append.1 hx with hmem | hmem
    · exact up x hmem name List.mem_cons_self
    · exact List.mem_singleton.1 hmem ▸ .refl
  refine ⟨nodup', List.Subset.trans swap.subset subset, fun x hx y hy => ?_,
    (List.pairwise_cons.1 rising).2, ?_⟩
  · exact h.group_closed fresh high hgroup hx hy
  · intro group hmem x hx y
    rcases List.mem_cons.1 hmem with rfl | hmem
    · constructor
      · intro hy
        exact ⟨(toName x hx).trans (fromName y hy), (toName y hy).trans (fromName x hx)⟩
      · rintro ⟨hxy, hyx⟩
        refine (List.mem_append.1 (inside (List.mem_append_left _ hx) hxy)).resolve_right ?_
        intro hy
        have hx' := h.sound.mem_settled_of_leadsTo hy hyx
        exact (List.nodup_append.1 hgroups).2.2 x hx x hx' rfl
    · exact h.sound.classes group hmem x hx y

/-- A new name is in a group that is complete, if its low mark is not below it. -/
theorem Gathers.finish (fresh : ¬ s.Visited name) (high : s.pending.length ≤ found.1)
    (hlow : low ≤ s.pending.length) :
    Gathers behind all [name] low s (min low found.1, found.2.complete s.pending.length) := by
  obtain ⟨new, hnew, hback⟩ := h.grown
  have hgroup : found.2.pending = (new ++ [name]) ++ s.pending := by
    rw [hnew, List.append_assoc]
    rfl
  have completed : found.2.complete s.pending.length =
      ⟨s.pending, (new ++ [name]) :: found.2.groups⟩ := by
    unfold complete
    rw [hgroup, List.length_append, Nat.add_sub_cancel, List.drop_left, List.take_left]
  have visited {x : String} :
      Visited ⟨s.pending, (new ++ [name]) :: found.2.groups⟩ x ↔ found.2.Visited x := by
    unfold Visited
    rw [hgroup, List.mem_append, or_right_comm, or_comm (a := x ∈ new ++ [name] ∨ _)]
    exact or_congr_right List.mem_append
  have mark : min low found.1 = low := Nat.min_eq_left (Nat.le_trans hlow high)
  rw [completed, mark]
  refine ⟨h.sound_complete fresh high hnew hback, ⟨[], rfl, fun _ hx => absurd hx List.not_mem_nil⟩,
    fun x hx => List.mem_append_right _ (h.kept hx), ?_, ?_, Nat.le_refl _, .inl rfl, ?_, ?_⟩
  · intro x hx
    refine .inr (List.mem_append_left _ (List.mem_append_right _ ?_))
    exact hx
  · intro x hx hnot y hy
    exact visited.2 (h.push_closed (visited.1 hx) hnot y hy)
  · intro x hx height hheight
    exact absurd (.inl (List.mem_singleton.1 hx ▸ mem_of_heightIn hheight)) fresh
  · intro x hx hnot y hy height hheight
    have := h.push_low fresh (visited.1 hx) hnot hy hheight
    show low ≤ height
    omega

end Enter

/-- Looking at a name goes through it, if looking at the names behind a new name goes through
those. -/
theorem look_gathers {next : List String → Nat × Grouping → Nat × Grouping}
    (inside : ¬ s.Visited name → Gathers behind all (behind name) s.pending.length
      { s with pending := name :: s.pending }
      (next (behind name) (s.pending.length, { s with pending := name :: s.pending })))
    (h : s.Sound behind all) (hlow : low ≤ s.pending.length) :
    Gathers behind all [name] low s (look behind next (low, s) name) := by
  unfold look
  cases hheight : heightIn name s.pending with
  | some height =>
    refine .of_visited h (.inl (mem_of_heightIn hheight)) (Nat.min_le_left _ _) ?_ ?_
    · rcases Nat.le_total low height with hle | hle
      · exact .inl (Nat.min_eq_left hle)
      · exact .inr (hheight.trans (congrArg some (Nat.min_eq_right hle).symm))
    · intro height' hheight'
      rw [hheight] at hheight'
      cases hheight'
      exact Nat.min_le_right _ _
  | none =>
    have notPending := heightIn_eq_none hheight
    dsimp only
    split
    · next known =>
      obtain ⟨group, hgroup, hname⟩ := List.any_eq_true.1 known
      refine .of_visited h (.inr ?_) (Nat.le_refl _) (.inl rfl) ?_
      · exact List.mem_flatten.2 ⟨group, hgroup, List.contains_iff_mem.1 hname⟩
      · intro height hheight'
        rw [hheight] at hheight'
        cases hheight'
    · next unknown =>
      have fresh : ¬ s.Visited name := by
        rintro (hmem | hmem)
        · exact notPending hmem
        · obtain ⟨group, hgroup, hname⟩ := List.mem_flatten.1 hmem
          exact unknown (List.any_eq_true.2 ⟨group, hgroup, List.contains_iff_mem.2 hname⟩)
      have through := inside fresh
      unfold enter
      dsimp only
      split
      · next deep => exact through.stay fresh deep
      · next high => exact through.finish fresh (Nat.le_of_not_lt high) hlow

/-- Going through names, one after the other, as long as the depth suffices: what it and the names
that were visited make together is more than all names. -/
theorem gather_gathers (hall : ∀ x ∈ all, behind x ⊆ all) (depth : Nat) :
    ∀ {names : List String} {low : Nat} {s : Grouping}, s.Sound behind all → names ⊆ all →
      all.length < depth + (s.pending ++ s.settled).length →
      (∀ x ∈ s.pending, ∀ n ∈ names, LeadsTo behind x n) → low ≤ s.pending.length →
      Gathers behind all names low s (gather behind depth names (low, s)) := by
  induction depth with
  | zero =>
    intro names low s hs _ room
    have := (hs.nodup.subperm hs.subset).length_le
    omega
  | succ depth ih =>
    intro names
    induction names with
    | nil => exact fun hs _ _ _ _ => .nil hs
    | cons name names ihNames =>
      intro low s hs hnames room way hlow
      obtain ⟨hname, hnames⟩ := List.cons_subset.1 hnames
      have first : Gathers behind all [name] low s
          (look behind (gather behind depth) (low, s) name) := by
        refine look_gathers (fun fresh => ?_) hs hlow
        have toName : ∀ x ∈ s.pending, LeadsTo behind x name :=
          fun x hx => way x hx name List.mem_cons_self
        refine ih (hs.push hname fresh toName) (hall name hname) ?_ ?_ (Nat.le_succ _)
        · show _ < depth + (name :: (s.pending ++ s.settled)).length
          rw [List.length_cons]
          omega
        · intro x hx n hn
          rcases List.mem_cons.1 hx with rfl | hx
          · exact .single hn
          · exact .tail (toName x hx) hn
      obtain ⟨new, hnew, hback⟩ := first.grown
      refine first.cons (ihNames first.sound hnames ?_ ?_ ?_)
      · have more := (hs.nodup.subperm fun x hx =>
          mem_append_iff_visited.2 (first.visited_mono (mem_append_iff_visited.1 hx))).length_le
        omega
      · intro x hx n hn
        rw [hnew] at hx
        rcases List.mem_append.1 hx with hx | hx
        · obtain ⟨y, hy, hxy⟩ := hback x hx
          exact hxy.trans (way y hy n (List.mem_cons_of_mem _ hn))
        · exact way x hx n (List.mem_cons_of_mem _ hn)
      · have := first.low_le
        rw [hnew, List.length_append]
        omega

end Search

end Grouping

/-! ## The groups of a graph -/

namespace ReferenceGraph

open Grouping (LeadsTo)

variable {g : ReferenceGraph}

/-- What the search for groups ends with. -/
theorem gathers_nodes (g : ReferenceGraph) :
    Grouping.Gathers (fun name => (g.dependents name).reverse) g.nodes g.nodes 0 .start
      (Grouping.gather (fun name => (g.dependents name).reverse) (g.nodes.length + 1) g.nodes
        (0, .start)) :=
  Grouping.gather_gathers (fun x _ => List.reverse_subset.2 (g.dependents_subset x)) _ .start
    (List.Subset.refl _) (Nat.lt_succ_self _) (fun _ hx => absurd hx List.not_mem_nil)
    (Nat.le_refl _)

theorem leadsTo_dependents {a b : String} :
    LeadsTo (fun name => (g.dependents name).reverse) a b ↔ ReflTransGen g.Refers b a := by
  have swapped : (fun a b => b ∈ (g.dependents a).reverse) = Function.swap g.Refers := by
    funext a b
    exact propext (List.mem_reverse.trans mem_dependents)
  unfold LeadsTo
  rw [swapped, Relation.reflTransGen_swap]

theorem mem_groups_iff {group : List String} : group ∈ g.groups ↔ group ∈
    (Grouping.gather (fun name => (g.dependents name).reverse) (g.nodes.length + 1) g.nodes
      (0, .start)).2.groups := List.mem_reverse

/-- A group holds what each of its names leads to and back. -/
theorem mem_group_iff {group : List String} (h : group ∈ g.groups) {x : String} (hx : x ∈ group)
    {y : String} : y ∈ group ↔ ReflTransGen g.Refers x y ∧ ReflTransGen g.Refers y x := by
  rw [(gathers_nodes g).sound.classes group (mem_groups_iff.1 h) x hx y, leadsTo_dependents,
    leadsTo_dependents, and_comm]

/-- Every name is in a group. -/
theorem exists_group {x : String} (h : x ∈ g.nodes) : ∃ group ∈ g.groups, x ∈ group := by
  obtain ⟨new, hnew, hback⟩ := (gathers_nodes g).grown
  rcases (gathers_nodes g).visited x h with pending | settled
  · -- nothing stays pending, as nothing was pending before
    rw [hnew] at pending
    obtain ⟨y, hy, -⟩ := hback x ((List.mem_append.1 pending).resolve_right List.not_mem_nil)
    exact absurd hy List.not_mem_nil
  · obtain ⟨group, hgroup, hx⟩ := List.mem_flatten.1 settled
    exact ⟨group, mem_groups_iff.2 hgroup, hx⟩

/-- No name is in two groups, or twice in one. -/
theorem nodup_groups (g : ReferenceGraph) :
    (∀ group ∈ g.groups, group.Nodup) ∧ g.groups.Pairwise List.Disjoint := by
  have nodup := (List.nodup_append.1 (gathers_nodes g).sound.nodup).2.1
  obtain ⟨each, apart⟩ := List.nodup_flatten.1 nodup
  refine ⟨fun group h => each group (mem_groups_iff.1 h), ?_⟩
  unfold groups
  rw [List.pairwise_reverse]
  exact apart.imp List.disjoint_symm

end ReferenceGraph

end DashCalc
