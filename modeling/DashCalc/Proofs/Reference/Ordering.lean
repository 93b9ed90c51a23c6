import DashCalc.Proofs.Reference.Cycles

/-!
# Order and cycles agree

A search of a graph is done with all names behind a name before it is done with the name itself,
unless there is a cycle (`Search.Underway`): a name that was begun and is not done stands on the
stack, and leads to all that stands above it (`Search.Held`), so that nothing behind the name at the
top can be below it. Conversely, names that refer to earlier ones only are in order, and there is no
cycle among them (`ReferenceGraph.leadsBack_iff`). So there is an order of evaluation exactly if no
name reaches itself (`ReferenceGraph.isSome_evaluationOrder`), that is, if there are no cycles
(`ReferenceGraph.evaluationOrder_and_cycles`).
-/

namespace DashCalc

open Relation (TransGen)

namespace Search

section Unwinding

variable {behind : String → List String} {all stack : List String} {s : Search} {name : String}

/-- Whether all names behind a name of the list come later in the list. -/
def Ordered (behind : String → List String) : List String → Prop
  | [] => True
  | name :: rest => behind name ⊆ rest ∧ Ordered behind rest

theorem Ordered.mem {names : List String} (h : Ordered behind names) {x y : String}
    (hx : x ∈ names) (hy : y ∈ behind x) : y ∈ names := by
  induction names with
  | nil => exact absurd hx List.not_mem_nil
  | cons name rest ih =>
    rcases List.mem_cons.1 hx with rfl | hx
    · exact List.mem_cons_of_mem _ (h.1 hy)
    · exact List.mem_cons_of_mem _ (ih h.2 hx)

/-- A name that was begun and is not done stands on the stack. It leads to all names above, and the
names behind it were begun or are there. -/
def Held (behind : String → List String) (begun stack : List String) (name : String) : Prop :=
  ∃ above below, stack = above ++ name :: below ∧ name ∉ above ∧
    (∀ x ∈ above, TransGen (fun a b => b ∈ behind a) name x) ∧
    ∀ x ∈ behind name, x ∈ begun ∨ x ∈ above

theorem Held.tail {begun : List String} {x : String} (h : Held behind begun (name :: stack) x)
    (other : x ≠ name) (hname : name ∈ begun) : Held behind begun stack x := by
  obtain ⟨above, below, hstack, hx, way, next⟩ := h
  cases above with
  | nil => exact absurd (List.cons.inj hstack).1.symm other
  | cons top above =>
    obtain ⟨rfl, rest⟩ := List.cons.inj hstack
    refine ⟨above, below, rest, fun hmem => hx (List.mem_cons_of_mem _ hmem),
      fun y hy => way y (List.mem_cons_of_mem _ hy), fun y hy => ?_⟩
    rcases next y hy with hbegun | hmem
    · exact .inl hbegun
    · exact (List.mem_cons.1 hmem).imp_left fun (same : y = name) => same ▸ hname

theorem Held.push {begun new : List String} {x : String} (h : Held behind begun (name :: stack) x)
    (other : x ≠ name) (hnew : ∀ y ∈ new, y ∈ behind name) (hx : x ∉ new) :
    Held behind (name :: begun) (new ++ name :: stack) x := by
  obtain ⟨above, below, hstack, habove, way, next⟩ := h
  cases above with
  | nil => exact absurd (List.cons.inj hstack).1.symm other
  | cons top above =>
    obtain ⟨rfl, rfl⟩ := List.cons.inj hstack
    have first := way name List.mem_cons_self
    refine ⟨new ++ name :: above, below, ?_, ?_, fun y hy => ?_, fun y hy => ?_⟩
    · rw [List.append_assoc]
      rfl
    · exact fun hmem => (List.mem_append.1 hmem).elim hx habove
    · rcases List.mem_append.1 hy with hy | hy
      · exact first.tail (hnew y hy)
      · exact way y hy
    · rcases next y hy with hbegun | hmem
      · exact .inl (List.mem_cons_of_mem _ hbegun)
      · exact .inr (List.mem_append_right _ hmem)

/-- A search that is right so far, with the stack of names that it still has to look at. -/
structure Underway (behind : String → List String) (all stack : List String) (s : Search) :
    Prop where
  subset : stack ⊆ all
  begun_nodup : s.begun.Nodup
  begun_subset : s.begun ⊆ all
  done_nodup : s.done.Nodup
  done_subset : s.done ⊆ s.begun
  held : ∀ x ∈ s.begun, x ∉ s.done → Held behind s.begun stack x
  ordered : (∀ x, ¬ TransGen (fun a b => b ∈ behind a) x x) → Ordered behind s.done

theorem Underway.start : Underway behind all [] start where
  subset := List.nil_subset _
  begun_nodup := List.nodup_nil
  begun_subset := List.nil_subset _
  done_nodup := List.nodup_nil
  done_subset := List.nil_subset _
  held _ h := absurd h List.not_mem_nil
  ordered _ := trivial

/-- Once the stack is empty, all that was begun is done. -/
theorem Underway.mem_done (h : Underway behind all [] s) {x : String} (hx : x ∈ s.begun) :
    x ∈ s.done := by
  by_contra hopen
  obtain ⟨above, below, hstack, -⟩ := h.held x hx hopen
  exact List.append_ne_nil_of_right_ne_nil above (List.cons_ne_nil x below) hstack.symm

/-- A search can go on from any name. -/
theorem Underway.single (h : Underway behind all [] s) (hname : name ∈ all) :
    Underway behind all [name] s :=
  { h with
    subset := List.cons_subset.2 ⟨hname, List.nil_subset _⟩
    held := fun _ hx hopen => absurd (h.mem_done hx) hopen }

/-- Where there is no cycle, all names behind the top of the stack are done: one that is not would
be below the top, and lead back to it. -/
theorem Underway.behind_subset (h : Underway behind all (name :: stack) s)
    (acyclic : ∀ x, ¬ TransGen (fun a b => b ∈ behind a) x x) (hname : name ∈ s.begun)
    (hopen : name ∉ s.done) : behind name ⊆ s.done := by
  intro x hx
  obtain ⟨above, below, hstack, habove, -, next⟩ := h.held name hname hopen
  have top : above = [] := by
    cases above with
    | nil => rfl
    | cons first above =>
      obtain ⟨rfl, -⟩ := List.cons.inj hstack
      exact absurd List.mem_cons_self habove
  have hbegun : x ∈ s.begun := (next x hx).resolve_right (top ▸ List.not_mem_nil)
  by_contra hdone
  obtain ⟨above', below', hstack', -, way, -⟩ := h.held x hbegun hdone
  cases above' with
  | nil =>
    obtain ⟨rfl, -⟩ := List.cons.inj hstack'
    exact acyclic name (.single hx)
  | cons first above' =>
    obtain ⟨rfl, -⟩ := List.cons.inj hstack'
    exact acyclic x ((way name List.mem_cons_self).tail hx)

/-- The top of the stack is taken off. -/
theorem Underway.finish (h : Underway behind all (name :: stack) s) (hname : name ∈ s.begun) :
    Underway behind all stack (s.finish name) := by
  have subset := (List.cons_subset.1 h.subset).2
  unfold Search.finish
  split
  · next hdone =>
    refine { h with subset, held := fun x hx hopen => (h.held x hx hopen).tail ?_ hname }
    rintro rfl
    exact hopen hdone
  · next hopen =>
    refine ⟨subset, h.begun_nodup, h.begun_subset, List.nodup_cons.2 ⟨hopen, h.done_nodup⟩,
      List.cons_subset.2 ⟨hname, h.done_subset⟩, fun x hx hrest => ?_, fun acyclic => ?_⟩
    · rw [List.mem_cons, not_or] at hrest
      exact (h.held x hx hrest.2).tail hrest.1 hname
    · exact ⟨h.behind_subset acyclic hname hopen, h.ordered acyclic⟩

/-- The top of the stack is begun, and the new names behind it are put above it. -/
theorem Underway.begin (h : Underway behind all (name :: stack) s) (fresh : name ∉ s.begun)
    (hall : behind name ⊆ all) :
    Underway behind all ((behind name).filter (s.begin name).isNew ++ name :: stack)
      (s.begin name) := by
  have mem_new {x : String} : x ∈ (behind name).filter (s.begin name).isNew ↔
      x ∈ behind name ∧ x ∉ name :: s.begun := by
    rw [List.mem_filter, isNew, Bool.not_eq_true', ← Bool.not_eq_true, List.contains_iff_mem]
    exact Iff.rfl
  refine ⟨?_, List.nodup_cons.2 ⟨fresh, h.begun_nodup⟩, ?_, h.done_nodup,
    fun x hx => List.mem_cons_of_mem _ (h.done_subset hx), fun x hx hopen => ?_, h.ordered⟩
  · exact List.append_subset.2 ⟨fun x hx => hall (mem_new.1 hx).1, h.subset⟩
  · exact List.cons_subset.2 ⟨h.subset List.mem_cons_self, h.begun_subset⟩
  · rcases List.mem_cons.1 hx with rfl | hx
    · refine ⟨_, stack, rfl, fun hmem => (mem_new.1 hmem).2 List.mem_cons_self,
        fun y hy => .single (mem_new.1 hy).1, fun y hy => ?_⟩
      by_cases hbegun : y ∈ x :: s.begun
      · exact .inl hbegun
      · exact .inr (mem_new.2 ⟨hy, hbegun⟩)
    · refine (h.held x hx hopen).push ?_ (fun y hy => (mem_new.1 hy).1) fun hmem =>
        (mem_new.1 hmem).2 (List.mem_cons_of_mem _ hx)
      exact fun same => fresh (same ▸ hx)

theorem exhaust_of_begun (rounds : Nat) (hname : name ∈ s.begun) :
    exhaust behind (rounds + 1) (name :: stack) s =
      exhaust behind (rounds + 1) stack (s.finish name) := if_pos hname

theorem exhaust_of_new (rounds : Nat) (fresh : name ∉ s.begun) :
    exhaust behind (rounds + 1) (name :: stack) s =
      exhaust behind rounds ((behind name).filter (s.begin name).isNew ++ name :: stack)
        (s.begin name) := if_neg fresh

theorem begun_finish (s : Search) (name : String) : (s.finish name).begun = s.begun := by
  unfold finish
  split <;> rfl

/-- A search with enough rounds looks at all names of its stack: the rounds and the names that were
begun make together more than all names. -/
theorem exhaust_underway (hall : ∀ x ∈ all, behind x ⊆ all) (rounds : Nat) :
    ∀ {stack : List String} {s : Search}, Underway behind all stack s →
      all.length < rounds + s.begun.length →
      Underway behind all [] (exhaust behind rounds stack s) ∧
        s.begun ⊆ (exhaust behind rounds stack s).begun ∧
        stack ⊆ (exhaust behind rounds stack s).begun := by
  induction rounds with
  | zero =>
    intro stack s h room
    have := (h.begun_nodup.subperm h.begun_subset).length_le
    omega
  | succ rounds ih =>
    intro stack
    induction stack with
    | nil => exact fun h _ => ⟨h, List.Subset.refl _, List.nil_subset _⟩
    | cons name stack ihStack =>
      intro s h room
      by_cases hname : name ∈ s.begun
      · rw [exhaust_of_begun rounds hname]
        have kept := begun_finish s name
        obtain ⟨hend, hbegun, hstack⟩ := ihStack (h.finish hname) (by rwa [kept])
        rw [kept] at hbegun
        exact ⟨hend, hbegun, List.cons_subset.2 ⟨hbegun hname, hstack⟩⟩
      · rw [exhaust_of_new rounds hname]
        have room' : all.length < rounds + (s.begin name).begun.length := by
          show _ < rounds + (name :: s.begun).length
          rw [List.length_cons]
          omega
        obtain ⟨hend, hbegun, hstack⟩ :=
          ih (h.begin hname (hall name (h.subset List.mem_cons_self))) room'
        exact ⟨hend, fun x hx => hbegun (List.mem_cons_of_mem _ hx),
          fun x hx => hstack (List.mem_append_right _ hx)⟩

end Unwinding

end Search

namespace ReferenceGraph

variable {g : ReferenceGraph}

/-! ## The order of evaluation -/

/-- The search that orders the names goes through all of them. -/
theorem exists_underway (g : ReferenceGraph) : ∃ s : Search, g.finishing = s.done ∧
    Search.Underway g.dependents g.nodes [] s ∧ g.nodes ⊆ s.begun := by
  have through : ∀ (names : List String) (s : Search), names ⊆ g.nodes →
      Search.Underway g.dependents g.nodes [] s →
      ∃ after, names.foldl (fun s name => if name ∈ s.begun then s
          else Search.exhaust g.dependents (g.nodes.length + 1) [name] s) s = after ∧
        Search.Underway g.dependents g.nodes [] after ∧ s.begun ⊆ after.begun ∧
        names ⊆ after.begun := by
    intro names
    induction names with
    | nil => exact fun s _ h => ⟨s, rfl, h, List.Subset.refl _, List.nil_subset _⟩
    | cons name names ih =>
      intro s hnames h
      obtain ⟨hname, hnames⟩ := List.cons_subset.1 hnames
      rw [List.foldl_cons]
      split
      · next hbegun =>
        obtain ⟨after, hafter, hend, hmore, hall⟩ := ih s hnames h
        exact ⟨after, hafter, hend, hmore, List.cons_subset.2 ⟨hmore hbegun, hall⟩⟩
      · obtain ⟨hone, hkept, hsingle⟩ := Search.exhaust_underway
          (fun x _ => g.dependents_subset x) (g.nodes.length + 1) (h.single hname) (by omega)
        obtain ⟨after, hafter, hend, hmore, hall⟩ := ih _ hnames hone
        exact ⟨after, hafter, hend, List.Subset.trans hkept hmore,
          List.cons_subset.2 ⟨hmore (hsingle List.mem_cons_self), hall⟩⟩
  obtain ⟨after, hafter, hend, -, hall⟩ := through g.nodes .start (List.Subset.refl _) .start
  exact ⟨after, congrArg Search.done hafter, hend, hall⟩

theorem nodup_finishing (g : ReferenceGraph) : g.finishing.Nodup := by
  obtain ⟨s, hs, h, -⟩ := g.exists_underway
  rw [hs]
  exact h.done_nodup

theorem mem_finishing {x : String} : x ∈ g.finishing ↔ x ∈ g.nodes := by
  obtain ⟨s, hs, h, hall⟩ := g.exists_underway
  rw [hs]
  exact ⟨fun hx => h.begun_subset (h.done_subset hx), fun hx => h.mem_done (hall hx)⟩

/-- What leads from a name to those that refer to it reaches it, taken backwards. -/
theorem reaches_of_dependents {a b : String}
    (h : TransGen (fun x y => y ∈ g.dependents x) a b) : g.Reaches b a := by
  induction h with
  | single hab => exact .single (mem_dependents.1 hab)
  | tail _ hbc ih => exact .head (mem_dependents.1 hbc) ih

/-- Where no name reaches itself, the search is done with a name after all that refer to it. -/
theorem ordered_finishing (acyclic : ∀ x, ¬ g.Reaches x x) :
    Search.Ordered g.dependents g.finishing := by
  obtain ⟨s, hs, h, -⟩ := g.exists_underway
  rw [hs]
  exact h.ordered fun x hx => acyclic x (reaches_of_dependents hx)

/-- Whether a name refers to itself or earlier names only, as it is tested. -/
theorem all_references_iff {name : String} {earlier : List String} :
    ((g.references.filter fun r => r.1 == name).all fun r => (name :: earlier).contains r.2) =
      true ↔ ∀ x, g.Refers name x → x = name ∨ x ∈ earlier := by
  rw [List.all_eq_true]
  constructor
  · intro h x hx
    have back := h (name, x) (List.mem_filter.2 ⟨hx, beq_self_eq_true name⟩)
    rwa [List.contains_iff_mem, List.mem_cons] at back
  · rintro h ⟨a, b⟩ hr
    obtain ⟨hmem, ha⟩ := List.mem_filter.1 hr
    obtain rfl := beq_iff_eq.1 ha
    rw [List.contains_iff_mem, List.mem_cons]
    exact h b hmem

theorem leadsBack_cons {name : String} {earlier later : List String} :
    g.leadsBack earlier (name :: later) = true ↔
      (∀ x, g.Refers name x → x = name ∨ x ∈ earlier) ∧
        g.leadsBack (name :: earlier) later = true := by
  rw [leadsBack, Bool.and_eq_true, all_references_iff]

/-- Where names lead back, other names that one refers to come before it. -/
theorem idxOf_lt_of_leadsBack {order : List String} : ∀ {earlier : List String},
    g.leadsBack earlier order = true → ∀ {a b : String}, a ∈ order → g.Refers a b → b ≠ a →
      b ∈ earlier ∨ order.idxOf b < order.idxOf a := by
  induction order with
  | nil => exact fun _ _ _ ha => absurd ha List.not_mem_nil
  | cons first later ih =>
    intro earlier h a b ha hab other
    obtain ⟨hfirst, hlater⟩ := leadsBack_cons.1 h
    by_cases top : a = first
    · subst top
      exact .inl ((hfirst b hab).resolve_left other)
    · have hmem := (List.mem_cons.1 ha).resolve_left top
      rw [List.idxOf_cons_ne later (Ne.symm top)]
      by_cases bottom : b = first
      · subst bottom
        rw [List.idxOf_cons_self]
        exact .inr (Nat.succ_pos _)
      · rw [List.idxOf_cons_ne later (Ne.symm bottom)]
        rcases ih hlater hmem hab other with hb | hlt
        · exact .inl ((List.mem_cons.1 hb).resolve_left bottom)
        · exact .inr (Nat.succ_lt_succ hlt)

/-- Names lead back, if those that refer to a name come after it, and all names that they refer to
are there. -/
theorem leadsBack_of_ordered {order : List String} : ∀ {earlier : List String}, order.Nodup →
    Search.Ordered g.dependents order →
    (∀ a ∈ order, ∀ b, g.Refers a b → b ∈ earlier ∨ b ∈ order) →
    g.leadsBack earlier order = true := by
  induction order with
  | nil => exact fun _ _ _ => rfl
  | cons first later ih =>
    intro earlier nodup ordered hall
    obtain ⟨hfirst, nodup⟩ := List.nodup_cons.1 nodup
    refine leadsBack_cons.2 ⟨fun b hb => ?_, ih nodup ordered.2 fun a ha b hab => ?_⟩
    · rcases hall first List.mem_cons_self b hb with hb' | hb'
      · exact .inr hb'
      · refine (List.mem_cons.1 hb').imp_right fun hlater => ?_
        exact absurd (ordered.2.mem hlater (mem_dependents.2 hb)) hfirst
    · rcases hall a (List.mem_cons_of_mem _ ha) b hab with hb | hb
      · exact .inl (List.mem_cons_of_mem _ hb)
      · exact (List.mem_cons.1 hb).imp_left fun (same : b = first) => same ▸ List.mem_cons_self

theorem any_references_iff : (g.references.any fun r => r.1 == r.2) = true ↔
    ∃ name, g.Refers name name := by
  rw [List.any_eq_true]
  constructor
  · rintro ⟨⟨a, b⟩, hr, same⟩
    obtain rfl : a = b := beq_iff_eq.1 same
    exact ⟨a, hr⟩
  · rintro ⟨name, h⟩
    exact ⟨(name, name), h, beq_self_eq_true name⟩

theorem evaluationOrder_eq_some {order : List String} : g.evaluationOrder = some order ↔
    order = g.finishing ∧ (∀ name, ¬ g.Refers name name) ∧ g.leadsBack [] g.finishing = true := by
  unfold evaluationOrder
  simp only [Option.ite_none_left_eq_some, Bool.or_eq_true, any_references_iff, not_or, not_exists,
    Bool.not_eq_true', Bool.not_eq_false, Option.some.injEq, eq_comm (a := g.finishing)]
  tauto

/-- An order of evaluation has every name once, and what a name refers to before the name. -/
theorem evaluationOrder_sound {order : List String} (h : g.evaluationOrder = some order) :
    order.Nodup ∧ order.Perm g.nodes ∧
      ∀ a b, g.Refers a b → order.idxOf b < order.idxOf a := by
  obtain ⟨rfl, noLoop, back⟩ := evaluationOrder_eq_some.1 h
  refine ⟨g.nodup_finishing, ?_, fun a b hab => ?_⟩
  · exact (List.perm_ext_iff_of_nodup g.nodup_finishing g.nodes_nodup).2 fun _ => mem_finishing
  · have ha := mem_finishing.2 (g.mem_nodes _ hab).1
    have other : b ≠ a := by
      rintro rfl
      exact noLoop b hab
    exact (idxOf_lt_of_leadsBack back ha hab other).resolve_left List.not_mem_nil

/-- There is an order of evaluation exactly when no name reaches itself. -/
theorem isSome_evaluationOrder :
    g.evaluationOrder.isSome = true ↔ ∀ name, ¬ g.Reaches name name := by
  rw [Option.isSome_iff_exists]
  constructor
  · rintro ⟨order, h⟩ name round
    -- along references the place in the order goes down
    have down : ∀ b, g.Reaches name b → order.idxOf b < order.idxOf name := by
      intro b hb
      induction hb with
      | single hstep => exact (evaluationOrder_sound h).2.2 _ _ hstep
      | tail _ hstep ih => exact ((evaluationOrder_sound h).2.2 _ _ hstep).trans ih
    exact Nat.lt_irrefl _ (down name round)
  · intro acyclic
    refine ⟨_, evaluationOrder_eq_some.2 ⟨rfl, fun name h => acyclic name (.single h), ?_⟩⟩
    refine leadsBack_of_ordered g.nodup_finishing (ordered_finishing acyclic) fun a _ b hab => ?_
    exact .inr (mem_finishing.2 (g.mem_nodes _ hab).2)

/-- **Order and cycles agree.** Whatever the graph, there is no order of evaluation exactly if there
is a cycle, that is, if some name reaches itself. An order has every name once and after all that it
refers to. The cycles are sorted and have no name in common; two names are in the same one exactly
if each reaches the other, and a name is alone in one if it refers to itself and is on no cycle with
another. -/
theorem evaluationOrder_and_cycles (g : ReferenceGraph) :
    (g.evaluationOrder = none ↔ g.cycles ≠ []) ∧
      (g.cycles ≠ [] ↔ ∃ name, g.Reaches name name) ∧
      (∀ order, g.evaluationOrder = some order → order.Nodup ∧ order.Perm g.nodes ∧
        ∀ a b, g.Refers a b → order.idxOf b < order.idxOf a) ∧
      g.cycles.Pairwise List.Disjoint ∧
      (∀ cycle ∈ g.cycles, cycle.Pairwise (· < ·)) ∧
      (∀ a b, a ≠ b →
        ((∃ cycle ∈ g.cycles, a ∈ cycle ∧ b ∈ cycle) ↔ g.Reaches a b ∧ g.Reaches b a)) ∧
      ∀ a, [a] ∈ g.cycles ↔ g.Refers a a ∧ ∀ b, b ≠ a → ¬(g.Reaches a b ∧ g.Reaches b a) := by
  have cyclic : g.cycles ≠ [] ↔ ∃ name, g.Reaches name name := by
    constructor
    · intro h
      obtain ⟨cycle, hcycle⟩ := List.exists_mem_of_ne_nil _ h
      obtain ⟨x, hx⟩ := exists_mem_of_mem_cycles hcycle
      exact ⟨x, mem_cycles.1 ⟨cycle, hcycle, hx⟩⟩
    · rintro ⟨name, h⟩
      obtain ⟨cycle, hcycle, -⟩ := mem_cycles.2 h
      exact List.ne_nil_of_mem hcycle
  have ordered : g.evaluationOrder = none ↔ ∃ name, g.Reaches name name := by
    rw [← Option.not_isSome_iff_eq_none, isSome_evaluationOrder]
    push Not
    rfl
  exact ⟨ordered.trans cyclic.symm, cyclic, fun _ => evaluationOrder_sound,
    g.pairwise_disjoint_cycles, fun _ => pairwise_of_mem_cycles, fun _ _ => exists_cycle_iff,
    fun _ => singleton_mem_cycles⟩

end ReferenceGraph

end DashCalc
