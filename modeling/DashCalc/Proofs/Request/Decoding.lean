import DashCalc.Proofs.Json.Dictionaries
import DashCalc.Request.Json

/-!
# Requests read from JSON

What was written of a request is read as that request again (`Request.json_roundTrip`): each of its
records has its fields read back one by one, whatever the other fields are. The order in which
fields come makes no difference either (`Request.ofJson?_same`), except that filters are kept as
they come.
-/

namespace DashCalc

namespace Json

theorem int64?_toInt (time : Int64) : int64? (.int time.toInt) = some time := by
  have low : -time.toInt ≤ Nat.pow 2 63 := by
    have := time.le_toInt
    simp at this ⊢
    omega
  have high : time.toInt < Nat.pow 2 63 := by
    have := time.toInt_lt
    simpa using this
  unfold int64?
  dsimp only
  rw [if_pos (Bool.and_eq_true_iff.2 ⟨decide_eq_true low, decide_eq_true high⟩),
    Int64.ofInt_toInt]

theorem respects_int64? : Respects int64? := by
  intro j j' same
  cases same <;> rfl

theorem nullable?_ofText? (text : Option String) :
    nullable? text? (ofText? text) = some text :=
  nullable?_ofOption (fun _ => Json.noConfusion) fun _ => rfl

end Json

namespace Request

open Json (Respects Same SameFields)

/-! ## Records of a request -/

namespace NamedFormula

theorem ofJson?_back (f : NamedFormula) : ofJson? f.toJson = some f := by
  simp [ofJson?, toJson, Json.record?, Json.optional?, Json.fieldOr_cons_of_ne, Json.text?,
    Json.nullable?_ofText?]

theorem respects_ofJson? : Respects ofJson? :=
  .record fun fields fields' same => by
    simp only [Json.respects_text?.fieldOr same, Json.respects_text?.optional? same]

end NamedFormula

namespace DatasetColumn

theorem ofJson?_back (c : DatasetColumn) : ofJson? c.toJson = some c := by
  simp [ofJson?, toJson, Json.record?, Json.fieldOr_cons_of_ne, Json.text?, Json.bool?]

theorem respects_ofJson? : Respects ofJson? :=
  .record fun fields fields' same => by
    simp only [Json.respects_text?.fieldOr same, Json.respects_bool?.fieldOr same]

end DatasetColumn

namespace Badges

theorem ofJson?_back (b : Badges) : ofJson? b.toJson = some b := by
  simp [ofJson?, toJson, Json.record?, Json.fieldOr_cons_of_ne, Json.bool?]

theorem respects_ofJson? : Respects ofJson? :=
  .record fun fields fields' same => by
    simp only [Json.respects_bool?.fieldOr same]

end Badges

namespace Names

theorem ofJson?_back (n : Names) : ofJson? n.toJson = some n := by
  simp [ofJson?, toJson, Json.record?, Json.optional?, Json.fieldOr_cons_of_ne,
    Json.nullable?_ofText?]

theorem respects_ofJson? : Respects ofJson? :=
  .record fun fields fields' same => by
    simp only [Json.respects_text?.optional? same]

end Names

/-! ## Requests -/

/-- The filters are read as they are. -/
theorem list?_some (filters : List Json) : Json.list? some (.arr filters) = some filters := by
  show List.mapM some filters = some filters
  induction filters with
  | nil => rfl
  | cons filter filters ih =>
    rw [List.mapM_cons, ih]
    rfl

theorem ofJson?_back (r : Request) : ofJson? r.toJson = some r := by
  have formulas (items : List NamedFormula) :
      Json.list? NamedFormula.ofJson? (.arr (items.map NamedFormula.toJson)) = some items :=
    Json.list?_map fun f _ => f.ofJson?_back
  have columns : Json.list? DatasetColumn.ofJson? (.arr (r.datasetColumns.map DatasetColumn.toJson))
      = some r.datasetColumns :=
    Json.list?_map fun c _ => c.ofJson?_back
  have texts : Json.list? Json.text? (.ofTexts r.filterFormulas) = some r.filterFormulas :=
    Json.list?_map fun _ _ => rfl
  have ended : Json.nullable? Json.int64? (.ofOption (fun t => .int t.toInt) r.endTime) =
      some r.endTime :=
    Json.nullable?_ofOption (fun _ => Json.noConfusion) Json.int64?_toInt
  unfold ofJson? toJson Json.record? Json.optional?
  show Option.bind (some _) _ = _
  rw [Option.bind_some]
  simp only [
    Json.fieldOr_cons_self, Json.fieldOr_cons_of_ne, ne_eq, String.reduceEq, not_false_eq_true,
    Json.text?, Json.nullable?_ofText?, Json.int64?_toInt, Json.dictionary?_ofDictionary,
    list?_some, formulas, columns, texts, ended, r.badges.ofJson?_back, r.names.ofJson?_back]
  rfl

/-- The order of fields makes no difference to what is read but for the filters. -/
theorem ofJson?_same {fields fields' : List (String × Json)} (same : SameFields fields fields')
    (filters : fields'.lookup "filters" = fields.lookup "filters") :
    ofJson? (.obj fields') = ofJson? (.obj fields) := by
  have kept : Json.fieldOr [] (Json.list? some) "filters" fields' =
      Json.fieldOr [] (Json.list? some) "filters" fields := by
    rw [Json.fieldOr, Json.fieldOr, filters]
  unfold ofJson? Json.record?
  show Option.bind (some fields') _ = Option.bind (some fields) _
  rw [Option.bind_some, Option.bind_some]
  simp only [
    Json.respects_text?.fieldOr same, Json.respects_text?.optional? same,
    Json.respects_int64?.fieldOr same, Json.respects_int64?.optional? same,
    NamedFormula.respects_ofJson?.list?.fieldOr same, Json.respects_text?.list?.fieldOr same,
    DatasetColumn.respects_ofJson?.list?.fieldOr same, Json.respects_dictionary?.fieldOr same,
    Badges.respects_ofJson?.fieldOr same, Names.respects_ofJson?.fieldOr same, kept]

/-- Requests that differ in nothing but their filters are written alike but for these. -/
theorem toJson_with_filters (r : Request) : ∃ before after,
    r.toJson = .obj (before ++ ("filters", .arr r.filters) :: after) ∧
      before.lookup "filters" = none ∧
      ∀ filters, { r with filters }.toJson = .obj (before ++ ("filters", .arr filters) :: after) :=
  ⟨[_, _, _, _, _, _, _, _, _, _, _, _, _, _, _, _, _, _], [_, _, _, _, _], rfl, rfl, fun _ => rfl⟩

/-- In another order of fields the filters are read in that order, and all else as it was. -/
theorem ofJson?_of_same {r : Request} {j : Json} (same : Same r.toJson j) :
    ∃ filters, List.Forall₂ Same r.filters filters ∧ ofJson? j = some { r with filters } := by
  obtain ⟨before, after, old, absent, new⟩ := r.toJson_with_filters
  rw [old] at same
  obtain ⟨fields, rfl, led⟩ := same.of_obj
  obtain ⟨filters, kept, alike⟩ : ∃ filters, fields.lookup "filters" = some (.arr filters) ∧
      List.Forall₂ Same r.filters filters := by
    rcases led.lookup_cases "filters" with ⟨none, -⟩ | ⟨j, k, hj, hk, one⟩
    · rw [Json.lookup_append_cons_self absent] at none
      cases none
    · cases (Json.lookup_append_cons_self absent _).symm.trans hj
      obtain ⟨filters, rfl, alike⟩ := one.of_arr
      exact ⟨filters, hk, alike⟩
  refine ⟨filters, alike, ?_⟩
  rw [← ofJson?_back { r with filters }, new filters]
  refine ofJson?_same (fun name => ?_) ?_
  · by_cases here : name = "filters"
    · subst here
      rw [Json.lookup_append_cons_self absent, kept]
      exact .some (.refl _)
    · rw [Json.lookup_append_cons_of_ne here, ← Json.lookup_append_cons_of_ne here]
      exact led name
  · rw [Json.lookup_append_cons_self absent, kept]

/-- **Requests survive JSON.** Whichever of its parts are absent and whatever its lists, names,
times and filters are, the same request is read back, so its expressions, exploration, sheet, visual
and duration are as they were. The fields of its objects may come in any order; only the filters are
then read in that order. A value that was written elsewhere may lose fields when it is read, but no
more of them when what was read is written and read again. -/
theorem json_roundTrip :
    (∀ r : Request, ofJson? r.toJson = some r) ∧
      (∀ (r : Request) (j : Json), Same r.toJson j →
        ∃ filters, List.Forall₂ Same r.filters filters ∧ ofJson? j = some { r with filters }) ∧
      ∀ j : Json, ((ofJson? j).map toJson).bind ofJson? = ofJson? j := by
  refine ⟨ofJson?_back, fun r j => ofJson?_of_same, fun j => ?_⟩
  cases ofJson? j with
  | none => rfl
  | some r => exact r.ofJson?_back

/-- A request at both ends of time, with a filter that has objects in it. -/
def endless : Request where
  id := "r1"
  dashboardId := some ""
  startTime := Int64.minValue
  endTime := some Int64.maxValue
  calculatedFields := [{ name := "margin", formula := some "sum({sales})" }, {}]
  metrics := [{ name := "margin", aggregation := some "CUSTOM" }]
  datasetColumns := [{ name := "net", formula := "{gross} - {tax}", analysisOnly := true }]
  parameters := .ofList [("year", "2024"), ("city", "Delft")]
  filters := [.obj [("column", .str "city"), ("values", .arr [.null, .int (-1)])], .bool false]
  userAliases := .ofList [("margin", "Margin")]
  badges := { hideOtherCategory := true }
  names := { datasetType := some "SPICE" }

theorem json_roundTrip_endless : ∃ fields, endless.toJson = .obj fields ∧
    ofJson? (.obj fields) = some endless ∧
    ∃ filters, List.Forall₂ Same endless.filters filters ∧
      ofJson? (.obj fields.reverse) = some { endless with filters } :=
  ⟨_, rfl, json_roundTrip.1 endless,
    json_roundTrip.2.1 endless _ (.of_perm (by decide) (List.reverse_perm _).symm)⟩

/-- Every field may be missing, and unknown ones are ignored. -/
example : ofJson? (.obj [("requestId", .str "r1"), ("note", .null), ("endTime", .null),
    ("badges", .obj [("totals", .bool true)])]) =
      some { id := "r1", badges := { totals := true } } := by
  rfl

end Request

end DashCalc
