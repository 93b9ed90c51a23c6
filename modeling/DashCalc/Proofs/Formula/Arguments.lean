import DashCalc.Proofs.Formula.Rendering

/-!
# Calls are expanded argument by argument

The arguments of a call are written in a row, with commas between them and blanks around them; each
is an item or a list of items in square brackets. The text of the whole row is expanded, and then
cut. This is the same as cutting first and expanding each item on its own: what a call becomes only
depends on its expanded arguments (`expandCall_arguments`).
-/

namespace DashCalc.Formula

open Text (Tight Blanks isBlank)

/-! ## Rows -/

/-- Something that is written with blanks around it. -/
structure Cell (α : Type) where
  before : Text
  content : α
  after : Text

/-- What is written with commas between its cells, and blanks after the last one. -/
structure Row (α : Type) where
  cells : List (Cell α)
  closing : Text

section Rows

variable {α β : Type}

def Cell.text (write : α → Text) (c : Cell α) : Text := c.before ++ (write c.content ++ c.after)

def Cell.map (f : α → β) (c : Cell α) : Cell β := { c with content := f c.content }

/-- Whether there are only blanks around the content of a cell, and the content satisfies a
condition. -/
structure Cell.Valid (P : α → Prop) (c : Cell α) : Prop where
  before : Blanks c.before
  content : P c.content
  after : Blanks c.after

namespace Row

def contents (r : Row α) : List α := r.cells.map Cell.content

def text (write : α → Text) (r : Row α) : Text :=
  Text.joinWith [','] (r.cells.map (Cell.text write)) ++ r.closing

def map (f : α → β) (r : Row α) : Row β := { r with cells := r.cells.map (Cell.map f) }

structure Valid (P : α → Prop) (r : Row α) : Prop where
  cells : ∀ c ∈ r.cells, c.Valid P
  closing : Blanks r.closing

theorem text_cons (write : α → Text) (c d : Cell α) (cells : List (Cell α)) (closing : Text) :
    (Row.mk (c :: d :: cells) closing).text write =
      c.text write ++ ',' :: (Row.mk (d :: cells) closing).text write := by
  show c.text write ++ [','] ++ Text.joinWith [','] (d.text write :: cells.map (Cell.text write)) ++
    closing = _
  rw [List.append_assoc, List.append_assoc]
  rfl

theorem Valid.tail {P : α → Prop} {c : Cell α} {cells : List (Cell α)} {closing : Text}
    (h : (Row.mk (c :: cells) closing).Valid P) : (Row.mk cells closing).Valid P :=
  ⟨fun d hd => h.cells d (List.mem_cons_of_mem c hd), h.closing⟩

end Row

/-! ### Expansion of a row -/

theorem Apart.blanks {b u : Text} (hb : Blanks b) (hu : Apart u) : Apart (b ++ u) := by
  refine Apart.append (fun c hc => ?_) hu
  have blank := hb c (List.mem_of_mem_head? hc)
  refine ⟨isWordChar_false_of_isBlank blank, ?_⟩
  rintro rfl
  exact absurd blank (by decide)

theorem expandCalls_blanks {b : Text} (hb : Blanks b) (u : Text) :
    expandCalls (b ++ u) = b ++ expandCalls u := by
  induction b with
  | nil => rfl
  | cons c cs ih =>
    rw [List.cons_append, expandCalls_cons (isWordChar_false_of_isBlank (hb c List.mem_cons_self)),
      ih fun d hd => hb d (List.mem_cons_of_mem c hd)]
    rfl

/-- Whether expansion goes through what is written of something without regard to what comes
after it, and leaves what is written of its image. -/
def Expands (write : α → Text) (f : α → α) (a : α) : Prop :=
  ∀ u, Apart u → expandCalls (write a ++ u) = write (f a) ++ expandCalls u

section Expansion

variable {write : α → Text} {f : α → α}

theorem Cell.expandCalls_text {c : Cell α} (h : c.Valid (Expands write f)) {u : Text}
    (hu : Apart u) :
    expandCalls (c.text write ++ u) = (c.map f).text write ++ expandCalls u := by
  unfold Cell.text Cell.map
  rw [List.append_assoc, List.append_assoc, expandCalls_blanks h.before,
    h.content _ (hu.blanks h.after), expandCalls_blanks h.after, List.append_assoc,
    List.append_assoc]

/-- A row is expanded cell by cell. -/
theorem Row.expandCalls_text {r : Row α} (h : r.Valid (Expands write f)) {u : Text}
    (hu : Apart u) :
    expandCalls (r.text write ++ u) = (r.map f).text write ++ expandCalls u := by
  obtain ⟨cells, closing⟩ := r
  have apart : Apart (closing ++ u) := hu.blanks h.closing
  induction cells with
  | nil => exact expandCalls_blanks h.closing u
  | cons c rest ih =>
    have hc := h.cells c List.mem_cons_self
    cases rest with
    | nil =>
      show expandCalls (c.text write ++ closing ++ u) = (c.map f).text write ++ closing ++ _
      rw [List.append_assoc, Cell.expandCalls_text hc apart, expandCalls_blanks h.closing,
        List.append_assoc]
    | cons d rest =>
      -- no word goes on across the comma, and no call starts with it
      have comma : Apart (',' :: ((Row.mk (d :: rest) closing).text write ++ u)) :=
        apart_cons (by decide) (by decide) _
      rw [Row.text_cons, List.append_assoc, List.cons_append, Cell.expandCalls_text hc comma,
        expandCalls_cons (by decide), ih h.tail]
      show _ = ((Row.mk (c.map f :: d.map f :: rest.map (Cell.map f)) closing).text write) ++ _
      rw [Row.text_cons, List.append_assoc, List.cons_append]
      rfl

end Expansion

/-! ### Pieces of a row -/

/-- Whether cutting passes over a text that stands outside quotes and brackets. -/
def Whole (s : Text) : Prop := ∀ w, segments .top (s ++ w) = glue s (segments .top w)

theorem Nested.whole {s : Text} (h : Nested false s) : Whole s :=
  h.segments_append 0 (Int.le_refl 0) fun hno => nomatch hno

theorem nested_blanks {commas : Bool} {b : Text} (h : Blanks b) : Nested commas b := by
  refine .of_all (List.all_eq_true.2 fun c hc => isPlain_iff.2
    ⟨Nested.isBracket_of_isBlank (h c hc), Nested.isQuote_of_isBlank (h c hc), ?_⟩)
  rintro rfl
  exact absurd (h ',' hc) (by decide)

theorem Whole.append {s t : Text} (hs : Whole s) (ht : Whole t) : Whole (s ++ t) := by
  intro w
  rw [List.append_assoc, hs, ht, glue_glue]

section Cutting

variable {write : α → Text}

/-- Whether what is written of something is tight, and cutting passes over it. -/
def IsPiece (write : α → Text) (a : α) : Prop := Tight (write a) ∧ Whole (write a)

theorem Cell.whole_text {c : Cell α} (h : c.Valid (IsPiece write)) : Whole (c.text write) :=
  (nested_blanks h.before).whole.append (h.content.2.append (nested_blanks h.after).whole)

theorem Cell.trim_text {c : Cell α} (h : c.Valid (IsPiece write)) {closing : Text}
    (hclosing : Blanks closing) : Text.trim (c.text write ++ closing) = write c.content := by
  have after : Blanks (c.after ++ closing) := fun d hd =>
    (List.mem_append.1 hd).elim (h.after d) (hclosing d)
  unfold Cell.text
  rw [List.append_assoc, List.append_assoc]
  exact h.content.1.trim_padded h.before after

/-- Cutting a row that has a cell gives what is written of its contents. -/
theorem Row.trim_segments {c : Cell α} {cells : List (Cell α)} {closing : Text}
    (h : (Row.mk (c :: cells) closing).Valid (IsPiece write)) :
    (segments .top ((Row.mk (c :: cells) closing).text write)).map Text.trim =
      (c :: cells).map (write ·.content) := by
  induction cells generalizing c with
  | nil =>
    have hc := h.cells c List.mem_cons_self
    have whole := (Cell.whole_text hc).append (nested_blanks h.closing).whole
    have cut := whole []
    rw [List.append_nil] at cut
    rw [show (Row.mk [c] closing).text write = c.text write ++ closing from rfl, cut]
    show [Text.trim (c.text write ++ closing ++ [])] = _
    rw [List.append_nil, Cell.trim_text hc h.closing]
    rfl
  | cons d rest ih =>
    have hc := h.cells c List.mem_cons_self
    have trimmed : Text.trim (c.text write ++ []) = write c.content :=
      Cell.trim_text hc fun _ hd => nomatch hd
    rw [Row.text_cons, Cell.whole_text hc, segments_cons_of_separates rfl]
    show Text.trim (c.text write ++ []) :: (segments .top _).map Text.trim = _
    rw [trimmed, ih h.tail]
    rfl

/-- The pieces of a row are what is written of its contents. -/
theorem Row.pieces_text {r : Row α} (h : r.Valid (IsPiece write)) :
    pieces (r.text write) = r.contents.map write := by
  obtain ⟨cells, closing⟩ := r
  cases cells with
  | nil => exact pieces_of_isBlankText (Text.isBlankText_iff.2 h.closing)
  | cons c rest =>
    have hc := h.cells c List.mem_cons_self
    unfold pieces
    rw [if_neg, Row.trim_segments h]
    · unfold Row.contents
      rw [List.map_map]
      rfl
    · intro blank
      have blanks := Text.isBlankText_iff.1 blank
      refine hc.content.1.not_blanks fun d hd => blanks d ?_
      have cell : d ∈ c.text write :=
        List.mem_append_right _ (List.mem_append_left _ hd)
      cases rest with
      | nil => exact List.mem_append_left closing cell
      | cons e rest =>
        rw [Row.text_cons]
        exact List.mem_append_left _ cell

end Cutting

end Rows

/-! ## Arguments -/

/-- An argument of a call: an item, or a list of items in square brackets as it is written. -/
inductive Argument
  | item (t : Text)
  | list (items : Row Text)

namespace Argument

def text : Argument → Text
  | item t => t
  | list items => '[' :: (items.text id ++ [']'])

/-- The items of a list; an item is a list of itself. -/
def items : Argument → List Text
  | item t => [t]
  | list items => items.contents

/-- The items as partitions of a window: plain names are put in backticks. -/
def partitions (a : Argument) : List Text := a.items.map partitionItem

def isList : Argument → Bool
  | item _ => false
  | list _ => true

/-- The argument with each of its items changed on its own. -/
def map (f : Text → Text) : Argument → Argument
  | item t => item (f t)
  | list items => list (items.map f)

def Valid : Argument → Prop
  | item t => Item t
  | list items => items.Valid Item

end Argument

/-! ### Expansion of arguments -/

theorem Cell.Valid.imp {α : Type} {P Q : α → Prop} (h : ∀ a, P a → Q a) {c : Cell α}
    (hc : c.Valid P) : c.Valid Q := ⟨hc.before, h c.content hc.content, hc.after⟩

theorem Row.Valid.imp {α : Type} {P Q : α → Prop} (h : ∀ a, P a → Q a) {r : Row α}
    (hr : r.Valid P) : r.Valid Q := ⟨fun c hc => (hr.cells c hc).imp h, hr.closing⟩

theorem Row.Valid.map {α β : Type} {P : α → Prop} {Q : β → Prop} {f : α → β}
    (h : ∀ a, P a → Q (f a)) {r : Row α} (hr : r.Valid P) : (r.map f).Valid Q := by
  refine ⟨fun d hd => ?_, hr.closing⟩
  obtain ⟨c, hc, rfl⟩ := List.mem_map.1 hd
  have valid := hr.cells c hc
  exact ⟨valid.before, h c.content valid.content, valid.after⟩

theorem Row.contents_map {α β : Type} (f : α → β) (r : Row α) :
    (r.map f).contents = r.contents.map f := by
  show (r.cells.map (Cell.map f)).map Cell.content = (r.cells.map Cell.content).map f
  rw [List.map_map, List.map_map]
  rfl

namespace Argument

variable {a : Argument}

theorem Valid.map_expandCalls (h : a.Valid) : (a.map expandCalls).Valid := by
  cases a with
  | item t => exact Item.expandCalls h
  | list items => exact Row.Valid.map (fun _ ht => ht.expandCalls) h

/-- An argument is expanded item by item, whatever comes after it. -/
theorem Valid.expands (h : a.Valid) : Expands text (map expandCalls) a := by
  intro u hu
  cases a with
  | item t => exact Nested.expandCalls_append (Item.nested h) hu
  | list items =>
    have each : items.Valid (Expands id expandCalls) :=
      Row.Valid.imp (fun t ht => fun u hu => ht.nested.expandCalls_append hu) h
    have close : Apart (']' :: u) := apart_cons (by decide) (by decide) u
    show expandCalls ('[' :: (items.text id ++ [']']) ++ u) = _
    rw [enclosed_concat, expandCalls_cons (by decide), Row.expandCalls_text each close,
      expandCalls_cons (by decide)]
    exact (enclosed_concat '[' ']' _ _).symm

end Argument

/-! ### Pieces of arguments -/

theorem Item.isPiece {t : Text} (h : Item t) : IsPiece id t := ⟨h.tight, h.nested.whole⟩

/-- An item is one piece. -/
theorem Item.pieces_eq {t : Text} (h : Item t) : pieces t = [t] := by
  have cut := h.nested.whole []
  rw [List.append_nil] at cut
  unfold pieces
  rw [if_neg fun blank => h.tight.not_blanks (Text.isBlankText_iff.1 blank), cut]
  show [Text.trim (t ++ [])] = [t]
  rw [List.append_nil, h.trimmed]

theorem filter_nonempty {ts : List Text} (h : ∀ t ∈ ts, Item t) :
    ts.filter (fun t => !t.isEmpty) = ts := by
  refine List.filter_eq_self.2 fun t ht => ?_
  rw [Bool.not_eq_true', ← Bool.not_eq_true, List.isEmpty_iff]
  exact (h t ht).nonempty

theorem Row.nested_text {r : Row Text} (h : r.Valid Item) : Nested true (r.text id) := by
  obtain ⟨cells, closing⟩ := r
  have cell {c : Cell Text} (hc : c.Valid Item) : Nested true (c.text id) :=
    (nested_blanks hc.before).append (hc.content.nested.loosen.append (nested_blanks hc.after))
  induction cells with
  | nil => exact nested_blanks h.closing
  | cons c rest ih =>
    have hc := cell (h.cells c List.mem_cons_self)
    cases rest with
    | nil => exact hc.append (nested_blanks h.closing)
    | cons d rest =>
      rw [Row.text_cons]
      exact hc.append (.char (by decide) (by decide) (fun _ => rfl) (ih h.tail))

/-- Cutting passes over a list in square brackets. -/
theorem whole_brackets {s : Text} (h : Nested true s) : Whole ('[' :: (s ++ [']'])) := by
  intro w
  have opens : Nesting.top.after '[' = ⟨none, 1⟩ := rfl
  have closes : (Nesting.mk none 1).after ']' = .top := rfl
  rw [enclosed_concat, segments_cons (Nested.separates_of_ne (by decide) _), opens,
    h.segments_append 1 (by omega) (fun _ => by omega),
    segments_cons (Nested.separates_of_ne (by decide) _), closes, glue_glue, glue_glue,
    List.append_assoc]
  rfl

namespace Argument

variable {a : Argument}

theorem Valid.isPiece (h : a.Valid) : IsPiece text a := by
  cases a with
  | item t => exact Item.isPiece h
  | list items =>
    have tight : Tight ('[' :: (items.text id ++ [']'])) :=
      tight_around (s := ['[']) (by decide) (items.text id) (by decide)
    exact ⟨tight, whole_brackets (Row.nested_text h)⟩

theorem Valid.item_of_mem_items (h : a.Valid) : ∀ t ∈ a.items, Item t := by
  intro t ht
  cases a with
  | item s =>
    rw [List.mem_singleton.1 ht]
    exact h
  | list items =>
    obtain ⟨c, hc, rfl⟩ := List.mem_map.1 ht
    exact (Row.Valid.cells h c hc).content

/-- Whether an argument is a list can be seen from its text. -/
theorem Valid.isBracketed_text (h : a.Valid) : isBracketed a.text = a.isList := by
  cases a with
  | item t => exact isBracketed_of_nested (Item.nested h)
  | list items => exact isBracketed_brackets (items.text id)

/-- The items of a list are found in its text. -/
theorem Valid.listItems_text (h : a.Valid) : listItems a.text = a.items := by
  cases a with
  | item t =>
    rw [listItems_of_bare h.isBracketed_text]
    show (pieces t).filter _ = [t]
    rw [Item.pieces_eq h]
    exact filter_nonempty h.item_of_mem_items
  | list items =>
    show listItems ('[' :: (items.text id ++ [']'])) = items.contents
    rw [listItems_brackets, Row.pieces_text (Row.Valid.imp (fun _ ht => ht.isPiece) h), List.map_id]
    exact filter_nonempty h.item_of_mem_items

end Argument

/-! ## Calls -/

/-- The window of a call, by what there is to say of it. -/
def windowOver (partitions sortKeys : List Text) : Text :=
  match partitions, sortKeys with
  | [], [] => "OVER ()".toList
  | _ :: _, [] => "OVER (PARTITION BY ".toList ++ Text.joinWith commaBlank partitions ++ [')']
  | [], _ :: _ => "OVER (ORDER BY ".toList ++ Text.joinWith commaBlank sortKeys ++ [')']
  | _ :: _, _ :: _ =>
    "OVER (PARTITION BY ".toList ++ Text.joinWith commaBlank partitions ++
      " ORDER BY ".toList ++ Text.joinWith commaBlank sortKeys ++ [')']

theorem windowClause_eq_windowOver (partitions sortKeys : List Text) :
    windowClause partitions sortKeys = windowOver partitions sortKeys := by
  cases partitions with
  | nil => cases sortKeys <;> rfl
  | cons p ps =>
    cases sortKeys with
    | nil => rfl
    | cons k ks =>
      have assoc (a b c d e f g : Text) :
          a ++ (b ++ c ++ d ++ (e ++ f)) ++ g = (a ++ b) ++ c ++ (d ++ e) ++ f ++ g := by
        simp only [List.append_assoc]
      exact assoc ..

/-- The texts of arguments, as the arguments of a call in SQL. -/
def callOf (name : Text) (arguments : List Argument) : Text :=
  plainCall name (arguments.map Argument.text)

/-- What a call of the catalogue becomes, from its arguments. -/
def Strategy.renderArguments (strategy : Strategy) (key : Text) (arguments : List Argument) :
    Text :=
  let beforeList := arguments.takeWhile fun a => !a.isList
  match strategy with
  | rank =>
    key ++ "() ".toList ++ windowOver ((arguments[1]?.map Argument.partitions).getD [])
      ((arguments[0]?.map Argument.items).getD [])
  | leastAggregated =>
    match arguments.find? Argument.isList with
    | none => callOf key arguments
    | some list =>
      if list.items = [] then callOf key beforeList
      else callOf key beforeList ++ ' ' :: windowOver list.partitions []
  | windowed =>
    match arguments.find? Argument.isList with
    | none => callOf key (arguments.take 1) ++ ' ' :: windowOver [] []
    | some list => callOf key beforeList ++ ' ' :: windowOver list.partitions []
  | membership => callOf key (arguments.take 1)
  | ifElse => foldIfElse (arguments.map Argument.text)
  | passThrough => callOf key arguments

/-- What a call becomes, from its arguments. -/
def renderArguments (name : Text) (arguments : List Argument) : Text :=
  match Catalog.keyFor (String.ofList name) with
  | some key => (Strategy.ofKey key).renderArguments key.toList arguments
  | none => callOf name arguments

section Rendering

variable {arguments : List Argument} (h : ∀ a ∈ arguments, a.Valid)

include h

theorem splitAtList_texts : splitAtList (arguments.map Argument.text) =
    ((arguments.takeWhile fun a => !a.isList).map Argument.text,
      (arguments.find? Argument.isList).map Argument.items) := by
  induction arguments with
  | nil => rfl
  | cons a rest ih =>
    have ha := h a List.mem_cons_self
    have bracketed := ha.isBracketed_text
    rw [List.map_cons, List.takeWhile_cons, List.find?_cons]
    cases hlist : a.isList with
    | true =>
      rw [hlist] at bracketed
      rw [splitAtList_cons_of_list bracketed, ha.listItems_text]
      rfl
    | false =>
      rw [hlist] at bracketed
      rw [splitAtList_cons bracketed, ih fun b hb => h b (List.mem_cons_of_mem a hb)]
      rfl

theorem getD_listItems_texts (index : Nat) :
    (((arguments.map Argument.text)[index]?.map listItems).getD []) =
      ((arguments[index]?.map Argument.items).getD []) := by
  rw [List.getElem?_map]
  cases harg : arguments[index]? with
  | none => rfl
  | some a => exact (h a (List.mem_of_getElem? harg)).listItems_text

theorem rankCall_texts (key : Text) : rankCall key (arguments.map Argument.text) =
    Strategy.rank.renderArguments key arguments := by
  have partitions : ((arguments[1]?.map Argument.items).getD []).map partitionItem =
      (arguments[1]?.map Argument.partitions).getD [] := by
    cases arguments[1]? <;> rfl
  unfold rankCall
  dsimp only
  rw [getD_listItems_texts h, getD_listItems_texts h, windowClause_eq_windowOver, partitions]
  rfl

theorem splitAtList_texts_of_none (hlist : arguments.find? Argument.isList = none) :
    splitAtList (arguments.map Argument.text) = (arguments.map Argument.text, none) := by
  have all : arguments.takeWhile (fun a => !a.isList) = arguments := by
    refine List.takeWhile_eq_self_iff.2 fun a ha => ?_
    rw [Bool.not_eq_true', ← Bool.not_eq_true]
    exact List.find?_eq_none.1 hlist a ha
  rw [splitAtList_texts h, hlist, all]
  rfl

theorem splitAtList_texts_of_some {list : Argument}
    (hlist : arguments.find? Argument.isList = some list) :
    splitAtList (arguments.map Argument.text) =
      ((arguments.takeWhile fun a => !a.isList).map Argument.text, some list.items) := by
  rw [splitAtList_texts h, hlist]
  rfl

theorem leastAggregatedCall_texts (key : Text) :
    windowedCall false key (arguments.map Argument.text) =
      Strategy.leastAggregated.renderArguments key arguments := by
  unfold Strategy.renderArguments
  dsimp only
  cases hlist : arguments.find? Argument.isList with
  | none => exact windowedCall_of_none (splitAtList_texts_of_none h hlist)
  | some list =>
    rw [windowedCall_of_list (splitAtList_texts_of_some h hlist), windowClause_eq_windowOver]
    unfold Argument.partitions
    dsimp only
    cases list.items with
    | nil => rfl
    | cons t ts => rfl

theorem windowedCall_texts (key : Text) :
    windowedCall true key (arguments.map Argument.text) =
      Strategy.windowed.renderArguments key arguments := by
  unfold Strategy.renderArguments
  dsimp only
  cases hlist : arguments.find? Argument.isList with
  | none =>
    rw [windowedCall_of_none (splitAtList_texts_of_none h hlist), windowClause_eq_windowOver,
      ← List.map_take]
    rfl
  | some list =>
    rw [windowedCall_of_list (splitAtList_texts_of_some h hlist), windowClause_eq_windowOver,
      Bool.not_true, Bool.and_false]
    rfl

/-- A call is rendered from its arguments as from their texts. -/
theorem renderCall_texts (name : Text) :
    renderCall name (arguments.map Argument.text) = renderArguments name arguments := by
  unfold renderCall renderArguments
  cases Catalog.keyFor (String.ofList name) with
  | none => rfl
  | some key =>
    dsimp only
    cases Strategy.ofKey key with
    | rank => exact rankCall_texts h key.toList
    | leastAggregated => exact leastAggregatedCall_texts h key.toList
    | windowed => exact windowedCall_texts h key.toList
    | membership =>
      show plainCall key.toList ((arguments.map Argument.text).take 1) = _
      rw [← List.map_take]
      rfl
    | ifElse => rfl
    | passThrough => rfl

end Rendering

/-- **Calls are expanded argument by argument**: what a call becomes is what becomes of its
arguments, each of their items expanded on its own. -/
theorem expandCall_arguments (name : Text) {row : Row Argument} (h : row.Valid Argument.Valid) :
    expandCall name (row.text Argument.text) =
      renderArguments name (row.contents.map (Argument.map expandCalls)) := by
  have each : row.Valid (Expands Argument.text (Argument.map expandCalls)) :=
    h.imp fun _ ha => ha.expands
  have expanded : (row.map (Argument.map expandCalls)).Valid Argument.Valid :=
    h.map fun _ ha => ha.map_expandCalls
  have valid : ∀ a ∈ row.contents.map (Argument.map expandCalls), a.Valid := by
    rw [← Row.contents_map]
    intro a ha
    obtain ⟨c, hc, rfl⟩ := List.mem_map.1 ha
    exact (expanded.cells c hc).content
  have text := Row.expandCalls_text each apart_nil
  rw [List.append_nil, expandCalls_nil, List.append_nil] at text
  unfold expandCall
  rw [text, Row.pieces_text (expanded.imp fun _ ha => ha.isPiece), Row.contents_map,
    renderCall_texts valid]

/-- The arguments ` sum(a, 1), [ region,ifelse(b)] ,PRE`. -/
def salesArguments : Row Argument where
  cells := [
    ⟨" ".toList, .item "sum(a, 1)".toList, []⟩,
    ⟨" ".toList, .list ⟨[⟨" ".toList, "region".toList, []⟩, ⟨[], "ifelse(b)".toList, []⟩], []⟩,
      " ".toList⟩,
    ⟨[], .item "PRE".toList, []⟩]
  closing := []

/-- The call of the first argument and the condition in the list are expanded, the plain names that
come out are quoted, and what comes after the list is dropped. -/
theorem expandCall_sales :
    salesArguments.Valid Argument.Valid ∧
      expandCall "maxOver".toList (salesArguments.text Argument.text) =
        renderArguments "maxOver".toList (salesArguments.contents.map (Argument.map expandCalls)) ∧
      expandCall "maxOver".toList " sum(a, 1), [ region,ifelse(b)] ,PRE".toList =
        "MAX_OVER(SUM(a, 1)) OVER (PARTITION BY `region`, `b`)".toList := by
  have sum : Item "sum(a, 1)".toList := by
    refine ⟨by decide, by decide, ?_⟩
    have inside : Nested true "a, 1".toList :=
      .char (by decide) (by decide) (by decide)
        (.char (by decide) (by decide) (fun _ => rfl) (.of_all (by decide)))
    exact (Nested.of_all (t := "sum".toList) (by decide)).append (.parens inside .nil)
  have condition : Item "ifelse(b)".toList := by
    refine ⟨by decide, by decide, ?_⟩
    exact (Nested.of_all (t := "ifelse".toList) (by decide)).append
      (.parens (.of_all (t := "b".toList) (by decide)) .nil)
  have region : Item "region".toList := ⟨by decide, by decide, .of_all (by decide)⟩
  have level : Item "PRE".toList := ⟨by decide, by decide, .of_all (by decide)⟩
  have blank : Blanks " ".toList := Text.isBlankText_iff.1 (by decide)
  have none : Blanks [] := fun _ h => nomatch h
  have valid : salesArguments.Valid Argument.Valid := by
    refine ⟨?_, none⟩
    simp only [salesArguments, List.forall_mem_cons]
    refine ⟨⟨blank, sum, none⟩, ⟨blank, ⟨?_, none⟩, blank⟩, ⟨none, level, none⟩,
      fun _ h => nomatch h⟩
    simp only [List.forall_mem_cons]
    exact ⟨⟨blank, region, none⟩, ⟨none, condition, none⟩, fun _ h => nomatch h⟩
  exact ⟨valid, expandCall_arguments "maxOver".toList valid, by decide +kernel⟩

end DashCalc.Formula
