import KspWorkbench.Proofs.Script.DeclarationGrammar

/-!
# Callbacks and the controls that they handle

The scan of a text carries the controls declared so far along, the latest first, and a callback that
names a control looks it up there. What it finds can be told from the symbols of the text alone.

* **`lookup_foldl_declare`** — the controls known after some symbols: the last symbol that is a
  control of the name decides, and other symbols of the name do not count.
* **`exists_toSymbol_of_split`** — a symbol is made with the controls of the symbols before it.
* **`LastControlAbove`** — the control that a callback belongs to, said without the scan.
* **`callbacks_linked`** — which callbacks handle a control, and which widget they are linked to.
-/

namespace KspWorkbench

/-! ## §1 — the controls known after some symbols -/

/-- A control is a variable that is declared with a widget. -/
theorem isControl_iff {kind : SymbolKind} :
    kind.isControl = true ↔ ∃ type widget, kind = .variable type (some (.widget widget)) := by
  constructor
  · intro h
    unfold SymbolKind.isControl at h
    split at h
    · exact ⟨_, _, rfl⟩
    · cases h
  · rintro ⟨type, widget, rfl⟩
    rfl

/-- The widget type that a symbol gives to the controls of a name. -/
def Symbol.widgetFor? (control : String) (s : Symbol) : Option String :=
  if s.kind.isControl = true ∧ s.sourceName = control then s.kind.widget? else none

/-- A symbol gives the widget of a control when it is a control of that name. -/
theorem widgetFor?_eq_some_iff {control widget : String} {s : Symbol} :
    s.widgetFor? control = some widget ↔
      s.kind.isControl = true ∧ s.sourceName = control ∧ s.kind.widget? = some widget := by
  rw [Symbol.widgetFor?, Option.ite_none_right_eq_some, and_assoc]

/-- A symbol that is no control, or one of another name, gives no widget. -/
theorem widgetFor?_eq_none_iff {control : String} {s : Symbol} :
    s.widgetFor? control = none ↔ (s.kind.isControl = true → s.sourceName ≠ control) := by
  constructor
  · intro hnone hcontrol hname
    -- a control has a widget type.
    obtain ⟨type, widget, hkind⟩ := isControl_iff.mp hcontrol
    have hsome : s.widgetFor? control = some widget :=
      widgetFor?_eq_some_iff.mpr ⟨hcontrol, hname, by rw [hkind]; rfl⟩
    rw [hnone] at hsome
    cases hsome
  · intro hother
    exact if_neg fun h => hother h.1 h.2

/-- One more symbol counts before all others. -/
theorem lookup_declare (widgets : Widgets) (s : Symbol) (control : String) :
    (widgets.declare s).lookup control = (s.widgetFor? control).or (widgets.lookup control) := by
  cases hfor : s.widgetFor? control with
  | some widget =>
    obtain ⟨hcontrol, hname, hwidget⟩ := widgetFor?_eq_some_iff.mp hfor
    obtain ⟨type, widget', hkind⟩ := isControl_iff.mp hcontrol
    rw [hkind] at hwidget
    cases hwidget
    simp [Widgets.declare, hkind, hname]
  | none =>
    rw [Option.none_or]
    have hother := widgetFor?_eq_none_iff.mp hfor
    -- a control of another name comes before, and is passed over.
    unfold Widgets.declare
    split
    · next type widget hkind =>
      have hname : s.sourceName ≠ control := hother (isControl_iff.mpr ⟨type, widget, hkind⟩)
      rw [List.lookup_cons, beq_eq_false_iff_ne.mpr (Ne.symm hname)]
    · rfl

/-- **The controls known after some symbols**: the last one of a name decides. -/
theorem lookup_foldl_declare (symbols : List Symbol) (widgets : Widgets) (control : String) :
    (symbols.foldl Widgets.declare widgets).lookup control =
      (symbols.reverse.findSome? (Symbol.widgetFor? control)).or (widgets.lookup control) := by
  induction symbols generalizing widgets with
  | nil => rfl
  | cons s symbols ih =>
    rw [List.foldl_cons, ih, lookup_declare, List.reverse_cons, List.findSome?_append,
      Option.or_assoc]
    cases hfor : s.widgetFor? control <;> simp [hfor]

/-! ## §2 — the symbols before a symbol -/

/-- **A symbol is made with the controls of the symbols before it.** -/
theorem exists_toSymbol_of_split {start : Nat} {widgets : Widgets} {ls : List (List Char)}
    {before after : List Symbol} {s : Symbol}
    (h : collectFrom start widgets ls = before ++ s :: after) :
    ∃ line d, (line, s.line) ∈ ls.zipIdx start ∧ declared? line = some d ∧
      s = d.form.toSymbol (before.foldl Widgets.declare widgets) s.line d.column := by
  -- by induction on the lines; each symbol before the one in question has added its widget.
  induction ls generalizing start widgets before with
  | nil => simp [collectFrom] at h
  | cons l ls ih =>
    rw [List.zipIdx_cons]
    rw [collectFrom] at h
    cases hd : declared? l with
    | none =>
      rw [hd] at h
      obtain ⟨line, d, hline, hfound⟩ := ih h
      exact ⟨line, d, List.mem_cons_of_mem _ hline, hfound⟩
    | some d =>
      rw [hd] at h
      cases before with
      | nil =>
        obtain ⟨rfl, -⟩ := List.cons.inj h
        rw [(line_toSymbol _ _ _ _).1]
        exact ⟨l, d, List.mem_cons_self, hd, rfl⟩
      | cons first before =>
        obtain ⟨rfl, hrest⟩ := List.cons.inj h
        obtain ⟨line, d', hline, hfound⟩ := ih hrest
        exact ⟨line, d', List.mem_cons_of_mem _ hline, hfound⟩

/-- The symbols before a symbol are those of the lines above it. -/
theorem mem_before_iff {before after : List Symbol} {s other : Symbol}
    (hlines : (before ++ s :: after).Pairwise (·.line < ·.line)) :
    other ∈ before ↔ other ∈ before ++ s :: after ∧ other.line < s.line := by
  obtain ⟨-, hrest, hbefore⟩ := List.pairwise_append.mp hlines
  constructor
  · intro hmem
    exact ⟨List.mem_append_left _ hmem, hbefore other hmem s List.mem_cons_self⟩
  · rintro ⟨hmem, hlt⟩
    rcases List.mem_append.mp hmem with hmem | hmem
    · exact hmem
    · rcases List.mem_cons.mp hmem with rfl | hmem
      · exact absurd hlt (Nat.lt_irrefl _)
      · exact absurd ((List.pairwise_cons.mp hrest).1 other hmem) (Nat.not_lt.mpr hlt.le)

/-! ## §3 — the control that a callback belongs to -/

/-- **The last control of a name above a line.** -/
structure LastControlAbove (symbols : List Symbol) (line : Nat) (control : String) (s : Symbol) :
    Prop where
  mem : s ∈ symbols
  above : s.line < line
  isControl : s.kind.isControl = true
  sourceName : s.sourceName = control
  last : ∀ other ∈ symbols, s.line < other.line → other.line < line →
    other.kind.isControl = true → other.sourceName ≠ control

/-- What the symbols before a symbol give to the controls of a name. -/
theorem findSome?_widgetFor?_eq_some_iff {before after : List Symbol} {cb : Symbol}
    {control widget : String} (hlines : (before ++ cb :: after).Pairwise (·.line < ·.line)) :
    before.reverse.findSome? (Symbol.widgetFor? control) = some widget ↔
      ∃ s, LastControlAbove (before ++ cb :: after) cb.line control s ∧
        s.kind.widget? = some widget := by
  constructor
  · intro h
    obtain ⟨later, s, earlier, hsplit, hfor, hlater⟩ := List.findSome?_eq_some_iff.mp h
    obtain ⟨hcontrol, hname, hwidget⟩ := widgetFor?_eq_some_iff.mp hfor
    have hmem : s ∈ before := by
      rw [← List.mem_reverse, hsplit]
      simp
    obtain ⟨hmem', habove⟩ := (mem_before_iff hlines).mp hmem
    refine ⟨s, ⟨hmem', habove, hcontrol, hname, fun other hother hbelow hother' => ?_⟩, hwidget⟩
    have hin : other ∈ before := (mem_before_iff hlines).mpr ⟨hother, hother'⟩
    -- what stands between the two lines was looked at before `s`.
    have hbefore : before = earlier.reverse ++ s :: later.reverse := by
      rw [← List.reverse_reverse before, hsplit]
      simp
    have hsorted : (earlier.reverse ++ s :: later.reverse).Pairwise (·.line < ·.line) :=
      hbefore ▸ (List.pairwise_append.mp hlines).1
    have hnot : other ∉ earlier.reverse := fun hearlier =>
      absurd ((mem_before_iff hsorted).mp hearlier).2 (Nat.not_lt.mpr hbelow.le)
    have hne : other ≠ s := fun heq => absurd hbelow (by rw [heq]; exact Nat.lt_irrefl _)
    rw [hbefore] at hin
    have hlate : other ∈ later := by simpa [hne, hnot] using hin
    exact widgetFor?_eq_none_iff.mp (hlater other hlate)
  · rintro ⟨s, hlast, hwidget⟩
    have hmem : s ∈ before := (mem_before_iff hlines).mpr ⟨hlast.mem, hlast.above⟩
    obtain ⟨earlier, later, rfl⟩ := List.append_of_mem hmem
    have hsorted := (List.pairwise_append.mp hlines).1
    obtain ⟨-, hrest, -⟩ := List.pairwise_append.mp hsorted
    have hfor : s.widgetFor? control = some widget :=
      widgetFor?_eq_some_iff.mpr ⟨hlast.isControl, hlast.sourceName, hwidget⟩
    refine List.findSome?_eq_some_iff.mpr
      ⟨later.reverse, s, earlier.reverse, by simp, hfor, fun other hother => ?_⟩
    have hlater : other ∈ later := List.mem_reverse.mp hother
    have hin : other ∈ earlier ++ s :: later := by simp [hlater]
    obtain ⟨hin', habove⟩ := (mem_before_iff hlines).mp hin
    exact widgetFor?_eq_none_iff.mpr
      (hlast.last other hin' ((List.pairwise_cons.mp hrest).1 other hlater) habove)

/-! ## §4 — callbacks -/

/-- The widget that a form which handles a control is linked to. -/
theorem widget?_toSymbol {widgets : Widgets} {form : Form} {line column : Nat} {control : String}
    (h : (form.toSymbol widgets line column).kind.control? = some control) :
    (form.toSymbol widgets line column).kind.widget? = widgets.lookup control := by
  match form with
  | .variable type modifier name => cases h
  | .callback name argument =>
    simp only [Form.toSymbol] at h ⊢
    split at h
    · next handled hcontrol =>
      cases h
      rfl
    · cases h
  | .function name => cases h

theorem name_toSymbol_callback (widgets : Widgets) (cs : List Char) (line column : Nat) :
    ((Announced.callback.form cs).toSymbol widgets line column).name =
      String.ofList (cs.takeWhile isIdentifierChar) := by
  simp only [Announced.form, Form.toSymbol]
  split <;> rfl

/-- Only the form of a callback makes a callback. -/
theorem eq_callback_of_makes {what : Announced} {kind : SymbolKind} (h : what.Makes kind)
    (hcallback : Announced.callback.Makes kind) : what = .callback := by
  cases what with
  | declare type modifier =>
    have hkind : kind = .variable type modifier := h
    rcases hcallback with rfl | ⟨control, widget, rfl⟩ <;> cases hkind
  | callback => rfl
  | function =>
    have hkind : kind = .function := h
    rcases hcallback with rfl | ⟨control, widget, rfl⟩ <;> cases hkind

/-- **Callbacks are linked to the latest control above them.** A callback stands on its line with
its name and what follows the name. It handles a control exactly if its name starts with `ui_` and
an argument follows: white space aside, an opening parenthesis, something without a closing one, and
a closing one. It is then linked to a widget exactly if a control of the name that it handles is
declared on a line above, and to the widget of the last such control. Other declarations of the name
in between do not count, nor do those below. -/
theorem callbacks_linked {text : String} {cb : Symbol} (hcb : cb ∈ collect text)
    (hcallback : Announced.callback.Makes cb.kind) :
    (∃ line behind, (lines text.toList)[cb.line]? = some line ∧
      line.drop cb.column = cb.name.toList ++ behind ∧
      (cb.kind.handlesControl = true ↔
        "ui_".toList <+: cb.name.toList ∧ ∃ argument, ArgumentFollows behind argument)) ∧
    ∀ control, cb.kind.control? = some control → ∀ widget,
      cb.kind.widget? = some widget ↔
        ∃ s, LastControlAbove (collect text) cb.line control s ∧ s.kind.widget? = some widget := by
  obtain ⟨before, after, hsplit⟩ := List.append_of_mem hcb
  obtain ⟨line, d, hline, hd, hsymbol⟩ := exists_toSymbol_of_split hsplit
  constructor
  · obtain ⟨what, front, run, behind, hreads⟩ := exists_reads hd
    rw [declared?_of_reads hreads] at hd
    cases hd
    have hmakes := makes_toSymbol what (run ++ behind) (before.foldl Widgets.declare []) cb.line
      front.length
    rw [← hsymbol] at hmakes
    cases eq_callback_of_makes hmakes hcallback
    have hcolumn : cb.column = front.length := by
      rw [hsymbol]
      exact (line_toSymbol _ _ _ _).2
    have hname : cb.name.toList = (run ++ behind).takeWhile isIdentifierChar := by
      rw [hsymbol, name_toSymbol_callback, String.toList_ofList]
    have hhandles := handlesControl_toSymbol .callback (run ++ behind)
      (before.foldl Widgets.declare []) cb.line front.length
    rw [← hsymbol, ← hname] at hhandles
    refine ⟨line, (run ++ behind).dropWhile isIdentifierChar,
      List.mk_mem_zipIdx_iff_getElem?.mp hline, ?_, hhandles.trans (and_iff_right rfl)⟩
    rw [hname, List.takeWhile_append_dropWhile, hcolumn, hreads.split, List.drop_left]
    rfl
  -- the lookup goes through the symbols before the callback, which are those above it.
  · intro control hcontrol widget
    rw [hsymbol] at hcontrol
    have hlink := widget?_toSymbol hcontrol
    rw [← hsymbol, lookup_foldl_declare, List.lookup_nil, Option.or_none] at hlink
    rw [hlink, hsplit]
    refine findSome?_widgetFor?_eq_some_iff ?_
    rw [← hsplit]
    exact pairwise_line_collectFrom 0 [] _

/-- A callback below two controls of its name and a variable that hides none of them, and above a
third control: the second one is its widget. -/
theorem callback_linked_past_variable :
    let text := "declare ui_knob $v\ndeclare ui_slider $v\ndeclare $v\non ui_control ( $v )\n" ++
      "declare ui_menu $v"
    ∃ cb ∈ collect text, Announced.callback.Makes cb.kind ∧ cb.line = 3 ∧
      cb.kind.handlesControl = true ∧ cb.kind.control? = some "$v" ∧
      cb.kind.widget? = some "ui_slider" := by
  intro text
  let cb : Symbol := ⟨"ui_control", .controlCallback "$v" (some "ui_slider"), 3, 3⟩
  let slider : Symbol := ⟨"v", .variable .integer (some (.widget "ui_slider")), 1, 18⟩
  have hcb : cb ∈ collect text := by decide +kernel
  have hcallback : Announced.callback.Makes cb.kind := Or.inr ⟨_, _, rfl⟩
  obtain ⟨⟨line, behind, hline, hsplit, hhandles⟩, hlinked⟩ := callbacks_linked hcb hcallback
  have hlast : LastControlAbove (collect text) cb.line "$v" slider :=
    ⟨by decide +kernel, by decide, rfl, by decide +kernel, by decide +kernel⟩
  have hbehind : behind = " ( $v )".toList := by
    have hread : (lines text.toList)[cb.line]? = some "on ui_control ( $v )".toList := by
      decide +kernel
    rw [hline] at hread
    cases hread
    exact List.append_cancel_left (hsplit.symm.trans (by decide +kernel))
  have hargument : ArgumentFollows behind " $v ".toList :=
    ⟨" ".toList, [], by rw [hbehind]; decide +kernel,
      List.all_eq_true.mp (by decide +kernel), by decide +kernel, by decide +kernel⟩
  exact ⟨cb, hcb, hcallback, rfl, hhandles.mpr ⟨by decide +kernel, _, hargument⟩, rfl,
    (hlinked "$v" rfl "ui_slider").mpr ⟨slider, hlast, rfl⟩⟩

end KspWorkbench
