import KspWorkbench.Proofs.Script.WidgetLinks
import Mathlib.Data.List.Nodup

/-!
# Where a word is defined

The definitions of a word are the places of its declarations, without the one on the cursor's line,
and for each of them that is a control also the places of all callbacks which handle the control. So
a control that is declared again brings its callbacks again.

* **`count_definition`** — how often the place of a symbol is listed.
* **`definition_nodup_iff`** — when no place is listed twice.
-/

namespace KspWorkbench

/-- The declarations of a name that are controls. -/
def controlsOf (symbols : List Symbol) (word : String) : List Symbol :=
  symbols.filter fun s => s.kind.isControl = true ∧ s.sourceName = word

/-! ## §1 — the places of symbols -/

/-- Symbols of a text have different places. -/
theorem nodup_positions (text : String) : ((collect text).map Symbol.position).Nodup := by
  refine List.pairwise_map.mpr ((pairwise_line_collectFrom 0 [] _).imp fun hlt heq => ?_)
  exact Nat.ne_of_lt hlt (congrArg Position.line heq)

/-- How often the place of a symbol is among those of some symbols of its text. -/
theorem count_position {text : String} {s : Symbol} (hs : s ∈ collect text) (p : Symbol → Bool) :
    (((collect text).filter p).map Symbol.position).count s.position = if p s then 1 else 0 := by
  have hnodup : (((collect text).filter p).map Symbol.position).Nodup :=
    (nodup_positions text).sublist (List.filter_sublist.map _)
  rw [hnodup.count]
  refine if_congr ?_ rfl rfl
  rw [List.mem_map]
  constructor
  · rintro ⟨other, hother, hposition⟩
    obtain ⟨hmem, hp⟩ := List.mem_filter.mp hother
    rwa [List.inj_on_of_nodup_map (nodup_positions text) hmem hs hposition] at hp
  · intro hp
    exact ⟨s, List.mem_filter.mpr ⟨hs, hp⟩, rfl⟩

/-- A callback that handles a control has not the name of a control. -/
theorem sourceName_ne_of_handles {text : String} {cb s : Symbol} (hcb : cb ∈ collect text)
    (hs : s ∈ collect text) (hhandles : cb.kind.handlesControl = true)
    (hcontrol : s.kind.isControl = true) : cb.sourceName ≠ s.sourceName := by
  intro hname
  obtain ⟨type, widget, hkind⟩ := isControl_iff.mp hcontrol
  have hvariable : s.kind.variableType?.isSome = true := by
    rw [hkind]
    rfl
  obtain ⟨sigil, name, hword, -, -⟩ :=
    exists_variable_of_mem_collect hs hvariable String.ofList_toList.symm
  obtain ⟨widgets, line, d, -, hd, heq⟩ := mem_collect hcb
  have hform : d.form.word = s.sourceName.toList := by
    rw [← hname, heq, sourceName_toSymbol, String.toList_ofList]
  -- a name that starts with a sigil is that of a variable.
  obtain ⟨_, _, _, hvariable⟩ := form_of_declared? hd (by rw [hform, hword]; rfl)
    (isIdentifierChar_of_isSigil (isSigil_sigil sigil))
  rw [heq, hvariable] at hhandles
  cases hhandles

/-! ## §2 — how often a place is listed -/

theorem flatMap_ite_nil {α β : Type} (p : α → Prop) [DecidablePred p] (f : α → List β)
    (xs : List α) : (xs.flatMap fun x => if p x then f x else []) = (xs.filter p).flatMap f := by
  induction xs with
  | nil => rfl
  | cons x xs ih =>
    by_cases hx : p x
    · simp [hx, ih]
    · simp [hx, ih]

/-- The definitions of a word, but for their order: the places of its declarations on other lines,
and those of its callbacks once for each control. -/
theorem definition_perm {text : String} {p : Position} {word : List Char}
    (hword : wordAt? text p = some word) :
    (definition text p).Perm
      (((collect text).filter fun s => s.sourceName = String.ofList word ∧ s.line ≠ p.line).map
          Symbol.position ++
        (controlsOf (collect text) (String.ofList word)).flatMap fun _ =>
          (handlersOf (collect text) (String.ofList word)).map Symbol.position) := by
  let declarations := (collect text).filter (·.sourceName = String.ofList word)
  have hdefinition : definition text p =
      declarations.flatMap fun s => (if s.line ≠ p.line then [s.position] else []) ++
        if s.kind.isControl = true then
          (handlersOf (collect text) s.sourceName).map Symbol.position
        else [] := by
    simp only [definition, hword, ite_not]
    rfl
  rw [hdefinition]
  refine (List.flatMap_append_perm _ _ _).symm.trans (List.Perm.of_eq ?_)
  rw [flatMap_ite_nil, flatMap_ite_nil, ← List.map_eq_flatMap, List.filter_filter,
    List.filter_filter]
  congr 1
  · congr 2
    funext s
    simp [and_comm]
  · -- the controls among the declarations have the name of the word.
    have hcontrols : (collect text).filter (fun s => decide (s.kind.isControl = true) &&
        decide (s.sourceName = String.ofList word)) =
        controlsOf (collect text) (String.ofList word) := by
      simp [controlsOf]
    rw [hcontrols]
    refine List.flatMap_congr fun s hs => ?_
    have hname : s.sourceName = String.ofList word := by
      have hboth := of_decide_eq_true (List.mem_filter.mp hs).2
      exact hboth.2
    rw [hname]

/-- **How often the place of a symbol is listed**: once if the symbol declares the word on another
line than the cursor's, and as often as the word is declared as a control if the symbol is a
callback that handles it. -/
theorem count_definition {text : String} {p : Position} {word : List Char} {s : Symbol}
    (hword : wordAt? text p = some word) (hs : s ∈ collect text) :
    (definition text p).count s.position =
      (if s.sourceName = String.ofList word ∧ s.line ≠ p.line then 1 else 0) +
      if s.kind.control? = some (String.ofList word) then
        (controlsOf (collect text) (String.ofList word)).length
      else 0 := by
  rw [(definition_perm hword).count_eq, List.count_append, count_position hs, List.count_flatMap]
  -- a callback of the word is listed once with each of the controls, so the counts multiply.
  have hhandlers : ((handlersOf (collect text) (String.ofList word)).map Symbol.position).count
      s.position = if s.kind.control? = some (String.ofList word) then 1 else 0 := by
    rw [handlersOf, count_position hs]
    simp
  congr 1
  · simp
  · show ((controlsOf (collect text) (String.ofList word)).map fun _ => List.count s.position
      ((handlersOf (collect text) (String.ofList word)).map Symbol.position)).sum = _
    rw [hhandlers, List.map_const', List.sum_replicate_nat]
    split <;> simp

/-! ## §3 — when no place is listed twice -/

/-- Every place that is listed is that of a symbol. -/
theorem exists_symbol_of_mem_definition {text : String} {p q : Position}
    (h : q ∈ definition text p) : ∃ s ∈ collect text, s.position = q := by
  cases hword : wordAt? text p with
  | none => simp [definition, hword] at h
  | some word =>
    rw [(definition_perm hword).mem_iff, List.mem_append, List.mem_map, List.mem_flatMap] at h
    rcases h with ⟨s, hs, rfl⟩ | ⟨_, -, hs⟩
    · exact ⟨s, (List.mem_filter.mp hs).1, rfl⟩
    · obtain ⟨s, hcb, rfl⟩ := List.mem_map.mp hs
      exact ⟨s, (List.mem_filter.mp hcb).1, rfl⟩

/-- A symbol does not both declare a word and handle a control of this name. -/
theorem controlsOf_eq_nil {text : String} {word : String} {s : Symbol} (hs : s ∈ collect text)
    (hname : s.sourceName = word) (hhandles : s.kind.control? = some word) :
    controlsOf (collect text) word = [] := by
  refine List.filter_eq_nil_iff.mpr fun other hother hboth => ?_
  obtain ⟨hcontrol, hother'⟩ := of_decide_eq_true hboth
  have hhandles' : s.kind.handlesControl = true := by
    rw [SymbolKind.handlesControl, hhandles]
    rfl
  exact sourceName_ne_of_handles hs hother hhandles' hcontrol (hname.trans hother'.symm)

/-- **When no place is listed twice.** The definitions of a word have distinct places exactly if the
word is declared as a control at most once or no callback handles it. In any case the place of a
declaration is listed once, and that of a callback as often as the word is declared as a control;
the declaration on the cursor's line is left out. -/
theorem definition_nodup_iff (text : String) (p : Position) :
    ((definition text p).Nodup ↔
      ∀ word, wordAt? text p = some word →
        (controlsOf (collect text) (String.ofList word)).length ≤ 1 ∨
        handlersOf (collect text) (String.ofList word) = []) ∧
    ∀ word, wordAt? text p = some word → ∀ s ∈ collect text,
      (definition text p).count s.position =
        (if s.sourceName = String.ofList word ∧ s.line ≠ p.line then 1 else 0) +
        if s.kind.control? = some (String.ofList word) then
          (controlsOf (collect text) (String.ofList word)).length
        else 0 := by
  refine ⟨⟨fun hnodup word hword => ?_, fun honce => ?_⟩,
    fun word hword s hs => count_definition hword hs⟩
  · -- one callback is enough to tell how often the word is declared as a control.
    by_cases hnone : handlersOf (collect text) (String.ofList word) = []
    · exact Or.inr hnone
    · obtain ⟨cb, hcb⟩ := List.exists_mem_of_ne_nil _ hnone
      obtain ⟨hmem, hhandles⟩ := List.mem_filter.mp hcb
      have hcount := count_definition hword hmem
      rw [if_pos (of_decide_eq_true hhandles)] at hcount
      have hle := List.nodup_iff_count_le_one.mp hnodup cb.position
      omega
  · refine List.nodup_iff_count_le_one.mpr fun q => ?_
    by_cases hq : q ∈ definition text p
    · obtain ⟨s, hs, rfl⟩ := exists_symbol_of_mem_definition hq
      cases hword : wordAt? text p with
      | none => simp [definition, hword]
      | some word =>
        rw [count_definition hword hs]
        by_cases hhandles : s.kind.control? = some (String.ofList word)
        · rw [if_pos hhandles]
          have hlength : (controlsOf (collect text) (String.ofList word)).length ≤ 1 := by
            refine (honce word hword).resolve_right fun hnone => ?_
            have hmem : s ∈ handlersOf (collect text) (String.ofList word) :=
              List.mem_filter.mpr ⟨hs, decide_eq_true hhandles⟩
            rw [hnone] at hmem
            cases hmem
          split
          · next hname => simp [controlsOf_eq_nil hs hname.1 hhandles]
          · omega
        · rw [if_neg hhandles]
          split <;> omega
    · rw [List.count_eq_zero.mpr hq]
      omega

/-- A control that is declared again as a variable: its callback is listed once. -/
theorem definition_of_hidden_knob :
    let text := "declare ui_knob $v\ndeclare $v\non ui_control ($v)"
    let cb : Symbol := ⟨"ui_control", .controlCallback "$v" (some "ui_knob"), 2, 3⟩
    wordAt? text ⟨2, 15⟩ = some "$v".toList ∧ cb ∈ collect text ∧
      (definition text ⟨2, 15⟩).Nodup ∧ (definition text ⟨2, 15⟩).count cb.position = 1 := by
  intro text cb
  have hword : wordAt? text ⟨2, 15⟩ = some "$v".toList := by decide +kernel
  have hcb : cb ∈ collect text := by decide +kernel
  have honce : (controlsOf (collect text) (String.ofList "$v".toList)).length = 1 := by
    decide +kernel
  obtain ⟨hnodup, hcount⟩ := definition_nodup_iff text ⟨2, 15⟩
  refine ⟨hword, hcb, hnodup.mpr fun word hword' => ?_, ?_⟩
  · rw [hword] at hword'
    cases hword'
    exact Or.inl (Nat.le_of_eq honce)
  · rw [hcount "$v".toList hword cb hcb, honce]
    decide +kernel

/-- A control that is declared twice and has a callback: the callback is listed twice. -/
theorem callback_listed_twice :
    let text := "declare ui_knob $v\ndeclare ui_slider $v\non ui_control ($v)"
    definition text ⟨2, 15⟩ = [⟨0, 16⟩, ⟨2, 3⟩, ⟨1, 18⟩, ⟨2, 3⟩] ∧
      ¬ (definition text ⟨2, 15⟩).Nodup := by
  intro text
  have hdefinition : definition text ⟨2, 15⟩ = [⟨0, 16⟩, ⟨2, 3⟩, ⟨1, 18⟩, ⟨2, 3⟩] := by
    decide +kernel
  rw [hdefinition]
  exact ⟨rfl, by decide⟩

end KspWorkbench
