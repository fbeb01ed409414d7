import KspWorkbench.Proofs.Validation.Moves
import Mathlib.Data.List.Basic
import Mathlib.Data.List.Induction

/-!
# Edits that were not saved

A document is marked when an edit of it is accepted, and the mark is taken off when it is saved or
closed or when the service is shut down. A save that the editor makes on its own behalf does not
count. The service keeps three sets of documents for this; here the marks are told from the course
alone.

* **`Posture`** — the settings and the marks, as far as actions change them by themselves:
  `posture_perform` cuts them out of the service.
* **`Since`** — something happened, and nothing that ends it has happened since. One more action
  changes it as it changes a set of marks (`since_concat`).
* **`live_edits_follow_course`** — when a document is marked, and which saves count.
-/

namespace KspWorkbench

/-- Whether edits of a document are accepted. -/
def Settings.acceptsEdits (settings : Settings) (key : DocumentKey) : Bool :=
  settings.enabled && settings.live && (PatternSet.ofStrings settings.filePatterns).covers key.path

namespace Service

/-! ## §1 — the settings and the marks on their own -/

/-- What the service answers to events by. -/
structure Posture where
  settings : Settings
  patterns : List Pattern
  openDocuments : KeySet
  liveEdits : KeySet
  ownSaves : KeySet

def posture (s : Service) : Posture :=
  ⟨s.settings, s.patterns, s.openDocuments, s.liveEdits, s.ownSaves⟩

namespace Posture

def acceptsEdits (p : Posture) (key : DocumentKey) : Bool :=
  p.settings.live && (p.settings.enabled && p.patterns.any (·.covers key.path))

/-- The posture after an action. Runs, results and time have no part in it. -/
def after (p : Posture) : Action → Posture
  | .handle (.opened key) => { p with openDocuments := p.openDocuments.add key }
  | .handle (.saved key) =>
    if p.ownSaves.contains key then p else { p with liveEdits := p.liveEdits.remove key }
  | .handle (.edited key) =>
    if p.acceptsEdits key then { p with liveEdits := p.liveEdits.add key } else p
  | .handle (.closed key) =>
    { p with
      openDocuments := p.openDocuments.remove key
      liveEdits := p.liveEdits.remove key
      ownSaves := p.ownSaves.remove key }
  | .beginOwnSave key => { p with ownSaves := p.ownSaves.add key }
  | .endOwnSave key => { p with ownSaves := p.ownSaves.remove key }
  | .applyConfig _ settings =>
    { p with settings := settings, patterns := (PatternSet.ofStrings settings.filePatterns).valid }
  | .shutdown => { p with openDocuments := [], liveEdits := [], ownSaves := [] }
  | _ => p

end Posture

theorem posture_validate (s : Service) (key : DocumentKey) (delay : Nat) :
    (s.validate key delay).2.posture = s.posture := by
  rw [validate_frame]
  rfl

/-- Settings and marks are part of what only the setting moves change. -/
theorem posture_play (s : Service) {m : Move} (hm : m.isSetting = false) :
    (s.play m).posture = s.posture := by
  rw [play_frame s hm]
  rfl

theorem posture_playAll (s : Service) {ms : List Move} (hms : ∀ m ∈ ms, m.isSetting = false) :
    (s.playAll ms).posture = s.posture :=
  playAll_keeps posture (fun s m hm => posture_play s (hms m hm)) s

theorem posture_applyNexts (s : Service) (n : Nat) :
    (s.playAll (List.replicate n .applyNext)).posture = s.posture :=
  posture_playAll s fun m hm => by rw [List.eq_of_mem_replicate hm]; rfl

/-- A new configuration changes the settings, and no marks. -/
theorem posture_reconfigure (s : Service) (compiler : Options) (settings : Settings) :
    (s.reconfigure compiler settings).posture =
      s.posture.after (.applyConfig compiler settings) := by
  unfold reconfigure
  simp only
  split <;> rfl

/-- The requests that follow a new configuration set nothing. -/
theorem isSetting_of_mem_revalidated {s : Service} {settings : Settings} {m : Move}
    (h : m ∈ s.revalidated settings) : m.isSetting = false := by
  rw [revalidated] at h
  split at h
  · obtain ⟨key, -, rfl⟩ := List.mem_map.mp h
    rfl
  · cases h

/-- Handling an event changes the posture as the posture alone would have it. -/
theorem posture_handle (s : Service) (event : DocumentEvent) :
    (s.handle event).posture = s.posture.after (.handle event) := by
  -- the request that may follow leaves the posture alone.
  cases event with
  | opened key =>
    rw [handle]
    split
    · exact posture_validate _ key 0
    · rfl
  | saved key =>
    rw [handle, Posture.after]
    show _ = if s.ownSaves.contains key then _ else _
    split
    · rfl
    · simp only
      split
      · exact posture_validate _ key 0
      · rfl
  | edited key =>
    rw [handle, Posture.after]
    show _ = if s.settings.live && s.shouldValidate key then _ else _
    split
    · exact posture_validate _ key _
    · rfl
  | closed key => rfl

/-- **The posture follows the actions by itself.** -/
theorem posture_perform (s : Service) (a : Action) :
    (s.perform a).posture = s.posture.after a := by
  cases a with
  | handle event => exact posture_handle s event
  | validate key delay => exact posture_validate s key delay
  | applyConfig compiler settings =>
    rw [perform, applyConfig_eq, posture_playAll _ fun m hm => isSetting_of_mem_revalidated hm]
    exact posture_reconfigure s compiler settings
  | poll budget =>
    rw [perform_eq_playAll]
    exact posture_applyNexts s budget
  | nextRun =>
    rw [perform_eq_playAll]
    exact posture_applyNexts s _
  | fire key => exact posture_play s (m := .fire key) rfl
  | complete id report => exact posture_play s (m := .complete id report) rfl
  | _ => rfl

/-! ## §2 — since -/

/-- Something happened that `start` marks, and nothing that `stop` marks has happened since. What
happens is judged by what has happened before it. -/
def Since (start stop : List Action → Action → Prop) (actions : List Action) : Prop :=
  ∃ early a late, actions = early ++ a :: late ∧ start early a ∧
    ∀ between b rest, late = between ++ b :: rest → ¬ stop (early ++ a :: between) b

theorem not_since_nil (start stop : List Action → Action → Prop) : ¬ Since start stop [] := by
  rintro ⟨early, a, late, hsplit, -⟩
  simp at hsplit

/-- **One more action** begins it anew, or ends it, or leaves it as it is. -/
theorem since_concat {start stop : List Action → Action → Prop} {actions : List Action}
    {a : Action} :
    Since start stop (actions ++ [a]) ↔
      start actions a ∨ (Since start stop actions ∧ ¬ stop actions a) := by
  -- the last action is the start, or it comes after it and is no stop.
  constructor
  · rintro ⟨early, first, late, hsplit, hstart, hstop⟩
    rcases List.eq_nil_or_concat' late with rfl | ⟨late, last, rfl⟩
    · obtain ⟨rfl, hlast⟩ := List.append_inj' hsplit rfl
      cases hlast
      exact Or.inl hstart
    · rw [← List.cons_append, ← List.append_assoc] at hsplit
      obtain ⟨rfl, hlast⟩ := List.append_inj' hsplit rfl
      cases hlast
      refine Or.inr ⟨⟨early, first, late, rfl, hstart, ?_⟩, hstop late a [] rfl⟩
      rintro between b rest rfl
      exact hstop between b (rest ++ [a]) (by simp)
  · rintro (hstart | ⟨⟨early, first, late, rfl, hstart, hstop⟩, hlast⟩)
    · exact ⟨actions, a, [], rfl, hstart, by simp⟩
    · refine ⟨early, first, late ++ [a], by simp, hstart, ?_⟩
      intro between b rest hsplit
      rcases List.eq_nil_or_concat' rest with rfl | ⟨rest, c, rfl⟩
      · obtain ⟨rfl, hb⟩ := List.append_inj' hsplit rfl
        cases hb
        exact hlast
      · rw [← List.cons_append, ← List.append_assoc] at hsplit
        obtain ⟨rfl, -⟩ := List.append_inj' hsplit rfl
        exact hstop between b rest rfl

/-! ## §3 — the marks, told from the course -/

def Action.settings? : Action → Option Settings
  | .applyConfig _ settings => some settings
  | _ => none

/-- The settings in force after a course that began with `settings`. -/
def settingsAfter (settings : Settings) (actions : List Action) : Settings :=
  (actions.filterMap Action.settings?).getLast?.getD settings

/-- The editor saves the document on its own behalf: it has announced so, and has neither ended it
nor closed the document, nor has the service been shut down. -/
def SavingOnItsOwn (key : DocumentKey) : List Action → Prop :=
  Since (fun _ a => a = .beginOwnSave key)
    (fun _ a => a = .endOwnSave key ∨ a = .handle (.closed key) ∨ a = .shutdown)

/-- The document was edited, by the settings in force then, and has not been closed or saved since,
nor has the service been shut down. A save on the editor's own behalf does not count. -/
def EditedSince (settings : Settings) (key : DocumentKey) : List Action → Prop :=
  Since
    (fun before a => a = .handle (.edited key) ∧
      (settingsAfter settings before).acceptsEdits key = true)
    (fun before a => a = .handle (.closed key) ∨ a = .shutdown ∨
      (a = .handle (.saved key) ∧ ¬ SavingOnItsOwn key before))

theorem settingsAfter_concat (settings : Settings) (actions : List Action) (a : Action) :
    settingsAfter settings (actions ++ [a]) =
      a.settings?.getD (settingsAfter settings actions) := by
  rw [settingsAfter, List.filterMap_append, List.getLast?_append]
  cases h : a.settings? with
  | none => simp [h, settingsAfter]
  | some settings => simp [h]

namespace Posture

variable {p : Posture} {key : DocumentKey}

/-- Only a new configuration changes the settings, and the patterns with them. -/
theorem settings_after (p : Posture) (a : Action) :
    (p.after a).settings = a.settings?.getD p.settings ∧
    (p.after a).patterns = (a.settings?.map fun settings =>
      (PatternSet.ofStrings settings.filePatterns).valid).getD p.patterns := by
  cases a with
  | handle event =>
    cases event with
    | saved key => rw [after]; split <;> exact ⟨rfl, rfl⟩
    | edited key => rw [after]; split <;> exact ⟨rfl, rfl⟩
    | _ => exact ⟨rfl, rfl⟩
  | _ => exact ⟨rfl, rfl⟩

/-- What one action does to the mark of an own save. -/
theorem mem_ownSaves_after {a : Action} :
    key ∈ (p.after a).ownSaves ↔ a = .beginOwnSave key ∨
      (key ∈ p.ownSaves ∧
        ¬ (a = .endOwnSave key ∨ a = .handle (.closed key) ∨ a = .shutdown)) := by
  cases a with
  | handle event =>
    cases event with
    | saved other => rw [after]; split <;> simp
    | edited other => rw [after]; split <;> simp
    | closed other => simp [after, @eq_comm _ key other]
    | opened other => simp [after]
  | beginOwnSave other => simp [after, @eq_comm _ key other]
  | endOwnSave other => simp [after, @eq_comm _ key other]
  | _ => simp [after]

/-- What one action does to the mark of an edit. -/
theorem mem_liveEdits_after {a : Action} :
    key ∈ (p.after a).liveEdits ↔
      (a = .handle (.edited key) ∧ p.acceptsEdits key = true) ∨
      (key ∈ p.liveEdits ∧
        ¬ (a = .handle (.closed key) ∨ a = .shutdown ∨
          (a = .handle (.saved key) ∧ key ∉ p.ownSaves))) := by
  -- only events of the document itself and a shutdown touch its mark.
  cases a with
  | handle event =>
    cases event with
    | saved other =>
      rw [after]
      by_cases hkey : other = key
      · subst hkey
        split <;> simp_all
      · split <;> simp [hkey, Ne.symm hkey]
    | edited other =>
      rw [after]
      by_cases hkey : other = key
      · subst hkey
        split <;> simp_all
      · split <;> simp [hkey, Ne.symm hkey]
    | closed other => simp [after, @eq_comm _ key other]
    | opened other => simp [after]
  | _ => simp [after]

end Posture

/-- The posture after a course: the settings put in force last, their patterns, and the marks. -/
theorem posture_course (compiler : Options) (settings : Settings) (actions : List Action)
    (key : DocumentKey) :
    let p := ((create compiler settings).performAll actions).posture
    p.settings = settingsAfter settings actions ∧
    p.patterns = (PatternSet.ofStrings p.settings.filePatterns).valid ∧
    (key ∈ p.ownSaves ↔ SavingOnItsOwn key actions) ∧
    (key ∈ p.liveEdits ↔ EditedSince settings key actions) := by
  -- by induction on the last action: each conjunct follows from the step and from those before
  -- it.
  induction actions using List.reverseRecOn with
  | nil =>
    refine ⟨rfl, rfl, ?_, ?_⟩
    · exact iff_of_false (by simp [posture, performAll, create, setSettings]) (not_since_nil _ _)
    · exact iff_of_false (by simp [posture, performAll, create, setSettings]) (not_since_nil _ _)
  | append_singleton actions a ih =>
    obtain ⟨hsettings, hpatterns, hsaves, hedits⟩ := ih
    have hafter : ((create compiler settings).performAll (actions ++ [a])).posture =
        ((create compiler settings).performAll actions).posture.after a := by
      rw [performAll_append]
      exact posture_perform _ a
    rw [hafter]
    generalize ((create compiler settings).performAll actions).posture = p at *
    obtain ⟨hsettingsAfter, hpatternsAfter⟩ := p.settings_after a
    refine ⟨?_, ?_, ?_, ?_⟩
    · rw [hsettingsAfter, settingsAfter_concat, hsettings]
    · rw [hpatternsAfter, hsettingsAfter]
      cases a.settings? with
      | none => exact hpatterns
      | some settings => rfl
    · rw [Posture.mem_ownSaves_after, SavingOnItsOwn, since_concat, hsaves]
      rfl
    · have haccepts : p.acceptsEdits key = (settingsAfter settings actions).acceptsEdits key := by
        rw [Posture.acceptsEdits, Settings.acceptsEdits, PatternSet.covers, ← hsettings, hpatterns,
          ← Bool.and_assoc, Bool.and_comm p.settings.live]
      rw [Posture.mem_liveEdits_after, EditedSince, since_concat, hedits, haccepts, hsaves]
      rfl

/-- **Live edits follow the course.** Whatever happens to a service, a document is marked as edited
exactly if an edit of it was accepted and since then it was neither closed nor saved, nor was the
service shut down. A save counts exactly if the editor is not saving on its own behalf: else it
leaves the whole service as it was. -/
theorem live_edits_follow_course (compiler : Options) (settings : Settings)
    (actions : List Action) (key : DocumentKey) :
    let s := (create compiler settings).performAll actions
    (s.liveEditPending key = true ↔ EditedSince settings key actions) ∧
    (SavingOnItsOwn key actions → s.handle (.saved key) = s) ∧
    (¬ SavingOnItsOwn key actions → (s.handle (.saved key)).liveEditPending key = false) := by
  intro s
  obtain ⟨-, -, hsaves, hedits⟩ := posture_course compiler settings actions key
  have hown : s.ownSaves.contains key = true ↔ SavingOnItsOwn key actions :=
    List.contains_iff_mem.trans hsaves
  refine ⟨List.contains_iff_mem.trans hedits, fun hsaving => ?_, fun hsaving => ?_⟩
  · rw [handle, if_pos (hown.mpr hsaving)]
  -- a save that is not its own takes the mark off, whatever is requested then.
  · have hmark : key ∉ (s.handle (.saved key)).posture.liveEdits := by
      rw [posture_handle, Posture.mem_liveEdits_after]
      have hnot : key ∉ s.posture.ownSaves := fun hmem => hsaving (hsaves.mp hmem)
      simp [hnot]
    rw [liveEditPending, Bool.eq_false_iff]
    exact fun hcontains => hmark (List.contains_iff_mem.mp hcontains)

/-- An edit stays marked through a save that the editor makes on its own behalf. -/
theorem edit_marked_through_own_save :
    let key : DocumentKey := ⟨"a.ksp"⟩
    let settings : Settings := { enabled := true, filePatterns := ["**"] }
    let actions : List Action :=
      [.handle (.opened key), .handle (.edited key), .beginOwnSave key]
    let s := (create {} settings).performAll actions
    SavingOnItsOwn key actions ∧ s.handle (.saved key) = s ∧
    (s.handle (.saved key)).liveEditPending key = true ∧
    ¬ SavingOnItsOwn key (actions ++ [.endOwnSave key]) ∧
    ((s.endOwnSave key).handle (.saved key)).liveEditPending key = false := by
  intro key settings actions s
  have hsaving : SavingOnItsOwn key
      ([.handle (.opened key), .handle (.edited key)] ++ [.beginOwnSave key]) :=
    since_concat.mpr (Or.inl rfl)
  have hended : ¬ SavingOnItsOwn key (actions ++ [.endOwnSave key]) := by
    rw [SavingOnItsOwn, since_concat]
    rintro (hbegin | ⟨-, hnot⟩)
    · cases hbegin
    · exact hnot (Or.inl rfl)
  obtain ⟨hedited, hignored, -⟩ := live_edits_follow_course {} settings actions key
  obtain ⟨-, -, hcounts⟩ :=
    live_edits_follow_course {} settings (actions ++ [.endOwnSave key]) key
  have hsame : s.handle (.saved key) = s := hignored hsaving
  refine ⟨hsaving, hsame, ?_, hended, hcounts hended⟩
  rw [hsame]
  decide

end Service

end KspWorkbench
