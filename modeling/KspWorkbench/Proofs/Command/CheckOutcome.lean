import KspWorkbench.Proofs.Command.CheckCourse
import KspWorkbench.Proofs.Compiler.RunReport

/-!
# What a check ends with

When all documents of a check have been applied, its report depends on the schedule in one respect
only: the notices of the documents come in the order in which the runs were applied.

* **`Checking.documents_eq`**, **`Checking.status_eq`** — parts of the report, from the documents and
  their runs alone.
* **`Checking.isFailure_iff`** — when a check has failed.
* **`check_independent_of_schedule`** — all of it together, for every way in which a check can end.
-/

namespace KspWorkbench

/-! ## §1 — the report of a check that is over -/

/-- The numbers of errors and warnings among diagnostics, or nothing if there are none. -/
def statusOf (diagnostics : List Diagnostic) : String :=
  if diagnostics = [] then ""
  else "E:" ++ toString (diagnostics.countP (·.severity = .error)) ++ " W:" ++
    toString (diagnostics.countP (·.severity = .warning))

theorem flatMap_filter_nonempty {α β : Type} (f : α → List β) (xs : List α) :
    (xs.filter fun x => !(f x).isEmpty).flatMap f = xs.flatMap f := by
  induction xs with
  | nil => rfl
  | cons x xs ih =>
    rw [List.filter_cons]
    cases hx : f x <;> simp [hx, ih]

/-- **The status of a registry** is that of all diagnostics, whatever the order of the documents. -/
theorem status_snapshot (r : Registry) :
    r.snapshot.status = statusOf (r.sessions.flatMap fun (_, session) => session.diagnostics) := by
  have hperm : (r.snapshot.documents.flatMap DocumentDiagnostics.diagnostics).Perm
      (r.sessions.flatMap fun (_, session) => session.diagnostics) := by
    refine ((List.mergeSort_perm _ _).flatMap_right _).trans (List.Perm.of_eq ?_)
    rw [flatMap_filter_nonempty, List.flatMap_map]
  have hcount : ∀ severity, r.snapshot.count severity =
      (r.sessions.flatMap fun (_, session) => session.diagnostics).countP
        (·.severity = severity) := fun severity => hperm.countP_eq _
  have hempty : r.snapshot.isEmpty = true ↔
      (r.sessions.flatMap fun (_, session) => session.diagnostics) = [] := by
    rw [Snapshot.isEmpty, List.isEmpty_iff]
    constructor
    · intro hnone
      rw [hnone] at hperm
      exact List.nil_perm.mp hperm
    · intro hnone
      rw [hnone, List.perm_nil, List.flatMap_eq_nil_iff] at hperm
      -- documents without diagnostics are left out of a snapshot.
      refine List.eq_nil_iff_forall_not_mem.mpr fun d hd => ?_
      have hfilter := (List.mem_filter.mp (List.mem_mergeSort.mp hd)).2
      rw [hperm d hd] at hfilter
      cases hfilter
  rw [Snapshot.status, statusOf, hcount, hcount]
  by_cases hnone : r.snapshot.isEmpty = true
  · rw [if_pos hnone, if_pos (hempty.mp hnone)]
  · rw [if_neg hnone, if_neg fun h => hnone (hempty.mpr h)]

namespace Checking

variable {report : DocumentKey → Report} {base : List Notice} {keys : List DocumentKey}
  {c : CheckRun}

/-- **When as many runs were applied as there are documents**, every document was. -/
theorem applied_perm (h : Checking report base keys c)
    (hdone : c.summaries.length = keys.length) : c.applied.Perm keys := by
  have hlength := h.split.length_eq
  have happlied : c.applied.length = c.summaries.length := List.length_map _
  simp only [List.length_append] at hlength
  have hwaiting : c.waiting = [] := List.length_eq_zero_iff.mp (by omega)
  have hflying : c.flying = [] := List.length_eq_zero_iff.mp (by omega)
  have hqueued : c.queued = [] := List.length_eq_zero_iff.mp (by omega)
  have hsplit := h.split
  rwa [hwaiting, hflying, hqueued] at hsplit

/-- The summaries of a check are those of the reports of its applied documents, in the order in
which they were applied. -/
theorem summaries_eq (h : Checking report base keys c) :
    c.summaries = c.applied.map fun key => (report key).summary key := by
  rw [CheckRun.applied, List.map_map]
  refine (List.map_id _).symm.trans (List.map_congr_left fun summary hmem => ?_)
  exact h.summaries summary hmem

/-- **The documents of the report**: one summary for each, in the order of the keys. -/
theorem documents_eq (h : Checking report base keys c) (hkeys : keys.Pairwise (· < ·))
    (hdone : c.summaries.length = keys.length) :
    (concludeCheck c.summaries c.service).documents =
      keys.map fun key => (report key).summary key := by
  have hperm : (concludeCheck c.summaries c.service).documents.Perm
      (keys.map fun key => (report key).summary key) := by
    refine (List.mergeSort_perm _ _).trans ?_
    rw [h.summaries_eq]
    exact (h.applied_perm hdone).map _
  have hsorted : (concludeCheck c.summaries c.service).documents.Pairwise
      fun a b => a.document.le b.document = true :=
    List.pairwise_mergeSort
      (fun (a b d : RunSummary) => DocumentKey.le_trans a.document b.document d.document)
      (fun a b => DocumentKey.le_total a.document b.document) c.summaries
  have hsorted' : (keys.map fun key => (report key).summary key).Pairwise
      fun a b => a.document.le b.document = true :=
    List.pairwise_map.mpr (hkeys.imp fun hlt => (DocumentKey.lt_iff.mp hlt).1)
  -- two sorted lists with the same entries are equal: documents that come neither before nor
  -- after each other are the same.
  refine hperm.eq_of_pairwise ?_ hsorted hsorted'
  intro a b ha hb hab hba
  obtain ⟨key, -, rfl⟩ := List.mem_map.mp (hperm.mem_iff.mp ha)
  obtain ⟨key', -, rfl⟩ := List.mem_map.mp hb
  have hkey : key = key' := DocumentKey.le_antisymm hab hba
  rw [hkey]

/-- **The status of the report** counts the diagnostics of all documents. -/
theorem status_eq (h : Checking report base keys c) (hdone : c.summaries.length = keys.length) :
    (concludeCheck c.summaries c.service).status =
      statusOf (keys.flatMap fun key => (report key).diagnostics) := by
  have hnodup : (c.service.registry.sessions.map Prod.fst).Nodup := by rw [h.sessions]; exact h.nodup
  -- every document has been applied, so each session shows the diagnostics of its own report.
  have hdiagnostics : ∀ entry ∈ c.service.registry.sessions,
      entry.2.diagnostics = (report entry.1).diagnostics := by
    rintro ⟨key, session⟩ hentry
    have hkey : key ∈ c.applied := by
      rw [(h.applied_perm hdone).mem_iff, ← h.sessions]
      exact List.mem_map_of_mem hentry
    have hpublished := h.diagnostics key
    rw [if_pos hkey, Service.diagnostics,
      Registry.published_of_get? (Registry.get?_of_mem hnodup hentry)] at hpublished
    exact hpublished
  have hflat : (c.service.registry.sessions.flatMap fun (_, session) => session.diagnostics) =
      keys.flatMap fun key => (report key).diagnostics := by
    rw [← h.sessions, List.flatMap_map]
    exact List.flatMap_congr hdiagnostics
  rw [← hflat]
  exact status_snapshot c.service.registry

end Checking

/-! ## §2 — when a check has failed -/

/-- The notices of a service that was just made tell of no failure. -/
theorem isError_of_mem_create {compiler : Options} {settings : Settings} {notice : Notice}
    (h : notice ∈ (Service.create compiler settings).notices) : notice.isError = false := by
  have hkind : notice.kind = .configWarning := by
    simp only [Service.create, Service.setSettings, List.mem_append, List.mem_map] at h
    rcases h with (hnil | hshort) | ⟨pattern, -, rfl⟩
    · cases hnil
    · split at hshort
      · rw [List.mem_singleton] at hshort
        rw [hshort]
        rfl
      · cases hshort
    · rfl
  simp [Notice.isError, hkind]

/-- What a line of the standard error reports as a notice is an exception or fatal. -/
theorem kind_of_feedStderr {block : Option ErrorBlock} {line : List Char} {kind : NoticeKind}
    {message : String} (h : (feedStderr block line).2 = some (.notice kind message)) :
    kind = .exception ∨ ∃ label, kind = .fatal label := by
  unfold feedStderr at h
  split at h
  · cases h
  · cases block with
    | none =>
      -- a single line outside of blocks gives a diagnostic.
      have hfatal : fatalLine? line = some (.notice kind message) := h
      simp [fatalLine?, Option.bind_eq_some_iff] at hfatal
    | some b =>
      dsimp only at h
      split at h
      · have hclose : b.close = .notice kind message := Option.some.inj h
        unfold ErrorBlock.close at hclose
        split at hclose
        · split at hclose <;> cases hclose
          exact Or.inr ⟨_, rfl⟩
        · split at hclose <;> cases hclose
          · exact Or.inl rfl
          · exact Or.inr ⟨_, rfl⟩
      · cases h

/-- What the standard error reports as a notice tells of a failure. -/
theorem isError_of_mem_stderrItems {block : Option ErrorBlock} {lines : List String}
    {item : StderrItem} (h : item ∈ stderrItems block lines) {document : DocumentKey}
    {notice : Notice} (hnotice : item.notice? document = some notice) : notice.isError = true := by
  induction lines generalizing block with
  | nil => cases h
  | cons line lines ih =>
    rw [stderrItems, List.mem_append, Option.mem_toList] at h
    rcases h with hfirst | hrest
    · cases item with
      | diagnostic d => cases hnotice
      | notice kind message =>
        cases hnotice
        rcases kind_of_feedStderr hfirst with rfl | ⟨label, rfl⟩ <;> simp [Notice.isError]
    · exact ih hrest

/-- The notice of an outcome tells of a failure, and only success has none. -/
theorem any_isError_outcomeNotice? (document : DocumentKey) (outcome : Outcome) :
    (outcomeNotice? document outcome).toList.any Notice.isError = true ↔ outcome ≠ .exited 0 := by
  cases outcome with
  | exited code =>
    by_cases hcode : code = 0
    · simp [outcomeNotice?, hcode]
    · simp [outcomeNotice?, hcode, Notice.isError]
  | failed error => cases error <;> simp [outcomeNotice?, Notice.isError]

/-- The notices of the blocks that the standard error of a run closes. -/
def blockNotices (document : DocumentKey) (events : List RunEvent) : List Notice :=
  (stderrItems none (stderrLines events)).filterMap (StderrItem.notice? document)

/-- **When the notices of a run tell of a failure**: its standard error has a block for a notice, or
it did not exit with code 0. -/
theorem any_isError_collectRun (document : DocumentKey) (events : List RunEvent) :
    (collectRun document events).notices.any Notice.isError = true ↔
      blockNotices document events ≠ [] ∨ (collectRun document events).outcome ≠ .exited 0 := by
  have hblocks : (blockNotices document events).any Notice.isError = true ↔
      blockNotices document events ≠ [] := by
    constructor
    · intro hany hnil
      rw [hnil] at hany
      cases hany
    · intro hne
      obtain ⟨notice, hmem⟩ := List.exists_mem_of_ne_nil _ hne
      obtain ⟨item, hitem, hnotice⟩ := List.mem_filterMap.mp hmem
      exact List.any_eq_true.mpr ⟨notice, hmem, isError_of_mem_stderrItems hitem hnotice⟩
  rw [notices_collectRun, List.any_append, Bool.or_eq_true, any_isError_outcomeNotice?]
  exact or_congr hblocks Iff.rfl

namespace Checking

variable {events : DocumentKey → List RunEvent} {keys : List DocumentKey} {c : CheckRun}
  {compiler : Options} {settings : Settings}

/-- **When a check has failed**: a run did not exit with code 0, or it reported an error, or its
standard error has a block for a notice. -/
theorem isFailure_iff
    (h : Checking (reportOf events) (Service.create compiler settings).notices keys c)
    (hkeys : keys.Pairwise (· < ·)) (hdone : c.summaries.length = keys.length) :
    (concludeCheck c.summaries c.service).isFailure = true ↔
      ∃ key ∈ keys, (reportOf events key).outcome ≠ .exited 0 ∨
        (∃ d ∈ (reportOf events key).diagnostics, d.severity = .error) ∨
        blockNotices key (events key) ≠ [] := by
  -- the notices of the configuration are warnings, so only those of runs count.
  have hbase : (Service.create compiler settings).notices.any Notice.isError = false :=
    List.any_eq_false.mpr fun notice hmem => by simp [isError_of_mem_create hmem]
  have hnotices : (concludeCheck c.summaries c.service).notices.any Notice.isError = true ↔
      ∃ key ∈ keys, blockNotices key (events key) ≠ [] ∨
        (reportOf events key).outcome ≠ .exited 0 := by
    show c.service.notices.any Notice.isError = true ↔ _
    rw [h.notices, List.any_append, hbase, Bool.false_or, List.any_flatMap, List.any_eq_true]
    refine exists_congr fun key => ?_
    rw [(h.applied_perm hdone).mem_iff, reportOf, any_isError_collectRun]
  have hdiagnostics : ((concludeCheck c.summaries c.service).documents.flatMap
      RunSummary.diagnostics).any (·.severity.isError) = true ↔
      ∃ key ∈ keys, ∃ d ∈ (reportOf events key).diagnostics, d.severity = .error := by
    rw [h.documents_eq hkeys hdone, List.flatMap_map, List.any_flatMap, List.any_eq_true]
    simp [Report.summary, Severity.isError]
  rw [CheckReport.isFailure, Bool.or_eq_true, hdiagnostics, hnotices]
  constructor
  · rintro (⟨key, hkey, herror⟩ | ⟨key, hkey, hblocks | houtcome⟩)
    · exact ⟨key, hkey, Or.inr (Or.inl herror)⟩
    · exact ⟨key, hkey, Or.inr (Or.inr hblocks)⟩
    · exact ⟨key, hkey, Or.inl houtcome⟩
  · rintro ⟨key, hkey, houtcome | herror | hblocks⟩
    · exact Or.inr ⟨key, hkey, Or.inr houtcome⟩
    · exact Or.inl ⟨key, hkey, herror⟩
    · exact Or.inr ⟨key, hkey, Or.inl hblocks⟩

end Checking

/-! ## §3 — every schedule -/

/-- The notices of the configuration, which come before those of all runs. -/
def Config.checkNotices (config : Config) : List Notice :=
  (Service.create config.options { config.settings with enabled := true }).notices

/-- The states that a check of these files can come to. -/
def CheckReaches (config : Config) (events : DocumentKey → List RunEvent) (files : List String)
    (c : CheckRun) : Prop :=
  CheckRun.Reaches (reportOf events) (startCheck config files).1 ⟨(startCheck config files).2, []⟩ c

/-- **How a check can end**: after some schedule it has received as many runs as were accepted, and
reports them. -/
def CheckEnds (config : Config) (events : DocumentKey → List RunEvent) (files : List String)
    (r : CheckReport) : Prop :=
  ∃ c, CheckReaches config events files c ∧ c.summaries.length = (startCheck config files).1 ∧
    r = concludeCheck c.summaries c.service

section Ends

variable {config : Config} {events : DocumentKey → List RunEvent} {files : List String}

theorem startCheck_fst (config : Config) (files : List String) :
    (startCheck config files).1 = (checkedKeys files).length :=
  (checking_startCheck (reportOf fun _ => []) config files).1

/-- Every state that a schedule of a check reaches is one of a check. -/
theorem CheckReaches.checking {c : CheckRun} (h : CheckReaches config events files c) :
    Checking (reportOf events) config.checkNotices (checkedKeys files) c :=
  (checking_startCheck (reportOf events) config files).2.1.reaches h

/-- A check that has ended was one up to its last state, with a summary of every document. -/
theorem CheckEnds.checking {r : CheckReport} (h : CheckEnds config events files r) :
    ∃ c, Checking (reportOf events) config.checkNotices (checkedKeys files) c ∧
      c.summaries.length = (checkedKeys files).length ∧ r = concludeCheck c.summaries c.service := by
  obtain ⟨c, hreach, hdone, hr⟩ := h
  exact ⟨c, hreach.checking, hdone.trans (startCheck_fst config files), hr⟩

theorem mem_checkedKeys {key : DocumentKey} : key ∈ checkedKeys files ↔ key.path ∈ files := by
  rw [checkedKeys, DocumentKey.mem_sortDistinct, List.mem_map]
  constructor
  · rintro ⟨file, hfile, rfl⟩
    exact hfile
  · intro hpath
    exact ⟨key.path, hpath, rfl⟩

/-- The files of a check matter as a set: repetitions and their order do not. -/
theorem checkedKeys_eq_of_mem_iff {files' : List String} (h : ∀ file, file ∈ files' ↔ file ∈ files) :
    checkedKeys files' = checkedKeys files :=
  DocumentKey.sortDistinct_eq_of_mem_iff fun _ => by simp only [List.mem_map, h]

/-- What a check ends with, but for the order of the notices. -/
theorem CheckEnds.report_eq {r : CheckReport} (h : CheckEnds config events files r) :
    r.documents = ((checkedKeys files).map fun key => (reportOf events key).summary key) ∧
    r.status = statusOf ((checkedKeys files).flatMap fun key => (reportOf events key).diagnostics) ∧
    ∃ order : List DocumentKey, order.Perm (checkedKeys files) ∧
      r.notices = config.checkNotices ++ order.flatMap fun key => (reportOf events key).notices := by
  obtain ⟨c, hchecking, hdone, rfl⟩ := h.checking
  exact ⟨hchecking.documents_eq (DocumentKey.pairwise_sortDistinct _) hdone,
    hchecking.status_eq hdone, c.applied, hchecking.applied_perm hdone, hchecking.notices⟩

/-- The exit code of a check, from the reports of its documents alone. -/
theorem CheckEnds.exitCode_eq {r : CheckReport} (h : CheckEnds config events files r)
    (json : Bool) :
    (r.complete json).exitCode =
      if ∃ key ∈ checkedKeys files, (reportOf events key).outcome ≠ .exited 0 ∨
        (∃ d ∈ (reportOf events key).diagnostics, d.severity = .error) ∨
        blockNotices key (events key) ≠ [] then 1 else 0 := by
  obtain ⟨c, hchecking, hdone, rfl⟩ := h.checking
  have hfailure := hchecking.isFailure_iff (DocumentKey.pairwise_sortDistinct _) hdone
  exact if_congr hfailure rfl rfl

/-- **No schedule goes on for ever**, since every step brings the end nearer. -/
theorem exists_not_step {f : Nat → CheckRun} (hfirst : CheckReaches config events files (f 0)) :
    ∃ n, ¬ (f n).Step (reportOf events) (startCheck config files).1 (f (n + 1)) := by
  by_contra hforever
  simp only [not_exists, not_not] at hforever
  have hreach : ∀ n, CheckReaches config events files (f n) := by
    intro n
    induction n with
    | zero => exact hfirst
    | succ n ih => exact Relation.ReflTransGen.tail ih (hforever n)
  -- each step uses up one of the steps that remain.
  have hbound : ∀ n, (f n).remaining + n ≤ (f 0).remaining := by
    intro n
    induction n with
    | zero => exact le_rfl
    | succ n ih =>
      have hlt := (hreach n).checking.remaining_lt (hforever n)
      omega
  have hlast := hbound ((f 0).remaining + 1)
  omega

/-- **A check does not depend on the schedule.**

It waits for one run for each distinct document. No schedule goes on for ever, and one that cannot go
on has received all runs. What a check ends with is then determined by the documents and by what
their runs report, except for the order of the notices, in which those of a document stay together;
so it is the same for any order of the files. The check as it is run is one of the schedules. -/
theorem check_independent_of_schedule (config : Config) (files : List String) :
    (checkedKeys files).Pairwise (· < ·) ∧
    (∀ key, key ∈ checkedKeys files ↔ key.path ∈ files) ∧
    (startCheck config files).1 = (checkedKeys files).length ∧
    (∀ {σ : Type} (m : Machine σ) (s : σ),
      ∃ events, CheckEnds config events files (check m s config files).1) ∧
    ∀ events : DocumentKey → List RunEvent,
      (∀ f : Nat → CheckRun, CheckReaches config events files (f 0) →
        ∃ n, ¬ (f n).Step (reportOf events) (startCheck config files).1 (f (n + 1))) ∧
      (∀ c, CheckReaches config events files c →
        (∀ c', ¬ c.Step (reportOf events) (startCheck config files).1 c') →
        CheckEnds config events files (concludeCheck c.summaries c.service)) ∧
      (∀ r, CheckEnds config events files r →
        r.documents = ((checkedKeys files).map fun key => (reportOf events key).summary key) ∧
        r.status =
          statusOf ((checkedKeys files).flatMap fun key => (reportOf events key).diagnostics) ∧
        ∀ json, (r.complete json).exitCode =
          if ∃ key ∈ checkedKeys files, (reportOf events key).outcome ≠ .exited 0 ∨
            (∃ d ∈ (reportOf events key).diagnostics, d.severity = .error) ∨
            blockNotices key (events key) ≠ [] then 1 else 0) ∧
      ∀ files' r r', (∀ file, file ∈ files' ↔ file ∈ files) →
        CheckEnds config events files r → CheckEnds config events files' r' →
        r'.documents = r.documents ∧
        (r'.complete false).stdout = (r.complete false).stdout ∧
        r'.status = r.status ∧
        (∀ json, (r'.complete json).exitCode = (r.complete json).exitCode) ∧
        ∃ order order' : List DocumentKey, order.Perm (checkedKeys files) ∧ order'.Perm order ∧
          r.notices =
            config.checkNotices ++ (order.flatMap fun key => (reportOf events key).notices) ∧
          r'.notices =
            config.checkNotices ++ order'.flatMap fun key => (reportOf events key).notices := by
  refine ⟨DocumentKey.pairwise_sortDistinct _, fun key => mem_checkedKeys,
    startCheck_fst config files, ?_, fun events => ⟨fun f hfirst => exists_not_step hfirst, ?_, ?_, ?_⟩⟩
  · intro σ m s
    obtain ⟨events, c, hreach, hdone, hreport⟩ := check_is_course m s config files
    rw [← startCheck_fst config files] at hreach hdone
    exact ⟨events, c, hreach, hdone, hreport⟩
  -- a check that can take no step has all its summaries: as long as one is missing, there is a
  -- step.
  · intro c hreach hstuck
    refine ⟨c, hreach, ?_, rfl⟩
    rw [startCheck_fst] at hstuck ⊢
    have hlength := hreach.checking.split.length_eq
    have happlied : c.applied.length = c.summaries.length := List.length_map _
    simp only [List.length_append] at hlength
    by_contra hmissing
    obtain ⟨c', hstep⟩ := hreach.checking.exists_step (by omega)
    exact hstuck c' hstep
  · intro r hends
    exact ⟨hends.report_eq.1, hends.report_eq.2.1, hends.exitCode_eq⟩
  -- the files of both checks are the same set, so both are compared with the same documents.
  · intro files' r r' hfiles hends hends'
    have hkeys := checkedKeys_eq_of_mem_iff hfiles
    obtain ⟨hdocuments, hstatus, order, horder, hnotices⟩ := hends.report_eq
    obtain ⟨hdocuments', hstatus', order', horder', hnotices'⟩ := hends'.report_eq
    have hexit := hends'.exitCode_eq
    rw [hkeys] at hdocuments' hstatus' horder'
    simp only [hkeys] at hexit
    have hsame : r'.documents = r.documents := hdocuments'.trans hdocuments.symm
    refine ⟨hsame, ?_, hstatus'.trans hstatus.symm, ?_, order, order', horder,
      horder'.trans horder.symm, hnotices, hnotices'⟩
    · show asLines (r'.documents.flatMap _) = asLines (r.documents.flatMap _)
      rw [hsame]
    · intro json
      rw [hexit json, hends.exitCode_eq json]

/-- A file that is named twice is checked once, and the order of the files does not matter. -/
theorem check_of_repeated_file :
    checkedKeys ["b.ksp", "a.ksp", "b.ksp"] = [⟨"a.ksp"⟩, ⟨"b.ksp"⟩] ∧
    ∃ events r, CheckEnds {} events ["b.ksp", "a.ksp", "b.ksp"] r ∧
      r.documents.map RunSummary.document = [⟨"a.ksp"⟩, ⟨"b.ksp"⟩] ∧
      ∀ r', CheckEnds {} events ["a.ksp", "b.ksp"] r' →
        r'.documents = r.documents ∧ r'.status = r.status ∧
          ∀ json, (r'.complete json).exitCode = (r.complete json).exitCode := by
  have hkeys : checkedKeys ["b.ksp", "a.ksp", "b.ksp"] = [⟨"a.ksp"⟩, ⟨"b.ksp"⟩] := by
    refine DocumentKey.eq_of_pairwise_of_mem_iff (DocumentKey.pairwise_sortDistinct _)
      (by decide +kernel) fun key => mem_checkedKeys.trans ?_
    cases key
    simp only [List.mem_cons, List.not_mem_nil, or_false, DocumentKey.mk.injEq]
    tauto
  -- a machine whose programs write nothing and exit with code 0.
  let quiet : Machine Unit :=
    { fileContent := fun _ _ => .error .missing
      createScratch := fun s => (.error "", s)
      removeScratch := fun s _ => s
      start := fun s _ => (.ok {}, s) }
  obtain ⟨-, -, -, hcheck, hevery⟩ :=
    check_independent_of_schedule {} ["b.ksp", "a.ksp", "b.ksp"]
  obtain ⟨events, hends⟩ := hcheck quiet ()
  obtain ⟨-, -, hone, htwo⟩ := hevery events
  refine ⟨hkeys, events, _, hends, ?_, ?_⟩
  · rw [(hone _ hends).1, hkeys]
    rfl
  · intro r' hends'
    obtain ⟨hdocuments, -, hstatus, hexit, -⟩ :=
      htwo ["a.ksp", "b.ksp"] _ r' (by simp) hends hends'
    exact ⟨hdocuments, hstatus, hexit⟩

end Ends

end KspWorkbench
