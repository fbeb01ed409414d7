import KspWorkbench.Proofs.Command.Schedule
import KspWorkbench.Proofs.Text.Utf8

/-!
# What a snapshot shows

Sessions are found by their document and come in an order that means nothing. A snapshot puts them
into an order of its own, in which no two documents are alike, and so it shows what was published
and nothing else.

* **`Registry.published`** — what a registry holds for a snapshot: the diagnostics by document.
* **`DocumentDiagnostics.Before`** — the order of a snapshot, in which distinct documents differ.
* **`ListsPublished`** — which documents a snapshot has to list, and how.
* **`ListsPublished.unique`** — there is only one such list.
* **`Service.nodup_keys_performAll`** — the sessions of a service have distinct documents.
* **`snapshot_canonical`** — a snapshot is that list, whatever the order of the sessions.
-/

namespace KspWorkbench

/-! ## §1 — what a registry holds -/

namespace Registry

/-- With one session for each document, the entries are what is found under the keys. -/
theorem mem_sessions_iff {r : Registry} (hkeys : (r.sessions.map Prod.fst).Nodup)
    {key : DocumentKey} {session : Session} :
    (key, session) ∈ r.sessions ↔ r.get? key = some session := by
  refine ⟨get?_of_mem hkeys, fun h => ?_⟩
  obtain ⟨before, after, hsplit, -⟩ := List.lookup_eq_some_iff.mp h
  rw [hsplit]
  simp

/-- What is published does not depend on the order of the sessions. -/
theorem published_of_perm {r : Registry} (hkeys : (r.sessions.map Prod.fst).Nodup)
    {order : List (DocumentKey × Session)} (horder : order.Perm r.sessions) (key : DocumentKey) :
    ({ r with sessions := order } : Registry).published key = r.published key := by
  have hkeys' : (order.map Prod.fst).Nodup := (horder.map Prod.fst).nodup_iff.mpr hkeys
  have hget : ({ r with sessions := order } : Registry).get? key = r.get? key := by
    refine Option.ext fun session => ?_
    rw [← mem_sessions_iff hkeys, ← mem_sessions_iff hkeys']
    exact horder.mem_iff
  rw [published, hget, published]

end Registry

/-! ## §2 — the order of documents -/

namespace DocumentDiagnostics

/-- Documents with errors come before those without, and else the keys decide. -/
def Before (a b : DocumentDiagnostics) : Prop :=
  a.hasError = true ∧ b.hasError = false ∨ a.hasError = b.hasError ∧ a.document < b.document

theorem hasError_iff {d : DocumentDiagnostics} :
    d.hasError = true ↔ ∃ x ∈ d.diagnostics, x.severity = .error := by
  simp [hasError, Severity.isError]

theorem le_iff {a b : DocumentDiagnostics} :
    a.le b = true ↔ a.hasError = true ∧ b.hasError = false ∨
      a.hasError = b.hasError ∧ a.document.le b.document = true := by
  unfold le
  cases a.hasError <;> cases b.hasError <;> simp

theorem le_total (a b : DocumentDiagnostics) : (a.le b || b.le a) = true := by
  have hkeys : a.document.le b.document = true ∨ b.document.le a.document = true := by
    rw [← Bool.or_eq_true]
    exact DocumentKey.le_total a.document b.document
  rw [Bool.or_eq_true, le_iff, le_iff]
  cases a.hasError <;> cases b.hasError <;> simp [hkeys]

theorem le_trans (a b c : DocumentDiagnostics) (hab : a.le b = true) (hbc : b.le c = true) :
    a.le c = true := by
  rw [le_iff] at *
  rcases hab with ⟨ha, hb⟩ | ⟨hab, hkeys⟩
  · rcases hbc with ⟨hb', -⟩ | ⟨hbc, -⟩
    · rw [hb] at hb'
      cases hb'
    · exact Or.inl ⟨ha, hbc ▸ hb⟩
  · rcases hbc with ⟨hb, hc⟩ | ⟨hbc, hkeys'⟩
    · exact Or.inl ⟨hab ▸ hb, hc⟩
    · exact Or.inr ⟨hab.trans hbc, DocumentKey.le_trans _ _ _ hkeys hkeys'⟩

/-- Different documents are strictly ordered. -/
theorem before_of_le {a b : DocumentDiagnostics} (h : a.le b = true)
    (hne : a.document ≠ b.document) : a.Before b := by
  rcases le_iff.mp h with herrors | ⟨hsame, hkeys⟩
  · exact Or.inl herrors
  · exact Or.inr ⟨hsame, DocumentKey.lt_iff.mpr ⟨hkeys, hne⟩⟩

theorem Before.asymm {a b : DocumentDiagnostics} (hab : a.Before b) : ¬ b.Before a := by
  rintro (⟨hb, ha⟩ | ⟨hsame, hba⟩)
  · rcases hab with ⟨ha', -⟩ | ⟨hsame, -⟩
    · rw [ha] at ha'
      cases ha'
    · rw [ha, hb] at hsame
      cases hsame
  · rcases hab with ⟨ha, hb⟩ | ⟨-, hab⟩
    · rw [ha, hb] at hsame
      cases hsame
    · obtain ⟨hle, hne⟩ := DocumentKey.lt_iff.mp hab
      exact hne (DocumentKey.le_antisymm hle (DocumentKey.lt_iff.mp hba).1)

theorem Before.ne {a b : DocumentDiagnostics} (hab : a.Before b) : a ≠ b := by
  rintro rfl
  exact hab.asymm hab

end DocumentDiagnostics

/-! ## §3 — the list of a snapshot -/

/-- The keys of the documents increase, by their bytes. -/
def InByteOrder (documents : List DocumentDiagnostics) : Prop :=
  documents.Pairwise fun a b => Utf8.encode a.document.path < Utf8.encode b.document.path

/-- The documents with diagnostics are listed, each one once and with all that was published for it:
first those with an error and then the others, both in the order of their keys. -/
structure ListsPublished (published : DocumentKey → List Diagnostic)
    (documents : List DocumentDiagnostics) : Prop where
  mem : ∀ d, d ∈ documents ↔ d.diagnostics ≠ [] ∧ d.diagnostics = published d.document
  once : (documents.map DocumentDiagnostics.document).Nodup
  groups : ∃ faulty others, documents = faulty ++ others ∧
    (∀ d ∈ faulty, ∃ x ∈ d.diagnostics, x.severity = .error) ∧
    (∀ d ∈ others, ∀ x ∈ d.diagnostics, x.severity ≠ .error) ∧
    InByteOrder faulty ∧ InByteOrder others

namespace ListsPublished

variable {published : DocumentKey → List Diagnostic}
  {documents documents' : List DocumentDiagnostics}

theorem pairwise (h : ListsPublished published documents) :
    documents.Pairwise DocumentDiagnostics.Before := by
  obtain ⟨faulty, others, rfl, hfaulty, hothers, horder, horder'⟩ := h.groups
  have hno : ∀ d ∈ others, d.hasError = false := by
    intro d hd
    rw [← Bool.not_eq_true, DocumentDiagnostics.hasError_iff]
    rintro ⟨x, hx, herror⟩
    exact hothers d hd x hx herror
  have hyes : ∀ d ∈ faulty, d.hasError = true :=
    fun d hd => DocumentDiagnostics.hasError_iff.mpr (hfaulty d hd)
  refine List.pairwise_append.mpr ⟨?_, ?_, ?_⟩
  · refine horder.imp_of_mem fun {a b} ha hb hlt => Or.inr ⟨?_, Utf8.encode_lt_encode_iff.mp hlt⟩
    rw [hyes a ha, hyes b hb]
  · refine horder'.imp_of_mem fun {a b} ha hb hlt => Or.inr ⟨?_, Utf8.encode_lt_encode_iff.mp hlt⟩
    rw [hno a ha, hno b hb]
  · exact fun a ha b hb => Or.inl ⟨hyes a ha, hno b hb⟩

/-- **There is one such list only.** -/
theorem unique (h : ListsPublished published documents)
    (h' : ListsPublished published documents') : documents = documents' := by
  have hnodup : documents.Nodup := h.pairwise.imp fun hbefore => hbefore.ne
  have hnodup' : documents'.Nodup := h'.pairwise.imp fun hbefore => hbefore.ne
  have hperm : documents.Perm documents' :=
    (List.perm_ext_iff_of_nodup hnodup hnodup').mpr fun d => by rw [h.mem, h'.mem]
  refine hperm.eq_of_pairwise ?_ h.pairwise h'.pairwise
  intro a b _ _ hab hba
  exact absurd hba hab.asymm

end ListsPublished

/-- A list in the order of a snapshot has its documents with errors in front. -/
theorem exists_groups {documents : List DocumentDiagnostics}
    (h : documents.Pairwise DocumentDiagnostics.Before) :
    ∃ faulty others, documents = faulty ++ others ∧
      (∀ d ∈ faulty, ∃ x ∈ d.diagnostics, x.severity = .error) ∧
      (∀ d ∈ others, ∀ x ∈ d.diagnostics, x.severity ≠ .error) ∧
      InByteOrder faulty ∧ InByteOrder others := by
  have hfaulty : ∀ d ∈ documents.takeWhile (·.hasError), d.hasError = true :=
    List.all_eq_true.mp List.all_takeWhile
  have hothers : ∀ d ∈ documents.dropWhile (·.hasError), d.hasError = false := by
    have hrest := h.sublist (List.dropWhile_sublist (·.hasError))
    cases hdrop : documents.dropWhile (·.hasError) with
    | nil => simp
    | cons first rest =>
      -- no document with an error comes after one without.
      have hfirst : first.hasError = false := by
        have hhead := List.head?_dropWhile_not (·.hasError) documents
        simpa [hdrop] using hhead
      rw [hdrop] at hrest
      intro d hd
      rcases List.mem_cons.mp hd with rfl | hmem
      · exact hfirst
      · rcases List.rel_of_pairwise_cons hrest hmem with ⟨hyes, -⟩ | ⟨hsame, -⟩
        · rw [hfirst] at hyes
          cases hyes
        · rw [← hsame, hfirst]
  have horder : ∀ group, group.Sublist documents → (∀ a ∈ group, ∀ b ∈ group,
      a.hasError = b.hasError) → InByteOrder group := by
    intro group hsub hsame
    refine (h.sublist hsub).imp_of_mem fun {a b} ha hb hbefore => ?_
    rcases hbefore with ⟨hyes, hno⟩ | ⟨-, hlt⟩
    · rw [hsame a ha b hb, hno] at hyes
      cases hyes
    · exact Utf8.encode_lt_encode_iff.mpr hlt
  refine ⟨documents.takeWhile (·.hasError), documents.dropWhile (·.hasError),
    List.takeWhile_append_dropWhile.symm, ?_, ?_, ?_, ?_⟩
  · exact fun d hd => DocumentDiagnostics.hasError_iff.mp (hfaulty d hd)
  · intro d hd x hx herror
    have hyes := DocumentDiagnostics.hasError_iff.mpr ⟨x, hx, herror⟩
    rw [hothers d hd] at hyes
    cases hyes
  · refine horder _ (List.takeWhile_sublist _) fun a ha b hb => ?_
    rw [hfaulty a ha, hfaulty b hb]
  · refine horder _ (List.dropWhile_sublist _) fun a ha b hb => ?_
    rw [hothers a ha, hothers b hb]

/-! ## §4 — the snapshot of a registry -/

namespace Registry

variable {r : Registry}

/-- A snapshot lists the documents with diagnostics, and for each what is published. -/
theorem mem_snapshot_iff (hkeys : (r.sessions.map Prod.fst).Nodup) {d : DocumentDiagnostics} :
    d ∈ r.snapshot.documents ↔ d.diagnostics ≠ [] ∧ d.diagnostics = r.published d.document := by
  have hmem : d ∈ r.snapshot.documents ↔
      (∃ session, (d.document, session) ∈ r.sessions ∧ session.diagnostics = d.diagnostics) ∧
        d.diagnostics ≠ [] := by
    obtain ⟨key, diagnostics⟩ := d
    simp [snapshot, List.mem_mergeSort]
  rw [hmem, and_comm]
  refine and_congr_right fun hsome => ?_
  constructor
  · rintro ⟨session, hsession, hdiagnostics⟩
    rw [published_of_get? (get?_of_mem hkeys hsession), hdiagnostics]
  · intro hpublished
    -- a document without a session has nothing published.
    cases hget : r.get? d.document with
    | none =>
      rw [published_of_none hget] at hpublished
      exact absurd hpublished hsome
    | some session =>
      rw [published_of_get? hget] at hpublished
      exact ⟨session, (mem_sessions_iff hkeys).mpr hget, hpublished.symm⟩

theorem nodup_snapshot (hkeys : (r.sessions.map Prod.fst).Nodup) :
    (r.snapshot.documents.map DocumentDiagnostics.document).Nodup := by
  have hperm : (r.snapshot.documents.map DocumentDiagnostics.document).Perm _ :=
    (List.mergeSort_perm _ _).map _
  refine hperm.nodup_iff.mpr (hkeys.sublist ?_)
  refine (List.filter_sublist.map DocumentDiagnostics.document).trans ?_
  rw [List.map_map]
  exact List.Sublist.refl _

/-- The list of a snapshot is one of what is published. -/
theorem listsPublished_snapshot (hkeys : (r.sessions.map Prod.fst).Nodup) :
    ListsPublished r.published r.snapshot.documents := by
  have honce := nodup_snapshot hkeys
  refine ⟨fun d => mem_snapshot_iff hkeys, honce, exists_groups ?_⟩
  have hsorted : r.snapshot.documents.Pairwise fun a b => a.le b = true :=
    List.pairwise_mergeSort DocumentDiagnostics.le_trans DocumentDiagnostics.le_total _
  have hdistinct := List.pairwise_map.mp honce
  exact (hsorted.and hdistinct).imp fun ⟨hle, hne⟩ => DocumentDiagnostics.before_of_le hle hne

/-- **A snapshot is told by what is published**, and by nothing else of the sessions. -/
theorem snapshot_eq_of_published {r' : Registry} (hkeys : (r.sessions.map Prod.fst).Nodup)
    (hkeys' : (r'.sessions.map Prod.fst).Nodup)
    (h : ∀ key, r'.published key = r.published key) : r'.snapshot = r.snapshot := by
  have hlists := listsPublished_snapshot hkeys'
  rw [funext h] at hlists
  exact congrArg Snapshot.mk (hlists.unique (listsPublished_snapshot hkeys))

end Registry

namespace Snapshot

theorem total_eq (s : Snapshot) :
    s.total = s.count .error + s.count .warning + s.count .information := by
  unfold total count
  induction s.documents.flatMap DocumentDiagnostics.diagnostics with
  | nil => rfl
  | cons x xs ih =>
    simp only [List.length_cons, List.countP_cons, ih]
    cases x.severity <;> simp <;> omega

theorem status_eq_empty_iff (s : Snapshot) : s.status = "" ↔ s.documents = [] := by
  unfold status isEmpty
  cases s.documents <;> simp

end Snapshot

/-! ## §5 — the sessions of a service -/

namespace Registry

/-- Asking for a session adds an entry only when there is none. -/
theorem nodup_keys_getOrCreate {r : Registry} (hkeys : (r.sessions.map Prod.fst).Nodup)
    (key : DocumentKey) : ((r.getOrCreate key).2.sessions.map Prod.fst).Nodup := by
  cases hget : r.get? key with
  | some session =>
    rw [getOrCreate_of_some hget]
    exact hkeys
  | none =>
    rw [getOrCreate_of_none hget]
    -- nothing was found under the key, so it is not in the list.
    have hnew : key ∉ r.sessions.map Prod.fst := by
      intro hmem
      obtain ⟨⟨k, session⟩, hsession, rfl⟩ := List.mem_map.mp hmem
      rw [get?_of_mem hkeys hsession] at hget
      cases hget
    simp only [List.map_append, List.map_cons, List.map_nil]
    refine List.nodup_append.mpr ⟨hkeys, by simp, ?_⟩
    intro other hother k hk
    rw [List.mem_singleton.mp hk]
    rintro rfl
    exact hnew hother

theorem nodup_keys_modify {r : Registry} (hkeys : (r.sessions.map Prod.fst).Nodup)
    (key : DocumentKey) (change : Session → Session) :
    ((r.modify key change).sessions.map Prod.fst).Nodup := by
  rw [keys_modify]
  exact hkeys

theorem keys_resumeChanged (r : Registry) (executable : String) :
    (r.resumeChanged executable).sessions.map Prod.fst = r.sessions.map Prod.fst := by
  rw [resumeChanged, List.map_map]
  rfl

theorem nodup_keys_dispose {r : Registry} (hkeys : (r.sessions.map Prod.fst).Nodup)
    (key : DocumentKey) : ((r.dispose key).sessions.map Prod.fst).Nodup :=
  hkeys.sublist (List.filter_sublist.map _)

end Registry

namespace Service

/-- Every move keeps one session for each document. -/
theorem nodup_keys_play {s : Service} (hkeys : (s.registry.sessions.map Prod.fst).Nodup)
    (m : Move) : ((s.play m).registry.sessions.map Prod.fst).Nodup := by
  -- entries are added by requests alone, and for documents that have none.
  cases m with
  | reconfigure compiler settings =>
    simp only [play, reconfigure]
    split
    · simp only [Registry.keys_resumeChanged]
      exact hkeys
    · exact hkeys
  | request key delay =>
    simp only [play, validate]
    split
    · exact Registry.nodup_keys_getOrCreate hkeys key
    · exact Registry.nodup_keys_modify (Registry.nodup_keys_getOrCreate hkeys key) _ _
  | dispose key => exact Registry.nodup_keys_dispose hkeys key
  | disposeAll => exact List.nodup_nil
  | fire key =>
    rw [play]
    rcases fire_cases s key with hfire | ⟨_, _, -, -, ⟨-, hfire⟩ | ⟨-, hfire⟩⟩ <;> rw [hfire]
    · exact hkeys
    · exact Registry.nodup_keys_modify hkeys _ _
    · exact Registry.nodup_keys_modify hkeys _ _
  | complete id report =>
    rw [play, complete_frame]
    exact hkeys
  | applyNext =>
    rw [play]
    cases hready : s.results.ready with
    | nil =>
      rw [applyNext_of_empty hready]
      exact hkeys
    | cons r rest =>
      rcases applyNext_of_ready hready with ⟨-, hnext⟩ | ⟨_, -, -, hnext⟩ <;> rw [hnext]
      · exact hkeys
      · exact Registry.nodup_keys_modify hkeys _ _
  | _ => exact hkeys

/-- **The sessions of a service have distinct documents**, whatever happened to it. -/
theorem nodup_keys_performAll (compiler : Options) (settings : Settings) (actions : List Action) :
    (((create compiler settings).performAll actions).registry.sessions.map Prod.fst).Nodup :=
  history_induction (motive := fun _ s => (s.registry.sessions.map Prod.fst).Nodup)
    (by rw [registry_create]; exact List.nodup_nil) (fun _ _ m h => nodup_keys_play h m) actions

end Service

/-! ## §6 — snapshots are canonical -/

/-- **A snapshot is canonical.** Let a registry have one session for a document at most, as that of
a service has (`Service.nodup_keys_performAll`). Its snapshot lists the documents for which
diagnostics are published, each once and with all of them, those with an error first, and in both
groups in the order of the bytes of the keys. There is no other such list: so the order of the
sessions does not count, nor anything else but what is published. The total is the sum over the
severities, and the status is empty exactly when nothing is published. -/
theorem snapshot_canonical {r : Registry} (hkeys : (r.sessions.map Prod.fst).Nodup) :
    ListsPublished r.published r.snapshot.documents ∧
    (∀ documents, ListsPublished r.published documents → documents = r.snapshot.documents) ∧
    (∀ order : List (DocumentKey × Session), order.Perm r.sessions →
      ({ r with sessions := order } : Registry).snapshot = r.snapshot) ∧
    (∀ r' : Registry, (r'.sessions.map Prod.fst).Nodup →
      (∀ key, r'.published key = r.published key) → r'.snapshot = r.snapshot) ∧
    r.snapshot.total =
      r.snapshot.count .error + r.snapshot.count .warning + r.snapshot.count .information ∧
    (r.snapshot.status = "" ↔ ∀ key, r.published key = []) := by
  have hlists := Registry.listsPublished_snapshot hkeys
  refine ⟨hlists, fun documents h => h.unique hlists, ?_,
    fun r' hkeys' h => Registry.snapshot_eq_of_published hkeys hkeys' h, r.snapshot.total_eq, ?_⟩
  · intro order horder
    refine Registry.snapshot_eq_of_published hkeys ?_ (Registry.published_of_perm hkeys horder)
    exact (horder.map Prod.fst).nodup_iff.mpr hkeys
  -- the status is empty when the list is, and the list has every document with diagnostics.
  · rw [Snapshot.status_eq_empty_iff, List.eq_nil_iff_forall_not_mem]
    constructor
    · intro hnone key
      by_contra hsome
      exact hnone ⟨key, r.published key⟩ ((hlists.mem _).mpr ⟨hsome, rfl⟩)
    · intro hnone d hd
      obtain ⟨hsome, hpublished⟩ := (hlists.mem d).mp hd
      exact hsome (hpublished.trans (hnone d.document))

/-- Three documents with diagnostics and one without, in two orders. By its bytes the letter with an
accent comes last, but its document has an error. -/
theorem snapshot_of_four_sessions :
    let warning : Diagnostic := ⟨.warning, "unused variable", 3, compilerSource⟩
    let error : Diagnostic := ⟨.error, "unknown variable", 7, compilerSource⟩
    let b : DocumentKey × Session := (⟨"b.ksp"⟩, { id := 1, diagnostics := [warning] })
    let e : DocumentKey × Session := (⟨"é.ksp"⟩, { id := 2, diagnostics := [warning, error] })
    let c : DocumentKey × Session := (⟨"c.ksp"⟩, { id := 3 })
    let z : DocumentKey × Session := (⟨"z.ksp"⟩, { id := 4, diagnostics := [error] })
    let r : Registry := { sessions := [b, e, c, z], lastId := 4 }
    (r.sessions.map Prod.fst).Nodup ∧
    ({ r with sessions := [z, e, b, c] } : Registry).snapshot = r.snapshot ∧
    r.snapshot.documents =
      [⟨⟨"z.ksp"⟩, [error]⟩, ⟨⟨"é.ksp"⟩, [warning, error]⟩, ⟨⟨"b.ksp"⟩, [warning]⟩] ∧
    r.snapshot.status ≠ "" := by
  intro warning error b e c z r
  have hkeys : (r.sessions.map Prod.fst).Nodup := by decide
  obtain ⟨-, -, horder, -, -, hstatus⟩ := snapshot_canonical hkeys
  have hsame := horder [z, e, b, c] (by decide)
  refine ⟨hkeys, hsame, ?_, ?_⟩
  · rw [← hsame]
    exact List.mergeSort_of_pairwise (by decide)
  · rw [ne_eq, hstatus]
    intro hnone
    cases hnone ⟨"b.ksp"⟩

end KspWorkbench
