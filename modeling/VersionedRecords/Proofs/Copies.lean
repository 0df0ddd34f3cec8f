import VersionedRecords.Proofs.Exactness
import VersionedRecords.Proofs.Sharing

/-!
Copies cannot be told apart.

Two versions that share parts are compared without a look into these parts; two copies of them that
share nothing are compared throughout.  On plain snapshots both comparisons find the same, whether
they are of whole records, of single fields, of optional sub-records or of maps.  What is found is a
matter of the content of the current version, and here it is shown to be a matter of the content of
the reference as well.
-/

namespace VersionedRecords

namespace Snapshot

variable {models : String → Layout}

/-! ### Only the content of the reference counts -/

/-- The difference to a record does not depend on where the parts of what it is compared with were
put together. -/
def ReadsContent (models : String → Layout) (s : Snapshot) : Prop :=
  ∀ intent base, IsBase models s.layout base →
    s.diffFrom intent (base.map bareValue) = s.diffFrom intent base

theorem forall_mem_map_bare {r : Option Snapshot}
    (hr : ∀ t ∈ r, t.Conforms models ∧ t.isPlain = true) :
    ∀ t ∈ r.map bare, t.Conforms models ∧ t.isPlain = true := by
  intro _ hmap
  obtain ⟨t, ht, rfl⟩ := Option.map_eq_some_iff.1 hmap
  rw [conforms_bare, isPlain_bare]
  exact hr t ht

theorem recordChange?_map_bare {r s : Option Snapshot}
    (hr : ∀ t ∈ r, t.Conforms models ∧ t.isPlain = true) (hs : ∀ t ∈ s, t.ReadsContent models) :
    recordChange? (r.map bare) s = recordChange? r s := by
  cases r with
  | none => rfl
  | some r =>
      obtain ⟨hconforms, hplain⟩ := hr r rfl
      cases s with
      | none => exact teardown_bare hconforms
      | some s =>
          by_cases hidentity : r.identity = s.identity
          · have hlayout : r.layout = s.layout := congrArg Identity.layout hidentity
            have hupdate := hs s rfl .update r.fields (isBase_fields hconforms hplain hlayout)
            simp [recordChange?, hidentity, fields_bare, hupdate]
          · simp [recordChange?, hidentity]

theorem entryDiff?_bareEntries {es : Keyed Snapshot} {e : Key × Snapshot}
    (hes : ∀ r, Keyed.find? e.1 es = some r → r.Conforms models ∧ r.isPlain = true)
    (he : e.2.ReadsContent models) : entryDiff? (bareEntries es) e = entryDiff? es e := by
  have hbare : ∀ r, Keyed.find? e.1 (bareEntries es) = some r →
      r.Conforms models ∧ r.isPlain = true := by
    rw [find?_bareEntries]
    exact forall_mem_map_bare hes
  have hintent : entryIntent ((Keyed.find? e.1 es).map bare) (some e.2) =
      entryIntent (Keyed.find? e.1 es) (some e.2) := by
    cases Keyed.find? e.1 es <;> rfl
  have hchange : recordChange? ((Keyed.find? e.1 es).map bare) (some e.2) =
      recordChange? (Keyed.find? e.1 es) (some e.2) :=
    recordChange?_map_bare hes fun t ht => by cases ht; exact he
  rw [entryDiff?_eq hbare, entryDiff?_eq hes, find?_bareEntries, hintent, hchange]

theorem forall_mem_bareEntries {es : Keyed Snapshot}
    (hes : ∀ e ∈ es, e.2.Conforms models ∧ e.2.isPlain = true) :
    ∀ e ∈ bareEntries es, e.2.Conforms models ∧ e.2.isPlain = true := by
  rw [bareEntries_eq_map, List.forall_mem_map]
  intro e he
  rw [conforms_bare, isPlain_bare]
  exact hes e he

theorem between_bareEntries_reference {es es' : Keyed Snapshot} (hes : Keyed.Ascending es)
    (hentries : ∀ e ∈ es, e.2.Conforms models ∧ e.2.isPlain = true)
    (ih : ∀ e ∈ es', e.2.ReadsContent models) :
    RecordEntryChange.between (bareEntries es) es' = RecordEntryChange.between es es' := by
  have hgone : ((bareEntries es).filter fun e => !Keyed.has e.1 es').filterMap entryTeardown? =
      (es.filter fun e => !Keyed.has e.1 es').filterMap entryTeardown? := by
    rw [bareEntries_eq_map, List.filter_map, List.filterMap_map]
    refine List.filterMap_congr fun e he => ?_
    have hteardown := teardown_bare (hentries e (List.mem_filter.1 he).1).1
    rw [Function.comp_apply, entryTeardown?, entryTeardown?, hteardown]
  have hthere : es'.filterMap (entryDiff? (bareEntries es)) = es'.filterMap (entryDiff? es) := by
    refine List.filterMap_congr fun e he => entryDiff?_bareEntries ?_ (ih e he)
    exact fun r hr => hentries (e.1, r) ((Keyed.mem_iff_find? hes e.1 r).2 hr)
  rw [between_eq_append, between_eq_append, hgone, hthere]

theorem diffValue_bareValue_reference {kind : FieldKind} {r v : Value Snapshot}
    (hr : ValueConforms models kind r) (hv : ValueConforms models kind v)
    (hplain : plainValue r = true)
    (ih : ∀ s ∈ v.records, s.Conforms models → s.ReadsContent models) :
    diffValue (bareValue r) v = diffValue r v := by
  cases kind with
  | scalar t =>
      obtain ⟨x, rfl, -⟩ := valueConforms_scalar.1 hr
      rw [bareValue]
  | attached t =>
      obtain ⟨x, rfl, -⟩ := valueConforms_attached.1 hr
      rw [bareValue]
  | nested m =>
      obtain ⟨r, rfl, hrecord⟩ := valueConforms_nested.1 hr
      obtain ⟨s, rfl, hs⟩ := valueConforms_nested.1 hv
      have hall : ∀ t ∈ r, t.Conforms models ∧ t.isPlain = true :=
        fun t ht => ⟨(hrecord t ht).2, plainValue_nested.1 hplain t ht⟩
      rw [bareValue_nested, diffValue_nested (forall_mem_map_bare hall), diffValue_nested hall,
        recordChange?_map_bare hall fun t ht =>
          ih t (by simpa [Value.records] using ht) (hs t ht).2]
  | keySet k =>
      obtain ⟨o, ms, rfl, hms⟩ := valueConforms_keySet.1 hr
      obtain ⟨o', ms', rfl, -⟩ := valueConforms_keySet.1 hv
      rw [bareValue, diffValue_keySet hms, diffValue_keySet hms]
  | valueMap k t =>
      obtain ⟨o, es, rfl, hes, -⟩ := valueConforms_valueMap.1 hr
      obtain ⟨o', es', rfl, -, -⟩ := valueConforms_valueMap.1 hv
      simp only [plainValue, List.all_eq_true] at hplain
      rw [bareValue, diffValue_valueMap hes hplain, diffValue_valueMap hes hplain]
  | modelMap k m =>
      obtain ⟨o, es, rfl, hes, hentries⟩ := valueConforms_modelMap.1 hr
      obtain ⟨o', es', rfl, -, hentries'⟩ := valueConforms_modelMap.1 hv
      have hall : ∀ e ∈ es, e.2.Conforms models ∧ e.2.isPlain = true :=
        fun e he => ⟨(hentries e he).2, plainValue_modelMap.1 hplain e he⟩
      have hbare := forall_mem_bareEntries hall
      rw [bareValue, diffValue_modelMap (ascending_bareEntries.2 hes) hbare,
        diffValue_modelMap hes hall, between_bareEntries_reference hes hall fun e he =>
          ih e.2 (List.mem_map_of_mem he) (hentries' e he).2]

theorem readsContent_of_conforms {s : Snapshot} (hs : s.Conforms models) :
    s.ReadsContent models := by
  induction s using Snapshot.induction with
  | step s ih =>
      intro intent base hbase
      -- the fields come first here, so that the base is what is gone through beside them
      have hvalues : List.zipWith (fun v r => diffValue r v) s.fields base =
          List.zipWith (fun v r => diffValue r v) s.fields (base.map bareValue) :=
        zipWith_eq_zipWith_map (conforms_iff.1 hs) hbase.conforms fun kind v r hv hr hvc hrc =>
          (diffValue_bareValue_reference hrc hvc (hbase.plain r hr) (ih v hv)).symm
      rw [diffFrom_eq, diffFrom_eq, List.zipWith_comm, ← hvalues, List.zipWith_comm]

/-! ### Copies -/

/-- Two records with the same content, both without the numbers that are not equal to themselves or
equal to another pattern of bits.  What parts they share, with each other or with other records, is
left open. -/
structure Copies (models : String → Layout) (s t : Snapshot) : Prop where
  conforms : s.Conforms models
  conforms_copy : t.Conforms models
  plain : s.isPlain = true
  plain_copy : t.isPlain = true
  same : s.same t = true

/-- Two values of one kind of field with the same content, in the same sense. -/
structure ValueCopies (models : String → Layout) (kind : FieldKind) (v w : Value Snapshot) :
    Prop where
  conforms : ValueConforms models kind v
  conforms_copy : ValueConforms models kind w
  plain : plainValue v = true
  plain_copy : plainValue w = true
  same : sameValue v w = true

theorem Copies.bare_eq {s t : Snapshot} (h : s.Copies models t) : s.bare = t.bare :=
  (same_iff_bare_eq h.plain h.plain_copy).1 h.same

theorem ValueCopies.bareValue_eq {kind : FieldKind} {v w : Value Snapshot}
    (h : ValueCopies models kind v w) : bareValue v = bareValue w := by
  refine (sameValue_iff (fun s hs => ?_) h.plain h.plain_copy).1 h.same
  exact sameIsBare_of_isPlain (isPlain_of_mem_records h.plain hs)

/-- Copies are copies as an optional sub-record too. -/
theorem Copies.nested {m : String} {s t : Snapshot} (h : s.Copies models t)
    (hlayout : s.layout = models m) :
    ValueCopies models (.nested m) (.nested (some s)) (.nested (some t)) where
  conforms := by
    refine valueConforms_nested.2 ⟨some s, rfl, ?_⟩
    rintro _ ⟨⟩
    exact ⟨hlayout, h.conforms⟩
  conforms_copy := by
    refine valueConforms_nested.2 ⟨some t, rfl, ?_⟩
    rintro _ ⟨⟩
    rw [← t.layout_bare, ← h.bare_eq, s.layout_bare]
    exact ⟨hlayout, h.conforms_copy⟩
  plain := h.plain
  plain_copy := h.plain_copy
  same := by
    rw [sameValue]
    exact h.same

theorem diffFrom_bare_map {r s : Snapshot} (hr : r.Conforms models) (hplain : r.isPlain = true)
    (hs : s.Conforms models) (hidentity : r.identity = s.identity) (intent : Intent) :
    s.bare.diffFrom intent (r.fields.map bareValue) = s.diffFrom intent r.fields := by
  have hlayout : r.layout = s.layout := congrArg Identity.layout hidentity
  have hbare : IsBase models s.layout (r.fields.map bareValue) := by
    rw [← fields_bare]
    exact isBase_fields (conforms_bare.2 hr) (r.isPlain_bare.trans hplain)
      (r.layout_bare.trans hlayout)
  rw [diffsByContent_of_conforms hs intent _ hbare,
    readsContent_of_conforms hs intent _ (isBase_fields hr hplain hlayout)]

theorem diffValue_bare {kind : FieldKind} {r v : Value Snapshot}
    (hr : ValueConforms models kind r) (hplain : plainValue r = true)
    (hv : ValueConforms models kind v) :
    diffValue (bareValue r) (bareValue v) = diffValue r v := by
  have hbare : ValueConforms models kind (bareValue r) :=
    (valueConforms_bareValue fun _ _ => conforms_bare).2 hr
  have hbareplain : plainValue (bareValue r) = true :=
    (plainValue_bareValue fun s _ => isPlain_bare s).trans hplain
  rw [diffValue_bareValue hbare hv hbareplain fun _ _ => diffsByContent_of_conforms,
    diffValue_bareValue_reference hr hv hplain fun _ _ => readsContent_of_conforms]

theorem between_bare {k : KeyType} {m : String} {o o' : Origin} {es es' : Keyed Snapshot}
    (hes : ValueConforms models (.modelMap k m) (.modelMap o es))
    (hplain : plainValue (.modelMap o es) = true)
    (hes' : ValueConforms models (.modelMap k m) (.modelMap o' es')) :
    RecordEntryChange.between (bareEntries es) (bareEntries es') =
      RecordEntryChange.between es es' := by
  obtain ⟨_, _, ⟨⟩, hasc, hentries⟩ := valueConforms_modelMap.1 hes
  obtain ⟨_, _, ⟨⟩, -, hentries'⟩ := valueConforms_modelMap.1 hes'
  have hall : ∀ e ∈ es, e.2.Conforms models ∧ e.2.isPlain = true :=
    fun e he => ⟨(hentries e he).2, plainValue_modelMap.1 hplain e he⟩
  rw [between_bareEntries (ascending_bareEntries.2 hasc) (forall_mem_bareEntries hall) fun e he =>
      diffsByContent_of_conforms (hentries' e he).2,
    between_bareEntries_reference hasc hall fun e he => readsContent_of_conforms (hentries' e he).2]

/-- Comparisons of copies find the same, whatever is shared on the one side and not on the other:
comparisons of records of one identity with any intent, of the values of a field, of optional
sub-records and of maps to sub-records. -/
theorem diff_eq_diff_of_copies :
    (∀ {a a' b b' : Snapshot}, a.Copies models a' → b.Copies models b' →
      a.identity = b.identity → ∀ intent, ∃ c,
        b.edit.diffAgainst intent a = .ok c ∧ b'.edit.diffAgainst intent a' = .ok c) ∧
    (∀ {kind : FieldKind} {r r' v v' : Value Snapshot}, ValueCopies models kind r r' →
      ValueCopies models kind v v' → diffValue r v = diffValue r' v') ∧
    (∀ {m : String} {r r' s s' : Option Snapshot},
      ValueCopies models (.nested m) (.nested r) (.nested r') →
      ValueCopies models (.nested m) (.nested s) (.nested s') →
      fieldChange? r s = fieldChange? r' s') ∧
    ∀ {k : KeyType} {m : String} {o p o' p' : Origin} {es cs es' cs' : Keyed Snapshot},
      ValueCopies models (.modelMap k m) (.modelMap o es) (.modelMap o' es') →
      ValueCopies models (.modelMap k m) (.modelMap p cs) (.modelMap p' cs') →
      RecordEntryChange.between es cs = RecordEntryChange.between es' cs' := by
  have hvalues : ∀ {kind : FieldKind} {r r' v v' : Value Snapshot},
      ValueCopies models kind r r' → ValueCopies models kind v v' →
      diffValue r v = diffValue r' v' := by
    intro kind r r' v v' hr hv
    rw [← diffValue_bare hr.conforms hr.plain hv.conforms, hr.bareValue_eq, hv.bareValue_eq,
      diffValue_bare hr.conforms_copy hr.plain_copy hv.conforms_copy]
  refine ⟨?records, hvalues, ?optional, ?maps⟩
  case records =>
    intro a a' b b' ha hb hidentity intent
    have hidentity' : a'.identity = b'.identity := by
      rw [← a'.identity_bare, ← ha.bare_eq, a.identity_bare, hidentity, ← b.identity_bare,
        hb.bare_eq, b'.identity_bare]
    have hfields : a.fields.map bareValue = a'.fields.map bareValue := (bare_eq_iff.1 ha.bare_eq).2
    have hdiff : b.diffFrom intent a.fields = b'.diffFrom intent a'.fields := by
      rw [← diffFrom_bare_map ha.conforms ha.plain hb.conforms hidentity, hfields, hb.bare_eq,
        diffFrom_bare_map ha.conforms_copy ha.plain_copy hb.conforms_copy hidentity']
    refine ⟨b.diffFrom intent a.fields, diffAgainst_edit hidentity intent, ?_⟩
    rw [hdiff]
    exact diffAgainst_edit hidentity' intent
  case optional =>
    intro m r r' s s' hr hs
    rw [fieldChange?, fieldChange?, hvalues hr hs]
  case maps =>
    intro k m o p o' p' es cs es' cs' hes hcs
    have hentries : bareEntries es = bareEntries es' := by
      simpa [bareValue] using hes.bareValue_eq
    have hcurrent : bareEntries cs = bareEntries cs' := by
      simpa [bareValue] using hcs.bareValue_eq
    rw [← between_bare hes.conforms hes.plain hcs.conforms, hentries, hcurrent,
      between_bare hes.conforms_copy hes.plain_copy hcs.conforms_copy]

end Snapshot

namespace Samples

/-- A node with a leaf below it, all its parts put together by one act of building. -/
def sapling (stamp : Nat) (label : String) : Snapshot :=
  ⟨node, .int 1, ⟨stamp, []⟩,
    [.scalar (.key (.text label)), .modelMap ⟨stamp, [1]⟩
      [(.int 7, ⟨node, .int 2, ⟨stamp, [0, 1]⟩,
        [.scalar (.key (.text "leaf")), .modelMap ⟨stamp, [1, 0, 1]⟩ []]⟩)]]⟩

theorem bare_sapling (stamp : Nat) (label : String) :
    (sapling stamp label).bare = (tree 1 label [(.int 7, tree 2 "leaf" [])]).bare := by
  simp [sapling, tree, Snapshot.bare_eq, Snapshot.bareValue, Snapshot.bareEntries_eq_map]

theorem copies_sapling (stamp stamp' : Nat) (label : String) :
    (sapling stamp label).Copies nodes (sapling stamp' label) := by
  have hconforms : ∀ stamp, (sapling stamp label).Conforms nodes := by
    intro stamp
    rw [← Snapshot.conforms_bare, bare_sapling, Snapshot.conforms_bare]
    refine conforms_tree (List.pairwise_singleton _ _) ?_
    intro e he
    obtain rfl := List.mem_singleton.1 he
    exact ⟨rfl, conforms_tree List.Pairwise.nil (by simp)⟩
  have hplain : ∀ stamp, (sapling stamp label).isPlain = true := by
    intro stamp
    rw [← Snapshot.isPlain_bare, bare_sapling, Snapshot.isPlain_bare]
    refine isPlain_tree ?_
    intro e he
    obtain rfl := List.mem_singleton.1 he
    exact isPlain_tree (by simp)
  refine ⟨hconforms stamp, hconforms stamp', hplain stamp, hplain stamp', ?_⟩
  rw [Snapshot.same_iff_bare_eq (hplain stamp) (hplain stamp'), bare_sapling, bare_sapling]

/-- A map to a sapling is copied with the sapling. -/
theorem copies_orchard (stamp stamp' : Nat) (label : String) :
    Snapshot.ValueCopies nodes (.modelMap (.integer .u64) "Node")
      (.modelMap ⟨stamp, [1]⟩ [(.int 5, sapling stamp label)])
      (.modelMap ⟨stamp', [1]⟩ [(.int 5, sapling stamp' label)]) := by
  have hcopies := copies_sapling stamp stamp' label
  have hconforms : ∀ {s : Snapshot} (o : Origin), s.layout = node → s.Conforms nodes →
      Snapshot.ValueConforms nodes (.modelMap (.integer .u64) "Node")
        (.modelMap o [(.int 5, s)]) := by
    intro s o hlayout hs
    refine Snapshot.valueConforms_modelMap.2 ⟨o, _, rfl, List.pairwise_singleton _ _, ?_⟩
    intro e he
    obtain rfl := List.mem_singleton.1 he
    exact ⟨hlayout, hs⟩
  have hplain : ∀ {s : Snapshot} (o : Origin), s.isPlain = true →
      Snapshot.plainValue (.modelMap o [(.int 5, s)]) = true := by
    intro s o hs
    refine Snapshot.plainValue_modelMap.2 fun e he => ?_
    obtain rfl := List.mem_singleton.1 he
    exact hs
  refine ⟨hconforms _ rfl hcopies.conforms, hconforms _ rfl hcopies.conforms_copy,
    hplain _ hcopies.plain, hplain _ hcopies.plain_copy, ?_⟩
  simp [Snapshot.sameValue, Snapshot.sameEntries, hcopies.same]

end Samples

/-- Two saplings that were put together at once share all that is below their roots, and two that
were not share nothing.  They are compared as records, as parts and as entries. -/
theorem Snapshot.diff_eq_diff_of_sapling :
    (∀ v ∈ (Samples.sapling 0 "root").fields[1]?, ∀ w ∈ (Samples.sapling 0 "trunk").fields[1]?,
      v.isShared w = true) ∧
    (∀ v ∈ (Samples.sapling 1 "root").fields[1]?, ∀ w ∈ (Samples.sapling 2 "trunk").fields[1]?,
      v.isShared w = false) ∧
    (∃ c, (Samples.sapling 0 "trunk").edit.diffAgainst .update (Samples.sapling 0 "root") = .ok c ∧
      (Samples.sapling 2 "trunk").edit.diffAgainst .update (Samples.sapling 1 "root") = .ok c) ∧
    fieldChange? (some (Samples.sapling 0 "root")) (some (Samples.sapling 0 "trunk")) =
      fieldChange? (some (Samples.sapling 1 "root")) (some (Samples.sapling 2 "trunk")) ∧
    diffValue (.modelMap ⟨0, [1]⟩ [(.int 5, Samples.sapling 0 "root")])
        (.modelMap ⟨0, [1]⟩ [(.int 5, Samples.sapling 0 "root")]) =
      diffValue (.modelMap ⟨1, [1]⟩ [(.int 5, Samples.sapling 1 "root")])
        (.modelMap ⟨2, [1]⟩ [(.int 5, Samples.sapling 2 "root")]) ∧
    RecordEntryChange.between [(.int 5, Samples.sapling 0 "root")]
        [(.int 5, Samples.sapling 0 "trunk")] =
      RecordEntryChange.between [(.int 5, Samples.sapling 1 "root")]
        [(.int 5, Samples.sapling 2 "trunk")] := by
  obtain ⟨hrecords, hvalues, hoptional, hmaps⟩ := diff_eq_diff_of_copies
  have hroot := Samples.copies_sapling 0 1 "root"
  have htrunk := Samples.copies_sapling 0 2 "trunk"
  refine ⟨?together, ?apart, hrecords hroot htrunk rfl .update, ?_, ?_, ?_⟩
  case together =>
    rintro _ ⟨⟩ _ ⟨⟩
    simp [Value.isShared, identicalEntries, identical_self]
  case apart =>
    rintro _ ⟨⟩ _ ⟨⟩
    simp [Value.isShared]
  · exact hoptional (m := "Node") (hroot.nested rfl) (htrunk.nested rfl)
  · exact hvalues (Samples.copies_orchard 0 1 "root") (Samples.copies_orchard 0 2 "root")
  · exact hmaps (Samples.copies_orchard 0 1 "root") (Samples.copies_orchard 0 2 "trunk")

end VersionedRecords
