import VersionedRecords.Proofs.Exactness

/-!
Drafts that nothing has been done to.

Nothing should lead from a snapshot to a draft over it.  Sub-records, sets and maps of the draft are
those of the snapshot, so they are not looked into and nothing is reported of them.  Scalar and
attached values have no place of their own: they are compared as values, and a number that is not
the same as itself is reported as changed although nothing was done to it.
-/

namespace VersionedRecords

namespace Datum

/-- A number that is not the same as any number. -/
def isNaN : Datum → Bool
  | float x => x.isNaN
  | _ => false

theorem same_self (v : Datum) : v.same v = !v.isNaN := by
  cases v <;> simp [same, isNaN, Binary64.same]

theorem sameOption_self (v : Option Datum) : sameOption v v = !v.any isNaN := by
  cases v with
  | none => rfl
  | some v => exact v.same_self

end Datum

namespace Value

/-- What a comparison of a value with itself finds: it repeats a number that is not the same as
itself, and finds nothing else. -/
def repeated? : Value Snapshot → Option (Payload Change)
  | .scalar v => if v.isNaN then some (.scalar v) else none
  | .attached v => if v.any Datum.isNaN then some (.attached v) else none
  | _ => none

/-- The value is a number that is not the same as itself. -/
def isNaN : Value Snapshot → Bool
  | .scalar v => v.isNaN
  | .attached v => v.any Datum.isNaN
  | _ => false

theorem repeated?_eq_none_iff (v : Value Snapshot) : v.repeated? = none ↔ v.isNaN = false := by
  cases v <;> simp [repeated?, isNaN]

theorem map_sorted_repeated? (v : Value Snapshot) :
    v.repeated?.map Payload.sorted = v.repeated? := by
  cases v with
  | scalar v => by_cases hv : v.isNaN = true <;> simp [repeated?, hv, Payload.sorted]
  | attached v => by_cases hv : v.any Datum.isNaN = true <;> simp [repeated?, hv, Payload.sorted]
  | _ => rfl

end Value

namespace Snapshot

variable {models : String → Layout}

/-- Of parts with a place of their own nothing is reported when they are compared with themselves.
-/
theorem diffValue_self (v : Value Snapshot) : diffValue v v = v.repeated? := by
  cases v with
  | scalar v => by_cases hv : v.isNaN = true <;> simp [diffValue, Value.repeated?, v.same_self, hv]
  | attached v =>
      by_cases hv : v.any Datum.isNaN = true <;>
        simp [diffValue, Value.repeated?, Datum.sameOption_self, hv]
  | nested s =>
      cases s with
      | none => simp [diffValue, Value.repeated?]
      | some s => simp [diffValue, Value.repeated?, isShared_iff_eq.2 (rfl : s = s)]
  | keySet o ms => simp [diffValue, Value.repeated?]
  | valueMap o es => simp [diffValue, Value.repeated?]
  | modelMap o es =>
      have hes : identicalEntries es es = true :=
        identicalEntries_self fun e _ => identical_self e.2
      simp [diffValue, Value.repeated?, hes]

theorem diffFrom_self {m : Snapshot} (hm : m.Conforms models) :
    m.diffFrom .update m.fields =
      if ∀ v ∈ m.fields, v.isNaN = false then none
      else some ⟨m.layout, .update, m.key, m.fields.map Value.repeated?⟩ := by
  have hproper := diffsProperly_of_conforms hm m.fields (conforms_iff.1 hm)
  have hself : List.zipWith diffValue m.fields m.fields = m.fields.map Value.repeated? := by
    rw [List.zipWith_self]
    exact List.map_congr_left fun v _ => diffValue_self v
  rw [hself] at hproper
  have hnone : (m.fields.map Value.repeated?).any Option.isSome = false ↔
      ∀ v ∈ m.fields, v.isNaN = false := by
    simp [List.any_eq_false, Value.repeated?_eq_none_iff]
  have hsorted : (m.fields.map Value.repeated?).map (Option.map Payload.sorted) =
      m.fields.map Value.repeated? := by
    rw [List.map_map]
    exact List.map_congr_left fun v _ => v.map_sorted_repeated?
  rw [diffFrom_eq, hself, Accumulator.gather_eq hproper, hsorted]
  simp only [hnone, true_and]

theorem diff_edit (m : Snapshot) : m.edit.diff = m.diffFrom .update m.fields := by
  rw [Draft.diff_eq_diffFrom, ← Draft.diffFrom_edit]
  rfl

/-- A draft that nothing has been done to tells no change exactly if none of the fields of its
record is a number that is not the same as itself; what lies below in sub-records and maps does not
matter.  Otherwise it tells an update with just these numbers. -/
theorem diff_edit_eq_none_iff {m : Snapshot} (hm : m.Conforms models) :
    m.edit.diffAgainst .update m = .ok m.edit.diff ∧
    (m.edit.diff = none ↔ ∀ v ∈ m.fields, v.isNaN = false) ∧
    ∀ c ∈ m.edit.diff, c = ⟨m.layout, .update, m.key, m.fields.map Value.repeated?⟩ := by
  have hself := diffFrom_self hm
  refine ⟨?_, ?_, ?_⟩
  · rw [diff_edit]
    exact diffAgainst_edit rfl .update
  · rw [diff_edit, hself]
    split
    · next hnone => simpa using hnone
    · next hnone => simpa using hnone
  · intro c hc
    rw [diff_edit, hself] at hc
    split at hc
    · cases hc
    · cases hc
      rfl

end Snapshot

namespace Samples

/-- A pattern of bits that stands for no number. -/
def noNumber : Datum := .float ⟨0x7ff8000000000000⟩

/-- A gauge all of whose fields are zero but for one. -/
def gaugeWith (i : Nat) (v : Value Snapshot) : Snapshot :=
  ⟨gauge, .int 1, .zero, gauge.zeros.set i v⟩

theorem conforms_gaugeWith (kind : FieldKind) {i : Nat} {v : Value Snapshot}
    (hkind : gauge.kinds[i]? = some kind) (hv : Snapshot.ValueConforms nodes kind v) :
    (gaugeWith i v).Conforms nodes :=
  Snapshot.conforms_iff.2 (forall₂_set_right (Snapshot.forall₂_conforms_zeros gauge) hkind hv)

/-- A gauge that reads no number. -/
def brokenGauge : Snapshot := gaugeWith 0 (.scalar noNumber)

theorem conforms_brokenGauge : brokenGauge.Conforms nodes :=
  conforms_gaugeWith (.scalar .float) rfl trivial

/-- A gauge that has once read no number. -/
def mendedGauge : Snapshot := gaugeWith 7 (.valueMap .zero [(.int 3, noNumber)])

theorem conforms_mendedGauge : mendedGauge.Conforms nodes := by
  refine conforms_gaugeWith (.valueMap (.integer .i64) .float) rfl ⟨?_, ?_⟩
  · exact List.pairwise_singleton _ _
  · simp [noNumber, Datum.Fits]

end Samples

/-- The reading of a broken gauge is told again, and that there is no number in the series of a
mended one does not matter. -/
theorem Snapshot.diff_edit_eq_none_iff_of_gauges :
    Samples.brokenGauge.edit.diff = some ⟨Samples.gauge, .update, .int 1,
      [some (.scalar Samples.noNumber), none, none, none, none, none, none, none, none]⟩ ∧
    Samples.mendedGauge.edit.diffAgainst .update Samples.mendedGauge = .ok none := by
  obtain ⟨-, hbroken, hupdate⟩ := diff_edit_eq_none_iff Samples.conforms_brokenGauge
  obtain ⟨hagainst, hmended, -⟩ := diff_edit_eq_none_iff Samples.conforms_mendedGauge
  have hsome : Samples.brokenGauge.edit.diff ≠ none := by
    rw [Ne, hbroken]
    decide
  obtain ⟨c, hc⟩ := Option.ne_none_iff_exists'.1 hsome
  refine ⟨?_, ?_⟩
  · rw [hc, hupdate c hc]
    rfl
  · rw [hagainst, hmended.2 (by decide)]

/-- A draft that nothing has been done to can tell a change. -/
theorem Snapshot.not_forall_diff_edit_eq_none :
    ¬ ∀ (models : String → Layout) (m : Snapshot), m.Conforms models →
      m.edit.diff = none ∧ m.edit.diffAgainst .update m = .ok none := by
  intro hall
  have hnone := (hall Samples.nodes Samples.brokenGauge Samples.conforms_brokenGauge).1
  rw [diff_edit, diffFrom_self Samples.conforms_brokenGauge] at hnone
  have hbroken : ¬ ∀ v ∈ Samples.brokenGauge.fields, v.isNaN = false := by decide
  rw [if_neg hbroken] at hnone
  cases hnone

end VersionedRecords
