import Mathlib.Data.List.Induction
import VersionedRecords.Proofs.Suiting

/-!
Applying a change that has been applied already.

The second application meets another draft than the first: records that the first one began anew are
now held, and what it removed is gone.  It leaves the contents alone all the same, even if a change
speaks several times about one entry.  For one entry a list of changes comes down to one of two
things.  Either the outcome does not depend on what was there, or every change in the list updates
one and the same record in place, and the changes of that record are again such a list, one level
further down.
-/

namespace VersionedRecords

/-! ### Members of sets -/

namespace MemberChange

/-- Of several changes of one member the last decides, if there is any. -/
theorem applyAll_applyAll (cs : List MemberChange) {s : List Key} (hs : KeySet.Ascending s) :
    applyAll cs (applyAll cs s) = applyAll cs s := by
  have hkey (s : List Key) (k : Key) : (k ∈ applyAll cs s) =
      (cs.filter fun c => c.key = k).foldl (fun _ c => c.intent ≠ .delete) (k ∈ s) :=
    Keyed.look_foldl (fun s k => k ∈ s) (fun (c : MemberChange) _ => c.intent ≠ .delete)
      (fun _ => True) (fun _ _ _ => trivial) (fun s c k _ => mem_applyTo c s k) cs s trivial k
  refine KeySet.ext_mem (ascending_applyAll cs (ascending_applyAll cs hs))
    (ascending_applyAll cs hs) fun k => ?_
  rw [hkey (applyAll cs s), hkey s]
  cases cs.filter (fun c => c.key = k) using List.reverseRecOn with
  | nil => rfl
  | append_singleton cs c => rw [List.foldl_concat, List.foldl_concat]

end MemberChange

/-! ### Entries with plain values -/

namespace Datum

theorem same_iff {v w : Datum} :
    v.same w = true ↔ (∃ x y, v = .float x ∧ w = .float y ∧ x.same y = true) ∨
      v = w ∧ ∀ x, v ≠ .float x := by
  cases v <;> cases w <;> simp [same]

theorem same_symm {v w : Datum} (h : v.same w = true) : w.same v = true := by
  rcases same_iff.1 h with ⟨x, y, rfl, rfl, hxy⟩ | ⟨rfl, -⟩
  · simp only [same, Binary64.same, Bool.and_eq_true, Bool.or_eq_true, beq_iff_eq] at hxy ⊢
    obtain ⟨⟨hx, hy⟩, hxy⟩ := hxy
    exact ⟨⟨hy, hx⟩, hxy.imp Eq.symm And.symm⟩
  · exact h

theorem same_trans {u v w : Datum} (huv : u.same v = true) (hvw : v.same w = true) :
    u.same w = true := by
  rcases same_iff.1 huv with ⟨x, y, rfl, rfl, hxy⟩ | ⟨rfl, -⟩
  · rcases same_iff.1 hvw with ⟨_, z, ⟨⟩, rfl, hyz⟩ | ⟨rfl, -⟩
    · simp only [same, Binary64.same, Bool.and_eq_true, Bool.or_eq_true, beq_iff_eq] at hxy hyz ⊢
      obtain ⟨⟨hx, -⟩, hxy⟩ := hxy
      obtain ⟨⟨-, hz⟩, hyz⟩ := hyz
      refine ⟨⟨hx, hz⟩, ?_⟩
      rcases hxy with rfl | ⟨hx, hy⟩
      · exact hyz
      · rcases hyz with rfl | ⟨-, hz⟩
        · exact .inr ⟨hx, hy⟩
        · exact .inr ⟨hx, hz⟩
    · exact huv
  · exact hvw

theorem sameOption_some_iff {v : Option Datum} {w : Datum} :
    sameOption v (some w) = true ↔ ∃ x, v = some x ∧ x.same w = true := by
  cases v <;> simp [sameOption]

end Datum

namespace EntryChange

/-- What changes of one entry can do to the value under its key: nothing at all, put something
definite there, or put a value there unless one that is the same as a number is there. -/
inductive Settling : (Option Datum → Option Datum) → Prop
  | idle : Settling id
  | final (r : Option Datum) : Settling fun _ => r
  | keeping (w : Datum) : Settling fun v => if Datum.sameOption v (some w) then v else some w

theorem settling_act (c : EntryChange) : Settling c.act := by
  unfold act
  by_cases hdelete : c.intent = .delete
  · simpa only [if_pos hdelete] using Settling.final none
  · simp only [if_neg hdelete]
    cases c.value with
    | none => exact .idle
    | some w => exact .keeping w

variable {f g : Option Datum → Option Datum}

theorem Settling.comp (hg : Settling g) (hf : Settling f) : Settling (g ∘ f) := by
  cases hg with
  | idle => exact hf
  | final r => exact .final r
  | keeping w =>
      cases hf with
      | idle => exact .keeping w
      | final r => exact .final _
      | keeping u =>
          by_cases huw : u.same w = true
          · -- what is the same as the one is the same as the other, so all that is kept stays
            convert Settling.keeping u using 2 with v
            have hu : Datum.sameOption (some u) (some w) = true := huw
            by_cases hv : Datum.sameOption v (some u) = true
            · obtain ⟨x, rfl, hx⟩ := Datum.sameOption_some_iff.1 hv
              have hxw : Datum.sameOption (some x) (some w) = true := Datum.same_trans hx huw
              simp only [Function.comp_apply, if_pos hv, if_pos hxw]
            · simp only [Function.comp_apply, if_neg hv, if_pos hu]
          · -- nothing that is the same as the one is the same as the other, so nothing stays
            convert Settling.final (some w) using 2 with v
            have hu : ¬Datum.sameOption (some u) (some w) = true := huw
            by_cases hv : Datum.sameOption v (some u) = true
            · obtain ⟨x, rfl, hx⟩ := Datum.sameOption_some_iff.1 hv
              have hxw : ¬Datum.sameOption (some x) (some w) = true :=
                fun h => huw (Datum.same_trans (Datum.same_symm hx) h)
              simp only [Function.comp_apply, if_pos hv, if_neg hxw]
            · simp only [Function.comp_apply, if_neg hv, if_neg hu]

theorem Settling.idem (hf : Settling f) (v : Option Datum) : f (f v) = f v := by
  cases hf with
  | idle => rfl
  | final r => rfl
  | keeping w =>
      by_cases hv : Datum.sameOption v (some w) = true
      · simp only [if_pos hv]
      · simp only [if_neg hv, ite_self]

theorem settling_foldl (cs : List EntryChange) :
    Settling fun v => cs.foldl (fun v c => c.act v) v := by
  induction cs using List.reverseRecOn with
  | nil => exact .idle
  | append_singleton cs c ih =>
      simp only [List.foldl_concat]
      exact (settling_act c).comp ih

theorem applyAll_applyAll (cs : List EntryChange) {m : Keyed Datum} (hm : Keyed.Ascending m) :
    applyAll cs (applyAll cs m) = applyAll cs m := by
  have hkey {m : Keyed Datum} (hm : Keyed.Ascending m) (k : Key) :
      Keyed.find? k (applyAll cs m) =
        (cs.filter fun c => c.key = k).foldl (fun v c => c.act v) (Keyed.find? k m) :=
    Keyed.look_foldl (fun m k => Keyed.find? k m) act Keyed.Ascending
      (fun _ c hs => ascending_applyTo c hs) (fun _ c k hs => find?_applyTo c hs k) cs m hm k
  have hasc := ascending_applyAll cs hm
  refine Keyed.ext_find? (ascending_applyAll cs hasc) hasc fun k => ?_
  rw [hkey hasc, hkey hm]
  exact (settling_foldl _).idem _

end EntryChange

/-! ### Changes in order -/

namespace Change

open Draft

variable {models : String → Layout}

/-- The draft after several changes in order. -/
def run (cs : List Change) (d : Draft) : Draft := cs.foldl (fun d c => c.applyTo d) d

theorem identity_run (cs : List Change) (d : Draft) : (run cs d).identity = d.identity := by
  induction cs generalizing d with
  | nil => rfl
  | cons c cs ih => exact (ih (c.applyTo d)).trans (identity_applyTo c d)

/-- Changes that are no deletions leave a draft that is not deleted. -/
theorem isDeleted_run {cs : List Change} (hne : cs ≠ [])
    (hcs : ∀ c ∈ cs, c.intent ≠ .delete) (d : Draft) : (run cs d).isDeleted = false := by
  cases cs using List.reverseRecOn with
  | nil => exact absurd rfl hne
  | append_singleton cs c =>
      have hc : c.intent ≠ .delete := hcs c (by simp)
      rw [run, List.foldl_concat, applyTo_eq, if_neg hc]
      simpa [isDeleted] using hc

/-- What several changes carry for one field in order, where nothing leaves the slot as it is. -/
def runSlot (ps : List (Option (Payload Change))) (s : Slot Snapshot Draft) :
    Slot Snapshot Draft :=
  ps.foldl (fun s p => applySlot p s) s

/-- What is carried for one field in order. -/
def runPayload (qs : List (Payload Change)) (w : Working Draft) : Working Draft :=
  qs.foldl (fun w q => applyPayload q w) w

theorem getElem?_applyFields (ps : List (Option (Payload Change)))
    (ss : List (Slot Snapshot Draft)) (i : Nat) :
    (applyFields ps ss)[i]? = ss[i]?.map (applySlot ps[i]?.join) := by
  induction ps generalizing ss i with
  | nil =>
      rw [applyFields]
      · exact Option.map_id'.symm
      · simp
      · simp
  | cons p ps ih =>
      cases ss with
      | nil => cases p <;> simp [applyFields]
      | cons s ss => cases p <;> cases i <;> simp [applyFields, applySlot, ih]

/-- Each field goes its own way. -/
theorem getElem?_slots_run {cs : List Change} (hcs : ∀ c ∈ cs, c.intent ≠ .delete) (d : Draft)
    (i : Nat) :
    (run cs d).slots[i]? = d.slots[i]?.map (runSlot (cs.map fun c => c.fields[i]?.join)) := by
  induction cs generalizing d with
  | nil => exact Option.map_id'.symm
  | cons c cs ih =>
      rw [List.forall_mem_cons] at hcs
      have hslots : (c.applyTo d).slots = applyFields c.fields d.slots := by
        rw [applyTo_eq, if_neg hcs.1]
      have hrest := ih hcs.2 (c.applyTo d)
      rw [hslots, getElem?_applyFields, Option.map_map] at hrest
      exact hrest

/-- Either nothing is carried for the field at all, or its working copy goes through what is. -/
theorem runSlot_cases (ps : List (Option (Payload Change))) :
    (∀ s, runSlot ps s = s) ∨
      ∃ qs, (∀ q ∈ qs, some q ∈ ps) ∧ ∀ s, runSlot ps s = .touched (runPayload qs s.working) := by
  induction ps with
  | nil => exact .inl fun _ => rfl
  | cons p ps ih =>
      cases p with
      | none =>
          refine ih.imp (fun h => h) ?_
          rintro ⟨qs, hqs, hrun⟩
          exact ⟨qs, fun q hq => List.mem_cons_of_mem _ (hqs q hq), hrun⟩
      | some p =>
          right
          rcases ih with hidle | ⟨qs, hqs, hrun⟩
          · exact ⟨[p], by simp, fun s => hidle _⟩
          · refine ⟨p :: qs, ?_, fun s => hrun _⟩
            simpa using fun q hq => .inr (hqs q hq)

/-- A draft with the content that the changes lead to keeps it when they are applied. -/
def Settles (models : String → Layout) (cs : List Change) : Prop :=
  ∀ x y : Draft, x.Coherent models → y.Coherent models →
    (∀ c ∈ cs, c.layout = x.layout) → (∀ c ∈ cs, c.layout = y.layout) →
    y.content = (run cs x).content → (run cs y).content = y.content

end Change

/-! ### Entries with sub-records -/

namespace Draft

theorem bind_content_congr {d e : Option Draft} (h : d.map outline = e.map outline) :
    d.bind content = e.bind content := by
  have hbind (d : Option Draft) : d.bind content = (d.map outline).bind content := by
    cases d <;> simp
  rw [hbind d, h, hbind e]

end Draft

namespace RecordEntryChange

open Draft

variable {models : String → Layout}

/-- The draft under a key after several changes of the entry in order. -/
def run (cs : List (RecordEntryChange Change)) (d : Option Draft) : Option Draft :=
  cs.foldl (fun d c => c.act d) d

/-- Applying changes of entries does to each entry what the changes of its key do. -/
theorem find?_applyEntries_eq_run (cs : List (RecordEntryChange Change)) {es : Keyed Draft}
    (hes : Keyed.Ascending es) (k : Key) :
    Keyed.find? k (Change.applyEntries cs es) =
      run (cs.filter fun c => c.key = k) (Keyed.find? k es) := by
  rw [applyEntries_eq_foldl]
  exact Keyed.look_foldl (fun es k => Keyed.find? k es) act Keyed.Ascending
    (fun _ c hs => ascending_applyTo c hs) (fun _ c k hs => find?_applyTo c hs k) cs es hes k

/-- Every one of the changes updates the record with the identity. -/
def Steady (identity : Identity) (cs : List (RecordEntryChange Change)) : Prop :=
  ∀ c ∈ cs, c.intent ≠ .delete ∧ c.change.intent = .update ∧ c.change.identity = identity

variable {identity : Identity} {cs : List (RecordEntryChange Change)}

theorem run_of_steady (h : Steady identity cs) {d : Draft} (hd : d.identity = identity) :
    run cs (some d) = some (Change.run (cs.map change) d) := by
  induction cs generalizing d with
  | nil => rfl
  | cons c cs ih =>
      obtain ⟨⟨hdelete, hupdate, hc⟩, hcs⟩ := List.forall_mem_cons.1 h
      have hact : c.act (some d) = some (c.change.applyTo d) := by
        rw [act, if_neg hdelete, Change.applyRecord_of_held (by rw [hupdate]; decide)
          (hd.trans hc.symm)]
      have hrest := ih hcs ((Change.identity_applyTo c.change d).trans hd)
      rw [run, List.foldl_cons, hact]
      exact hrest

/-- Where the record is not held, the first change begins it anew. -/
theorem run_cons_of_steady {c : RecordEntryChange Change} (h : Steady identity (c :: cs))
    (d : Option Draft) :
    run (c :: cs) d =
      some (Change.run ((c :: cs).map change) (Change.ground .update identity d)) := by
  obtain ⟨⟨hdelete, hupdate, hc⟩, hcs⟩ := List.forall_mem_cons.1 h
  have hact : c.act d = some (c.change.applyTo (Change.ground .update identity d)) := by
    rw [act, if_neg hdelete, Change.applyRecord_eq, hupdate, hc]
  have hground := Change.identity_ground .update identity d
  rw [run, List.foldl_cons, hact]
  exact run_of_steady hcs ((Change.identity_applyTo c.change _).trans hground)

theorem map_outline_act_congr (c : RecordEntryChange Change) {d e : Option Draft}
    (h : d.map outline = e.map outline) : (c.act d).map outline = (c.act e).map outline := by
  unfold act
  split
  · rfl
  · exact congrArg some (View.applyRecord_congr (V := outlined) (outlined.keeps c.change) h)

theorem map_outline_act_of_ne_update {c : RecordEntryChange Change}
    (h : c.intent = .delete ∨ c.change.intent ≠ .update) (d e : Option Draft) :
    (c.act d).map outline = (c.act e).map outline := by
  unfold act
  split
  · rfl
  · next hdelete =>
    exact congrArg some (Change.outline_applyRecord_of_ne_update (h.resolve_left hdelete) d e)

/-- What several changes make of an entry does not depend on what was there, unless all of them
update one and the same record. -/
theorem steady_or_final (cs : List (RecordEntryChange Change)) :
    cs = [] ∨ (∃ identity, Steady identity cs) ∨
      ∀ d e, (run cs d).map outline = (run cs e).map outline := by
  induction cs using List.reverseRecOn with
  | nil => exact .inl rfl
  | append_singleton cs c ih =>
      right
      have hrun (d : Option Draft) : run (cs ++ [c]) d = c.act (run cs d) := List.foldl_concat ..
      simp only [hrun]
      by_cases hc : c.intent = .delete ∨ c.change.intent ≠ .update
      · exact .inr fun d e => map_outline_act_of_ne_update hc _ _
      simp only [not_or, not_not] at hc
      have hsingle : Steady c.change.identity [c] := by simpa [Steady] using hc
      by_cases hnil : cs = []
      · exact .inl ⟨c.change.identity, by rwa [hnil]⟩
      rcases ih.resolve_left hnil with ⟨identity, hsteady⟩ | hfinal
      · by_cases hidentity : identity = c.change.identity
        · refine .inl ⟨identity, fun x hx => ?_⟩
          rcases List.mem_append.1 hx with hx | hx
          · exact hsteady x hx
          · exact hidentity ▸ hsingle x hx
        · -- the last change finds another record there, whatever was there before
          obtain ⟨a, as, rfl⟩ := List.exists_cons_of_ne_nil hnil
          have hfresh (d : Option Draft) :
              c.act (run (a :: as) d) = some c.change.toDraft := by
            rw [run_cons_of_steady hsteady, act, if_neg hc.1, Change.applyRecord_of_not_held]
            rintro e ⟨⟩
            right
            rwa [Change.identity_run, Change.identity_ground]
          exact .inr fun d e => by rw [hfresh d, hfresh e]
      · exact .inr fun d e => map_outline_act_congr c (hfinal d e)

theorem coherent_ground {d : Option Draft} (hd : ∀ e ∈ d, e.Coherent models) (intent : Intent)
    (identity : Identity) : (Change.ground intent identity d).Coherent models := by
  unfold Change.ground
  cases d with
  | none => exact coherent_new identity.layout identity.key
  | some d =>
      dsimp only
      split
      · exact hd d rfl
      · exact coherent_new identity.layout identity.key

/-- What changes of one entry lead to is kept when they are applied again, if the changes of the
sub-record settle. -/
theorem bind_content_run
    (ih : ∀ identity, Steady identity cs → Change.Settles models (cs.map change))
    {d e : Option Draft} (hd : ∀ x ∈ d, x.Coherent models) (he : ∀ x ∈ e, x.Coherent models)
    (h : e.bind content = (run cs d).bind content) : (run cs e).bind content = e.bind content := by
  rcases steady_or_final cs with rfl | ⟨identity, hsteady⟩ | hfinal
  · rfl
  · cases cs with
    | nil => rfl
    | cons c cs =>
        have hground := Change.identity_ground .update identity d
        have hcoherent := coherent_ground hd .update identity
        rw [run_cons_of_steady hsteady, Option.bind_some] at h
        generalize Change.ground .update identity d = x at h hground hcoherent
        have hpresent : (Change.run ((c :: cs).map change) x).isDeleted = false := by
          refine Change.isDeleted_run (by simp) ?_ x
          intro a ha
          obtain ⟨b, hb, rfl⟩ := List.mem_map.1 ha
          rw [(hsteady b hb).2.1]
          decide
        obtain ⟨s, hs⟩ : ∃ s, (Change.run ((c :: cs).map change) x).content = some s := by
          rw [content_eq, hpresent]
          exact ⟨_, rfl⟩
        obtain ⟨y, rfl, hy⟩ := Option.bind_eq_some_iff.1 (h.trans hs)
        have hyi : y.identity = identity := by
          rw [← identity_of_content hy, identity_of_content hs, Change.identity_run, hground]
        have hlayout : ∀ a ∈ (c :: cs).map change, a.layout = identity.layout := by
          intro a ha
          obtain ⟨b, hb, rfl⟩ := List.mem_map.1 ha
          exact congrArg Identity.layout (hsteady b hb).2.2
        rw [run_of_steady hsteady hyi, Option.bind_some, Option.bind_some]
        exact ih identity hsteady x y hcoherent (he y rfl)
          (fun a ha => (hlayout a ha).trans (congrArg Identity.layout hground).symm)
          (fun a ha => (hlayout a ha).trans (congrArg Identity.layout hyi).symm) h
  · rw [bind_content_congr (hfinal e d), h]

/-- The same for all entries of a map. -/
theorem contentEntries_applyEntries
    (ih : ∀ ds identity, (∀ c ∈ ds, c ∈ cs) → Steady identity ds →
      Change.Settles models (ds.map change))
    {es es' : Keyed Draft} (hes : Keyed.Ascending es) (hes' : Keyed.Ascending es')
    (hentries : ∀ e ∈ es, e.2.Coherent models) (hentries' : ∀ e ∈ es', e.2.Coherent models)
    (h : contentEntries es' = contentEntries (Change.applyEntries cs es)) :
    contentEntries (Change.applyEntries cs es') = contentEntries es' := by
  have hasc := ascending_applyEntries cs hes
  have hasc' := ascending_applyEntries cs hes'
  have hfound {es : Keyed Draft} (hentries : ∀ e ∈ es, e.2.Coherent models) (k : Key) :
      ∀ x ∈ Keyed.find? k es, x.Coherent models :=
    fun x hx => hentries (k, x) (Keyed.mem_of_find? hx)
  refine Keyed.ext_find? (ascending_contentEntries hasc') (ascending_contentEntries hes')
    fun k => ?_
  have hk := congrArg (Keyed.find? k) h
  rw [find?_contentEntries hes', find?_contentEntries hasc, find?_applyEntries_eq_run cs hes] at hk
  rw [find?_contentEntries hasc', find?_contentEntries hes', find?_applyEntries_eq_run cs hes']
  refine bind_content_run (fun identity => ih _ identity ?_) (hfound hentries k)
    (hfound hentries' k) hk
  exact fun c hc => (List.mem_filter.1 hc).1

end RecordEntryChange

/-! ### Whole changes -/

namespace Change

open Draft

variable {models : String → Layout} {qs : List (Payload Change)}

theorem runPayload_keySet {k : KeyType} (hqs : ∀ q ∈ qs, PayloadConforms models (.keySet k) q) :
    ∃ cs, ∀ ms, runPayload qs (.keySet ms) = .keySet (MemberChange.applyAll cs ms) := by
  induction qs with
  | nil => exact ⟨[], fun _ => rfl⟩
  | cons q qs ih =>
      rw [List.forall_mem_cons] at hqs
      obtain ⟨cs, hcs⟩ := ih hqs.2
      cases q with
      | keySet cs' =>
          refine ⟨cs' ++ cs, fun ms => ?_⟩
          rw [MemberChange.applyAll, List.foldl_append]
          exact hcs _
      | _ => simp [PayloadConforms] at hqs

theorem runPayload_valueMap {k : KeyType} {t : DatumType}
    (hqs : ∀ q ∈ qs, PayloadConforms models (.valueMap k t) q) :
    ∃ cs, ∀ es, runPayload qs (.valueMap es) = .valueMap (EntryChange.applyAll cs es) := by
  induction qs with
  | nil => exact ⟨[], fun _ => rfl⟩
  | cons q qs ih =>
      rw [List.forall_mem_cons] at hqs
      obtain ⟨cs, hcs⟩ := ih hqs.2
      cases q with
      | valueMap cs' =>
          refine ⟨cs' ++ cs, fun es => ?_⟩
          rw [EntryChange.applyAll, List.foldl_append]
          exact hcs _
      | _ => simp [PayloadConforms] at hqs

theorem runPayload_modelMap {k : KeyType} {m : String}
    (hqs : ∀ q ∈ qs, PayloadConforms models (.modelMap k m) q) :
    ∃ cs, (∀ c ∈ cs, ∃ q ∈ qs, c.change ∈ q.changes) ∧
      ∀ es, runPayload qs (.modelMap es) = .modelMap (applyEntries cs es) := by
  induction qs with
  | nil => exact ⟨[], by simp, fun _ => by rw [applyEntries]; rfl⟩
  | cons q qs ih =>
      rw [List.forall_mem_cons] at hqs
      obtain ⟨cs, hmem, hcs⟩ := ih hqs.2
      cases q with
      | modelMap cs' =>
          refine ⟨cs' ++ cs, ?_, fun es => ?_⟩
          · intro c hc
            rcases List.mem_append.1 hc with hc | hc
            · exact ⟨_, List.mem_cons_self, List.mem_map_of_mem hc⟩
            · obtain ⟨q, hq, hqc⟩ := hmem c hc
              exact ⟨q, List.mem_cons_of_mem _ hq, hqc⟩
          · rw [RecordEntryChange.applyEntries_eq_foldl, List.foldl_append,
              ← RecordEntryChange.applyEntries_eq_foldl, ← RecordEntryChange.applyEntries_eq_foldl]
            exact hcs _
      | _ => simp [PayloadConforms] at hqs

/-- Changes of one sub-record in order are the changes of an entry, under some key or other. -/
theorem runPayload_nested {m : String} (hqs : ∀ q ∈ qs, PayloadConforms models (.nested m) q) :
    ∃ cs, (∀ c ∈ cs, ∃ q ∈ qs, c.change ∈ q.changes) ∧
      ∀ d, runPayload qs (.nested d) = .nested (RecordEntryChange.run cs d) := by
  induction qs with
  | nil => exact ⟨[], by simp, fun _ => rfl⟩
  | cons q qs ih =>
      rw [List.forall_mem_cons] at hqs
      obtain ⟨cs, hmem, hcs⟩ := ih hqs.2
      cases q with
      | nested c =>
          refine ⟨⟨.update, c.key, c⟩ :: cs, ?_, fun d => ?_⟩
          · intro x hx
            rcases List.mem_cons.1 hx with rfl | hx
            · exact ⟨_, List.mem_cons_self, by simp [Payload.changes]⟩
            · obtain ⟨q, hq, hqx⟩ := hmem x hx
              exact ⟨q, List.mem_cons_of_mem _ hq, hqx⟩
          · rw [runPayload, List.foldl_cons, applyPayload_nested]
            exact hcs _
      | _ => simp [PayloadConforms] at hqs

/-- Where each payload replaces what there is, as it does for plain values, the last one decides. -/
theorem contentWorking_runPayload_of_replaces
    (hreplace : ∀ q ∈ qs, ∀ w w', applyPayload q w = applyPayload q w') {v w : Working Draft}
    (h : contentWorking v = contentWorking (runPayload qs w)) :
    contentWorking (runPayload qs v) = contentWorking v := by
  cases qs using List.reverseRecOn with
  | nil => rfl
  | append_singleton qs q =>
      rw [h, runPayload, runPayload, List.foldl_concat, List.foldl_concat,
        hreplace q (by simp) _ (qs.foldl (fun w q => applyPayload q w) w)]

/-- What is carried for one field settles if the changes of sub-records do. -/
theorem contentWorking_runPayload {kind : FieldKind}
    (hqs : ∀ q ∈ qs, PayloadConforms models kind q)
    (ih : ∀ cs : List Change, (∀ c ∈ cs, c.intent ≠ .delete ∧ ∃ q ∈ qs, c ∈ q.changes) →
      Settles models cs) {v w : Working Draft}
    (hv : WorkingCoheres models kind v) (hw : WorkingCoheres models kind w)
    (h : contentWorking v = contentWorking (runPayload qs w)) :
    contentWorking (runPayload qs v) = contentWorking v := by
  have hsteady (cs : List (RecordEntryChange Change))
      (hcs : ∀ c ∈ cs, ∃ q ∈ qs, c.change ∈ q.changes) (identity : Identity)
      (hsteady : RecordEntryChange.Steady identity cs) :
      Settles models (cs.map RecordEntryChange.change) := by
    refine ih _ fun c hc => ?_
    obtain ⟨x, hx, rfl⟩ := List.mem_map.1 hc
    exact ⟨by rw [(hsteady x hx).2.1]; decide, hcs x hx⟩
  cases kind with
  | scalar t =>
      refine contentWorking_runPayload_of_replaces (fun q hq w w' => ?_) h
      have hconforms := hqs q hq
      cases q with
      | scalar x => rw [applyPayload, applyPayload]
      | _ => simp [PayloadConforms] at hconforms
  | attached t =>
      refine contentWorking_runPayload_of_replaces (fun q hq w w' => ?_) h
      have hconforms := hqs q hq
      cases q with
      | attached x => rw [applyPayload, applyPayload]
      | _ => simp [PayloadConforms] at hconforms
  | nested m =>
      obtain ⟨cs, hmem, hcs⟩ := runPayload_nested hqs
      obtain ⟨e, rfl, he⟩ := workingCoheres_nested.1 hv
      obtain ⟨d, rfl, hd⟩ := workingCoheres_nested.1 hw
      rw [hcs, contentWorking_nested, contentWorking_nested, Value.nested.injEq] at h
      rw [hcs, contentWorking_nested, contentWorking_nested,
        RecordEntryChange.bind_content_run (hsteady cs hmem) (fun x hx => (hd x hx).2)
          (fun x hx => (he x hx).2) h]
  | keySet k =>
      obtain ⟨cs, hcs⟩ := runPayload_keySet hqs
      obtain ⟨ms', rfl, -⟩ := workingCoheres_keySet.1 hv
      obtain ⟨ms, rfl, hms⟩ := workingCoheres_keySet.1 hw
      simp only [hcs, contentWorking, Value.keySet.injEq, true_and] at h
      rw [hcs, h, MemberChange.applyAll_applyAll cs hms]
  | valueMap k t =>
      obtain ⟨cs, hcs⟩ := runPayload_valueMap hqs
      obtain ⟨es', rfl, -, -⟩ := workingCoheres_valueMap.1 hv
      obtain ⟨es, rfl, hes, -⟩ := workingCoheres_valueMap.1 hw
      simp only [hcs, contentWorking, Value.valueMap.injEq, true_and] at h
      rw [hcs, h, EntryChange.applyAll_applyAll cs hes]
  | modelMap k m =>
      obtain ⟨cs, hmem, hcs⟩ := runPayload_modelMap hqs
      obtain ⟨es', rfl, hes', hentries'⟩ := workingCoheres_modelMap.1 hv
      obtain ⟨es, rfl, hes, hentries⟩ := workingCoheres_modelMap.1 hw
      simp only [hcs, contentWorking, Value.modelMap.injEq, true_and] at h
      rw [hcs, contentWorking, contentWorking,
        RecordEntryChange.contentEntries_applyEntries
          (fun ds identity hds => hsteady ds (fun c hc => hmem c (hds c hc)) identity) hes hes'
          (fun e he => (hentries e he).2) (fun e he => (hentries' e he).2) h]

theorem conforms_of_mem_changes {kind : FieldKind} {p : Payload Change}
    (hp : PayloadConforms models kind p) {c : Change} (hc : c ∈ p.changes) :
    c.Conforms models := by
  cases kind <;> cases p <;> simp only [PayloadConforms, Payload.changes, List.not_mem_nil] at hp hc
  · obtain rfl := List.mem_singleton.1 hc
    exact hp.2
  · obtain ⟨e, he, rfl⟩ := List.mem_map.1 hc
    exact (entriesConform_iff.1 hp e he).2

/-- A slot with the content that what is carried for its field leads to keeps it, if changes below
the field settle. -/
theorem contentSlot_runSlot {kind : FieldKind} {ps : List (Option (Payload Change))}
    (hps : ∀ q, some q ∈ ps → PayloadConforms models kind q)
    (ih : ∀ cs : List Change, (∀ c ∈ cs, c.intent ≠ .delete ∧ ∃ q, some q ∈ ps ∧ c ∈ q.changes) →
      Settles models cs) {s t : Slot Snapshot Draft}
    (hs : SlotCoheres models kind s) (ht : SlotCoheres models kind t)
    (h : contentSlot t = contentSlot (runSlot ps s)) :
    contentSlot (runSlot ps t) = contentSlot t := by
  rcases runSlot_cases ps with hidle | ⟨qs, hqs, hrun⟩
  · rw [hidle]
  · rw [hrun, contentSlot_eq] at h
    rw [hrun, contentSlot_eq t]
    refine contentWorking_runPayload (fun q hq => hps q (hqs q hq)) (fun cs hcs => ih cs ?_)
      (workingCoheres_working ht) (workingCoheres_working hs) h
    intro c hc
    obtain ⟨hdelete, q, hq, hqc⟩ := hcs c hc
    exact ⟨hdelete, q, hqs q hq, hqc⟩

/-- What changes of one layout carry for a field has the form that the layout asks for. -/
theorem payloadConforms_of_mem_fields {layout : Layout} {cs : List Change}
    (hconforms : ∀ c ∈ cs, c.Conforms models) (hlayout : ∀ c ∈ cs, c.layout = layout) {i : Nat}
    {kind : FieldKind} (hkind : layout.kinds[i]? = some kind) {q : Payload Change}
    (hq : some q ∈ cs.map fun c => c.fields[i]?.join) :
    PayloadConforms models kind q ∧ ∃ c ∈ cs, some q ∈ c.fields := by
  obtain ⟨c, hc, hjoin⟩ := List.mem_map.1 hq
  have hfield : c.fields[i]? = some (some q) := Option.join_eq_some_iff.1 hjoin
  obtain ⟨kind', hkind', hpayload⟩ := exists_getElem?_left (conforms_iff.1 (hconforms c hc)) hfield
  rw [hlayout c hc, hkind] at hkind'
  cases hkind'
  exact ⟨hpayload q rfl, c, hc, List.mem_of_getElem? hfield⟩

/-- Slots with the contents that changes lead to keep them, if changes below the fields settle. -/
theorem map_contentSlot_run {layout : Layout} {cs : List Change}
    (hconforms : ∀ c ∈ cs, c.Conforms models) (hdelete : ∀ c ∈ cs, c.intent ≠ .delete)
    (hlayout : ∀ c ∈ cs, c.layout = layout)
    (ih : ∀ ds : List Change, (∀ d ∈ ds, d.Conforms models ∧ d.intent ≠ .delete ∧
      ∃ c ∈ cs, ∃ q, some q ∈ c.fields ∧ d ∈ q.changes) → Settles models ds) {x y : Draft}
    (hx : List.Forall₂ (SlotCoheres models) layout.kinds x.slots)
    (hy : List.Forall₂ (SlotCoheres models) layout.kinds y.slots)
    (h : y.slots.map contentSlot = (run cs x).slots.map contentSlot) :
    (run cs y).slots.map contentSlot = y.slots.map contentSlot := by
  refine List.ext_getElem? fun i => ?_
  have hi := congrArg (fun vs : List (Value Snapshot) => vs[i]?) h
  simp only [List.getElem?_map, getElem?_slots_run hdelete] at hi ⊢
  cases ht : y.slots[i]? with
  | none => rfl
  | some t =>
      rw [ht, Option.map_some] at hi
      obtain ⟨s', hs', hst⟩ := Option.map_eq_some_iff.1 hi.symm
      obtain ⟨s, hs, rfl⟩ := Option.map_eq_some_iff.1 hs'
      obtain ⟨kind, hkind, htc⟩ := exists_getElem?_left hy ht
      obtain ⟨kind', hkind', hsc⟩ := exists_getElem?_left hx hs
      obtain rfl : kind = kind' := Option.some.inj (hkind.symm.trans hkind')
      have hpayloads q hq := payloadConforms_of_mem_fields (q := q) hconforms hlayout hkind hq
      rw [Option.map_some, Option.map_some, Option.map_some]
      refine congrArg some (contentSlot_runSlot (fun q hq => (hpayloads q hq).1)
        (fun ds hds => ih ds fun d hd => ?_) hsc htc hst.symm)
      obtain ⟨hd, q, hq, hqd⟩ := hds d hd
      obtain ⟨hpayload, c, hc, hqc⟩ := hpayloads q hq
      exact ⟨conforms_of_mem_changes hpayload hqd, hd, c, hc, q, hqc, hqd⟩

/-- Changes that are no deletions settle if all such lists of changes from below their fields do. -/
theorem settles_of_below {cs : List Change} (hconforms : ∀ c ∈ cs, c.Conforms models)
    (hdelete : ∀ c ∈ cs, c.intent ≠ .delete)
    (ih : ∀ ds : List Change, (∀ d ∈ ds, d.Conforms models ∧ d.intent ≠ .delete ∧
      ∃ c ∈ cs, ∃ q, some q ∈ c.fields ∧ d ∈ q.changes) → Settles models ds) :
    Settles models cs := by
  intro x y hx hy hlx hly h
  by_cases hne : cs = []
  · rw [hne]
    rfl
  have hlayout : y.layout = x.layout := by
    obtain ⟨c, hc⟩ := List.exists_mem_of_ne_nil cs hne
    rw [← hly c hc, hlx c hc]
  have hpresent := isDeleted_run hne hdelete
  have hidentity := identity_run cs y
  simp only [Draft.identity, Identity.mk.injEq] at hidentity
  have hcontent : y.content =
      some ⟨(run cs x).layout, (run cs x).key, .zero, (run cs x).slots.map contentSlot⟩ := by
    rw [h, content_eq, hpresent, if_neg Bool.false_ne_true]
  have hkept := map_contentSlot_run hconforms hdelete hlx ih (coherent_iff.1 hx).2
    (hlayout ▸ (coherent_iff.1 hy).2) (fields_of_content hcontent).symm
  rw [content_eq, content_eq, hpresent, isDeleted_of_content hcontent, hidentity.1, hidentity.2,
    hkept]

/-- Conforming changes that are no deletions settle. -/
theorem settles_of_sizeOf_lt (n : Nat) {cs : List Change} (hsize : ∀ c ∈ cs, sizeOf c < n)
    (hconforms : ∀ c ∈ cs, c.Conforms models) (hdelete : ∀ c ∈ cs, c.intent ≠ .delete) :
    Settles models cs := by
  induction n generalizing cs with
  | zero =>
      cases cs with
      | nil => exact fun _ _ _ _ _ _ _ => rfl
      | cons c cs => exact absurd (hsize c (by simp)) (Nat.not_lt_zero _)
  | succ n ih =>
      refine settles_of_below hconforms hdelete fun ds hds => ih ?_ (fun d hd => (hds d hd).1)
        fun d hd => (hds d hd).2.1
      intro d hd
      obtain ⟨-, -, c, hc, q, hq, hqd⟩ := hds d hd
      exact Nat.lt_of_lt_of_le (sizeOf_change_lt hq hqd) (Nat.le_of_lt_succ (hsize c hc))

/-- A draft with the content that a change leads to, by whatever way it has come by it, keeps the
content when the change is applied. -/
theorem content_applyTo_of_content {c : Change} (hc : c.Conforms models) {x y : Draft}
    (hx : x.Coherent models) (hy : y.Coherent models) (hlx : c.layout = x.layout)
    (hly : c.layout = y.layout) (h : y.content = (c.applyTo x).content) :
    (c.applyTo y).content = y.content := by
  by_cases hdelete : c.intent = .delete
  · rw [h, content_applyTo_delete hdelete, content_applyTo_delete hdelete]
  · have hsettles : Settles models [c] :=
      settles_of_sizeOf_lt (sizeOf c + 1) (by simp) (by simpa using hc) (by simpa using hdelete)
    exact hsettles x y hx hy (by simpa using hlx) (by simpa using hly) h

end Change

namespace Draft

variable {models : String → Layout}

theorem lastIntent_applyTo (c : Change) (d : Draft) : (c.applyTo d).lastIntent = some c.intent := by
  rw [Change.applyTo_eq]
  split
  · next hdelete => exact congrArg some hdelete.symm
  · rfl

/-- A draft that a change has been applied to has the same content and the same last intent when the
change is applied again. -/
theorem Coherent.apply_twice {d : Draft} (hd : d.Coherent models) {c : Change}
    (hc : c.Conforms models) (hidentity : c.identity = d.identity) (stamp stamp' : Nat) :
    ∃ once twice, d.apply c = .ok once ∧ once.apply c = .ok twice ∧
      twice.lastIntent = once.lastIntent ∧
      (twice.build stamp').map Snapshot.bare = (once.build stamp).map Snapshot.bare := by
  have hidentity' : c.identity = (c.applyTo d).identity :=
    hidentity.trans (Change.identity_applyTo c d).symm
  have hlayout : c.layout = d.layout := congrArg Identity.layout hidentity
  have hlayout' : c.layout = (c.applyTo d).layout := congrArg Identity.layout hidentity'
  have honce := Change.keepsCoherence_of_conforms hc d hd hlayout.symm
  have htwice := Change.keepsCoherence_of_conforms hc _ honce hlayout'.symm
  have hkey : d.key = c.key := (congrArg Identity.key hidentity).symm
  have hkey' : (c.applyTo d).key = c.key := (congrArg Identity.key hidentity').symm
  refine ⟨c.applyTo d, c.applyTo (c.applyTo d), ?_, ?_, ?_, ?_⟩
  · rw [apply_eq, if_pos hkey]
  · rw [apply_eq, if_pos hkey']
  · rw [lastIntent_applyTo, lastIntent_applyTo]
  · rw [build, build, buildsContent_of_coherent htwice, buildsContent_of_coherent honce]
    exact Change.content_applyTo_of_content hc hd honce hlayout hlayout' rfl

end Draft

end VersionedRecords
