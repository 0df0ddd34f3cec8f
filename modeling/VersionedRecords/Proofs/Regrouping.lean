import VersionedRecords.Proofs.Accumulating
import VersionedRecords.Proofs.Exactness
import VersionedRecords.Proofs.MergedChange

/-!
Batches of batches.

The changes of a history are merged piece by piece, and what the pieces are merged into is merged
again.  A change that was merged has forgotten what its first part was, so another row of the table
of intents may be used for it than for the changes themselves.  What is merged leads from the first
version to the last all the same, since it is known by what it does: it suits the version that it
leads from and makes the content of the version that it leads to.
-/

namespace VersionedRecords

open Draft

namespace Snapshot

/-- The version is one of the record: it conforms and has plain values only, or there is none. -/
def IsVersion (models : String → Layout) (identity : Identity) (s : Option Snapshot) : Prop :=
  ∀ t ∈ s, t.identity = identity ∧ t.Conforms models ∧ t.isPlain = true

/-- The values of a version, all of them zero if there is none. -/
def valuesOf (identity : Identity) (s : Option Snapshot) : List (Value Snapshot) :=
  (orEmpty identity s).fields

/-- The content of all values of a version. -/
def contents (identity : Identity) (s : Option Snapshot) : List (Value Snapshot) :=
  (valuesOf identity s).map bareValue

/-- What becomes of a record from one version to the next. -/
def becomes : Option Snapshot → Option Snapshot → Except IdentityMismatch (Option Change)
  | none, none => .ok none
  | none, some s => .ok (s.toChange .add)
  | some r, none => .ok (r.toChange .delete)
  | some r, some s => s.edit.diffAgainst .update r

/-- What becomes of a record from version to version. -/
def history : Option Snapshot → List (Option Snapshot) → Except IdentityMismatch (List Change)
  | _, [] => .ok []
  | r, s :: rest => do
    let found ← becomes r s
    let later ← history s rest
    return found.toList ++ later

/-- The draft over a version, or a new one. -/
def draftOver (identity : Identity) (s : Option Snapshot) : Draft :=
  s.elim (.new identity.layout identity.key) edit

end Snapshot

/-- Merges changes of one record; of no changes comes none. -/
def Change.merge : List Change → Except IdentityMismatch (Option Change)
  | [] => .ok none
  | c :: cs => (cs.foldlM Accumulator.add (.ofChange c)).map Accumulator.build

/-- Applies what has been merged, if anything. -/
def Draft.applyAny (d : Draft) (merged : Option Change) : Except IdentityMismatch Draft :=
  merged.elim (.ok d) d.apply

variable {models : String → Layout} {identity : Identity}

/-! ### Versions -/

namespace Snapshot

variable {r s t : Option Snapshot}

theorem IsVersion.isBase (hs : IsVersion models identity s) :
    IsBase models identity.layout (valuesOf identity s) :=
  isBase_fields (conforms_orEmpty identity fun t ht => (hs t ht).2.1)
    (isPlain_orEmpty identity fun t ht => (hs t ht).2.2)
    (congrArg Identity.layout (identity_orEmpty fun t ht => (hs t ht).1))

/-- A version that is there is told by its contents. -/
theorem IsVersion.map_bare (hs : IsVersion models identity s) (hne : s ≠ none) :
    s.map bare = some ⟨identity.layout, identity.key, .zero, contents identity s⟩ := by
  obtain ⟨t, rfl⟩ := Option.ne_none_iff_exists'.1 hne
  obtain ⟨rfl, -⟩ := hs t rfl
  rw [Option.map_some, bare_eq]
  rfl

theorem contents_congr (h : s.map bare = t.map bare) :
    contents identity s = contents identity t := by
  cases s with
  | none =>
      cases t with
      | none => rfl
      | some t => cases h
  | some s =>
      cases t with
      | none => cases h
      | some t =>
          have hfields := congrArg fields (Option.some.inj h)
          rwa [fields_bare, fields_bare] at hfields

theorem eq_none_iff_of_map_bare (h : s.map bare = t.map bare) : s = none ↔ t = none := by
  rw [← Option.map_eq_none_iff, h, Option.map_eq_none_iff]

theorem begun_draftOver (hs : IsVersion models identity s) :
    (draftOver identity s).Begun identity (valuesOf identity s) := by
  cases s with
  | none => exact begun_new identity.layout identity.key
  | some t =>
      obtain ⟨rfl, -⟩ := hs t rfl
      exact begun_edit t

end Snapshot

open Snapshot

variable {r s t : Option Snapshot} {c : Change} {a : Accumulator}

/-! ### Changes that lead from one version to another -/

/-- The change suits the one version and makes the content of the other from it. -/
structure Change.Carries (models : String → Layout) (identity : Identity) (s : Option Snapshot)
    (c : Change) (t : Option Snapshot) : Prop where
  wellFormed : c.WellFormed models
  identity_eq : c.identity = identity
  suits : Change.FieldsSuit c.fields (contents identity s)
  acts : (Change.applyFields c.fields ((valuesOf identity s).map .deferred)).map contentSlot =
    contents identity t
  deleted_iff : c.intent = .delete ↔ t = none

namespace Change.Carries

/-- What is found between two versions leads from the one to the other. -/
theorem of_recordChange? (hs : IsVersion models identity s) (ht : IsVersion models identity t)
    (hc : recordChange? s t = some c) :
    Change.Carries models identity s c t ∧ (s = none → c.intent = .add) := by
  obtain ⟨hdiff, hdelete, hadd⟩ := diffFrom_of_recordChange?
    (fun v hv => ⟨(hs v hv).1, (hs v hv).2.1⟩) (fun v hv => (ht v hv).1) hc
  have hidentity : (orEmpty identity t).identity = identity :=
    identity_orEmpty fun v hv => (ht v hv).1
  have hconforms : (orEmpty identity t).Conforms models :=
    conforms_orEmpty identity fun v hv => (ht v hv).2.1
  have hplain : (orEmpty identity t).isPlain = true :=
    isPlain_orEmpty identity fun v hv => (ht v hv).2.2
  have hbase : IsBase models (orEmpty identity t).layout (valuesOf identity s) := by
    rw [show (orEmpty identity t).layout = identity.layout from congrArg Identity.layout hidentity]
    exact hs.isBase
  refine ⟨⟨wellFormed_of_diffFrom hconforms hplain hbase hdiff,
    (of_diffFrom hdiff).1.trans hidentity, ?_, ?_, hdelete⟩, hadd⟩
  · exact (findsSuiting_of_conforms hconforms hplain c.intent _ hbase c hdiff).2
  · exact Accumulator.contents_applyFields_of_diffFrom hconforms hplain hbase hdiff

theorem layout_eq (h : Carries models identity s c t) : c.layout = identity.layout :=
  congrArg Identity.layout h.identity_eq

/-- The change makes the content of the later version in every draft that has the content of the
earlier one. -/
theorem acts_on (h : Carries models identity s c t) (hs : IsVersion models identity s)
    {ss : List (Slot Snapshot Draft)}
    (hss : List.Forall₂ (SlotCoheres models) identity.layout.kinds ss)
    (hcontents : ss.map contentSlot = contents identity s) :
    (applyFields c.fields ss).map contentSlot = contents identity t := by
  obtain ⟨hcoheres, -, hdeferred⟩ := Accumulator.slots_deferred hs.isBase
  rw [← h.acts]
  rw [← h.layout_eq] at hss hcoheres
  refine actsOnContent h.wellFormed _ _ hss hcoheres (hcontents.trans hdeferred.symm) ?_
  rw [hdeferred]
  exact h.suits

/-- Only the content of the earlier version counts. -/
theorem congr_left (h : Carries models identity s c t) (hs : IsVersion models identity s)
    (hr : IsVersion models identity r) (hcontents : contents identity r = contents identity s) :
    Carries models identity r c t := by
  obtain ⟨hcoheres, -, hdeferred⟩ := Accumulator.slots_deferred hr.isBase
  refine ⟨h.wellFormed, h.identity_eq, hcontents ▸ h.suits, ?_, h.deleted_iff⟩
  exact h.acts_on hs hcoheres (hdeferred.trans hcontents)

end Change.Carries

/-! ### What has been gathered -/

namespace Accumulator

/-- What is pending suits the one version and makes the content of the other from it. -/
structure Gathers (models : String → Layout) (identity : Identity) (s : Option Snapshot)
    (a : Accumulator) (t : Option Snapshot) : Prop where
  identity_eq : a.identity = identity
  settled : a.state.Settled
  turns : Turns models identity.layout.kinds (contents identity s) a.fields (contents identity t)
  suits : Change.FieldsSuit (settleFields a.fields) (contents identity s)
  deleted_iff : a.state.current = .delete ↔ t = none

theorem gathers_ofChange (hs : IsVersion models identity s)
    (hc : Change.Carries models identity s c t) :
    Gathers models identity s (ofChange c) t := by
  have hsettled := settleFields_ofChange hc.wellFormed
  rw [ofChange_eq hc.wellFormed] at hsettled ⊢
  refine ⟨hc.identity_eq, IntentState.settled_start c.intent, ?_, ?_, hc.deleted_iff⟩
  · have hbase := hs.isBase
    rw [← hc.layout_eq] at hbase ⊢
    exact (turns_zeros c.layout.kinds _).absorb_of_suits hc.wellFormed hbase hc.suits hc.acts
  · rw [hsettled]
    exact hc.suits

/-- Merging what leads on from the later version. -/
theorem Gathers.absorb (h : Gathers models identity r a s) (hr : IsVersion models identity r)
    (hs : IsVersion models identity s) (hc : Change.Carries models identity s c t) :
    Gathers models identity r (absorb c a) t := by
  obtain ⟨hcoheres, hplain, hdeferred⟩ := slots_deferred hr.isBase
  have hturns := h.turns
  have hbase := hs.isBase
  rw [← hc.layout_eq] at hturns hbase hcoheres
  rw [absorb_eq]
  refine ⟨h.identity_eq, IntentState.settled_absorb a.state c.intent, ?_, ?_, ?_⟩
  · rw [← hc.layout_eq]
    exact hturns.absorb_of_suits hc.wellFormed hbase hc.suits hc.acts
  · have hturned := hturns.content_eq _ hcoheres hplain hdeferred
    have hmerged := suitsWhenMerged hc.wellFormed a.fields _ hturns.sound hcoheres hplain
      (hdeferred.symm ▸ h.suits) (hturned.symm ▸ hc.suits)
    rwa [hdeferred] at hmerged
  · rw [IntentState.current_absorb_eq_delete_iff]
    exact hc.deleted_iff

theorem Gathers.congr_right (h : Gathers models identity r a s) (hst : s.map bare = t.map bare) :
    Gathers models identity r a t :=
  ⟨h.identity_eq, h.settled, contents_congr hst ▸ h.turns, h.suits,
    h.deleted_iff.trans (eq_none_iff_of_map_bare hst)⟩

theorem Gathers.sound (h : Gathers models identity s a t) :
    List.Forall₂ (PendingSound models) a.layout.kinds a.fields := by
  rw [show a.layout = identity.layout from congrArg Identity.layout h.identity_eq]
  exact h.turns.sound

/-- The change that is built leads from the one version to the other. -/
theorem Gathers.carries (h : Gathers models identity s a t) (hs : IsVersion models identity s)
    (hbuild : build a = some c) : Change.Carries models identity s c t := by
  obtain ⟨hcoheres, hplain, hdeferred⟩ := slots_deferred hs.isBase
  have hwf := wellFormed_of_build h.sound hbuild
  obtain rfl := eq_of_build hbuild
  exact ⟨hwf, h.identity_eq, h.suits, h.turns.content_eq _ hcoheres hplain hdeferred,
    h.deleted_iff⟩

/-- If no change is built, then the values have stayed the same. -/
theorem Gathers.of_silent (h : Gathers models identity s a t) (hs : IsVersion models identity s)
    (hbuild : build a = none) :
    a.state.current = .update ∧ t ≠ none ∧ contents identity s = contents identity t := by
  rw [build_eq_ite h.sound] at hbuild
  split at hbuild
  · next hsilent =>
    refine ⟨hsilent.1, fun hnone => ?_, h.turns.eq_of_untouched hs.isBase hsilent.2⟩
    have hdelete := h.deleted_iff.2 hnone
    rw [hsilent.1] at hdelete
    cases hdelete
  · cases hbuild

end Accumulator

/-! ### Merging what leads from version to version -/

namespace Change

/-- The changes lead from the one version to the other, each to the version that the next of them
leads from. -/
inductive Leads (models : String → Layout) (identity : Identity) :
    Option Snapshot → List Change → Option Snapshot → Prop
  | same {r t : Option Snapshot} (h : r.map bare = t.map bare) : Leads models identity r [] t
  | step {r s t : Option Snapshot} {c : Change} {cs : List Change}
      (hs : IsVersion models identity s) (hc : Carries models identity r c s)
      (hcs : Leads models identity s cs t) : Leads models identity r (c :: cs) t

variable {cs ds : List Change}

theorem Leads.congr_left (h : Leads models identity s cs t) (hs : IsVersion models identity s)
    (hr : IsVersion models identity r) (hrs : r.map bare = s.map bare) :
    Leads models identity r cs t := by
  cases h with
  | same h => exact .same (hrs.trans h)
  | step hnext hc hcs => exact .step hnext (hc.congr_left hs hr (contents_congr hrs)) hcs

theorem Leads.append (h : Leads models identity r cs s) (h' : Leads models identity s ds t)
    (hr : IsVersion models identity r) (hs : IsVersion models identity s) :
    Leads models identity r (cs ++ ds) t := by
  induction h with
  | same h => exact h'.congr_left hs hr h
  | step hnext hc hcs ih => exact .step hnext hc (ih h' hnext hs)

end Change

open Change

variable {cs ds : List Change}

/-- Adding changes that lead on from what has been gathered never fails. -/
theorem Accumulator.Gathers.foldlM (h : Gathers models identity r a s)
    (hr : IsVersion models identity r) (hs : IsVersion models identity s)
    (hcs : Leads models identity s cs t) :
    ∃ b, cs.foldlM add a = .ok b ∧ Gathers models identity r b t ∧
      b.state.initial = a.state.initial := by
  induction hcs generalizing a with
  | same hst => exact ⟨a, rfl, h.congr_right hst, rfl⟩
  | @step s next t c cs hnext hc hcs ih =>
      obtain ⟨b, hb, hgathers, hinitial⟩ := ih (h.absorb hr hs hc) hnext
      have hkey : a.key = c.key := congrArg Identity.key (h.identity_eq.trans hc.identity_eq.symm)
      refine ⟨b, ?_, hgathers, hinitial.trans ?_⟩
      · rw [List.foldlM_cons, add, requireSameKey, if_pos hkey]
        exact hb
      · rw [absorb_eq]
        exact IntentState.initial_absorb a.state c.intent

/-- What changes that lead from one version to another are merged into. -/
structure Change.Summarises (models : String → Layout) (identity : Identity) (r : Option Snapshot)
    (cs : List Change) (t : Option Snapshot) (merged : Option Change) : Prop where
  carries : ∀ c ∈ merged, Carries models identity r c t
  contents_eq : merged = none → contents identity r = contents identity t
  there : merged = none → cs = [] ∨ t ≠ none
  same : merged = none → (r = none → ∀ c ∈ cs.head?, c.intent = .add) →
    r.map bare = t.map bare

/-- Changes that lead from one version to another can be merged, and what they are merged into leads
from the one to the other. -/
theorem exists_summary (hr : IsVersion models identity r) (ht : IsVersion models identity t)
    (hcs : Leads models identity r cs t) :
    ∃ merged, merge cs = .ok merged ∧ Summarises models identity r cs t merged := by
  cases hcs with
  | same h =>
      exact ⟨none, rfl, by simp, fun _ => contents_congr h, fun _ => .inl rfl, fun _ _ => h⟩
  | @step _ s _ c cs hs hc hcs =>
      obtain ⟨a, ha, hgathers, hinitial⟩ :=
        (Accumulator.gathers_ofChange hr hc).foldlM hr hs hcs
      refine ⟨a.build, ?_, fun x hx => hgathers.carries hr hx, fun hsilent => ?_,
        fun hsilent => ?_, fun hsilent hadd => ?_⟩
      · rw [merge, ha]
        rfl
      · exact (hgathers.of_silent hr hsilent).2.2
      · exact .inr (hgathers.of_silent hr hsilent).2.1
      · obtain ⟨hupdate, hthere, hcontents⟩ := hgathers.of_silent hr hsilent
        -- Of a record that was not there a creation would have been pending, and no update.
        rw [Accumulator.ofChange_eq hc.wellFormed] at hinitial
        have hbefore : r ≠ none := fun hnone =>
          hgathers.settled.initial_ne_add hupdate (hinitial.trans (hadd hnone c rfl))
        rw [hr.map_bare hbefore, ht.map_bare hthere, hcontents]

theorem Change.Summarises.leads {o : Option Change} (h : Summarises models identity r cs t o)
    (ht : IsVersion models identity t) (hadd : r = none → ∀ c ∈ cs.head?, c.intent = .add) :
    Leads models identity r o.toList t := by
  cases o with
  | none => exact .same (h.same rfl hadd)
  | some c => exact .step ht (h.carries c rfl) (.same rfl)

theorem Change.Summarises.nil_of_absent (h : Summarises models identity r cs t none)
    (ht : t = none) : cs = [] :=
  (h.there rfl).resolve_right fun hne => hne ht

/-- Nothing comes of two pieces that end with a record that is not there only if there has been no
change at all. -/
theorem Change.Summarises.append_eq_nil (h : Summarises models identity r cs s none)
    (h' : Summarises models identity s ds t none) (hds : Leads models identity s ds t)
    (ht : t = none) : cs ++ ds = [] := by
  obtain rfl := h'.nil_of_absent ht
  cases hds with
  | same hst =>
      rw [h.nil_of_absent ((eq_none_iff_of_map_bare hst).2 ht), List.nil_append]

/-! ### Histories -/

namespace Snapshot

theorem becomes_eq (hr : IsVersion models identity r) (hs : IsVersion models identity s) :
    becomes r s = .ok (recordChange? r s) := by
  cases r with
  | none => cases s <;> rfl
  | some r =>
      cases s with
      | none => rfl
      | some s =>
          have hidentity : r.identity = s.identity := (hr r rfl).1.trans (hs s rfl).1.symm
          rw [recordChange?, if_pos hidentity]
          exact diffAgainst_edit hidentity .update

/-- Going from version to version never fails and finds changes that lead from the first version to
the last.  The first change of a record that was not there creates it, and if there is no change,
then all versions are the same. -/
theorem exists_history (hr : IsVersion models identity r) {later : List (Option Snapshot)}
    (hlater : ∀ s ∈ later, IsVersion models identity s) :
    ∃ cs, history r later = .ok cs ∧ Leads models identity r cs (later.getLast?.getD r) ∧
      (r = none → ∀ c ∈ cs.head?, c.intent = .add) ∧
      (cs = [] → ∀ s ∈ later, s.map bare = r.map bare) := by
  induction later generalizing r with
  | nil => exact ⟨[], rfl, .same rfl, by simp, by simp⟩
  | cons s later ih =>
      rw [List.forall_mem_cons] at hlater
      obtain ⟨hs, hlater⟩ := hlater
      obtain ⟨cs, hhistory, hleads, hadd, hempty⟩ := ih hs hlater
      refine ⟨(recordChange? r s).toList ++ cs, ?_, ?_⟩
      · rw [history, becomes_eq hr hs, hhistory]
        rfl
      · rw [List.getLast?_cons, Option.getD_some]
        cases hchange : recordChange? r s with
        | none =>
            have hsame := (recordChange?_eq_none_iff (fun t ht => (hr t ht).2)
              fun t ht => (hs t ht).2).1 hchange
            refine ⟨hleads.congr_left hs hr hsame, fun hnone => ?_, fun hnil => ?_⟩
            · exact hadd ((eq_none_iff_of_map_bare hsame).1 hnone)
            · refine List.forall_mem_cons.2 ⟨hsame.symm, fun t ht => ?_⟩
              exact (hempty hnil t ht).trans hsame.symm
        | some c =>
            obtain ⟨hc, hcreates⟩ := Carries.of_recordChange? hr hs hchange
            refine ⟨.step hs hc hleads, fun hnone x hx => ?_, fun hnil => by simp at hnil⟩
            obtain rfl : c = x := by simpa using hx
            exact hcreates hnone

theorem isVersion_getLast (hr : IsVersion models identity r) {later : List (Option Snapshot)}
    (hlater : ∀ s ∈ later, IsVersion models identity s) :
    IsVersion models identity (later.getLast?.getD r) := by
  cases hget : later.getLast? with
  | none => exact hr
  | some s => exact hlater s (List.mem_of_getLast? hget)

/-! ### Applying what is merged -/

theorem coherent_draftOver (hs : IsVersion models identity s) :
    (draftOver identity s).Coherent models := by
  cases s with
  | none => exact coherent_new identity.layout identity.key
  | some s => exact coherent_edit (hs s rfl).2.1

/-- Applying a change that leads from one version to another to a draft over the one builds the
other. -/
theorem exists_applied (hs : IsVersion models identity s) (ht : IsVersion models identity t)
    (hc : Carries models identity s c t) :
    ∃ d, (draftOver identity s).apply c = .ok d ∧
      ∀ stamp, (d.build stamp).map bare = t.map bare := by
  have hbegun := begun_draftOver hs
  have hcoherent := coherent_draftOver hs
  generalize draftOver identity s = d at hbegun hcoherent
  have hidentity := hbegun.identity_eq
  have hkey : d.key = c.key := congrArg Identity.key (hidentity.trans hc.identity_eq.symm)
  have hlayout : d.layout = c.layout :=
    congrArg Identity.layout (hidentity.trans hc.identity_eq.symm)
  have happlied : (c.applyTo d).Coherent models :=
    Change.keepsCoherence_of_conforms hc.wellFormed.conforms d hcoherent hlayout
  refine ⟨c.applyTo d, by rw [Draft.apply_eq, if_pos hkey], fun stamp => ?_⟩
  rw [Draft.build, buildsContent_of_coherent happlied]
  by_cases hdelete : c.intent = .delete
  · rw [content_applyTo_delete hdelete, hc.deleted_iff.1 hdelete]
    rfl
  · have hslots := (coherent_iff.1 hcoherent).2
    have hcontents := fields_of_content (content_of_begun hbegun)
    rw [hlayout, hc.layout_eq] at hslots
    rw [content_applyTo_of_ne_delete hdelete, hc.acts_on hs hslots hcontents.symm,
      ht.map_bare fun hnone => hdelete (hc.deleted_iff.2 hnone), hlayout, hkey,
      ← hc.identity_eq]
    rfl

/-- A draft that nothing is applied to builds every version that is there with the same contents. -/
theorem build_draftOver (hs : IsVersion models identity s) (ht : IsVersion models identity t)
    (hcontents : contents identity s = contents identity t) (hthere : t ≠ none) (stamp : Nat) :
    ((draftOver identity s).build stamp).map bare = t.map bare := by
  rw [Draft.build, buildsContent_of_coherent (coherent_draftOver hs),
    content_of_begun (begun_draftOver hs), ht.map_bare hthere, ← hcontents]
  rfl

/-- Applying what has been merged, if anything, to a draft over the one version builds the other. -/
def Rebuilds (identity : Identity) (s : Option Snapshot) (merged : Option Change)
    (t : Option Snapshot) : Prop :=
  ∃ d, (draftOver identity s).applyAny merged = .ok d ∧
    ∀ stamp, (d.build stamp).map bare = t.map bare

theorem rebuilds_of_summarises {cs : List Change} {o : Option Change}
    (h : Summarises models identity s cs t o) (hs : IsVersion models identity s)
    (ht : IsVersion models identity t) (hthere : o = none → t ≠ none) :
    Rebuilds identity s o t := by
  cases o with
  | none =>
      exact ⟨_, rfl, fun stamp => build_draftOver hs ht (h.contents_eq rfl) (hthere rfl) stamp⟩
  | some c => exact exists_applied hs ht (h.carries c rfl)

/-! ### Batches of batches -/

variable {front back : List (Option Snapshot)}

theorem history_append (r : Option Snapshot) (front back : List (Option Snapshot)) :
    history r (front ++ back) = do
      let cs ← history r front
      let ds ← history (front.getLast?.getD r) back
      return cs ++ ds := by
  induction front generalizing r with
  | nil =>
      change history r back = (history r back).bind .ok
      cases history r back <;> rfl
  | cons s front ih =>
      simp only [List.cons_append, history, ih, List.getLast?_cons, Option.getD_some, bind_assoc,
        pure_bind, List.append_assoc]

theorem absent_of_same {later : List (Option Snapshot)}
    (hsame : ∀ s ∈ later, s.map bare = r.map bare) (hlast : later.getLast?.getD r = none) :
    ∀ s ∈ r :: later, s = none := by
  have hfirst : r = none := by
    cases hget : later.getLast? with
    | none => rwa [hget] at hlast
    | some s =>
        rw [hget, Option.getD_some] at hlast
        exact (eq_none_iff_of_map_bare (hsame s (List.mem_of_getLast? hget))).1 hlast
  exact List.forall_mem_cons.2
    ⟨hfirst, fun s hs => (eq_none_iff_of_map_bare (hsame s hs)).2 hfirst⟩

/-- Nothing becomes of a record that is never there. -/
theorem history_of_absent {later : List (Option Snapshot)} (h : ∀ s ∈ later, s = none) :
    history none later = .ok [] := by
  induction later with
  | nil => rfl
  | cons s later ih =>
      rw [List.forall_mem_cons] at h
      obtain ⟨rfl, h⟩ := h
      rw [history, ih h]
      rfl

/-- The changes of a record that is there at least once are merged in two pieces, and then what the
pieces are merged into is merged.  What comes of it takes the first version to the last, as what
comes of merging all changes at once does.  If the record is never there, nothing comes of
either. -/
theorem rebuilds_of_regrouped {first : Option Snapshot}
    (hversions : ∀ s ∈ first :: (front ++ back), IsVersion models identity s) :
    ∃ cs ds p q m w, history first front = .ok cs ∧
      history first (front ++ back) = .ok (cs ++ ds) ∧ merge cs = .ok p ∧ merge ds = .ok q ∧
      merge (p.toList ++ q.toList) = .ok m ∧ merge (cs ++ ds) = .ok w ∧
      ((∃ s ∈ first :: (front ++ back), s ≠ none) →
        Rebuilds identity first m ((front ++ back).getLast?.getD first) ∧
        Rebuilds identity first w ((front ++ back).getLast?.getD first)) ∧
      ((∀ s ∈ first :: (front ++ back), s = none) → m = none ∧ w = none) := by
  simp only [List.forall_mem_cons, List.forall_mem_append] at hversions
  obtain ⟨hfirst, hfront, hback⟩ := hversions
  have hmid := isVersion_getLast hfirst hfront
  have hlast := isVersion_getLast hmid hback
  obtain ⟨cs, hcs, hcsleads, hcsadd, -⟩ := exists_history hfirst hfront
  obtain ⟨ds, hds, hdsleads, hdsadd, -⟩ := exists_history hmid hback
  obtain ⟨es, hes, -, -, hempty⟩ :=
    exists_history hfirst (List.forall_mem_append.2 ⟨hfront, hback⟩)
  obtain rfl : cs ++ ds = es := by
    rw [history_append, hcs, hds] at hes
    exact Except.ok.inj hes
  have habsent : cs ++ ds = [] → (front ++ back).getLast?.getD first = none →
      ∀ s ∈ first :: (front ++ back), s = none := fun hnil => absent_of_same (hempty hnil)
  rw [List.getLast?_append, Option.getD_or] at habsent ⊢
  generalize front.getLast?.getD first = mid at *
  generalize back.getLast?.getD mid = last at *
  obtain ⟨p, hp, hpsum⟩ := exists_summary hfirst hmid hcsleads
  obtain ⟨q, hq, hqsum⟩ := exists_summary hmid hlast hdsleads
  obtain ⟨m, hm, hmsum⟩ := exists_summary hfirst hlast
    ((hpsum.leads hmid hcsadd).append (hqsum.leads hlast hdsadd) hfirst hmid)
  obtain ⟨w, hw, hwsum⟩ := exists_summary hfirst hlast (hcsleads.append hdsleads hfirst hmid)
  refine ⟨cs, ds, p, q, m, w, hcs, hes, hp, hq, hm, hw, fun ⟨s, hs, hne⟩ => ⟨?_, ?_⟩,
    fun hnever => ?_⟩
  · refine rebuilds_of_summarises hmsum hfirst hlast fun hsilent hnone => ?_
    subst hsilent
    obtain ⟨hpnil, hqnil⟩ := List.append_eq_nil_iff.1 (hmsum.nil_of_absent hnone)
    rw [Option.toList_eq_nil_iff] at hpnil hqnil
    subst hpnil hqnil
    exact hne (habsent (hpsum.append_eq_nil hqsum hdsleads hnone) hnone s hs)
  · refine rebuilds_of_summarises hwsum hfirst hlast fun hsilent hnone => ?_
    subst hsilent
    exact hne (habsent (hwsum.nil_of_absent hnone) hnone s hs)
  · obtain ⟨rfl, hlater⟩ := List.forall_mem_cons.1 hnever
    rw [history_of_absent hlater] at hes
    obtain ⟨rfl, rfl⟩ := List.append_eq_nil_iff.1 (Except.ok.inj hes).symm
    cases hp
    cases hq
    cases hm
    cases hw
    exact ⟨rfl, rfl⟩

/-- A node is created with nothing but zero values and deleted in the one piece, and it is created
again in the other. -/
theorem rebuilds_of_recreated :
    ∃ cs ds p q m, history none [some (empty Samples.node (.int 1) .zero), none] = .ok cs ∧
      history none [some (empty Samples.node (.int 1) .zero), none,
        some (empty Samples.node (.int 1) .zero)] = .ok (cs ++ ds) ∧
      merge cs = .ok p ∧ merge ds = .ok q ∧ merge (p.toList ++ q.toList) = .ok m ∧
      Rebuilds ⟨Samples.node, .int 1⟩ none m (some (empty Samples.node (.int 1) .zero)) := by
  have habsent : IsVersion Samples.nodes ⟨Samples.node, .int 1⟩ none := by rintro t ⟨⟩
  have hzeros : IsVersion Samples.nodes ⟨Samples.node, .int 1⟩
      (some (empty Samples.node (.int 1) .zero)) := by
    rintro t ⟨⟩
    exact ⟨rfl, conforms_empty _ _ _, isPlain_empty _ _ _⟩
  have hversions : ∀ s ∈ none :: ([some (empty Samples.node (.int 1) .zero), none] ++
      [some (empty Samples.node (.int 1) .zero)]),
      IsVersion Samples.nodes ⟨Samples.node, .int 1⟩ s := by
    simp [habsent, hzeros]
  obtain ⟨cs, ds, p, q, m, w, hcs, hds, hp, hq, hm, -, hrebuilds, -⟩ :=
    rebuilds_of_regrouped hversions
  exact ⟨cs, ds, p, q, m, hcs, hds, hp, hq, hm, (hrebuilds ⟨_, .tail _ (.head _), nofun⟩).1⟩

/-- The record has to be there at least once.  Nothing becomes of a record that is never there, and
a new draft to which nothing is applied builds the record of zeros all the same. -/
theorem not_rebuilds_of_absent :
    ¬ ∀ (identity : Identity) (first : Option Snapshot) (front back : List (Option Snapshot)),
      (∀ s ∈ first :: (front ++ back), IsVersion Samples.nodes identity s) →
        ∃ cs ds p q m, history first front = .ok cs ∧
          history first (front ++ back) = .ok (cs ++ ds) ∧ merge cs = .ok p ∧
          merge ds = .ok q ∧ merge (p.toList ++ q.toList) = .ok m ∧
          Rebuilds identity first m ((front ++ back).getLast?.getD first) := by
  intro hall
  have habsent : IsVersion Samples.nodes ⟨Samples.node, .int 1⟩ none := by rintro t ⟨⟩
  obtain ⟨cs, ds, p, q, m, hcs, hds, hp, hq, hm, d, hd, hbuild⟩ :=
    hall ⟨Samples.node, .int 1⟩ none [none] [none] (by simp [habsent])
  cases hcs
  cases hds
  cases hp
  cases hq
  cases hm
  cases hd
  have hnothing := hbuild 0
  rw [Draft.build, buildsContent_of_coherent (coherent_draftOver habsent),
    content_of_begun (begun_draftOver habsent)] at hnothing
  cases hnothing

end Snapshot

end VersionedRecords
