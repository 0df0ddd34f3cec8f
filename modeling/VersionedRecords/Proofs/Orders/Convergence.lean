import VersionedRecords.Proofs.Orders.Commits

/-!
Replicas converge.

Sessions that follow each other edit one order each, of any number, and commit.  The changes that
the commits tell may reach a replica in any order that keeps the changes of each single order in the
order of the commits.  What carries the proof is that under each key the changes sent form a chain:
each of them takes every book from the content before the commit to the content after it.
-/

namespace VersionedRecords.Orders

/-- Editing one order and committing what has become of it. -/
structure Session where
  key : Key
  edits : List Edit
  stamp : Nat

namespace Session

/-- The draft that the session commits to a book. -/
def draft (s : Session) (b : OrderBook) : Draft := (b.edit s.key).edited s.edits

/-- The edits can be asked of drafts of orders. -/
def Fits (s : Session) : Prop := ∀ e ∈ s.edits, e.Fits models order

end Session

namespace OrderBook

/-- The book after the sessions, and the changes that their commits have told. -/
def runSessions : OrderBook → List Session → OrderBook × List Change
  | b, [] => (b, [])
  | b, s :: rest =>
    let (b', told) := b.commit s.stamp (s.draft b)
    let (b'', later) := b'.runSessions rest
    (b'', told.toList ++ later)

theorem runSessions_of_silent {b : OrderBook} {s : Session} (hnone : (s.draft b).diff = none)
    (rest : List Session) : b.runSessions (s :: rest) = b.runSessions rest := by
  rw [runSessions, commit_of_silent hnone]
  rfl

theorem runSessions_of_told {b : OrderBook} {s : Session} {c : Change}
    (hsome : (s.draft b).diff = some c) (rest : List Session) :
    b.runSessions (s :: rest) =
      (((b.store (s.draft b).key ((s.draft b).build s.stamp)).runSessions rest).1,
        c :: ((b.store (s.draft b).key ((s.draft b).build s.stamp)).runSessions rest).2) := by
  rw [runSessions, commit_of_told hsome]
  rfl

/-- The book after changes made elsewhere. -/
def receive : OrderBook → List (Nat × Change) → Except IdentityMismatch OrderBook
  | r, [] => .ok r
  | r, (stamp, c) :: rest => do
    let r' ← r.apply stamp c
    r'.receive rest

/-- The changes of one order. -/
def changesOf (k : Key) (cs : List Change) : List Change := cs.filter fun c => c.key = k

theorem changesOf_cons_self {k : Key} {c : Change} (hk : c.key = k) (cs : List Change) :
    changesOf k (c :: cs) = c :: changesOf k cs :=
  List.filter_cons_of_pos (by simpa using hk)

theorem changesOf_cons_of_ne {k : Key} {c : Change} (hk : c.key ≠ k) (cs : List Change) :
    changesOf k (c :: cs) = changesOf k cs :=
  List.filter_cons_of_neg (by simpa using hk)

/-! ### One session -/

section

variable {b : OrderBook} {s : Session}

theorem Sound.draftOf_session (hb : b.Sound) (hs : s.Fits) : DraftOf s.key (s.draft b) :=
  (hb.draftOf_edit s.key).edited hs

theorem reference_session (b : OrderBook) (s : Session) :
    (s.draft b).reference = b.get? s.key :=
  (Draft.frame_edited s.edits (b.edit s.key)).2.trans (reference_edit b s.key)

theorem Sound.baseValues_session (hb : b.Sound) (hs : s.Fits) :
    (s.draft b).baseValues = b.values s.key := by
  rw [Draft.baseValues, reference_session, (hb.draftOf_session hs).layout_eq]
  rfl

/-- Nothing happens to an order while a session edits it. -/
theorem Sound.undisturbed_session (hb : b.Sound) (hs : s.Fits) (stamp : Nat) :
    Undisturbed (s.draft b) stamp (b.values s.key) := by
  intro m hm
  obtain ⟨hidentity, hconforms⟩ := (hb.draftOf_session hs).of_build hm
  have hlayout : m.layout = order := congrArg Identity.layout hidentity
  rw [hb.baseValues_session hs]
  exact Snapshot.follows_self hconforms (hlayout ▸ (hb.isBase_values s.key).conforms)

/-- A session that tells no change has built what is stored. -/
theorem Sound.content_of_silent (hb : b.Sound) (hs : s.Fits) (hnone : (s.draft b).diff = none) :
    (s.draft b).content = b.content s.key := by
  rw [(hb.draftOf_session hs).content_of_diff_eq_none hnone, reference_session]
  rfl

/-- The change takes every book from one content under its key to another. -/
structure Carries (before : Option Snapshot) (c : Change) (after : Option Snapshot) : Prop where
  layout_eq : c.layout = order
  fits : c.intent = .delete ∨ c.Conforms models
  content_eq : ∀ r : OrderBook, r.Sound → r.content c.key = before →
    (c.applyTo (r.edit c.key)).content = after

/-- What a session tells takes every book from what was stored to what the session has built. -/
theorem Sound.carries (hb : b.Sound) (hs : s.Fits) {c : Change}
    (hc : (s.draft b).diff = some c) :
    c.key = s.key ∧ Carries (b.content s.key) c (s.draft b).content := by
  have hdraft := hb.draftOf_session hs
  obtain ⟨hidentity, -⟩ := hdraft.of_diff hc
  have hkey : c.key = s.key := congrArg Identity.key hidentity
  refine ⟨hkey, congrArg Identity.layout hidentity, hdraft.conforms_of_diff hc, ?_⟩
  intro r hr hbefore
  rw [hkey] at hbefore ⊢
  rw [hdraft.content_applyTo_iff hr hc s.stamp, hdraft.undisturbed_congr s.stamp hr hb hbefore]
  exact hb.undisturbed_session hs s.stamp

end

/-! ### Chains of changes -/

/-- The changes, one after another, take every book from one content to another. -/
def Leads : Option Snapshot → List Change → Option Snapshot → Prop
  | before, [], after => before = after
  | before, c :: cs, after => ∃ between, Carries before c between ∧ Leads between cs after

/-- What sessions tell about an order leads from what was stored to what is stored in the end. -/
theorem Sound.leads_runSessions {b : OrderBook} (hb : b.Sound) {sessions : List Session}
    (hs : ∀ s ∈ sessions, s.Fits) :
    (b.runSessions sessions).1.Sound ∧
      ∀ k, Leads (b.content k) (changesOf k (b.runSessions sessions).2)
        ((b.runSessions sessions).1.content k) := by
  induction sessions generalizing b with
  | nil => exact ⟨hb, fun _ => rfl⟩
  | cons s rest ih =>
      rw [List.forall_mem_cons] at hs
      have hdraft := hb.draftOf_session hs.1
      cases hdiff : (s.draft b).diff with
      | none =>
          rw [runSessions_of_silent hdiff]
          exact ih hb hs.2
      | some c =>
          obtain ⟨hkey, hcarries⟩ := hb.carries hs.1 hdiff
          obtain ⟨hstored, hcontent⟩ := hb.store_build hdraft s.stamp
          obtain ⟨hsound, hleads⟩ := ih hstored hs.2
          rw [runSessions_of_told hdiff, hdraft.key_eq]
          refine ⟨hsound, fun k => ?_⟩
          have hrest := hleads k
          rw [hcontent k] at hrest
          by_cases hk : s.key = k
          · subst hk
            rw [if_pos rfl] at hrest
            rw [changesOf_cons_self hkey]
            exact ⟨_, hcarries, hrest⟩
          · rw [if_neg hk] at hrest
            rwa [changesOf_cons_of_ne (hkey ▸ hk)]

/-- Whatever order changes of different orders arrive in, a chain under each key takes the book to
the contents that the chains end with. -/
theorem Sound.receive_of_leads {r : OrderBook} (hr : r.Sound) {deliveries : List (Nat × Change)}
    {goal : Key → Option Snapshot}
    (hleads : ∀ k, Leads (r.content k) (changesOf k (deliveries.map Prod.snd)) (goal k)) :
    ∃ final, r.receive deliveries = .ok final ∧ final.Sound ∧ ∀ k, final.content k = goal k := by
  induction deliveries generalizing r with
  | nil => exact ⟨r, rfl, hr, hleads⟩
  | cons e rest ih =>
      obtain ⟨stamp, c⟩ := e
      rw [List.map_cons] at hleads
      have hlead := hleads c.key
      rw [changesOf_cons_self rfl] at hlead
      obtain ⟨between, hcarries, hlater⟩ := hlead
      have hdraft := hr.draftOf_applyTo hcarries.layout_eq hcarries.fits
      obtain ⟨hstored, hcontent⟩ := hr.store_build hdraft stamp
      rw [receive, hr.apply_eq]
      refine ih hstored fun k => ?_
      rw [hcontent k]
      by_cases hk : c.key = k
      · subst hk
        rw [if_pos rfl, hcarries.content_eq r hr rfl]
        exact hlater
      · have hlead := hleads k
        rw [changesOf_cons_of_ne hk] at hlead
        rwa [if_neg hk]

/-! ### Whole runs -/

/-- A replica that began as the primary and has received everything that the sessions told, the
changes of each order in the order of their commits, holds what the primary holds.  What a session
leaves untold has changed nothing. -/
theorem replica_converges {primary replica : OrderBook} (hp : primary.Reachable)
    (hr : replica.Reachable) (hstart : replica.same primary = true) {sessions : List Session}
    (hs : ∀ s ∈ sessions, s.Fits) {deliveries : List (Nat × Change)}
    (hd : ∀ k, changesOf k (deliveries.map Prod.snd) =
      changesOf k (primary.runSessions sessions).2) :
    (∃ final, replica.receive deliveries = .ok final ∧
      final.same (primary.runSessions sessions).1 = true) ∧
    ∀ b : OrderBook, b.Reachable → ∀ s : Session, s.Fits →
      (b.commit s.stamp (s.draft b)).2 = none →
        (b.commit s.stamp (s.draft b)).1 = b ∧ (s.draft b).content = b.content s.key := by
  refine ⟨?_, ?_⟩
  · obtain ⟨hprimary, hleads⟩ := hp.sound.leads_runSessions hs
    have hsame := (same_iff_content_eq hr.sound hp.sound).1 hstart
    obtain ⟨final, hreceive, hfinal, hcontent⟩ :=
      @Sound.receive_of_leads replica hr.sound deliveries (primary.runSessions sessions).1.content
        fun k => by
          rw [hsame k, hd k]
          exact hleads k
    exact ⟨final, hreceive, (same_iff_content_eq hfinal hprimary).2 hcontent⟩
  · intro b hb s hs hnone
    cases hdiff : (s.draft b).diff with
    | none =>
        rw [commit_of_silent hdiff]
        exact ⟨rfl, hb.sound.content_of_silent hs hdiff⟩
    | some c => simp [commit_of_told hdiff] at hnone

/-- Places the first order. -/
def placing : Session := ⟨.int 1, [setScalar "status" (.variant "Placed")], 0⟩

/-- Tags the second order. -/
def tagging : Session := ⟨.int 2, [.field "tags" (.insert (.text "gift"))], 1⟩

/-- The replica gets to know of the second order first. -/
theorem replica_converges_of_swapped :
    ∃ c c', (empty.runSessions [placing, tagging]).2 = [c, c'] ∧
      ∃ final, empty.receive [(2, c'), (3, c)] = .ok final ∧
        final.same (empty.runSessions [placing, tagging]).1 = true := by
  have hplacing : placing.Fits := by
    simpa [Session.Fits, placing] using fits_setStatus "Placed"
  have htagging : tagging.Fits := by
    simpa [Session.Fits, tagging] using fits_insertTag (.text "gift")
  have hempty := Reachable.empty.sound
  have hdraft := hempty.draftOf_session hplacing
  have hstored := (hempty.store_build hdraft 0).1
  obtain ⟨c, hc⟩ := @exists_diff (placing.draft empty) (by decide)
  obtain ⟨c', hc'⟩ := @exists_diff
    (tagging.draft (empty.store (.int 1) ((placing.draft empty).build 0)))
    (by decide)
  have hsent : (empty.runSessions [placing, tagging]).2 = [c, c'] := by
    rw [runSessions_of_told hc, hdraft.key_eq]
    exact congrArg (fun run => c :: run.2) (runSessions_of_told hc' [])
  obtain ⟨hkey, -⟩ := hempty.carries hplacing hc
  obtain ⟨hkey', -⟩ := hstored.carries htagging hc'
  have hne : c.key ≠ c'.key := by
    rw [hkey, hkey']
    decide
  have hswap : ∀ k, changesOf k ([(2, c'), (3, c)].map Prod.snd) =
      changesOf k (empty.runSessions [placing, tagging]).2 := by
    intro k
    rw [hsent]
    by_cases hk : c.key = k
    · have hk' : c'.key ≠ k := hk ▸ hne.symm
      simp [changesOf, hk, hk']
    · simp [changesOf, List.filter_cons, hk]
  have hsame : empty.same empty = true := (same_iff_content_eq hempty hempty).2 fun _ => rfl
  have hfits : ∀ s ∈ [placing, tagging], s.Fits := by simp [hplacing, htagging]
  exact ⟨c, c', hsent, (replica_converges .empty .empty hsame hfits hswap).1⟩

end OrderBook

end VersionedRecords.Orders
