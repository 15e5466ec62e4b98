import Entitlement.Proofs.Crowd.History

/-!
# Rows and their identifiers

An identifier is drawn once, and the request that drew it stores at most one row under it,
right after that. So an identifier stands for one row in all of a history, and a row that
is no longer there never comes back.
-/

set_option autoImplicit false

namespace Entitlement

variable {history : List Store} {a : Assignment} {q : Request} {log : Log} {c : Call}

def Terms.DrawsNew {κ : Type} (terms : Terms κ) : Prop :=
  ∀ s q log, terms.allows s q log .newId → s.world.nextId ∉ s.issued

theorem Request.Suspects.held (h : q.Suspects log a) (told : ∀ y ∈ log, y.StoredIn history) :
    a.HeldIn history := by
  cases h with
  | found shown began expired => exact (told _ shown).1
  | listed shown mem => exact (told _ shown a mem).1
  | named request shown => exact (told _ shown).1

theorem Request.May.grants {r : c.Answer} (may : q.May log c)
    (e : (⟨c, r⟩ : Exchange) = ⟨.insertAssignment a, .ok ()⟩) : q.Grants log a := by
  obtain rfl : c = .insertAssignment a := congrArg Exchange.call e
  exact may

namespace Crowd

variable {κ : Type} {terms : Terms κ} {s t : Crowd κ} {th : Thread κ}

structure Distinguished (s : Crowd κ) : Prop where
  distinct : Store.Distinct s.world.store.rows
  row_of_id : ∀ a b : Assignment, a.HeldIn s.history → b.HeldIn s.history → a.id = b.id → a = b
  issued : ∀ a : Assignment, a.HeldIn s.history → a.id.uuid ∈ s.issued
  drawn : ∀ (i : Nat) (th : Thread κ), s.threads[i]? = some th → ∀ id,
    ⟨.newId, id⟩ ∈ th.log → id ∈ s.issued
  drawn_once : ∀ (i j : Nat) (th th' : Thread κ), s.threads[i]? = some th →
    s.threads[j]? = some th' → ∀ id, ⟨.newId, id⟩ ∈ th.log → ⟨.newId, id⟩ ∈ th'.log → i = j
  pending : ∀ (i : Nat) (th : Thread κ), s.threads[i]? = some th → ∀ id before,
    th.log = ⟨.newId, id⟩ :: before → ∀ a : Assignment, a.HeldIn s.history → a.id.uuid ≠ id
  removed : s.Told fun _ x => ∀ id removed, x = ⟨.deleteAssignment id, .ok removed⟩ →
    ∃ a : Assignment, a.HeldIn s.history ∧ a.id = id ∧ a ∉ s.world.store.rows

theorem Distinguished.accept (h : s.Distinguished) (party : κ) (q : Request) :
    (s.accept party q).Distinguished where
  distinct := h.distinct
  row_of_id := h.row_of_id
  issued := h.issued
  drawn i th hth id hid := by
    rcases thread_of_accept hth with hth | rfl
    · exact h.drawn i th hth id hid
    · simp at hid
  drawn_once i j th th' hth hth' id hid hid' := by
    rcases thread_of_accept hth with hth | rfl
    · rcases thread_of_accept hth' with hth' | rfl
      · exact h.drawn_once i j th th' hth hth' id hid hid'
      · simp at hid'
    · simp at hid
  pending i th hth id before hlog := by
    rcases thread_of_accept hth with hth | rfl
    · exact h.pending i th hth id before hlog
    · simp at hlog
  removed := h.removed.accept party q

variable [DecidableEq κ]

section

variable {i : Nat} {party : κ} {next : c.Answer → Procedure (Except Fault q.Value)}
  (h : s.Distinguished) (stored : s.Stored)
  (running : s.threads[i]? = some ⟨party, q, log, .call c next⟩) (may : q.May log c)

theorem issued_grows : s.issued ⊆ (s.answered i party q log c next).issued := by
  unfold Crowd.answered Pool.draw
  cases c with
  | newId => exact List.subset_cons_self _ _
  | _ => exact List.Subset.refl _

include running in
/-- An identifier that a request has drawn was drawn before or is the one drawn just now. -/
theorem drawn_of_answered {j : Nat} {id : Uuid}
    (hth : (s.answered i party q log c next).threads[j]? = some th) (hid : ⟨.newId, id⟩ ∈ th.log) :
    (∃ th, s.threads[j]? = some th ∧ ⟨.newId, id⟩ ∈ th.log) ∨
      (j = i ∧ c = .newId ∧ id = s.world.nextId) := by
  rcases thread_of_answered hth with ⟨rfl, rfl⟩ | ⟨-, hth⟩
  · rcases List.mem_cons.mp hid with e | hid
    · obtain rfl := congrArg Exchange.call e
      obtain ⟨-, e⟩ := Exchange.mk.inj e
      exact .inr ⟨rfl, rfl, eq_of_heq e⟩
    · exact .inl ⟨_, running, hid⟩
  · exact .inl ⟨th, hth, hid⟩

include h running may

omit [DecidableEq κ] in
theorem Distinguished.new_id {r : c.Answer} {b : Assignment} (hb : b.HeldIn s.history)
    (e : (⟨c, r⟩ : Exchange) = ⟨.insertAssignment a, .ok ()⟩) : b.id ≠ a.id := by
  obtain ⟨before, hlog⟩ := (may.grants e).drawn
  exact fun hid => h.pending i _ running _ before hlog b hb (congrArg AssignmentId.uuid hid)

theorem Distinguished.gone_of_answered (ha : a.HeldIn s.history) (gone : a ∉ s.world.store.rows) :
    a ∉ (s.answered i party q log c next).world.store.rows := by
  intro back
  rcases (World.answer_rewrites party c s.world).mem back with back | e
  · exact gone back
  · exact h.new_id running may ha e rfl

include stored

/-- A row that is there stays, unless it is removed by itself or with its role. -/
theorem Distinguished.kept_of_answered (ha : a ∈ s.world.store.rows) :
    a ∈ (s.answered i party q log c next).world.store.rows ∨
      c = .deleteAssignment a.id ∨ c = .deleteRole a.roleId := by
  rcases (World.answer_rewrites party c s.world).mem_of_mem ha with
    ha | ⟨b, hid, e⟩ | ⟨removed, e⟩ | e
  · exact .inl ha
  · exact absurd hid.symm (h.new_id running may ⟨_, stored.current, ha⟩ e)
  · exact .inr (.inl (congrArg Exchange.call e))
  · exact .inr (.inr (congrArg Exchange.call e))

theorem Distinguished.answered (fresh : c = .newId → s.world.nextId ∉ s.issued) :
    (s.answered i party q log c next).Distinguished where
  distinct := (World.answer_rewrites party c s.world).distinct h.distinct
  row_of_id a b ha hb hid := by
    rcases stored.held_of_answered ha with ha | ea <;>
      rcases stored.held_of_answered hb with hb | eb
    · exact h.row_of_id a b ha hb hid
    · exact absurd hid (h.new_id running may ha eb)
    · exact absurd hid.symm (h.new_id running may hb ea)
    · simpa using congrArg Exchange.call (ea.symm.trans eb)
  issued a ha := by
    rcases stored.held_of_answered ha with ha | e
    · exact issued_grows (h.issued a ha)
    · obtain ⟨before, hlog⟩ := (may.grants e).drawn
      exact issued_grows (h.drawn i _ running _ (hlog ▸ List.mem_cons_self))
  drawn j th hth id hid := by
    rcases drawn_of_answered running hth hid with ⟨th, hth, hid⟩ | ⟨-, rfl, rfl⟩
    · exact issued_grows (h.drawn j th hth id hid)
    · exact List.mem_cons_self
  drawn_once j k th th' hth hth' id hid hid' := by
    rcases drawn_of_answered running hth hid with ⟨u, hu, hid⟩ | ⟨rfl, hc, hnext⟩ <;>
      rcases drawn_of_answered running hth' hid' with ⟨v, hv, hid'⟩ | ⟨hk, hc', hnext'⟩
    · exact h.drawn_once j k u v hu hv id hid hid'
    · exact absurd (hnext' ▸ h.drawn j u hu id hid) (fresh hc')
    · exact absurd (hnext ▸ h.drawn k v hv id hid') (fresh hc)
    · exact hk.symm
  pending j th hth id before hlog a ha := by
    rcases thread_of_answered hth with ⟨rfl, rfl⟩ | ⟨hne, hth⟩
    · -- drawn just now, and so not the identifier of a row
      obtain ⟨e, -⟩ := List.cons.inj hlog
      obtain rfl : c = .newId := congrArg Exchange.call e
      rcases stored.held_of_answered ha with ha | e'
      · rintro rfl
        obtain ⟨-, e⟩ := Exchange.mk.inj e
        have hnext : s.world.nextId = a.id.uuid := eq_of_heq e
        exact fresh rfl (hnext ▸ h.issued a ha)
      · simpa using congrArg Exchange.call e'
    · rcases stored.held_of_answered ha with ha | e
      · exact h.pending j th hth id before hlog a ha
      · -- the new row has an identifier that another request drew
        rintro rfl
        obtain ⟨earlier, hdrawn⟩ := (may.grants e).drawn
        exact hne (h.drawn_once j i th _ hth running _ (hlog ▸ List.mem_cons_self)
          (hdrawn ▸ List.mem_cons_self))
  removed := by
    refine h.removed.answered running (fun _ x hx id removed e => ?_) fun id removed e => ?_
    · obtain ⟨a, ha, hid, gone⟩ := hx id removed e
      exact ⟨a, ha.mono history_grows, hid, h.gone_of_answered running may ha gone⟩
    · have fits := e ▸ World.answer_fits party c s.world
      obtain rfl : c = .deleteAssignment id := congrArg Exchange.call e
      obtain ⟨a, hid, suspect⟩ := may
      have held := suspect.held (stored.told _ (List.mem_of_getElem? running))
      refine ⟨a, held.mono history_grows, hid, fun back => ?_⟩
      have hstore : (World.answer party (.deleteAssignment id) s.world).2.store =
          (s.world.store.deleteAssignment id).2 := congrArg Prod.snd fits
      exact (Store.mem_deleteAssignment.mp (hstore ▸ back)).2 hid

end

theorem Step.distinguished (step : Step terms s t) (draws : terms.DrawsNew) (stored : s.Stored)
    (conducts : ∀ th ∈ s.threads, th.Conducts) (h : s.Distinguished) : t.Distinguished := by
  cases step with
  | accepts party admitted => exact h.accept party _
  | proceeds running allowed =>
    refine h.answered stored running (conducts _ (List.mem_of_getElem? running)).due ?_
    rintro rfl
    exact draws _ _ _ allowed
  | arrives party announced => exact { h with }
  | passes now moment nextId people instancePolicies failing feed => exact { h with }

theorem Runs.distinguished {w : World κ} {issued : List Uuid} (run : Runs terms (begin w issued) s)
    (draws : terms.DrawsNew) (distinct : Store.Distinct w.store.rows)
    (known : ∀ a ∈ w.store.rows, a.id.uuid ∈ issued) : s.Distinguished := by
  induction run with
  | refl =>
    have held (a : Assignment) (ha : a.HeldIn (begin w issued).history) : a ∈ w.store.rows := by
      obtain ⟨t, ht, ha⟩ := ha
      exact List.mem_singleton.mp ht ▸ ha
    exact {
      distinct
      row_of_id := fun a b ha hb hid => distinct.row_of_id (held a ha) (held b hb) hid
      issued := fun a ha => known a (held a ha)
      drawn := by simp [begin]
      drawn_once := by simp [begin]
      pending := by simp [begin]
      removed := by simp [Told, begin] }
  | tail run step ih => exact step.distinguished draws (Runs.stored run) (Runs.conducts run) ih

end Crowd

end Entitlement
