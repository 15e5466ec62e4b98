import Entitlement.Proofs.Crowd.Pairs

/-!
# Racing assignments

Several services assign one role to one user at once. Each looks for a row, makes way by
removing one that is over, and stores its own; between these calls anything can happen.
A stored row lasts, so nobody removes it and nobody else finds the pair free: one
assignment wins, and the others are told that the role is assigned.
-/

set_option autoImplicit false

namespace Entitlement

def Terms.assigning (κ : Type) (user : UserId) (role : RoleId) (times : Instant → Prop) :
    Terms κ where
  admits
    | .assign u r expiresAt _ =>
      u = user → r = role → ∀ ends ∈ expiresAt, ∀ time, times time → time < ends
    | .unassign u r _ => ¬ (u = user ∧ r = role)
    | .deleteRole r _ => r ≠ role
    | _ => True
  allows s q log c := s.world.Reliable ∧ (c = .newId → s.world.nextId ∉ s.issued) ∧
    (c = .now → log.readings = [] → q.judges user role = true → times s.world.now)

def Thread.assigned? {κ : Type} (user : UserId) (role : RoleId) :
    Thread κ → Option (Except Fault Assignment)
  | ⟨_, .assign u r _ _, _, .done result⟩ => if u = user ∧ r = role then some result else none
  | _ => none

variable {user : UserId} {role : RoleId} {times : Instant → Prop} {a b : Assignment}

theorem Thread.assigned?_eq {κ : Type} {th : Thread κ} {result : Except Fault Assignment}
    (h : th.assigned? user role = some result) : ∃ party expiresAt actor log,
      th = ⟨party, .assign user role expiresAt actor, log, .done result⟩ := by
  unfold assigned? at h
  split at h
  · split at h
    · next e =>
      obtain ⟨rfl, rfl⟩ := e
      obtain rfl := Option.some.inj h
      exact ⟨_, _, _, _, rfl⟩
    · simp at h
  · simp at h

theorem Terms.assigning_tend {κ : Type} :
    (Terms.assigning κ user role times).Tend user role times where
  reliable _ _ _ _ h := h.1
  draws _ _ _ h := h.2.1 rfl
  timely _ _ _ h := h.2.2 rfl
  keeps _ h := h rfl

theorem Terms.not_unassigns {κ : Type} {q : Request}
    (h : (Terms.assigning κ user role times).admits q) : q.unassigns user role = false := by
  cases q with
  | unassign u r actor => exact decide_eq_false h
  | _ => rfl

/-- Whoever has stored a row was asked for it and drew its identifier. -/
theorem Thread.Conducts.granted {κ : Type} {th : Thread κ} (h : th.Conducts)
    (ha : a ∈ th.log.inserted) :
    (∃ actor, th.request = .assign a.userId a.roleId a.expiresAt actor) ∧
      ⟨.newId, a.id.uuid⟩ ∈ th.log := by
  obtain ⟨before, hsuffix, grants⟩ := h.lawful.due (Log.mem_inserted.mp ha)
  obtain ⟨earlier, rfl⟩ := grants.drawn
  exact ⟨grants.request, hsuffix.mem (List.mem_cons_of_mem _ List.mem_cons_self)⟩

namespace Crowd

variable {κ : Type} {s t : Crowd κ} {th : Thread κ} {rows : List Assignment}

def Inserted (s : Crowd κ) (a : Assignment) : Prop := ∃ th ∈ s.threads, a ∈ th.log.inserted

def Won (user : UserId) (role : RoleId) (s : Crowd κ) : Prop :=
  ∃ a : Assignment, a.userId = user ∧ a.roleId = role ∧ s.Inserted a

structure Contested (rows : List Assignment) (user : UserId) (role : RoleId) (s : Crowd κ) :
    Prop where
  defined : s.world.store.hasRole role = true
  present : s.Told fun _ x => x ≠ ⟨.findRole role, .ok none⟩
  shown : s.Shown rows user role
  origin : ∀ a : Assignment, a.HeldIn s.history → a.userId = user → a.roleId = role →
    a ∈ rows ∨ s.Inserted a
  stays : ∀ a, s.Inserted a → a.userId = user → a.roleId = role → a ∈ s.world.store.rows
  beaten : s.Told fun _ x => ∀ a fault, x = ⟨.insertAssignment a, .error fault⟩ →
    a.userId = user → a.roleId = role → s.Won user role

theorem Inserted.accept (h : s.Inserted a) (party : κ) (q : Request) :
    (s.accept party q).Inserted a := by
  obtain ⟨th, hth, ha⟩ := h
  exact ⟨th, List.mem_append_left _ hth, ha⟩

theorem Won.accept (h : s.Won user role) (party : κ) (q : Request) :
    (s.accept party q).Won user role := by
  obtain ⟨a, hu, hr, ha⟩ := h
  exact ⟨a, hu, hr, ha.accept party q⟩

theorem inserted_of_accept {party : κ} {q : Request} (h : (s.accept party q).Inserted a) :
    s.Inserted a := by
  obtain ⟨th, hth, ha⟩ := h
  rcases mem_accept hth with hth | rfl
  · exact ⟨th, hth, ha⟩
  · simp [Log.inserted] at ha

theorem Contested.accept (h : s.Contested rows user role) (party : κ) (q : Request) :
    (s.accept party q).Contested rows user role where
  defined := h.defined
  present := h.present.accept party q
  shown := h.shown.accept party q
  origin a ha hu hr := (h.origin a ha hu hr).imp_right (·.accept party q)
  stays a ha := h.stays a (inserted_of_accept ha)
  beaten := (h.beaten.mono fun _ _ hx a fault e hu hr =>
    (hx a fault e hu hr).accept party q).accept party q

theorem Orderly.lasts (h : s.Orderly (.assigning κ user role times) user role times)
    (ha : s.Inserted a) (hu : a.userId = user) (hr : a.roleId = role) : a.Lasts times := by
  obtain ⟨th, hth, ha⟩ := ha
  obtain ⟨⟨actor, hq⟩, -⟩ := (h.conducts th hth).granted ha
  have admitted := h.tended.admitted th hth
  rw [hq] at admitted
  intro time htime
  unfold Assignment.isExpiredAt
  split
  · next ends hends =>
    have later := admitted hu hr ends hends time htime
    exact decide_eq_false fun le => Instant.not_lt.mpr le later
  · rfl

/-- Who is refused by the store has been beaten. The row that stands in its way is none of the
start: it has made way for itself, and a row that is gone does not come back. -/
theorem Contested.won_of_refused (h : s.Contested rows user role)
    (orderly : s.Orderly (.assigning κ user role times) user role times) {fault : Fault}
    (mem : th ∈ s.threads) (grants : th.request.Grants th.log a) (hu : a.userId = user)
    (hr : a.roleId = role) (refused : s.world.store.insertAssignment a = .error fault) :
    s.Won user role := by
  subst hu hr
  obtain ⟨⟨d, found⟩, -⟩ := Store.insertAssignment_error.mp refused
  obtain ⟨hd, hdu, hdr⟩ := Store.findAssignment_mem found
  have held : d.HeldIn s.history := ⟨_, orderly.stored.current, hd⟩
  rcases h.origin d held hdu hdr with hrows | inserted
  · have looked {o} (ho : ⟨.findAssignment a.userId a.roleId, .ok o⟩ ∈ th.log) : o = some d :=
      h.shown.looked th mem _ ho o rfl d hrows hdu hdr hd
    rcases grants.cleared with hnone | ⟨b, removed, hb, deleted⟩
    · simpa using looked hnone
    · obtain rfl := Option.some.inj (looked hb)
      obtain ⟨x, hx, hid, gone⟩ := orderly.rows.removed th mem _ deleted _ _ rfl
      exact absurd hd (orderly.rows.row_of_id x b hx held hid ▸ gone)
  · exact ⟨d, hdu, hdr, inserted⟩

variable [DecidableEq κ]

section

variable {i : Nat} {party : κ} {q : Request} {log : Log} {c : Call}
  {next : c.Answer → Procedure (Except Fault q.Value)}
  (running : s.threads[i]? = some ⟨party, q, log, .call c next⟩)

include running

theorem inserted_of_answered
    (h : (s.answered i party q log c next).Inserted a) : s.Inserted a ∨
      (⟨c, (s.world.answer party c).1⟩ : Exchange) = ⟨.insertAssignment a, .ok ()⟩ := by
  obtain ⟨th, hth, ha⟩ := h
  rcases mem_answered hth with hth | rfl
  · exact .inl ⟨th, hth, ha⟩
  · rcases List.mem_cons.mp (Log.mem_inserted.mp ha) with e | ha
    · exact .inr e.symm
    · exact .inl ⟨_, List.mem_of_getElem? running, Log.mem_inserted.mpr ha⟩

theorem Inserted.answered (h : s.Inserted a) :
    (s.answered i party q log c next).Inserted a := by
  obtain ⟨th, hth, ha⟩ := h
  obtain ⟨later, hlater, -, hlog⟩ := later_of_answered running hth
  exact ⟨later, hlater, Log.mem_inserted.mpr (hlog.mem (Log.mem_inserted.mp ha))⟩

theorem inserted_of_eq
    (e : (⟨c, (s.world.answer party c).1⟩ : Exchange) = ⟨.insertAssignment a, .ok ()⟩) :
    (s.answered i party q log c next).Inserted a := by
  have hi := (List.getElem?_eq_some_iff.mp running).1
  exact ⟨_, List.mem_of_getElem? (List.getElem?_set_self hi),
    Log.mem_inserted.mpr (e ▸ List.mem_cons_self)⟩

theorem Won.answered (h : s.Won user role) :
    (s.answered i party q log c next).Won user role := by
  obtain ⟨a, hu, hr, ha⟩ := h
  exact ⟨a, hu, hr, ha.answered running⟩

theorem Contested.answered (h : s.Contested rows user role)
    (orderly : s.Orderly (.assigning κ user role times) user role times)
    (reliable : s.world.Reliable) :
    (s.answered i party q log c next).Contested rows user role := by
  have mem := List.mem_of_getElem? running
  have may := (orderly.conducts _ mem).due
  have fits := World.answer_fits party c s.world
  constructor
  case defined =>
    rcases fits.hasRole h.defined with defined | e
    · exact defined
    · obtain rfl : c = .deleteRole role := congrArg Exchange.call e
      obtain ⟨actor, rfl⟩ := may
      exact absurd (orderly.tended.admitted _ mem) (Terms.assigning_tend.keeps actor)
  case present =>
    refine h.present.answered running (fun _ _ hx => hx) fun e => ?_
    rw [e] at fits
    have missing := Store.findRole_none.mp fits.1.symm
    simp [h.defined] at missing
  case shown => exact h.shown.answered orderly running
  case origin =>
    intro a ha hu hr
    rcases orderly.stored.held_of_answered ha with ha | e
    · exact (h.origin a ha hu hr).imp_right (·.answered running)
    · exact .inr (inserted_of_eq running e)
  case stays =>
    intro a ha hu hr
    rcases inserted_of_answered running ha with ha | e
    · rcases orderly.stays hu hr (orderly.lasts ha hu hr) Terms.assigning_tend running
        (h.stays a ha hu hr) with stays | ⟨unassigns, -⟩
      · exact stays
      · simp [Terms.not_unassigns (orderly.tended.admitted _ mem)] at unassigns
    · rw [e] at fits
      have hstore := (Store.insertAssignment_iff.mp fits).2
      show a ∈ (World.answer party c s.world).2.store.rows
      rw [hstore]
      simp
  case beaten =>
    refine h.beaten.answered running
      (fun _ x hx a fault e hu hr => (hx a fault e hu hr).answered running) fun a fault e hu hr => ?_
    have hfault : Exchange.fault? ⟨c, (s.world.answer party c).1⟩ = some fault := by
      rw [e]
      rfl
    obtain ⟨b, e', refused⟩ := World.answer_fault party c reliable hfault
    obtain rfl : b = a := by simpa using (congrArg Exchange.call (e'.symm.trans e))
    obtain rfl : c = .insertAssignment b := congrArg Exchange.call e
    exact (h.won_of_refused orderly mem may hu hr refused).answered running

end

theorem Step.contested (step : Step (.assigning κ user role times) s t)
    (orderly : s.Orderly (.assigning κ user role times) user role times)
    (h : s.Contested rows user role) : t.Contested rows user role := by
  cases step with
  | accepts party admitted => exact h.accept party _
  | proceeds running allowed => exact h.answered running orderly allowed.1
  | arrives party announced => exact { h with shown := { h.shown with } }
  | passes now moment nextId people instancePolicies failing feed => exact { h with shown := { h.shown with } }

variable {w : World κ} {issued : List Uuid}

theorem Runs.contested (run : Runs (.assigning κ user role times) (begin w issued) s)
    (defined : w.store.hasRole role = true) (distinct : Store.Distinct w.store.rows)
    (known : ∀ a ∈ w.store.rows, a.id.uuid ∈ issued) :
    s.Contested w.store.rows user role := by
  induction run with
  | refl =>
    refine ⟨defined, by simp [Told, begin], shown_begin w issued, ?_, ?_, by simp [Told, begin]⟩
    · rintro a ⟨t, ht, ha⟩ - -
      exact .inl (List.mem_singleton.mp ht ▸ ha)
    · rintro a ⟨th, hth, -⟩
      simp [begin] at hth
  | tail run step ih =>
    exact step.contested (Runs.orderly run Terms.assigning_tend distinct known) ih

omit [DecidableEq κ] in
/-- An assignment returns the row that it has stored, or the pair was taken by another one. -/
theorem Contested.outcome (h : s.Contested rows user role)
    (orderly : s.Orderly (.assigning κ user role times) user role times)
    (stale : ∀ a ∈ rows, a.userId = user → a.roleId = role →
      ∀ time, times time → a.isExpiredAt time = true) (mem : th ∈ s.threads)
    (returned : (th.assigned? user role).isSome = true) :
    (∃ a, th.assigned? user role = some (.ok a) ∧ a ∈ th.log.inserted ∧ a.userId = user ∧
        a.roleId = role) ∨
      (th.assigned? user role = some (.error (.alreadyAssigned role user)) ∧
        th.log.inserted = [] ∧ s.Won user role) := by
  obtain ⟨result, returned⟩ := Option.isSome_iff_exists.mp returned
  rw [returned]
  obtain ⟨party, expiresAt, actor, log, rfl⟩ := Thread.assigned?_eq returned
  have conducts := orderly.conducts _ mem
  have ends := conducts.ended
  cases result with
  | ok a =>
    have ha := Log.mem_inserted.mpr ends
    obtain ⟨⟨_, hq⟩, -⟩ := conducts.granted ha
    obtain ⟨rfl, rfl, -, -⟩ := Request.assign.inj hq
    exact .inl ⟨a, rfl, ha, rfl, rfl⟩
  | error fault =>
    rcases ends with
      ⟨hnone, hcall | ⟨-, hmissing⟩ | ⟨rfl, b, time, found, began, active⟩⟩ | ⟨e, hpub⟩
    · -- the store has refused the row
      obtain ⟨x, hx, hfault⟩ := hcall
      obtain ⟨a, rfl, rfl⟩ := orderly.tended.sure _ mem x hx fault hfault
      obtain ⟨before, -, grants⟩ := conducts.lawful.due hx
      obtain ⟨_, hq⟩ := grants.request
      obtain ⟨rfl, rfl, -, -⟩ := Request.assign.inj hq
      exact .inr ⟨rfl, hnone, h.beaten _ mem _ hx a _ rfl rfl rfl⟩
    · exact absurd rfl (h.present _ mem _ hmissing)
    · -- an active row was found, so not one of the start
      obtain ⟨held, hu, hr⟩ := orderly.stored.told _ mem _ found
      have htime :=
        orderly.tended.timely _ mem (by simp [Request.judges, Request.assigns]) time began
      rcases h.origin b held hu hr with hrows | inserted
      · simp [Assignment.isActiveAt, stale b hrows hu hr time htime] at active
      · exact .inr ⟨rfl, hnone, b, hu, hr, inserted⟩
    · obtain ⟨a, e, -⟩ := orderly.tended.sure _ mem _ hpub fault rfl
      simpa using congrArg Exchange.call e

structure Decided (user : UserId) (role : RoleId) (s : Crowd κ) (i : Nat) (a : Assignment) :
    Prop where
  winner : ∃ th, s.threads[i]? = some th ∧ th.assigned? user role = some (.ok a)
  others : ∀ j th, s.threads[j]? = some th → th.request.assigns user role = true → j ≠ i →
    th.assigned? user role = some (.error (.alreadyAssigned role user))
  row : (s.world.store.rows.filter fun b => b.userId = user ∧ b.roleId = role) = [a]
  kept : ∀ b, s.Inserted b → b.userId = user → b.roleId = role → ∀ th ∈ s.threads, ∀ removed,
    ⟨.deleteAssignment b.id, .ok removed⟩ ∉ th.log

omit [DecidableEq κ] in
theorem Contested.row_eq (h : s.Contested rows user role) (distinguished : s.Distinguished)
    (ha : s.Inserted a) (hu : a.userId = user) (hr : a.roleId = role) :
    (s.world.store.rows.filter fun b => b.userId = user ∧ b.roleId = role) = [a] := by
  have there := h.stays a ha hu hr
  refine List.perm_singleton.mp ((List.perm_ext_iff_of_nodup ?_ (List.nodup_singleton a)).mpr ?_)
  · exact (List.Nodup.of_map _ distinguished.distinct.rows_nodup).filter _
  · intro b
    simp only [List.mem_filter, decide_eq_true_eq, List.mem_singleton]
    constructor
    · rintro ⟨hb, hbu, hbr⟩
      exact distinguished.distinct.row_of_pair hb there (hbu.trans hu.symm) (hbr.trans hr.symm)
    · rintro rfl
      exact ⟨there, hu, hr⟩

/-- Racing assignments produce one winner. -/
theorem one_assignment_wins (defined : w.store.hasRole role = true)
    (distinct : Store.Distinct w.store.rows) (known : ∀ a ∈ w.store.rows, a.id.uuid ∈ issued)
    (stale : ∀ a ∈ w.store.rows, a.userId = user → a.roleId = role →
      ∀ time, times time → a.isExpiredAt time = true)
    (run : Runs (.assigning κ user role times) (begin w issued) s)
    (raced : ∃ th ∈ s.threads, th.request.assigns user role = true)
    (returned : ∀ th ∈ s.threads, th.request.assigns user role = true →
      (th.assigned? user role).isSome = true) :
    ∃ i a, s.Decided user role i a := by
  have h := run.contested defined distinct known
  have orderly := Runs.orderly run Terms.assigning_tend distinct known
  have outcome {th} (mem : th ∈ s.threads) (assigns : th.request.assigns user role = true) :=
    h.outcome orderly stale mem (returned th mem assigns)
  -- whoever was not beaten has stored a row itself
  have won : s.Won user role := by
    obtain ⟨th, mem, assigns⟩ := raced
    rcases outcome mem assigns with ⟨a, -, ha, hu, hr⟩ | ⟨-, -, won⟩
    · exact ⟨a, hu, hr, th, mem, ha⟩
    · exact won
  obtain ⟨a, hu, hr, th, mem, ha⟩ := won
  obtain ⟨i, hi⟩ := List.getElem?_of_mem mem
  obtain ⟨⟨actor, hq⟩, hdrawn⟩ := (orderly.conducts th mem).granted ha
  have assigns : th.request.assigns user role = true := by simp [hq, Request.assigns, hu, hr]
  have row := h.row_eq orderly.rows ⟨th, mem, ha⟩ hu hr
  have same {b} (hb : s.Inserted b) (hbu : b.userId = user) (hbr : b.roleId = role) : b = a :=
    (List.cons.inj ((h.row_eq orderly.rows hb hbu hbr).symm.trans row)).1
  refine ⟨i, a, ⟨th, hi, ?_⟩, fun j th' hj assigns' hne => ?_, row, ?_⟩
  · rcases outcome mem assigns with ⟨b, hret, hb, hbu, hbr⟩ | ⟨-, hnone, -⟩
    · rw [hret, same ⟨th, mem, hb⟩ hbu hbr]
    · simp [hnone] at ha
  · have mem' := List.mem_of_getElem? hj
    rcases outcome mem' assigns' with ⟨b, -, hb, hbu, hbr⟩ | ⟨hret, -, -⟩
    · obtain rfl := same ⟨th', mem', hb⟩ hbu hbr
      have hdrawn' := ((orderly.conducts th' mem').granted hb).2
      exact absurd (orderly.rows.drawn_once j i th' th hj hi _ hdrawn' hdrawn) hne
    · exact hret
  · intro b hb hbu hbr th' mem' removed deleted
    have there := h.stays b hb hbu hbr
    obtain ⟨x, hx, hid, gone⟩ := orderly.rows.removed th' mem' _ deleted _ _ rfl
    obtain rfl := orderly.rows.row_of_id x b hx ⟨_, orderly.stored.current, there⟩ hid
    exact gone there

/-- Two assignments and a sweep come across the same expired row and all of them remove it, one
of the assignments after the other one has stored its own. -/
theorem one_assignment_wins_over_expired :
    let user : UserId := ⟨.generated 9⟩
    let role : RoleId := ⟨.generated 0⟩
    let expired : Assignment := ⟨⟨.generated 8⟩, role, user, some default, default⟩
    let w := holding expired
    let issued := [expired.id.uuid, role.uuid]
    let s := ((begin w issued).acceptAll [(.main, .assign user role none none),
      (.peer, .assign user role none none), (.peer, .sweep 100 100)]).turns
        (List.replicate 3 0 ++ List.replicate 3 1 ++ List.replicate 2 2 ++ List.replicate 9 0 ++
          List.replicate 3 1 ++ List.replicate 2 2)
    (w.store.hasRole role = true ∧ Store.Distinct w.store.rows ∧
      (∀ a ∈ w.store.rows, a.id.uuid ∈ issued) ∧
      (∀ a ∈ w.store.rows, a.userId = user → a.roleId = role →
        ∀ time, time = w.now → a.isExpiredAt time = true) ∧
      Runs (.assigning Party user role (· = w.now)) (begin w issued) s ∧
      (∃ th ∈ s.threads, th.request.assigns user role = true) ∧
      ∀ th ∈ s.threads, th.request.assigns user role = true →
        (th.assigned? user role).isSome = true) ∧
      ∃ i a, s.Decided user role i a := by
  intro user role expired w issued s
  have hdefined : w.store.hasRole role = true := by decide +kernel
  have distinct : Store.Distinct w.store.rows := ⟨List.nodup_singleton _, List.nodup_singleton _⟩
  have known : ∀ a ∈ w.store.rows, a.id.uuid ∈ issued := by simp [w, holding, issued]
  have stale : ∀ a ∈ w.store.rows, a.userId = user → a.roleId = role →
      ∀ time, time = w.now → a.isExpiredAt time = true := by
    intro a ha _ _ time htime
    obtain rfl : a = expired := List.mem_singleton.mp ha
    rw [htime]
    decide +kernel
  have run : Runs (.assigning Party user role (· = w.now)) (begin w issued) s := by
    refine Runs.turns (Runs.acceptAll .refl ?_) ?_ (show Smooth w.now _ _ by decide +kernel)
    · simp [Terms.assigning]
    · exact fun s q log c works reads fresh =>
        ⟨World.reliable_of_failing works, fun _ => fresh, fun _ _ _ => reads⟩
  have raced : ∃ th ∈ s.threads, th.request.assigns user role = true := by decide +kernel
  have returned : ∀ th ∈ s.threads, th.request.assigns user role = true →
      (th.assigned? user role).isSome = true := by decide +kernel
  exact ⟨⟨hdefined, distinct, known, stale, run, raced, returned⟩,
    one_assignment_wins hdefined distinct known stale run raced returned⟩

end Crowd

end Entitlement
