import Entitlement.Proofs.Crowd.Accounts
import Entitlement.Proofs.Crowd.Pairs

/-!
# Racing revocations

Several services take one role away from one user at once. Each looks the row up and then
removes it, without regard to whether it was still there: so every one that found the row
succeeds, announces the revocation and puts it on record, and only those that came too late
to find it are told that the role is not assigned.
-/

set_option autoImplicit false

namespace Entitlement

def Terms.unassigning (κ : Type) (user : UserId) (role : RoleId) (times : Instant → Prop) :
    Terms κ where
  admits
    | .assign u r _ _ => ¬ (u = user ∧ r = role)
    | .deleteRole r _ => r ≠ role
    | _ => True
  allows s q log c := s.world.Reliable ∧ .record ∉ s.world.failing ∧
    (c = .newId → s.world.nextId ∉ s.issued) ∧
    (c = .now → log.readings = [] → q.judges user role = true → times s.world.now)

def RoleEvent.revokes (user : UserId) (role : RoleId) : RoleEvent → Bool
  | .userRoleUnassigned a => a.userId = user ∧ a.roleId = role
  | _ => false

namespace Thread

variable {κ : Type} (user : UserId) (role : RoleId)

def unassigned? : Thread κ → Option (Except Fault Unit)
  | ⟨_, .unassign u r _, _, .done result⟩ => if u = user ∧ r = role then some result else none
  | _ => none

def succeeds (th : Thread κ) : Bool :=
  match th.unassigned? user role with
  | some (.ok ()) => true
  | _ => false

def finds (th : Thread κ) : Bool :=
  th.log.any fun
    | ⟨.findAssignment u r, .ok (some _)⟩ => u = user ∧ r = role
    | _ => false

end Thread

variable {user : UserId} {role : RoleId} {times : Instant → Prop} {a : Assignment}

theorem Terms.unassigning_tend {κ : Type} :
    (Terms.unassigning κ user role times).Tend user role times where
  reliable _ _ _ _ h := h.1
  draws _ _ _ h := h.2.2.1 rfl
  timely _ _ _ h := h.2.2.2 rfl
  keeps _ h := h rfl

theorem Terms.not_assigns {κ : Type} {q : Request}
    (h : (Terms.unassigning κ user role times).admits q) : q.assigns user role = false := by
  cases q with
  | assign u r expiresAt actor => exact decide_eq_false h
  | _ => rfl

namespace Thread

variable {κ : Type} {th : Thread κ}

theorem unassigned?_eq {result : Except Fault Unit} (h : th.unassigned? user role = some result) :
    ∃ party actor log, th = ⟨party, .unassign user role actor, log, .done result⟩ := by
  unfold unassigned? at h
  split at h
  · split at h
    · next e =>
      obtain ⟨rfl, rfl⟩ := e
      obtain rfl := Option.some.inj h
      exact ⟨_, _, _, rfl⟩
    · simp at h
  · simp at h

theorem finds_iff : th.finds user role = true ↔
    ∃ a, ⟨.findAssignment user role, .ok (some a)⟩ ∈ th.log := by
  constructor
  · intro h
    obtain ⟨x, hx, found⟩ := List.any_eq_true.mp h
    split at found
    · next u r a =>
      obtain ⟨rfl, rfl⟩ := of_decide_eq_true found
      exact ⟨a, hx⟩
    · simp at found
  · rintro ⟨a, ha⟩
    exact List.any_eq_true.mpr ⟨_, ha, by simp⟩

theorem succeeds_eq_false (h : th.request.unassigns user role = false) :
    th.succeeds user role = false := by
  unfold succeeds
  split
  · next returned =>
    obtain ⟨_, _, _, rfl⟩ := unassigned?_eq returned
    simp [Request.unassigns] at h
  · rfl

end Thread

namespace Crowd

variable {κ : Type} {s t : Crowd κ} {th : Thread κ} {rows : List Assignment}

structure Sought (rows : List Assignment) (user : UserId) (role : RoleId) (s : Crowd κ) :
    Prop where
  shown : s.Shown rows user role
  origin : ∀ a : Assignment, a.HeldIn s.history → a.userId = user → a.roleId = role → a ∈ rows
  taken : ∀ a ∈ rows, a.userId = user → a.roleId = role → a ∉ s.world.store.rows →
    ∃ th ∈ s.threads, th.request.unassigns user role = true ∧ th.finds user role = true

theorem Sought.accept (h : s.Sought rows user role) (party : κ) (q : Request) :
    (s.accept party q).Sought rows user role where
  shown := h.shown.accept party q
  origin := h.origin
  taken a ha hu hr gone := by
    obtain ⟨th, hth, finder⟩ := h.taken a ha hu hr gone
    exact ⟨th, List.mem_append_left _ hth, finder⟩

section

variable (h : s.Sought rows user role)
  (orderly : s.Orderly (.unassigning κ user role times) user role times)
  (lasts : ∀ a ∈ rows, a.userId = user → a.roleId = role → a.Lasts times) (mem : th ∈ s.threads)

include h orderly lasts mem

/-- How a revocation has ended: it was shown the row and saw it through, or there was none to be
shown. -/
theorem Sought.outcome
    (returned : (th.unassigned? user role).isSome = true) :
    (th.unassigned? user role = some (.ok ()) ∧ ∃ actor a,
        th.request = .unassign user role actor ∧ Request.Revokes user role actor th.log a) ∨
      (th.unassigned? user role = some (.error (.notAssigned role user)) ∧
        th.finds user role = false ∧ ⟨.findAssignment user role, .ok none⟩ ∈ th.log ∧
        th.log.published = [] ∧ th.log.entries = []) := by
  obtain ⟨result, returned⟩ := Option.isSome_iff_exists.mp returned
  rw [returned]
  obtain ⟨party, actor, log, rfl⟩ := Thread.unassigned?_eq returned
  have conducts := orderly.conducts _ mem
  have ends := conducts.ended
  cases result with
  | ok _ =>
    obtain ⟨a, revokes⟩ := ends
    exact .inl ⟨rfl, actor, a, rfl, revokes⟩
  | error fault =>
    rcases ends with ⟨x, hx, hfault⟩ | ⟨rfl, hnone, unseen, hpublished, hentries⟩ |
      ⟨rfl, b, time, found, began, expired⟩
    · obtain ⟨a, rfl, -⟩ := orderly.tended.sure _ mem x hx fault hfault
      obtain ⟨before, -, grants⟩ := conducts.lawful.due hx
      obtain ⟨_, hq⟩ := grants.request
      simp at hq
    · refine .inr ⟨rfl, ?_, hnone, hpublished, hentries⟩
      exact Bool.eq_false_iff.mpr fun finds =>
        (Thread.finds_iff.mp finds).elim fun b found => unseen b found
    · obtain ⟨held, hu, hr⟩ := orderly.stored.told _ mem _ found
      have htime := orderly.tended.timely _ mem (by simp [Request.judges, Request.unassigns])
        time began
      simp [lasts b (h.origin b held hu hr) hu hr time htime] at expired

/-- A request that has nothing to do with the pair announces no revocation of it. -/
theorem Sought.announces_nothing
    (other : th.request.unassigns user role = false) :
    th.log.published.countP (·.revokes user role) = 0 := by
  refine List.countP_eq_zero.mpr fun event hevent revokes => ?_
  have conducts := orderly.conducts th mem
  obtain ⟨before, hsuffix, earned⟩ := conducts.lawful.due (Log.mem_published hevent)
  cases event with
  | userRoleUnassigned a =>
    obtain ⟨hu, hr⟩ := of_decide_eq_true revokes
    have suspect := earned.1.mono ((List.suffix_cons _ _).trans hsuffix)
    have held := suspect.held (orderly.stored.told th mem)
    have lasting := lasts a (h.origin a held hu hr) hu hr
    exact absurd (orderly.suspects hu hr lasting mem suspect).1 (by simp [other])
  | _ => simp [RoleEvent.revokes] at revokes

/-- A revocation that succeeds announces itself once, and nothing else announces one. -/
theorem Sought.announces (returned : th.request.unassigns user role = true →
      (th.unassigned? user role).isSome = true) :
    th.log.published.countP (·.revokes user role) = (th.succeeds user role).toNat := by
  cases unassigns : th.request.unassigns user role with
  | false =>
    rw [h.announces_nothing orderly lasts mem unassigns, Thread.succeeds_eq_false unassigns]
    rfl
  | true =>
    rcases h.outcome orderly lasts mem (returned unassigns) with
      ⟨hret, actor, a, -, revokes⟩ | ⟨hret, -, -, hpublished, -⟩
    · obtain ⟨-, hu, hr⟩ := orderly.stored.told th mem _ revokes.shown
      simp [Thread.succeeds, hret, revokes.published, RoleEvent.revokes, hu, hr]
    · simp [Thread.succeeds, hret, hpublished]

/-- A revocation that succeeds is put on record once if it has an actor, and nothing else is put
on record as one. -/
theorem Sought.notes (returned : th.request.unassigns user role = true →
      (th.unassigned? user role).isSome = true)
    (acted : th.request ≠ .unassign user role none) :
    th.log.entries.countP (·.isUnassign user role) = (th.succeeds user role).toNat := by
  cases unassigns : th.request.unassigns user role with
  | false =>
    rw [Thread.succeeds_eq_false unassigns]
    refine List.countP_eq_zero.mpr fun entry hentry about => ?_
    obtain ⟨r, hr⟩ := Log.mem_entries hentry
    obtain ⟨before, -, due⟩ := (orderly.conducts th mem).lawful.due hr
    obtain ⟨actor, hq⟩ := due user role about
    simp [hq, Request.unassigns] at unassigns
  | true =>
    rcases h.outcome orderly lasts mem (returned unassigns) with
      ⟨hret, actor, a, hq, revokes⟩ | ⟨hret, -, -, -, hentries⟩
    · cases actor with
      | none => exact absurd hq acted
      | some actor =>
        obtain ⟨entry, hentries, about⟩ := revokes.notes
        simp [Thread.succeeds, hret, hentries, about]
    · simp [Thread.succeeds, hret, hentries]

end

variable [DecidableEq κ]

theorem Sought.answered {i : Nat} {party : κ} {q : Request} {log : Log} {c : Call}
    {next : c.Answer → Procedure (Except Fault q.Value)} (h : s.Sought rows user role)
    (orderly : s.Orderly (.unassigning κ user role times) user role times)
    (lasts : ∀ a ∈ rows, a.userId = user → a.roleId = role → a.Lasts times)
    (running : s.threads[i]? = some ⟨party, q, log, .call c next⟩) :
    (s.answered i party q log c next).Sought rows user role := by
  have mem := List.mem_of_getElem? running
  have may := (orderly.conducts _ mem).due
  constructor
  case shown => exact h.shown.answered orderly running
  case origin =>
    intro a ha hu hr
    rcases orderly.stored.held_of_answered ha with ha | e
    · exact h.origin a ha hu hr
    · obtain ⟨actor, rfl⟩ := (may.grants e).request
      have admitted := Terms.not_assigns (orderly.tended.admitted _ mem)
      simp [Request.assigns, hu, hr] at admitted
  case taken =>
    intro a ha hu hr gone
    have finder_later {th} (hth : th ∈ s.threads) (unassigns : th.request.unassigns user role = true)
        (finds : th.finds user role = true) :
        ∃ th ∈ (s.answered i party q log c next).threads,
          th.request.unassigns user role = true ∧ th.finds user role = true := by
      obtain ⟨later, hlater, hq, hlog⟩ := later_of_answered running hth
      obtain ⟨b, hb⟩ := Thread.finds_iff.mp finds
      exact ⟨later, hlater, hq ▸ unassigns, Thread.finds_iff.mpr ⟨b, hlog.mem hb⟩⟩
    by_cases there : a ∈ s.world.store.rows
    · rcases orderly.stays hu hr (lasts a ha hu hr) Terms.unassigning_tend running there with
        stays | ⟨unassigns, found⟩
      · exact absurd stays gone
      · exact finder_later mem unassigns (Thread.finds_iff.mpr ⟨a, found⟩)
    · obtain ⟨th, hth, unassigns, finds⟩ := h.taken a ha hu hr there
      exact finder_later hth unassigns finds

theorem Step.sought (step : Step (.unassigning κ user role times) s t)
    (orderly : s.Orderly (.unassigning κ user role times) user role times)
    (lasts : ∀ a ∈ rows, a.userId = user → a.roleId = role → a.Lasts times)
    (h : s.Sought rows user role) : t.Sought rows user role := by
  cases step with
  | accepts party admitted => exact h.accept party _
  | proceeds running allowed => exact h.answered orderly lasts running
  | arrives party announced => exact { h with shown := { h.shown with } }
  | passes now moment nextId people instancePolicies failing feed => exact { h with shown := { h.shown with } }

variable {w : World κ} {issued : List Uuid}

theorem Runs.sought (run : Runs (.unassigning κ user role times) (begin w issued) s)
    (distinct : Store.Distinct w.store.rows) (known : ∀ a ∈ w.store.rows, a.id.uuid ∈ issued)
    (lasts : ∀ a ∈ w.store.rows, a.userId = user → a.roleId = role → a.Lasts times) :
    s.Sought w.store.rows user role := by
  induction run with
  | refl =>
    refine ⟨shown_begin w issued, ?_, ?_⟩
    · rintro a ⟨t, ht, ha⟩ - -
      exact List.mem_singleton.mp ht ▸ ha
    · exact fun a ha _ _ gone => absurd ha gone
  | tail run step ih =>
    exact step.sought (Runs.orderly run Terms.unassigning_tend distinct known) lasts ih

structure Withdrawn (w : World κ) (user : UserId) (role : RoleId) (s : Crowd κ) : Prop where
  answers : ∀ th ∈ s.threads, th.request.unassigns user role = true →
    th.unassigned? user role =
      some (if th.finds user role then .ok () else .error (.notAssigned role user))
  found : ∃ th ∈ s.threads, th.request.unassigns user role = true ∧ th.finds user role = true
  winners : s.threads.countP (·.succeeds user role) =
    s.threads.countP fun th => th.request.unassigns user role && th.finds user role
  events : s.world.effects.events.countP (·.revokes user role) =
    w.effects.events.countP (·.revokes user role) + s.threads.countP (·.succeeds user role)
  entries : w.keepsLog = true → (∀ th ∈ s.threads, th.request ≠ .unassign user role none) →
    s.world.effects.entries.countP (·.isUnassign user role) =
      w.effects.entries.countP (·.isUnassign user role) + s.threads.countP (·.succeeds user role)
  gone : ∀ a ∈ s.world.store.rows, a.userId = user → a.roleId ≠ role

/-- Every revocation that finds the row succeeds. -/
theorem every_finder_revokes (stored : a ∈ w.store.rows) (hu : a.userId = user)
    (hr : a.roleId = role) (active : ∀ time, times time → a.isActiveAt time = true)
    (distinct : Store.Distinct w.store.rows) (known : ∀ a ∈ w.store.rows, a.id.uuid ∈ issued)
    (run : Runs (.unassigning κ user role times) (begin w issued) s)
    (raced : ∃ th ∈ s.threads, th.request.unassigns user role = true)
    (returned : ∀ th ∈ s.threads, th.request.unassigns user role = true →
      (th.unassigned? user role).isSome = true) :
    s.Withdrawn w user role := by
  have only {b} (hb : b ∈ w.store.rows) (hbu : b.userId = user) (hbr : b.roleId = role) : b = a :=
    distinct.row_of_pair hb stored (hbu.trans hu.symm) (hbr.trans hr.symm)
  have lasts : ∀ b ∈ w.store.rows, b.userId = user → b.roleId = role → b.Lasts times := by
    intro b hb hbu hbr time htime
    rw [only hb hbu hbr]
    simpa [Assignment.isActiveAt] using active time htime
  have h := run.sought distinct known lasts
  have orderly := Runs.orderly run Terms.unassigning_tend distinct known
  have accounts := run.accounts fun _ _ _ _ allowed => allowed.2.1
  have outcome {th} (mem : th ∈ s.threads) (unassigns : th.request.unassigns user role = true) :=
    h.outcome orderly lasts mem (returned th mem unassigns)
  have found : ∃ th ∈ s.threads, th.request.unassigns user role = true ∧
      th.finds user role = true := by
    obtain ⟨th, mem, unassigns⟩ := raced
    rcases outcome mem unassigns with ⟨-, actor, b, -, revokes⟩ | ⟨-, -, hnone, -⟩
    · exact ⟨th, mem, unassigns, Thread.finds_iff.mpr ⟨b, revokes.shown⟩⟩
    · refine h.taken a stored hu hr fun there => ?_
      simpa using h.shown.looked th mem _ hnone none rfl a stored hu hr there
  have answers : ∀ th ∈ s.threads, th.request.unassigns user role = true →
      th.unassigned? user role =
        some (if th.finds user role then .ok () else .error (.notAssigned role user)) := by
    intro th mem unassigns
    rcases outcome mem unassigns with ⟨hret, actor, b, -, revokes⟩ | ⟨hret, unseen, -⟩
    · rw [hret, if_pos (Thread.finds_iff.mpr ⟨b, revokes.shown⟩)]
    · rw [hret, unseen, if_neg (by simp)]
  refine ⟨answers, found, ?_, ?_, ?_, ?_⟩
  · refine List.countP_congr fun th mem => ?_
    cases unassigns : th.request.unassigns user role with
    | false => simp [Thread.succeeds_eq_false unassigns]
    | true => cases finds : th.finds user role <;>
        simp [Thread.succeeds, answers th mem unassigns, finds]
  · exact accounts.countP_events fun th mem => h.announces orderly lasts mem (returned th mem)
  · exact fun keeps acted => accounts.countP_entries keeps fun th mem =>
      h.notes orderly lasts mem (returned th mem) (acted th mem)
  · intro b hb hbu hbr
    obtain ⟨th, mem, unassigns, finds⟩ := found
    rcases outcome mem unassigns with ⟨-, actor, c, -, revokes⟩ | ⟨-, unseen, -⟩
    · obtain ⟨removed, deleted⟩ := revokes.removed
      obtain ⟨x, hx, hid, gone⟩ := orderly.rows.removed th mem _ deleted _ _ rfl
      obtain ⟨held, hcu, hcr⟩ := orderly.stored.told th mem _ revokes.shown
      obtain rfl := orderly.rows.row_of_id x c hx held hid
      have hxa := only (h.origin x held hcu hcr) hcu hcr
      have hba := only (h.origin b ⟨_, orderly.stored.current, hb⟩ hbu hbr) hbu hbr
      exact gone (hxa.trans hba.symm ▸ hb)
    · simp [unseen] at finds

/-- Two revocations are shown the row before one of them removes it, a third one comes later. -/
theorem every_finder_revokes_but_the_last :
    let user : UserId := ⟨.generated 9⟩
    let role : RoleId := ⟨.generated 0⟩
    let row : Assignment := ⟨⟨.generated 8⟩, role, user, none, default⟩
    let w := holding row
    let issued := [row.id.uuid, role.uuid]
    let s := ((begin w issued).acceptAll [(.main, .unassign user role none),
      (.peer, .unassign user role none), (.peer, .unassign user role none)]).turns
        (List.replicate 2 0 ++ List.replicate 2 1 ++ List.replicate 7 0 ++ List.replicate 2 2 ++
          List.replicate 7 1)
    ((row ∈ w.store.rows ∧ (∀ time, time = w.now → row.isActiveAt time = true) ∧
        Store.Distinct w.store.rows ∧ ∀ a ∈ w.store.rows, a.id.uuid ∈ issued) ∧
      Runs (.unassigning Party user role (· = w.now)) (begin w issued) s ∧
      (∃ th ∈ s.threads, th.request.unassigns user role = true) ∧
      ∀ th ∈ s.threads, th.request.unassigns user role = true →
        (th.unassigned? user role).isSome = true) ∧
      s.threads.map (·.finds user role) = [true, true, false] ∧ s.Withdrawn w user role := by
  intro user role row w issued s
  have stored : row ∈ w.store.rows := List.mem_singleton_self row
  have active : ∀ time, time = w.now → row.isActiveAt time = true := fun _ _ => rfl
  have distinct : Store.Distinct w.store.rows := ⟨List.nodup_singleton _, List.nodup_singleton _⟩
  have known : ∀ a ∈ w.store.rows, a.id.uuid ∈ issued := by simp [w, holding, issued]
  have run : Runs (.unassigning Party user role (· = w.now)) (begin w issued) s := by
    refine Runs.turns (Runs.acceptAll .refl ?_) ?_ (show Smooth w.now _ _ by decide +kernel)
    · simp [Terms.unassigning]
    · exact fun s q log c works reads fresh => ⟨World.reliable_of_failing works,
        by simp [works], fun _ => fresh, fun _ _ _ => reads⟩
  have raced : ∃ th ∈ s.threads, th.request.unassigns user role = true := by decide +kernel
  have returned : ∀ th ∈ s.threads, th.request.unassigns user role = true →
      (th.unassigned? user role).isSome = true := by decide +kernel
  exact ⟨⟨⟨stored, active, distinct, known⟩, run, raced, returned⟩, by decide +kernel,
    every_finder_revokes stored rfl rfl active distinct known run raced returned⟩

/-- Not just one of two revocations succeeds: both return without a fault, announce that the role
was taken away, and put it on record. -/
theorem row_revoked_twice :
    let user : UserId := ⟨.generated 9⟩
    let role : RoleId := ⟨.generated 0⟩
    let row : Assignment := ⟨⟨.generated 8⟩, role, user, none, default⟩
    let w := holding row
    let issued := [row.id.uuid, role.uuid]
    let actor : Actor := ⟨⟨.generated 7⟩, false⟩
    let s := ((begin w issued).acceptAll [(.main, .unassign user role (some actor)),
      (.peer, .unassign user role (some actor))]).turns
        (List.replicate 2 0 ++ List.replicate 9 1 ++ List.replicate 7 0)
    ((w.store.rows = [row] ∧ (∀ time, row.isActiveAt time = true) ∧ w.keepsLog = true ∧
        w.effects.events = [] ∧ w.effects.entries = []) ∧
      Runs (.unassigning Party user role (· = w.now)) (begin w issued) s ∧
      ∀ th ∈ s.threads, (th.unassigned? user role).isSome = true) ∧
      s.threads.map (·.succeeds user role) = [true, true] ∧
      s.world.effects.events.countP (·.revokes user role) = 2 ∧
      s.world.effects.entries.countP (·.isUnassign user role) = 2 := by
  intro user role row w issued actor s
  have run : Runs (.unassigning Party user role (· = w.now)) (begin w issued) s := by
    refine Runs.turns (Runs.acceptAll .refl ?_) ?_ (show Smooth w.now _ _ by decide +kernel)
    · simp [Terms.unassigning]
    · exact fun s q log c works reads fresh => ⟨World.reliable_of_failing works,
        by simp [works], fun _ => fresh, fun _ _ _ => reads⟩
  exact ⟨⟨⟨rfl, fun _ => rfl, rfl, rfl, rfl⟩, run, by decide +kernel⟩, by decide +kernel,
    by decide +kernel, by decide +kernel⟩

end Crowd

end Entitlement
