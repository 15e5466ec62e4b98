import Mathlib.Data.List.Pairwise
import Entitlement.Proofs.News

/-!
# News that arrives in any order

The news of a role or of a pair runs its course as the store changes: each piece fits what
was stored before it. It may arrive in another order and more than once. What is shown in
the end is then what is stored exactly if nothing that was taken in arrived too late to be
taken back, and if nothing that is stored arrived too early to be taken in.
-/

set_option autoImplicit false

namespace Entitlement

theorem pairwise_last {α : Type} {R : α → α → Prop} {xs : List α} {last x : α}
    (h : xs.Pairwise R) (hlast : xs.getLast? = some last) (hx : x ∈ xs) : x = last ∨ R x last := by
  obtain ⟨front, rfl⟩ := List.getLast?_eq_some_iff.mp hlast
  rcases List.mem_append.mp hx with hx | hx
  · exact .inr ((List.pairwise_append.mp h).2.2 x hx last (List.mem_singleton_self last))
  · exact .inl (List.mem_singleton.mp hx)

namespace RoleNews

def after (shown : Option Role) (heard : List RoleNews) : Option Role :=
  heard.foldl (fun shown n => n.apply shown) shown

inductive Course (start : Option Role) : List RoleNews → Option Role → Prop
  | start : Course start [] start
  | told {news : List RoleNews} {stored : Option Role} {n : RoleNews}
      (course : Course start news stored) (fits : n.Fits stored)
      (new : ∀ r, n = .created r → start = none ∧ news = []) :
      Course start (news ++ [n]) (n.apply stored)

def records (start : Option Role) (news : List RoleNews) : List Role :=
  start.toList ++ news.filterMap record?

def Answered : List RoleNews → Prop
  | [] => True
  | .created _ :: rest => .deleted ∈ rest ∧ Answered rest
  | _ :: rest => Answered rest

def Caught (role : Role) : List RoleNews → Prop
  | [] => False
  | .created r :: rest => r = role ∨ ∃ n ∈ rest, n.record? = some role
  | _ :: rest => Caught role rest

/-- The news arrives in time: a role that is gone is not created after its deletion was heard of,
and the stored record of a role that is new is heard of when the role is there. -/
def InTime (start stored : Option Role) (heard : List RoleNews) : Prop :=
  match stored with
  | none => Answered heard
  | some role => start = none → Caught role heard

variable {start stored shown : Option Role} {news heard : List RoleNews} {n : RoleNews}
  {role x : Role}

/-- After a change the record of its news is stored, or none. -/
theorem apply_of_fits (fits : n.Fits stored) : n.apply stored = n.record? := by
  cases n with
  | created r =>
    obtain rfl : stored = none := fits
    rfl
  | updated r =>
    obtain ⟨before, rfl, older⟩ := fits
    exact apply_older older rfl
  | deleted => rfl

theorem records_concat : records start (news ++ [n]) = records start news ++ n.record?.toList := by
  cases hn : n.record? <;> simp [records, hn]

theorem Course.last (h : Course start news (some role)) :
    (records start news).getLast? = some role := by
  generalize hs : some role = stored at h
  cases h with
  | start => simp [records, ← hs]
  | told course fits new =>
    rw [apply_of_fits fits] at hs ⊢
    rw [records_concat, ← hs]
    exact List.getLast?_concat

/-- A role that is stored was not deleted, and was created if it is new. -/
theorem Course.kept (h : Course start news (some role)) :
    .deleted ∉ news ∧ (start = none → ∃ r, .created r ∈ news) := by
  generalize hs : some role = stored at h
  induction h generalizing role with
  | start => exact ⟨List.not_mem_nil, fun e => by simp [e] at hs⟩
  | @told news stored n course fits new ih =>
    rw [apply_of_fits fits] at hs
    cases n with
    | deleted => cases hs
    | created r =>
      obtain ⟨-, rfl⟩ := new r rfl
      exact ⟨by simp, fun _ => ⟨r, by simp⟩⟩
    | updated r =>
      obtain ⟨before, stored, -⟩ := fits
      obtain ⟨kept, begun⟩ := ih stored.symm
      refine ⟨by simp [kept], fun e => ?_⟩
      obtain ⟨x, hx⟩ := begun e
      exact ⟨x, List.mem_append_left _ hx⟩

theorem Course.dropped (h : Course start news none) (known : start ≠ none) : .deleted ∈ news := by
  generalize hs : none = stored at h
  cases h with
  | start => exact absurd hs.symm known
  | @told news stored n course fits new =>
    rw [apply_of_fits fits] at hs
    cases n with
    | deleted => simp
    | _ => cases hs

/-- Nothing is shown in the end exactly if all that was shown or created is deleted later on. -/
theorem after_eq_none :
    after shown heard = none ↔ (shown ≠ none → .deleted ∈ heard) ∧ Answered heard := by
  induction heard generalizing shown with
  | nil => cases shown <;> simp [after, Answered]
  | cons n rest ih =>
    refine Iff.trans ih ?_
    cases n with
    | created r => cases shown <;> simp [apply, Answered]
    | updated r => cases shown <;> simp [apply, Answered]
    | deleted => simp [apply, Answered]

section

variable (kept : .deleted ∉ heard)
  (latest : ∀ n ∈ heard, ∀ r, n.record? = some r → r = role ∨ r.updatedAt < role.updatedAt)

include kept latest

/-- Of a role that is shown, the latest record is shown as soon as it was heard of. -/
theorem after_eq_latest (hx : x = role ∨ x.updatedAt < role.updatedAt) :
    after (some x) heard = some role ↔ x = role ∨ ∃ n ∈ heard, n.record? = some role := by
  induction heard generalizing x with
  | nil => simp [after]
  | cons n rest ih =>
    obtain ⟨r, hr⟩ : ∃ r, n.record? = some r := by
      cases n with
      | deleted => exact absurd List.mem_cons_self kept
      | _ => exact ⟨_, rfl⟩
    have happly : n.apply (some x) = some (if r.updatedAt < x.updatedAt then x else r) := by
      cases n with
      | deleted => cases hr
      | _ =>
        obtain rfl := Option.some.inj hr
        rfl
    have hr' := latest n List.mem_cons_self r hr
    have hkept : .deleted ∉ rest := fun h => kept (List.mem_cons_of_mem _ h)
    have hnext : (if r.updatedAt < x.updatedAt then x else r) = role ∨
        (if r.updatedAt < x.updatedAt then x else r).updatedAt < role.updatedAt := by
      split
      · exact hx
      · exact hr'
    have hthis : (if r.updatedAt < x.updatedAt then x else r) = role ↔ x = role ∨ r = role := by
      rcases hx with rfl | hx <;> rcases hr' with rfl | hr'
      · simp
      · simp [hr']
      · simp [Instant.not_lt.mpr (Instant.le_of_lt hx)]
      · have hx' : x ≠ role := fun e => Instant.lt_irrefl (e ▸ hx)
        have hr'' : r ≠ role := fun e => Instant.lt_irrefl (e ▸ hr')
        split <;> simp [hx', hr'']
    have := ih hkept (fun n hn => latest n (List.mem_cons_of_mem _ hn)) hnext
    show after (n.apply (some x)) rest = _ ↔ _
    rw [happly, this, hthis, List.exists_mem_cons_iff, hr, Option.some_inj, or_assoc]

/-- A role that is new is shown as it is stored exactly if its record was heard of in time. -/
theorem after_none_eq_latest : after none heard = some role ↔ Caught role heard := by
  induction heard with
  | nil => simp [after, Caught]
  | cons n rest ih =>
    have hkept : .deleted ∉ rest := fun h => kept (List.mem_cons_of_mem _ h)
    have hlatest := fun n hn => latest n (List.mem_cons_of_mem _ hn)
    cases n with
    | deleted => exact absurd List.mem_cons_self kept
    | updated r => exact ih hkept hlatest
    | created r =>
      exact after_eq_latest hkept hlatest (latest _ List.mem_cons_self r rfl)

end

/-- News that was all heard of at least once ends in what is stored exactly if it was in time. -/
theorem Course.settles_iff (h : Course start news stored)
    (ordered : (records start news).Pairwise fun r s => r.updatedAt < s.updatedAt)
    (all : ∀ n, n ∈ heard ↔ n ∈ news) : after start heard = stored ↔ InTime start stored heard := by
  cases stored with
  | none =>
    rw [after_eq_none]
    exact and_iff_right fun known => (all _).mpr (h.dropped known)
  | some role =>
    obtain ⟨kept, begun⟩ := h.kept
    have kept' : .deleted ∉ heard := fun hd => kept ((all _).mp hd)
    have last {r : Role} (hr : r ∈ records start news) : r = role ∨ r.updatedAt < role.updatedAt :=
      pairwise_last ordered h.last hr
    have latest (n : RoleNews) (hn : n ∈ heard) (r : Role) (hr : n.record? = some r) :
        r = role ∨ r.updatedAt < role.updatedAt :=
      last (List.mem_append_right _ (List.mem_filterMap.mpr ⟨n, (all n).mp hn, hr⟩))
    cases start with
    | none => simpa [InTime] using after_none_eq_latest kept' latest
    | some x =>
      have hx : x = role ∨ x.updatedAt < role.updatedAt := last (by simp [records])
      have told : x = role ∨ ∃ n ∈ heard, n.record? = some role := by
        rcases List.mem_append.mp (List.mem_of_getLast? h.last) with first | later
        · exact .inl (List.mem_singleton.mp first).symm
        · obtain ⟨n, hn, hr⟩ := List.mem_filterMap.mp later
          exact .inr ⟨n, (all n).mpr hn, hr⟩
      simpa [InTime] using (after_eq_latest kept' latest hx).mpr told

end RoleNews

namespace RowNews

def after (shown : Option Assignment) (heard : List RowNews) : Option Assignment :=
  heard.foldl (fun shown n => n.apply shown) shown

inductive Course (start : Option Assignment) : List RowNews → Option Assignment → Prop
  | start : Course start [] start
  | told {news : List RowNews} {stored : Option Assignment} {n : RowNews}
      (course : Course start news stored) (fits : n.Fits stored) :
      Course start (news ++ [n]) (n.apply stored)

def row : RowNews → Assignment
  | .granted a | .revoked a => a

def granted? : RowNews → Option Assignment
  | .granted a => some a
  | .revoked _ => none

def grants (start : Option Assignment) (news : List RowNews) : List Assignment :=
  start.toList ++ news.filterMap granted?

def Ends (a : Assignment) (news : List RowNews) : Prop :=
  .revoked a ∈ news ∨ ∃ b, .granted b ∈ news ∧ a.createdAt < b.createdAt

def Withdrawn : Option Assignment → List RowNews → Prop
  | _, [] => True
  | shown, n :: rest =>
    (∀ a, n = .granted a → n.apply shown = some a → Ends a rest) ∧ Withdrawn (n.apply shown) rest

def InTime (start stored : Option Assignment) (heard : List RowNews) : Prop :=
  stored = none → Withdrawn start heard

variable {start stored shown : Option Assignment} {news heard : List RowNews} {n : RowNews}
  {a b : Assignment}

theorem apply_of_fits (fits : n.Fits stored) : n.apply stored = n.granted? := by
  cases n with
  | granted a =>
    obtain rfl : stored = none := fits
    rfl
  | revoked a =>
    obtain rfl : stored = some a := fits
    simp [apply, granted?]

theorem grants_concat : grants start (news ++ [n]) = grants start news ++ n.granted?.toList := by
  cases hn : n.granted? <;> simp [grants, hn]

theorem Course.last (h : Course start news (some a)) : (grants start news).getLast? = some a := by
  generalize hs : some a = stored at h
  cases h with
  | start => simp [grants, ← hs]
  | told course fits =>
    rw [apply_of_fits fits] at hs ⊢
    rw [grants_concat, ← hs]
    exact List.getLast?_concat

/-- Only rows that were granted are revoked, and all but the one that is stored. -/
theorem Course.revoked (h : Course start news stored) :
    (∀ b, .revoked b ∈ news → b ∈ grants start news) ∧
      ∀ b ∈ grants start news, stored = some b ∨ .revoked b ∈ news := by
  induction h with
  | start => simp [grants]
  | @told news stored n course fits ih =>
    obtain ⟨known, ends⟩ := ih
    cases n with
    | granted a =>
      obtain rfl : stored = none := fits
      refine ⟨fun b hb => ?_, fun b hb => ?_⟩ <;> rw [grants_concat] at *
      · exact List.mem_append_left _ (known b (by simpa using hb))
      · rcases List.mem_append.mp hb with hb | hb
        · exact .inr (List.mem_append_left _ ((ends b hb).resolve_left (by simp)))
        · obtain rfl := List.mem_singleton.mp hb
          exact .inl rfl
    | revoked a =>
      obtain rfl : stored = some a := fits
      refine ⟨fun b hb => ?_, fun b hb => .inr ?_⟩ <;>
        rw [grants_concat, granted?, Option.toList_none, List.append_nil] at *
      · rcases List.mem_append.mp hb with hb | hb
        · exact known b hb
        · obtain rfl := RowNews.revoked.inj (List.mem_singleton.mp hb)
          exact List.mem_of_getLast? course.last
      · rcases ends b hb with hs | hb
        · obtain rfl := Option.some.inj hs
          simp
        · exact List.mem_append_left _ hb

theorem Course.kept (h : Course start news (some a)) (distinct : (grants start news).Nodup) :
    .revoked a ∉ news := by
  generalize hs : some a = stored at h
  cases h with
  | start => simp
  | @told news stored n course fits =>
    rw [apply_of_fits fits] at hs
    rw [grants_concat, ← hs, Option.toList_some] at distinct
    have new : a ∉ grants start news := fun ha =>
      (List.nodup_append.mp distinct).2.2 a ha a (List.mem_singleton_self a) rfl
    intro revoked
    rcases List.mem_append.mp revoked with revoked | revoked
    · exact new (course.revoked.1 a revoked)
    · obtain rfl := List.mem_singleton.mp revoked
      cases hs

theorem ends_granted : Ends a (.granted b :: news) ↔ a.createdAt < b.createdAt ∨ Ends a news := by
  simp only [Ends, List.mem_cons, reduceCtorEq, false_or, RowNews.granted.injEq]
  constructor
  · rintro (revoked | ⟨c, rfl | hc, later⟩)
    · exact .inr (.inl revoked)
    · exact .inl later
    · exact .inr (.inr ⟨c, hc, later⟩)
  · rintro (later | revoked | ⟨c, hc, later⟩)
    · exact .inr ⟨b, .inl rfl, later⟩
    · exact .inl revoked
    · exact .inr ⟨c, .inr hc, later⟩

theorem ends_revoked : Ends a (.revoked b :: news) ↔ a = b ∨ Ends a news := by
  simp [Ends, or_assoc]

structure Apart (rows : List Assignment) : Prop where
  ids : ∀ a ∈ rows, ∀ b ∈ rows, a.id = b.id → a = b
  times : ∀ a ∈ rows, ∀ b ∈ rows, a ≠ b → a.createdAt < b.createdAt ∨ b.createdAt < a.createdAt

variable {rows : List Assignment}

theorem Apart.granted (h : Apart rows) (ha : a ∈ rows) (hb : b ∈ rows) :
    (granted a).apply (some b) = some (if a.createdAt < b.createdAt then b else a) := by
  have other (later : a.createdAt < b.createdAt) : b.id ≠ a.id := fun hid =>
    Instant.lt_irrefl (h.ids b hb a ha hid ▸ later)
  simp only [apply]
  congr 1
  exact ite_congr (propext (and_iff_right_of_imp other)) (fun _ => rfl) fun _ => rfl

theorem Apart.revoked (h : Apart rows) (ha : a ∈ rows) (hb : b ∈ rows) :
    (revoked a).apply (some b) = if b = a then none else some b := by
  by_cases hab : b = a
  · simp [apply, hab]
  · have hid : b.id ≠ a.id := fun hid => hab (h.ids b hb a ha hid)
    simp [apply, hab, hid]

section

variable (apart : Apart rows) (hshown : ∀ x, shown = some x → x ∈ rows)

include apart hshown

/-- What is shown after one piece of news ends by the rest exactly if what was shown before ends by
all of it and a row that is taken in ends by the rest. -/
theorem ends_step (hn : n.row ∈ rows) :
    (∀ a, n.apply shown = some a → Ends a heard) ↔
      (∀ a, shown = some a → Ends a (n :: heard)) ∧
        ∀ a, n = .granted a → n.apply shown = some a → Ends a heard := by
  cases n with
  | granted b =>
    have hb : b ∈ rows := hn
    cases shown with
    | none => simp [apply]
    | some x =>
      have hx := hshown x rfl
      simp only [apart.granted hb hx, Option.some.injEq, RowNews.granted.injEq, forall_eq',
        ends_granted]
      by_cases later : b.createdAt < x.createdAt
      · have hxb : x ≠ b := fun e => Instant.lt_irrefl (e ▸ later)
        simp [later, hxb, Instant.not_lt.mpr (Instant.le_of_lt later)]
      · rw [if_neg later]
        refine ⟨fun ends => ⟨?_, fun _ => ends⟩, fun h => h.2 rfl⟩
        by_cases hxb : x = b
        · exact .inr (hxb ▸ ends)
        · exact .inl ((apart.times x hx b hb hxb).resolve_right later)
  | revoked b =>
    have hb : b ∈ rows := hn
    cases shown with
    | none => simp [apply]
    | some x =>
      rw [apart.revoked hb (hshown x rfl)]
      by_cases hxb : x = b <;> simp [hxb, ends_revoked]

omit apart in
theorem shown_step (hn : n.row ∈ rows) (x : Assignment) (hx : n.apply shown = some x) :
    x ∈ rows := by
  rcases apply_eq_some hx with hx | rfl
  · exact hshown x hx
  · exact hn

variable (known : ∀ n ∈ heard, n.row ∈ rows)

include known

theorem after_eq_none :
    after shown heard = none ↔ (∀ a, shown = some a → Ends a heard) ∧ Withdrawn shown heard := by
  induction heard generalizing shown with
  | nil => cases shown <;> simp [after, Ends, Withdrawn]
  | cons n rest ih =>
    obtain ⟨hn, hrest⟩ := List.forall_mem_cons.mp known
    have step : (∀ a, n.apply shown = some a → Ends a rest) ↔ _ := ends_step apart hshown hn
    calc after (n.apply shown) rest = none
        ↔ (∀ a, n.apply shown = some a → Ends a rest) ∧ Withdrawn (n.apply shown) rest :=
          ih (shown_step hshown hn) hrest
      _ ↔ (∀ a, shown = some a → Ends a (n :: rest)) ∧ Withdrawn shown (n :: rest) := by
          rw [step, and_assoc]
          rfl

theorem after_eq_latest (kept : .revoked a ∉ heard)
    (latest : ∀ x ∈ rows, x = a ∨ x.createdAt < a.createdAt) (ha : a ∈ rows)
    (told : shown = some a ∨ .granted a ∈ heard) : after shown heard = some a := by
  induction heard generalizing shown with
  | nil => simpa [after] using told
  | cons n rest ih =>
    obtain ⟨hn, hrest⟩ := List.forall_mem_cons.mp known
    have next : n.apply shown = some a ∨ .granted a ∈ rest := by
      cases n with
      | granted b =>
        have hb : b ∈ rows := hn
        by_cases hba : b = a
        · subst hba
          left
          cases shown with
          | none => rfl
          | some x =>
            rw [apart.granted hb (hshown x rfl)]
            rcases latest x (hshown x rfl) with rfl | older
            · rw [ite_self]
            · rw [if_neg (Instant.not_lt.mpr (Instant.le_of_lt older))]
        · have older := (latest b hb).resolve_left hba
          refine told.imp (fun hs => ?_) fun h => (List.mem_cons.mp h).resolve_left fun e =>
            hba (RowNews.granted.inj e).symm
          rw [hs, apart.granted hb ha, if_pos older]
      | revoked b =>
        have hb : b ∈ rows := hn
        have hba : a ≠ b := fun e => kept (e ▸ List.mem_cons_self)
        refine told.imp (fun hs => ?_) fun h => (List.mem_cons.mp h).resolve_left (by simp)
        rw [hs, apart.revoked hb ha, if_neg hba]
    exact ih (shown_step hshown hn) hrest (fun h => kept (List.mem_cons_of_mem _ h)) next

end

/-- News that was all heard of at least once ends in what is stored exactly if it was in time. -/
theorem Course.settles_iff (h : Course start news stored)
    (ordered : (grants start news).Pairwise fun a b => a.createdAt < b.createdAt)
    (ids : ∀ a ∈ grants start news, ∀ b ∈ grants start news, a.id = b.id → a = b)
    (all : ∀ n, n ∈ heard ↔ n ∈ news) : after start heard = stored ↔ InTime start stored heard := by
  have apart : Apart (grants start news) := by
    refine ⟨ids, fun a ha b hb hne => ?_⟩
    have either : (grants start news).Pairwise fun a b =>
        a.createdAt < b.createdAt ∨ b.createdAt < a.createdAt := ordered.imp fun h => .inl h
    have : Std.Symm fun a b : Assignment =>
        a.createdAt < b.createdAt ∨ b.createdAt < a.createdAt := ⟨fun _ _ => Or.symm⟩
    exact either.forall ha hb hne
  have known (n : RowNews) (hn : n ∈ heard) : n.row ∈ grants start news := by
    cases n with
    | granted b =>
      exact List.mem_append_right _ (List.mem_filterMap.mpr ⟨_, (all _).mp hn, rfl⟩)
    | revoked b => exact h.revoked.1 b ((all _).mp hn)
  have first (x : Assignment) (hx : start = some x) : x ∈ grants start news := by simp [grants, hx]
  cases stored with
  | none =>
    have ended (a : Assignment) (ha : start = some a) : Ends a heard :=
      .inl ((all _).mpr ((h.revoked.2 a (first a ha)).resolve_left (by simp)))
    rw [after_eq_none apart first known, and_iff_right ended]
    exact ⟨fun withdrawn _ => withdrawn, fun inTime => inTime rfl⟩
  | some a =>
    have distinct : (grants start news).Nodup := ordered.imp fun {x y} later => by
      rintro rfl
      exact Instant.lt_irrefl later
    have ha := List.mem_of_getLast? h.last
    have told : start = some a ∨ .granted a ∈ heard := by
      rcases List.mem_append.mp ha with hs | hg
      · exact .inl (Option.mem_toList.mp hs)
      · obtain ⟨n, hn, e⟩ := List.mem_filterMap.mp hg
        cases n with
        | granted b => exact .inr ((all _).mpr (Option.some.inj e ▸ hn))
        | revoked b => cases e
    refine iff_of_true ?_ fun e => by simp at e
    exact after_eq_latest apart first known (fun h' => h.kept distinct ((all _).mp h'))
      (fun x hx => pairwise_last ordered h.last hx) ha told

end RowNews

end Entitlement
