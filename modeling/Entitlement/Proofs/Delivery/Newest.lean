import Entitlement.Proofs.Delivery.Again
import Entitlement.Proofs.Greatest
import Entitlement.Proofs.Instant

/-!
# The newest record stays

A cache that hears of changes of one role, or of grants of one role to one user, in any order and
any number of times, ends with the newest record or row it was told of, the one it started with
included. Each event compares what is there with what it brings and keeps the later of the two; so
the time of what is there never goes back.
-/

set_option autoImplicit false

namespace Entitlement

section

variable {α : Type} (time : α → Instant)

def later (x y : α) : α := if time y < time x then x else y

def TellsApart (all : List α) : Prop := ∀ x ∈ all, ∀ y ∈ all, time x = time y → x = y

instance [DecidableEq α] (all : List α) : Decidable (TellsApart time all) :=
  inferInstanceAs (Decidable (∀ x ∈ all, ∀ y ∈ all, time x = time y → x = y))

def Newest (all : List α) (x : α) : Prop := x ∈ all ∧ ∀ y ∈ all, y ≠ x → time y < time x

theorem later_self (x : α) : later time x x = x := ite_self x

theorem later_either (x y : α) :
    (later time x y = x ∨ later time x y = y) ∧ time x ≤ time (later time x y) ∧
      time y ≤ time (later time x y) := by
  unfold later
  by_cases h : time y < time x
  · rw [if_pos h]
    exact ⟨.inl rfl, Instant.le_refl _, Instant.le_of_lt h⟩
  · rw [if_neg h]
    exact ⟨.inr rfl, Instant.not_lt.mp h, Instant.le_refl _⟩

theorem foldl_later (x : α) (rest : List α) : rest.foldl (later time) x ∈ x :: rest ∧
    ∀ y ∈ x :: rest, time y ≤ time (rest.foldl (later time) x) :=
  foldl_greatest (fun x y => time x ≤ time y) (fun _ => Instant.le_refl _) Instant.le_trans
    (fun x y _ _ => later_either time x y) x rest fun _ _ => trivial

def reduced : List α → List α
  | [] => []
  | x :: rest => [rest.foldl (later time) x]

variable {time} {all : List α}

/-- Where times tell records apart, the later of each two is in the end the newest. -/
theorem newest_foldl_later {x : α} {rest : List α} (apart : TellsApart time (x :: rest)) :
    Newest time (x :: rest) (rest.foldl (later time) x) := by
  obtain ⟨mem, above⟩ := foldl_later time x rest
  refine ⟨mem, fun y hy other => ?_⟩
  exact Instant.lt_of_le_of_ne (above y hy) fun same => other (apart y hy _ mem same)

theorem exists_reduced (some : all ≠ []) (apart : TellsApart time all) :
    ∃ x, reduced time all = [x] ∧ Newest time all x := by
  obtain ⟨x, rest, rfl⟩ := List.exists_cons_of_ne_nil some
  exact ⟨_, rfl, newest_foldl_later apart⟩

theorem reduced_append (xs ys : List α) :
    reduced time (reduced time xs ++ ys) = reduced time (xs ++ ys) := by
  cases xs with
  | nil => rfl
  | cons x rest => simp [reduced]

theorem length_reduced_le (xs : List α) : (reduced time xs).length ≤ 1 := by
  cases xs <;> simp [reduced]

theorem reduced_eq_self (h : all.length ≤ 1) : reduced time all = all := by
  rcases all with _ | ⟨x, _ | ⟨y, rest⟩⟩
  · rfl
  · rfl
  · simp at h

end

def RoleEvent.brought? : RoleEvent → Option Role
  | .roleCreated role | .roleUpdated role => some role
  | _ => none

namespace RoleSnapshot

variable {e : RoleEvent} {before after : List Role} {cached role : Role} {told : List RoleEvent}

theorem replaceOlder_between (first : ∀ r ∈ before, r.id ≠ role.id) (same : cached.id = role.id) :
    replaceOlder role (before ++ cached :: after) =
      before ++ later (·.updatedAt) cached role :: after := by
  induction before with
  | nil =>
    rw [List.nil_append, List.nil_append, replaceOlder, if_pos same]
    rfl
  | cons r rest ih =>
    obtain ⟨hr, hrest⟩ := List.forall_mem_cons.mp first
    rw [List.cons_append, replaceOlder, if_neg hr, ih hrest, List.cons_append]

/-- A record of the role in its place is compared with the one there. -/
theorem patch_between (brings : e.brought? = some role) (first : ∀ r ∈ before, r.id ≠ role.id)
    (same : cached.id = role.id) :
    patch e (before ++ cached :: after) = before ++ later (·.updatedAt) cached role :: after := by
  cases e with
  | roleCreated r =>
    obtain rfl := Option.some.inj brings
    rw [patch_created, if_pos (by simp [same])]
    exact replaceOlder_between first same
  | roleUpdated r =>
    obtain rfl := Option.some.inj brings
    exact replaceOlder_between first same
  | _ => cases brings

theorem foldl_patch_between (first : ∀ r ∈ before, r.id ≠ cached.id)
    (about : ∀ e ∈ told, ∃ r, e.brought? = some r ∧ r.id = cached.id) :
    told.foldl (fun roles e => patch e roles) (before ++ cached :: after) =
      before ++ (told.filterMap (·.brought?)).foldl (later (·.updatedAt)) cached :: after := by
  induction told generalizing cached with
  | nil => rfl
  | cons e rest ih =>
    obtain ⟨⟨role, brings, same⟩, hrest⟩ := List.forall_mem_cons.mp about
    have kept : (later (·.updatedAt) cached role).id = cached.id := by
      rcases (later_either Role.updatedAt cached role).1 with h | h <;> rw [h]
      exact same
    rw [List.foldl_cons, patch_between brings (same ▸ first) same.symm,
      ih (kept ▸ first) (kept ▸ hrest), List.filterMap_cons_some brings, List.foldl_cons]

end RoleSnapshot

theorem Cache.hear_between {cache : Cache} {c : Cached (List Role)} {before after : List Role}
    {cached : Role} {told : List RoleEvent} (entry : cache.roles.entry = some c)
    (place : c.value = before ++ cached :: after) (first : ∀ r ∈ before, r.id ≠ cached.id)
    (about : ∀ e ∈ told, ∃ r, e.brought? = some r ∧ r.id = cached.id) :
    (cache.hear told).roles.entry = some { c with value :=
      before ++ (told.filterMap (·.brought?)).foldl (later (·.updatedAt)) cached :: after } := by
  rw [hear_entry, entry, Option.map_some, place, RoleSnapshot.foldl_patch_between first about]

namespace UserLists

variable {user : UserId} {id : RoleId} {a x : Assignment} {rows granted : List Assignment}

def ofRole (id : RoleId) (rows : List Assignment) : List Assignment :=
  rows.filter fun a => a.roleId = id

def ofOthers (id : RoleId) (rows : List Assignment) : List Assignment :=
  rows.filter fun a => a.roleId ≠ id

theorem mem_ofRole : a ∈ ofRole id rows ↔ a ∈ rows ∧ a.roleId = id := by simp [ofRole]

theorem length_ofRole_le (nodup : (rows.map (·.roleId)).Nodup) : (ofRole id rows).length ≤ 1 := by
  have distinct : ((ofRole id rows).map (·.roleId)).Nodup := Keyed.nodup_filter _ nodup _
  rw [List.map_congr_left fun a ha => (mem_ofRole.mp ha).2, List.map_const'] at distinct
  exact List.nodup_replicate.mp distinct

theorem ofRole_succeeded : ofRole a.roleId (ofOthers a.roleId rows ++ [a]) = [a] := by
  simp [ofRole, ofOthers]

theorem ofOthers_succeeded :
    ofOthers a.roleId (ofOthers a.roleId rows ++ [a]) = ofOthers a.roleId rows := by
  simp [ofOthers]

/-- A grant leaves the rows of other roles alone and compares the row that it brings with the one
that is there. -/
theorem patch_granted (hid : ∀ b ∈ rows, b.id = a.id → b = a)
    (single : (ofRole a.roleId rows).length ≤ 1) :
    ofOthers a.roleId (patch (.userRoleAssigned a) rows) = ofOthers a.roleId rows ∧
      ofRole a.roleId (patch (.userRoleAssigned a) rows) =
        reduced (·.createdAt) (ofRole a.roleId rows ++ [a]) := by
  rw [patch_assigned hid]
  by_cases kept : a ∈ rows ∨ ∃ x ∈ rows, x.roleId = a.roleId ∧ a.createdAt < x.createdAt
  · obtain ⟨x, hx, same, wins⟩ : ∃ x ∈ rows, x.roleId = a.roleId ∧
        later (·.createdAt) x a = x := by
      rcases kept with ha | ⟨x, hx, same, newer⟩
      · exact ⟨a, ha, rfl, later_self _ a⟩
      · exact ⟨x, hx, same, if_pos newer⟩
    have mem : x ∈ ofRole a.roleId rows := mem_ofRole.mpr ⟨hx, same⟩
    obtain ⟨y, one⟩ := List.length_eq_one_iff.mp
      (Nat.le_antisymm single (List.length_pos_of_mem mem))
    obtain rfl : x = y := by simpa [one] using mem
    rw [if_pos kept, one]
    exact ⟨rfl, by rw [List.singleton_append, reduced, List.foldl_cons, wins, List.foldl_nil]⟩
  · rw [if_neg kept]
    refine ⟨ofOthers_succeeded, ofRole_succeeded.trans ?_⟩
    rcases h : ofRole a.roleId rows with _ | ⟨x, rest⟩
    · rfl
    · obtain rfl : rest = [] := by simpa [h] using single
      obtain ⟨hx, same⟩ : x ∈ rows ∧ x.roleId = a.roleId := mem_ofRole.mp (by simp [h])
      have older : ¬ a.createdAt < x.createdAt := fun newer => kept (.inr ⟨x, hx, same, newer⟩)
      rw [List.singleton_append, reduced, List.foldl_cons, later, if_neg older, List.foldl_nil]

theorem told_granted (h : a.userId = user) :
    told user rows (.userRoleAssigned a) = patch (.userRoleAssigned a) rows := if_pos h

abbrev grantedTo (user : UserId) (rows granted : List Assignment) : List Assignment :=
  (granted.map .userRoleAssigned).foldl (told user) rows

/-- What a grant keeps, all of them keep: the list ends with the latest row of the role. -/
theorem grants_reduce (about : ∀ a ∈ granted, a.userId = user ∧ a.roleId = id)
    (hid : ∀ a ∈ granted, ∀ b ∈ rows ++ granted, b.id = a.id → b = a)
    (single : (ofRole id rows).length ≤ 1) :
    ofOthers id (grantedTo user rows granted) = ofOthers id rows ∧
      ofRole id (grantedTo user rows granted) =
        reduced (·.createdAt) (ofRole id rows ++ granted) := by
  induction granted generalizing rows with
  | nil => exact ⟨rfl, by rw [List.append_nil, reduced_eq_self single]; rfl⟩
  | cons a rest ih =>
    obtain ⟨⟨hu, rfl⟩, hrest⟩ := List.forall_mem_cons.mp about
    obtain ⟨others, role⟩ := patch_granted
      (fun b hb => hid a List.mem_cons_self b (List.mem_append_left _ hb)) single
    have among (b : Assignment) (hb : b ∈ patch (.userRoleAssigned a) rows ++ rest) :
        b ∈ rows ++ a :: rest := by
      rcases List.mem_append.mp hb with hb | hb
      · rcases mem_of_mem_patch hb with hb | hb
        · exact List.mem_append_left _ hb
        · rw [RoleEvent.userRoleAssigned.inj hb]
          exact List.mem_append_right _ List.mem_cons_self
      · exact List.mem_append_right _ (List.mem_cons_of_mem _ hb)
    obtain ⟨others', role'⟩ := ih hrest
      (fun a' ha' b hb => hid a' (List.mem_cons_of_mem _ ha') b (among b hb))
      (role ▸ length_reduced_le _)
    have step : grantedTo user rows (a :: rest) =
        grantedTo user (patch (.userRoleAssigned a) rows) rest := by
      rw [grantedTo, List.map_cons, List.foldl_cons, told_granted hu]
    rw [step, others', others, role', role, reduced_append, List.append_assoc]
    exact ⟨rfl, rfl⟩

end UserLists

/-- A snapshot with a record of a role in some place, the first of that role, is told of the role
any number of times, in any order. After each event the place has a record that is not older than
before, and in the end the newest. Likewise a list with at most one row of a role, whose user is
granted the role at least once: it ends with one row of the role, the newest, and its other rows are
as they were. Records of one time are one record, and so are rows of one time or identifier. -/
theorem Cache.newest_stays (cache : Cache) :
    (∀ (c : Cached (List Role)) (before after : List Role) (cached : Role)
        (heard : List RoleEvent),
      cache.roles.entry = some c → c.value = before ++ cached :: after →
      (∀ r ∈ before, r.id ≠ cached.id) →
      (∀ e ∈ heard, ∃ r, e.brought? = some r ∧ r.id = cached.id) →
      TellsApart (·.updatedAt) (cached :: heard.filterMap (·.brought?)) →
      ∃ shown : List RoleEvent → Role,
        (∀ told, told <+: heard → (cache.hear told).roles.entry =
          some { c with value := before ++ shown told :: after }) ∧
        (∀ told more, told ++ more <+: heard →
          (shown told).updatedAt ≤ (shown (told ++ more)).updatedAt) ∧
        Newest (·.updatedAt) (cached :: heard.filterMap (·.brought?)) (shown heard)) ∧
    ∀ (user : UserId) (id : RoleId) (c : Cached (List Assignment)) (granted : List Assignment),
      cache.lists.entries.lookup user = some c → (c.value.map (·.roleId)).Nodup → granted ≠ [] →
      (∀ a ∈ granted, a.userId = user ∧ a.roleId = id) →
      (∀ a ∈ granted, ∀ b ∈ c.value ++ granted, b.id = a.id → b = a) →
      TellsApart (·.createdAt) (UserLists.ofRole id c.value ++ granted) →
      ∃ newest rows, (cache.hear (granted.map .userRoleAssigned)).lists.entries.lookup user =
          some { c with value := rows } ∧
        UserLists.ofRole id rows = [newest] ∧
        UserLists.ofOthers id rows = UserLists.ofOthers id c.value ∧
        Newest (·.createdAt) (UserLists.ofRole id c.value ++ granted) newest := by
  constructor
  · intro c before after cached heard entry place first about apart
    refine ⟨fun told => (told.filterMap (·.brought?)).foldl (later (·.updatedAt)) cached,
      fun told part => ?_, fun told more _ => ?_, newest_foldl_later apart⟩
    · exact hear_between entry place first fun e he => about e (part.subset he)
    · simp only [List.filterMap_append, List.foldl_append]
      exact (foldl_later Role.updatedAt _ _).2 _ List.mem_cons_self
  · intro user id c granted entry nodup some about hid apart
    obtain ⟨others, role⟩ := UserLists.grants_reduce about hid (UserLists.length_ofRole_le nodup)
    obtain ⟨newest, one, wins⟩ := exists_reduced (by simp [some]) apart
    refine ⟨newest, UserLists.grantedTo user c.value granted, ?_, role.trans one, others, wins⟩
    rw [hear_lookup, entry]
    rfl

/-- The newest record of a role is heard of twice, and an older one in between; the newest of four
rows of a pair comes between two older ones. -/
theorem Cache.newest_stays_between :
    let user : UserId := ⟨.generated 0⟩
    let record (n : Nat) (second : Int) : Role := ⟨⟨.generated n⟩, ⟨"r", by decide⟩, "", none, none,
      .manual, false, false, false, false, false, false, 0, .empty, ⟨second, 0⟩, ⟨0, 0⟩⟩
    let row (n : Nat) (second : Int) : Assignment :=
      ⟨⟨.generated (10 * n + second.toNat)⟩, ⟨.generated n⟩, user, none, ⟨second, 0⟩⟩
    let roles : Cached (List Role) := ⟨[record 1 5, record 2 4, record 3 6], 9⟩
    let rows : Cached (List Assignment) := ⟨[row 2 4, row 1 5], 9⟩
    let cache : Cache := ⟨⟨some roles, 0⟩, ⟨[(user, rows)], 0⟩⟩
    let heard : List RoleEvent :=
      [.roleUpdated (record 2 8), .roleCreated (record 2 7), .roleUpdated (record 2 8)]
    let granted := [row 2 3, row 2 8, row 2 7]
    ((∀ e ∈ heard, ∃ r, e.brought? = some r ∧ r.id = (record 2 4).id) ∧
        TellsApart (·.updatedAt) (record 2 4 :: heard.filterMap (·.brought?)) ∧
        (∀ a ∈ granted, ∀ b ∈ rows.value ++ granted, b.id = a.id → b = a) ∧
        TellsApart (·.createdAt) (UserLists.ofRole ⟨.generated 2⟩ rows.value ++ granted)) ∧
      (cache.hear heard).roles.entry.map (·.value) =
        some [record 1 5, record 2 8, record 3 6] ∧
      (cache.hear (granted.map .userRoleAssigned)).lists.entries.lookup user =
        some { rows with value := [row 1 5, row 2 8] } ∧
      Newest (·.updatedAt) (record 2 4 :: heard.filterMap (·.brought?)) (record 2 8) ∧
      Newest (·.createdAt) (UserLists.ofRole ⟨.generated 2⟩ rows.value ++ granted) (row 2 8) := by
  intro user record row roles rows cache heard granted
  have about : ∀ e ∈ heard, ∃ r, e.brought? = some r ∧ r.id = (record 2 4).id := by
    simp [heard, RoleEvent.brought?, record]
  have apart : TellsApart (·.updatedAt) (record 2 4 :: heard.filterMap (·.brought?)) := by
    decide +kernel
  have hid : ∀ a ∈ granted, ∀ b ∈ rows.value ++ granted, b.id = a.id → b = a := by decide +kernel
  have apart' : TellsApart (·.createdAt)
      (UserLists.ofRole ⟨.generated 2⟩ rows.value ++ granted) := by decide +kernel
  have hheard : (cache.hear heard).roles.entry.map (·.value) =
      some [record 1 5, record 2 8, record 3 6] := by decide +kernel
  have hgranted : (cache.hear (granted.map .userRoleAssigned)).lists.entries.lookup user =
      some { rows with value := [row 1 5, row 2 8] } := by decide +kernel
  obtain ⟨records, pairs⟩ := Cache.newest_stays cache
  obtain ⟨shown, course, -, newest⟩ := records roles [record 1 5] [record 3 6] (record 2 4) heard
    rfl rfl (by decide +kernel) about apart
  obtain ⟨last, final, listed, one, -, latest⟩ := pairs user ⟨.generated 2⟩ rows granted
    (by decide +kernel) (by decide +kernel) (by simp [granted]) (by decide +kernel) hid apart'
  have hshown : shown heard = record 2 8 := by
    have same := course heard (List.prefix_refl heard)
    rw [same] at hheard
    simpa using hheard
  have hlast : last = row 2 8 := by
    obtain rfl : final = [row 1 5, row 2 8] := by
      simpa using congrArg Cached.value (Option.some.inj (listed.symm.trans hgranted))
    have kept : UserLists.ofRole ⟨.generated 2⟩ [row 1 5, row 2 8] = [row 2 8] := by decide +kernel
    simpa using one.symm.trans kept
  exact ⟨⟨about, apart, hid, apart'⟩, hheard, hgranted, hshown ▸ newest, hlast ▸ latest⟩

end Entitlement
