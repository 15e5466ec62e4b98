import Entitlement.Proofs.Desk.Loads

/-!
# The form of what is cached

A snapshot has one record for a role; the list of a user has rows of that user alone, one
at most for an identifier and for a role. Loads that overlap and events in any order keep
this form: a row that an event puts in place of one with its identifier is that row.
-/

set_option autoImplicit false

namespace Entitlement

structure UserLists.Proper (known : Assignment → Prop) (user : UserId) (rows : List Assignment) :
    Prop extends Sound user rows where
  ids_nodup : (rows.map (·.id)).Nodup
  known : ∀ a ∈ rows, known a

namespace UserLists

variable {known : Assignment → Prop} {e : RoleEvent} {user : UserId} {a : Assignment}
  {rows after : List Assignment}

theorem map_id_replaceSame : (replaceSame a rows).map (·.id) = rows.map (·.id) := by
  induction rows with
  | nil => rfl
  | cons x rest ih =>
    unfold replaceSame
    split
    · next hx => simp [hx]
    · simp [ih]

theorem patch_ids_nodup (h : (rows.map (·.id)).Nodup) : ((patch e rows).map (·.id)).Nodup := by
  cases e with
  | userRoleAssigned a =>
    simp only [patch]
    split
    · rwa [map_id_replaceSame]
    · next absent =>
      split
      · exact h
      · refine Keyed.nodup_append_singleton _ (Keyed.nodup_filter _ h _) fun x hx => ?_
        have hne : ∀ y ∈ rows, y.id ≠ a.id := by simpa using absent
        exact hne x (List.mem_of_mem_filter hx)
  | userRoleUnassigned a => exact Keyed.nodup_filter _ h _
  | _ => exact h

/-- An event about a row that is known leaves a list in form, whoever it is about. -/
theorem Proper.patched (h : Proper known user rows)
    (ids : ∀ a b, known a → known b → a.id = b.id → a = b) (row : ∀ a, e.row? = some a → known a)
    (patched : Patched e user rows after) : Proper known user after where
  toSound := patched.sound h.toSound fun a ha x hx hid => ids x a (h.known x hx) (row a ha) hid
  ids_nodup := by
    rcases patched with ⟨rfl, -⟩ | ⟨rfl, -⟩
    · exact patch_ids_nodup h.ids_nodup
    · exact h.ids_nodup
  known a ha := by
    rcases patched.mem ha with ha | rfl
    · exact h.known a ha
    · exact row a rfl

end UserLists

def Exchange.Proper (known : Assignment → Prop) : Exchange → Prop
  | ⟨.listRoles, .ok roles⟩ => (roles.map (·.id)).Nodup
  | ⟨.assignmentsOfUser user, .ok rows⟩ => UserLists.Proper known user rows
  | _ => True

namespace Desk

inductive Step (lifetimes : Lifetimes) (known : Assignment → Prop) : Desk → Desk → Prop
  | quiet {d d' : Desk} (step : Quiet lifetimes (Exchange.Proper known) d d') :
      Step lifetimes known d d'
  | applies {d : Desk} {e : RoleEvent} (row : ∀ a, e.row? = some a → known a) :
      Step lifetimes known d (d.apply e)

abbrev Runs (lifetimes : Lifetimes) (known : Assignment → Prop) : Desk → Desk → Prop :=
  Relation.ReflTransGen (Step lifetimes known)

variable {lifetimes : Lifetimes} {known : Assignment → Prop} {d₀ d d' : Desk}

abbrev Formed (known : Assignment → Prop) (d : Desk) : Prop :=
  d.Upholds (fun roles => (roles.map (·.id)).Nodup) (UserLists.Proper known)

theorem Formed.start (cache : d.cache = .empty) (loads : d.loads = []) : d.Formed known := by
  refine ⟨⟨?_, ?_⟩, ?_⟩
  · simp [cache, Cache.empty, RoleSnapshot.empty]
  · simp [cache, Cache.empty, UserLists.empty]
  · simp [loads]

theorem Formed.step (ids : ∀ a b, known a → known b → a.id = b.id → a = b) (h : d.Formed known)
    (step : Step lifetimes known d d') : d'.Formed known := by
  cases step with
  | quiet step => exact h.quiet ⟨fun _ nodup => nodup, fun _ _ proper => proper⟩ step
  | applies row =>
    exact h.apply (fun _ nodup => RoleSnapshot.patch_nodup nodup)
      fun _ _ _ proper patched => proper.patched ids row patched

theorem Formed.run (ids : ∀ a b, known a → known b → a.id = b.id → a = b) (h : d₀.Formed known)
    (run : Runs lifetimes known d₀ d) : d.Formed known := by
  induction run with
  | refl => exact h
  | tail _ step ih => exact ih.step ids step

/-- From an empty cache on, whatever loads overlap and whatever events are applied in whatever
order, a snapshot has each role once, and the list of a user has rows of that user only, each
identifier and each role once. -/
theorem cached_in_form (ids : ∀ a b, known a → known b → a.id = b.id → a = b)
    (cache : d₀.cache = .empty) (loads : d₀.loads = []) (run : Runs lifetimes known d₀ d) :
    (∀ c, d.cache.roles.entry = some c → (c.value.map (·.id)).Nodup) ∧
      ∀ user c, (user, c) ∈ d.cache.lists.entries → (∀ a ∈ c.value, a.userId = user) ∧
        (c.value.map (·.id)).Nodup ∧ (c.value.map (·.roleId)).Nodup := by
  have formed := (Formed.start cache loads).run ids run
  refine ⟨formed.cache.snapshot, fun user c hc => ?_⟩
  have proper := formed.cache.lists user c hc
  exact ⟨proper.of_user, proper.ids_nodup, proper.roles_nodup⟩

/-- A list is read while a grant arrives, and read again; a later row of the role then takes the
place of the first, which comes once more. -/
theorem cached_in_form_regranted :
    let user : UserId := ⟨.generated 0⟩
    let role : RoleId := ⟨.generated 1⟩
    let first : Assignment := ⟨⟨.generated 2⟩, role, user, none, ⟨0, 0⟩⟩
    let second : Assignment := ⟨⟨.generated 3⟩, role, user, none, ⟨1, 0⟩⟩
    let known := fun a => a = first ∨ a = second
    let d₀ : Desk := ⟨.empty, 0, []⟩
    (∀ a b, known a → known b → a.id = b.id → a = b) ∧
      ∃ d, Runs .default known d₀ d ∧
        d.cache.lists.entries.map (fun entry => (entry.1, entry.2.value)) = [(user, [second])] ∧
        (∀ c, d.cache.roles.entry = some c → (c.value.map (·.id)).Nodup) ∧
        ∀ user c, (user, c) ∈ d.cache.lists.entries → (∀ a ∈ c.value, a.userId = user) ∧
          (c.value.map (·.id)).Nodup ∧ (c.value.map (·.roleId)).Nodup := by
  intro user role first second known d₀
  have ids : ∀ a b, known a → known b → a.id = b.id → a = b := by
    rintro a b (rfl | rfl) (rfl | rfl) <;> decide
  have proper : UserLists.Proper known user [first] :=
    { of_user := by simp [first], roles_nodup := by simp, ids_nodup := by simp
      known := by simp [known] }
  have opened : Runs .default known d₀ _ := .single (.quiet (.begins (.rows user)))
  have looked := opened.tail
    (.quiet (.proceeds (i := 0) (c := .lookupAssignments user) (r := .missing 0) rfl rfl))
  have granted := looked.tail
    (.applies (e := .userRoleAssigned first) (by simp [RoleEvent.row?, known]))
  have read := granted.tail
    (.quiet (.proceeds (i := 0) (c := .assignmentsOfUser user) (r := .ok [first]) rfl proper))
  have offered := read.tail (.quiet
    (.proceeds (i := 0) (c := .installAssignments user 0 [first]) (r := [first]) rfl rfl))
  have again := offered.tail (.quiet (.begins (.rows user)))
  have lookedAgain := again.tail
    (.quiet (.proceeds (i := 1) (c := .lookupAssignments user) (r := .missing 1) rfl rfl))
  have readAgain := lookedAgain.tail
    (.quiet (.proceeds (i := 1) (c := .assignmentsOfUser user) (r := .ok [first]) rfl proper))
  have kept := readAgain.tail (.quiet
    (.proceeds (i := 1) (c := .installAssignments user 1 [first]) (r := [first]) rfl rfl))
  have replaced := kept.tail
    (.applies (e := .userRoleAssigned second) (by simp [RoleEvent.row?, known]))
  have late := replaced.tail
    (.applies (e := .userRoleAssigned first) (by simp [RoleEvent.row?, known]))
  exact ⟨ids, _, late, by decide +kernel, cached_in_form ids rfl rfl late⟩

end Desk

end Entitlement
