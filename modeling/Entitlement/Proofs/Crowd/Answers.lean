import Entitlement.Proofs.Crowd.Request
import Entitlement.Proofs.Overlap.Pool
import Entitlement.Proofs.Store

/-!
# What an answer says of the world

Each call either fails without effect or has the effect of its operation: on the store, on
the cache of its party, on the feed and on the record of acts. Its answer shows nothing but
what was there.
-/

set_option autoImplicit false

namespace Entitlement

def Exchange.Fits (s t : Store) : Exchange → Prop
  | ⟨.listRoles, .ok roles⟩ => roles = s.roles ∧ t = s
  | ⟨.findRole id, .ok found⟩ => found = s.findRole id ∧ t = s
  | ⟨.insertRole role, .ok ()⟩ => s.insertRole role = .ok t
  | ⟨.updateRole role, .ok ()⟩ => s.updateRole role = .ok t
  | ⟨.deleteRole id, .ok ()⟩ => s.deleteRole id = .ok t
  | ⟨.touchRole id usedAt, .ok ()⟩ => t = s.touchRole id usedAt
  | ⟨.assignmentsOfUser user, .ok rows⟩ => rows = s.assignmentsOfUser user ∧ t = s
  | ⟨.findAssignment user role, .ok found⟩ => found = s.findAssignment user role ∧ t = s
  | ⟨.insertAssignment a, .ok ()⟩ => s.insertAssignment a = .ok t
  | ⟨.deleteAssignment id, .ok removed⟩ => (removed, t) = s.deleteAssignment id
  | ⟨.expiredAssignments time limit, .ok batch⟩ => batch = s.expiredAssignments time limit ∧ t = s
  | _ => t = s

def Exchange.Shows (cache : Cache) : Exchange → Prop
  | ⟨.lookupRoles, .fresh roles⟩ => ∃ c, cache.roles.entry = some c ∧ c.value = roles
  | ⟨.installRoles _ loaded, roles⟩ =>
    roles = loaded ∨ ∃ c, cache.roles.entry = some c ∧ c.value = roles
  | ⟨.lookupAssignments user, .fresh rows⟩ => ∃ c, (user, c) ∈ cache.lists.entries ∧ c.value = rows
  | ⟨.installAssignments user _ loaded, rows⟩ =>
    rows = loaded ∨ ∃ c, (user, c) ∈ cache.lists.entries ∧ c.value = rows
  | _ => True

def Call.recache (lifetimes : Lifetimes) (now : Moment) (cache : Cache) : Call → Cache
  | .installRoles version loaded =>
    { cache with roles := (cache.roles.install now lifetimes.roles version loaded).2 }
  | .installAssignments user version loaded =>
    { cache with lists := (cache.lists.install user now lifetimes.assignments version loaded).2 }
  | .applyEvent event => cache.apply event
  | .pruneCache => (cache.prune now).2
  | .clearCache => cache.clear
  | _ => cache

namespace World

variable {κ : Type} {w : World κ}

theorem noted_effects (c : Call) :
    ((w.noteLoad c).noteInquiry c).effects.events = w.effects.events ∧
      ((w.noteLoad c).noteInquiry c).effects.entries = w.effects.entries ∧
      ((w.noteLoad c).noteInquiry c).keepsLog = w.keepsLog := by
  cases c <;> exact ⟨rfl, rfl, rfl⟩

theorem noted_clock (c : Call) :
    ((w.noteLoad c).noteInquiry c).lifetimes = w.lifetimes ∧
      ((w.noteLoad c).noteInquiry c).moment = w.moment := by
  cases c <;> exact ⟨rfl, rfl⟩

variable [DecidableEq κ] (k : κ) (c : Call)

theorem serve_fits (w : World κ) :
    Exchange.Fits w.store (serve k c w).2.store ⟨c, (serve k c w).1⟩ := by
  cases c with
  | insertRole role =>
    simp only [serve]
    cases h : w.store.insertRole role <;> simp [change, Exchange.Fits, h]
  | updateRole role =>
    simp only [serve]
    cases h : w.store.updateRole role <;> simp [change, Exchange.Fits, h]
  | deleteRole id =>
    simp only [serve]
    cases h : w.store.deleteRole id <;> simp [change, Exchange.Fits, h]
  | insertAssignment a =>
    simp only [serve]
    cases h : w.store.insertAssignment a <;> simp [change, Exchange.Fits, h]
  | notify user notification => simp only [serve, Exchange.Fits]; split <;> rfl
  | record entry => simp only [serve, Exchange.Fits]; split <;> rfl
  | _ => first | exact ⟨rfl, rfl⟩ | rfl

theorem fits_failed {fault : Fault} {r : c.Answer} (s : Store) (h : c.failed? fault = some r) :
    Exchange.Fits s s ⟨c, r⟩ := by
  cases c <;> simp only [Call.failed?, Option.some.injEq, reduceCtorEq] at h
  all_goals
    subst h
    rfl

theorem answer_fits (w : World κ) :
    Exchange.Fits w.store (answer k c w).2.store ⟨c, (answer k c w).1⟩ := by
  obtain ⟨hstore, -⟩ := noted_rows (w := w) c
  rcases answer_cases k c w with ⟨fault, r, hr, he⟩ | he <;> rw [he]
  · rw [hstore]
    exact fits_failed c w.store hr
  · have := serve_fits k c ((w.noteLoad c).noteInquiry c)
    rwa [hstore] at this

theorem answer_reading {time : Instant}
    (h : Exchange.reading? ⟨c, (answer k c w).1⟩ = some time) : c = .now ∧ w.now = time := by
  cases c with
  | now => exact ⟨rfl, Option.some.inj h⟩
  | _ => simp [Exchange.reading?] at h

/-- While the store and the feed answer, nothing that matters to a request about rows fails but
what the store refuses. -/
theorem answer_fault (hw : w.Reliable) {fault : Fault}
    (h : Exchange.fault? ⟨c, (answer k c w).1⟩ = some fault) :
    ∃ a, (⟨c, (answer k c w).1⟩ : Exchange) = ⟨.insertAssignment a, .error fault⟩ ∧
      w.store.insertAssignment a = .error fault := by
  cases c with
  | findRole id =>
    rw [answer_of_works (.findRole id) hw rfl (.inl rfl)] at h
    simp [serve, Exchange.fault?] at h
  | findAssignment user role =>
    rw [answer_of_works (.findAssignment user role) hw rfl (.inl rfl)] at h
    simp [serve, Exchange.fault?] at h
  | insertAssignment a =>
    rw [answer_of_works (.insertAssignment a) hw rfl (.inl rfl)] at h ⊢
    simp only [serve, noteLoad, noteInquiry] at h ⊢
    cases hins : w.store.insertAssignment a with
    | ok t => simp [change, Exchange.fault?, hins] at h
    | error f =>
      obtain rfl : f = fault := by simpa [change, Exchange.fault?, hins] using h
      exact ⟨a, by simp [change], hins⟩
  | deleteAssignment id =>
    rw [answer_of_works (.deleteAssignment id) hw rfl (.inl rfl)] at h
    simp [serve, Exchange.fault?] at h
  | publish event =>
    rw [answer_of_works (.publish event) hw rfl (.inr rfl)] at h
    simp [serve, Exchange.fault?] at h
  | _ => simp [Exchange.fault?] at h

omit [DecidableEq κ] in
theorem change_frame (w : World κ) (result : Except Fault Store) :
    (w.change result).2.caches = w.caches ∧ (w.change result).2.effects = w.effects ∧
      (w.change result).2.keepsLog = w.keepsLog := by
  cases result <;> exact ⟨rfl, rfl, rfl⟩

theorem serve_caches (w : World κ) (party : κ) : (serve k c w).2.caches party =
    if party = k then c.recache (w.lifetimes k) w.moment (w.caches k) else w.caches party := by
  have kept : w.caches party = if party = k then w.caches k else w.caches party := by
    split
    · next h => rw [h]
    · rfl
  cases c with
  | insertRole role => rw [serve, (change_frame w _).1]; exact kept
  | updateRole role => rw [serve, (change_frame w _).1]; exact kept
  | deleteRole id => rw [serve, (change_frame w _).1]; exact kept
  | insertAssignment a => rw [serve, (change_frame w _).1]; exact kept
  | notify user notification => simp only [serve]; split <;> exact kept
  | record entry => simp only [serve]; split <;> exact kept
  | _ => first | exact kept | rfl

theorem recache_failed {fault : Fault} {r : c.Answer} (h : c.failed? fault = some r)
    (lifetimes : Lifetimes) (now : Moment) (cache : Cache) :
    c.recache lifetimes now cache = cache := by
  cases c <;> simp only [Call.failed?, Option.some.injEq, reduceCtorEq] at h
  all_goals rfl

theorem answer_caches (w : World κ) (party : κ) : (answer k c w).2.caches party =
    if party = k then c.recache (w.lifetimes k) w.moment (w.caches k) else w.caches party := by
  obtain ⟨-, hcaches⟩ := noted_rows (w := w) c
  obtain ⟨hlifetimes, hmoment⟩ := noted_clock (w := w) c
  rcases answer_cases k c w with ⟨fault, r, hr, he⟩ | he <;> rw [he]
  · rw [hcaches, recache_failed c hr]
    split
    · next h => rw [h]
    · rfl
  · rw [serve_caches, hcaches, hlifetimes, hmoment]

theorem answer_shows (w : World κ) : Exchange.Shows (w.caches k) ⟨c, (answer k c w).1⟩ := by
  cases c with
  | lookupRoles =>
    show Exchange.Shows (w.caches k) ⟨.lookupRoles, (w.caches k).roles.lookup w.moment⟩
    unfold RoleSnapshot.lookup
    cases h : (w.caches k).roles.freshValue? w.moment with
    | none => trivial
    | some roles => exact RoleSnapshot.entry_of_freshValue h
  | installRoles version loaded =>
    show Exchange.Shows (w.caches k) ⟨.installRoles version loaded,
      ((w.caches k).roles.install w.moment (w.lifetimes k).roles version loaded).1⟩
    unfold RoleSnapshot.install
    cases h : (w.caches k).roles.freshValue? w.moment with
    | none => dsimp only; split <;> exact .inl rfl
    | some roles => exact .inr (RoleSnapshot.entry_of_freshValue h)
  | lookupAssignments user =>
    show Exchange.Shows (w.caches k)
      ⟨.lookupAssignments user, (w.caches k).lists.lookup user w.moment⟩
    unfold UserLists.lookup
    cases h : (w.caches k).lists.freshValue? user w.moment with
    | none => trivial
    | some rows => exact UserLists.mem_of_freshValue h
  | installAssignments user version loaded =>
    show Exchange.Shows (w.caches k) ⟨.installAssignments user version loaded,
      ((w.caches k).lists.install user w.moment (w.lifetimes k).assignments version loaded).1⟩
    unfold UserLists.install
    cases h : (w.caches k).lists.freshValue? user w.moment with
    | none => dsimp only; split <;> exact .inl rfl
    | some rows => exact .inr (UserLists.mem_of_freshValue h)
  | _ => trivial

theorem serve_events (w : World κ) : (serve k c w).2.effects.events =
    w.effects.events ++ (Exchange.published? ⟨c, (serve k c w).1⟩).toList := by
  cases c with
  | insertRole role => rw [serve, (change_frame w _).2.1]; simp [Exchange.published?]
  | updateRole role => rw [serve, (change_frame w _).2.1]; simp [Exchange.published?]
  | deleteRole id => rw [serve, (change_frame w _).2.1]; simp [Exchange.published?]
  | insertAssignment a => rw [serve, (change_frame w _).2.1]; simp [Exchange.published?]
  | notify user notification => simp only [serve]; split <;> simp [Exchange.published?]
  | record entry => simp only [serve]; split <;> simp [Exchange.published?]
  | publish event => rfl
  | _ => exact (List.append_nil _).symm

theorem answer_events (w : World κ) : (answer k c w).2.effects.events =
    w.effects.events ++ (Exchange.published? ⟨c, (answer k c w).1⟩).toList := by
  obtain ⟨hevents, -⟩ := noted_effects (w := w) c
  rcases answer_cases k c w with ⟨fault, r, hr, he⟩ | he <;> rw [he]
  · rw [hevents]
    cases c <;> simp only [Call.failed?, Option.some.injEq, reduceCtorEq] at hr
    all_goals
      subst hr
      exact (List.append_nil _).symm
  · rw [serve_events, hevents]

theorem serve_entries (w : World κ) (keeps : w.keepsLog = true) :
    (serve k c w).2.effects.entries =
      w.effects.entries ++ (Exchange.entry? ⟨c, (serve k c w).1⟩).toList := by
  cases c with
  | insertRole role => rw [serve, (change_frame w _).2.1]; simp [Exchange.entry?]
  | updateRole role => rw [serve, (change_frame w _).2.1]; simp [Exchange.entry?]
  | deleteRole id => rw [serve, (change_frame w _).2.1]; simp [Exchange.entry?]
  | insertAssignment a => rw [serve, (change_frame w _).2.1]; simp [Exchange.entry?]
  | notify user notification => simp only [serve]; split <;> simp [Exchange.entry?]
  | record entry => simp [serve, keeps, Exchange.entry?]
  | _ => exact (List.append_nil _).symm

/-- While the record of acts is kept and answers, every entry gets on it. -/
theorem answer_entries (w : World κ) (keeps : w.keepsLog = true) (works : .record ∉ w.failing) :
    (answer k c w).2.effects.entries =
      w.effects.entries ++ (Exchange.entry? ⟨c, (answer k c w).1⟩).toList := by
  obtain ⟨-, hentries, hkeeps⟩ := noted_effects (w := w) c
  rcases answer_cases k c w with ⟨fault, r, hr, he⟩ | he
  · cases c with
    | record entry =>
      have hserve : answer k (.record entry) w = serve k (.record entry) w := by
        simp [answer, fails, Call.port?, noteLoad, noteInquiry, works]
      rw [hserve]
      exact serve_entries k _ w keeps
    | _ =>
      rw [he, hentries]
      exact (List.append_nil _).symm
  · rw [he, serve_entries k c _ (hkeeps.trans keeps), hentries]

theorem answer_keepsLog (w : World κ) : (answer k c w).2.keepsLog = w.keepsLog := by
  obtain ⟨-, -, hkeeps⟩ := noted_effects (w := w) c
  rcases answer_cases k c w with ⟨fault, r, hr, he⟩ | he <;> rw [he]
  · exact hkeeps
  · rw [← hkeeps]
    generalize (w.noteLoad c).noteInquiry c = v
    cases c with
    | insertRole role => exact (change_frame v _).2.2
    | updateRole role => exact (change_frame v _).2.2
    | deleteRole id => exact (change_frame v _).2.2
    | insertAssignment a => exact (change_frame v _).2.2
    | notify user notification => simp only [serve]; split <;> rfl
    | record entry => simp only [serve]; split <;> rfl
    | _ => rfl

end World

end Entitlement
