import Entitlement.Proofs.Outage.Answers

/-!
# Courtesies that fail

To note the last use of a role, to tell a user and to put an act on record are courtesies. Requests
are carried out twice, one after the other, once with all that works and once with any of these
calls failing. All that differs are last uses, and that what failed was not told and not recorded.
-/

set_option autoImplicit false

namespace Entitlement

namespace Circumstances

def heeded (o : Circumstances) (calls : List Call) : List Call :=
  (calls.zipIdx.filter fun call => !o.fails call.2).map (·.1)

theorem heeded_append (o : Circumstances) (calls : List Call) (c : Call) :
    o.heeded (calls ++ [c]) = o.heeded calls ++ if o.fails calls.length then [] else [c] := by
  cases h : o.fails calls.length <;> simp [heeded, List.zipIdx_append, h]

theorem heeded_unfailing (o : Circumstances) (calls : List Call) :
    o.unfailing.heeded calls = calls := by
  simp [heeded, unfailing]

/-- Which calls are heeded depends on their numbers only. -/
theorem heeded_map (o : Circumstances) (f : Call → Call) (calls : List Call) :
    o.heeded (calls.map f) = (o.heeded calls).map f := by
  simp [heeded, List.zipIdx_map, List.filter_map, Function.comp_def]

end Circumstances

namespace Call

def definition : Call → Call
  | .insertRole role => .insertRole role.definition
  | .updateRole role => .updateRole role.definition
  | .applyEvent e => .applyEvent e.definition
  | .publish e => .publish e.definition
  | .record entry => .record entry.definition
  | c => c

def notice? : Call → Option (UserId × Notification)
  | .notify user notification => some (user, notification)
  | _ => none

def entry? : Call → Option ModerationEntry
  | .record entry => some entry
  | _ => none

theorem notice_definition (c : Call) : c.definition.notice? = c.notice? := by cases c <;> rfl

theorem entry_definition (c : Call) :
    c.definition.entry? = c.entry?.map ModerationEntry.definition := by cases c <;> rfl

/-- What is told and recorded where calls differ in last uses differs in these at most. -/
theorem told_of_definitions {calls others : List Call}
    (alike : calls.map definition = others.map definition) :
    calls.filterMap notice? = others.filterMap notice? ∧
      (calls.filterMap entry?).map ModerationEntry.definition =
        (others.filterMap entry?).map ModerationEntry.definition := by
  have notices (l : List Call) : l.filterMap notice? = (l.map definition).filterMap notice? := by
    rw [List.filterMap_map]
    exact congrArg (List.filterMap · l) (funext fun c => (notice_definition c).symm)
  have entries (l : List Call) : (l.filterMap entry?).map ModerationEntry.definition =
      (l.map definition).filterMap entry? := by
    rw [List.filterMap_map, List.map_filterMap]
    exact congrArg (List.filterMap · l) (funext fun c => (entry_definition c).symm)
  exact ⟨by rw [notices calls, notices others, alike], by rw [entries, entries, alike]⟩

end Call

theorem Call.Alike.definition {c d : Call} (h : c.Alike d) : c.definition = d.definition := by
  obtain ⟨r, s, asked⟩ := h
  cases asked with
  | same _ => rfl
  | findRole _ => rfl
  | insertRole same => exact congrArg Call.insertRole same
  | updateRole same => exact congrArg Call.updateRole same
  | applyEvent same => exact congrArg Call.applyEvent same
  | publish same => exact congrArg Call.publish same
  | touchRole => rfl
  | notify => rfl
  | record same => exact congrArg Call.record same

namespace World

variable {κ : Type} {w v u : World κ} {c : Call}

structure Took (w : World κ) (calls : List Call) (v : World κ) : Prop where
  keepsNotices : v.keepsNotices = w.keepsNotices
  keepsLog : v.keepsLog = w.keepsLog
  notices : v.effects.notices =
    w.effects.notices ++ if w.keepsNotices then calls.filterMap Call.notice? else []
  entries : v.effects.entries =
    w.effects.entries ++ if w.keepsLog then calls.filterMap Call.entry? else []

theorem Took.append {calls more : List Call} (h : Took w calls v) (h' : Took v more u) :
    Took w (calls ++ more) u where
  keepsNotices := h'.keepsNotices.trans h.keepsNotices
  keepsLog := h'.keepsLog.trans h.keepsLog
  notices := by
    rw [h'.notices, h.notices, h.keepsNotices]
    split <;> simp
  entries := by
    rw [h'.entries, h.entries, h.keepsLog]
    split <;> simp

theorem Took.of_same (flags : v.keepsNotices = w.keepsNotices ∧ v.keepsLog = w.keepsLog)
    (notices : v.effects.notices = w.effects.notices)
    (entries : v.effects.entries = w.effects.entries) : Took w [] v :=
  ⟨flags.1, flags.2, by simp [notices], by simp [entries]⟩

/-- A call that tells and records nothing may be counted or not. -/
theorem Took.of_silent (h : Took w [] v) (notice : c.notice? = none) (entry : c.entry? = none)
    (failed : Bool) : Took w (if failed then [] else [c]) v := by
  refine { h with notices := ?_, entries := ?_ }
  · cases failed <;> simp [h.notices, notice]
  · cases failed <;> simp [h.entries, entry]

theorem took_noted (c : Call) : Took w [] ((w.noteLoad c).noteInquiry c) := by
  cases c <;> exact .of_same ⟨rfl, rfl⟩ rfl rfl

theorem took_change (r : Except Fault Store) : Took w [] (w.change r).2 := by
  cases r <;> exact .of_same ⟨rfl, rfl⟩ rfl rfl

variable [DecidableEq κ] {k : κ}

theorem took_serve (notice : c.notice? = none) (entry : c.entry? = none) :
    Took w [] (serve k c w).2 := by
  cases c with
  | insertRole role => exact took_change _
  | updateRole role => exact took_change _
  | deleteRole id => exact took_change _
  | insertAssignment a => exact took_change _
  | notify user notification => cases notice
  | record record => cases entry
  | _ => exact .of_same ⟨rfl, rfl⟩ rfl rfl

theorem took_notify (user : UserId) (notification : Notification) :
    Took w [.notify user notification] (serve k (.notify user notification) w).2 := by
  unfold serve
  dsimp only
  split
  · next keeps => exact ⟨rfl, rfl, by simp [keeps, Call.notice?], by simp [Call.entry?]⟩
  · next keeps => exact ⟨rfl, rfl, by simp [keeps], by simp [Call.entry?]⟩

theorem took_record (entry : ModerationEntry) :
    Took w [.record entry] (serve k (.record entry) w).2 := by
  unfold serve
  dsimp only
  split
  · next keeps => exact ⟨rfl, rfl, by simp [Call.notice?], by simp [keeps, Call.entry?]⟩
  · next keeps => exact ⟨rfl, rfl, by simp [Call.notice?], by simp [keeps]⟩

/-- What a call leaves told and recorded: its own notice and entry unless it fails. -/
theorem took_answer (o : Circumstances) (n : Nat) (k : κ) (c : Call) (w : World κ) :
    Took w (if o.fails n then [] else [c]) ((w.facing o n).answer k c).2 := by
  have before : Took w [] (w.facing o n) := .of_same ⟨rfl, rfl⟩ rfl rfl
  have silent (notice : c.notice? = none) (entry : c.entry? = none) :
      Took w (if o.fails n then [] else [c]) ((w.facing o n).answer k c).2 := by
    refine .of_silent ?_ notice entry _
    rcases answer_cases k c (w.facing o n) with ⟨_, _, -, failed⟩ | served
    · rw [failed]
      exact before.append (took_noted c)
    · rw [served]
      exact before.append ((took_noted c).append (took_serve notice entry))
  cases c with
  | notify user notification =>
    rw [answer_courtesy (c := .notify user notification) trivial]
    split
    · exact before
    · exact before.append (took_notify user notification)
  | record entry =>
    rw [answer_courtesy (c := .record entry) trivial]
    split
    · exact before
    · exact before.append (took_record entry)
  | _ => exact silent rfl rfl

end World

structure Trial (κ : Type) where
  world : World κ
  calls : List Call

structure Reply where
  request : Request
  result : Except Fault request.Value

def Reply.definition (r : Reply) : Reply := ⟨r.request, r.result.map r.request.definition⟩

namespace Trial

variable {κ : Type}

structure Alike (t u : Trial κ) : Prop where
  world : t.world.Resembles u.world
  calls : t.calls.map Call.definition = u.calls.map Call.definition

variable [DecidableEq κ]

def answer (o : Circumstances) (k : κ) (c : Call) (t : Trial κ) : c.Answer × Trial κ :=
  let (r, w) := (t.world.facing o t.calls.length).answer k c
  (r, ⟨w, t.calls ++ [c]⟩)

def perform (o : Circumstances) (k : κ) (q : Request) (t : Trial κ) : Reply × Trial κ :=
  let (result, t) := q.service.run.runOn (answer o k) t
  (⟨q, result⟩, t)

def performs (o : Circumstances) : List (κ × Request) → Trial κ → List Reply × Trial κ
  | [], t => ([], t)
  | (k, q) :: rest, t =>
    let (reply, t) := t.perform o k q
    let (replies, t) := performs o rest t
    (reply :: replies, t)

variable {t u : Trial κ}

theorem Alike.answer (h : t.Alike u) (o : Circumstances) (k : κ) {c d : Call} (asked : c.Alike d) :
    Exchange.Alike ⟨c, (t.answer o k c).1⟩ ⟨d, (u.answer o.unfailing k d).1⟩ ∧
      (t.answer o k c).2.Alike (u.answer o.unfailing k d).2 := by
  have count : t.calls.length = u.calls.length := by
    simpa using congrArg List.length h.calls
  obtain ⟨told, world⟩ := h.world.answer o t.calls.length k asked
  unfold Trial.answer
  rw [← count]
  refine ⟨told, world, ?_⟩
  simp [h.calls, asked.definition]

/-- A request that goes the same way twice does so whatever its courtesies come to. -/
theorem Alike.runOn {α β : Type} {R : α → β → Prop} {p : Procedure α} {q : Procedure β}
    (h : t.Alike u) (o : Circumstances) (k : κ) (parallel : Procedure.Parallel R p q) :
    R (p.runOn (Trial.answer o k) t).1 (q.runOn (Trial.answer o.unfailing k) u).1 ∧
      (p.runOn (Trial.answer o k) t).2.Alike
        (q.runOn (Trial.answer o.unfailing k) u).2 := by
  induction parallel generalizing t u with
  | done alike => exact ⟨alike, h⟩
  | call asked _ ih =>
    obtain ⟨told, after⟩ := h.answer o k asked
    exact ih _ _ told after

theorem Alike.perform (h : t.Alike u) (o : Circumstances) (k : κ) {q : Request}
    (writes : q.Writes) :
    (t.perform o k q).1.definition = (u.perform o.unfailing k q).1.definition ∧
      (t.perform o k q).2.Alike (u.perform o.unfailing k q).2 := by
  obtain ⟨ends, after⟩ := h.runOn o k writes.parallel
  exact ⟨congrArg (Reply.mk q) ends.map_eq, after⟩

theorem Alike.performs (h : t.Alike u) (o : Circumstances) {asked : List (κ × Request)}
    (writes : ∀ a ∈ asked, a.2.Writes) :
    (t.performs o asked).1.map Reply.definition =
        (u.performs o.unfailing asked).1.map Reply.definition ∧
      (t.performs o asked).2.Alike (u.performs o.unfailing asked).2 := by
  induction asked generalizing t u with
  | nil => exact ⟨rfl, h⟩
  | cons a rest ih =>
    obtain ⟨first, others⟩ := List.forall_mem_cons.mp writes
    obtain ⟨reply, after⟩ := h.perform o a.1 first
    obtain ⟨replies, final⟩ := ih after others
    exact ⟨congrArg₂ List.cons reply replies, final⟩

def Took (o : Circumstances) (w : World κ) (t : Trial κ) : Prop :=
  w.Took (o.heeded t.calls) t.world

variable {o : Circumstances} {w : World κ}

omit [DecidableEq κ] in
theorem took_start (o : Circumstances) (w : World κ) : Took o w ⟨w, []⟩ :=
  World.Took.of_same ⟨rfl, rfl⟩ rfl rfl

theorem Took.answer (h : t.Took o w) (k : κ) (c : Call) : (t.answer o k c).2.Took o w := by
  have after := World.Took.append h (World.took_answer o t.calls.length k c t.world)
  rw [← o.heeded_append] at after
  exact after

theorem Took.runOn {α : Type} (h : t.Took o w) (k : κ) (p : Procedure α) :
    (p.runOn (Trial.answer o k) t).2.Took o w := by
  induction p generalizing t with
  | done a => exact h
  | call c next ih => exact ih _ (h.answer k c)

theorem Took.performs (h : t.Took o w) (asked : List (κ × Request)) :
    (t.performs o asked).2.Took o w := by
  induction asked generalizing t with
  | nil => exact h
  | cons a rest ih => exact ih (h.runOn a.1 a.2.service.run)

end Trial

/-- What two runs from the same world share, one in which courtesies fail and where a sink and a
log may be missing, and one in which all works. Last uses apart, the requests are answered alike,
and the rows, the roles, the published events and the caches are the same. The first has told and
recorded what the second has, but for the calls that failed. -/
structure CourtesiesUnseen {κ : Type} (w : World κ) (o : Circumstances) (sink log : Bool)
    (rough smooth : List Reply × Trial κ) : Prop where
  replies : rough.1.map Reply.definition = smooth.1.map Reply.definition
  rows : rough.2.world.store.rows = smooth.2.world.store.rows
  roles : rough.2.world.store.roles.map Role.definition =
    smooth.2.world.store.roles.map Role.definition
  events : rough.2.world.effects.events.map RoleEvent.definition =
    smooth.2.world.effects.events.map RoleEvent.definition
  feed : rough.2.world.feed.definitions = smooth.2.world.feed.definitions
  caches : ∀ party, (rough.2.world.caches party).definitions =
    (smooth.2.world.caches party).definitions
  calls : rough.2.calls.map Call.definition = smooth.2.calls.map Call.definition
  told : smooth.2.world.effects.notices =
    w.effects.notices ++ smooth.2.calls.filterMap Call.notice?
  recorded : smooth.2.world.effects.entries =
    w.effects.entries ++ smooth.2.calls.filterMap Call.entry?
  heard : rough.2.world.effects.notices = w.effects.notices ++
    if sink then (o.heeded smooth.2.calls).filterMap Call.notice? else []
  kept : rough.2.world.effects.entries.map ModerationEntry.definition =
    (w.effects.entries ++
      if log then (o.heeded smooth.2.calls).filterMap Call.entry? else []).map
        ModerationEntry.definition

namespace Trial

variable {κ : Type} [DecidableEq κ]

/-- Requests that write, one after the other, do not notice that their courtesies fail. -/
theorem courtesies_unseen (w : World κ) (o : Circumstances) (sink log : Bool)
    (asked : List (κ × Request)) (writes : ∀ a ∈ asked, a.2.Writes) :
    CourtesiesUnseen w o sink log
      (performs o asked ⟨{ w with keepsNotices := sink, keepsLog := log }, []⟩)
      (performs o.unfailing asked ⟨{ w with keepsNotices := true, keepsLog := true }, []⟩) := by
  let rough : Trial κ := ⟨{ w with keepsNotices := sink, keepsLog := log }, []⟩
  let smooth : Trial κ := ⟨{ w with keepsNotices := true, keepsLog := true }, []⟩
  have start : rough.Alike smooth := ⟨⟨rfl, fun _ => rfl, rfl, rfl⟩, rfl⟩
  obtain ⟨replies, alike⟩ := start.performs o writes
  have took : (rough.performs o asked).2.Took o rough.world :=
    (took_start _ _).performs asked
  have tookAll : (smooth.performs o.unfailing asked).2.Took o.unfailing smooth.world :=
    (took_start _ _).performs asked
  unfold Took at tookAll
  rw [o.heeded_unfailing] at tookAll
  -- The calls that did not fail are the same ones in both runs, as they have the same numbers.
  have heeded : (o.heeded (rough.performs o asked).2.calls).map Call.definition =
      (o.heeded (smooth.performs o.unfailing asked).2.calls).map Call.definition := by
    rw [← o.heeded_map, ← o.heeded_map, alike.calls]
  obtain ⟨notices, entries⟩ := Call.told_of_definitions heeded
  exact {
    replies
    rows := alike.world.rows
    roles := congrArg Store.roles alike.world.store
    events := alike.world.events
    feed := alike.world.feed
    caches := alike.world.caches
    calls := alike.calls
    told := tookAll.notices
    recorded := tookAll.entries
    heard := by rw [took.notices, notices]
    kept := by
      rw [took.entries, List.map_append, List.map_append]
      cases log with
      | true => exact congrArg _ entries
      | false => rfl }

/-- A public role is defined and assigned. From the note of its last use on courtesies fail: the
user is not told, the second act is not on record, and the role still seems unused. -/
theorem courtesies_unseen_failing_late :
    let o : Circumstances := ⟨fun n => ⟨n, 0⟩, .generated, fun n => decide (12 ≤ n)⟩
    let actor : Option Actor := some ⟨⟨.generated 90⟩, false⟩
    let asked : List (Party × Request) :=
      [(.main, .createRole { RoleDraft.manual "r" with isPublic := true } actor),
        (.main, .assign ⟨.generated 91⟩ ⟨.generated 1⟩ none actor)]
    let w : World Party := .startingAt default 0
    let rough := performs o asked ⟨w, []⟩
    let smooth := performs o.unfailing asked ⟨w, []⟩
    (∀ a ∈ asked, a.2.Writes) ∧ CourtesiesUnseen w o true true rough smooth ∧
      rough.2.world.effects.notices = [] ∧ rough.2.world.effects.entries.length = 1 ∧
      smooth.2.world.effects.notices.length = 1 ∧ smooth.2.world.effects.entries.length = 2 ∧
      rough.2.world.store.roles.map (·.lastUsedAt) = [⟨0, 0⟩] ∧
      smooth.2.world.store.roles.map (·.lastUsedAt) = [⟨7, 0⟩] := by
  intro o actor asked w rough smooth
  have writes : ∀ a ∈ asked, a.2.Writes :=
    List.forall_mem_cons.mpr ⟨.inl trivial, List.forall_mem_singleton.mpr (.inl trivial)⟩
  refine ⟨writes, courtesies_unseen w o true true asked writes, ?_⟩
  decide +kernel

end Trial

end Entitlement
