import Entitlement.Proofs.Outage.Parallel

/-!
# Answers side by side

A call is made in two worlds that differ in last uses, at the same time and with the same identifier
drawn. If it is a courtesy it may fail in the first. The answers and the worlds that are left differ
in last uses again, and in what the courtesy came to.
-/

set_option autoImplicit false

namespace Entitlement

/-- What comes from outside. At each call, counted from the first one on, the clock shows some
time, some identifier would be given, and the call fails if it is a courtesy, or does not. -/
structure Circumstances where
  times : Nat → Instant
  ids : Nat → Uuid
  fails : Nat → Bool

def Circumstances.unfailing (o : Circumstances) : Circumstances :=
  { o with fails := fun _ => false }

namespace Call

def IsCourtesy : Call → Prop
  | .touchRole _ _ | .notify _ _ | .record _ => True
  | _ => False

def IsEssential : Call → Prop
  | .findRole _ | .insertRole _ | .updateRole _ | .applyEvent _ | .publish _ => True
  | c => c.IsPlain

end Call

theorem Call.Alike.essential_or_courtesy {c d : Call} (h : c.Alike d) :
    c.IsEssential ∧ d.IsEssential ∨
      c.IsCourtesy ∧ d.IsCourtesy ∧ ∀ r s, Exchange.Alike ⟨c, r⟩ ⟨d, s⟩ := by
  obtain ⟨r, s, asked⟩ := h
  cases asked with
  | touchRole => exact .inr ⟨trivial, trivial, fun r s => .touchRole r s⟩
  | notify => exact .inr ⟨trivial, trivial, fun r s => .notify r s⟩
  | record same => exact .inr ⟨trivial, trivial, fun r s => .record same r s⟩
  | same plain =>
    have essential : c.IsEssential := by
      cases c <;> first | exact plain | exact plain.elim
    exact .inl ⟨essential, essential⟩
  | _ => exact .inl ⟨trivial, trivial⟩

namespace World

variable {κ : Type}

def facing (o : Circumstances) (n : Nat) (w : World κ) : World κ :=
  { w with
    now := o.times n
    nextId := o.ids n
    failing := if o.fails n then [.touchRole, .notify, .record] else [] }

structure Resembles (w v : World κ) : Prop where
  store : w.store.definitions = v.store.definitions
  caches : ∀ party, (w.caches party).definitions = (v.caches party).definitions
  feed : w.feed.definitions = v.feed.definitions
  events : w.effects.events.map RoleEvent.definition = v.effects.events.map RoleEvent.definition

variable {w v u : World κ} {o : Circumstances} {n : Nat}

theorem Resembles.symm (h : w.Resembles v) : v.Resembles w :=
  ⟨h.store.symm, fun party => (h.caches party).symm, h.feed.symm, h.events.symm⟩

theorem Resembles.trans (h : w.Resembles v) (h' : v.Resembles u) : w.Resembles u :=
  ⟨h.store.trans h'.store, fun party => (h.caches party).trans (h'.caches party),
    h.feed.trans h'.feed, h.events.trans h'.events⟩

theorem Resembles.rows (h : w.Resembles v) : w.store.rows = v.store.rows := by
  have both := congrArg Store.rows h.store
  exact both

theorem Resembles.facing (h : w.Resembles v) : (w.facing o n).Resembles (v.facing o.unfailing n) :=
  ⟨h.store, h.caches, h.feed, h.events⟩

theorem Resembles.change (h : w.Resembles v) {r s : Except Fault Store}
    (alike : r.map Store.definitions = s.map Store.definitions) :
    (w.change r).1 = (v.change s).1 ∧ (w.change r).2.Resembles (v.change s).2 := by
  cases r with
  | error fault =>
    cases s with
    | error other =>
      cases alike
      exact ⟨rfl, h⟩
    | ok t => cases alike
  | ok t =>
    cases s with
    | error other => cases alike
    | ok u => exact ⟨rfl, { h with store := Except.ok.inj alike }⟩

variable [DecidableEq κ] {k : κ} {c d : Call}

theorem Resembles.setCache (h : w.Resembles v) {a b : Cache}
    (alike : a.definitions = b.definitions) :
    (w.setCache k a).Resembles (v.setCache k b) := by
  refine { h with caches := fun other => ?_ }
  unfold World.setCache
  dsimp only
  split
  · exact alike
  · exact h.caches other

theorem Resembles.serve_plain (h : w.Resembles v) (now : w.now = v.now)
    (nextId : w.nextId = v.nextId) (plain : c.IsPlain) :
    (serve k c w).1 = (serve k c v).1 ∧
      (serve k c w).2.Resembles (serve k c v).2 := by
  cases c with
  | deleteRole id =>
    exact h.change (by rw [← Store.deleteRole_definitions, h.store, Store.deleteRole_definitions])
  | findAssignment user role =>
    refine ⟨?_, h⟩
    simp only [serve, Store.findAssignment, h.rows]
  | insertAssignment a =>
    exact h.change (by
      rw [← Store.insertAssignment_definitions, h.store, Store.insertAssignment_definitions])
  | deleteAssignment a =>
    refine ⟨?_, { h with store := ?_ }⟩
    · simp only [serve, Store.deleteAssignment, h.rows]
    · exact congrArg (fun s : Store => (s.deleteAssignment a).2) h.store
  | expiredAssignments time limit =>
    refine ⟨?_, h⟩
    simp only [serve, Store.expiredAssignments, h.rows]
  | now => exact ⟨now, h⟩
  | newId => exact ⟨nextId, h⟩
  | _ => exact plain.elim

/-- Whatever a courtesy comes to, the rest of the world stays as it is. -/
theorem serve_courtesy (courtesy : c.IsCourtesy) : (serve k c w).2.Resembles w := by
  cases c with
  | touchRole id usedAt =>
    exact ⟨Store.touchRole_definitions _ _ _, fun _ => rfl, rfl, rfl⟩
  | notify user notification =>
    unfold serve
    dsimp only
    split <;> exact ⟨rfl, fun _ => rfl, rfl, rfl⟩
  | record entry =>
    unfold serve
    dsimp only
    split <;> exact ⟨rfl, fun _ => rfl, rfl, rfl⟩
  | _ => exact courtesy.elim

theorem answer_courtesy (courtesy : c.IsCourtesy) (o : Circumstances) (n : Nat) (w : World κ) :
    ((w.facing o n).answer k c).2 =
      if o.fails n then w.facing o n else (serve k c (w.facing o n)).2 := by
  have noted : ((w.facing o n).noteLoad c).noteInquiry c = w.facing o n := by
    cases c <;> first | rfl | exact courtesy.elim
  have fails : (w.facing o n).fails c = o.fails n := by
    unfold World.facing World.fails
    cases o.fails n <;> cases c <;> first | rfl | exact courtesy.elim
  unfold answer
  rw [noted]
  dsimp only
  rw [fails]
  cases o.fails n with
  | false => rfl
  | true => cases c <;> first | rfl | exact courtesy.elim

theorem answer_courtesy_resembles (courtesy : c.IsCourtesy) (o : Circumstances) (n : Nat)
    (w : World κ) : ((w.facing o n).answer k c).2.Resembles (w.facing o n) := by
  rw [answer_courtesy courtesy]
  split
  · exact ⟨rfl, fun _ => rfl, rfl, rfl⟩
  · exact serve_courtesy courtesy

/-- What is not a courtesy does not fail. -/
theorem answer_essential (essential : c.IsEssential) (o : Circumstances) (n : Nat) (w : World κ) :
    answer k c (w.facing o n) = serve k c (w.facing o n) := by
  have works : (w.facing o n).fails c = false := by
    unfold World.facing fails
    cases o.fails n <;> cases c <;> first | rfl | exact essential.elim
  have noted : ((w.facing o n).noteLoad c).noteInquiry c = w.facing o n := by
    cases c <;> first | rfl | exact essential.elim
  simp [World.answer, noted, works]

/-- Whatever else is called, the answers and what is left differ in last uses at most. -/
theorem Resembles.serve (h : w.Resembles v) (now : w.now = v.now) (nextId : w.nextId = v.nextId)
    {r : c.Answer} {s : d.Answer} (asked : Exchange.Alike ⟨c, r⟩ ⟨d, s⟩)
    (essential : c.IsEssential) :
    Exchange.Alike ⟨c, (World.serve k c w).1⟩ ⟨d, (World.serve k d v).1⟩ ∧
      (World.serve k c w).2.Resembles (World.serve k d v).2 := by
  cases asked with
  | same plain =>
    obtain ⟨same, alike⟩ := h.serve_plain (k := k) now nextId plain
    rw [same]
    exact ⟨.same plain _, alike⟩
  | findRole =>
    refine ⟨.findRole ?_, h⟩
    rw [← Store.findRole_definitions, h.store, Store.findRole_definitions]
  | @insertRole a b same =>
    have definitions : a.definition = b.definition := same
    obtain ⟨told, alike⟩ := h.change (r := w.store.insertRole a) (s := v.store.insertRole b) (by
      rw [← Store.insertRole_definitions, h.store, definitions, Store.insertRole_definitions])
    refine ⟨?_, alike⟩
    change Exchange.Alike ⟨.insertRole a, (w.change (w.store.insertRole a)).1⟩ _
    rw [told]
    exact .insertRole same _
  | @updateRole a b same =>
    have definitions : a.definition = b.definition := same
    obtain ⟨told, alike⟩ := h.change (r := w.store.updateRole a) (s := v.store.updateRole b) (by
      rw [← Store.updateRole_definitions, h.store, definitions, Store.updateRole_definitions])
    refine ⟨?_, alike⟩
    change Exchange.Alike ⟨.updateRole a, (w.change (w.store.updateRole a)).1⟩ _
    rw [told]
    exact .updateRole same _
  | applyEvent same =>
    refine ⟨.applyEvent same, h.setCache ?_⟩
    rw [Cache.apply_definition, Cache.apply_definition, h.caches k, same]
  | @publish e f same =>
    refine ⟨.publish same _, { h with feed := ?_, events := ?_ }⟩
    · change (w.feed.publish e).definitions = (v.feed.publish f).definitions
      rw [Feed.publish_definition, Feed.publish_definition, h.feed, same]
    · change (w.effects.events ++ [e]).map _ = (v.effects.events ++ [f]).map _
      rw [List.map_append, List.map_append, h.events, List.map_singleton, List.map_singleton, same]
  | _ => exact essential.elim

/-- A call in circumstances that may fail it, and the same call where nothing fails. -/
theorem Resembles.answer (h : w.Resembles v) (o : Circumstances) (n : Nat) (k : κ)
    (asked : c.Alike d) :
    Exchange.Alike ⟨c, ((w.facing o n).answer k c).1⟩
        ⟨d, ((v.facing o.unfailing n).answer k d).1⟩ ∧
      ((w.facing o n).answer k c).2.Resembles ((v.facing o.unfailing n).answer k d).2 := by
  have both : (w.facing o n).Resembles (v.facing o.unfailing n) := h.facing
  rcases asked.essential_or_courtesy with ⟨work, work'⟩ | ⟨courtesy, courtesy', any⟩
  · rw [answer_essential work, answer_essential work']
    exact both.serve rfl rfl asked.choose_spec.choose_spec work
  · refine ⟨any _ _, (answer_courtesy_resembles courtesy _ _ _).trans ?_⟩
    exact both.trans (answer_courtesy_resembles courtesy' _ _ _).symm

end World

end Entitlement
