import Entitlement.Proofs.Ident
import Entitlement.Proofs.Wire.Condition

/-!
# The trees that denote a condition

A tree denotes a condition node by node. Each node names its kind once and holds the data of that
kind once; whatever else it holds means nothing. Such a tree is decoded unless the condition is too
deep, and nothing else is.
-/

set_option autoImplicit false

namespace Entitlement.Condition

def valuesOf (name : String) (members : List (String × Json)) : List Json :=
  (members.filter fun m => m.1 = name).map (·.2)

inductive Names (held : Bool) : Json → Kind → Prop
  | text {k : Kind} : Names held (.text k.text) k
  | number {i : Nat} {k : Kind} : held = true → Kind.every[i]? = some k → Names held (.int i) k

inductive IsNode (held : Bool) (k : Kind) (data : Json) : Json → Prop
  | mk {members : List (String × Json)} {tag : Json}
      (type : valuesOf "type" members = [tag]) (names : Names held tag k)
      (holds : ∀ name, k.field = some name → valuesOf name members = [data]) :
      IsNode held k data (.object members)

def LeafDenotes (data : Json) : Predicate → Prop
  | .roleAssignedTo role => ∃ s, data = .text s ∧ Uuid.ofText? s = some role.uuid
  | .flag _ => True
  | .age _ _ seconds => data = .int seconds.toNat
  | .threshold _ _ value => data = .int value.toNat

mutual

/-- A tree denotes a condition of any depth. The parts of a node are held in full. -/
inductive Denotes : Bool → Json → Condition → Prop
  | all {held : Bool} {j : Json} {items : List Json} {children : List Condition} :
      IsNode held .all (.array items) j → DenotesEach items children →
      Denotes held j (.all children)
  | any {held : Bool} {j : Json} {items : List Json} {children : List Condition} :
      IsNode held .any (.array items) j → DenotesEach items children →
      Denotes held j (.any children)
  | negation {held : Bool} {j data : Json} {child : Condition} :
      IsNode held .negation data j → Denotes true data child → Denotes held j (.negation child)
  | leaf {held : Bool} {j data : Json} {p : Predicate} :
      IsNode held (kind (.leaf p)) data j → LeafDenotes data p → Denotes held j (.leaf p)

inductive DenotesEach : List Json → List Condition → Prop
  | nil : DenotesEach [] []
  | cons {j : Json} {c : Condition} {items : List Json} {children : List Condition} :
      Denotes true j c → DenotesEach items children → DenotesEach (j :: items) (c :: children)

end

inductive PartOf (part : Condition) : Condition → Prop
  | self : PartOf part part
  | all {child : Condition} {children : List Condition} :
      child ∈ children → PartOf part child → PartOf part (.all children)
  | any {child : Condition} {children : List Condition} :
      child ∈ children → PartOf part child → PartOf part (.any children)
  | negation {child : Condition} : PartOf part child → PartOf part (.negation child)

theorem depth_le_depths {c : Condition} {cs : List Condition} (h : c ∈ cs) :
    c.depth ≤ depths cs := by
  induction h with
  | head => exact Nat.le_max_left ..
  | tail _ _ ih => exact Nat.le_trans ih (Nat.le_max_right ..)

theorem PartOf.depth_le {part c : Condition} (h : part.PartOf c) : part.depth ≤ c.depth := by
  induction h with
  | self => exact Nat.le_refl _
  | all mem _ ih => exact Nat.le_succ_of_le (Nat.le_trans ih (depth_le_depths mem))
  | any mem _ ih => exact Nat.le_succ_of_le (Nat.le_trans ih (depth_le_depths mem))
  | negation _ ih => exact Nat.le_succ_of_le ih

section

open ConditionNode (Body bodyOf)

variable {name : String} {j tag data : Json} {members : List (String × Json)} {held : Bool}
  {k : Kind} {b : Body} {node : ConditionNode Condition}

theorem valuesOf_cons (name n : String) (j : Json) (rest : List (String × Json)) :
    valuesOf name ((n, j) :: rest) =
      if n = name then j :: valuesOf name rest else valuesOf name rest := by
  by_cases h : n = name <;> simp [valuesOf, h]

theorem body_of_names (h : Names held tag k) :
    ∃ b, Body.decode held tag = .ok b ∧ b.Reads k := by
  cases h with
  | text =>
    obtain ⟨b, hb, reads⟩ := ConditionNode.lookup_text k
    exact ⟨b, Decoded.ofOption_eq_ok.mpr hb, reads⟩
  | number full hk =>
    obtain ⟨b, hb, reads⟩ := ConditionNode.variant_of_kind hk
    exact ⟨b, by simp [Body.decode, full, hb, Decoded.ofOption], reads⟩

theorem names_of_body (h : Body.decode held tag = .ok b) : ∃ k, Names held tag k ∧ b.Reads k := by
  cases tag with
  | text s =>
    obtain ⟨k, rfl, reads⟩ := ConditionNode.kind_of_lookup (Decoded.ofOption_eq_ok.mp h)
    exact ⟨k, .text, reads⟩
  | int i =>
    rw [Body.decode] at h
    split at h
    · next full =>
      obtain ⟨n, rfl⟩ := Int.eq_ofNat_of_zero_le full.2
      obtain ⟨⟨s, b⟩, hb, rfl⟩ := Option.map_eq_some_iff.mp (Decoded.ofOption_eq_ok.mp h)
      obtain ⟨k, hk, -, reads⟩ := ConditionNode.kind_of_variant hb
      exact ⟨k, .number full.1 hk, reads⟩
    · cases h
  | _ => cases h

theorem bodyOf_some_iff {found : Body} :
    bodyOf held (some found) members = .ok b ↔ found = b ∧ valuesOf "type" members = [] := by
  induction members with
  | nil => simp [bodyOf, valuesOf]
  | cons m rest ih =>
    obtain ⟨n, j⟩ := m
    by_cases h : n = "type" <;> simp [bodyOf, valuesOf_cons, h, ih]

theorem bodyOf_none_iff : bodyOf held none members = .ok b ↔
    ∃ tag, valuesOf "type" members = [tag] ∧ Body.decode held tag = .ok b := by
  induction members with
  | nil => simp [bodyOf, valuesOf]
  | cons m rest ih =>
    obtain ⟨n, j⟩ := m
    by_cases h : n = "type"
    · simp only [bodyOf, valuesOf_cons, h, if_true, Decoded.bind_eq_ok, bodyOf_some_iff,
        List.cons.injEq]
      constructor
      · rintro ⟨_, found, rfl, once⟩
        exact ⟨j, ⟨rfl, once⟩, found⟩
      · rintro ⟨_, ⟨rfl, once⟩, found⟩
        exact ⟨b, found, rfl, once⟩
    · simp [bodyOf, valuesOf_cons, h, ih]

theorem decodeBody_skip {found : Option (ConditionNode Condition)}
    (other : ¬ b.field = some name) (j : Json) :
    decodeBody b found ((name, j) :: members) = decodeBody b found members := by
  cases found <;> rw [decodeBody, if_neg other]

theorem decodeBody_nothing (node : ConditionNode Condition) :
    decodeBody (.nothing node) none members = .ok node := by
  induction members with
  | nil => rfl
  | cons m rest ih => exact (decodeBody_skip (fun h => by cases h) m.2).trans ih

theorem decodeBody_cons {j : Json} (field : b.field = some name) :
    decodeBody b none ((name, j) :: members) =
      b.read j >>= fun node => decodeBody b (some node) members := by
  rw [decodeBody, if_pos field]
  cases b with
  | nodes field make => cases j <;> simp [Body.read]
  | nothing node => cases field
  | _ => simp [Body.read]

theorem decodeBody_some_iff (field : b.field = some name) {found : ConditionNode Condition} :
    decodeBody b (some found) members = .ok node ↔
      found = node ∧ valuesOf name members = [] := by
  induction members with
  | nil => simp [decodeBody, valuesOf]
  | cons m rest ih =>
    obtain ⟨n, j⟩ := m
    by_cases h : n = name
    · simp [decodeBody, valuesOf_cons, field, h]
    · simp [decodeBody, valuesOf_cons, field, h, ih, Ne.symm h]

/-- The data of a node is what stands under its field, once. -/
theorem decodeBody_once (field : b.field = some name) (once : valuesOf name members = [data]) :
    decodeBody b none members = b.read data := by
  induction members with
  | nil => cases once
  | cons m rest ih =>
    obtain ⟨n, j⟩ := m
    rw [valuesOf_cons] at once
    split at once
    · next same =>
      subst same
      obtain ⟨rfl, none⟩ := List.cons.inj once
      rw [decodeBody_cons field]
      cases b.read j with
      | error e => rfl
      | ok node => exact (decodeBody_some_iff field).mpr ⟨rfl, none⟩
    · next other =>
      have skip : ¬ b.field = some n := fun h => other (Option.some.inj (h.symm.trans field))
      rw [decodeBody_skip skip]
      exact ih once

theorem once_of_decodeBody (field : b.field = some name)
    (h : decodeBody b none members = .ok node) :
    ∃ data, valuesOf name members = [data] ∧ b.read data = .ok node := by
  induction members with
  | nil =>
    cases b with
    | nothing node => cases field
    | _ => cases h
  | cons m rest ih =>
    obtain ⟨n, j⟩ := m
    rw [valuesOf_cons]
    split
    · next same =>
      subst same
      rw [decodeBody_cons field] at h
      obtain ⟨found, read, rest⟩ := Decoded.bind_eq_ok.mp h
      obtain ⟨rfl, none⟩ := (decodeBody_some_iff field).mp rest
      exact ⟨j, by rw [none], read⟩
    · next other =>
      have skip : ¬ b.field = some n := fun h => other (Option.some.inj (h.symm.trans field))
      rw [decodeBody_skip skip] at h
      exact ih h

theorem checked_eq_ok {c d : Condition} :
    Decoded.checked c.validated = .ok d ↔ c = d ∧ c.depth ≤ greatestDepth := by
  unfold validated
  split
  · next shallow => simp [Decoded.checked, shallow]
  · next deep => simp [Decoded.checked, deep]

theorem checked_leaf (p : Predicate) : Decoded.checked (leaf p).validated = .ok (leaf p) :=
  checked_eq_ok.mpr ⟨rfl, by simp [depth, greatestDepth]⟩

theorem read_eq_ok {c : Condition} (reads : b.Reads k) :
    ofData k data = .ok c ↔ ∃ node, b.read data = .ok node ∧ node.toCondition = c := by
  rw [← reads.data]
  exact Decoded.map_eq_ok

/-- A node without a field is read whatever else it holds. -/
theorem decodeBody_bare (bare : b.field = none) (data : Json) :
    decodeBody b none members = b.read data := by
  cases b with
  | nothing node => exact decodeBody_nothing node
  | _ => cases bare

theorem IsNode.decodes (h : IsNode held k data j) :
    decodeNode held j = ofData k data >>= fun c => Decoded.checked c.validated := by
  obtain @⟨members, tag, type, names, holds⟩ := h
  obtain ⟨b, found, reads⟩ := body_of_names names
  have read : decodeBody b none members = b.read data := by
    cases field : b.field with
    | some name => exact decodeBody_once field (holds name (reads.field ▸ field))
    | none => exact decodeBody_bare field data
  rw [decodeNode, bodyOf_none_iff.mpr ⟨_, type, found⟩, Decoded.ok_bind, read, ← reads.data]
  cases b.read data <;> rfl

theorem isNode_of_decodeNode {c : Condition} (h : decodeNode held j = .ok c) :
    ∃ k data, IsNode held k data j ∧ ofData k data = .ok c ∧ c.depth ≤ greatestDepth := by
  cases j with
  | object members =>
    rw [decodeNode] at h
    obtain ⟨b, found, h⟩ := Decoded.bind_eq_ok.mp h
    obtain ⟨node, body, h⟩ := Decoded.bind_eq_ok.mp h
    obtain ⟨rfl, shallow⟩ := checked_eq_ok.mp h
    obtain ⟨tag, type, decoded⟩ := bodyOf_none_iff.mp found
    obtain ⟨k, names, reads⟩ := names_of_body decoded
    cases field : b.field with
    | some name =>
      obtain ⟨data, once, read⟩ := once_of_decodeBody field body
      exact ⟨k, data, ⟨type, names, fun n hn =>
          Option.some.inj (field.symm.trans (reads.field.trans hn)) ▸ once⟩,
        (read_eq_ok reads).mpr ⟨node, read, rfl⟩, shallow⟩
    | none =>
      rw [decodeBody_bare field .null] at body
      exact ⟨k, .null, ⟨type, names, fun n hn =>
          nomatch field.symm.trans (reads.field.trans hn)⟩,
        (read_eq_ok reads).mpr ⟨node, body, rfl⟩, shallow⟩
  | _ => cases h

end

section

variable {j data : Json} {k : Kind} {children : List Condition} {child : Condition}
  {p : Predicate}

theorem ofData_all_iff : ofData k data = .ok (.all children) ↔
    k = .all ∧ ∃ items, data = .array items ∧ decodeNodes items = .ok children := by
  cases k with
  | all => cases data <;> simp [ofData, Decoded.map_eq_ok]
  | any => cases data <;> simp [ofData, Decoded.map_eq_ok]
  | _ => simp [ofData, Decoded.map_eq_ok]

theorem ofData_any_iff : ofData k data = .ok (.any children) ↔
    k = .any ∧ ∃ items, data = .array items ∧ decodeNodes items = .ok children := by
  cases k with
  | all => cases data <;> simp [ofData, Decoded.map_eq_ok]
  | any => cases data <;> simp [ofData, Decoded.map_eq_ok]
  | _ => simp [ofData, Decoded.map_eq_ok]

theorem ofData_negation_iff : ofData k data = .ok (.negation child) ↔
    k = .negation ∧ decodeNode true data = .ok child := by
  cases k with
  | all => cases data <;> simp [ofData, Decoded.map_eq_ok]
  | any => cases data <;> simp [ofData, Decoded.map_eq_ok]
  | _ => simp [ofData, Decoded.map_eq_ok]

theorem asUInt64_iff {n : UInt64} : data.asUInt64 = .ok n ↔ data = .int n.toNat := by
  constructor
  · intro h
    obtain ⟨m, below, rfl⟩ := Decoded.map_eq_ok.mp h
    cases data with
    | int i =>
      rw [Json.asBelow] at below
      split at below
      · next bounds =>
        obtain ⟨m, rfl⟩ := Int.eq_ofNat_of_zero_le bounds.1
        obtain rfl := Except.ok.inj below
        have small : m < UInt64.size := Int.ofNat_lt.mp bounds.2
        simp [Nat.mod_eq_of_lt small]
      · cases below
    | _ => cases below
  · rintro rfl
    exact Json.asUInt64_toNat n

theorem asSpelled_iff {α : Type} {spelled : String → Option α} {a : α} :
    data.asSpelled spelled = .ok a ↔ ∃ s, data = .text s ∧ spelled s = some a := by
  cases data <;> simp [Json.asSpelled, Json.asText, Decoded.ofOption_eq_ok]

theorem leafOf_iff : leafOf k data = .ok p ↔
    k = kind (.leaf p) ∧ (∀ f, k ≠ .flag f) ∧ LeafDenotes data p := by
  rcases p with ⟨⟨uuid⟩⟩ | f | ⟨subject, bound, seconds⟩ | ⟨metric, comparison, value⟩ <;>
    cases k <;> simp [leafOf, kind, LeafDenotes, Decoded.map_eq_ok, asUInt64_iff, asSpelled_iff,
      and_comm]

theorem ofData_leaf_iff : ofData k data = .ok (.leaf p) ↔
    k = kind (.leaf p) ∧ LeafDenotes data p := by
  cases k with
  | all => cases p <;> cases data <;> simp [ofData, Decoded.map_eq_ok, kind]
  | any => cases p <;> cases data <;> simp [ofData, Decoded.map_eq_ok, kind]
  | negation => cases p <;> simp [ofData, Decoded.map_eq_ok, kind]
  | flag f => cases p <;> simp [ofData, kind, LeafDenotes, eq_comm]
  | _ => simp [ofData, Decoded.map_eq_ok, leafOf_iff]

end

def within {α : Type} (depth : Nat) (a : α) : Decoded α :=
  if depth ≤ greatestDepth then .ok a
  else .error (.invalid (.conditionTooDeep (greatestDepth + 1)))

/-- A node around parts that are within the depth is the first that may not be. -/
theorem within_bind {α : Type} {deepest : Nat} {parts : α} {node : α → Condition}
    (above : (node parts).depth = deepest + 1) :
    (within deepest parts >>= fun parts => Decoded.checked (node parts).validated) =
      within (node parts).depth (node parts) := by
  unfold within
  by_cases h : deepest ≤ greatestDepth
  · rw [if_pos h, Decoded.ok_bind, validated]
    split
    · rfl
    · next deep =>
      obtain rfl : deepest = greatestDepth := by omega
      rw [above]
      rfl
  · rw [if_neg h, if_neg (by omega), Decoded.error_bind]

theorem within_cons {d e : Nat} {c : Condition} {cs : List Condition} :
    (do let c ← within d c; return c :: (← within e cs)) = within (max d e) (c :: cs) := by
  unfold within
  by_cases hd : d ≤ greatestDepth <;> by_cases he : e ≤ greatestDepth <;> simp [hd, he]

mutual

theorem decodeNode_of_denotes {held : Bool} {j : Json} {c : Condition} : Denotes held j c →
    decodeNode held j = within c.depth c
  | .all node each => by
    rw [node.decodes, ofData, decodeNodes_of_denotes each]
    simp only [bind_assoc, pure_bind]
    exact within_bind (by rw [depth])
  | .any node each => by
    rw [node.decodes, ofData, decodeNodes_of_denotes each]
    simp only [bind_assoc, pure_bind]
    exact within_bind (by rw [depth])
  | .negation node denotes => by
    rw [node.decodes, ofData, decodeNode_of_denotes denotes]
    simp only [bind_assoc, pure_bind]
    exact within_bind (by rw [depth])
  | .leaf node denotes => by
    rw [node.decodes, ofData_leaf_iff.mpr ⟨rfl, denotes⟩]
    exact checked_leaf _

theorem decodeNodes_of_denotes {items : List Json} {cs : List Condition} : DenotesEach items cs →
    decodeNodes items = within (depths cs) cs
  | .nil => rfl
  | .cons first rest => by
    rw [decodeNodes, decodeNode_of_denotes first, decodeNodes_of_denotes rest]
    exact within_cons

end

mutual

theorem denotes_of_decodeNode : ∀ (c : Condition) {held : Bool} {j : Json},
    decodeNode held j = .ok c → Denotes held j c
  | .all children, held, j, h => by
    obtain ⟨_, _, node, body, -⟩ := isNode_of_decodeNode h
    obtain ⟨rfl, items, rfl, read⟩ := ofData_all_iff.mp body
    exact .all node (denotesEach_of_decodeNodes children read)
  | .any children, held, j, h => by
    obtain ⟨_, _, node, body, -⟩ := isNode_of_decodeNode h
    obtain ⟨rfl, items, rfl, read⟩ := ofData_any_iff.mp body
    exact .any node (denotesEach_of_decodeNodes children read)
  | .negation child, held, j, h => by
    obtain ⟨_, _, node, body, -⟩ := isNode_of_decodeNode h
    obtain ⟨rfl, read⟩ := ofData_negation_iff.mp body
    exact .negation node (denotes_of_decodeNode child read)
  | .leaf p, held, j, h => by
    obtain ⟨_, _, node, body, -⟩ := isNode_of_decodeNode h
    obtain ⟨rfl, denotes⟩ := ofData_leaf_iff.mp body
    exact .leaf node denotes

theorem denotesEach_of_decodeNodes : ∀ (cs : List Condition) {items : List Json},
    decodeNodes items = .ok cs → DenotesEach items cs
  | [], [], _ => .nil
  | [], j :: items, h => by
    rw [decodeNodes] at h
    obtain ⟨c, -, h⟩ := Decoded.bind_eq_ok.mp h
    obtain ⟨cs, -, h⟩ := Decoded.bind_eq_ok.mp h
    cases h
  | c :: cs, [], h => by cases h
  | c :: cs, j :: items, h => by
    rw [decodeNodes] at h
    obtain ⟨d, head, h⟩ := Decoded.bind_eq_ok.mp h
    obtain ⟨ds, rest, h⟩ := Decoded.bind_eq_ok.mp h
    cases h
    exact .cons (denotes_of_decodeNode c head) (denotesEach_of_decodeNodes cs rest)

end

theorem isNode_node (held : Bool) (k : Kind) (data : Json) : IsNode held k data (node k data) := by
  unfold node
  split
  · next name field =>
    have differ : name ≠ "type" := k.field_ne_type field
    refine ⟨?_, .text, fun n hn => ?_⟩
    · simp [valuesOf, differ]
    · obtain rfl := Option.some.inj (field.symm.trans hn)
      simp [valuesOf, Ne.symm differ]
  · next field => exact ⟨rfl, .text, fun n hn => by cases field.symm.trans hn⟩

theorem leafDenotes_leafData : ∀ p : Predicate, LeafDenotes (leafData p) p
  | .roleAssignedTo role => ⟨_, rfl, Uuid.ofText?_toText role.uuid⟩
  | .flag _ => trivial
  | .age _ _ _ => rfl
  | .threshold _ _ _ => rfl

mutual

/-- The written form of a condition denotes it, however deep. -/
theorem denotes_encode (held : Bool) : ∀ c : Condition, Denotes held c.encode c
  | .all children =>
    encode_all children ▸ .all (isNode_node held _ _) (denotesEach_encodes children)
  | .any children =>
    encode_any children ▸ .any (isNode_node held _ _) (denotesEach_encodes children)
  | .negation child =>
    encode_negation child ▸ .negation (isNode_node held _ _) (denotes_encode true child)
  | .leaf p => encode_leaf p ▸ .leaf (isNode_node held _ _) (leafDenotes_leafData p)

theorem denotesEach_encodes : ∀ cs : List Condition, DenotesEach (encodes cs) cs
  | [] => .nil
  | c :: rest => .cons (denotes_encode true c) (denotesEach_encodes rest)

end

section

variable {held : Bool} {k k' : Kind} {data data' j : Json}

theorem Names.unique {tag : Json} (h : Names held tag k) (h' : Names held tag k') : k = k' := by
  generalize named : tag = other at h'
  cases h with
  | text =>
    cases h' with
    | text => exact Kind.text_inj (Json.text.inj named)
    | number => cases named
  | number _ hk =>
    cases h' with
    | text => cases named
    | number _ hk' =>
      obtain rfl := Int.ofNat.inj (Json.int.inj named)
      exact Option.some.inj (hk.symm.trans hk')

theorem IsNode.unique (h : IsNode held k data j) (h' : IsNode held k' data' j) :
    k = k' ∧ ∀ name, k.field = some name → data = data' := by
  obtain ⟨type, names, holds⟩ := h
  obtain ⟨type', names', holds'⟩ := h'
  obtain ⟨rfl, -⟩ := List.cons.inj (type.symm.trans type')
  obtain rfl := names.unique names'
  exact ⟨rfl, fun name field =>
    (List.cons.inj ((holds name field).symm.trans (holds' name field))).1⟩

theorem IsNode.ofData_eq (h : IsNode held k data j) (h' : IsNode held k' data' j) :
    ofData k data = ofData k' data' := by
  obtain ⟨rfl, same⟩ := h.unique h'
  cases field : k.field with
  | some name => rw [same name field]
  | none =>
    obtain ⟨f, rfl⟩ := Kind.eq_flag field
    rfl

end

theorem kind_leaf (p : Predicate) :
    kind (.leaf p) ≠ .all ∧ kind (.leaf p) ≠ .any ∧ kind (.leaf p) ≠ .negation := by
  cases p <;> simp [kind]

mutual

/-- A tree denotes one condition at most, so that this has its depth. -/
theorem denotes_unique {c d : Condition} {held : Bool} {j : Json} :
    Denotes held j c → Denotes held j d → c = d
  | .all node each, h => by
    cases h with
    | all node' each' =>
      obtain rfl := Json.array.inj ((node.unique node').2 _ rfl)
      rw [denotesEach_unique each each']
    | any node' => cases (node.unique node').1
    | negation node' => cases (node.unique node').1
    | leaf node' => exact absurd (node.unique node').1.symm (kind_leaf _).1
  | .any node each, h => by
    cases h with
    | all node' => cases (node.unique node').1
    | any node' each' =>
      obtain rfl := Json.array.inj ((node.unique node').2 _ rfl)
      rw [denotesEach_unique each each']
    | negation node' => cases (node.unique node').1
    | leaf node' => exact absurd (node.unique node').1.symm (kind_leaf _).2.1
  | .negation node denotes, h => by
    cases h with
    | all node' => cases (node.unique node').1
    | any node' => cases (node.unique node').1
    | negation node' denotes' =>
      obtain rfl := (node.unique node').2 _ rfl
      rw [denotes_unique denotes denotes']
    | leaf node' => exact absurd (node.unique node').1.symm (kind_leaf _).2.2
  | .leaf node denotes, h => by
    cases h with
    | all node' => exact absurd (node.unique node').1 (kind_leaf _).1
    | any node' => exact absurd (node.unique node').1 (kind_leaf _).2.1
    | negation node' => exact absurd (node.unique node').1 (kind_leaf _).2.2
    | leaf node' denotes' =>
      have read := ofData_leaf_iff.mpr ⟨rfl, denotes⟩
      rw [node.ofData_eq node', ofData_leaf_iff.mpr ⟨rfl, denotes'⟩] at read
      exact (Except.ok.inj read).symm

theorem denotesEach_unique {items : List Json} {cs ds : List Condition} :
    DenotesEach items cs → DenotesEach items ds → cs = ds
  | .nil, .nil => rfl
  | .cons first rest, .cons first' rest' => by
    rw [denotes_unique first first', denotesEach_unique rest rest']

end

theorem within_eq_ok {α : Type} {depth : Nat} {a b : α} :
    within depth a = .ok b ↔ a = b ∧ depth ≤ greatestDepth := by
  unfold within
  split
  · next shallow => simp [shallow]
  · next deep => simp [deep]

theorem decodeNode_encode {c : Condition} (shallow : c.depth ≤ greatestDepth) (held : Bool) :
    decodeNode held c.encode = .ok c :=
  (decodeNode_of_denotes (denotes_encode held c)).trans (if_pos shallow)

/-- A condition is decoded from its form, cut or not, exactly if nothing was cut off. -/
theorem decode_cut_encode {c : Condition} (h : c.depth ≤ greatestDepth) (held : Bool) (d : Nat) :
    decode held (c.encode.cut d) = .ok c ↔ c.nesting ≤ d := by
  have hlegible := Json.legible_cut c.encode d (plain_encode c).legible
  rw [depth_encode] at hlegible
  rw [decode]
  by_cases hd : c.nesting ≤ d
  · rw [if_pos (hlegible.mpr hd), Json.cut_eq_self _ _ (depth_encode c ▸ hd),
      decodeNode_encode h held]
    simp [hd]
  · rw [if_neg (mt hlegible.mp hd)]
    simp [hd]

/-- What is decoded is what denotes a condition that is not too deep, and its parts are not
either. One that is too deep is refused for the first depth that is too much, be it as deep as it
may. A condition that is not too deep is decoded from its written form, so that what was decoded
once is decoded again. The tables that make nodes of conditions and conditions of nodes are inverse
to each other, and the kind that a condition tells is the one it is written under. -/
theorem decode_iff_denotes (held : Bool) (j : Json) :
    (∀ c, decode held j = .ok c ↔ j.legible ∧ Denotes held j c ∧ c.depth ≤ greatestDepth) ∧
    (∀ c, j.legible → Denotes held j c → greatestDepth < c.depth →
      ∃ fault, decode held j = .error (.invalid fault) ∧
        fault.message = "validation error: role condition depth 65 exceeds the maximum of 64") ∧
    (∀ c d, Denotes held j c → Denotes held j d → c = d) ∧
    (∀ c, decode held j = .ok c → (∀ part, PartOf part c → part.depth ≤ greatestDepth) ∧
      ∀ again, decode again c.encode = .ok c) ∧
    (∀ c : Condition, c.depth ≤ greatestDepth → decode held c.encode = .ok c) ∧
    (∀ c : Condition, c.toNode.toCondition = c ∧ c.kindText = c.kind.text) ∧
    ∀ node : ConditionNode Condition, node.toCondition.toNode = node := by
  have ok (held : Bool) (j : Json) (c : Condition) :
      decode held j = .ok c ↔ j.legible ∧ Denotes held j c ∧ c.depth ≤ greatestDepth := by
    unfold decode
    split
    · next legible =>
      refine ⟨fun h => ?_, fun ⟨_, denotes, shallow⟩ => ?_⟩
      · have denotes := denotes_of_decodeNode c h
        rw [decodeNode_of_denotes denotes] at h
        exact ⟨legible, denotes, (within_eq_ok.mp h).2⟩
      · rw [decodeNode_of_denotes denotes, within, if_pos shallow]
    · next illegible => simp [illegible]
  have again (held : Bool) (c : Condition) (shallow : c.depth ≤ greatestDepth) :
      decode held c.encode = .ok c :=
    (ok held _ c).mpr ⟨(plain_encode c).legible, denotes_encode held c, shallow⟩
  refine ⟨ok held j, fun c legible denotes deep => ?_, fun c d => denotes_unique, fun c h => ?_,
    again held, fun c => ⟨toCondition_toNode c, kindText_eq c⟩, toNode_toCondition⟩
  · rw [decode, if_pos legible, decodeNode_of_denotes denotes, within,
      if_neg (Nat.not_le.mpr deep)]
    exact ⟨_, rfl, by decide +kernel⟩
  · obtain ⟨-, -, shallow⟩ := (ok held j c).mp h
    exact ⟨fun part within => Nat.le_trans within.depth_le shallow,
      fun held => again held c shallow⟩

/-- A negation of 70 conjunctions, written with its kind last and a field of no meaning. -/
theorem decode_iff_denotes_too_deep :
    let c := conjoined 70 (.leaf (.flag .isCat))
    let j : Json := .object [("id", .int 1), ("value", c.encode), ("type", .text "not")]
    (negation c).depth = 72 ∧ ∃ fault, decode false j = .error (.invalid fault) ∧
      fault.message = "validation error: role condition depth 65 exceeds the maximum of 64" := by
  intro c j
  have legible : j.legible := by
    simp [j, Json.legible, Json.legibleMembers, (plain_encode c).legible]
  have denotes : Denotes false j c.negation :=
    .negation (.mk rfl (Names.text (k := .negation)) fun _ field => by cases field; rfl)
      (denotes_encode true c)
  have deep : c.negation.depth = 72 := by simp [c, depth, depth_conjoined]
  exact ⟨deep, (decode_iff_denotes false j).2.1 c.negation legible denotes
    (by rw [deep]; decide)⟩

end Entitlement.Condition
