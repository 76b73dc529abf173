import TaggedUnion.Schema.Document

/-! # The document as a store

    A document is filled by three operations, any of which may be refused. This module says
    what holds of a document after any list of them:

    * **`Operation`** with **`perform`**, **`after`** and **`run`**: an operation as data, its
      outcome, the document behind it, and the document behind a list of them.
    * **`Sound`**: every type stands at the position that is its id, its name is bound to that
      position, and no name is given twice.
    * **`Extends`**: nothing that could be looked up before is lost or changed.

    `run_addType`, `run_addAlias` and `run_addUnion` carry the operations out, with the document
    behind a refusal. `update_cases` puts together all that an operation can do; both properties
    are read off it for one operation and then follow for a list by induction.
-/

namespace TaggedUnion.Schema.Document

/-! ### Operations -/

/-- One of the three operations that fill a document, with its arguments. -/
inductive Operation where
  | addType (symbol : TypeSymbol)
  | addAlias (name target : String)
  | addUnion (declaration : UnionDeclaration)
deriving Repr, DecidableEq

/-- An operation as an update, without its answer. -/
def Operation.update : Operation → Update Unit
  | .addType symbol => discard (Update.addType symbol)
  | .addAlias name target => discard (Update.addAlias name target)
  | .addUnion declaration => Update.addUnion declaration

/-- The outcome of an operation: the document with its entry, or the cause of its refusal. -/
def perform (d : Document) (op : Operation) : Except Error Document :=
  (op.update.outcome d).map (·.1)

/-- The document behind an operation, whether it succeeds or not. -/
def after (d : Document) (op : Operation) : Document := op.update.behind d

/-- The document behind a list of operations. -/
def run (d : Document) (ops : List Operation) : Document := ops.foldl after d

/-! ### What an operation does -/

/-- The document with one more type. -/
def withType (d : Document) (symbol : TypeSymbol) : Document :=
  { d with
    types := d.types ++ [{ symbol with id := d.types.length }]
    names := d.names ++ [(symbol.name, d.types.length)] }

/-- The document with one more name for the type at a position. -/
def withName (d : Document) (name : String) (id : TypeId) : Document :=
  { d with names := d.names ++ [(name, id)] }

/-- The document with one more union. -/
def withUnion (d : Document) (declaration : UnionDeclaration) : Document :=
  { d with unions := d.unions ++ [declaration] }

/-- A name that is not bound occurs in no binding. -/
theorem not_mem_names {d : Document} {name : String} (h : d.typeId? name = none) :
    name ∉ d.names.map (·.1) := by
  intro hmem
  obtain ⟨entry, hentry, rfl⟩ := List.mem_map.mp hmem
  have := List.lookup_eq_none_iff.mp h entry hentry
  simp at this

/-- A position that a name is bound to stands in a binding. -/
theorem mem_names {d : Document} {name : String} {id : TypeId} (h : d.typeId? name = some id) :
    (name, id) ∈ d.names := by
  obtain ⟨before, rest, hnames, _⟩ := List.lookup_eq_some_iff.mp h
  rw [hnames]
  simp

/-- For a free name there is nothing to forget. -/
theorem bindName_of_free {d : Document} {name : String} (h : d.typeId? name = none)
    (id : TypeId) : d.bindName name id = d.withName name id := by
  have hkept : d.names.filter (·.1 != name) = d.names := by
    refine List.filter_eq_self.mpr ?_
    intro entry hentry
    have hne : entry.1 ≠ name := by
      rintro rfl
      exact not_mem_names h (List.mem_map_of_mem hentry)
    exact bne_iff_ne.mpr hne
  rw [bindName, hkept, withName]

section Outcomes

variable (d : Document)

/-- A type with a free name is appended, and a taken name is refused. -/
theorem run_addType (symbol : TypeSymbol) :
    (Update.addType symbol).run d =
      match d.typeId? symbol.name with
      | some _ => .error (.duplicate .type symbol.name) d
      | none => .ok d.types.length (d.withType symbol) := by
  cases hfree : d.typeId? symbol.name with
  | some id => simp [Update.addType, hfree]
  | none =>
    -- The name is bound before the type is there, at the position that it will have.
    have hbound := bindName_of_free hfree d.types.length
    simp [Update.addType, hfree, hbound, pushType, withName, withType, -bind_pure_comp]

/-- The name of an alias is looked at first, then its target. -/
theorem run_addAlias (name target : String) :
    (Update.addAlias name target).run d =
      match d.typeId? name, d.typeId? target with
      | some _, _ => .error (.duplicate .aliasName name) d
      | none, none => .error (.unknownTarget name target) d
      | none, some id => .ok id (d.withName name id) := by
  cases hfree : d.typeId? name with
  | some id => simp [Update.addAlias, hfree]
  | none =>
    cases htarget : d.typeId? target with
    | none =>
      have hrefused : (throw (.unknownTarget name target) : Update TypeId).run d =
          .error (.unknownTarget name target) d := rfl
      simp [Update.addAlias, hfree, htarget, hrefused]
    | some id => simp [Update.addAlias, hfree, htarget, bindName_of_free hfree, -bind_pure_comp]

/-- A union with a free name is appended, and a taken name is refused. -/
theorem run_addUnion (declaration : UnionDeclaration) :
    (Update.addUnion declaration).run d =
      match d.union? declaration.name with
      | some _ => .error (.duplicate .union declaration.name) d
      | none => .ok () (d.withUnion declaration) := by
  cases hfree : d.union? declaration.name with
  | some u => simp [Update.addUnion, hfree]
  | none => simp [Update.addUnion, hfree, pushUnion, withUnion]

theorem outcome_addType (symbol : TypeSymbol) :
    d.addType symbol =
      match d.typeId? symbol.name with
      | some _ => .error (.duplicate .type symbol.name)
      | none => .ok (d.withType symbol, d.types.length) := by
  rw [addType, Update.outcome, run_addType]
  cases d.typeId? symbol.name <;> rfl

theorem outcome_addAlias (name target : String) :
    d.addAlias name target =
      match d.typeId? name, d.typeId? target with
      | some _, _ => .error (.duplicate .aliasName name)
      | none, none => .error (.unknownTarget name target)
      | none, some id => .ok (d.withName name id, id) := by
  rw [addAlias, Update.outcome, run_addAlias]
  cases d.typeId? name with
  | some id => rfl
  | none => cases d.typeId? target <;> rfl

theorem outcome_addUnion (declaration : UnionDeclaration) :
    d.addUnion declaration =
      match d.union? declaration.name with
      | some _ => .error (.duplicate .union declaration.name)
      | none => .ok (d.withUnion declaration) := by
  rw [addUnion, Update.outcome, run_addUnion]
  cases d.union? declaration.name <;> rfl

/-- An operation drops the answer of its update, and nothing else. -/
theorem run_discard {α : Type} (x : Update α) :
    (discard x).run d =
      match x.run d with
      | .ok _ d' => .ok () d'
      | .error e d' => .error e d' := by
  show EStateM.map (Function.const α ()) x d = _
  unfold EStateM.map EStateM.run
  cases x d <;> rfl

/-- All that an operation can do: it is refused and leaves the document as it was, or it binds a
    name that was free, or it appends a union whose name was free. -/
theorem update_cases (op : Operation) :
    (∃ e, op.update.run d = .error e d) ∨
    (∃ symbol, op = .addType symbol ∧ d.typeId? symbol.name = none ∧
      op.update.run d = .ok () (d.withType symbol)) ∨
    (∃ name target id, op = .addAlias name target ∧ d.typeId? name = none ∧
      d.typeId? target = some id ∧ op.update.run d = .ok () (d.withName name id)) ∨
    (∃ declaration, op = .addUnion declaration ∧ d.union? declaration.name = none ∧
      op.update.run d = .ok () (d.withUnion declaration)) := by
  cases op with
  | addType symbol =>
    rw [Operation.update, run_discard, run_addType]
    cases hfree : d.typeId? symbol.name with
    | some id => exact .inl ⟨_, rfl⟩
    | none => exact .inr (.inl ⟨symbol, rfl, hfree, rfl⟩)
  | addAlias name target =>
    rw [Operation.update, run_discard, run_addAlias]
    cases hfree : d.typeId? name with
    | some id => exact .inl ⟨_, rfl⟩
    | none =>
      cases htarget : d.typeId? target with
      | none => exact .inl ⟨_, rfl⟩
      | some id => exact .inr (.inr (.inl ⟨name, target, id, rfl, hfree, htarget, rfl⟩))
  | addUnion declaration =>
    rw [Operation.update, run_addUnion]
    cases hfree : d.union? declaration.name with
    | some u => exact .inl ⟨_, rfl⟩
    | none => exact .inr (.inr (.inr ⟨declaration, rfl, hfree, rfl⟩))

theorem perform_addType (symbol : TypeSymbol) :
    d.perform (.addType symbol) = (d.addType symbol).map (·.1) := by
  rw [perform, Operation.update, addType, Update.outcome, Update.outcome, run_discard]
  cases (Update.addType symbol).run d <;> rfl

theorem perform_addAlias (name target : String) :
    d.perform (.addAlias name target) = (d.addAlias name target).map (·.1) := by
  rw [perform, Operation.update, addAlias, Update.outcome, Update.outcome, run_discard]
  cases (Update.addAlias name target).run d <;> rfl

theorem perform_addUnion (declaration : UnionDeclaration) :
    d.perform (.addUnion declaration) = d.addUnion declaration := rfl

variable {d} {d' : Document} {op : Operation}

/-- A refused operation leaves the document as it was. -/
theorem eq_of_update_error {e : Error} (h : op.update.run d = .error e d') : d' = d := by
  obtain ⟨e', hop⟩ | ⟨_, -, -, hop⟩ | ⟨_, _, _, -, -, -, hop⟩ | ⟨_, -, -, hop⟩ :=
    d.update_cases op
  · rw [h] at hop
    injection hop
  all_goals
    rw [h] at hop
    cases hop

/-- An operation succeeds where its update has an answer. -/
theorem perform_eq_ok_iff : d.perform op = .ok d' ↔ op.update.run d = .ok () d' := by
  unfold perform Update.outcome
  cases op.update.run d with
  | ok _ d'' => simp [Except.map]
  | error e d'' => simp [Except.map]

theorem after_of_ok (h : d.perform op = .ok d') : d.after op = d' := by
  rw [after, Update.behind, perform_eq_ok_iff.mp h]

theorem after_of_error {e : Error} (h : d.perform op = .error e) : d.after op = d := by
  unfold perform Update.outcome at h
  unfold after Update.behind
  cases hop : op.update.run d with
  | ok _ d' => rw [hop] at h; cases h
  | error e' d' => exact eq_of_update_error hop

/-- All that a successful operation can do: it binds a name that was free, or appends a union
    whose name was free. -/
theorem perform_cases (h : d.perform op = .ok d') :
    (∃ symbol, op = .addType symbol ∧ d.typeId? symbol.name = none ∧ d' = d.withType symbol) ∨
    (∃ name target id, op = .addAlias name target ∧ d.typeId? name = none ∧
      d.typeId? target = some id ∧ d' = d.withName name id) ∨
    (∃ declaration, op = .addUnion declaration ∧ d.union? declaration.name = none ∧
      d' = d.withUnion declaration) := by
  have hrun := perform_eq_ok_iff.mp h
  obtain ⟨e, hop⟩ | ⟨symbol, hop, hfree, hd⟩ | ⟨name, target, id, hop, hfree, htarget, hd⟩
    | ⟨declaration, hop, hfree, hd⟩ := d.update_cases op
  · rw [hrun] at hop
    cases hop
  · rw [hrun] at hd
    injection hd with _ hd
    exact .inl ⟨symbol, hop, hfree, hd⟩
  · rw [hrun] at hd
    injection hd with _ hd
    exact .inr (.inl ⟨name, target, id, hop, hfree, htarget, hd⟩)
  · rw [hrun] at hd
    injection hd with _ hd
    exact .inr (.inr ⟨declaration, hop, hfree, hd⟩)

end Outcomes

/-! ### Looking up behind an operation -/

/-- A binding behind all others counts only for a name that they do not bind. -/
theorem lookup_concat (names : List (String × TypeId)) (bound name : String) (id : TypeId) :
    (names ++ [(bound, id)]).lookup name =
      (names.lookup name).or (if name = bound then some id else none) := by
  rw [List.lookup_append, List.lookup_cons, List.lookup_nil]
  by_cases h : name = bound
  · simp [h]
  · have hne : (name == bound) = false := beq_false_of_ne h
    simp [h, hne]

@[simp] theorem typeId?_withType (d : Document) (symbol : TypeSymbol) (name : String) :
    (d.withType symbol).typeId? name =
      (d.typeId? name).or (if name = symbol.name then some d.types.length else none) :=
  lookup_concat d.names symbol.name name d.types.length

@[simp] theorem typeId?_withName (d : Document) (bound : String) (id : TypeId) (name : String) :
    (d.withName bound id).typeId? name =
      (d.typeId? name).or (if name = bound then some id else none) :=
  lookup_concat d.names bound name id

@[simp] theorem types_withName (d : Document) (bound : String) (id : TypeId) :
    (d.withName bound id).types = d.types := rfl

@[simp] theorem union?_withUnion (d : Document) (declaration : UnionDeclaration)
    (name : String) :
    (d.withUnion declaration).union? name =
      (d.union? name).or (if name = declaration.name then some declaration else none) := by
  simp only [withUnion, union?, List.find?_append, List.find?_singleton, beq_iff_eq,
    eq_comm (a := name)]

/-! ### The invariant -/

/-- What holds of every document that was filled by operations. -/
structure Sound (d : Document) : Prop where
  /-- The first type is the top type. -/
  top : d.types[0]? = some { id := 0, name := topTypeName, kind := .top }
  /-- A type has the position at which it stands as its id. -/
  id_eq : ∀ (i : TypeId) (t : TypeSymbol), d.types[i]? = some t → t.id = i
  /-- The name of a type is bound to the position of the type. -/
  own_name : ∀ (i : TypeId) (t : TypeSymbol),
    d.types[i]? = some t → d.typeId? t.name = some i
  /-- At every bound position stands a type. -/
  bound_lt : ∀ entry ∈ d.names, entry.2 < d.types.length
  /-- No name is bound twice. -/
  names_nodup : (d.names.map (·.1)).Nodup
  /-- No two types have one name. -/
  typeNames_nodup : (d.types.map (·.name)).Nodup
  /-- No two unions have one name. -/
  unionNames_nodup : (d.unions.map (·.name)).Nodup

/-- A new name behind names without repetitions leaves them without repetitions. -/
theorem nodup_concat_map {α : Type} {f : α → String} {xs : List α} {x : α}
    (h : (xs.map f).Nodup) (hx : f x ∉ xs.map f) : ((xs ++ [x]).map f).Nodup := by
  rw [List.map_append, List.nodup_append]
  refine ⟨h, by simp, ?_⟩
  intro a ha b hb heq
  rw [List.map_singleton, List.mem_singleton] at hb
  exact hx (hb ▸ heq ▸ ha)

/-- An entry behind an appended one is an earlier entry or the appended one. -/
theorem getElem?_concat_cases {α : Type} {xs : List α} {x y : α} {i : Nat}
    (h : (xs ++ [x])[i]? = some y) : xs[i]? = some y ∨ (i = xs.length ∧ y = x) := by
  rcases Nat.lt_trichotomy i xs.length with hlt | rfl | hgt
  · exact .inl (by rwa [List.getElem?_append_left hlt] at h)
  · rw [List.getElem?_concat_length] at h
    exact .inr ⟨rfl, (Option.some.inj h).symm⟩
  · have hle : (xs ++ [x]).length ≤ i := by rw [List.length_append]; exact hgt
    rw [List.getElem?_eq_none hle] at h
    cases h

/-- The empty document has one type, at the first position. -/
theorem eq_of_getElem?_types_empty {scope : String} {i : TypeId} {t : TypeSymbol}
    (h : (empty scope).types[i]? = some t) :
    i = 0 ∧ t = { id := 0, name := topTypeName, kind := .top } := by
  cases i with
  | zero => exact ⟨rfl, (Option.some.inj h).symm⟩
  | succ i => cases h

theorem sound_empty (scope : String) : (empty scope).Sound where
  top := rfl
  id_eq i t h := by
    obtain ⟨rfl, rfl⟩ := eq_of_getElem?_types_empty h
    rfl
  own_name i t h := by
    obtain ⟨rfl, rfl⟩ := eq_of_getElem?_types_empty h
    rfl
  bound_lt := by simp [empty]
  names_nodup := by simp [empty]
  typeNames_nodup := by simp [empty]
  unionNames_nodup := by simp [empty]

namespace Sound

variable {d : Document}

/-- A type whose name is free is not the namesake of a type of the document. -/
theorem not_mem_typeNames (h : d.Sound) {name : String} (hfree : d.typeId? name = none) :
    name ∉ d.types.map (·.name) := by
  intro hmem
  obtain ⟨t, ht, rfl⟩ := List.mem_map.mp hmem
  obtain ⟨i, hi⟩ := List.mem_iff_getElem?.mp ht
  rw [h.own_name i t hi] at hfree
  cases hfree

theorem withType (h : d.Sound) {symbol : TypeSymbol} (hfree : d.typeId? symbol.name = none) :
    (d.withType symbol).Sound where
  top := by
    have hpos : 0 < d.types.length := (List.getElem?_eq_some_iff.mp h.top).1
    exact (List.getElem?_append_left hpos).trans h.top
  id_eq i t ht := by
    rcases getElem?_concat_cases ht with ht | ⟨rfl, rfl⟩
    · exact h.id_eq i t ht
    · rfl
  own_name i t ht := by
    -- An earlier binding goes before the new one, and there is none for the new name.
    rcases getElem?_concat_cases ht with ht | ⟨rfl, rfl⟩
    · simp [h.own_name i t ht]
    · simp [hfree]
  bound_lt entry hentry := by
    have hlength : (d.withType symbol).types.length = d.types.length + 1 := by
      simp [Document.withType]
    rw [hlength]
    rcases List.mem_append.mp hentry with hentry | hentry
    · exact Nat.lt_succ_of_lt (h.bound_lt entry hentry)
    · rw [List.mem_singleton.mp hentry]
      exact Nat.lt_succ_self _
  names_nodup := nodup_concat_map h.names_nodup (not_mem_names hfree)
  typeNames_nodup := nodup_concat_map h.typeNames_nodup (h.not_mem_typeNames hfree)
  unionNames_nodup := h.unionNames_nodup

theorem withName (h : d.Sound) {name target : String} {id : TypeId}
    (hfree : d.typeId? name = none) (htarget : d.typeId? target = some id) :
    (d.withName name id).Sound where
  top := h.top
  id_eq := h.id_eq
  own_name i t ht := by simp [h.own_name i t ht]
  bound_lt entry hentry := by
    rcases List.mem_append.mp hentry with hentry | hentry
    · exact h.bound_lt entry hentry
    · -- The new binding repeats the position that the target is bound to.
      rw [List.mem_singleton.mp hentry]
      exact h.bound_lt (target, id) (mem_names htarget)
  names_nodup := nodup_concat_map h.names_nodup (not_mem_names hfree)
  typeNames_nodup := h.typeNames_nodup
  unionNames_nodup := h.unionNames_nodup

theorem withUnion (h : d.Sound) {declaration : UnionDeclaration}
    (hfree : d.union? declaration.name = none) : (d.withUnion declaration).Sound where
  top := h.top
  id_eq := h.id_eq
  own_name := h.own_name
  bound_lt := h.bound_lt
  names_nodup := h.names_nodup
  typeNames_nodup := h.typeNames_nodup
  unionNames_nodup := by
    refine nodup_concat_map h.unionNames_nodup ?_
    -- A union of that name would have been found.
    intro hmem
    obtain ⟨u, hu, hname⟩ := List.mem_map.mp hmem
    have := List.find?_eq_none.mp hfree u hu
    simp [hname] at this

/-- A successful operation keeps the invariant. -/
theorem perform {d' : Document} {op : Operation} (h : d.Sound) (hop : d.perform op = .ok d') :
    d'.Sound := by
  obtain ⟨symbol, -, hfree, rfl⟩ | ⟨name, target, id, -, hfree, htarget, rfl⟩
    | ⟨declaration, -, hfree, rfl⟩ := perform_cases hop
  · exact h.withType hfree
  · exact h.withName hfree htarget
  · exact h.withUnion hfree

/-- An operation keeps the invariant, whether it succeeds or not. -/
theorem after (h : d.Sound) (op : Operation) : (d.after op).Sound := by
  cases hop : d.perform op with
  | ok d' => rw [after_of_ok hop]; exact h.perform hop
  | error e => rw [after_of_error hop]; exact h

/-- A list of operations keeps the invariant. -/
theorem run (h : d.Sound) (ops : List Operation) : (d.run ops).Sound := by
  induction ops generalizing d with
  | nil => exact h
  | cons op ops ih => exact ih (h.after op)

/-! ### Names and types -/

/-- At the position of a bound name stands a type. -/
theorem type?_isSome (h : d.Sound) {name : String} (hname : (d.typeId? name).isSome) :
    (d.type? name).isSome := by
  obtain ⟨id, hid⟩ := Option.isSome_iff_exists.mp hname
  have hlt : id < d.types.length := h.bound_lt _ (mem_names hid)
  simp [type?, hid, hlt]

/-- The type that a name means has the position that the name is bound to as its id. -/
theorem typeId?_of_type? (h : d.Sound) {name : String} {t : TypeSymbol}
    (ht : d.type? name = some t) : d.typeId? name = some t.id := by
  obtain ⟨id, hid, hget⟩ := Option.bind_eq_some_iff.mp ht
  rw [hid, h.id_eq id t hget]

/-- The entry at the id of the type that a name means is that type. -/
theorem getElem?_id_of_type? (h : d.Sound) {name : String} {t : TypeSymbol}
    (ht : d.type? name = some t) : d.types[t.id]? = some t := by
  rw [type?, h.typeId?_of_type? ht] at ht
  exact ht

/-- Two names mean types with one id exactly when they are bound to one position, and exactly
    when they mean one type. -/
theorem id_eq_iff (h : d.Sound) {a b : String} {s t : TypeSymbol} (hs : d.type? a = some s)
    (ht : d.type? b = some t) :
    (s.id = t.id ↔ d.typeId? a = d.typeId? b) ∧ (s.id = t.id ↔ s = t) := by
  constructor
  · rw [h.typeId?_of_type? hs, h.typeId?_of_type? ht, Option.some.injEq]
  · constructor
    · -- Each type is the entry at its own id, and one position has one entry.
      intro heq
      have hentry := h.getElem?_id_of_type? hs
      rw [heq, h.getElem?_id_of_type? ht] at hentry
      exact (Option.some.inj hentry).symm
    · intro heq
      rw [heq]

end Sound

/-! ### Nothing is lost -/

/-- The name that an operation gives to its entry. -/
def Operation.name : Operation → String
  | .addType symbol => symbol.name
  | .addAlias name _ => name
  | .addUnion declaration => declaration.name

/-- `d'` gives the answers of `d`, but may know `name` where `d` does not. -/
structure ExtendsBy (d : Document) (name : String) (d' : Document) : Prop where
  typeId : ∀ n, d'.typeId? n = d.typeId? n ∨ (n = name ∧ d.typeId? n = none)
  type : ∀ n, d'.type? n = d.type? n ∨ (n = name ∧ d.type? n = none)
  union : ∀ n, d'.union? n = d.union? n ∨ (n = name ∧ d.union? n = none)

/-- Whatever `d` finds under a name, `d'` finds it too. -/
structure Extends (d d' : Document) : Prop where
  typeId : ∀ n id, d.typeId? n = some id → d'.typeId? n = some id
  type : ∀ n t, d.type? n = some t → d'.type? n = some t
  union : ∀ n u, d.union? n = some u → d'.union? n = some u

theorem Extends.refl (d : Document) : d.Extends d :=
  ⟨fun _ _ h => h, fun _ _ h => h, fun _ _ h => h⟩

theorem Extends.trans {d₁ d₂ d₃ : Document} (h : d₁.Extends d₂) (h' : d₂.Extends d₃) :
    d₁.Extends d₃ :=
  ⟨fun n id hn => h'.typeId n id (h.typeId n id hn),
    fun n t hn => h'.type n t (h.type n t hn),
    fun n u hn => h'.union n u (h.union n u hn)⟩

/-- Where an answer for one name is put behind the others, only that name can gain one. -/
theorem or_extended {α : Type} (x : Option α) (p : Prop) [Decidable p] (a : α) :
    x.or (if p then some a else none) = x ∨ (p ∧ x = none) := by
  cases x with
  | some b => exact .inl rfl
  | none =>
    by_cases hp : p
    · exact .inr ⟨hp, rfl⟩
    · exact .inl (by simp [hp])

/-- An answer that was there stays where only a missing one may change. -/
theorem eq_some_of_extended {α : Type} {x x' : Option α} {p : Prop} {a : α}
    (h : x' = x ∨ (p ∧ x = none)) (hx : x = some a) : x' = some a := by
  rcases h with h | ⟨-, h⟩
  · rw [h, hx]
  · rw [hx] at h
    cases h

theorem ExtendsBy.extends {d d' : Document} {name : String} (h : d.ExtendsBy name d') :
    d.Extends d' :=
  ⟨fun n _ => eq_some_of_extended (h.typeId n), fun n _ => eq_some_of_extended (h.type n),
    fun n _ => eq_some_of_extended (h.union n)⟩

namespace Sound

variable {d : Document}

theorem extendsBy_withType (h : d.Sound) (symbol : TypeSymbol) :
    d.ExtendsBy symbol.name (d.withType symbol) where
  typeId n := by
    rw [typeId?_withType]
    exact or_extended ..
  type n := by
    cases hn : d.typeId? n with
    | some id =>
      -- A bound position lies before the end, where nothing has been appended.
      have hlt : id < d.types.length := h.bound_lt _ (mem_names hn)
      have hget : (d.withType symbol).types[id]? = d.types[id]? := List.getElem?_append_left hlt
      exact .inl (by simp [type?, hn, hget])
    | none =>
      by_cases hname : n = symbol.name
      · exact .inr ⟨hname, by simp [type?, hn]⟩
      · exact .inl (by simp [type?, hn, hname])
  union _ := .inl rfl

theorem extendsBy_withName (d : Document) (name : String) (id : TypeId) :
    d.ExtendsBy name (d.withName name id) where
  typeId n := by
    rw [typeId?_withName]
    exact or_extended ..
  type n := by
    have hor := or_extended (d.typeId? n) (n = name) id
    rcases hor with hsame | ⟨hname, hn⟩
    · exact .inl (by rw [type?, type?, typeId?_withName, hsame, types_withName])
    · exact .inr ⟨hname, by rw [type?, hn, Option.bind_none]⟩
  union _ := .inl rfl

theorem extendsBy_withUnion (d : Document) (declaration : UnionDeclaration) :
    d.ExtendsBy declaration.name (d.withUnion declaration) where
  typeId _ := .inl rfl
  type _ := .inl rfl
  union n := by
    rw [union?_withUnion]
    exact or_extended ..

/-- A successful operation adds an answer for its own name, and changes none. -/
theorem extendsBy_perform {d' : Document} {op : Operation} (h : d.Sound)
    (hop : d.perform op = .ok d') : d.ExtendsBy op.name d' := by
  obtain ⟨symbol, rfl, -, rfl⟩ | ⟨name, target, id, rfl, -, -, rfl⟩
    | ⟨declaration, rfl, -, rfl⟩ := perform_cases hop
  · exact h.extendsBy_withType symbol
  · exact extendsBy_withName d name id
  · exact extendsBy_withUnion d declaration

theorem extends_after (h : d.Sound) (op : Operation) : d.Extends (d.after op) := by
  cases hop : d.perform op with
  | ok d' => rw [after_of_ok hop]; exact (h.extendsBy_perform hop).extends
  | error e => rw [after_of_error hop]; exact Extends.refl d

/-- A list of operations loses no answer. -/
theorem extends_run (h : d.Sound) (ops : List Operation) : d.Extends (d.run ops) := by
  induction ops generalizing d with
  | nil => exact Extends.refl d
  | cons op ops ih => exact (h.extends_after op).trans (ih (h.after op))

end Sound

/-! ### The store -/

/-- Behind every list of operations on an empty document, refused ones included, the
    invariant holds, every bound name leads to a type, and two names mean types with one id
    exactly when they mean one entry. The document behind a refused operation is the one before
    it, a successful operation changes no answer, and no further operations lose one. -/
theorem run_empty_sound (scope : String) (ops : List Operation) :
    let d := (empty scope).run ops
    d.Sound ∧
    (∀ name, (d.typeId? name).isSome → (d.type? name).isSome) ∧
    (∀ a b s t, d.type? a = some s → d.type? b = some t →
      (s.id = t.id ↔ d.typeId? a = d.typeId? b) ∧ (s.id = t.id ↔ s = t)) ∧
    (∀ (op : Operation) e d', op.update.run d = .error e d' → d' = d) ∧
    (∀ (op : Operation) d', op.update.run d = .ok () d' → d.ExtendsBy op.name d') ∧
    (∀ more, d.Extends ((empty scope).run (ops ++ more))) := by
  intro d
  have h : d.Sound := (sound_empty scope).run ops
  refine ⟨h, fun _ => h.type?_isSome, fun _ _ _ _ => h.id_eq_iff,
    fun _ _ _ => eq_of_update_error,
    fun _ _ hop => h.extendsBy_perform (perform_eq_ok_iff.mpr hop), fun more => ?_⟩
  -- Further operations go on from the document behind the first ones.
  have hrun : (empty scope).run (ops ++ more) = d.run more := List.foldl_append
  rw [hrun]
  exact h.extends_run more

example :
    ((empty "demo").run [.addType { name := "Ok" }, .addAlias "Yes" "Ok", .addAlias "Fine" "Yes",
      .addAlias "Ok" "Fine"]).names = [("Any", 0), ("Ok", 1), ("Yes", 1), ("Fine", 1)] := by
  decide

end TaggedUnion.Schema.Document
