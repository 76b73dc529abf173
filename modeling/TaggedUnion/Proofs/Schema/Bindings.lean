import TaggedUnion.Proofs.Schema.Definitions

/-! # Aliases in another order

    Aliases are bound one by one, each to what its target means by then. This module says what
    their order decides:

    * **`Document.Binds`**: what a document is like in which some aliases have been bound.
      **`Document.binds_of_bindAliases`**: binding them leads to such a document.
    * **`TargetsFirst`**: no alias stands before one that it targets.
    * **`Document.exists_bindAliases_iff`**, **`Document.sameAnswers_of_perm`**: where aliases can
      be bound in one order, they can be bound in exactly those other orders in which targets come
      first, and to the same types.
-/

namespace TaggedUnion.Schema

/-- The documents have the same types and unions, and every name means the same in both. -/
structure Document.SameAnswers (d d' : Document) : Prop where
  scope : d'.scope = d.scope
  types : d'.types = d.types
  unions : d'.unions = d.unions
  typeId : ∀ name, d'.typeId? name = d.typeId? name

/-- No alias stands before one that it targets. -/
def TargetsFirst (aliases : List (String × String)) : Prop :=
  aliases.Pairwise fun a b => a.2 ≠ b.1

instance (aliases : List (String × String)) : Decidable (TargetsFirst aliases) :=
  inferInstanceAs (Decidable (List.Pairwise _ aliases))

namespace Document

variable {d d' e : Document} {a : String × String} {aliases aliases' : List (String × String)}

/-! ### One alias -/

theorem addAlias_of_free {name target : String} {id : TypeId} (hfree : d.typeId? name = none)
    (htarget : d.typeId? target = some id) :
    d.addAlias name target = .ok (d.withName name id, id) := by
  rw [outcome_addAlias, hfree, htarget]

/-- An alias is bound if its name is free and its target is bound. -/
theorem bindAliases_cons (h : d.bindAliases (a :: aliases) = .ok d') :
    ∃ id, d.typeId? a.1 = none ∧ d.typeId? a.2 = some id ∧
      (d.withName a.1 id).bindAliases aliases = .ok d' := by
  rw [bindAliases, List.foldlM_cons] at h
  obtain ⟨d₁, hd₁, h⟩ := exists_of_bind_ok h
  have hperform : d.perform (.addAlias a.1 a.2) = .ok d₁ := by
    rw [perform_addAlias]
    exact hd₁
  obtain ⟨_, hop, -⟩ | ⟨_, _, id, hop, hfree, htarget, rfl⟩ | ⟨_, hop, -⟩ := perform_cases hperform
  · cases hop
  · cases hop
    exact ⟨id, hfree, htarget, h⟩
  · cases hop

theorem bindAliases_cons_of_free {id : TypeId} (hfree : d.typeId? a.1 = none)
    (htarget : d.typeId? a.2 = some id) :
    d.bindAliases (a :: aliases) = (d.withName a.1 id).bindAliases aliases := by
  rw [bindAliases, List.foldlM_cons, addAlias_of_free hfree htarget]
  rfl

/-- A name that is bound afterwards was bound before or is the new one. -/
theorem typeId?_withName_cases {bound name : String} {id id' : TypeId}
    (h : (d.withName bound id).typeId? name = some id') :
    d.typeId? name = some id' ∨ (name = bound ∧ id' = id) := by
  rw [typeId?_withName] at h
  cases hname : d.typeId? name with
  | some id'' =>
    rw [hname] at h
    exact .inl h
  | none =>
    rw [hname, Option.none_or] at h
    split at h
    · next heq => exact .inr ⟨heq, (Option.some.inj h).symm⟩
    · cases h

theorem isSome_typeId?_withName {bound name : String} {id : TypeId} :
    ((d.withName bound id).typeId? name).isSome ↔ (d.typeId? name).isSome ∨ name = bound := by
  rw [typeId?_withName, Option.isSome_or]
  by_cases hname : name = bound
  · simp [hname]
  · simp [hname]

theorem typeId?_withName_self {bound : String} {id : TypeId} (hfree : d.typeId? bound = none) :
    (d.withName bound id).typeId? bound = some id := by
  simp [hfree]

theorem typeId?_withName_of_some {bound name : String} {id id' : TypeId}
    (h : d.typeId? name = some id') : (d.withName bound id).typeId? name = some id' := by
  simp [h]

theorem typeId?_withName_eq_none {bound name : String} {id : TypeId}
    (h : (d.withName bound id).typeId? name = none) : d.typeId? name = none ∧ name ≠ bound := by
  rw [typeId?_withName, Option.or_eq_none_iff] at h
  refine ⟨h.1, ?_⟩
  intro hname
  rw [if_pos hname] at h
  cases h.2

/-! ### Documents with aliases -/

/-- In `d'` everything is as in `d`, but for the aliases, which mean what their targets mean. -/
structure Binds (d : Document) (aliases : List (String × String)) (d' : Document) : Prop where
  scope : d'.scope = d.scope
  types : d'.types = d.types
  unions : d'.unions = d.unions
  /-- Nothing that was bound is lost or changed. -/
  kept : ∀ name id, d.typeId? name = some id → d'.typeId? name = some id
  /-- Nothing else is bound but the aliases. -/
  only : ∀ name, (d'.typeId? name).isSome → (d.typeId? name).isSome ∨ name ∈ aliases.map (·.1)
  /-- An alias means what its target means. -/
  bound : ∀ a ∈ aliases, ∃ id, d'.typeId? a.1 = some id ∧ d'.typeId? a.2 = some id

/-- What is asked of aliases that can be bound, apart from their targets. -/
structure AreFree (d : Document) (aliases : List (String × String)) : Prop where
  free : ∀ a ∈ aliases, d.typeId? a.1 = none
  nodup : (aliases.map (·.1)).Nodup
  target_ne : ∀ a ∈ aliases, a.2 ≠ a.1

section cons

variable {id : TypeId}

theorem Binds.cons (h : (d.withName a.1 id).Binds aliases d') (hfree : d.typeId? a.1 = none)
    (htarget : d.typeId? a.2 = some id) : d.Binds (a :: aliases) d' where
  scope := h.scope
  types := h.types
  unions := h.unions
  kept name id' hname := h.kept name id' (typeId?_withName_of_some hname)
  only name hname := by
    rcases h.only name hname with hname | hname
    · rcases isSome_typeId?_withName.mp hname with hname | rfl
      · exact .inl hname
      · exact .inr List.mem_cons_self
    · exact .inr (List.mem_cons_of_mem _ hname)
  bound b hb := by
    rcases List.mem_cons.mp hb with rfl | hb
    · exact ⟨id, h.kept _ _ (typeId?_withName_self hfree),
        h.kept _ _ (typeId?_withName_of_some htarget)⟩
    · exact h.bound b hb

theorem AreFree.cons (h : (d.withName a.1 id).AreFree aliases) (hfree : d.typeId? a.1 = none)
    (htarget : d.typeId? a.2 = some id) : d.AreFree (a :: aliases) where
  free b hb := by
    rcases List.mem_cons.mp hb with rfl | hb
    · exact hfree
    · exact (typeId?_withName_eq_none (h.free b hb)).1
  nodup := by
    refine List.nodup_cons.mpr ⟨?_, h.nodup⟩
    intro hmem
    obtain ⟨b, hb, hname⟩ := List.mem_map.mp hmem
    exact (typeId?_withName_eq_none (h.free b hb)).2 hname
  target_ne b hb := by
    rcases List.mem_cons.mp hb with rfl | hb
    · intro hself
      rw [hself, hfree] at htarget
      cases htarget
    · exact h.target_ne b hb

/-- The target of an alias is bound when its turn comes, and the names of later ones are free. -/
theorem AreFree.targetsFirst_cons (h : (d.withName a.1 id).AreFree aliases)
    (hfirst : TargetsFirst aliases) (htarget : d.typeId? a.2 = some id) :
    TargetsFirst (a :: aliases) := by
  refine List.pairwise_cons.mpr ⟨?_, hfirst⟩
  intro b hb hname
  rw [hname, (typeId?_withName_eq_none (h.free b hb)).1] at htarget
  cases htarget

theorem Binds.tail (h : d.Binds (a :: aliases) d') (htarget : d.typeId? a.2 = some id) :
    (d.withName a.1 id).Binds aliases d' where
  scope := h.scope
  types := h.types
  unions := h.unions
  kept name id' hname := by
    rcases typeId?_withName_cases hname with hname | ⟨rfl, rfl⟩
    · exact h.kept name id' hname
    · obtain ⟨id'', halias, hsame⟩ := h.bound a List.mem_cons_self
      rw [halias, ← hsame]
      exact h.kept a.2 id' htarget
  only name hname := by
    rw [isSome_typeId?_withName]
    rcases h.only name hname with hname | hname
    · exact .inl (.inl hname)
    · rcases List.mem_cons.mp hname with rfl | hname
      · exact .inl (.inr rfl)
      · exact .inr hname
  bound b hb := h.bound b (List.mem_cons_of_mem _ hb)

theorem AreFree.tail (h : d.AreFree (a :: aliases)) : (d.withName a.1 id).AreFree aliases where
  free b hb := by
    have hne : b.1 ≠ a.1 := by
      intro hname
      have hmem : b.1 ∈ aliases.map (·.1) := List.mem_map_of_mem hb
      rw [hname] at hmem
      exact (List.nodup_cons.mp h.nodup).1 hmem
    simp [h.free b (List.mem_cons_of_mem _ hb), hne]
  nodup := (List.nodup_cons.mp h.nodup).2
  target_ne b hb := h.target_ne b (List.mem_cons_of_mem _ hb)

end cons

/-! ### Any order -/

/-- What it takes for aliases to be bound, and what the document is like then. -/
theorem binds_of_bindAliases (h : d.bindAliases aliases = .ok d') :
    d.Binds aliases d' ∧ d.AreFree aliases ∧ TargetsFirst aliases := by
  induction aliases generalizing d with
  | nil =>
    cases h
    exact ⟨⟨rfl, rfl, rfl, fun _ _ h => h, fun _ h => .inl h, by simp⟩,
      ⟨by simp, List.nodup_nil, by simp⟩, .nil⟩
  | cons a aliases ih =>
    obtain ⟨id, hfree, htarget, h⟩ := bindAliases_cons h
    obtain ⟨hbinds, hareFree, hfirst⟩ := ih h
    exact ⟨hbinds.cons hfree htarget, hareFree.cons hfree htarget,
      hareFree.targetsFirst_cons hfirst htarget⟩

/-- Aliases with free names can be bound in every order in which targets come first, if there is
    a document in which all of them are bound. -/
theorem Binds.exists_bindAliases (h : d.Binds aliases d') (hfree : d.AreFree aliases)
    (hfirst : TargetsFirst aliases) : ∃ e, d.bindAliases aliases = .ok e := by
  induction aliases generalizing d with
  | nil => exact ⟨d, rfl⟩
  | cons a aliases ih =>
    obtain ⟨hlater, hfirst⟩ := List.pairwise_cons.mp hfirst
    obtain ⟨id, -, htarget⟩ := h.bound a List.mem_cons_self
    -- The target is no alias that is still to come, so that it is bound already.
    have hbound : (d.typeId? a.2).isSome := by
      refine (h.only a.2 (Option.isSome_of_eq_some htarget)).resolve_right ?_
      intro hmem
      obtain ⟨b, hb, hname⟩ := List.mem_map.mp hmem
      rcases List.mem_cons.mp hb with rfl | hb
      · exact hfree.target_ne b List.mem_cons_self hname.symm
      · exact hlater b hb hname.symm
    obtain ⟨id', hid'⟩ := Option.isSome_iff_exists.mp hbound
    rw [bindAliases_cons_of_free (hfree.free a List.mem_cons_self) hid']
    exact ih (h.tail hid') hfree.tail hfirst

/-- What aliases are bound to one by one is what they mean where all of them are bound. -/
theorem Binds.eq_some_of_bindAliases (h : d.Binds aliases d') (he : d.bindAliases aliases = .ok e)
    (name : String) (id : TypeId) (hname : e.typeId? name = some id) :
    d'.typeId? name = some id := by
  induction aliases generalizing d with
  | nil =>
    cases he
    exact h.kept name id hname
  | cons a aliases ih =>
    obtain ⟨id', -, htarget, he⟩ := bindAliases_cons he
    exact ih (h.tail htarget) he

theorem Binds.perm (h : d.Binds aliases d') (hperm : aliases.Perm aliases') :
    d.Binds aliases' d' where
  scope := h.scope
  types := h.types
  unions := h.unions
  kept := h.kept
  only name hname := (h.only name hname).imp_right (hperm.map _).mem_iff.mp
  bound a ha := h.bound a (hperm.mem_iff.mpr ha)

theorem AreFree.perm (h : d.AreFree aliases) (hperm : aliases.Perm aliases') :
    d.AreFree aliases' where
  free a ha := h.free a (hperm.mem_iff.mpr ha)
  nodup := (hperm.map _).nodup_iff.mp h.nodup
  target_ne a ha := h.target_ne a (hperm.mem_iff.mpr ha)

/-- Documents in which the same aliases have been bound, in whatever order, give the same
    answers. -/
theorem sameAnswers_of_perm (hperm : aliases.Perm aliases') (h : d.bindAliases aliases = .ok d')
    (he : d.bindAliases aliases' = .ok e) : d'.SameAnswers e := by
  have hd' := (binds_of_bindAliases h).1
  have he' := (binds_of_bindAliases he).1
  refine ⟨he'.scope.trans hd'.scope.symm, he'.types.trans hd'.types.symm,
    he'.unions.trans hd'.unions.symm, ?_⟩
  intro name
  refine Option.ext ?_
  intro id
  exact ⟨(hd'.perm hperm).eq_some_of_bindAliases he name id,
    (he'.perm hperm.symm).eq_some_of_bindAliases h name id⟩

/-- Aliases that can be bound in one order can be bound in exactly those orders in which targets
    come first. -/
theorem exists_bindAliases_iff (hperm : aliases.Perm aliases')
    (h : d.bindAliases aliases = .ok d') :
    (∃ e, d.bindAliases aliases' = .ok e) ↔ TargetsFirst aliases' := by
  constructor
  · rintro ⟨e, he⟩
    exact (binds_of_bindAliases he).2.2
  · intro hfirst
    obtain ⟨hbinds, hfree, -⟩ := binds_of_bindAliases h
    exact (hbinds.perm hperm).exists_bindAliases (hfree.perm hperm) hfirst

end Document

end TaggedUnion.Schema
