import TaggedUnion.Proofs.Emit.Running
import TaggedUnion.Proofs.Emit.SweepNames
import TaggedUnion.Proofs.OneOf.Looking

/-! # Shapes whose cases are apart

    Emitted code tells the cases of a union apart by names only. What it does with a value of a
    union follows once these names differ, on every machine that the code runs on:

    * **`Shape.encode`**: a union with its cases as the emitted code has it.
    * **`Shape.IsApart`**: what emitted code tells the cases of a shape apart by.
    * **`IsApart.dispatch_eq`**: a dispatch with an arm for each case comes to the arm of the held
      one.
    * **`IsApart.dispatch_taken`**, **`IsApart.run_ifHeld`**: code for one case is for the unions
      that hold it.
    * **`isApart_generic`**: the cases of the generic unions are apart.
-/

namespace TaggedUnion

open Code Emit

/-! ### Lists -/

section lists

variable {α β : Type}

theorem find?_eq_some_of_unique {p : α → Bool} {xs : List α} {a : α} (ha : a ∈ xs)
    (hp : p a = true) (hunique : ∀ b ∈ xs, p b = true → b = a) : xs.find? p = some a := by
  cases hfind : xs.find? p with
  | none => exact absurd hp (List.find?_eq_none.mp hfind a ha)
  | some b => rw [hunique b (List.mem_of_find?_eq_some hfind) (List.find?_some hfind)]

/-- An entry is found if it is the only one for its key. -/
theorem lookup_eq_some_of_mem {xs : List (String × β)} (hkeys : (xs.map (·.1)).Nodup)
    {a : String} {b : β} (hmem : (a, b) ∈ xs) : xs.lookup a = some b := by
  induction xs with
  | nil => cases hmem
  | cons x xs ih =>
    obtain ⟨hx, hxs⟩ := List.nodup_cons.mp hkeys
    rcases List.mem_cons.mp hmem with rfl | hmem
    · exact List.lookup_cons_self
    · have hne : a ≠ x.1 := by
        rintro rfl
        exact hx (List.mem_map_of_mem (f := (·.1)) hmem)
      rw [List.lookup_cons, beq_false_of_ne hne]
      exact ih hxs hmem

theorem mapM_eq_some_of_forall₂ {f : α → Option β} {xs : List α} {ys : List β}
    (h : List.Forall₂ (fun x y => f x = some y) xs ys) : xs.mapM f = some ys := by
  induction h with
  | nil => rfl
  | cons hx _ ih => simp [List.mapM_cons, hx, ih]

/-- The keys of entries that are listed beside each other lead to the entries. -/
theorem forall₂_lookup_zip {keys : List String} {vals : List β}
    (hlength : keys.length = vals.length) (hnodup : keys.Nodup) :
    List.Forall₂ (fun x y => (keys.zip vals).lookup x = some y) keys vals := by
  rw [List.forall₂_iff_get]
  refine ⟨hlength, ?_⟩
  intro i hi hi'
  have hkeys : ((keys.zip vals).map (·.1)).Nodup := by
    rw [List.map_fst_zip (Nat.le_of_eq hlength)]
    exact hnodup
  refine lookup_eq_some_of_mem hkeys ?_
  rw [List.mem_iff_getElem]
  exact ⟨i, by simp [hi, hi'], by simp⟩

end lists

/-! ### Unions in code -/

variable {ι : Type} {τ : ι → Type} {M : Type → Type} [Monad M] {N R : Type}

namespace Shape

/-- The case at a position, counted from zero. -/
def caseAt (s : Shape) (k : Nat) : ShapeCase := s.cases.getD k default

/-- A union with its cases as the emitted code has it. -/
def encode (s : Shape) {n : Nat} (ts : Fin n → ι) (u : OneOf fun k => τ (ts k)) : Value τ :=
  .union (s.caseAt u.index).variant ⟨ts u.index, u.value⟩

/-- A dispatch on a value that is held in a variant comes to the arm of that variant, where no
    other case has one of its name. -/
theorem dispatch_held (s : Shape) (hvariants : (s.cases.map (·.variant)).Nodup) {k : ShapeCase}
    (hk : k ∈ s.cases) {c : Machine M τ N R} {names : Names N} {y : String} {b : (i : ι) × τ i}
    (hheld : c.valueOf? names y = some (.union k.variant b)) (x : String) (a : ShapeCase → Expr) :
    dispatch c names y (s.cases.map fun k => ⟨.held k.variant x, a k⟩) =
      (a k).run c ((x, c.ofValue (.plain b)) :: names) := by
  have hfind : (s.cases.map fun k => (⟨.held k.variant x, a k⟩ : Arm)).find?
      (·.pattern.applies k.variant) = some ⟨.held k.variant x, a k⟩ := by
    refine find?_eq_some_of_unique (List.mem_map_of_mem hk) (by simp [Pattern.applies]) ?_
    intro arm harm happlies
    obtain ⟨k', hk', rfl⟩ := List.mem_map.mp harm
    have hvariant : k'.variant = k.variant := by simpa [Pattern.applies] using happlies
    rw [List.inj_on_of_nodup_map hvariants hk' hk hvariant]
  rw [dispatch, hheld]
  simp only [hfind]
  rfl

/-! ### Names that differ -/

/-- The shape has `n` cases that emitted code tells apart. -/
structure IsApart (s : Shape) (n : Nat) : Prop where
  length : s.cases.length = n
  binding : s.binding = Schema.heldName
  ordinals : s.cases.map (·.ordinal) = List.range' 1 n
  variants : (s.cases.map (·.variant)).Nodup
  names : s.NamesDistinct
  /-- A path that begins with the name of the union is none that begins with the type itself. -/
  paths : ∀ v w, s.name ++ "::" ++ v ≠ "Self::" ++ w

namespace IsApart

variable {s : Shape} {n : Nat} (h : s.IsApart n)
include h

theorem caseAt_eq (k : Fin n) : s.caseAt k = s.cases.get (k.cast h.length.symm) := by
  simp [caseAt, h.length]

theorem caseAt_mem (k : Fin n) : s.caseAt k ∈ s.cases := by
  rw [h.caseAt_eq]
  exact List.get_mem ..

theorem cases_eq : s.cases = List.ofFn fun k : Fin n => s.caseAt k := by
  refine List.ext_getElem (by simp [h.length]) ?_
  intro i hi hi'
  simp [caseAt, hi]

theorem ordinal (k : Fin n) : (s.caseAt k).ordinal = k.val + 1 := by
  have hk : k.val < s.cases.length := h.length ▸ k.isLt
  have hget : (s.cases.map (·.ordinal))[k.val]? = some (k.val + 1) := by
    rw [h.ordinals]
    simp [Nat.add_comm]
  rw [List.getElem?_map, List.getElem?_eq_getElem hk] at hget
  rw [h.caseAt_eq]
  simpa using hget

theorem stems_nodup : s.stems.Nodup := ((s.namesDistinct_iff).mp h.names).nodup

theorem variant_injective : Function.Injective fun k : Fin n => (s.caseAt k).variant := by
  have hnodup := h.variants
  rw [h.cases_eq, List.map_ofFn, List.nodup_ofFn] at hnodup
  exact hnodup

theorem nodup_ownFunctions (f : Family) : ((f.ownFunctions s).map (·.name)).Nodup := by
  have hall := nodup_allOwnNames h.names h.stems_nodup
  exact (List.nodup_flatMap.mp hall).1 f (by cases f <;> decide)

/-- The function of a name is the only one. -/
theorem find?_ownFunctions {f : Family} {fn : Function} (hfn : fn ∈ f.ownFunctions s) :
    (f.ownFunctions s).find? (·.name = fn.name) = some fn := by
  refine find?_eq_some_of_unique hfn (by simp) ?_
  intro g hg hname
  exact List.inj_on_of_nodup_map (h.nodup_ownFunctions f) hg hfn (by simpa using hname)

/-- A path from the name of the union leads to the variant at its end. -/
theorem variant?_named (k : Fin n) :
    (enumOf s).variant? (s.name ++ "::" ++ (s.caseAt k).variant) =
      some (s.caseAt k).variant := by
  refine find?_eq_some_of_unique ?_ (by simp [enumOf]) ?_
  · simpa [enumOf] using ⟨_, h.caseAt_mem k, rfl⟩
  · intro v _ hv
    rcases of_decide_eq_true hv with hself | hname
    · exact absurd hself (h.paths _ v)
    · exact ((String.append_right_inj _).mp hname).symm

/-- A path from the type itself leads to the variant at its end. -/
theorem variant?_self (k : Fin n) :
    (enumOf s).variant? ("Self::" ++ (s.caseAt k).variant) = some (s.caseAt k).variant := by
  refine find?_eq_some_of_unique ?_ (by simp) ?_
  · simpa [enumOf] using ⟨_, h.caseAt_mem k, rfl⟩
  · intro v _ hv
    rcases of_decide_eq_true hv with hself | hname
    · exact ((String.append_right_inj _).mp hself).symm
    · exact absurd hname.symm (h.paths v _)

/-! ### Asking for the held case -/

variable {c : Machine M τ N R} {names : Names N} {ts : Fin n → ι}
  {u : OneOf fun k => τ (ts k)} {y : String} (hself : c.valueOf? names y = some (s.encode ts u))
include hself

/-- A dispatch on a union comes to the arm of the case that is held. -/
theorem dispatch_eq (x : String) (a : ShapeCase → Expr) :
    dispatch c names y (s.cases.map fun k => ⟨.held k.variant x, a k⟩) =
      (a (s.caseAt u.index)).run c
        ((x, c.ofValue (.plain ⟨ts u.index, u.value⟩)) :: names) :=
  s.dispatch_held h.variants (h.caseAt_mem u.index) hself x a

/-- A dispatch for one case comes to its arm if the case is held, and otherwise to the other
    arm. -/
theorem dispatch_taken (k : Fin n) (found other : Expr) (x : String) :
    dispatch c names y [arm s (s.caseAt k) found, ⟨.other x, other⟩] =
      (u.get? k).elim (other.run c ((x, c.ofValue (s.encode ts u)) :: names)) fun a =>
        found.run c ((s.binding, c.ofValue (.plain ⟨ts k, a⟩)) :: names) := by
  rw [dispatch, hself]
  rcases OneOf.held_or_other k u with ⟨a, rfl⟩ | hu
  · have hfind : [arm s (s.caseAt k) found, ⟨.other x, other⟩].find?
        (·.pattern.applies (s.caseAt k).variant) = some (arm s (s.caseAt k) found) := by
      simp [arm, Pattern.applies]
    rw [OneOf.get?_ofCase]
    simp only [encode, OneOf.ofCase, hfind]
    rfl
  · -- The arm of the case does not apply, since the held one has another variant.
    have hne : (s.caseAt k).variant ≠ (s.caseAt u.index).variant :=
      fun heq => hu (h.variant_injective heq).symm
    have hfind : [arm s (s.caseAt k) found, ⟨.other x, other⟩].find?
        (·.pattern.applies (s.caseAt u.index).variant) = some ⟨.other x, other⟩ := by
      simp [arm, Pattern.applies, hne]
    rw [OneOf.get?_other hu]
    simp only [encode, hfind]
    rfl

/-- A block for one case is run if the case is held. -/
theorem run_ifHeld (k : Fin n) (x : String) (block : Names N → M Unit) :
    (BlockHead.ifHeld (s.caseAt k).variant x y).run c names block =
      (u.get? k).elim (pure ()) fun a =>
        block ((x, c.ofValue (.plain ⟨ts k, a⟩)) :: names) := by
  rw [BlockHead.run, hself]
  rcases OneOf.held_or_other k u with ⟨a, rfl⟩ | hu
  · rw [OneOf.get?_ofCase]
    exact if_pos rfl
  · rw [OneOf.get?_other hu]
    exact if_neg fun heq => hu (h.variant_injective heq)

end IsApart

theorem isApart_generic (n : Nat) (path : String) : (generic n path).IsApart n where
  length := by simp [generic]
  binding := rfl
  ordinals := by simp [generic, genericCase, Function.comp_def]
  variants := by
    rw [generic, List.map_map]
    refine List.Nodup.map ?_ List.nodup_range'
    intro i j hij
    exact Text.toString_injective ((String.append_right_inj "Case").mp hij)
  names := namesDistinct_generic n path
  paths v w := by
    have hunion : (generic n path).name ++ "::" ++ v = "Union" ++ (toString n ++ "::" ++ v) := by
      simp [generic, String.append_assoc]
    rw [hunion]
    exact append_ne_append (by decide) (by decide) _ w

end Shape

end TaggedUnion
