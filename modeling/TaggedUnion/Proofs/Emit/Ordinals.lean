import TaggedUnion.Proofs.Emit.Exhaustive
import TaggedUnion.Proofs.Emit.Forms
import TaggedUnion.Proofs.Emit.Sweep
import TaggedUnion.Proofs.Emit.Variants

/-! # Ordinals

    The function `tag` returns the ordinal of the held case, and its result is declared to be a
    byte. Nothing bounds the number of cases, so that an ordinal need not be one:

    * **`Shape.TellsOrdinals`**: what is written for `tag`, what it returns, and for which shapes
      all ordinals are bytes.
    * **`tellsOrdinals`**: this holds for all unions that code is emitted for, those of a schema
      and those of a sweep.
    * **`exists_generate_withRecords`**: code is emitted for unions of any number of cases from
      two on, and so for one of 256 (**`not_forall_ordinal_fits`**).
-/

namespace TaggedUnion

open Code Emit Schema

/-! ### The function that tells the case -/

theorem exists_byte_iff (n : Nat) : (∃ b : UInt8, b.toNat = n) ↔ n ≤ 255 := by
  constructor
  · intro ⟨b, hb⟩
    have := b.toNat_lt
    omega
  · intro hle
    exact ⟨UInt8.ofNat n, UInt8.toNat_ofNat_of_lt (by rw [UInt8.size]; omega)⟩

namespace Shape

variable (s : Shape)

theorem filter_name_tag :
    (Family.core.ownFunctions s).filter (·.name = "tag") = [tagFunction s] := by
  have hown : Family.core.ownFunctions s = coreFunctions s := s.ownFunctions_core
  rw [hown]
  exact s.filter_name_coreFunctions (h := .tag) (.inl rfl)

/-- The function returns the ordinal that the case has, where no other one has its variant. -/
theorem callOwn_tag {ι : Type} {τ : ι → Type} {m : Type → Type} [Monad m]
    (hvariants : (s.cases.map (·.variant)).Nodup) {c : ShapeCase} (hc : c ∈ s.cases)
    (a : (i : ι) × τ i) :
    Family.core.callOwn s "tag" (some (.union c.variant a)) [] =
      (pure (.value (.literal (toString c.ordinal))) : Exec m (Outcome m τ)) := by
  have hfind : (Family.core.ownFunctions s).find? (·.name = "tag") = some (tagFunction s) := by
    rw [← List.head?_filter, filter_name_tag]
    rfl
  have hheld : (Family.aloneIn s : Surroundings m τ).machine.valueOf?
      [("self", .outcome (.value (.union c.variant a)))] "self" = some (.union c.variant a) := rfl
  rw [Family.callOwn, hfind]
  refine (Function.invoke_plain rfl rfl rfl rfl _).trans ?_
  refine (s.dispatch_held hvariants hc hheld "_" fun c => .name (toString c.ordinal)).trans ?_
  exact Expr.run_literal _ (isLiteral_toString _)

/-- What is emitted to tell the held case by its ordinal. -/
structure TellsOrdinals : Prop where
  /-- One function of the name is written. It has an arm with the ordinal for each case, and its
      result is declared to be a byte. -/
  written : ∃ m, (Family.core.ownFunctions s).filter (·.name = "tag") = [m] ∧
    Family.core.Emits s m ∧ m.result = some "u8" ∧ TellsCases s (fun c => toString c.ordinal) m
  /-- The ordinals are the positions in the declaration, counted from one. -/
  ordinals : s.cases.map (·.ordinal) = List.range' 1 s.cases.length
  /-- The function returns the position of the case that is held. -/
  returned : ∀ {ι : Type} (τ : ι → Type) (m : Type → Type) [Monad m] [LawfulMonad m]
    (i : Nat) (c : ShapeCase) (a : (i : ι) × τ i), s.cases[i]? = some c →
      settled false (Family.core.callOwn s "tag" (some (.union c.variant a)) [] :
        Exec m (Outcome m τ)) = pure (some (.literal (toString (i + 1))))
  /-- All ordinals are bytes exactly if there are at most 255 cases. -/
  fits : (∀ c ∈ s.cases, ∃ b : UInt8, b.toNat = c.ordinal) ↔ s.cases.length ≤ 255

variable {s}

theorem tellsOrdinals_of_variants
    (hordinals : s.cases.map (·.ordinal) = List.range' 1 s.cases.length)
    (hvariants : (s.cases.map (·.variant)).Nodup) : s.TellsOrdinals where
  written := by
    refine ⟨tagFunction s, s.filter_name_tag, Family.emits_of_mem_ownFunctions ?_, rfl,
      tellsCases_of_body rfl rfl rfl rfl rfl⟩
    refine List.mem_of_mem_filter (p := (·.name = "tag")) ?_
    rw [filter_name_tag]
    exact List.mem_singleton_self _
  ordinals := hordinals
  returned := by
    intro ι τ m _ _ i c a hi
    have hordinal : c.ordinal = i + 1 := by
      have hget := congrArg (·[i]?) hordinals
      obtain ⟨hlt, -⟩ := List.getElem?_eq_some_iff.mp hi
      simp only [List.getElem?_map, hi, Option.map_some] at hget
      rw [List.getElem?_eq_getElem (by simpa using hlt), Option.some.injEq] at hget
      rw [hget, List.getElem_range']
      omega
    rw [s.callOwn_tag hvariants (List.mem_of_getElem? hi), hordinal]
    simp [settled, Outcome.ready]
  fits := by
    have hall : (∀ c ∈ s.cases, ∃ b : UInt8, b.toNat = c.ordinal) ↔
        ∀ n ∈ s.cases.map (·.ordinal), n ≤ 255 := by
      rw [List.forall_mem_map]
      exact forall₂_congr fun c _ => exists_byte_iff c.ordinal
    rw [hall, hordinals]
    constructor
    · intro h
      by_contra hlt
      have := h 256 (List.mem_range'_1.mpr (by omega))
      omega
    · intro hle n hn
      have := (List.mem_range'_1.mp hn).2
      omega

end Shape

/-! ### All unions -/

/-- The ordinals of a declared union are the positions of its references. -/
theorem Schema.UnionDeclaration.map_ordinal_shape (declaration : UnionDeclaration) (d : Document)
    (path : String) :
    (Shape.named (declaration.resolveIn d).populate path).cases.map (·.ordinal) =
      List.range' 1 (Shape.named (declaration.resolveIn d).populate path).cases.length := by
  refine List.ext_getElem (by simp) ?_
  intro i hi hi'
  simp [Shape.named, Union.populate, UnionDeclaration.resolveIn, Union.resolveCase, Nat.add_comm]

theorem Schema.UnionDeclaration.IsAcceptableIn.tellsOrdinals_shape {declaration : UnionDeclaration}
    {d : Document} (h : declaration.IsAcceptableIn d) (hd : d.Sound) (path : String) :
    (Shape.named (declaration.resolveIn d).populate path).TellsOrdinals := by
  refine Shape.tellsOrdinals_of_variants (declaration.map_ordinal_shape d path) ?_
  have hcases := congrArg (List.map Prod.fst) (map_cases_shape h.resolved path)
  rw [List.map_map, List.map_map] at hcases
  exact hcases ▸ h.names_nodup hd

theorem Shape.tellsOrdinals_generic (n : Nat) (path : String) :
    (generic n path).TellsOrdinals := by
  have h := isApart_generic n path
  refine tellsOrdinals_of_variants ?_ h.variants
  rw [h.length]
  exact h.ordinals

/-- The text of each arity is a part of what a sweep emits. -/
theorem exists_sweepText_eq {n : Nat} {ns : List Nat} (h : n ∈ ns) (path : String) (f : Family) :
    ∃ before after, sweepText ns path f = before ++ f.text (.generic n path) ++ after := by
  obtain ⟨as, bs, rfl⟩ := List.append_of_mem h
  refine ⟨sweepText as path f, sweepText bs path f, ?_⟩
  rw [sweepText_append, String.append_assoc, sweepText, sweepText, List.map_cons, String.join_cons]
  rfl

/-- In every union that code is emitted for, of a schema or in a sweep, the function `tag` has the
    position of each case as its ordinal, and returns it. Its result is declared to be a byte, and
    all ordinals are bytes exactly if the union has at most 255 cases. -/
theorem tellsOrdinals (path : String) :
    (∀ (scope : String) (ops : List Document.Operation) (name : String) (g : Generated),
      let d := (Document.empty scope).run ops
      generate d name path = .ok g →
        ∃ declaration, d.union? name = some declaration ∧
          let s := Shape.named (declaration.resolveIn d).populate path
          Artifact.ofShape s .core ∈ g.artifacts ∧
            s.cases.length = declaration.cases.length ∧ s.TellsOrdinals) ∧
    ∀ (arities : List Nat) (artifacts : List Artifact),
      sweep arities path = .ok artifacts → ∀ n ∈ arities,
        let s := Shape.generic n path
        (∃ before after, Artifact.ofBody .core Family.core.sweepPath
          (before ++ Family.core.text s ++ after) ∈ artifacts) ∧
            s.cases.length = n ∧ s.TellsOrdinals := by
  constructor
  · intro scope ops name g d hg
    have hsound : d.Sound := (Document.sound_empty scope).run ops
    obtain ⟨declaration, hdeclared, hacceptable, rfl⟩ := exists_of_generate_ok hg
    refine ⟨declaration, hdeclared, ?_, ?_, hacceptable.tellsOrdinals_shape hsound path⟩
    · exact List.mem_cons_self
    · simp [Shape.named, Union.populate, UnionDeclaration.resolveIn]
  · intro arities artifacts hsweep n hn s
    obtain ⟨-, -, rfl⟩ := sweep_eq_ok_iff.mp hsweep
    obtain ⟨before, after, htext⟩ := exists_sweepText_eq (mem_ascending.mpr hn) path .core
    refine ⟨⟨before, after, ?_⟩, by simp [s, Shape.generic], Shape.tellsOrdinals_generic n path⟩
    rw [← htext]
    exact List.mem_cons_self

/-! ### Unions of many cases -/

namespace Schema.Document

/-- A record type with a number in its name, at the position of that number. -/
def numberedRecord (i : Nat) : TypeSymbol where
  id := i + 1
  name := "C" ++ toString (i + 1)
  kind := .record

/-- The union of a number of such types. -/
def numberedUnion (n : Nat) : UnionDeclaration where
  scope := "demo"
  name := "Many"
  cases := (List.range n).map fun i => (numberedRecord i).name

/-- The document that declares a union and a number of such types. -/
def withRecords (declaration : UnionDeclaration) (n : Nat) : Document :=
  (empty "demo").run
    (.addUnion declaration :: (List.range n).map fun i => .addType (numberedRecord i))

theorem perform_addType_of_free {d : Document} {symbol : TypeSymbol}
    (h : d.typeId? symbol.name = none) : d.perform (.addType symbol) = .ok (d.withType symbol) := by
  rw [perform_addType, outcome_addType, h]
  rfl

theorem name_numberedRecord_injective : Function.Injective fun i => (numberedRecord i).name := by
  intro i j h
  have := Text.toString_injective ((String.append_right_inj "C").mp h)
  omega

theorem name_numberedRecord_ne_top (i : Nat) : (numberedRecord i).name ≠ topTypeName := by
  have h := append_ne_append (p := "C") (q := topTypeName) (by decide) (by decide)
    (toString (i + 1)) ""
  rwa [String.append_empty] at h

variable (declaration : UnionDeclaration) (n : Nat)

/-- What the document has: the types one after the other, each with its own name only. -/
theorem withRecords_eq :
    (withRecords declaration n).types = { id := 0, name := topTypeName, kind := .top } ::
        (List.range n).map numberedRecord ∧
      (withRecords declaration n).names = (topTypeName, 0) ::
        (List.range n).map (fun i => ((numberedRecord i).name, i + 1)) ∧
      (withRecords declaration n).unions = [declaration] := by
  induction n with
  | zero => exact ⟨rfl, rfl, rfl⟩
  | succ n ih =>
    obtain ⟨htypes, hnames, hunions⟩ := ih
    -- The next name is no name of a type before it.
    have hfree : (withRecords declaration n).typeId? (numberedRecord n).name = none := by
      rw [typeId?, hnames, List.lookup_eq_none_iff]
      intro entry hentry
      rw [bne_iff_ne]
      rcases List.mem_cons.mp hentry with rfl | hentry
      · exact name_numberedRecord_ne_top n
      · obtain ⟨i, hi, rfl⟩ := List.mem_map.mp hentry
        intro heq
        have := name_numberedRecord_injective heq
        have := List.mem_range.mp hi
        omega
    have hrun : withRecords declaration (n + 1) =
        (withRecords declaration n).withType (numberedRecord n) := by
      rw [← after_of_ok (perform_addType_of_free hfree)]
      simp [withRecords, run, List.range_succ]
    rw [hrun]
    refine ⟨?_, ?_, hunions⟩
    · simp [withType, htypes, List.range_succ, numberedRecord]
    · simp [withType, htypes, hnames, List.range_succ]

theorem sound_withRecords : (withRecords declaration n).Sound := (sound_empty "demo").run _

variable {n} in
/-- Each of the types is found by its name. -/
theorem type?_withRecords {i : Nat} (hi : i < n) :
    (withRecords declaration n).type? (numberedRecord i).name = some (numberedRecord i) := by
  have hentry : (withRecords declaration n).types[i + 1]? = some (numberedRecord i) := by
    rw [(withRecords_eq declaration n).1, List.getElem?_cons_succ, List.getElem?_map,
      List.getElem?_range hi]
    rfl
  have hid : (withRecords declaration n).typeId? (numberedRecord i).name = some (i + 1) :=
    (sound_withRecords declaration n).own_name _ _ hentry
  rw [type?, hid]
  exact hentry

variable {n} in
/-- A union of any number of cases from two on is acceptable. -/
theorem isAcceptableIn_withRecords (h : 2 ≤ n) :
    (numberedUnion n).IsAcceptableIn (withRecords (numberedUnion n) n) := by
  have hfound : (numberedUnion n).cases.filterMap (withRecords (numberedUnion n) n).type? =
      (List.range n).map numberedRecord := by
    have hcases : (numberedUnion n).cases = (List.range n).map fun i => (numberedRecord i).name :=
      rfl
    rw [hcases, List.filterMap_map, ← List.filterMap_eq_map]
    refine List.filterMap_congr ?_
    intro i hi
    exact type?_withRecords _ (List.mem_range.mp hi)
  refine ⟨rfl, by simpa [numberedUnion] using h, ?_, ?_, ?_⟩
  · intro reference hreference
    obtain ⟨i, hi, rfl⟩ := List.mem_map.mp hreference
    rw [type?_withRecords _ (List.mem_range.mp hi)]
    rfl
  · rw [hfound, List.map_map]
    exact List.nodup_range.map fun i j h => Nat.succ.inj h
  · rw [hfound]
    refine List.forall_mem_map.mpr ?_
    intro i _
    exact ⟨rfl, rfl, rfl, rfl, rfl⟩

theorem union?_withRecords :
    (withRecords (numberedUnion n) n).union? "Many" = some (numberedUnion n) := by
  rw [union?, (withRecords_eq _ n).2.2]
  rfl

end Schema.Document

open Schema.Document

/-- Code is emitted for a union of any number of cases from two on. -/
theorem exists_generate_withRecords {n : Nat} (h : 2 ≤ n) (path : String) :
    ∃ g, generate (withRecords (numberedUnion n) n) "Many" path = .ok g := by
  have hvalid := (Union.isFatal_eq_false_iff _).mpr
    (((numberedUnion n).isAcceptable_resolveIn_iff _).mpr (isAcceptableIn_withRecords h))
  rw [generate_of_union? (union?_withRecords n), hvalid]
  exact ⟨_, rfl⟩

/-- The last one of 256 cases has an ordinal that is no byte. -/
theorem not_forall_ordinal_fits :
    ¬ ∀ (scope : String) (ops : List Document.Operation) (name path : String) (g : Generated),
      generate ((Document.empty scope).run ops) name path = .ok g →
        ∀ declaration, ((Document.empty scope).run ops).union? name = some declaration →
          ∀ c ∈ (Shape.named (declaration.resolveIn ((Document.empty scope).run ops)).populate
            path).cases, ∃ b : UInt8, b.toNat = c.ordinal := by
  intro h
  obtain ⟨g, hg⟩ := exists_generate_withRecords (n := 256) (by decide) defaultRuntimePath
  have hfits := h "demo" _ "Many" defaultRuntimePath g hg _ (union?_withRecords 256)
  have hacceptable := isAcceptableIn_withRecords (n := 256) (by decide)
  have htells := hacceptable.tellsOrdinals_shape (sound_withRecords _ 256) defaultRuntimePath
  have hle := htells.fits.mp hfits
  simp [Shape.named, Union.populate, UnionDeclaration.resolveIn, numberedUnion] at hle

end TaggedUnion
