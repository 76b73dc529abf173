import TaggedUnion.Proofs.Emit.Answers
import TaggedUnion.Proofs.OneOf.Splitting
import TaggedUnion.Proofs.Schema.Writer
import TaggedUnion.Proofs.Text.WrittenNumbers

/-! # Collecting values

    The emitted function that splits unions by case makes a vector for each case, goes through the
    unions, and pushes the value of each one onto the vector of its case:

    * **`Vectors`**: the vectors that were made, by their addresses.
    * **`collecting`**: the machine that makes vectors and pushes onto them.
    * **`Shape.collected`**: the vectors when some unions were gone through. One turn of the loop
      adds the value of one union (**`run_turn`**), and so does the whole loop (**`run_loop`**).
    * **`splitsByCase`**: for every number of cases the function returns the parts of the list.
-/

namespace TaggedUnion

open Code Emit

variable {ι : Type} {τ : ι → Type}

/-! ### Vectors -/

namespace Code

/-- Vectors by their addresses, which count from zero in the order in which they were made. -/
abbrev Vectors (τ : ι → Type) := List (List (Value τ))

/-- What names stand for, and expressions come to, where vectors are made. -/
inductive Holding (τ : ι → Type) where
  | value (v : Value τ)
  /-- A list that is passed, or a vector that has no name yet. -/
  | list (vs : List (Value τ))
  /-- A vector that has a name, by its address. -/
  | vector (address : Nat)
  /-- Vectors that are returned together. -/
  | tuple (parts : List (List (Value τ)))

namespace Holding

def value? : Holding τ → Option (Value τ)
  | .value v => some v
  | _ => none

def members? : Holding τ → Option (List (Value τ))
  | .list vs => some vs
  | _ => none

def address? : Holding τ → Option Nat
  | .vector i => some i
  | _ => none

end Holding

/-! ### The machine -/

/-- The name in a binding that can be changed. -/
def mutable? (name : String) : Option String :=
  if "mut ".toList.isPrefixOf name.toList then some (String.ofList (name.toList.drop 4)) else none

/-- The names in a tuple. -/
def tupleNames? (text : String) : Option (List String) :=
  match text.toList with
  | '(' :: rest =>
    if rest.getLast? = some ')' then some (Schema.commaList (String.ofList rest.dropLast)) else none
  | _ => none

/-- What a name stands for. The names in a tuple stand for what their vectors have. -/
def Vectors.read? (vecs : Vectors τ) (names : Names (Holding τ)) (text : String) :
    Option (Holding τ) :=
  match tupleNames? text with
  | some xs =>
    (xs.mapM fun x => ((names.lookup x).bind Holding.address?).bind (vecs[·]?)).map .tuple
  | none => names.lookup text

/-- The machine that makes vectors. A name that is bound to one stands for its address. -/
def collecting : Machine (StateT (Vectors τ) Option) τ (Holding τ) (Holding τ) where
  stuck := failure
  value? := Holding.value?
  ofValue := .value
  members? := Holding.members?
  name names text := fun vecs => (vecs.read? names text).map fun holding => (holding, vecs)
  call _ f xs := if f = "Vec::new" ∧ xs = [] then pure (.list []) else failure
  method names holding f xs := fun vecs =>
    match holding, f, xs with
    | .vector i, "push", [y] =>
      ((names.lookup y).bind Holding.value?).map fun v =>
        (.value .unit, vecs.modify i (· ++ [v]))
    | _, _, _ => none
  bind names x holding := fun vecs =>
    (mutable? x).bind fun y => holding.members?.map fun vs =>
      ((y, .vector vecs.length) :: names, vecs ++ [vs])
  discard _ := pure ()

theorem mutable?_append (x : String) : mutable? ("mut " ++ x) = some x := by
  simp [mutable?]

/-- The names that a tuple is written with are read back. -/
theorem tupleNames?_tuple {xs : List String} (h : ∀ x ∈ xs, Schema.IsListed x) :
    tupleNames? (tuple xs) = some xs := by
  have hnames : Schema.commaList (commaSeparated xs) = xs := by
    by_cases hnil : xs = []
    · subst hnil
      decide
    · exact Schema.commaList_intercalate h hnil
  have htuple : (tuple xs).toList = '(' :: ((commaSeparated xs).toList ++ [')']) := by
    simp [tuple]
  rw [tupleNames?, htuple]
  simp [hnames]

theorem Vectors.read?_tuple (vecs : Vectors τ) (names : Names (Holding τ)) {xs : List String}
    (h : ∀ x ∈ xs, Schema.IsListed x) : vecs.read? names (tuple xs) =
      (xs.mapM fun x => ((names.lookup x).bind Holding.address?).bind (vecs[·]?)).map .tuple := by
  rw [read?, tupleNames?_tuple h]

theorem run_bind_of_run {α β : Type} {x : StateT (Vectors τ) Option α} {vecs after : Vectors τ}
    {a : α} (h : x.run vecs = some (a, after)) (f : α → StateT (Vectors τ) Option β) :
    (x >>= f).run vecs = (f a).run after := by
  rw [StateT.run_bind, h]
  rfl

/-- A value is put behind those of the vector that a name stands for. -/
theorem run_push {names : Names (Holding τ)} {x y : String} (hx : '(' ∉ x.toList) {i : Nat}
    (hi : names.lookup x = some (.vector i)) {v : Value τ} (hv : names.lookup y = some (.value v))
    (vecs : Vectors τ) :
    ((Expr.method (.name x) "push" [y]).run collecting names).run vecs =
      some (.value .unit, vecs.modify i (· ++ [v])) := by
  have htuple : tupleNames? x = none := by
    rw [tupleNames?.eq_def]
    split
    case h_1 heq => exact absurd (heq ▸ List.mem_cons_self) hx
    case h_2 => rfl
  have hname : ((Expr.name x).run collecting names).run vecs = some (.vector i, vecs) := by
    show (vecs.read? names x).map _ = _
    rw [Vectors.read?, htuple, hi]
    rfl
  have hpush : (collecting.method names (.vector i) "push" [y]).run vecs =
      some (.value .unit, vecs.modify i (· ++ [v])) := by
    show ((names.lookup y).bind Holding.value?).map _ = _
    rw [hv]
    rfl
  rw [Expr.run_method, run_bind_of_run hname]
  exact hpush

/-- Names that are bound to vectors one after the other. -/
def vectorNames (address : Nat) (xs : List String) : Names (Holding τ) :=
  (xs.zip ((List.range' address xs.length).map Holding.vector)).reverse

/-- Vectors that are made one after the other are there, and empty. -/
theorem runBody_vectors (names : Names (Holding τ)) (vecs : Vectors τ) (xs : List String)
    (rest : List Statement) :
    (runBody collecting names
        (xs.map (fun x => .bind ("mut " ++ x) (.call "Vec::new" [])) ++ rest)).run vecs =
      (runBody collecting (vectorNames vecs.length xs ++ names) rest).run
        (vecs ++ List.replicate xs.length []) := by
  induction xs generalizing names vecs with
  | nil => simp [vectorNames]
  | cons x xs ih =>
    -- The first name is bound to the address behind all vectors that are there.
    have hnew : ((Expr.call "Vec::new" []).run collecting names).run vecs =
        some (.list [], vecs) := rfl
    have hbound : (collecting.bind names ("mut " ++ x) (.list [])).run vecs =
        some ((x, .vector vecs.length) :: names, vecs ++ [[]]) := by
      show (mutable? ("mut " ++ x)).bind _ = _
      rw [mutable?_append]
      rfl
    have hnames : vectorNames vecs.length (x :: xs) ++ names =
        vectorNames (vecs ++ [[]]).length xs ++ (x, Holding.vector vecs.length) :: names := by
      simp [vectorNames, List.range'_succ]
    have hvecs : vecs ++ List.replicate (x :: xs).length [] =
        (vecs ++ [[]]) ++ List.replicate xs.length [] := by
      simp [List.replicate_succ]
    rw [List.map_cons, List.cons_append, runBody_bind, hnames, hvecs, ← ih]
    exact (run_bind_of_run hnew _).trans (run_bind_of_run hbound _)

end Code

/-! ### The loop -/

namespace Shape

variable (s : Shape) {n : Nat} (ts : Fin n → ι)

/-- What the function that splits unions by case returns for a list. -/
def split (vs : List (Value τ)) : Option (List (List (Value τ))) :=
  ((Family.partition.ownFunctions s).find? (·.name = "partition")).bind fun f =>
    match (f.run collecting [.list vs]).run [] with
    | some (.tuple parts, _) => some parts
    | _ => none

/-- The vectors when some unions were gone through: each has the values of its case. -/
def collected (seen : List (OneOf fun k => τ (ts k))) : Vectors τ :=
  List.ofFn fun k => (OneOf.partition seen k).map fun a => .plain ⟨ts k, a⟩

/-- The names in the loop. -/
def loopNames (vs : List (Value τ)) : Names (Holding τ) :=
  vectorNames 0 s.stems ++ [("items", .list vs)]

/-- The names of the cases can be names of vectors: they can be told apart in a tuple, they are no
    tuples themselves, and no other name in the function hides them. -/
def HasVectors : Prop :=
  ∀ stem ∈ s.stems, Schema.IsListed stem ∧ '(' ∉ stem.toList ∧
    stem ∉ ["item", "items", s.binding]

/-- The arms of the loop. -/
def pushArms : List Arm :=
  s.cases.map fun c => arm s c (.method (.name c.stem) "push" [s.binding])

/-- A union adds its value to the vector of its case. -/
theorem collected_concat (seen : List (OneOf fun k => τ (ts k))) (u : OneOf fun k => τ (ts k)) :
    collected ts (seen ++ [u]) =
      (collected ts seen).modify u.index (· ++ [.plain ⟨ts u.index, u.value⟩]) := by
  refine List.ext_getElem (by simp [collected]) ?_
  intro i hi hi'
  -- The part of a case grows by what is found for it in the union, which is nothing but in one.
  rw [List.getElem_modify]
  simp only [collected, List.getElem_ofFn, OneOf.partition_append, OneOf.partition_cons,
    OneOf.partition_nil]
  split
  case isTrue hk =>
    have hindex : u.index = ⟨i, by simpa [collected] using hi⟩ := Fin.ext hk
    rw [← hindex, OneOf.get?_index]
    simp
  case isFalse hk =>
    have hindex : u.index ≠ ⟨i, by simpa [collected] using hi⟩ := fun heq => hk (congrArg _ heq)
    rw [OneOf.get?_other hindex]
    simp

namespace IsApart

variable {s ts} (h : s.IsApart n) (hs : s.HasVectors)
include h

theorem stem_mem (k : Fin n) : (s.caseAt k).stem ∈ s.stems :=
  List.mem_map_of_mem (h.caseAt_mem k)

theorem length_stems : s.stems.length = n := by
  rw [stems, List.length_map, h.length]

include hs

/-- No name in the loop is bound twice. -/
theorem nodup_loopNames (vs : List (Value τ)) : ((s.loopNames vs).map (·.1)).Nodup := by
  have hkeys : (s.loopNames vs).map (·.1) = s.stems.reverse ++ ["items"] := by
    rw [loopNames, vectorNames, List.map_append, List.map_reverse, List.map_fst_zip (by simp)]
    rfl
  rw [hkeys, List.nodup_append]
  refine ⟨List.nodup_reverse.mpr h.stems_nodup, List.nodup_singleton _, ?_⟩
  intro stem hstem y hy heq
  have hname := (hs stem (List.mem_reverse.mp hstem)).2.2
  obtain rfl := List.mem_singleton.mp hy
  exact hname (heq ▸ List.mem_cons_of_mem _ List.mem_cons_self)

theorem lookup_items (vs : List (Value τ)) :
    (s.loopNames vs).lookup "items" = some (.list vs) :=
  lookup_eq_some_of_mem (h.nodup_loopNames hs vs)
    (List.mem_append_right _ (List.mem_singleton_self _))

/-- The name of a case stands for its vector. -/
theorem lookup_stem (vs : List (Value τ)) (k : Fin n) :
    (s.loopNames vs).lookup (s.caseAt k).stem = some (.vector k) := by
  refine lookup_eq_some_of_mem (h.nodup_loopNames hs vs) (List.mem_append_left _ ?_)
  rw [vectorNames, List.mem_reverse, List.mem_iff_getElem]
  have hk : k.val < s.stems.length := by simp [h.length_stems]
  have hk' : k.val < s.cases.length := by simp [h.length]
  refine ⟨k, by simpa using hk, ?_⟩
  simp [stems, caseAt, hk']

/-- One turn of the loop adds the value of one union. -/
theorem run_turn (vs : List (Value τ)) (seen : List (OneOf fun k => τ (ts k)))
    (u : OneOf fun k => τ (ts k)) :
    ((Statement.dispatch "item" s.pushArms).perform collecting
        (("item", .value (s.encode ts u)) :: s.loopNames vs)).run (collected ts seen) =
      some ((), collected ts (seen ++ [u])) := by
  -- The name of the vector is not hidden in the arm.
  obtain ⟨-, hparen, hnames⟩ := hs _ (h.stem_mem u.index)
  simp only [List.mem_cons, List.not_mem_nil, or_false, not_or] at hnames
  obtain ⟨hitem, -, hbinding⟩ := hnames
  have hvector : List.lookup (s.caseAt u.index).stem
      ((s.binding, .value (.plain ⟨ts u.index, u.value⟩)) ::
        ("item", .value (s.encode ts u)) :: s.loopNames vs) = some (.vector u.index) := by
    rw [List.lookup_cons, beq_false_of_ne hbinding, List.lookup_cons, beq_false_of_ne hitem]
    exact h.lookup_stem hs vs u.index
  have hself : collecting.valueOf? (("item", .value (s.encode ts u)) :: s.loopNames vs) "item" =
      some (s.encode ts u) := rfl
  have hpush := run_push hparen hvector List.lookup_cons_self (collected ts seen)
  have harm : (dispatch collecting (("item", .value (s.encode ts u)) :: s.loopNames vs) "item"
      s.pushArms).run (collected ts seen) = some (.value .unit, collected ts (seen ++ [u])) := by
    rw [collected_concat, ← hpush]
    exact congrArg (·.run (collected ts seen)) (h.dispatch_eq hself s.binding _)
  rw [Statement.perform, run_bind_of_run harm]
  rfl

/-- The loop adds the values of all unions that it goes through. -/
theorem run_loop (vs : List (Value τ)) (seen us : List (OneOf fun k => τ (ts k))) :
    (forM (us.map (s.encode ts)) fun v => (Statement.dispatch "item" s.pushArms).perform collecting
        (("item", .value v) :: s.loopNames vs)).run (collected ts seen) =
      some ((), collected ts (seen ++ us)) := by
  induction us generalizing seen with
  | nil => simp
  | cons u us ih =>
    have hrest := ih (seen ++ [u])
    rw [List.append_assoc, List.singleton_append] at hrest
    rw [List.map_cons, List.forM_cons, run_bind_of_run (h.run_turn hs vs seen u)]
    exact hrest

/-! ### The function -/

omit h hs in
theorem body_partitionFunction : (partitionFunction s).body = some
    (s.stems.map (fun x => .bind ("mut " ++ x) (.call "Vec::new" [])) ++
      [.within (.forEach "item" "items") (.dispatch "item" s.pushArms),
        .value (.name (tuple s.stems))]) := by
  simp [partitionFunction, stems, pushArms, Function.comp_def]

omit hs in
/-- The vectors are empty when the loop begins. -/
theorem collected_nil (ts : Fin n → ι) :
    collected ts [] = List.replicate s.stems.length ([] : List (Value τ)) := by
  rw [h.length_stems, collected]
  simp [OneOf.partition_nil]

/-- Behind the loop the names in the tuple stand for the parts of the list. -/
theorem read?_tuple_collected (vs : List (Value τ)) (us : List (OneOf fun k => τ (ts k))) :
    (collected ts us).read? (s.loopNames vs) (tuple s.stems) =
      some (.tuple (collected ts us)) := by
  have hparts : s.stems.mapM (fun x => (((s.loopNames vs).lookup x).bind Holding.address?).bind
      ((collected ts us)[·]?)) = some (collected ts us) := by
    refine mapM_eq_some_of_forall₂ ?_
    rw [List.forall₂_iff_get]
    refine ⟨by simp [h.length_stems, collected], ?_⟩
    intro i hi hi'
    have hstem : s.stems.get ⟨i, hi⟩ = (s.caseAt i).stem := by
      have hi : i < s.cases.length := by simpa [stems] using hi
      simp [stems, caseAt, hi]
    have hlookup := h.lookup_stem hs vs ⟨i, by simpa [collected] using hi'⟩
    rw [hstem, hlookup]
    simp [Holding.address?, List.getElem?_eq_getElem hi']
  rw [Vectors.read?_tuple _ _ fun x hx => (hs x hx).1, hparts]
  rfl

/-- The function returns the parts of the list. -/
theorem split_encode (us : List (OneOf fun k => τ (ts k))) :
    s.split (us.map (s.encode ts)) =
      some (List.ofFn fun k => (OneOf.partition us k).map fun a => .plain ⟨ts k, a⟩) := by
  have hrun : ((partitionFunction s).run collecting [.list (us.map (s.encode ts))]).run [] =
      some (.tuple (collected ts us), collected ts us) := by
    have hbody : (partitionFunction s).run collecting [.list (us.map (s.encode ts))] =
        runBody collecting [("items", .list (us.map (s.encode ts)))] _ :=
      Function.run_plain _ body_partitionFunction rfl rfl
    have hblock : ((BlockHead.forEach "item" "items").run collecting
        (s.loopNames (us.map (s.encode ts))) fun names =>
          (Statement.dispatch "item" s.pushArms).perform collecting names).run
            (collected ts []) = some ((), collected ts us) := by
      rw [BlockHead.run, h.lookup_items hs]
      exact h.run_loop hs _ [] us
    -- The vectors are made, the loop fills them, and the tuple reads them.
    rw [hbody, runBody_vectors, List.nil_append, ← h.collected_nil ts]
    refine (run_bind_of_run hblock _).trans ?_
    show ((collected ts us).read? (s.loopNames _) (tuple s.stems)).map _ = _
    rw [h.read?_tuple_collected hs]
    rfl
  show (match ((partitionFunction s).run collecting [.list (us.map (s.encode ts))]).run [] with
    | some (.tuple parts, _) => some parts
    | _ => none) = _
  rw [hrun]
  rfl

end IsApart

/-- The names of generic cases have letters and digits only. -/
theorem hasVectors_generic (n : Nat) (path : String) : (generic n path).HasVectors := by
  intro stem hstem
  obtain ⟨c, hc, rfl⟩ := List.mem_map.mp hstem
  obtain ⟨i, -, rfl⟩ := List.mem_map.mp hc
  have hchars : ∀ c ∈ ("case" ++ toString i).toList,
      Text.isBlank c = false ∧ c ≠ ',' ∧ c ≠ '(' := by
    intro c hc
    rw [String.toList_append, List.mem_append] at hc
    rcases hc with hletter | hdigit
    · have hall : "case".toList.all (fun c => !Text.isBlank c && c != ',' && c != '(') = true := by
        decide
      simpa [and_assoc] using List.all_eq_true.mp hall c hletter
    · have hdigit : c.isDigit = true := Text.isDigit_of_mem_toString hdigit
      refine ⟨Text.isBlank_of_isDigit hdigit, ?_, ?_⟩
      · rintro rfl
        exact absurd hdigit (by decide)
      · rintro rfl
        exact absurd hdigit (by decide)
  have hname {name : String} (hp : ¬ "case".toList <+: name.toList)
      (hq : ¬ name.toList <+: "case".toList) : "case" ++ toString i ≠ name := by
    have := append_ne_append hp hq (toString i) ""
    rwa [String.append_empty] at this
  have hne : ("case" ++ toString i).toList ≠ [] := by simp
  have hempty : "case" ++ toString i ≠ "" := fun hempty => hne (by rw [hempty]; rfl)
  have htrim : Text.trim ("case" ++ toString i) = "case" ++ toString i := by
    have hstrip : Text.strip Text.isBlank ([] ++ ("case" ++ toString i).toList ++ []) = _ :=
      Text.strip_append (by simp) hne fun c hc => (hchars c hc).1
    rw [List.nil_append, List.append_nil] at hstrip
    rw [Text.trim, hstrip, String.ofList_toList]
  have hheld : "case" ++ toString i ≠ Schema.heldName := hname (by decide) (by decide)
  refine ⟨⟨hempty, fun hcomma => (hchars ',' hcomma).2.1 rfl, htrim⟩,
    fun hparen => (hchars '(' hparen).2.2 rfl, ?_⟩
  simp only [List.mem_cons, List.not_mem_nil, or_false, not_or]
  exact ⟨hname (by decide) (by decide), hname (by decide) (by decide), hheld⟩

/-! ### All lists -/

/-- What is emitted for a shape to split unions of the case types `ts`. -/
structure Splits (s : Shape) (τ : ι → Type) (ts : Fin n → ι) : Prop where
  /-- A vector for each case is returned, in the order of the cases, with the values that are
      found for the case, in the order of the list. -/
  parts (us : List (OneOf fun k => τ (ts k))) : s.split (us.map (s.encode ts)) =
    some (List.ofFn fun k => (us.filterMap (·.get? k)).map fun a => .plain ⟨ts k, a⟩)
  length (us : List (OneOf fun k => τ (ts k))) :
    (s.split (us.map (s.encode ts))).map (fun parts => (parts.map List.length).sum) =
      some us.length
  append (us vs : List (OneOf fun k => τ (ts k))) :
    s.split ((us ++ vs).map (s.encode ts)) = do
      let before ← s.split (us.map (s.encode ts))
      let after ← s.split (vs.map (s.encode ts))
      return List.zipWith (· ++ ·) before after

theorem IsApart.splits {s : Shape} (h : s.IsApart n) (hs : s.HasVectors) : s.Splits τ ts where
  parts us := by
    simp only [← OneOf.partition_eq]
    exact h.split_encode hs us
  length us := by
    rw [h.split_encode hs, Option.map_some, List.map_ofFn, List.sum_ofFn]
    simpa using OneOf.sum_length_partition us
  append us vs := by
    rw [h.split_encode hs, h.split_encode hs, h.split_encode hs]
    simp [OneOf.partition_append, List.ofFn_eq_map, List.zipWith_map]

end Shape

/-- The emitted function that splits generic unions of any number of cases, and the one that they
    have at run time, return for each case the held values of the unions with its tag, in the
    order of the list. Nothing is lost or comes twice, and the parts of a list that is put together
    from two are put together from theirs. -/
theorem splitsByCase :
    (∀ {ι : Type} (τ : ι → Type) (n : Nat) (path : String) (ts : Fin n → ι),
      (Shape.generic n path).Splits τ ts) ∧
    ∀ (n : Nat) (α : Fin n → Type), OneOf.Splits α := by
  refine ⟨?_, fun n α => OneOf.splits α⟩
  intro ι τ n path ts
  exact (Shape.isApart_generic n path).splits ts (Shape.hasVectors_generic n path)

end TaggedUnion
