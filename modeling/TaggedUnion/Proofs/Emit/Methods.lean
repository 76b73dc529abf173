import TaggedUnion.Proofs.Emit.FunctionNames
import TaggedUnion.Proofs.Emit.Lines

/-! # Methods that give up the union

    The functions of dispatches and transforms are methods of one form: public, called with the
    union itself, with one parameter a line and a body. This module says so once, for the modules
    that tell what such methods do:

    * **`Function.IsConsuming`**: the form, and **`Function.IsConsuming.lines_eq`** its text.
    * **`Family.ownFunctions`**, **`Family.pendingFunctions`**: the functions that a family adds
      to the union itself, and those of the traits that it declares.
    * **`IsDispatch.isConsuming`**, **`Transform.isConsuming_full`**,
      **`Transform.isConsuming_single`**: the emitters have this form, each with one dispatch on
      the union for a body.
-/

namespace TaggedUnion

open Code Emit

/-! ### The form of a method -/

namespace Code.Function

/-- A public method that is called with the value itself, with one parameter a line and a
    body. -/
structure IsConsuming (f : Function) (body : List Statement) : Prop where
  isPublic : f.isPublic = true
  isConst : f.isConst = false
  receiver : f.receiver = some "self"
  spread : f.spread = true
  body_eq : f.body = some body

/-- The mark of an asynchronous function. -/
def asyncMark (f : Function) : String := if f.isAsync then "async " else ""

/-- The name of a function with its type parameters, up to the bracket before the parameters. -/
def head (f : Function) : String := "fn " ++ f.name ++ f.typeParameters.text ++ "("

/-- The parameters of a method that is called with the value itself, one a line. -/
def parameterLines (f : Function) : List Line :=
  nest (line "self," :: f.parameters.map fun p => line (p.1 ++ ": " ++ p.2 ++ ","))

/-- The text of a function that has a line for each parameter. -/
theorem lines_of_spread {f : Function} (hspread : f.spread = true)
    (hreceiver : f.receiver = some "self") {body : List Statement} (hbody : f.body = some body) :
    f.lines = leadLines f.docs f.attributes ++
      (line f.opening :: f.parameterLines ++
        boundedBlock f.closing f.bounds (body.flatMap Statement.lines)) := by
  have hparameters : nest (f.parameterTexts.map fun p => line (p ++ ",")) = f.parameterLines := by
    rw [parameterTexts, hreceiver, parameterLines]
    simp only [Option.toList_some, List.singleton_append, List.map_cons, List.map_map]
    rfl
  unfold lines
  rw [hspread, hbody, hparameters]
  rfl

variable {f : Function} {body : List Statement}

theorem IsConsuming.lines_eq (h : f.IsConsuming body) :
    f.lines = leadLines f.docs f.attributes ++
      (line ("pub " ++ f.asyncMark ++ f.head) :: f.parameterLines ++
        boundedBlock f.closing f.bounds (body.flatMap Statement.lines)) := by
  have hopening : f.opening = "pub " ++ f.asyncMark ++ f.head := by
    simp [opening, h.isPublic, h.isConst, asyncMark, head, String.append_assoc]
  rw [lines_of_spread h.spread h.receiver h.body_eq, hopening]

end Code.Function

/-! ### What a family declares -/

namespace Family

/-- The functions that a family adds to the union itself. -/
def ownFunctions (f : Family) (s : Shape) : List Function :=
  (f.items s).flatMap Item.ownFunctions

/-- The functions of the traits that a family declares. -/
def pendingFunctions (f : Family) (s : Shape) : List Function :=
  ((f.items s).flatMap Item.traits).flatMap (·.functions)

/-- The family writes a function, one block further in. -/
def Emits (f : Family) (s : Shape) (m : Function) : Prop :=
  ∃ before after, f.text s = renderLines (before ++ nest m.lines ++ after)

end Family

theorem Code.isInfix_boundedBlock (head : String) (bounds : Option (List Bound))
    (body : List Line) : nest body <:+: boundedBlock head bounds body := by
  cases bounds with
  | none => exact ⟨[line (head ++ " \x7b")], [line "\x7d"], rfl⟩
  | some bs =>
    exact ⟨line head :: boundLines bs ++ [line "\x7b"], [line "\x7d"], by simp [boundedBlock]⟩

/-- What is nested keeps its place. -/
theorem Code.isInfix_nest {ls ms : List Line} (h : ls <:+: ms) : nest ls <:+: nest ms :=
  h.map Line.nest

/-- A function of the union itself is written as a whole. -/
theorem Family.emits_of_mem_ownFunctions {f : Family} {s : Shape} {m : Function}
    (h : m ∈ f.ownFunctions s) : f.Emits s m := by
  obtain ⟨item, hitem, hm⟩ := List.mem_flatMap.mp h
  cases item with
  | imports | enum | trait => cases hm
  | implementation i =>
    have hfunctions : m ∈ i.functions := by
      rw [Item.ownFunctions] at hm
      split at hm
      · exact hm
      · cases hm
    -- From the function outwards: the functions, the block, the item, and all items.
    have hblock : nest m.lines <:+: i.lines := by
      have hm : m.lines <:+: functionLines i.functions :=
        infix_intercalate (List.mem_map_of_mem hfunctions)
      refine (isInfix_nest (hm.trans ?_)).trans (isInfix_boundedBlock ..)
      exact ⟨_, _, rfl⟩
    have hitems : i.lines <:+: (f.items s).flatMap Item.lines := by
      obtain ⟨before, after, hsplit⟩ := List.append_of_mem hitem
      rw [hsplit, List.flatMap_append, List.flatMap_cons, Item.lines]
      exact ⟨before.flatMap Item.lines, [Line.blank] ++ after.flatMap Item.lines, by simp⟩
    obtain ⟨before, after, hlines⟩ := hblock.trans hitems
    exact ⟨before, after, by rw [Family.text, render, hlines]⟩

namespace Emit

variable (s : Shape)

theorem traits_withPending (name title : String) (functions pending : List Function) :
    (withPending s name title functions pending).flatMap Item.traits =
      [pendingTrait s name title pending] := by
  simp [withPending, Item.traits]

/-! ### The emitters of such methods -/

/-- A method that matches or switches: a dispatching function with a name and documentation. -/
def IsDispatch (isAsync : Bool) (m : Function) : Prop :=
  ∃ stem result name docs,
    m = { dispatchFunction s stem result isAsync with name := name, docs := docs }

theorem isDispatch_of_mem_matchFunctions {m : Function} (h : m ∈ matchFunctions s) :
    ∃ isAsync, IsDispatch s isAsync m := by
  simp only [matchFunctions, List.mem_cons, List.not_mem_nil, or_false] at h
  rcases h with rfl | rfl
  · exact ⟨false, "match", some (s.fresh "R"), "match_with", _, rfl⟩
  · exact ⟨true, "match", some (s.fresh "R"), _, _, rfl⟩

theorem isDispatch_of_mem_switchFunctions {m : Function} (h : m ∈ switchFunctions s) :
    ∃ isAsync, IsDispatch s isAsync m := by
  simp only [switchFunctions, List.mem_cons, List.not_mem_nil, or_false] at h
  rcases h with rfl | rfl
  · exact ⟨false, "switch", none, _, _, rfl⟩
  · exact ⟨true, "switch", none, _, _, rfl⟩

variable {s} in
theorem IsDispatch.isConsuming {isAsync : Bool} {m : Function} (h : IsDispatch s isAsync m) :
    m.IsConsuming [.dispatch "self" (s.cases.map (handlerArm s isAsync))] := by
  obtain ⟨stem, result, name, docs, rfl⟩ := h
  exact ⟨rfl, rfl, rfl, rfl, rfl⟩

namespace Transform

variable (t : Transform)

/-- The arm of a case in the method with a handler for each case. -/
def fullArm (isAsync : Bool) (c : ShapeCase) : Arm :=
  arm s c (t.rebuild s c (awaitedIf isAsync (.call (handlerName c) [s.binding])))

theorem isConsuming_full (isAsync : Bool) :
    (t.full s isAsync).IsConsuming
      [.dispatch "self" (s.cases.map (t.fullArm s isAsync))] :=
  ⟨rfl, rfl, rfl, rfl, rfl⟩

theorem isConsuming_single (position : Nat) (target : ShapeCase) (isAsync : Bool) :
    (t.single s position target isAsync).IsConsuming
      [.dispatch "self" (s.cases.map (t.caseArm s isAsync target))] :=
  ⟨rfl, rfl, rfl, rfl, rfl⟩

/-- The methods of a transform are the ones for all cases and those for one case. -/
theorem mem_methods_iff {m : Method} :
    m ∈ t.methods s ↔
      (∃ isAsync, m = t.fullMethod s isAsync) ∨
        ∃ i, ∃ h : i < s.cases.length, ∃ isAsync, m = t.singleMethod s i s.cases[i] isAsync := by
  have hsingles : m ∈ (s.cases.mapIdx fun i c =>
      [t.singleMethod s i c false, t.singleMethod s i c true]).flatten ↔
        ∃ i, ∃ h : i < s.cases.length, ∃ isAsync, m = t.singleMethod s i s.cases[i] isAsync := by
    simp [List.mem_flatten, List.mem_mapIdx, Bool.exists_bool]
  rw [methods, List.mem_append, hsingles]
  simp [Bool.exists_bool]

theorem mem_functions_iff {f : Function} :
    f ∈ t.functions s ↔
      (∃ isAsync, f = t.full s isAsync) ∨
        ∃ i, ∃ h : i < s.cases.length, ∃ isAsync, f = t.single s i s.cases[i] isAsync := by
  rw [functions, List.mem_map]
  constructor
  · rintro ⟨m, hm, rfl⟩
    rcases (t.mem_methods_iff s).mp hm with ⟨isAsync, rfl⟩ | ⟨i, hi, isAsync, rfl⟩
    · exact .inl ⟨isAsync, rfl⟩
    · exact .inr ⟨i, hi, isAsync, rfl⟩
  · rintro (⟨isAsync, rfl⟩ | ⟨i, hi, isAsync, rfl⟩)
    · exact ⟨_, (t.mem_methods_iff s).mpr (.inl ⟨isAsync, rfl⟩), rfl⟩
    · exact ⟨_, (t.mem_methods_iff s).mpr (.inr ⟨i, hi, isAsync, rfl⟩), rfl⟩

/-- The functions that a transform adds to the union. -/
theorem ownFunctions_eq {f : Family} (hitems : f.items s = t.items s) :
    f.ownFunctions s = t.functions s := by
  rw [Family.ownFunctions, hitems, items, s.ownFunctions_withPending]

end Transform

end Emit

/-! ### The names of transforms -/

namespace Shape

/-- The names of the methods of a transform for one case. -/
def singleNames (s : Shape) (t : Transform) : List String :=
  s.cases.flatMap fun c => [t.stem ++ "_" ++ c.stem, t.stem ++ "_" ++ c.stem ++ "_async"]

/-- The names of the methods of a transform: for all cases, then for each one. -/
def transformNames (s : Shape) (t : Transform) : List String :=
  [t.stem, t.stem ++ "_async"] ++ s.singleNames t

theorem map_name_functions (s : Shape) (t : Transform) :
    (t.functions s).map (·.name) = s.transformNames t := by
  rw [transformNames_eq, namesBehind, rests, transformNames, singleNames, stems]
  simp [Head.text, List.flatMap_map, List.map_flatMap, String.append_assoc]

example : (generic 2 defaultRuntimePath).transformNames .bind =
    ["bind", "bind_async", "bind_case1", "bind_case1_async", "bind_case2", "bind_case2_async"] := by
  decide

end Shape

end TaggedUnion
