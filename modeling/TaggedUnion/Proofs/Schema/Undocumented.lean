import TaggedUnion.Proofs.Schema.Pieces

/-! # Documents without documentation

    The documentation of constructors is kept and has no say in anything else:

    * **`Document.undocumented`**: a document without the documentation of its constructors.
    * **`Document.addType_undocumented`**, **`Document.addAlias_undocumented`**: the operations
      on a document do to it what they do to the document with documentation, or refuse it with
      the same error.
    * **`State.bound_closeType`**: types that differ in documentation only lead to documents that
      differ in documentation only, or to the same error.
-/

namespace TaggedUnion.Schema

/-- A constructor without its documentation. -/
def Constructor.undocumented (c : Constructor) : Constructor := { c with documentation := none }

/-- A type without the documentation of its constructors. -/
def TypeSymbol.undocumented (t : TypeSymbol) : TypeSymbol :=
  { t with constructors := t.constructors.map Constructor.undocumented }

/-- A document without the documentation of its constructors. -/
def Document.undocumented (d : Document) : Document :=
  { d with types := d.types.map TypeSymbol.undocumented }

/-- A state without the documentation in its document. -/
def State.undocumented (s : State) : State :=
  { s with document := s.document.map Document.undocumented }

namespace Document

@[simp] theorem typeId?_undocumented (d : Document) (name : String) :
    d.undocumented.typeId? name = d.typeId? name := rfl

@[simp] theorem length_types_undocumented (d : Document) :
    d.undocumented.types.length = d.types.length := List.length_map _

theorem addType_undocumented (d : Document) (t : TypeSymbol) :
    d.undocumented.addType t.undocumented =
      (d.addType t).map fun p => (p.1.undocumented, p.2) := by
  have hname : t.undocumented.name = t.name := rfl
  rw [outcome_addType, outcome_addType, hname, typeId?_undocumented, length_types_undocumented]
  cases d.typeId? t.name with
  | some id => rfl
  | none => simp [Except.map, withType, undocumented, TypeSymbol.undocumented]

theorem addAlias_undocumented (d : Document) (name target : String) :
    d.undocumented.addAlias name target =
      (d.addAlias name target).map fun p => (p.1.undocumented, p.2) := by
  rw [outcome_addAlias, outcome_addAlias, typeId?_undocumented, typeId?_undocumented]
  cases d.typeId? name with
  | some id => rfl
  | none => cases d.typeId? target <;> rfl

theorem bindAliases_undocumented (d : Document) (aliases : List (String × String)) :
    d.undocumented.bindAliases aliases = (d.bindAliases aliases).map undocumented := by
  induction aliases generalizing d with
  | nil => rfl
  | cons entry aliases ih =>
    unfold bindAliases at ih ⊢
    rw [List.foldlM_cons, List.foldlM_cons, addAlias_undocumented]
    cases d.addAlias entry.1 entry.2 with
    | error e => rfl
    | ok p => exact ih p.1

end Document

namespace State

theorem bound_closeType_undocumented (s : State) (t : TypeSymbol) :
    s.undocumented.closeType t.undocumented >>= State.bound =
      (s.closeType t >>= State.bound).map Document.undocumented := by
  obtain ⟨document, aliases, place⟩ := s
  cases document with
  | none => rfl
  | some d =>
    show (d.undocumented.addType t.undocumented >>= _) >>= _ =
      ((d.addType t >>= _) >>= _).map _
    rw [Document.addType_undocumented]
    cases d.addType t with
    | error e => rfl
    | ok p => exact p.1.bindAliases_undocumented aliases

/-- A type leads to the same document or error whatever its documentation says. -/
theorem bound_closeType (s : State) {t t' : TypeSymbol} (h : t.undocumented = t'.undocumented) :
    (s.closeType t >>= State.bound).map Document.undocumented =
      (s.closeType t' >>= State.bound).map Document.undocumented := by
  rw [← bound_closeType_undocumented, h, bound_closeType_undocumented]

end State

end TaggedUnion.Schema
