import TaggedUnion.Proofs.Text.Lines
import TaggedUnion.Proofs.Text.Numerals

/-! # Brackets of a text

    A text is read for its round, square and curly brackets, with a stack of the brackets that are
    still awaited:

    * **`awaitedAfter`**: what is awaited behind a text. It is nothing if the text closes a bracket
      that is not the innermost open one.
    * **`IsNested`**: nothing is awaited behind the text that was not before it.
    * **`ReadsTo`**, **`IsNeat`**: texts on one line, which are read from one stack to another or
      are nested. Texts put one behind the other are read one after the other, so that **`ReadsTo`**
      comes with **`ReadsTo.append`** and the texts between brackets with **`IsNeat.between`**.
-/

namespace TaggedUnion.Text

/-! ### Reading brackets -/

/-- The bracket that closes an opening one. -/
def closing? : Char → Option Char
  | '(' => some ')'
  | '[' => some ']'
  | '\x7b' => some '\x7d'
  | _ => none

/-- The characters that are read as brackets. -/
def brackets : List Char := ['(', ')', '[', ']', '\x7b', '\x7d']

/-- What is awaited behind a character: an opening bracket asks for its counterpart, and a closing
    one has to be what is awaited first. -/
def bracketStep (awaited : List Char) (c : Char) : Option (List Char) :=
  match closing? c with
  | some close => some (close :: awaited)
  | none =>
    if c ∈ brackets then
      if awaited.head? = some c then some awaited.tail else none
    else some awaited

/-- What is awaited behind a text. -/
def awaitedAfter (awaited cs : List Char) : Option (List Char) := cs.foldlM bracketStep awaited

/-- Brackets are closed in the text, each by its counterpart and the inner ones first. -/
def IsNested (cs : List Char) : Prop := awaitedAfter [] cs = some []

instance (cs : List Char) : Decidable (IsNested cs) :=
  inferInstanceAs (Decidable (awaitedAfter [] cs = some []))

example : IsNested ['(', '[', ']', ')', '\x7b', '\x7d'] ∧ ¬ IsNested ['(', '[', ')', ']'] := by
  decide

theorem awaitedAfter_cons (a : List Char) (c : Char) (cs : List Char) :
    awaitedAfter a (c :: cs) = (bracketStep a c).bind (awaitedAfter · cs) := by
  simp [awaitedAfter, List.foldlM_cons]

theorem awaitedAfter_append (a cs ds : List Char) :
    awaitedAfter a (cs ++ ds) = (awaitedAfter a cs).bind (awaitedAfter · ds) := by
  simp [awaitedAfter, List.foldlM_append]

theorem bracketStep_of_not_mem {c : Char} (h : c ∉ brackets) (a : List Char) :
    bracketStep a c = some a := by
  have hclose : closing? c = none := by
    unfold closing?
    split <;> simp_all [brackets]
  rw [bracketStep, hclose]
  exact if_neg h

/-- What is awaited below is not looked at. -/
theorem bracketStep_frame {a b : List Char} {c : Char} (h : bracketStep a c = some b)
    (rest : List Char) : bracketStep (a ++ rest) c = some (b ++ rest) := by
  unfold bracketStep at h ⊢
  cases hclose : closing? c with
  | some close =>
    rw [hclose] at h
    obtain rfl := Option.some.inj h
    rfl
  | none =>
    rw [hclose] at h
    by_cases hc : c ∈ brackets
    · simp only [if_pos hc] at h ⊢
      cases a with
      | nil => simp at h
      | cons d a =>
        split at h
        · next hd =>
          obtain rfl := Option.some.inj h
          exact if_pos hd
        · cases h
    · simp only [if_neg hc] at h ⊢
      rw [Option.some.inj h]

theorem awaitedAfter_frame {a b cs : List Char} (h : awaitedAfter a cs = some b)
    (rest : List Char) : awaitedAfter (a ++ rest) cs = some (b ++ rest) := by
  induction cs generalizing a with
  | nil =>
    obtain rfl := Option.some.inj h
    rfl
  | cons c cs ih =>
    rw [awaitedAfter_cons] at h ⊢
    obtain ⟨d, hstep, hcs⟩ := Option.bind_eq_some_iff.mp h
    rw [bracketStep_frame hstep rest]
    exact ih hcs

/-- Only brackets count. -/
theorem awaitedAfter_filter (a cs : List Char) :
    awaitedAfter a (cs.filter (· ∈ brackets)) = awaitedAfter a cs := by
  induction cs generalizing a with
  | nil => rfl
  | cons c cs ih =>
    by_cases hc : c ∈ brackets
    · rw [List.filter_cons_of_pos (by simpa using hc), awaitedAfter_cons, awaitedAfter_cons]
      exact congrArg _ (funext ih)
    · rw [List.filter_cons_of_neg (by simpa using hc), awaitedAfter_cons,
        bracketStep_of_not_mem hc]
      exact ih a

/-- Texts with equal brackets are read alike. -/
theorem awaitedAfter_congr {cs ds : List Char}
    (h : cs.filter (· ∈ brackets) = ds.filter (· ∈ brackets)) (a : List Char) :
    awaitedAfter a cs = awaitedAfter a ds := by
  rw [← awaitedAfter_filter a cs, h, awaitedAfter_filter]

/-! ### Texts on one line -/

/-- Characters of one line, behind which `b` is awaited if `a` is awaited before them. -/
abbrev CharsReadTo (cs a b : List Char) : Prop := '\n' ∉ cs ∧ awaitedAfter a cs = some b

/-- A text on one line, behind which `b` is awaited if `a` is awaited before it. -/
structure ReadsTo (text : String) (a b : List Char) : Prop where
  oneLine : '\n' ∉ text.toList
  reads : awaitedAfter a text.toList = some b

instance (text : String) (a b : List Char) : Decidable (ReadsTo text a b) :=
  decidable_of_iff (CharsReadTo text.toList a b)
    ⟨fun h => ⟨h.1, h.2⟩, fun h => ⟨h.oneLine, h.reads⟩⟩

/-- A text on one line whose brackets are closed in it. -/
abbrev IsNeat (text : String) : Prop := ReadsTo text [] []

variable {x y : String} {a b c : List Char}

theorem ReadsTo.append (hx : ReadsTo x a b) (hy : ReadsTo y b c) : ReadsTo (x ++ y) a c where
  oneLine := by
    rw [String.toList_append, List.mem_append]
    exact not_or.mpr ⟨hx.oneLine, hy.oneLine⟩
  reads := by
    rw [String.toList_append, awaitedAfter_append, hx.reads]
    exact hy.reads

theorem ReadsTo.frame (h : ReadsTo x a b) (rest : List Char) :
    ReadsTo x (a ++ rest) (b ++ rest) :=
  ⟨h.oneLine, awaitedAfter_frame h.reads rest⟩

/-- What is awaited around a neat text stays awaited. -/
theorem IsNeat.readsTo (h : IsNeat x) (a : List Char) : ReadsTo x a a := h.frame a

/-- A neat text between an opening and a closing text. -/
theorem IsNeat.between {opening closing : String} (hx : IsNeat x)
    (hopening : ReadsTo opening [] a) (hclosing : ReadsTo closing a []) :
    IsNeat (opening ++ x ++ closing) :=
  (hopening.append (hx.readsTo a)).append hclosing

/-- A literal text is read from its characters. -/
theorem readsTo_literal {cs : List Char} (h : CharsReadTo cs a b) :
    ReadsTo (String.ofList cs) a b := by
  rw [← String.toList_ofList (l := cs)] at h
  exact ⟨h.1, h.2⟩

theorem isNeat_of_mem_literal {cs : List Char} (h : CharsReadTo cs [] []) :
    ∀ x ∈ [String.ofList cs], IsNeat x :=
  List.forall_mem_singleton.mpr (readsTo_literal h)

/-- A text behind a literal one. -/
theorem ReadsTo.behind {cs : List Char} (hx : ReadsTo x b c) (h : CharsReadTo cs a b) :
    ReadsTo (String.ofList cs ++ x) a c :=
  (readsTo_literal h).append hx

/-- A text before a literal one. -/
theorem ReadsTo.before {cs : List Char} (hx : ReadsTo x a b) (h : CharsReadTo cs b c) :
    ReadsTo (x ++ String.ofList cs) a c :=
  hx.append (readsTo_literal h)

/-- A neat text within a literal one does not change how that one is read. -/
theorem ReadsTo.within {cs ds : List Char} (hx : ReadsTo x [] [])
    (h : CharsReadTo (cs ++ ds) a b) : ReadsTo (String.ofList cs ++ x ++ String.ofList ds) a b := by
  obtain ⟨hline, hreads⟩ := h
  obtain ⟨hcs, hds⟩ := not_or.mp (mt List.mem_append.mpr hline)
  rw [awaitedAfter_append] at hreads
  obtain ⟨d, hfirst, hlast⟩ := Option.bind_eq_some_iff.mp hreads
  exact ((IsNeat.readsTo hx d).behind ⟨hcs, hfirst⟩).before ⟨hds, hlast⟩

theorem isNeat_ite {p : Prop} [Decidable p] (hx : IsNeat x) (hy : IsNeat y) :
    IsNeat (if p then x else y) := by
  split
  · exact hx
  · exact hy

/-- A text that has the brackets of a neat one. -/
theorem IsNeat.of_filter_eq (hx : IsNeat x)
    (hbrackets : y.toList.filter (· ∈ brackets) = x.toList.filter (· ∈ brackets))
    (hline : '\n' ∉ y.toList) : IsNeat y :=
  ⟨hline, (awaitedAfter_congr hbrackets []).trans hx.reads⟩

/-- Neat texts with a neat separator between neighbours. -/
theorem isNeat_intercalate {sep : String} (hsep : IsNeat sep) {xs : List String}
    (h : ∀ x ∈ xs, IsNeat x) : IsNeat (sep.intercalate xs) := by
  induction xs with
  | nil => exact (readsTo_literal (by decide) : IsNeat "")
  | cons x xs ih =>
    have hx : IsNeat x := h x List.mem_cons_self
    cases xs with
    | nil =>
      rw [String.intercalate_singleton]
      exact hx
    | cons y ys =>
      rw [String.intercalate_cons_cons]
      exact (hx.append hsep).append (ih fun z hz => h z (List.mem_cons_of_mem x hz))

/-- A text without brackets and line feeds. -/
theorem isNeat_of_not_mem (hbrackets : ∀ c ∈ x.toList, c ∉ brackets) (hline : '\n' ∉ x.toList) :
    IsNeat x := by
  have hnone : x.toList.filter (· ∈ brackets) = [] :=
    List.filter_eq_nil_iff.mpr fun c hc => by simpa using hbrackets c hc
  exact IsNeat.of_filter_eq (readsTo_literal (by decide) : IsNeat "") hnone hline

/-- A bracket is neither a letter nor a digit, and stays what it is in small form. -/
theorem of_mem_brackets {c : Char} (h : c ∈ brackets) :
    c.isAlpha = false ∧ c.isDigit = false ∧ c.toLower = c := by
  have hall : brackets.all (fun c => !c.isAlpha && !c.isDigit && c.toLower == c) := by decide
  simpa [and_assoc] using List.all_eq_true.mp hall c h

/-- A number is written with digits. -/
theorem isNeat_toString (n : Nat) : IsNeat (toString n) := by
  refine isNeat_of_not_mem ?_ ?_
  · intro c hc hmem
    have hnone := (of_mem_brackets hmem).2.1
    rw [isDigit_of_mem_toString hc] at hnone
    cases hnone
  · intro hc
    cases isDigit_of_mem_toString hc

end TaggedUnion.Text
