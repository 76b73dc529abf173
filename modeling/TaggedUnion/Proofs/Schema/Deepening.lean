import TaggedUnion.Proofs.Schema.Moves

/-! # One more open element

    Inside a definition the reader counts the elements that it does not know. This module says
    that one more of them makes no difference as long as it is open:

    * **`Place.deepen`**: a place with one more element counted in a type, in a constructor or in
      a union, and **`Place.Above`**: the elements that have been opened since stand inside it.
    * **`State.step_deepen`**, **`State.run_deepen`**: the reader does with the element what it
      does without it, until its end tag comes.
    * **`State.run_wrapped_above`**: so an unknown element around a run of content changes nothing.
-/

namespace TaggedUnion.Schema

open TaggedUnion.Xml (Event Tag)

/-- The names of the elements that are known somewhere in a document. -/
def knownLabels : List String :=
  ["unions", "type", "alias", "union", "constructor", "param", "case", "doc"]

/-! ### One more open element -/

/-- What counts elements: a type, a constructor or a union. -/
inductive Level where
  | type | constructor | union
deriving Repr, DecidableEq

/-- The place with one more element counted at a level. -/
def Place.deepen : Level → Place → Place
  | .type, .type t => .type { t with depth := t.depth + 1 }
  | .type, .constructor t c => .constructor { t with depth := t.depth + 1 } c
  | .type, .documentation t c d => .documentation { t with depth := t.depth + 1 } c d
  | .constructor, .constructor t c => .constructor t { c with depth := c.depth + 1 }
  | .constructor, .documentation t c d => .documentation t { c with depth := c.depth + 1 } d
  | .union, .union u => .union { u with depth := u.depth + 1 }
  | _, place => place

/-- The state with one more element counted at a level. -/
def State.deepen (l : Level) (s : State) : State := { s with place := s.place.deepen l }

/-- Of the open elements, the innermost `n` stand inside the element of the level, and what is
    next to them further out is counted at the level, or is its element. -/
def Place.Above : Level → Nat → Place → Prop
  | .type, n, .type t => n ≤ t.depth
  | .type, n, .constructor t c => c.depth < n ∧ n ≤ t.depth + c.depth + 1
  | .type, n, .documentation t c d =>
    c.depth + d.depth + 1 < n ∧ n ≤ t.depth + c.depth + d.depth + 2
  | .constructor, n, .constructor _ c => n ≤ c.depth
  | .constructor, n, .documentation _ c d => d.depth < n ∧ n ≤ c.depth + d.depth + 1
  | .union, n, .union u => n ≤ u.depth
  | _, _, _ => False

/-- What an event does to a number of open elements; no end tag closes another one. -/
inductive Counts : Event → Nat → Nat → Prop
  | start (tag : Tag) (n : Nat) : Counts (.start tag) n (n + 1)
  | close (name : List Char) (n : Nat) : Counts (.close name) (n + 1) n
  | flat {e : Event} (h : e.isFlat) (n : Nat) : Counts e n n

theorem counts_of_enter {e : Event} {opened inner : List (List Char)}
    (h : e.enter opened = .ok inner) : Counts e opened.length inner.length := by
  cases e with
  | start tag =>
    cases h
    exact .start tag opened.length
  | close name =>
    cases opened with
    | nil => cases h
    | cons o outer =>
      obtain rfl : outer = inner := Event.nest_of_enter h
      exact .close name outer.length
  | empty | text | cdata | reference | comment | instruction | doctype =>
    cases h
    exact .flat rfl opened.length

namespace Counts

variable {n n' : Nat}

theorem start_eq {tag : Tag} (h : Counts (.start tag) n n') : n' = n + 1 := by
  cases h with
  | start => rfl
  | flat hflat => cases hflat

theorem close_eq {name : List Char} (h : Counts (.close name) n n') : n = n' + 1 := by
  cases h with
  | close => rfl
  | flat hflat => cases hflat

theorem flat_eq {e : Event} (h : Counts e n n') (hflat : e.isFlat) : n' = n := by
  cases h with
  | flat => rfl
  | start | close => cases hflat

end Counts

section deepen

variable {s s' : State} {l : Level} {e : Event} {n n' : Nat} {t : OpenType} {c : OpenConstructor}
  {d : OpenDocumentation} {u : OpenUnion}

namespace Place.Above

theorem step_type (h : n ≤ t.depth) (hcount : Counts e n n') (hs : TypeMove s t e s')
    (hplace : s.place = .type t) : s'.place.Above .type n' := by
  cases hs with
  | openConstructor =>
    obtain rfl := hcount.start_eq
    exact ⟨Nat.succ_pos n, Nat.succ_le_succ h⟩
  | descend =>
    obtain rfl := hcount.start_eq
    exact Nat.succ_le_succ h
  | wholeConstructor =>
    obtain rfl := hcount.flat_eq rfl
    exact h
  | pass hflat =>
    obtain rfl := hcount.flat_eq hflat
    rw [hplace]
    exact h
  | ascend hdepth =>
    obtain rfl := hcount.close_eq
    rw [hdepth] at h
    exact Nat.le_of_succ_le_succ h
  | leave hdepth =>
    -- The type cannot be left, for an element in it is open.
    obtain rfl := hcount.close_eq
    rw [hdepth] at h
    cases h

theorem step_constructor (h : (Place.constructor t c).Above l n) (hcount : Counts e n n')
    (hs : ConstructorMove s t c e s') (hplace : s.place = .constructor t c) :
    s'.place.Above l n' := by
  cases l with
  | union => cases h
  | type =>
    obtain ⟨habove, hbelow⟩ := h
    cases hs with
    | openDocumentation =>
      obtain rfl := hcount.start_eq
      show c.depth + 0 + 1 < n + 1 ∧ n + 1 ≤ t.depth + c.depth + 0 + 2
      omega
    | openParameter | descend =>
      obtain rfl := hcount.start_eq
      show c.depth + 1 < n + 1 ∧ n + 1 ≤ t.depth + (c.depth + 1) + 1
      omega
    | wholeParameter =>
      obtain rfl := hcount.flat_eq rfl
      exact ⟨habove, hbelow⟩
    | pass hflat =>
      obtain rfl := hcount.flat_eq hflat
      rw [hplace]
      exact ⟨habove, hbelow⟩
    | @ascend _ depth hdepth =>
      obtain rfl := hcount.close_eq
      show depth < n' ∧ n' ≤ t.depth + depth + 1
      omega
    | leave hdepth =>
      obtain rfl := hcount.close_eq
      show n' ≤ t.depth
      omega
  | constructor =>
    have hbelow : n ≤ c.depth := h
    cases hs with
    | openDocumentation =>
      obtain rfl := hcount.start_eq
      exact ⟨Nat.succ_pos n, Nat.succ_le_succ h⟩
    | openParameter | descend =>
      obtain rfl := hcount.start_eq
      exact Nat.succ_le_succ h
    | wholeParameter =>
      obtain rfl := hcount.flat_eq rfl
      exact h
    | pass hflat =>
      obtain rfl := hcount.flat_eq hflat
      rw [hplace]
      exact h
    | ascend hdepth =>
      obtain rfl := hcount.close_eq
      rw [hdepth] at hbelow
      exact Nat.le_of_succ_le_succ hbelow
    | leave hdepth =>
      obtain rfl := hcount.close_eq
      rw [hdepth] at hbelow
      cases hbelow

theorem step_union (h : n ≤ u.depth) (hcount : Counts e n n') (hs : UnionMove s u e s')
    (hplace : s.place = .union u) : s'.place.Above .union n' := by
  cases hs with
  | openCase | descend =>
    obtain rfl := hcount.start_eq
    exact Nat.succ_le_succ h
  | wholeCase =>
    obtain rfl := hcount.flat_eq rfl
    exact h
  | pass hflat =>
    obtain rfl := hcount.flat_eq hflat
    rw [hplace]
    exact h
  | ascend hdepth =>
    obtain rfl := hcount.close_eq
    rw [hdepth] at h
    exact Nat.le_of_succ_le_succ h
  | leave hdepth =>
    obtain rfl := hcount.close_eq
    rw [hdepth] at h
    cases h

theorem step_documentation (h : (Place.documentation t c d).Above l n) (hcount : Counts e n n')
    (s : State) : (s.stepDocumentation t c d e).place.Above l n' := by
  cases l with
  | union => cases h
  | type =>
    obtain ⟨habove, hbelow⟩ := h
    cases e with
    | start tag =>
      obtain rfl := hcount.start_eq
      show c.depth + (d.depth + 1) + 1 < n + 1 ∧ n + 1 ≤ t.depth + c.depth + (d.depth + 1) + 2
      omega
    | close name =>
      obtain rfl := hcount.close_eq
      simp only [State.stepDocumentation]
      split
      · next hdepth =>
        show c.depth < n' ∧ n' ≤ t.depth + c.depth + 1
        omega
      · next hdepth =>
        show c.depth + (d.depth - 1) + 1 < n' ∧ n' ≤ t.depth + c.depth + (d.depth - 1) + 2
        omega
    | empty | text | cdata | reference | comment | instruction | doctype =>
      obtain rfl := hcount.flat_eq rfl
      exact ⟨habove, hbelow⟩
  | constructor =>
    obtain ⟨habove, hbelow⟩ := h
    cases e with
    | start tag =>
      obtain rfl := hcount.start_eq
      show d.depth + 1 < n + 1 ∧ n + 1 ≤ c.depth + (d.depth + 1) + 1
      omega
    | close name =>
      obtain rfl := hcount.close_eq
      simp only [State.stepDocumentation]
      split
      · next hdepth =>
        show n' ≤ c.depth
        omega
      · next hdepth =>
        show d.depth - 1 < n' ∧ n' ≤ c.depth + (d.depth - 1) + 1
        omega
    | empty | text | cdata | reference | comment | instruction | doctype =>
      obtain rfl := hcount.flat_eq rfl
      exact ⟨habove, hbelow⟩

theorem step (h : s.place.Above l n) (hcount : Counts e n n') (hs : s.step e = .ok s') :
    s'.place.Above l n' := by
  cases hplace : s.place with
  | outline =>
    rw [hplace] at h
    cases l <;> cases h
  | type t =>
    rw [hplace] at h
    rw [State.step, hplace] at hs
    cases l with
    | type => exact step_type h hcount (typeMove_of_step hs) hplace
    | constructor | union => cases h
  | constructor t c =>
    rw [hplace] at h
    rw [State.step, hplace] at hs
    exact step_constructor h hcount (constructorMove_of_step hs) hplace
  | documentation t c d =>
    rw [hplace] at h
    rw [State.step, hplace] at hs
    cases hs
    exact step_documentation h hcount s
  | union u =>
    rw [hplace] at h
    rw [State.step, hplace] at hs
    cases l with
    | union => exact step_union h hcount (unionMove_of_step hs) hplace
    | type | constructor => cases h

end Place.Above

namespace State

theorem step_deepen_type (h : n ≤ t.depth) (hcount : Counts e n n') (hplace : s.place = .type t) :
    (s.deepen .type).step e = (s.step e).map (deepen .type) := by
  obtain ⟨document, aliases, place⟩ := s
  cases hplace
  cases e with
  | start tag =>
    simp only [step, deepen, Place.deepen, stepType]
    split
    · cases constructorOf tag <;> rfl
    · rfl
  | empty tag =>
    simp only [step, deepen, Place.deepen, stepType]
    split
    · cases constructorOf tag <;> rfl
    · rfl
  | close name =>
    obtain rfl := hcount.close_eq
    have hdepth : t.depth + 1 - 1 = t.depth - 1 + 1 := by omega
    simp only [step, deepen, Place.deepen, stepType]
    rw [if_neg (by omega), if_neg (by omega), hdepth]
    rfl
  | text | cdata | reference | comment | instruction | doctype => rfl

theorem step_deepen_constructor (h : (Place.constructor t c).Above l n) (hcount : Counts e n n')
    (hplace : s.place = .constructor t c) :
    (s.deepen l).step e = (s.step e).map (deepen l) := by
  obtain ⟨document, aliases, place⟩ := s
  cases hplace
  cases e with
  | start tag =>
    cases l with
    | union => cases h
    | type | constructor =>
      simp only [step, deepen, Place.deepen, stepConstructor]
      split
      · rfl
      · cases parameterOf tag <;> rfl
      · rfl
  | empty tag =>
    cases l with
    | union => cases h
    | type | constructor =>
      simp only [step, deepen, Place.deepen, stepConstructor]
      split
      · cases parameterOf tag <;> rfl
      · rfl
  | close name =>
    cases l with
    | union => cases h
    | type =>
      simp only [step, deepen, Place.deepen, stepConstructor]
      split <;> rfl
    | constructor =>
      obtain rfl := hcount.close_eq
      have hbelow : n' + 1 ≤ c.depth := h
      have hdepth : c.depth + 1 - 1 = c.depth - 1 + 1 := by omega
      simp only [step, deepen, Place.deepen, stepConstructor]
      rw [if_neg (by omega), if_neg (by omega), hdepth]
      rfl
  | text | cdata | reference | comment | instruction | doctype =>
    cases l with
    | union => cases h
    | type | constructor => rfl

theorem step_deepen_documentation (h : (Place.documentation t c d).Above l n)
    (hplace : s.place = .documentation t c d) :
    (s.deepen l).step e = (s.step e).map (deepen l) := by
  obtain ⟨document, aliases, place⟩ := s
  cases hplace
  cases l with
  | union => cases h
  | type | constructor =>
    cases e with
    | close name =>
      simp only [step, deepen, Place.deepen, stepDocumentation]
      split <;> rfl
    | start | empty | text | cdata | reference | comment | instruction | doctype => rfl

theorem step_deepen_union (h : n ≤ u.depth) (hcount : Counts e n n')
    (hplace : s.place = .union u) :
    (s.deepen .union).step e = (s.step e).map (deepen .union) := by
  obtain ⟨document, aliases, place⟩ := s
  cases hplace
  cases e with
  | start tag =>
    simp only [step, deepen, Place.deepen, stepUnion]
    split
    · cases caseOf tag <;> rfl
    · rfl
  | empty tag =>
    simp only [step, deepen, Place.deepen, stepUnion]
    split
    · cases caseOf tag <;> rfl
    · rfl
  | close name =>
    obtain rfl := hcount.close_eq
    have hdepth : u.depth + 1 - 1 = u.depth - 1 + 1 := by omega
    simp only [step, deepen, Place.deepen, stepUnion]
    rw [if_neg (by omega), if_neg (by omega), hdepth]
    rfl
  | text | cdata | reference | comment | instruction | doctype => rfl

/-- As long as one more element is open, a step does with it what it does without it. -/
theorem step_deepen (h : s.place.Above l n) (hcount : Counts e n n') :
    (s.deepen l).step e = (s.step e).map (deepen l) := by
  cases hplace : s.place with
  | outline =>
    rw [hplace] at h
    cases l <;> cases h
  | type t =>
    rw [hplace] at h
    cases l with
    | type => exact step_deepen_type h hcount hplace
    | constructor | union => cases h
  | constructor t c =>
    rw [hplace] at h
    exact step_deepen_constructor h hcount hplace
  | documentation t c d =>
    rw [hplace] at h
    exact step_deepen_documentation h hplace
  | union u =>
    rw [hplace] at h
    cases l with
    | union => exact step_deepen_union h hcount hplace
    | type | constructor => cases h

end State

end deepen

/-! ### Runs -/

section runs

variable {s s' : State} {l : Level} {es : List Event} {opened inner : List (List Char)} {tag : Tag}

namespace State

/-- A run of content that closes none but its own elements stays inside the element of the
    level. -/
theorem above_run (h : s.place.Above l opened.length)
    (hes : es.foldlM Event.enter opened = .ok inner) (hs : es.foldlM step s = .ok s') :
    s'.place.Above l inner.length := by
  induction es generalizing s opened with
  | nil =>
    cases hes
    cases hs
    exact h
  | cons e es ih =>
    rw [List.foldlM_cons] at hes hs
    obtain ⟨next, henter, hes⟩ := exists_of_bind_ok hes
    obtain ⟨s₁, hs₁, hs⟩ := exists_of_bind_ok hs
    exact ih (h.step (counts_of_enter henter) hs₁) hes hs

/-- Such a run does with one more open element what it does without it. -/
theorem run_deepen (h : s.place.Above l opened.length)
    (hes : es.foldlM Event.enter opened = .ok inner) :
    es.foldlM step (s.deepen l) = (es.foldlM step s).map (deepen l) := by
  induction es generalizing s opened with
  | nil => rfl
  | cons e es ih =>
    rw [List.foldlM_cons] at hes
    obtain ⟨next, henter, hes⟩ := exists_of_bind_ok hes
    have hcount := counts_of_enter henter
    rw [List.foldlM_cons, List.foldlM_cons, step_deepen h hcount]
    cases hs₁ : s.step e with
    | error err => rfl
    | ok s₁ => exact ih (h.step hcount hs₁) hes

end State

/-- Where nothing has been opened since, the place is that of the level itself. -/
theorem Place.Above.cases_zero {place : Place} (h : place.Above l 0) :
    (∃ t, l = .type ∧ place = .type t) ∨ (∃ t c, l = .constructor ∧ place = .constructor t c) ∨
      ∃ u, l = .union ∧ place = .union u := by
  cases place with
  | outline => cases l <;> cases h
  | type t =>
    cases l with
    | type => exact .inl ⟨t, rfl, rfl⟩
    | constructor | union => cases h
  | constructor t c =>
    cases l with
    | constructor => exact .inr (.inl ⟨t, c, rfl, rfl⟩)
    | type =>
      obtain ⟨habove, -⟩ := h
      cases habove
    | union => cases h
  | documentation t c d =>
    cases l with
    | type | constructor =>
      obtain ⟨habove, -⟩ := h
      cases habove
    | union => cases h
  | union u =>
    cases l with
    | union => exact .inr (.inr ⟨u, rfl, rfl⟩)
    | type | constructor => cases h

namespace State

/-- The start tag of an unknown element opens it. -/
theorem step_start_unknown (h : s.place.Above l 0) (hlabel : tag.label ∉ knownLabels) :
    s.step (.start tag) = .ok (s.deepen l) := by
  simp only [knownLabels, Tag.label, List.mem_cons, List.not_mem_nil, or_false, not_or] at hlabel
  obtain ⟨-, -, -, -, hconstructor, hparam, hcase, hdoc⟩ := hlabel
  obtain ⟨document, aliases, place⟩ := s
  obtain ⟨t, rfl, hplace⟩ | ⟨t, c, rfl, hplace⟩ | ⟨u, rfl, hplace⟩ := h.cases_zero
  · cases hplace
    exact if_neg hconstructor
  · cases hplace
    simp only [step, stepConstructor, deepen, Place.deepen]
  · cases hplace
    exact if_neg hcase

/-- An end tag closes the one more open element. -/
theorem step_close_deepen (h : s.place.Above l 0) (name : List Char) :
    (s.deepen l).step (.close name) = .ok s := by
  obtain ⟨document, aliases, place⟩ := s
  obtain ⟨t, rfl, hplace⟩ | ⟨t, c, rfl, hplace⟩ | ⟨u, rfl, hplace⟩ := h.cases_zero <;>
    cases hplace <;> rfl

/-- An unknown element around a run of content changes nothing inside a definition. -/
theorem run_wrapped_above (h : s.place.Above l 0) (hlabel : tag.label ∉ knownLabels)
    (hes : es.foldlM Event.enter [] = .ok []) (name : List Char) :
    (.start tag :: (es ++ [.close name])).foldlM step s = es.foldlM step s := by
  have habove : s.place.Above l ([] : List (List Char)).length := h
  have hclose (s' : State) (hs : es.foldlM step s = .ok s') :
      (s'.deepen l).step (.close name) = .ok s' :=
    step_close_deepen (above_run habove hes hs) name
  rw [List.foldlM_cons, step_start_unknown h hlabel]
  show (es ++ [Event.close name]).foldlM step (s.deepen l) = _
  rw [List.foldlM_append, run_deepen habove hes]
  cases hs : es.foldlM step s with
  | error err => rfl
  | ok s' =>
    show ((s'.deepen l).step (.close name) >>= pure) = _
    rw [hclose s' hs]
    rfl

end State

end runs

end TaggedUnion.Schema
