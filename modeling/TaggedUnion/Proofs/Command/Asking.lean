import TaggedUnion.Proofs.Command.Refusals
import TaggedUnion.Proofs.Text.WrittenNumbers

/-! # The first answer counts

    The greatest arity is asked for line by line. This module tells what comes of that from the
    lines alone:

    * **`Enters`**: a line is a writing of a number in range.
    * **`IsRefused`**: a line is text, and enters no number.
    * **`exists_first`**: where not all lines are refused, there is a first one that is not.
    * **`askArity_takesFirst`**: that line decides. Each line before it is answered by the same
      reply, and the lines behind it are not read.
-/

namespace TaggedUnion.Command

/-! ### Lines -/

/-- The bytes of the line are those of a text. -/
def IsText (l : InputLine) : Prop := ∃ t : String, l.toByteArray = t.toUTF8

/-- The line is a number in range, written with digits, maybe with a plus sign before them, and
    with blanks around it. -/
def Enters (l : InputLine) (n : Nat) : Prop :=
  minArity ≤ n ∧ n ≤ maxArity ∧
    ∃ (t : String) (w : Text.Writing), l.toByteArray = t.toUTF8 ∧ t.toList = w.chars ∧ w.IsOf n

/-- The line is text, but not that of a number in range. -/
structure IsRefused (l : InputLine) : Prop where
  isText : IsText l
  not_enters : ∀ n, ¬ Enters l n

theorem isText_iff {l : InputLine} : IsText l ↔ ∃ t, Host.decode l.toByteArray = .ok t := by
  simp only [IsText, Host.decode_eq_ok_iff]

theorem decode_of_not_isText {l : InputLine} (h : ¬ IsText l) :
    Host.decode l.toByteArray = .error .notText := by
  unfold Host.decode
  cases htext : String.fromUTF8? l.toByteArray with
  | none => rfl
  | some t =>
    refine absurd (isText_iff.mpr ⟨t, ?_⟩) h
    rw [Host.decode, htext]

/-- The numbers in range are all read. -/
theorem arity?_eq_some_iff_writing {t : String} {n : Nat} :
    arity? t = some n ↔
      minArity ≤ n ∧ n ≤ maxArity ∧ ∃ w : Text.Writing, t.toList = w.chars ∧ w.IsOf n := by
  rw [arity?_eq_some_iff, Text.natural?_trim_eq_some_iff]
  constructor
  · rintro ⟨⟨-, w, hw, hchars⟩, hmin, hmax⟩
    exact ⟨hmin, hmax, w, hchars, hw⟩
  · rintro ⟨hmin, hmax, w, hchars, hw⟩
    have hbound : maxArity < Text.naturalBound := by decide
    exact ⟨⟨Nat.lt_of_le_of_lt hmax hbound, w, hw, hchars⟩, hmin, hmax⟩

theorem enters_iff {l : InputLine} {n : Nat} :
    Enters l n ↔ ∃ t, Host.decode l.toByteArray = .ok t ∧ arity? t = some n := by
  simp only [Host.decode_eq_ok_iff, arity?_eq_some_iff_writing]
  constructor
  · rintro ⟨hmin, hmax, t, w, htext, hw⟩
    exact ⟨t, htext, hmin, hmax, w, hw⟩
  · rintro ⟨t, htext, hmin, hmax, w, hw⟩
    exact ⟨hmin, hmax, t, w, htext, hw⟩

theorem isRefused_iff {l : InputLine} :
    IsRefused l ↔ ∃ t, Host.decode l.toByteArray = .ok t ∧ arity? t = none := by
  constructor
  · intro ⟨htext, hnot⟩
    obtain ⟨t, ht⟩ := isText_iff.mp htext
    refine ⟨t, ht, Option.eq_none_iff_forall_ne_some.mpr fun n hn => ?_⟩
    exact hnot n (enters_iff.mpr ⟨t, ht, hn⟩)
  · intro ⟨t, ht, hnone⟩
    refine ⟨isText_iff.mpr ⟨t, ht⟩, fun n hn => ?_⟩
    obtain ⟨t', ht', hsome⟩ := enters_iff.mp hn
    obtain rfl := Except.ok.inj (ht.symm.trans ht')
    cases hnone.symm.trans hsome

/-- A line is refused, or it enters a number, or it is not text. -/
theorem isRefused_or (l : InputLine) : IsRefused l ∨ (∃ n, Enters l n) ∨ ¬ IsText l := by
  by_cases htext : IsText l
  · by_cases henters : ∃ n, Enters l n
    · exact .inr (.inl henters)
    · exact .inl ⟨htext, not_exists.mp henters⟩
  · exact .inr (.inr htext)

/-! ### Reading lines -/

theorem askLines_of_enters {l : InputLine} {n : Nat} (h : Enters l n) (ls : List InputLine) :
    askLines arity? (l :: ls) = ⟨.ok (some n), 0, ls⟩ := by
  obtain ⟨t, ht, hn⟩ := enters_iff.mp h
  simp only [askLines, ht, hn]

theorem askLines_of_not_isText {l : InputLine} (h : ¬ IsText l) (ls : List InputLine) :
    askLines arity? (l :: ls) = ⟨.error .notText, 0, ls⟩ := by
  simp only [askLines, decode_of_not_isText h]

theorem askLines_of_isRefused {l : InputLine} (h : IsRefused l) (ls : List InputLine) :
    askLines arity? (l :: ls) =
      { askLines arity? ls with refused := (askLines arity? ls).refused + 1 } := by
  obtain ⟨t, ht, hnone⟩ := isRefused_iff.mp h
  simp only [askLines, ht, hnone]

/-- Refused lines are counted, and nothing else comes of them. -/
theorem askLines_append {before : List InputLine} (h : ∀ l ∈ before, IsRefused l)
    (ls : List InputLine) :
    askLines arity? (before ++ ls) =
      { askLines arity? ls with refused := (askLines arity? ls).refused + before.length } := by
  induction before with
  | nil => rfl
  | cons l before ih =>
    obtain ⟨hl, hbefore⟩ := List.forall_mem_cons.mp h
    rw [List.cons_append, askLines_of_isRefused hl, ih hbefore]
    rfl

/-- All lines are refused, or there is a first one that is not. -/
theorem exists_first (ls : List InputLine) :
    (∀ l ∈ ls, IsRefused l) ∨
      ∃ before l after, ls = before ++ l :: after ∧ (∀ k ∈ before, IsRefused k) ∧
        ((∃ n, Enters l n) ∨ ¬ IsText l) := by
  induction ls with
  | nil => exact .inl nofun
  | cons l ls ih =>
    rcases isRefused_or l with hl | hl
    · rcases ih with hall | ⟨before, l', after, rfl, hbefore, hl'⟩
      · exact .inl (List.forall_mem_cons.mpr ⟨hl, hall⟩)
      · exact .inr ⟨l :: before, l', after, rfl, List.forall_mem_cons.mpr ⟨hl, hbefore⟩, hl'⟩
    · exact .inr ⟨[], l, ls, rfl, nofun, hl⟩

/-! ### Asking -/

/-- The session in which the greeting was printed, and the reply to each of some refused lines,
    and lines are left. -/
def asked (s : Session) (refused : Nat) (rest : List InputLine) : Session :=
  { s with
    input := rest
    output := s.output ++ linesText (greeting ++ List.replicate refused reprompt) }

/-- What is made of an answer: a number, or a reason to stop. -/
def answerOf : Except FileError (Option Nat) → Except Error Nat
  | .ok (some n) => .ok n
  | .ok none => .error .endOfInput
  | .error e => .error (.asking e)

theorem linesText_append (ls ks : List String) :
    linesText (ls ++ ks) = linesText ls ++ linesText ks := by
  simp [linesText]

theorem linesText_replicate (n : Nat) (l : String) :
    linesText (List.replicate n l) = String.join (List.replicate n (l ++ "\n")) := by
  simp [linesText]

/-- The greeting is printed once, and the reply once for each line that was refused. -/
theorem perform_askArity_eq (s : Session) :
    s.perform askArity =
      (answerOf (askLines arity? s.input).answer,
        asked s (askLines arity? s.input).refused (askLines arity? s.input).rest) := by
  have hgreeting := Session.prints_printLines (ε := Error) s greeting
  have hask := perform_ask (s.printed (linesText greeting))
  have hinput : (s.printed (linesText greeting)).input = s.input := rfl
  rw [hinput, ← linesText_replicate] at hask
  have hasked : { s.printed (linesText greeting) with
        input := (askLines arity? s.input).rest }.printed
          (linesText (List.replicate (askLines arity? s.input).refused reprompt)) =
      asked s (askLines arity? s.input).refused (askLines arity? s.input).rest := by
    simp only [Session.printed, asked, linesText_append, String.append_assoc]
  rw [hasked] at hask
  unfold askArity
  rw [Session.perform_bind_of_ok hgreeting]
  rcases hanswer : (askLines arity? s.input).answer with e | _ | n <;> rw [hanswer] at hask
  · exact Session.perform_bind_of_error hask _
  · exact Session.perform_bind_of_ok hask _
  · exact Session.perform_bind_of_ok hask _

section

variable {s : Session} {before after : List InputLine} {l : InputLine}

theorem perform_askArity_of_enters {n : Nat} (hinput : s.input = before ++ l :: after)
    (hbefore : ∀ k ∈ before, IsRefused k) (hl : Enters l n) :
    s.perform askArity = (.ok n, asked s before.length after) := by
  rw [perform_askArity_eq, hinput, askLines_append hbefore, askLines_of_enters hl]
  simp only [answerOf, Nat.zero_add]

theorem perform_askArity_of_not_isText (hinput : s.input = before ++ l :: after)
    (hbefore : ∀ k ∈ before, IsRefused k) (hl : ¬ IsText l) :
    s.perform askArity = (.error (.asking .notText), asked s before.length after) := by
  rw [perform_askArity_eq, hinput, askLines_append hbefore, askLines_of_not_isText hl]
  simp only [answerOf, Nat.zero_add]

theorem perform_askArity_of_isRefused (h : ∀ k ∈ s.input, IsRefused k) :
    s.perform askArity = (.error .endOfInput, asked s s.input.length []) := by
  have hlines := askLines_append h []
  rw [List.append_nil] at hlines
  rw [perform_askArity_eq, hlines]
  simp only [askLines, answerOf, Nat.zero_add]

/-- All that asking can come to. -/
theorem perform_askArity_cases (s : Session) :
    (∃ before l after n, s.input = before ++ l :: after ∧ (∀ k ∈ before, IsRefused k) ∧
      Enters l n ∧ s.perform askArity = (.ok n, asked s before.length after)) ∨
    (∃ before l after, s.input = before ++ l :: after ∧ (∀ k ∈ before, IsRefused k) ∧
      ¬ IsText l ∧
      s.perform askArity = (.error (.asking .notText), asked s before.length after)) ∨
    ((∀ k ∈ s.input, IsRefused k) ∧
      s.perform askArity = (.error .endOfInput, asked s s.input.length [])) := by
  rcases exists_first s.input with hall | ⟨before, l, after, hinput, hbefore, ⟨n, hl⟩ | hl⟩
  · exact .inr (.inr ⟨hall, perform_askArity_of_isRefused hall⟩)
  · exact .inl ⟨before, l, after, n, hinput, hbefore, hl,
      perform_askArity_of_enters hinput hbefore hl⟩
  · exact .inr (.inl ⟨before, l, after, hinput, hbefore, hl,
      perform_askArity_of_not_isText hinput hbefore hl⟩)

end

/-- The first line that is not refused decides, whatever the lines are.

    * A number comes of the asking exactly if a line enters it and the lines before it are
      refused. What is behind that line is left to be read.
    * The asking fails at the end of the input exactly if all lines are refused, and else at a line
      that is no text, where the lines before it are refused.

    The greeting is printed once and the reply once for each refused line, and no file changes. -/
theorem askArity_takesFirst (s s' : Session) (n : Nat) (e : Error) :
    (s.perform askArity = (.ok n, s') ↔
      ∃ before l after, s.input = before ++ l :: after ∧ (∀ k ∈ before, IsRefused k) ∧
        Enters l n ∧ s' = asked s before.length after) ∧
    (s.perform askArity = (.error e, s') ↔
      (e = .endOfInput ∧ (∀ k ∈ s.input, IsRefused k) ∧ s' = asked s s.input.length []) ∨
      (e = .asking .notText ∧ ∃ before l after, s.input = before ++ l :: after ∧
        (∀ k ∈ before, IsRefused k) ∧ ¬ IsText l ∧ s' = asked s before.length after)) := by
  constructor
  · constructor
    · intro h
      rcases perform_askArity_cases s with ⟨before, l, after, m, hinput, hbefore, hl, hrun⟩ |
        ⟨_, _, _, _, _, _, hrun⟩ | ⟨_, hrun⟩
      · cases hrun.symm.trans h
        exact ⟨before, l, after, hinput, hbefore, hl, rfl⟩
      · cases hrun.symm.trans h
      · cases hrun.symm.trans h
    · rintro ⟨before, l, after, hinput, hbefore, hl, rfl⟩
      exact perform_askArity_of_enters hinput hbefore hl
  · constructor
    · intro h
      rcases perform_askArity_cases s with ⟨_, _, _, _, _, _, _, hrun⟩ |
        ⟨before, l, after, hinput, hbefore, hl, hrun⟩ | ⟨hall, hrun⟩
      · cases hrun.symm.trans h
      · cases hrun.symm.trans h
        exact .inr ⟨rfl, before, l, after, hinput, hbefore, hl, rfl⟩
      · cases hrun.symm.trans h
        exact .inl ⟨rfl, hall, rfl⟩
    · rintro (⟨rfl, hall, rfl⟩ | ⟨rfl, before, l, after, hinput, hbefore, hl, rfl⟩)
      · exact perform_askArity_of_isRefused hall
      · exact perform_askArity_of_not_isText hinput hbefore hl

/-! ### A line that is no text -/

/-- The input is a byte that no text has, on a line of its own, and a line with a four. -/
def unreadable : Session := .begin (.empty ["home"]) [255, lineFeed, 52, lineFeed]

/-- A line that is no text is not passed over: the number behind it is not taken, although no
    earlier line is a number. -/
theorem not_forall_takes_number :
    ¬ ∀ (s : Session) (before : List InputLine) (l : InputLine) (after : List InputLine) (n : Nat),
      s.input = before ++ l :: after → (∀ k ∈ before, ∀ m, ¬ Enters k m) → Enters l n →
        s.perform askArity = (.ok n, asked s before.length after) := by
  intro h
  have hnotText : ¬ IsText [255, lineFeed] := by
    rw [isText_iff]
    rintro ⟨t, ht⟩
    have hfails : (Host.decode [255, lineFeed].toByteArray).isOk = false := by decide +kernel
    rw [ht] at hfails
    cases hfails
  have hfour : Enters [52, lineFeed] 4 :=
    ⟨by decide, by decide, "4\n", ⟨[], false, ['4'], ['\n']⟩, by decide +kernel, by decide,
      ⟨List.forall_mem_singleton.mpr (by decide), List.forall_mem_singleton.mpr (by decide),
        List.cons_ne_nil _ _, rfl⟩⟩
  have hrun := h unreadable [[255, lineFeed]] [52, lineFeed] [] 4 rfl ?_ hfour
  · have hinput : unreadable.input = [] ++ [255, lineFeed] :: [[52, lineFeed]] := rfl
    have hstops := perform_askArity_of_not_isText hinput nofun hnotText
    cases hstops.symm.trans hrun
  · intro k hk m hm
    obtain rfl := List.mem_singleton.mp hk
    obtain ⟨t, ht, -⟩ := enters_iff.mp hm
    exact hnotText (isText_iff.mpr ⟨t, ht⟩)

end TaggedUnion.Command
