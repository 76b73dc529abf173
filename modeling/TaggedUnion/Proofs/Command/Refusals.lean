import TaggedUnion.Command.Program
import TaggedUnion.Proofs.Command.Checking

/-! # Refused work leaves files alone

    A command stops before it writes wherever it has a reason to. This module lists the reasons,
    and says that no file and no directory is changed then:

    * **`KeepsFiles`**: a computation changes no file in any session. Printing, loading and
      checking are of this kind, and sequences of such computations are.
    * **`Answered`**: a number in range is entered before the input ends or cannot be read.
    * **`Invocation.IsIdle`**: a command checks only, or has a reason to stop.
    * **`files_of_isIdle`**: the files are as before, for commands and for the program.
-/

namespace TaggedUnion.Command

open Schema (Document)

/-! ### Computations that keep the files -/

/-- The computation changes no file and no directory, whatever comes of it. -/
def KeepsFiles {α : Type} (x : Run (StateM Session) α) : Prop :=
  ∀ s : Session, (s.perform x).2.files = s.files

variable {α β : Type} {x : Run (StateM Session) α} {f : α → Run (StateM Session) β}

theorem KeepsFiles.bind (hx : KeepsFiles x) (hf : ∀ a, KeepsFiles (f a)) :
    KeepsFiles (x >>= f) := by
  intro s
  have hfirst := hx s
  rcases hrun : s.perform x with ⟨r, s₁⟩
  rw [hrun] at hfirst
  cases r with
  | error e =>
    rw [Session.perform_bind_of_error hrun]
    exact hfirst
  | ok a =>
    rw [Session.perform_bind_of_ok hrun]
    exact (hf a s₁).trans hfirst

theorem KeepsFiles.pure (a : α) : KeepsFiles (pure a) := fun _ => rfl

theorem KeepsFiles.mapM {F : β → Run (StateM Session) α} (h : ∀ b, KeepsFiles (F b))
    (bs : List β) : KeepsFiles (bs.mapM F) := by
  induction bs with
  | nil => exact KeepsFiles.pure []
  | cons b bs ih =>
    rw [List.mapM_cons]
    exact (h b).bind fun a => ih.bind fun as => KeepsFiles.pure (a :: as)

theorem keepsFiles_printLines (ls : List String) : KeepsFiles (Host.printLines ls) := by
  intro s
  rw [Session.prints_printLines s ls]
  rfl

theorem keepsFiles_load (path : String) : KeepsFiles (load path) := by
  intro s
  rw [perform_load_snd]

/-- Going on with what is known already does nothing to a session. -/
theorem keepsFiles_orStop_pure {ε : Type} (context : ε → Error) (r : Except ε α) :
    KeepsFiles (orStop context (Pure.pure r)) := fun _ => rfl

theorem keepsFiles_checkUnion (d : Document) (name : String) : KeepsFiles (checkUnion d name) :=
  (keepsFiles_orStop_pure _ _).bind fun u =>
    (keepsFiles_printLines (checkLines u)).bind fun _ => KeepsFiles.pure u.validate.isFatal

/-- A check looks at the schema alone. -/
theorem keepsFiles_check (schema : String) (union : Option String) :
    KeepsFiles (check schema union) := by
  refine (keepsFiles_load schema).bind fun d => ?_
  cases union.elim (d.unions.map (·.name)) ([·]) with
  | nil => exact (keepsFiles_printLines ["no unions declared"]).bind fun _ => KeepsFiles.pure _
  | cons name names =>
    exact (KeepsFiles.mapM (keepsFiles_checkUnion d) (name :: names)).bind
      fun broken => KeepsFiles.pure _

/-! ### Answers -/

/-- The line is text, and the text is a number in range, blanks around it aside. -/
def IsAnswer (l : InputLine) (n : Nat) : Prop :=
  ∃ t, Host.decode l.toByteArray = .ok t ∧ Text.natural? (Text.trim t) = some n ∧
    minArity ≤ n ∧ n ≤ maxArity

/-- A number in range is entered before the input ends or has a line that is not text. -/
def Answered (lines : List InputLine) : Prop :=
  ∃ before l after n, lines = before ++ l :: after ∧
    (∀ k ∈ before, ∃ t, Host.decode k.toByteArray = .ok t) ∧ IsAnswer l n

theorem isSupported_iff {n : Nat} : isSupported n = true ↔ minArity ≤ n ∧ n ≤ maxArity := by
  simp [isSupported]

theorem arity?_eq_some_iff {t : String} {n : Nat} :
    arity? t = some n ↔
      Text.natural? (Text.trim t) = some n ∧ minArity ≤ n ∧ n ≤ maxArity := by
  rw [← isSupported_iff]
  exact Option.filter_eq_some_iff

/-- Asking comes to a number exactly if one is entered. -/
theorem answered_iff {lines : List InputLine} :
    Answered lines ↔ ∃ n, (askLines arity? lines).answer = .ok (some n) := by
  constructor
  · rintro ⟨before, l, after, n, rfl, hbefore, t, htext, hn⟩
    induction before with
    | nil => exact ⟨n, by simp [askLines, htext, arity?_eq_some_iff.mpr hn]⟩
    | cons k before ih =>
      obtain ⟨t', htext'⟩ := hbefore k List.mem_cons_self
      obtain ⟨m, hm⟩ := ih fun j hj => hbefore j (List.mem_cons_of_mem k hj)
      -- An earlier line may be an answer itself.
      cases haccept : arity? t' with
      | some m' => exact ⟨m', by simp [askLines, htext', haccept]⟩
      | none => exact ⟨m, by simpa [askLines, htext', haccept] using hm⟩
  · rintro ⟨n, h⟩
    induction lines with
    | nil => cases h
    | cons l ls ih =>
      unfold askLines at h
      cases htext : Host.decode l.toByteArray with
      | error e =>
        rw [htext] at h
        cases h
      | ok t =>
        rw [htext] at h
        dsimp only at h
        cases haccept : arity? t with
        | some k =>
          exact ⟨[], l, ls, k, rfl, nofun, t, htext, arity?_eq_some_iff.mp haccept⟩
        | none =>
          rw [haccept] at h
          obtain ⟨before, l', after, k, rfl, hbefore, hanswer⟩ := ih h
          refine ⟨l :: before, l', after, k, rfl, ?_, hanswer⟩
          intro l₁ hl₁
          rcases List.mem_cons.mp hl₁ with rfl | hl₁
          · exact ⟨t, htext⟩
          · exact hbefore l₁ hl₁

/-- Asking reads lines and prints replies. -/
theorem perform_ask (s : Session) :
    s.perform (orStop .asking (Host.ask arity? (reprompt ++ "\n"))) =
      ((askLines arity? s.input).answer.mapError .asking,
        { s with input := (askLines arity? s.input).rest }.printed
          (String.join (List.replicate (askLines arity? s.input).refused (reprompt ++ "\n")))) :=
  rfl

/-- Without an answer there is no number to go on with. -/
theorem perform_askArity {s : Session} (h : ¬ Answered s.input) :
    ∃ e s', s.perform askArity = (.error e, s') ∧ s'.files = s.files := by
  have hgreeting := Session.prints_printLines (ε := Error) s greeting
  unfold askArity
  rw [Session.perform_bind_of_ok hgreeting]
  -- The greeting changes the output only: the same lines are there to be read.
  generalize hs₁ : s.printed (linesText greeting) = s₁
  have hinput : s₁.input = s.input := by rw [← hs₁]; rfl
  have hfiles : s₁.files = s.files := by rw [← hs₁]; rfl
  have hask := perform_ask s₁
  cases hanswer : (askLines arity? s₁.input).answer with
  | error e =>
    rw [hanswer] at hask
    exact ⟨.asking e, _, Session.perform_bind_of_error hask _, hfiles⟩
  | ok answer =>
    rw [hanswer] at hask
    cases answer with
    | none => exact ⟨.endOfInput, _, Session.perform_bind_of_ok hask _, hfiles⟩
    | some n => exact absurd (answered_iff.mpr ⟨n, hinput ▸ hanswer⟩) h

/-! ### Reasons to stop -/

/-- The command is a check, or it has a reason to stop before it writes anything. -/
inductive Invocation.IsIdle (s : Session) : Invocation → Prop
  | check (schema : String) (union : Option String) : IsIdle s (.check schema union)
  /-- The schema cannot be read, or is no document. -/
  | unloaded {schema : String} (union root runtimePath : String)
      (h : ∀ d, ¬ s.Holds schema d) : IsIdle s (.generate schema union root runtimePath)
  | undeclared {schema union : String} (root runtimePath : String) {d : Document}
      (h : s.Holds schema d) (hnone : ∀ u ∈ d.unions, u.name ≠ union) :
      IsIdle s (.generate schema union root runtimePath)
  /-- The validation of the union finds an error. -/
  | invalid {schema : String} (root runtimePath : String) {d : Document}
      (h : s.Holds schema d) {u : Schema.UnionDeclaration} (hu : u ∈ d.unions)
      (hfatal : (u.resolveIn d).validate.isFatal = true) :
      IsIdle s (.generate schema u.name root runtimePath)
  | outside {n : Nat} (root runtimePath : String) (h : ¬ (minArity ≤ n ∧ n ≤ maxArity)) :
      IsIdle s (.sweep (some n) root runtimePath)
  | unanswered (root runtimePath : String) (h : ¬ Answered s.input) :
      IsIdle s (.sweep none root runtimePath)

/-- The command is one that writes. -/
def Invocation.isWriting : Invocation → Bool
  | .check .. => false
  | .generate .. => true
  | .sweep .. => true

/-- A run that has changed no file, and that has not succeeded in writing. -/
def Stopped (s : Session) (inv : Invocation) : Prop :=
  (s.perform inv.run).2.files = s.files ∧
    (inv.isWriting = true → (s.perform inv.run).1 ≠ .ok .success)

theorem stopped_of_error {s s' : Session} {inv : Invocation} {e : Error}
    (h : s.perform inv.run = (.error e, s')) (hfiles : s'.files = s.files) : Stopped s inv := by
  rw [Stopped, h]
  exact ⟨hfiles, fun _ => nofun⟩

theorem perform_load_of_not_holds {s : Session} {schema : String}
    (h : ∀ d, ¬ s.Holds schema d) : ∃ e, s.perform (load schema) = (.error e, s) := by
  have hsame := perform_load_snd s schema
  rcases hload : s.perform (load schema) with ⟨r, s'⟩
  obtain rfl : s' = s := by rw [hload] at hsame; exact hsame
  cases r with
  | error e => exact ⟨e, rfl⟩
  | ok d => exact absurd (perform_load_eq_ok_iff.mp hload) (h d)

/-- A union that is not declared is an error of the command. -/
theorem perform_generate_of_not_declared {s : Session} {schema union : String} {d : Document}
    (h : s.Holds schema d) (hnone : ∀ u ∈ d.unions, u.name ≠ union) (root runtimePath : String) :
    s.perform (generate schema union root runtimePath) =
      (.error (.generating union (.notFound ⟨union⟩)), s) := by
  have hunion : d.union? union = none :=
    List.find?_eq_none.mpr fun u hu => by simpa using hnone u hu
  have hgenerate : TaggedUnion.generate d union runtimePath = .error (.notFound ⟨union⟩) := by
    rw [TaggedUnion.generate, Schema.Union.ofDocument, hunion]
  unfold generate
  rw [Session.perform_bind_of_ok (perform_load_eq_ok_iff.mpr h), hgenerate]
  rfl

theorem perform_greatestArity_of_outside {n : Nat} (h : ¬ (minArity ≤ n ∧ n ≤ maxArity))
    (s : Session) : s.perform (greatestArity (some n)) = (.error (.arityOutside n), s) := by
  have hunsupported : isSupported n = false :=
    Bool.eq_false_iff.mpr fun hsupported => h (isSupported_iff.mp hsupported)
  show s.perform (if isSupported n then pure n else throw (Error.arityOutside n)) = _
  rw [hunsupported]
  rfl

/-- A command that is idle stops before it writes. -/
theorem stopped_of_isIdle {s : Session} {inv : Invocation} (h : inv.IsIdle s) :
    Stopped s inv := by
  cases h with
  | check schema union => exact ⟨keepsFiles_check schema union s, nofun⟩
  | unloaded union root runtimePath h =>
    obtain ⟨e, hload⟩ := perform_load_of_not_holds h
    exact stopped_of_error (Session.perform_bind_of_error hload _) rfl
  | undeclared root runtimePath h hnone =>
    exact stopped_of_error (perform_generate_of_not_declared h hnone root runtimePath) rfl
  | invalid root runtimePath h hu hfatal =>
    have hrefused := generate_of_union? (h.sound.union?_of_mem hu) runtimePath
    dsimp only at hrefused
    rw [if_pos hfatal] at hrefused
    have hprints := prints_generate_of_invalid h hrefused root
    refine ⟨?_, fun _ => ?_⟩
    · exact congrArg (fun r => r.2.files) hprints
    · have hresult := congrArg (·.1) hprints
      intro hsuccess
      cases hsuccess.symm.trans hresult
  | outside root runtimePath h =>
    exact stopped_of_error
      (Session.perform_bind_of_error (perform_greatestArity_of_outside h s) _) rfl
  | unanswered root runtimePath h =>
    obtain ⟨e, s', hask, hfiles⟩ := perform_askArity h
    exact stopped_of_error (Session.perform_bind_of_error hask _) hfiles

/-! ### The program -/

/-- The program in a session: how it ends, and the session after it. -/
def runProgram (arguments : List String) (s : Session) : Outcome × Session :=
  StateT.run (program arguments : StateM Session Outcome) s

theorem files_runProgram_of_error {arguments : List String} {halt : Halt}
    (h : Invocation.read arguments = .error halt) (s : Session) :
    (runProgram arguments s).2.files = s.files := by
  unfold runProgram program
  rw [h]
  cases halt with
  | version | help | misuse => rfl

theorem files_runProgram_of_ok {arguments : List String} {inv : Invocation}
    (h : Invocation.read arguments = .ok inv) (s : Session) :
    (runProgram arguments s).2.files = (s.perform inv.run).2.files := by
  unfold runProgram program
  rw [h]
  dsimp only
  rw [StateT.run_bind]
  rcases hrun : s.perform inv.run with ⟨r, s'⟩
  have hrun' : StateT.run (ExceptT.run (inv.run (m := StateM Session))) s = (r, s') := hrun
  rw [hrun']
  cases r <;> rfl

/-- A command that checks only, or has a reason to stop, changes no file and no directory, and it
    does not end as if it had written something. The program changes none either, whatever its
    arguments are, if the command that they mean is such a one. -/
theorem files_of_isIdle :
    (∀ (s : Session) (inv : Invocation), inv.IsIdle s →
      (s.perform inv.run).2.files = s.files ∧
        (inv.isWriting = true → (s.perform inv.run).1 ≠ .ok .success)) ∧
    ∀ (s : Session) (arguments : List String),
      (∀ inv, Invocation.read arguments = .ok inv → inv.IsIdle s) →
        (runProgram arguments s).2.files = s.files := by
  refine ⟨fun s inv h => stopped_of_isIdle h, ?_⟩
  intro s arguments h
  cases hread : Invocation.read arguments with
  | error halt => exact files_runProgram_of_error hread s
  | ok inv =>
    rw [files_runProgram_of_ok hread]
    exact (stopped_of_isIdle (h inv hread)).1

/-- A session with the schema of a good and a bad union, and with input that has no number in
    range: a line that is none, one that is out of range, and bytes that are no text. -/
def reluctant : Session :=
  { sessionWith mixed with input := inputLines ("four\n16\n".toUTF8.toList ++ [255, lineFeed, 52]) }

theorem files_of_isIdle_reluctant :
    (Invocation.generate "s.xml" "Bad" "out" defaultRuntimePath).IsIdle reluctant ∧
      (reluctant.perform
        (Invocation.generate "s.xml" "Bad" "out" defaultRuntimePath).run).2.files =
          reluctant.files ∧
      Invocation.read ["sweep", "--output", "out"] = .ok (.sweep none "out" defaultRuntimePath) ∧
      (Invocation.sweep none "out" defaultRuntimePath).IsIdle reluctant ∧
      (runProgram ["sweep", "--output", "out"] reluctant).2.files = reluctant.files := by
  have hbad : ⟨"demo", "Bad", true, ["A", "A"]⟩ ∈ mixedDocument.unions := by decide
  have hholds : reluctant.Holds "s.xml" mixedDocument := holds_mixed
  have hgenerate :
      (Invocation.generate "s.xml" "Bad" "out" defaultRuntimePath).IsIdle reluctant :=
    .invalid "out" defaultRuntimePath hholds hbad (by decide)
  have hread : Invocation.read ["sweep", "--output", "out"] =
      .ok (.sweep none "out" defaultRuntimePath) := by decide
  have hsweep : (Invocation.sweep none "out" defaultRuntimePath).IsIdle reluctant := by
    refine .unanswered _ _ fun hanswered => ?_
    obtain ⟨n, hn⟩ := answered_iff.mp hanswered
    have hstopped : (askLines arity? reluctant.input).answer.isOk = false := by decide +kernel
    rw [hn] at hstopped
    cases hstopped
  refine ⟨hgenerate, (files_of_isIdle.1 reluctant _ hgenerate).1, hread, hsweep, ?_⟩
  refine files_of_isIdle.2 reluctant _ ?_
  intro inv hinv
  cases hread.symm.trans hinv
  exact hsweep

end TaggedUnion.Command
