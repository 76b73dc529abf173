import TaggedUnion.Command.Basic
import TaggedUnion.Proofs.Files.Writing
import TaggedUnion.Proofs.Schema.Definitions

/-! # Runs of commands

    What the parts of a command do to a session:

    * **`prints_printLines`**: printing adds lines to the output and does nothing else.
    * **`Holds`**: the file at a path holds a document. **`perform_load`** is the outcome of
      loading it; loading leaves the session as it was, also where it fails
      (`perform_load_snd`).
    * **`Prints`**: a computation prints a text, gives its result, and leaves the rest of the
      session as it was.
-/

namespace TaggedUnion

open Schema (Document)

/-! ### Output -/

/-- Lines as printed, each with its end. -/
def linesText (ls : List String) : String := String.join (ls.map (· ++ "\n"))

@[simp] theorem linesText_nil : linesText [] = "" := rfl

theorem linesText_cons (l : String) (ls : List String) :
    linesText (l :: ls) = l ++ "\n" ++ linesText ls := by
  simp [linesText]

namespace Session

@[simp] theorem printed_empty (s : Session) : s.printed "" = s := by
  simp [printed]

@[simp] theorem printed_printed (s : Session) (a b : String) :
    (s.printed a).printed b = s.printed (a ++ b) := by
  simp [printed, String.append_assoc]

variable {ε α β : Type}

/-- The computation gives the result and prints the text, and nothing else changes. -/
def Prints (s : Session) (x : ExceptT ε (StateM Session) α) (r : Except ε α) (text : String) :
    Prop :=
  s.perform x = (r, s.printed text)

variable {s : Session} {x : ExceptT ε (StateM Session) α} {f : α → ExceptT ε (StateM Session) β}
  {text text' : String}

theorem prints_pure (s : Session) (a : α) :
    s.Prints (pure a : ExceptT ε (StateM Session) α) (.ok a) "" := by
  rw [Prints, printed_empty]
  rfl

theorem Prints.bind {a : α} {r : Except ε β} (hx : s.Prints x (.ok a) text)
    (hf : (s.printed text).Prints (f a) r text') : s.Prints (x >>= f) r (text ++ text') := by
  rw [Prints, perform_bind_of_ok hx, hf, printed_printed]

/-- What comes of the result prints nothing more. -/
theorem Prints.bind_pure {a : α} (hx : s.Prints x (.ok a) text) (g : α → β) :
    s.Prints (x >>= fun a => pure (g a)) (.ok (g a)) text := by
  have hall := hx.bind (f := fun a => pure (g a)) (prints_pure (ε := ε) _ (g a))
  rwa [String.append_empty] at hall

theorem prints_printLine (s : Session) (l : String) :
    s.Prints (Host.printLine l : ExceptT ε (StateM Session) Unit) (.ok ()) (l ++ "\n") := rfl

theorem prints_printLines (s : Session) (ls : List String) :
    s.Prints (Host.printLines ls : ExceptT ε (StateM Session) Unit) (.ok ()) (linesText ls) := by
  induction ls generalizing s with
  | nil => exact prints_pure s ()
  | cons l ls ih =>
    rw [linesText_cons]
    exact (prints_printLine s l).bind (ih _)

end Session

/-! ### Loading a schema -/

/-- The document that has been read was filled by operations that succeeded. -/
theorem Schema.Document.sound_of_read {text : String} {d : Document}
    (h : Document.read text = .ok d) : d.Sound := by
  obtain ⟨-, s, hs, hfinish⟩ := exists_of_read_ok h
  obtain ⟨-, -, -, -, -, hsound⟩ := State.finish_cases (State.sound_begin.run hs) hfinish
  exact hsound

namespace Session

/-- The file at a path is text, and the text means the document. -/
def Holds (s : Session) (path : String) (d : Document) : Prop :=
  ∃ text, s.files.read (.ofText path) = .ok text.toUTF8 ∧ Document.read text = .ok d

variable {s : Session} {path : String} {d : Document}

theorem Holds.sound (h : s.Holds path d) : d.Sound := by
  obtain ⟨text, -, hread⟩ := h
  exact Document.sound_of_read hread

end Session

namespace Command

variable {s : Session} {path : String} {d : Document}

/-- Loading stops at a file that cannot be read, at bytes that are not text, and at a text that
    means no document. -/
theorem perform_load (s : Session) (path : String) :
    s.perform (load path) =
      ((((s.files.read (.ofText path)).bind Host.decode).mapError (Error.reading path)).bind
        (fun text => (Document.read text).mapError (.parsing path)), s) := by
  have hread : s.perform (orStop (.reading path) (Host.readText path)) =
      (((s.files.read (.ofText path)).bind Host.decode).mapError (.reading path), s) := rfl
  unfold load
  cases htext : (s.files.read (.ofText path)).bind Host.decode with
  | error e =>
    rw [htext] at hread
    exact Session.perform_bind_of_error hread _
  | ok text =>
    rw [htext] at hread
    exact Session.perform_bind_of_ok hread _

theorem perform_load_snd (s : Session) (path : String) : (s.perform (load path)).2 = s := by
  rw [perform_load]

theorem mapError_eq_ok_iff {ε ε' α : Type} {x : Except ε α} {f : ε → ε'} {a : α} :
    x.mapError f = .ok a ↔ x = .ok a := by
  cases x <;> simp [Except.mapError]

theorem perform_load_eq_ok_iff : s.perform (load path) = (.ok d, s) ↔ s.Holds path d := by
  rw [perform_load, Prod.mk.injEq]
  constructor
  · rintro ⟨h, -⟩
    obtain ⟨text, htext, hdocument⟩ := Schema.exists_of_bind_ok h
    obtain ⟨bytes, hfile, hdecode⟩ := Schema.exists_of_bind_ok (mapError_eq_ok_iff.mp htext)
    rw [Host.decode_eq_ok_iff.mp hdecode] at hfile
    exact ⟨text, hfile, mapError_eq_ok_iff.mp hdocument⟩
  · rintro ⟨text, hfile, hread⟩
    refine ⟨?_, rfl⟩
    have hdecode : Host.decode text.toUTF8 = .ok text := Host.decode_eq_ok_iff.mpr rfl
    rw [hfile]
    simp only [Except.bind, hdecode, Except.mapError, hread]

end Command

end TaggedUnion
