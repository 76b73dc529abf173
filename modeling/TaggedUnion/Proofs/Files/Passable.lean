import TaggedUnion.Proofs.Files.Growth

/-! # When directories can be made

    The directories on a way are made one by one from below. This comes to an end exactly if the
    way is passable, which can be told from the tree as it is before:

    * **`Passable`**: there is no file on the way, and nothing is missing where the way starts or
      above it.
    * **`makeDirectories_of_passable`**: the directories on such a way are made.
    * **`IsWritable`**: the way to a file is passable, and the file can be put at its end.
    * **`write_of_isWritable`**: such a file is written, once the directories are made.
-/

namespace TaggedUnion.FileTree

open TaggedUnion.Path
open Schema (exists_of_bind_ok)

variable {t t' : FileTree} {l : Location} {ps qs : List String}

/-! ### Walks that stop -/

theorem walk_append_of_ok {l' : Location} (h : t.walk l ps = .ok l') (qs : List String) :
    t.walk l (ps ++ qs) = t.walk l' qs := by
  induction ps generalizing l with
  | nil =>
    obtain rfl := Except.ok.inj h
    rfl
  | cons p ps ih =>
    obtain ⟨hentry, hlength, hrest⟩ := walk_cons_eq_ok h
    rw [List.cons_append, walk_cons_of hentry hlength]
    exact ih hrest

theorem walkInto_of_missing {l' : Location} (hwalk : t.walk l ps = .ok l')
    (hentry : t.entryAt l' = none) : t.walkInto l ps = .error .notFound := by
  rw [walkInto, walk_append_of_ok hwalk, walk_cons, hentry]

/-- A walk that stops on its way stops there also where the way is longer. -/
theorem walkInto_append_of_error {e : FileError} (h : t.walkInto l ps = .error e)
    (qs : List String) : t.walkInto l (ps ++ qs) = .error e := by
  induction ps generalizing l with
  | nil =>
    cases qs with
    | nil => exact h
    | cons q qs =>
      rw [walkInto, List.nil_append, walk_cons] at h
      rw [walkInto, List.nil_append, List.cons_append, walk_cons]
      cases hentry : t.entryAt l with
      | none =>
        rw [hentry] at h
        exact h
      | some entry =>
        rw [hentry] at h
        cases entry with
        | file contents => exact h
        | directory => cases h
  | cons p ps ih =>
    rw [walkInto, List.cons_append, walk_cons] at h
    rw [walkInto, List.cons_append, List.cons_append, walk_cons]
    cases hentry : t.entryAt l with
    | none =>
      rw [hentry] at h
      exact h
    | some entry =>
      rw [hentry] at h
      cases entry with
      | file contents => exact h
      | directory =>
        simp only at h ⊢
        split_ifs at h ⊢ with hhere habove hlong
        · exact ih h
        · exact ih h
        · exact h
        · exact ih h

/-- Above the end of a walk there are directories, apart from the places above its start. -/
theorem prefix_or_directory_of_walkInto {l' k : Location} (h : t.walkInto l ps = .ok l')
    (hk : k <+: l') : k <+: l ∨ t.entryAt k = some .directory := by
  induction ps generalizing l with
  | nil =>
    obtain ⟨hwalk, -⟩ := walkInto_eq_ok_iff.mp h
    obtain rfl := Except.ok.inj hwalk
    exact .inl hk
  | cons p ps ih =>
    rw [walkInto, List.cons_append] at h
    obtain ⟨-, -, hrest⟩ := walk_cons_eq_ok h
    have hentry : t.entryAt (turn l p) = some .directory :=
      directory_of_walkInto hrest
    rcases ih hrest with hle | hdirectory
    · rcases turn_cases l p with hturn | hturn | hturn <;> rw [hturn] at hle hentry
      · exact .inl hle
      · exact .inl (hle.trans (List.dropLast_prefix l))
      · rcases List.prefix_concat_iff.mp hle with rfl | hle
        · exact .inr hentry
        · exact .inl hle
    · exact .inr hdirectory

/-! ### Passable ways -/

/-- The directories on a way are there or can be made: its names are short enough, there is no
    file at a place that it leads through, and what is missing is neither its start nor above. -/
structure Passable (t : FileTree) (l : Location) (ps : List String) : Prop where
  lengths : ∀ part ∈ ps, IsName part → part.utf8ByteSize ≤ nameLimit
  entries : ∀ qs, qs <+: ps → t.entryAt (follow l qs) = some .directory ∨
    t.entryAt (follow l qs) = none ∧ ¬ follow l qs <+: l

namespace Passable

theorem start (h : Passable t l ps) : t.entryAt l = some .directory := by
  rcases h.entries [] List.nil_prefix with hl | ⟨-, hl⟩
  · exact hl
  · exact absurd (List.prefix_refl l) hl

theorem beginning (h : Passable t l ps) (hqs : qs <+: ps) : Passable t l qs :=
  ⟨fun part hpart => h.lengths part (hqs.subset hpart), fun rs hrs => h.entries rs (hrs.trans hqs)⟩

/-- A way stays passable where directories are made. -/
theorem grow {made : Location → Prop} (h : Passable t l ps) (hgrows : Grows nowhere made t t') :
    Passable t' l ps := by
  refine ⟨h.lengths, fun qs hqs => ?_⟩
  rcases hgrows.entryAt (follow l qs) with hsame | ⟨-, -, hdirectory⟩ | ⟨hwritten, -⟩
  · rw [hsame]
    exact h.entries qs hqs
  · exact .inl hdirectory
  · exact hwritten.elim

/-- A part behind a directory leads on. -/
theorem walk_concat {part : String} (h : Passable t l (ps ++ [part]))
    (hupper : t.walkInto l ps = .ok (follow l ps)) :
    t.walk l (ps ++ [part]) = .ok (follow l (ps ++ [part])) := by
  obtain ⟨hwalk, hdirectory⟩ := walkInto_eq_ok_iff.mp hupper
  have hlength := h.lengths part (List.mem_append_right ps (List.mem_singleton_self part))
  rw [walk_append_of_ok hwalk, walk_cons_of hdirectory hlength, follow_append]
  rfl

/-- Only a name can lead to a place where there is nothing. -/
theorem isName_of_missing {part : String} (h : Passable t l (ps ++ [part]))
    (hupper : t.walkInto l ps = .ok (follow l ps))
    (hentry : t.entryAt (follow l (ps ++ [part])) = none) : IsName part := by
  obtain ⟨-, hdirectory⟩ := walkInto_eq_ok_iff.mp hupper
  rw [follow_append, follow_cons, follow_nil] at hentry
  have hbelow : ¬ turn (follow l ps) part <+: follow l ps := by
    intro hle
    rcases prefix_or_directory_of_walkInto hupper hle with hstart | hthere
    · rcases h.entries _ (List.prefix_refl _) with hthere | ⟨-, hnot⟩
      · rw [follow_append, follow_cons, follow_nil, hentry] at hthere
        cases hthere
      · rw [follow_append, follow_cons, follow_nil] at hnot
        exact hnot hstart
    · cases hentry.symm.trans hthere
  unfold turn at hbelow
  split_ifs at hbelow with hhere habove
  · exact absurd (List.prefix_refl _) hbelow
  · exact absurd (List.dropLast_prefix _) hbelow
  · exact ⟨Bool.eq_false_iff.mpr hhere, habove⟩

/-- A passable way can be gone, up to a directory that is missing. -/
theorem walkInto (h : Passable t l ps) :
    t.walkInto l ps = .ok (follow l ps) ∨ t.walkInto l ps = .error .notFound := by
  induction ps using List.reverseRecOn with
  | nil => exact .inl (walkInto_eq_ok_iff.mpr ⟨rfl, h.start⟩)
  | append_singleton ps part ih =>
    rcases ih (h.beginning (List.prefix_append ps [part])) with hupper | hupper
    · have hwalk := h.walk_concat hupper
      rcases h.entries _ (List.prefix_refl _) with hentry | ⟨hentry, -⟩
      · exact .inl (walkInto_eq_ok_iff.mpr ⟨hwalk, hentry⟩)
      · exact .inr (walkInto_of_missing hwalk hentry)
    · exact .inr (walkInto_append_of_error hupper [part])

end Passable

/-! ### Making directories -/

section

variable {isAbsolute slashAllowed : Bool} {unnamed : FileError} {part : String}

theorem dropTrailing_concat (h : part ≠ "") : dropTrailing (ps ++ [part]) = ps ++ [part] :=
  dropTrailing_of_getLast (by simpa using h)

theorem place_of_error {e : FileError} (hpart : part ≠ "")
    (h : t.walkInto (t.start ⟨isAbsolute, ps ++ [part]⟩) ps = .error e) :
    t.place ⟨isAbsolute, ps ++ [part]⟩ slashAllowed unnamed = .error e := by
  unfold place
  simp only [dropTrailing_concat hpart, List.getLast?_concat, List.dropLast_concat, h]
  rfl

/-- A name in a directory is a place for a new entry. -/
theorem place_of_isName (hname : IsName part) (hlength : part.utf8ByteSize ≤ nameLimit)
    (h : t.walkInto (t.start ⟨isAbsolute, ps ++ [part]⟩) ps = .ok l) :
    t.place ⟨isAbsolute, ps ++ [part]⟩ slashAllowed unnamed = .ok (l ++ [part]) := by
  have hpart : part ≠ "" := by
    rintro rfl
    cases hname.1
  unfold place
  simp only [dropTrailing_concat hpart, List.getLast?_concat, List.dropLast_concat, h]
  simp [bind, Except.bind, pure, Except.pure, hname.1, hname.2, hpart, Nat.not_lt.mpr hlength]

/-- Nothing can be made below a directory that is missing. -/
theorem ensureDirectory_of_missing (hcheck : (Path.mk isAbsolute (ps ++ [part])).check = .ok ())
    (hpart : part ≠ "")
    (h : t.walkInto (t.start ⟨isAbsolute, ps ++ [part]⟩) ps = .error .notFound) :
    t.ensureDirectory ⟨isAbsolute, ps ++ [part]⟩ = .error .notFound := by
  have hmake : t.makeDirectory ⟨isAbsolute, ps ++ [part]⟩ = .error .notFound := by
    unfold makeDirectory
    rw [hcheck, place_of_error hpart h]
    rfl
  have hmissing : t.isDirectory ⟨isAbsolute, ps ++ [part]⟩ = false := by
    unfold isDirectory
    rw [hcheck, walkInto_append_of_error h]
    rfl
  unfold ensureDirectory
  simp only [hmake, hmissing, if_neg Bool.false_ne_true]

/-- In a directory that is there, the next one of a passable way is there or is made. -/
theorem ensureDirectory_of_passable (hcheck : (Path.mk isAbsolute (ps ++ [part])).check = .ok ())
    (h : Passable t (t.start ⟨isAbsolute, ps ++ [part]⟩) (ps ++ [part]))
    (hupper : t.walkInto (t.start ⟨isAbsolute, ps ++ [part]⟩) ps =
      .ok (follow (t.start ⟨isAbsolute, ps ++ [part]⟩) ps)) :
    ∃ t', t.ensureDirectory ⟨isAbsolute, ps ++ [part]⟩ = .ok t' ∧
      t'.walkInto (t.start ⟨isAbsolute, ps ++ [part]⟩) (ps ++ [part]) =
        .ok (follow (t.start ⟨isAbsolute, ps ++ [part]⟩) (ps ++ [part])) := by
  have hwalk := h.walk_concat hupper
  rcases h.entries _ (List.prefix_refl _) with hentry | ⟨hentry, -⟩
  · have hthere := walkInto_eq_ok_iff.mpr ⟨hwalk, hentry⟩
    exact ⟨t, ensureDirectory_of_walkInto hcheck hthere, hthere⟩
  · have hname := h.isName_of_missing hupper hentry
    have hlength := h.lengths part (List.mem_append_right ps (List.mem_singleton_self part)) hname
    have hplace : t.place ⟨isAbsolute, ps ++ [part]⟩ true .alreadyExists =
        .ok (follow (t.start ⟨isAbsolute, ps ++ [part]⟩) (ps ++ [part])) := by
      rw [place_of_isName hname hlength hupper, follow_append, follow_cons, follow_nil,
        turn_of_isName hname]
    have hmake : t.makeDirectory ⟨isAbsolute, ps ++ [part]⟩ =
        .ok (t.put (follow (t.start ⟨isAbsolute, ps ++ [part]⟩) (ps ++ [part])) .directory) := by
      unfold makeDirectory
      rw [hcheck, hplace]
      simp [bind, Except.bind, pure, Except.pure, hentry]
    refine ⟨_, by rw [ensureDirectory, hmake], ?_⟩
    have hgrows := makeDirectory_grows hmake
    refine walkInto_eq_ok_iff.mpr ⟨walk_mono (fun _ => hgrows.directory) hwalk, ?_⟩
    rw [entryAt_put t (place_eq_location hplace).2, if_pos rfl]

end

/-- The directories on a passable way are made. -/
theorem makeReversed_of_passable {isAbsolute : Bool}
    (hcheck : (Path.mk isAbsolute qs).check = .ok ()) (hps : ps <+: qs)
    (h : Passable t (t.start ⟨isAbsolute, qs⟩) ps) :
    ∃ t', t.makeReversed isAbsolute ps.reverse = (t', .ok ()) ∧
      t'.walkInto (t.start ⟨isAbsolute, qs⟩) ps = .ok (follow (t.start ⟨isAbsolute, qs⟩) ps) := by
  induction ps using List.reverseRecOn with
  | nil => exact ⟨t, rfl, walkInto_eq_ok_iff.mpr ⟨rfl, h.start⟩⟩
  | append_singleton ps part ih =>
    have hbegin := List.prefix_append ps [part]
    obtain ⟨t₁, hmade, hupper⟩ := ih (hbegin.trans hps) (h.beginning hbegin)
    have hgrows := makeReversed_grows isAbsolute t ps.reverse
    rw [hmade] at hgrows
    by_cases hhere : isHere part
    · rw [makeReversed_of_isHere hhere]
      refine ⟨t₁, hmade, walkInto_eq_ok_iff.mpr ⟨(h.grow hgrows).walk_concat hupper, ?_⟩⟩
      rw [follow_append, follow_cons, follow_nil, turn, if_pos hhere]
      exact (walkInto_eq_ok_iff.mp hupper).2
    rw [Bool.not_eq_true] at hhere
    have hchecked := check_beginning hcheck hps hhere
    rcases (h.beginning hbegin).walkInto with hthere | hmissing
    · obtain ⟨t', hensured, hwalk⟩ := ensureDirectory_of_passable hchecked h hthere
      exact ⟨t', makeReversed_of_ensured hhere hensured, hwalk⟩
    · have hpart : part ≠ "" := by
        rintro rfl
        cases hhere
      have hstart := hgrows.start ⟨isAbsolute, qs⟩
      have hpassable := h.grow hgrows
      rw [← hstart] at hpassable hupper ⊢
      obtain ⟨t', hensured, hwalk⟩ := ensureDirectory_of_passable hchecked hpassable hupper
      have hfirst := ensureDirectory_of_missing hchecked hpart hmissing
      exact ⟨t', makeReversed_of_missing hhere hfirst hmade hensured, hwalk⟩

theorem walk_of_isHere (hl : t.entryAt l = some .directory) (h : ∀ p ∈ ps, isHere p = true) :
    t.walk l ps = .ok l := by
  induction ps with
  | nil => rfl
  | cons p ps ih =>
    obtain ⟨hp, hps⟩ := List.forall_mem_cons.mp h
    rw [walk_cons, hl]
    simp only [if_pos hp]
    exact ih hps

/-- The directory that a name stands in is written without the parts that lead nowhere. -/
theorem exists_append_eq_parent (isAbsolute : Bool) {name : String}
    (hname : isHere name = false) :
    ∃ heres, ps = (Path.mk isAbsolute (ps ++ [name])).parent.parts ++ heres ∧
      ∀ p ∈ heres, isHere p = true := by
  have hparent : (Path.mk isAbsolute (ps ++ [name])).parent.parts =
      (ps.reverse.dropWhile isHere).reverse := by
    simp only [parent, List.reverse_concat, List.dropWhile_cons_of_neg (Bool.eq_false_iff.mp hname),
      List.tail_cons]
  refine ⟨(ps.reverse.takeWhile isHere).reverse, ?_, ?_⟩
  · rw [hparent, ← List.reverse_append, List.takeWhile_append_dropWhile, List.reverse_reverse]
  · exact fun p hp => List.mem_takeWhile_imp (List.mem_reverse.mp hp)

/-- The directory of a file is reached where the directories on its way are made. -/
theorem makeDirectories_of_passable {isAbsolute : Bool} {name : String}
    (hcheck : (Path.mk isAbsolute (ps ++ [name])).check = .ok ()) (hname : isHere name = false)
    (h : Passable t (t.start ⟨isAbsolute, ps ++ [name]⟩) ps) :
    ∃ t', t.makeDirectories ⟨isAbsolute, ps ++ [name]⟩ = (t', .ok ()) ∧
      t'.walkInto (t.start ⟨isAbsolute, ps ++ [name]⟩) ps =
        .ok (follow (t.start ⟨isAbsolute, ps ++ [name]⟩) ps) := by
  obtain ⟨heres, hsplit, hheres⟩ := exists_append_eq_parent isAbsolute hname
  have hbegin : (Path.mk isAbsolute (ps ++ [name])).parent.parts <+: ps := ⟨heres, hsplit.symm⟩
  obtain ⟨t', hmade, hwalk⟩ := makeReversed_of_passable hcheck
    (hbegin.trans (List.prefix_append ps [name])) (h.beginning hbegin)
  refine ⟨t', hmade, ?_⟩
  obtain ⟨hwalk, hdirectory⟩ := walkInto_eq_ok_iff.mp hwalk
  have hall := (walk_append_of_ok hwalk heres).trans (walk_of_isHere hdirectory hheres)
  rw [← hsplit] at hall
  rw [← walk_eq_ok hall]
  exact walkInto_eq_ok_iff.mpr ⟨hall, hdirectory⟩

/-! ### Writable paths -/

/-- A file can be written where a path leads, once directories are made: the way there is passable
    and does not lead through the place of the file, its name is short enough, and there is no
    directory. -/
structure IsWritable (t : FileTree) (p : Path) : Prop where
  check : p.check = .ok ()
  length : ∀ name, p.parts.getLast? = some name → name.utf8ByteSize ≤ nameLimit
  way : Passable t (t.start p) p.way.parts
  not_passes : ¬ p.way.Passes t.workingDirectory (p.location t.workingDirectory)
  target : t.entryAt (p.location t.workingDirectory) ≠ some .directory

theorem write_of_isWritable {isAbsolute : Bool} {name : String} (hname : IsName name)
    (h : t.IsWritable ⟨isAbsolute, ps ++ [name]⟩) (contents : ByteArray) :
    ∃ t', t.makeDirectories ⟨isAbsolute, ps ++ [name]⟩ = (t', .ok ()) ∧
      ∃ files, t'.write ⟨isAbsolute, ps ++ [name]⟩ contents = .ok files := by
  have hway : (Path.mk isAbsolute (ps ++ [name])).way = ⟨isAbsolute, ps⟩ := by
    rw [way, List.dropLast_concat]
  have hpassable := h.way
  rw [hway] at hpassable
  obtain ⟨t', hmade, hwalk⟩ := makeDirectories_of_passable h.check hname.1 hpassable
  refine ⟨t', hmade, ?_⟩
  have hgrows := t.makeDirectories_grows ⟨isAbsolute, ps ++ [name]⟩
  rw [hmade] at hgrows
  rw [← hgrows.start] at hwalk
  have hlength := h.length name (List.getLast?_concat ..)
  have hplace : t'.place ⟨isAbsolute, ps ++ [name]⟩ false .isDirectory =
      .ok (follow (t'.start ⟨isAbsolute, ps ++ [name]⟩) ps ++ [name]) :=
    place_of_isName hname hlength hwalk
  have hlocation := (place_eq_location hplace).1
  rw [hgrows.changesOnly.location] at hlocation
  have htarget : t'.entryAt (follow (t'.start ⟨isAbsolute, ps ++ [name]⟩) ps ++ [name]) ≠
      some .directory := by
    rw [hlocation]
    intro hdirectory
    rcases hgrows.directory_cases hdirectory with hbefore | ⟨hmakes, -⟩
    · exact h.target hbefore
    · exact h.not_passes hmakes.1
  refine ⟨t'.put (follow (t'.start ⟨isAbsolute, ps ++ [name]⟩) ps ++ [name]) (.file contents), ?_⟩
  unfold write
  rw [h.check, hplace]
  simp only [bind, Except.bind, pure, Except.pure, if_neg htarget]

/-! ### Files that are there -/

section

variable {p : Path} {contents : ByteArray}

theorem parts_ne_nil_of_read (h : t.read p = .ok contents) : p.parts ≠ [] := by
  obtain ⟨isAbsolute, parts⟩ := p
  rintro rfl
  obtain ⟨hcheck, -, hfile⟩ := read_eq_ok_iff.mp h
  cases isAbsolute with
  | true => cases hfile
  | false => exact (check_eq_ok_iff.mp hcheck).2.1 rfl

/-- The way to a file leads through directories. -/
theorem directory_of_read (h : t.read p = .ok contents) {l : Location}
    (hl : p.way.Passes t.workingDirectory l) : t.entryAt l = some .directory := by
  obtain ⟨qs, ⟨rest, hrest⟩, rfl⟩ := hl
  obtain ⟨-, hwalk, -⟩ := read_eq_ok_iff.mp h
  rw [← List.dropLast_append_getLast (parts_ne_nil_of_read h)] at hwalk
  have hway : p.parts.dropLast = qs ++ rest := hrest.symm
  rw [hway, List.append_assoc] at hwalk
  exact directory_of_walk hwalk (by simp)

/-- The way to a file does not lead through its place. -/
theorem not_passes_of_read (h : t.read p = .ok contents) :
    ¬ p.way.Passes t.workingDirectory (p.location t.workingDirectory) := by
  intro hpasses
  cases (directory_of_read h hpasses).symm.trans (read_eq_ok_iff.mp h).2.2

theorem length_of_walk {l' : Location} (h : t.walk l ps = .ok l') {part : String}
    (hpart : part ∈ ps) (hname : IsName part) : part.utf8ByteSize ≤ nameLimit := by
  induction ps generalizing l with
  | nil => cases hpart
  | cons q ps ih =>
    obtain ⟨-, hlength, hrest⟩ := walk_cons_eq_ok h
    rcases List.mem_cons.mp hpart with rfl | hpart
    · exact hlength hname
    · exact ih hrest hpart

/-- A file that is there can be written again. -/
theorem isWritable_of_read (hname : ∀ name, p.parts.getLast? = some name → IsName name)
    (h : t.read p = .ok contents) : t.IsWritable p := by
  obtain ⟨hcheck, hwalk, hfile⟩ := read_eq_ok_iff.mp h
  refine ⟨hcheck, ?_, ⟨?_, ?_⟩, not_passes_of_read h, ?_⟩
  · exact fun name hlast => length_of_walk hwalk (List.mem_of_getLast? hlast) (hname name hlast)
  · exact fun part hpart => length_of_walk hwalk ((List.dropLast_sublist _).subset hpart)
  · exact fun qs hqs => .inl (directory_of_read h ⟨qs, hqs, rfl⟩)
  · rw [hfile]
    nofun

end

namespace IsWritable

variable {written made : Location → Prop} {p : Path}

/-- A path stays writable where no file is written on its way and no directory made at its end. -/
theorem grow (h : t.IsWritable p) (hgrows : Grows written made t t')
    (hwritten : ∀ l, written l → ¬ p.way.Passes t.workingDirectory l)
    (hmade : ¬ made (p.location t.workingDirectory)) : t'.IsWritable p := by
  refine ⟨h.check, h.length, ⟨h.way.lengths, ?_⟩, ?_, ?_⟩
  · intro qs hqs
    rw [hgrows.start]
    rcases hgrows.entryAt (follow (t.start p) qs) with hsame | ⟨-, -, hdirectory⟩ | ⟨hl, -⟩
    · rw [hsame]
      exact h.way.entries qs hqs
    · exact .inl hdirectory
    · exact absurd ⟨qs, hqs, rfl⟩ (hwritten _ hl)
  · rw [hgrows.workingDirectory]
    exact h.not_passes
  · rw [hgrows.changesOnly.location]
    intro hdirectory
    rcases hgrows.directory_cases hdirectory with hbefore | ⟨hmakes, -⟩
    · exact h.target hbefore
    · exact hmade hmakes

/-- A path that is writable in the end was so from the start. -/
theorem shrink (h : t'.IsWritable p) (hgrows : Grows written made t t')
    (hmade : ∀ l, made l → ¬ l <+: t.start p) : t.IsWritable p := by
  refine ⟨h.check, h.length, ⟨h.way.lengths, ?_⟩, ?_, ?_⟩
  · intro qs hqs
    have hentry := h.way.entries qs hqs
    rw [hgrows.start] at hentry
    rcases hentry with hdirectory | ⟨hnone, hbelow⟩
    · rcases hgrows.directory_cases hdirectory with hbefore | ⟨hmakes, hnone⟩
      · exact .inl hbefore
      · exact .inr ⟨hnone, hmade _ hmakes⟩
    · exact .inr ⟨hgrows.missing hnone, hbelow⟩
  · rw [← hgrows.workingDirectory]
    exact h.not_passes
  · intro hdirectory
    apply h.target
    rw [hgrows.changesOnly.location]
    exact hgrows.directory hdirectory

end IsWritable

end TaggedUnion.FileTree
