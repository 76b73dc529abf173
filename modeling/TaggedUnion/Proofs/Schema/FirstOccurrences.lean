import Mathlib.Data.Finset.Card
import Mathlib.Data.List.Find
import Mathlib.Data.List.Perm.Basic

/-! # First occurrences

    A list of elements with keys, of which the first one for each key is kept:

    * **`eraseDupsBy_rec`**: the induction along the elements that are kept.
    * **`map_eraseDupsBy_sameKey`**: their keys are the distinct keys, and
      **`pairwise_idxOf_eraseDups`** the order of these.
    * **`find?_of_mem_eraseDupsBy`**: each of them is found first for its key.
    * **`nodup_iff_length_filter_le`**: no key occurs twice exactly if none of them has a namesake.
-/

namespace TaggedUnion.Schema

section relation

variable {α : Type} {r : α → α → Bool}

/-- Behind the first element go on those that it does not stand for. -/
theorem eraseDupsBy_rec {motive : List α → Prop} (nil : motive [])
    (cons : ∀ x xs, motive (xs.filter fun b => r b x = false) → motive (x :: xs))
    (xs : List α) : motive xs := by
  -- The rest is filtered before the next step, so the induction is on the length.
  induction hn : xs.length using Nat.strongRecOn generalizing xs with
  | ind n ih =>
    cases xs with
    | nil => exact nil
    | cons x xs =>
      have hlt : (xs.filter fun b => r b x = false).length < n := by
        rw [← hn, List.length_cons]
        exact Nat.lt_succ_of_le (List.length_filter_le _ _)
      exact cons x xs (ih _ hlt _ rfl)

/-- First occurrences among images are the images of first occurrences. -/
theorem eraseDupsBy_map {α β : Type} (f : α → β) (r : β → β → Bool) (xs : List α) :
    (xs.map f).eraseDupsBy r = (xs.eraseDupsBy fun a b => r (f a) (f b)).map f := by
  induction xs using eraseDupsBy_rec (r := fun a b => r (f a) (f b)) with
  | nil => rfl
  | cons x xs ih =>
    rw [List.map_cons, List.eraseDupsBy_cons, List.eraseDupsBy_cons, List.map_cons,
      List.filter_map]
    exact congrArg _ ih

theorem eraseDupsBy_sublist (r : α → α → Bool) (xs : List α) : (xs.eraseDupsBy r).Sublist xs := by
  induction xs using eraseDupsBy_rec (r := r) with
  | nil => exact List.Sublist.slnil
  | cons x xs ih =>
    rw [List.eraseDupsBy_cons]
    exact (ih.trans List.filter_sublist).cons_cons x

end relation

/-! ### Keys -/

section keys

variable {α : Type} (key : α → Nat)

/-- The comparison of two elements by their keys. -/
def sameKey (a b : α) : Bool := key a == key b

/-- Where no key occurs twice, every element is a first occurrence. -/
theorem eraseDupsBy_of_nodup {xs : List α} (h : (xs.map key).Nodup) :
    xs.eraseDupsBy (sameKey key) = xs := by
  induction xs with
  | nil => rfl
  | cons x xs ih =>
    obtain ⟨hx, hxs⟩ := List.nodup_cons.mp h
    have hkeep : (xs.filter fun b => sameKey key b x = false) = xs := by
      refine List.filter_eq_self.mpr ?_
      intro b hb
      have hne : key b ≠ key x := fun heq => hx (heq ▸ List.mem_map_of_mem hb)
      simpa [sameKey] using hne
    rw [List.eraseDupsBy_cons, hkeep, ih hxs]

/-- The key of every element is the key of a first occurrence. -/
theorem exists_key_mem_eraseDupsBy {xs : List α} {x : α} (h : x ∈ xs) :
    ∃ y ∈ xs.eraseDupsBy (sameKey key), key y = key x := by
  induction xs using eraseDupsBy_rec (r := sameKey key) with
  | nil => cases h
  | cons a xs ih =>
    rw [List.eraseDupsBy_cons]
    -- What has the key of the first element is filtered out, and that one stands for it.
    by_cases hkey : key x = key a
    · exact ⟨a, List.mem_cons_self, hkey.symm⟩
    · have hmem : x ∈ xs.filter fun b => sameKey key b a = false := by
        rcases List.mem_cons.mp h with rfl | h
        · exact absurd rfl hkey
        · simpa [sameKey, hkey] using h
      obtain ⟨y, hy, hyx⟩ := ih hmem
      exact ⟨y, List.mem_cons_of_mem _ hy, hyx⟩

/-- A first occurrence is the first element with its key. -/
theorem find?_of_mem_eraseDupsBy {xs : List α} {x : α}
    (h : x ∈ xs.eraseDupsBy (sameKey key)) : xs.find? (key · == key x) = some x := by
  induction xs using eraseDupsBy_rec (r := sameKey key) with
  | nil => cases h
  | cons a xs ih =>
    rw [List.eraseDupsBy_cons] at h
    rcases List.mem_cons.mp h with rfl | h
    · exact List.find?_cons_of_pos (by simp)
    · -- What has the key of the first element is filtered out, so this key is another one.
      have hkept := List.mem_filter.mp ((eraseDupsBy_sublist _ _).subset h)
      have hne : key x ≠ key a := by simpa [sameKey] using hkept.2
      have hfind := ih h
      rw [List.find?_filter] at hfind
      rw [List.find?_cons_of_neg (by simpa using hne.symm), ← hfind]
      refine List.find?_congr fun b _ => ?_
      by_cases hb : key b = key x
      · simp [sameKey, hb, hne]
      · simp [hb]

/-- The keys of first occurrences are the distinct keys. -/
theorem map_eraseDupsBy_sameKey (xs : List α) :
    (xs.eraseDupsBy (sameKey key)).map key = (xs.map key).eraseDups :=
  (eraseDupsBy_map key (· == ·) xs).symm

theorem count_map_key (xs : List α) (k : Nat) :
    (xs.map key).count k = (xs.filter (key · == k)).length := by
  rw [List.count_eq_countP, List.countP_map, List.countP_eq_length_filter]
  rfl

/-- No key occurs twice exactly if no first occurrence has a namesake. -/
theorem nodup_iff_length_filter_le {xs : List α} :
    (xs.map key).Nodup ↔
      ∀ x ∈ xs.eraseDupsBy (sameKey key), (xs.filter (key · == key x)).length ≤ 1 := by
  rw [List.nodup_iff_count]
  constructor
  · intro h x _
    rw [← count_map_key]
    exact h (key x)
  · intro h k
    rw [count_map_key]
    -- A key that occurs is that of a first occurrence, and another one is not counted at all.
    by_cases hk : ∃ x ∈ xs, key x = k
    · obtain ⟨x, hx, rfl⟩ := hk
      obtain ⟨y, hy, hyx⟩ := exists_key_mem_eraseDupsBy key hx
      rw [← hyx]
      exact h y hy
    · have hnone : xs.filter (key · == k) = [] := by
        refine List.filter_eq_nil_iff.mpr ?_
        intro x hx
        have hne : key x ≠ k := fun heq => hk ⟨x, hx, heq⟩
        simpa using hne
      rw [hnone]
      exact Nat.zero_le _

end keys

/-! ### Distinct values -/

section values

variable {β : Type} [BEq β] [LawfulBEq β]

/-- Distinct values stand in the order in which they are first found. -/
theorem pairwise_idxOf_eraseDups (xs : List β) :
    xs.eraseDups.Pairwise fun a b => xs.idxOf a < xs.idxOf b := by
  -- A further value is put behind the others unless it is there already, so the induction is on
  -- the end of the list.
  induction xs using List.reverseRecOn with
  | nil => exact List.Pairwise.nil
  | append_singleton xs x ih =>
    have hkept : xs.eraseDups.Pairwise fun a b => (xs ++ [x]).idxOf a < (xs ++ [x]).idxOf b := by
      refine ih.imp_of_mem ?_
      intro a b ha hb hlt
      rw [List.idxOf_append_of_mem (List.mem_eraseDups.mp ha),
        List.idxOf_append_of_mem (List.mem_eraseDups.mp hb)]
      exact hlt
    rw [List.eraseDups_append]
    by_cases hx : x ∈ xs
    · have hnone : [x].removeAll xs = [] := by simp [List.removeAll, hx]
      rw [hnone, List.eraseDups_nil, List.append_nil]
      exact hkept
    · have hone : [x].removeAll xs = [x] := by simp [List.removeAll, hx]
      have hself : [x].eraseDups = [x] := rfl
      rw [hone, hself]
      refine List.pairwise_append.mpr ⟨hkept, List.pairwise_singleton _ x, ?_⟩
      intro a ha b hb
      obtain rfl := List.mem_singleton.mp hb
      have ha : a ∈ xs := List.mem_eraseDups.mp ha
      have hlt : xs.idxOf a < xs.length := List.idxOf_lt_length_of_mem ha
      rw [List.idxOf_append_of_mem ha, List.idxOf_append_of_notMem hx]
      omega

theorem nodup_eraseDups (xs : List β) : xs.eraseDups.Nodup := by
  refine (pairwise_idxOf_eraseDups xs).imp ?_
  rintro a _ hlt rfl
  exact Nat.lt_irrefl _ hlt

theorem length_eraseDups {β : Type} [DecidableEq β] (xs : List β) :
    xs.eraseDups.length = xs.toFinset.card := by
  rw [← List.toFinset_card_of_nodup (nodup_eraseDups xs)]
  congr 1
  ext a
  simp

end values

end TaggedUnion.Schema
