import Mathlib.Data.List.DropRight
import NestedLogit.Text.Blank

/-!
# Parts of a text, and blank space around them

A text is trimmed if it neither begins nor ends with blank space. Trimming makes a text trimmed and
takes nothing else away. Parts that do not contain a separator are what a text consists of that is
made by putting separators between them.

## Main definitions

- `Text.Trimmed` — a text without blank space at its ends

## Main statements

- `Text.trimmed_trimChars`, `Text.trimChars_eq_self_iff` — what trimming does
- `Text.mem_trimChars` — what it keeps
- `Text.trimmed_intercalate` — joined texts are trimmed
- `Text.cut_intercalate` — cutting gives back what was joined
-/

namespace NestedLogit.Text

variable {s t : List Char} {c separator : Char}

/-- A text neither begins nor ends with blank space. -/
structure Trimmed (s : List Char) : Prop where
  head : ∀ c ∈ s.head?, isBlank c = false
  last : ∀ c ∈ s.getLast?, isBlank c = false

section Trim

theorem dropWhile_eq_self_iff : s.dropWhile isBlank = s ↔ ∀ c ∈ s.head?, isBlank c = false := by
  cases s with
  | nil => simp
  | cons c s => simp [List.dropWhile_eq_self_iff]

theorem rdropWhile_eq_self_iff :
    s.rdropWhile isBlank = s ↔ ∀ c ∈ s.getLast?, isBlank c = false := by
  rw [List.rdropWhile, List.reverse_eq_iff, dropWhile_eq_self_iff, List.head?_reverse]

/-- Trimming leaves exactly the trimmed texts alone. -/
theorem trimChars_eq_self_iff : trimChars s = s ↔ Trimmed s := by
  constructor
  · intro h
    have hlength : s.length ≤ (s.dropWhile isBlank).length := by
      conv_lhs => rw [← h]
      exact (List.rdropWhile_prefix isBlank _).length_le
    have hfront := (List.dropWhile_suffix isBlank).eq_of_length_le hlength
    refine ⟨dropWhile_eq_self_iff.1 hfront, rdropWhile_eq_self_iff.1 ?_⟩
    rwa [trimChars, hfront] at h
  · rintro ⟨hhead, hlast⟩
    show (s.dropWhile isBlank).rdropWhile isBlank = s
    rw [dropWhile_eq_self_iff.2 hhead, rdropWhile_eq_self_iff.2 hlast]

theorem trimmed_trimChars (s : List Char) : Trimmed (trimChars s) := by
  refine ⟨?_, rdropWhile_eq_self_iff.1 (List.rdropWhile_idempotent isBlank _)⟩
  -- What is left begins as it did before blank space was removed from its end.
  intro c hc
  obtain ⟨rest, hrest⟩ := List.rdropWhile_prefix isBlank (s.dropWhile isBlank)
  apply dropWhile_eq_self_iff.1 (List.dropWhile_idempotent isBlank s)
  rw [← hrest, List.head?_append]
  exact Option.mem_def.2 (Option.or_eq_some_iff.2 (.inl hc))

theorem mem_dropWhile (h : c ∈ s) (hc : isBlank c = false) : c ∈ s.dropWhile isBlank := by
  rw [← List.takeWhile_append_dropWhile (p := isBlank) (l := s), List.mem_append] at h
  refine h.resolve_left fun hblank => ?_
  exact absurd ((List.mem_takeWhile_imp hblank).symm.trans hc) nofun

/-- Trimming takes nothing away but blank space. -/
theorem mem_trimChars (h : c ∈ s) (hc : isBlank c = false) : c ∈ trimChars s :=
  List.mem_reverse.2 (mem_dropWhile (List.mem_reverse.2 (mem_dropWhile h hc)) hc)

theorem trimChars_subset (s : List Char) : trimChars s ⊆ s :=
  fun _ h => (List.dropWhile_sublist isBlank).subset
    ((List.rdropWhile_prefix isBlank _).subset h)

end Trim

section Join

/-- Whatever stands between two trimmed texts does not make the whole less trimmed. -/
theorem Trimmed.append (hs : Trimmed s) (ht : Trimmed t) (hs' : s ≠ []) (ht' : t ≠ [])
    (between : List Char) : Trimmed (s ++ between ++ t) := by
  constructor
  · rw [List.append_assoc, List.head?_append_of_ne_nil _ hs']
    exact hs.head
  · rw [List.getLast?_append_of_ne_nil _ ht']
    exact ht.last

theorem trimmed_intercalate {parts : List (List Char)} (hne : parts ≠ [])
    (h : ∀ part ∈ parts, part ≠ [] ∧ Trimmed part) (between : List Char) :
    between.intercalate parts ≠ [] ∧ Trimmed (between.intercalate parts) := by
  induction parts with
  | nil => exact absurd rfl hne
  | cons part rest ih =>
    obtain ⟨⟨hpart, htrimmed⟩, hrest⟩ := List.forall_mem_cons.1 h
    cases rest with
    | nil =>
      rw [List.intercalate_singleton]
      exact ⟨hpart, htrimmed⟩
    | cons part' rest =>
      obtain ⟨hjoined, hjoined'⟩ := ih (List.cons_ne_nil _ _) hrest
      rw [List.intercalate_cons_cons]
      refine ⟨?_, htrimmed.append hjoined' hpart hjoined between⟩
      exact List.append_ne_nil_of_right_ne_nil _ hjoined

end Join

section Cut

/-- Cutting is splitting a list. -/
theorem cut_eq_splitOn (separator : Char) (s : List Char) :
    cut separator s = s.splitOn separator := by
  induction s with
  | nil => rfl
  | cons c rest ih =>
    rw [cut, ih, List.splitOn_cons_eq_if_modifyHead]
    simp only [beq_iff_eq]
    cases hparts : rest.splitOn separator with
    | nil => exact absurd hparts (List.splitOn_ne_nil _ _)
    | cons part parts => rfl

/-- Cutting gives back parts that were joined by a separator which none of them contains. -/
theorem cut_intercalate {parts : List (List Char)} (hne : parts ≠ [])
    (h : ∀ part ∈ parts, separator ∉ part) :
    cut separator ([separator].intercalate parts) = parts := by
  rw [cut_eq_splitOn]
  exact List.splitOn_intercalate separator h hne

theorem not_mem_of_mem_cut {part : List Char} (h : part ∈ cut separator s) : separator ∉ part := by
  induction s generalizing part with
  | nil =>
    rw [cut, List.mem_singleton] at h
    simp [h]
  | cons c rest ih =>
    rw [cut] at h
    split at h
    · rcases List.mem_cons.1 h with rfl | h
      · exact List.not_mem_nil
      · exact ih h
    · next hc =>
      cases hcut : cut separator rest with
      | nil =>
        rw [hcut] at h
        obtain rfl := List.mem_singleton.1 h
        exact fun hmem => hc (List.mem_singleton.1 hmem).symm
      | cons first parts =>
        rw [hcut] at h
        rcases List.mem_cons.1 h with rfl | h
        · rw [List.mem_cons, not_or]
          exact ⟨fun heq => hc heq.symm, ih (hcut ▸ List.mem_cons_self)⟩
        · exact ih (hcut ▸ List.mem_cons_of_mem _ h)

end Cut

end NestedLogit.Text
